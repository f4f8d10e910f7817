import Mathlib.Data.List.Nodup
import Socketxx.Library.RefCount
import Socketxx.Library.Runs

/-!
The data of a server's clients, for a `cli_data_t` that is not void.

A client object has a reference counter and a pointer `_d`, as two members. Each of its
constructors says what it does with either, and the destructor that brings the counter
to zero deletes what the pointer of its own object points to.
-/

set_option autoImplicit false

namespace Socketxx.ClientData

open RefCount
open Runs

/-- Where a client object lives: a variable or temporary, the list of retained clients, or
behind the pointer of a `server_thread_data`. -/
inductive Place where
  | scoped
  | retained
  | threadData
deriving DecidableEq, Repr

structure Client where
  place : Place
  counter : Nat
  d : Nat
deriving DecidableEq, Repr

structure World where
  pool : Pool Client Nat
  /-- How many counters have been made. -/
  counters : Nat
  /-- How many data have been allocated by a constructor. -/
  allocated : Nat
  deleted : List Nat

def World.initial : World :=
  { pool := Pool.empty
    counters := 0
    allocated := 0
    deleted := [] }

def World.construct (world : World) : World :=
  { world with
    pool := world.pool.construct Client.counter ⟨.scoped, world.counters, world.allocated⟩
    counters := world.counters + 1
    allocated := world.allocated + 1 }

def World.recreate (world : World) (source : Nat) : World :=
  match world.pool.objects[source]? with
  | none => world
  | some other =>
      { world with
        pool := world.pool.share Client.counter ⟨.scoped, other.counter, world.allocated⟩
        allocated := world.allocated + 1 }

def World.copy (world : World) (source : Nat) (place : Place) : World :=
  match world.pool.objects[source]? with
  | none => world
  | some other =>
      { world with
        pool := world.pool.share Client.counter ⟨place, other.counter, other.d⟩ }

def World.destruct (world : World) (index : Nat) : World :=
  match world.pool.objects[index]? with
  | none => world
  | some client =>
      { world with
        pool := world.pool.destroy Client.counter index client
        deleted :=
          if world.pool.left Client.counter client = 0 then world.deleted ++ [client.d]
          else world.deleted }

def World.LivesIn (world : World) (index : Nat) (place : Place) : Prop :=
  (world.pool.objects[index]?).map Client.place = some place

instance (world : World) (index : Nat) (place : Place) : Decidable (world.LivesIn index place) :=
  inferInstanceAs (Decidable (_ = _))

def World.destructIn (world : World) (index : Nat) (place : Place) : World :=
  if world.LivesIn index place then world.destruct index else world

inductive Op where
  | waitNewClient
  | recreate (source : Nat)
  | copy (source : Nat)
  | retainClient (source : Nat)
  | releaseClient (index : Nat)
  | putClientThreaded (source : Nat)
  /-- `_client(server_thread_data*)`. -/
  | threadClient (index : Nat)
  | destroy (index : Nat)
deriving DecidableEq, Repr

def World.step (world : World) : Op → World
  | .waitNewClient => world.construct
  | .recreate source => world.recreate source
  | .copy source => world.copy source .scoped
  | .retainClient source => world.copy source .retained
  | .releaseClient index => world.destructIn index .retained
  | .putClientThreaded source => world.copy source .threadData
  | .threadClient index =>
      if world.LivesIn index .threadData then (world.copy index .scoped).destruct index
      else world
  | .destroy index => world.destructIn index .scoped

/-- `wait_new_client_threaded` where that many objects are alive: the client of
`wait_new_client` is a temporary that ends with the declaration of `c`. -/
def waitNewClientThreaded (alive : Nat) : List Op :=
  [.waitNewClient, .recreate alive, .destroy alive, .putClientThreaded alive]

def World.Held (world : World) (d : Nat) : Prop := ∃ client ∈ world.pool.objects, client.d = d

/-- No data is deleted twice, and those that are deleted are just those no object points to
any more. -/
structure World.OwnedOnce (world : World) : Prop where
  once : world.deleted.Nodup
  last : ∀ d, d ∈ world.deleted ↔ d < world.allocated ∧ ¬ world.Held d

/-- The object is not the last one that points to its data, unless it is the last one that
shares its counter. -/
def World.Leaves (world : World) (index : Nat) : Prop :=
  ∀ client, world.pool.objects[index]? = some client →
    (∃ other ∈ world.pool.objects.eraseIdx index, other.counter = client.counter) →
      ∃ other ∈ world.pool.objects.eraseIdx index, other.d = client.d

/-- The step does not destroy the last object that points to a data while others share its
counter. -/
def World.Spares (world : World) : Op → Prop
  | .waitNewClient => True
  | .recreate _ => True
  | .copy _ => True
  | .retainClient _ => True
  | .releaseClient index => world.LivesIn index .retained → world.Leaves index
  | .putClientThreaded _ => True
  | .threadClient _ => True
  | .destroy index => world.LivesIn index .scoped → world.Leaves index

/-! ### What constructors and destructors keep -/

def Determines (first second : Client → Nat) (clients : List Client) : Prop :=
  ∀ client ∈ clients, ∀ other ∈ clients, first client = first other →
    second client = second other

theorem Determines.nil (first second : Client → Nat) : Determines first second [] :=
  List.forall_mem_nil _

theorem Determines.concat {first second : Client → Nat} {clients : List Client}
    {added : Client} (determines : Determines first second clients)
    (agrees : ∀ other ∈ clients, first other = first added → second other = second added) :
    Determines first second (clients ++ [added]) := by
  intro client member other otherMember same
  rw [List.mem_append, List.mem_singleton] at member otherMember
  rcases member with old | rfl
  · rcases otherMember with otherOld | rfl
    · exact determines client old other otherOld same
    · exact agrees client old same
  · rcases otherMember with otherOld | rfl
    · exact (agrees other otherOld same.symm).symm
    · rfl

theorem Determines.eraseIdx {first second : Client → Nat} {clients : List Client}
    (determines : Determines first second clients) (index : Nat) :
    Determines first second (clients.eraseIdx index) := by
  intro client member other otherMember same
  exact determines client (List.mem_of_mem_eraseIdx member) other
    (List.mem_of_mem_eraseIdx otherMember) same

/-- Objects that point to the same data share a counter; the converse holds only where
none was re-created. -/
structure World.Sound (world : World) : Prop where
  counted : world.pool.Counted Client.counter
  counter_lt : ∀ client ∈ world.pool.objects, client.counter < world.counters
  d_lt : ∀ client ∈ world.pool.objects, client.d < world.allocated
  shared : Determines Client.d Client.counter world.pool.objects
  owned : world.OwnedOnce

theorem initial_sound : World.initial.Sound := by
  constructor
  case counted => exact Pool.empty_counted
  case counter_lt => exact List.forall_mem_nil _
  case d_lt => exact List.forall_mem_nil _
  case shared => exact Determines.nil _ _
  case owned =>
    constructor
    case once => exact List.nodup_nil
    case last =>
      intro d
      exact iff_of_false List.not_mem_nil (fun both => Nat.not_lt_zero d both.1)

theorem World.Sound.not_deleted {world : World} (sound : world.Sound) {client : Client}
    (member : client ∈ world.pool.objects) : client.d ∉ world.deleted := by
  intro gone
  exact ((sound.owned.last client.d).mp gone).2 ⟨client, member, rfl⟩

private theorem World.OwnedOnce.allocates {world after : World} (owned : world.OwnedOnce)
    {client : Client} (objects : after.pool.objects = world.pool.objects ++ [client])
    (d : client.d = world.allocated) (allocated : after.allocated = world.allocated + 1)
    (deleted : after.deleted = world.deleted) : after.OwnedOnce := by
  constructor
  case once =>
    rw [deleted]
    exact owned.once
  case last =>
    intro other
    have held : after.Held other ↔ world.Held other ∨ other = world.allocated := by
      rw [World.Held, objects, ← d, World.Held]
      simp only [List.mem_append, List.mem_singleton, or_and_right, exists_or, exists_eq_left]
      exact or_congr_right eq_comm
    rw [deleted, owned.last, held, allocated]
    constructor
    · intro both
      obtain ⟨known, free⟩ := both
      constructor
      · omega
      · intro kept
        rcases kept with kept | same
        · exact free kept
        · omega
    · intro both
      obtain ⟨known, free⟩ := both
      rw [not_or] at free
      have other_ne : other ≠ world.allocated := free.2
      exact ⟨by omega, free.1⟩

theorem World.Sound.allocates {world after : World} (sound : world.Sound) {client : Client}
    (objects : after.pool.objects = world.pool.objects ++ [client])
    (d : client.d = world.allocated) (allocated : after.allocated = world.allocated + 1)
    (deleted : after.deleted = world.deleted) (counted : after.pool.Counted Client.counter)
    (counters : world.counters ≤ after.counters) (counter : client.counter < after.counters) :
    after.Sound := by
  constructor
  case counted => exact counted
  case counter_lt =>
    rw [objects, List.forall_mem_append, List.forall_mem_singleton]
    exact ⟨fun other member => Nat.lt_of_lt_of_le (sound.counter_lt other member) counters,
      counter⟩
  case d_lt =>
    rw [objects, List.forall_mem_append, List.forall_mem_singleton, allocated, d]
    exact ⟨fun other member => Nat.lt_succ_of_lt (sound.d_lt other member),
      Nat.lt_succ_self _⟩
  case shared =>
    rw [objects]
    apply sound.shared.concat
    intro other member same
    rw [d] at same
    exact absurd same (Nat.ne_of_lt (sound.d_lt other member))
  case owned => exact sound.owned.allocates objects d allocated deleted

theorem World.Sound.construct {world : World} (sound : world.Sound) :
    world.construct.Sound := by
  have counted : world.construct.pool.Counted Client.counter := by
    apply sound.counted.construct
    intro other member
    exact Nat.ne_of_lt (sound.counter_lt other member)
  exact sound.allocates rfl rfl rfl rfl counted (Nat.le_succ _) (Nat.lt_succ_self _)

theorem World.Sound.recreate {world : World} (sound : world.Sound) (source : Nat) :
    (world.recreate source).Sound := by
  cases found : world.pool.objects[source]? with
  | none =>
      rw [World.recreate, found]
      exact sound
  | some original =>
      have recreated : world.recreate source =
          { world with
            pool := world.pool.share Client.counter
              ⟨.scoped, original.counter, world.allocated⟩
            allocated := world.allocated + 1 } := by
        rw [World.recreate, found]
      rw [recreated]
      exact sound.allocates rfl rfl rfl rfl (sound.counted.share _) (Nat.le_refl _)
        (sound.counter_lt original (List.mem_of_getElem? found))

theorem World.copy_of_found {world : World} {source : Nat} {original : Client}
    (found : world.pool.objects[source]? = some original) (place : Place) :
    world.copy source place =
      { world with
        pool := world.pool.share Client.counter ⟨place, original.counter, original.d⟩ } := by
  rw [World.copy, found]

private theorem World.Sound.copy {world : World} (sound : world.Sound) (source : Nat)
    (place : Place) : (world.copy source place).Sound := by
  cases found : world.pool.objects[source]? with
  | none =>
      rw [World.copy, found]
      exact sound
  | some original =>
      have originalMember := List.mem_of_getElem? found
      rw [World.copy_of_found found]
      constructor
      case counted => exact sound.counted.share _
      case counter_lt =>
        exact List.forall_mem_append.mpr ⟨sound.counter_lt,
          List.forall_mem_singleton.mpr (sound.counter_lt original originalMember)⟩
      case d_lt =>
        exact List.forall_mem_append.mpr ⟨sound.d_lt,
          List.forall_mem_singleton.mpr (sound.d_lt original originalMember)⟩
      case shared =>
        apply sound.shared.concat
        intro other member same
        exact sound.shared other member original originalMember same
      case owned =>
        constructor
        case once => exact sound.owned.once
        case last =>
          intro d
          rw [sound.owned.last]
          apply and_congr_right
          intro _
          apply not_congr
          constructor
          · intro held
            obtain ⟨client, member, same⟩ := held
            exact ⟨client, List.mem_append_left _ member, same⟩
          · intro held
            obtain ⟨client, member, same⟩ := held
            rcases List.mem_append.mp member with old | new
            · exact ⟨client, old, same⟩
            · rw [List.mem_singleton.mp new] at same
              exact ⟨original, originalMember, same⟩

private theorem World.held_iff_eraseIdx {world : World} {index : Nat} {client : Client}
    (found : world.pool.objects[index]? = some client) (d : Nat) :
    world.Held d ↔
      client.d = d ∨ ∃ other ∈ world.pool.objects.eraseIdx index, other.d = d := by
  unfold World.Held
  simp only [mem_iff_eraseIdx found, or_and_right, exists_or, exists_eq_left]

theorem World.destruct_of_found {world : World} {index : Nat} {client : Client}
    (found : world.pool.objects[index]? = some client) :
    world.destruct index =
      { world with
        pool := world.pool.destroy Client.counter index client
        deleted :=
          if world.pool.left Client.counter client = 0 then world.deleted ++ [client.d]
          else world.deleted } := by
  rw [World.destruct, found]

private theorem World.Sound.destruct_owned {world : World} (sound : world.Sound) {index : Nat}
    {client : Client} (found : world.pool.objects[index]? = some client)
    (leaves : world.Leaves index) : (world.destruct index).OwnedOnce := by
  have member := List.mem_of_getElem? found
  have kept := sound.not_deleted member
  rw [World.destruct_of_found found]
  by_cases last : world.pool.left Client.counter client = 0
  · simp only [if_pos last]
    rw [sound.counted.left_eq_zero_iff found] at last
    have alone : ∀ other ∈ world.pool.objects.eraseIdx index, other.d ≠ client.d := by
      intro other otherMember same
      exact last other otherMember
        (sound.shared other (List.mem_of_mem_eraseIdx otherMember) client member same)
    constructor
    case once =>
      rw [← List.concat_eq_append]
      exact List.Nodup.concat kept sound.owned.once
    case last =>
      intro d
      change d ∈ world.deleted ++ [client.d] ↔
        d < world.allocated ∧ ¬ ∃ other ∈ world.pool.objects.eraseIdx index, other.d = d
      rw [List.mem_append, List.mem_singleton, sound.owned.last, world.held_iff_eraseIdx found]
      constructor
      · intro gone
        rcases gone with gone | rfl
        · exact ⟨gone.1, fun held => gone.2 (Or.inr held)⟩
        · constructor
          · exact sound.d_lt client member
          · intro held
            obtain ⟨other, otherMember, same⟩ := held
            exact alone other otherMember same
      · intro both
        obtain ⟨known, free⟩ := both
        by_cases same : client.d = d
        · exact Or.inr same.symm
        · exact Or.inl ⟨known, not_or.mpr ⟨same, free⟩⟩
  · simp only [if_neg last]
    rw [sound.counted.left_eq_zero_iff found] at last
    push Not at last
    obtain ⟨heir, heirMember, same⟩ := leaves client found last
    constructor
    case once => exact sound.owned.once
    case last =>
      intro d
      change d ∈ world.deleted ↔
        d < world.allocated ∧ ¬ ∃ other ∈ world.pool.objects.eraseIdx index, other.d = d
      rw [sound.owned.last, world.held_iff_eraseIdx found]
      apply and_congr_right
      intro _
      apply not_congr
      apply or_iff_right_of_imp
      rintro rfl
      exact ⟨heir, heirMember, same⟩

theorem World.Sound.destruct {world : World} (sound : world.Sound) {index : Nat}
    (leaves : world.Leaves index) : (world.destruct index).Sound := by
  cases found : world.pool.objects[index]? with
  | none =>
      rw [World.destruct, found]
      exact sound
  | some client =>
      have owned := sound.destruct_owned found leaves
      rw [World.destruct_of_found found] at owned ⊢
      constructor
      case counted => exact sound.counted.destroy found
      case counter_lt =>
        intro other member
        exact sound.counter_lt other (List.mem_of_mem_eraseIdx member)
      case d_lt =>
        intro other member
        exact sound.d_lt other (List.mem_of_mem_eraseIdx member)
      case shared => exact sound.shared.eraseIdx index
      case owned => exact owned

private theorem World.Sound.destruct_breaks {world : World} (sound : world.Sound) {index : Nat}
    (other : ¬ world.Leaves index) : ¬ (world.destruct index).OwnedOnce := by
  unfold World.Leaves at other
  push Not at other
  obtain ⟨client, found, shares, alone⟩ := other
  have member := List.mem_of_getElem? found
  have left : world.pool.left Client.counter client ≠ 0 := by
    intro last
    rw [sound.counted.left_eq_zero_iff found] at last
    obtain ⟨sharer, sharerMember, same⟩ := shares
    exact last sharer sharerMember same
  rw [World.destruct_of_found found, if_neg left]
  intro owned
  have lost : ¬ ∃ other ∈ world.pool.objects.eraseIdx index, other.d = client.d := by
    intro held
    obtain ⟨heir, heirMember, same⟩ := held
    exact alone heir heirMember same
  exact sound.not_deleted member
    ((owned.last client.d).mpr ⟨sound.d_lt client member, lost⟩)

private theorem World.Sound.destructIn {world : World} (sound : world.Sound) {index : Nat}
    {place : Place} (leaves : world.LivesIn index place → world.Leaves index) :
    (world.destructIn index place).Sound := by
  rw [World.destructIn]
  split
  · rename_i lives
    exact sound.destruct (leaves lives)
  · exact sound

theorem World.Sound.destructIn_breaks {world : World} (sound : world.Sound) {index : Nat}
    {place : Place} (other : ¬ (world.LivesIn index place → world.Leaves index)) :
    ¬ (world.destructIn index place).OwnedOnce := by
  obtain ⟨lives, loses⟩ := Classical.not_imp.mp other
  rw [World.destructIn, if_pos lives]
  exact sound.destruct_breaks loses

private theorem World.copy_leaves {world : World} {index : Nat} (place : Place) :
    (world.copy index place).Leaves index := by
  intro client found _
  cases source : world.pool.objects[index]? with
  | none =>
      rw [World.copy, source] at found
      rw [source] at found
      cases found
  | some original =>
      have bound := (List.getElem?_eq_some_iff.mp source).1
      rw [World.copy_of_found source] at found ⊢
      simp only [Pool.share] at found ⊢
      rw [List.getElem?_append_left bound, source] at found
      obtain rfl := Option.some.inj found
      rw [List.eraseIdx_append_of_lt_length bound]
      exact ⟨_, List.mem_append_right _ (List.mem_singleton_self _), rfl⟩

/-! ### Runs -/

theorem World.Sound.step {world : World} (sound : world.Sound) (op : Op)
    (spares : world.Spares op) : (world.step op).Sound := by
  cases op with
  | waitNewClient => exact sound.construct
  | recreate source => exact sound.recreate source
  | copy source => exact sound.copy source .scoped
  | retainClient source => exact sound.copy source .retained
  | releaseClient index => exact sound.destructIn spares
  | putClientThreaded source => exact sound.copy source .threadData
  | threadClient index =>
      rw [World.step]
      split
      · exact (sound.copy index .scoped).destruct (World.copy_leaves .scoped)
      · exact sound
  | destroy index => exact sound.destructIn spares

private theorem World.Sound.breaks {world : World} (sound : world.Sound) (op : Op)
    (other : ¬ world.Spares op) : ¬ (world.step op).OwnedOnce := by
  cases op with
  | waitNewClient => exact absurd trivial other
  | recreate source => exact absurd trivial other
  | copy source => exact absurd trivial other
  | retainClient source => exact absurd trivial other
  | releaseClient index => exact sound.destructIn_breaks other
  | putClientThreaded source => exact absurd trivial other
  | threadClient index => exact absurd trivial other
  | destroy index => exact sound.destructIn_breaks other

/-- In every state of a run each data allocated so far is deleted exactly once if no client
points to it any more, and not at all otherwise, if and only if no step of the run destroys
the last client that points to a data while other ones share its counter. -/
theorem ownedOnce_iff (ops : List Op) :
    EveryState World.step World.OwnedOnce World.initial ops ↔
      EveryStep World.step World.Spares World.initial ops :=
  @everyState_iff_everyStep World Op World.step World.Sound World.OwnedOnce World.Spares
    (fun _ sound => sound.owned) (fun _ op sound spares => sound.step op spares)
    (fun _ op sound other => sound.breaks op other) _ initial_sound ops

/-- The temporary of `wait_new_client_threaded` takes the last pointer to its data with it,
while `c` shares its counter. -/
theorem waitNewClientThreaded_leaks :
    ¬ EveryState World.step World.OwnedOnce World.initial (waitNewClientThreaded 0) ∧
      ((waitNewClientThreaded 0).foldl World.step World.initial).pool.objects =
        [⟨.scoped, 0, 1⟩, ⟨.threadData, 0, 1⟩] ∧
      ((waitNewClientThreaded 0 ++ [Op.threadClient 1, .destroy 0, .destroy 0]).foldl World.step
        World.initial).pool.objects = [] ∧
      ((waitNewClientThreaded 0 ++ [Op.threadClient 1, .destroy 0, .destroy 0]).foldl World.step
        World.initial).deleted = [1] := by
  refine ⟨?_, rfl, rfl, rfl⟩
  intro every
  have lost := (every.2.2.2.1.last 0).mpr
  revert lost
  unfold World.Held
  decide

/-! ### With and without re-created clients -/

def World.Uniform (world : World) : Prop :=
  Determines Client.counter Client.d world.pool.objects

private theorem World.Uniform.leaves {world : World} (uniform : world.Uniform) (index : Nat) :
    world.Leaves index := by
  intro client found shares
  obtain ⟨other, otherMember, same⟩ := shares
  exact ⟨other, otherMember, uniform other (List.mem_of_mem_eraseIdx otherMember) client
    (List.mem_of_getElem? found) same⟩

private theorem World.Uniform.copy {world : World} (uniform : world.Uniform) (source : Nat)
    (place : Place) : (world.copy source place).Uniform := by
  cases found : world.pool.objects[source]? with
  | none =>
      rw [World.copy, found]
      exact uniform
  | some original =>
      rw [World.copy_of_found found]
      apply Determines.concat uniform
      intro other member same
      exact uniform other member original (List.mem_of_getElem? found) same

theorem World.Uniform.destruct {world : World} (uniform : world.Uniform) (index : Nat) :
    (world.destruct index).Uniform := by
  cases found : world.pool.objects[index]? with
  | none =>
      rw [World.destruct, found]
      exact uniform
  | some client =>
      rw [World.destruct_of_found found]
      exact Determines.eraseIdx uniform index

private theorem World.Uniform.destructIn {world : World} (uniform : world.Uniform) (index : Nat)
    (place : Place) : (world.destructIn index place).Uniform := by
  rw [World.destructIn]
  split
  · exact uniform.destruct index
  · exact uniform

private theorem World.Uniform.step {world : World} (uniform : world.Uniform) (sound : world.Sound)
    (op : Op) (made : ∀ source, op ≠ .recreate source) : (world.step op).Uniform := by
  cases op with
  | waitNewClient =>
      apply Determines.concat uniform
      intro other member same
      exact absurd same (Nat.ne_of_lt (sound.counter_lt other member))
  | recreate source => exact absurd rfl (made source)
  | copy source => exact uniform.copy source .scoped
  | retainClient source => exact uniform.copy source .retained
  | releaseClient index => exact uniform.destructIn index .retained
  | putClientThreaded source => exact uniform.copy source .threadData
  | threadClient index =>
      rw [World.step]
      split
      · exact (uniform.copy index .scoped).destruct index
      · exact uniform
  | destroy index => exact uniform.destructIn index .scoped

private theorem World.Uniform.spares {world : World} (uniform : world.Uniform) (op : Op) :
    world.Spares op := by
  cases op with
  | waitNewClient => trivial
  | recreate source => trivial
  | copy source => trivial
  | retainClient source => trivial
  | releaseClient index => exact fun _ => uniform.leaves index
  | putClientThreaded source => trivial
  | threadClient index => trivial
  | destroy index => exact fun _ => uniform.leaves index

theorem ownedOnce_of_not_recreated (ops : List Op)
    (made : ∀ op ∈ ops, ∀ source, op ≠ .recreate source) :
    EveryState World.step World.OwnedOnce World.initial ops := by
  have every : EveryStep World.step (fun _ op => ∀ source, op ≠ .recreate source)
      World.initial ops :=
    EveryStep.of_forall (fun op member _ => made op member) World.initial
  have start : World.initial.Sound ∧ World.initial.Uniform :=
    ⟨initial_sound, Determines.nil _ _⟩
  have keeps : ∀ world : World, ∀ op, world.Sound ∧ world.Uniform →
      (∀ source, op ≠ .recreate source) → (world.step op).Sound ∧ (world.step op).Uniform := by
    intro world op both made
    obtain ⟨sound, uniform⟩ := both
    exact ⟨sound.step op (uniform.spares op), uniform.step sound op made⟩
  exact every.everyState (fun _ both => both.1.owned) keeps start

/-- Wherever it is called, `wait_new_client_threaded` loses a data. -/
theorem World.Sound.waitNewClientThreaded {world : World} (sound : world.Sound) :
    ¬ EveryState World.step World.OwnedOnce world
      (waitNewClientThreaded world.pool.objects.length) := by
  have temporary := sound.construct
  have recreated := temporary.recreate world.pool.objects.length
  intro every
  obtain ⟨_, _, _, every⟩ := every
  refine recreated.destructIn_breaks ?_ every.now
  have objects : (world.construct.recreate world.pool.objects.length).pool.objects =
      world.pool.objects ++ [⟨.scoped, world.counters, world.allocated⟩,
        ⟨.scoped, world.counters, world.allocated + 1⟩] := by
    simp [World.recreate, World.construct, Pool.construct, Pool.share]
  have found : (world.construct.recreate world.pool.objects.length).pool.objects[
      world.pool.objects.length]? = some ⟨.scoped, world.counters, world.allocated⟩ := by
    simp [objects]
  have rest : (world.construct.recreate world.pool.objects.length).pool.objects.eraseIdx
      world.pool.objects.length =
        world.pool.objects ++ [⟨.scoped, world.counters, world.allocated + 1⟩] := by
    rw [objects, List.eraseIdx_append_of_length_le (Nat.le_refl _), Nat.sub_self]
    rfl
  intro leaves
  have lives : (world.construct.recreate world.pool.objects.length).LivesIn
      world.pool.objects.length .scoped := by
    rw [World.LivesIn, found]
    rfl
  have heir := leaves lives _ found
  rw [rest] at heir
  obtain ⟨other, otherMember, same⟩ :=
    heir ⟨_, List.mem_append_right _ (List.mem_singleton_self _), rfl⟩
  rcases List.mem_append.mp otherMember with old | new
  · exact absurd same (Nat.ne_of_lt (sound.d_lt other old))
  · rw [List.mem_singleton.mp new] at same
    exact absurd same (Nat.succ_ne_self _)

end Socketxx.ClientData
