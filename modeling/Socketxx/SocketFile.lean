import Mathlib.Data.List.Basic
import Socketxx.Library.Runs

/-!
The socket file of a UNIX server, and the string that holds its path.

`autodel_path` is a member of each `base_unixsock`. The implicit copy constructor copies
the pointer, the constructor from a `base_socket` leaves it NULL, and a stop resets that
of the server alone. The destructor that finds the counter at one uses the pointer of its
own object. A start after a stop never gets through, and is not part of these runs; what
`fd_close` does with the descriptor does not depend on the path.
-/

set_option autoImplicit false

namespace Socketxx.SocketFile

open Runs

/-- Of a `base_unixsock`, whether `autodel_path` is not NULL. The other classes over
`base_socket` are as `socket`. -/
inductive Object where
  | unixsock (autodelPath : Bool)
  | socket
  | fd
deriving DecidableEq, Repr

def Object.autodelPath : Object → Bool
  | .unixsock autodelPath => autodelPath
  | .socket => false
  | .fd => false

/-- The constructors that take another object. That of `base_socket` checks a `base_fd`. -/
inductive Constructor where
  | unixsockCopy
  | unixsockOfSocket
  | socketOf (isSocket : Bool)
  | fdOf
deriving DecidableEq, Repr

/-- The object that is made. There is none if the constructor does not take objects of that
class, or throws. -/
def Constructor.construct : Constructor → Object → Option Object
  | .unixsockCopy, .unixsock autodelPath => some (.unixsock autodelPath)
  | .unixsockCopy, _ => none
  | .unixsockOfSocket, .fd => none
  | .unixsockOfSocket, _ => some (.unixsock false)
  | .socketOf isSocket, .fd => if isSocket then some .socket else none
  | .socketOf _, _ => some .socket
  | .fdOf, _ => some .fd

inductive Phase where
  | idle
  | started
  | stopped
deriving DecidableEq, Repr

/-- A use of the path, and whether the string was allocated then. -/
inductive PathUse where
  | unlink (live : Bool)
  | deleteArray (live : Bool)
deriving DecidableEq, Repr

def PathUse.live : PathUse → Bool
  | .unlink live => live
  | .deleteArray live => live

/-- The server is the first of the objects for as long as `serverAlive`. -/
structure World where
  refcount : Nat
  objects : List Object
  serverAlive : Bool
  phase : Phase
  /-- The string is allocated and has not been freed. -/
  live : Bool
  uses : List PathUse
deriving DecidableEq, Repr

def World.constructed : World :=
  { refcount := 1
    objects := [.unixsock false]
    serverAlive := true
    phase := .idle
    live := false
    uses := [] }

/-! ### `base_unixsock` -/

def World.serverPath (world : World) : Bool :=
  (world.objects.head?).any Object.autodelPath

def World.setServerPath (world : World) (autodelPath : Bool) : World :=
  { world with objects := .unixsock autodelPath :: world.objects.tail }

def World.removeFile (world : World) : World :=
  { world with
    live := false
    uses := world.uses ++ [.unlink world.live, .deleteArray world.live] }

/-- On the server. -/
def World.autodelSockFile (world : World) : World :=
  { world.setServerPath true with live := true }

/-- On the server; `fd_close` apart. -/
def World.delSockFile (world : World) : World :=
  if world.serverPath then world.removeFile.setServerPath false else world

/-- `~base_unixsock`, `fd_close` apart; objects of other classes have no path. -/
def World.unixsockDtor (world : World) (object : Object) : World :=
  if world.refcount = 1 then
    if object.autodelPath then world.removeFile else world
  else world

/-! ### Operations -/

inductive Op where
  | listeningStart
  | listeningStop
  | copy (source : Nat) (maker : Constructor)
  | destroy (index : Nat)
deriving DecidableEq, Repr

def World.listeningStart (world : World) : World :=
  if world.serverAlive = true ∧ world.phase = .idle then
    { world.autodelSockFile with phase := .started }
  else world

def World.listeningStop (world : World) : World :=
  if world.serverAlive = true ∧ world.phase = .started then
    { world.delSockFile with phase := .stopped }
  else world

def World.copy (world : World) (source : Nat) (maker : Constructor) : World :=
  match (world.objects[source]?).bind maker.construct with
  | none => world
  | some object =>
      { world with
        refcount := world.refcount + 1
        objects := world.objects ++ [object] }

def World.destroy (world : World) (index : Nat) : World :=
  match world.objects[index]? with
  | none => world
  | some object =>
      { world.unixsockDtor object with
        refcount := world.refcount - 1
        objects := world.objects.eraseIdx index
        serverAlive := world.serverAlive && index != 0 }

def World.step (world : World) : Op → World
  | .listeningStart => world.listeningStart
  | .listeningStop => world.listeningStop
  | .copy source maker => world.copy source maker
  | .destroy index => world.destroy index

/-- The server was stopped, or started and left to the destructors of its objects. -/
def World.Over (world : World) : Prop :=
  world.phase = .stopped ∨ world.phase = .started ∧ world.objects = []

instance (world : World) : Decidable world.Over := inferInstanceAs (Decidable (_ ∨ _))

/-- The file is unlinked and the string freed just once, when the server is over, and the
string is never used once it is freed. -/
structure World.RemovedOnce (world : World) : Prop where
  live : ∀ use ∈ world.uses, use.live = true
  unlinks : (world.uses.filter (fun use => use matches .unlink _)).length =
    if world.Over then 1 else 0
  frees : (world.uses.filter (fun use => use matches .deleteArray _)).length =
    if world.Over then 1 else 0

instance (world : World) : Decidable world.RemovedOnce :=
  decidable_of_iff (_ ∧ _ ∧ _)
    ⟨fun all => ⟨all.1, all.2.1, all.2.2⟩, fun once => ⟨once.live, once.unlinks, once.frees⟩⟩

/-- If the last object is destroyed, it has the path of a server that was not stopped, and
no path otherwise. -/
def World.Spares (world : World) : Op → Prop
  | .listeningStart => True
  | .listeningStop => True
  | .copy _ _ => True
  | .destroy index => index = 0 → ∀ object, world.objects = [object] →
      (object.autodelPath = true ↔ world.phase = .started)

/-! ### What an operation keeps -/

structure World.Sound (world : World) : Prop where
  counted : world.refcount = world.objects.length
  server : world.serverAlive = true →
    world.objects.head? = some (.unixsock (world.phase == .started))
  idle : world.phase = .idle → ∀ object ∈ world.objects, object.autodelPath = false
  live : world.live = true ↔ world.phase = .started ∧ world.objects ≠ []
  uses : world.uses = if world.Over then [.unlink true, .deleteArray true] else []

theorem constructed_sound : World.constructed.Sound := by
  constructor
  case counted => rfl
  case server =>
    intro _
    rfl
  case idle =>
    intro _
    exact List.forall_mem_singleton.mpr rfl
  case live => decide
  case uses => decide

theorem World.Sound.removedOnce {world : World} (sound : world.Sound) :
    world.RemovedOnce := by
  by_cases finished : world.Over
  · have uses := sound.uses
    rw [if_pos finished] at uses
    constructor
    case live =>
      rw [uses]
      decide
    case unlinks =>
      rw [uses, if_pos finished]
      rfl
    case frees =>
      rw [uses, if_pos finished]
      rfl
  · have uses := sound.uses
    rw [if_neg finished] at uses
    constructor
    case live =>
      rw [uses]
      exact List.forall_mem_nil _
    case unlinks =>
      rw [uses, if_neg finished]
      rfl
    case frees =>
      rw [uses, if_neg finished]
      rfl

theorem World.Sound.objects_of_server {world : World} (sound : world.Sound)
    (alive : world.serverAlive = true) :
    ∃ others, world.objects = .unixsock (world.phase == .started) :: others := by
  have head := sound.server alive
  cases objects : world.objects with
  | nil =>
      rw [objects] at head
      cases head
  | cons server others =>
      rw [objects] at head
      exact ⟨others, congrArg (fun first => first :: others) (Option.some.inj head)⟩

theorem World.Sound.listeningStart {world : World} (sound : world.Sound) :
    world.listeningStart.Sound := by
  unfold World.listeningStart
  split
  · rename_i ready
    obtain ⟨alive, idle⟩ := ready
    obtain ⟨others, objects⟩ := sound.objects_of_server alive
    have quiet := sound.uses
    have fresh : ¬ world.Over := by
      unfold World.Over
      rw [idle]
      simp
    rw [if_neg fresh] at quiet
    constructor
    case counted =>
      change world.refcount = world.objects.tail.length + 1
      rw [sound.counted, objects]
      rfl
    case server =>
      intro _
      rfl
    case idle =>
      intro impossible
      cases impossible
    case live => exact iff_of_true rfl ⟨rfl, List.cons_ne_nil _ _⟩
    case uses =>
      rw [if_neg]
      · exact quiet
      · intro finished
        rcases finished with stopped | ended
        · cases stopped
        · exact List.cons_ne_nil _ _ ended.2
  · exact sound

private theorem World.Sound.listeningStop {world : World} (sound : world.Sound) :
    world.listeningStop.Sound := by
  unfold World.listeningStop
  split
  · rename_i running
    obtain ⟨alive, started⟩ := running
    obtain ⟨others, objects⟩ := sound.objects_of_server alive
    have quiet := sound.uses
    have going : ¬ world.Over := by
      unfold World.Over
      rw [started, objects]
      simp
    have live : world.live = true := by
      rw [sound.live, objects]
      exact ⟨started, List.cons_ne_nil _ _⟩
    have path : world.serverPath = true := by
      rw [World.serverPath, objects, started]
      rfl
    rw [if_neg going] at quiet
    rw [World.delSockFile, if_pos path]
    constructor
    case counted =>
      change world.refcount = world.objects.tail.length + 1
      rw [sound.counted, objects]
      rfl
    case server =>
      intro _
      rfl
    case idle =>
      intro impossible
      cases impossible
    case live =>
      apply iff_of_false Bool.false_ne_true
      intro both
      cases both.1
    case uses =>
      change world.uses ++ [.unlink world.live, .deleteArray world.live] = _
      rw [quiet, live]
      exact (if_pos (Or.inl rfl)).symm
  · exact sound

private theorem Constructor.construct_path {maker : Constructor} {source object : Object}
    (made : maker.construct source = some object)
    (path : object.autodelPath = true) : source.autodelPath = true := by
  cases maker with
  | unixsockCopy =>
      cases source with
      | unixsock autodelPath =>
          obtain rfl := Option.some.inj made
          exact path
      | socket => cases made
      | fd => cases made
  | unixsockOfSocket =>
      cases source with
      | unixsock autodelPath =>
          obtain rfl := Option.some.inj made
          cases path
      | socket =>
          obtain rfl := Option.some.inj made
          cases path
      | fd => cases made
  | socketOf isSocket =>
      cases source with
      | unixsock autodelPath =>
          obtain rfl := Option.some.inj made
          cases path
      | socket =>
          obtain rfl := Option.some.inj made
          cases path
      | fd =>
          rw [construct] at made
          split at made
          · obtain rfl := Option.some.inj made
            cases path
          · cases made
  | fdOf =>
      obtain rfl := Option.some.inj made
      cases path

private theorem World.Sound.copy {world : World} (sound : world.Sound) (source : Nat)
    (maker : Constructor) : (world.copy source maker).Sound := by
  unfold World.copy
  split
  · exact sound
  · rename_i object made
    obtain ⟨original, found, made⟩ := Option.bind_eq_some_iff.mp made
    have member := List.mem_of_getElem? found
    have some : world.objects ≠ [] := List.ne_nil_of_mem member
    have added : world.objects ++ [object] ≠ [] := List.append_ne_nil_of_left_ne_nil some _
    constructor
    case counted =>
      rw [List.length_append, sound.counted]
      rfl
    case server =>
      intro alive
      rw [List.head?_append_of_ne_nil _ some]
      exact sound.server alive
    case idle =>
      intro idle
      rw [List.forall_mem_append, List.forall_mem_singleton]
      have none := sound.idle idle
      constructor
      · exact none
      · rw [← Bool.not_eq_true]
        intro path
        have taken := Constructor.construct_path made path
        rw [none original member] at taken
        cases taken
    case live =>
      rw [sound.live]
      exact and_congr_right (fun _ => iff_of_true some added)
    case uses =>
      have finished : world.Over ↔ World.Over { world with
          refcount := world.refcount + 1
          objects := world.objects ++ [object] } :=
        or_congr_right (and_congr_right (fun _ => iff_of_false some added))
      rw [sound.uses]
      exact if_congr finished rfl rfl

def World.without (world : World) (index : Nat) : World :=
  { world with
    refcount := world.refcount - 1
    objects := world.objects.eraseIdx index
    serverAlive := world.serverAlive && index != 0 }

theorem World.destroy_quiet {world : World} {index : Nat} {object : Object}
    (found : world.objects[index]? = some object)
    (quiet : world.refcount = 1 → object.autodelPath = false) :
    world.destroy index = world.without index := by
  rw [World.destroy, found]
  by_cases one : world.refcount = 1
  · simp [World.unixsockDtor, quiet one, World.without]
  · simp [World.unixsockDtor, one, World.without]

theorem World.destroy_removes {world : World} {index : Nat} {object : Object}
    (found : world.objects[index]? = some object) (one : world.refcount = 1)
    (path : object.autodelPath = true) :
    world.destroy index = world.removeFile.without index := by
  rw [World.destroy, found]
  simp [World.unixsockDtor, one, path, World.without, World.removeFile]

private theorem World.Sound.without {world : World} (sound : world.Sound) {index : Nat}
    {object : Object} (found : world.objects[index]? = some object)
    (stays : world.phase = .started → world.objects.eraseIdx index ≠ []) :
    (world.without index).Sound := by
  have bound := (List.getElem?_eq_some_iff.mp found).1
  have some : world.objects ≠ [] := List.ne_nil_of_mem (List.mem_of_getElem? found)
  have same : (world.phase = .started ∧ world.objects ≠ []) ↔
      (world.phase = .started ∧ world.objects.eraseIdx index ≠ []) :=
    and_congr_right (fun started => iff_of_true some (stays started))
  constructor
  case counted =>
    rw [World.without, List.length_eraseIdx_of_lt bound, sound.counted]
  case server =>
    intro alive
    rw [World.without, Bool.and_eq_true, bne_iff_ne] at alive
    have head := sound.server alive.1
    cases index with
    | zero => exact absurd rfl alive.2
    | succ index =>
        obtain ⟨others, objects⟩ := sound.objects_of_server alive.1
        rw [World.without, objects]
        rfl
  case idle =>
    intro idle other member
    exact sound.idle idle other (List.mem_of_mem_eraseIdx member)
  case live =>
    rw [World.without, sound.live]
    exact same
  case uses =>
    have finished : world.Over ↔ (world.without index).Over := by
      unfold World.Over
      apply or_congr_right
      rw [World.without]
      apply and_congr_right
      intro started
      exact iff_of_false some (stays started)
    rw [← if_congr finished rfl rfl]
    exact sound.uses

private theorem World.Sound.removes {world : World} (sound : world.Sound) {object : Object}
    (objects : world.objects = [object]) (started : world.phase = .started) :
    (world.removeFile.without 0).Sound := by
  have live : world.live = true := by
    rw [sound.live, objects]
    exact ⟨started, List.cons_ne_nil _ _⟩
  have quiet := sound.uses
  have going : ¬ world.Over := by
    unfold World.Over
    rw [started, objects]
    simp
  have ended : (world.removeFile.without 0).objects = [] := by
    change world.objects.eraseIdx 0 = []
    rw [objects]
    rfl
  rw [if_neg going] at quiet
  constructor
  case counted =>
    rw [ended]
    change world.refcount - 1 = 0
    rw [sound.counted, objects]
    rfl
  case server =>
    intro alive
    change (world.serverAlive && false) = true at alive
    rw [Bool.and_false] at alive
    cases alive
  case idle =>
    intro _
    rw [ended]
    exact List.forall_mem_nil _
  case live => exact iff_of_false Bool.false_ne_true (fun both => both.2 ended)
  case uses =>
    change world.uses ++ [.unlink world.live, .deleteArray world.live] = _
    rw [quiet, live]
    exact (if_pos (Or.inr ⟨started, ended⟩)).symm

private theorem World.Sound.destroy {world : World} (sound : world.Sound) (index : Nat)
    (spares : world.Spares (.destroy index)) : (world.destroy index).Sound := by
  cases found : world.objects[index]? with
  | none =>
      rw [World.destroy, found]
      exact sound
  | some object =>
      have bound := (List.getElem?_eq_some_iff.mp found).1
      by_cases one : world.refcount = 1
      · rw [sound.counted] at one
        obtain ⟨only, objects⟩ := List.length_eq_one_iff.mp one
        obtain rfl : index = 0 := by omega
        rw [objects] at found
        obtain rfl := Option.some.inj found
        rw [← objects] at found
        have path := spares rfl only objects
        cases has : only.autodelPath with
        | true =>
            rw [World.destroy_removes found (sound.counted.trans one) has]
            exact sound.removes objects (path.mp has)
        | false =>
            rw [World.destroy_quiet found (fun _ => has)]
            apply sound.without found
            intro started
            rw [path.mpr started] at has
            cases has
      · rw [World.destroy_quiet found (fun last => absurd last one)]
        apply sound.without found
        intro _
        rw [← List.length_pos_iff, List.length_eraseIdx_of_lt bound]
        rw [sound.counted] at one
        omega

private theorem World.Sound.destroy_breaks {world : World} (sound : world.Sound) (index : Nat)
    (other : ¬ world.Spares (.destroy index)) : ¬ (world.destroy index).RemovedOnce := by
  unfold World.Spares at other
  push Not at other
  obtain ⟨rfl, object, objects, other⟩ := other
  have found : world.objects[0]? = some object := by rw [objects]; rfl
  have one : world.refcount = 1 := by
    rw [sound.counted, objects]
    rfl
  have member : object ∈ world.objects := List.mem_of_getElem? found
  intro once
  rcases other with ⟨path, notStarted⟩ | ⟨path, started⟩
  · rw [World.destroy_removes found one path] at once
    have freed : world.live = false := by
      rw [← Bool.not_eq_true, sound.live]
      exact fun both => notStarted both.1
    have used : PathUse.unlink world.live ∈ (world.removeFile.without 0).uses :=
      List.mem_append_right _ List.mem_cons_self
    have live := once.live _ used
    rw [freed] at live
    cases live
  · rw [World.destroy_quiet found (fun _ => (Bool.not_eq_true _).mp path)] at once
    have quiet := sound.uses
    have going : ¬ world.Over := by
      unfold World.Over
      rw [started, objects]
      simp
    have finished : (world.without 0).Over := by
      apply Or.inr
      constructor
      · exact started
      · rw [World.without, objects]
        rfl
    have unlinks := once.unlinks
    rw [if_neg going] at quiet
    rw [if_pos finished, World.without, quiet] at unlinks
    cases unlinks

/-! ### Runs -/

theorem World.Sound.step {world : World} (sound : world.Sound) (op : Op)
    (spares : world.Spares op) : (world.step op).Sound := by
  cases op with
  | listeningStart => exact sound.listeningStart
  | listeningStop => exact sound.listeningStop
  | copy source maker => exact sound.copy source maker
  | destroy index => exact sound.destroy index spares

private theorem World.Sound.breaks {world : World} (sound : world.Sound) (op : Op)
    (other : ¬ world.Spares op) : ¬ (world.step op).RemovedOnce := by
  cases op with
  | listeningStart => exact absurd trivial other
  | listeningStop => exact absurd trivial other
  | copy source maker => exact absurd trivial other
  | destroy index => exact sound.destroy_breaks index other

/-- In every state of a run the file has been unlinked once and the string freed once if
the server is over, neither has been touched otherwise, and no freed string was used, if
and only if no step of the run destroys, as the last object, one with a path unless the
server was started and not stopped, or one without a path if it was. -/
theorem removedOnce_iff (ops : List Op) :
    EveryState World.step World.RemovedOnce World.constructed ops ↔
      EveryStep World.step World.Spares World.constructed ops :=
  @everyState_iff_everyStep World Op World.step World.Sound World.RemovedOnce World.Spares
    (fun _ sound => sound.removedOnce) (fun _ op sound spares => sound.step op spares)
    (fun _ op sound other => sound.breaks op other) _ constructed_sound ops

/-- A copy outlives the server: one that was made before a stop uses the freed string, and
one made from a `base_socket` never removes the file. -/
theorem copies_outlive_server :
    ¬ EveryState World.step World.RemovedOnce World.constructed
        [.listeningStart, .copy 0 .unixsockCopy, .listeningStop, .destroy 0, .destroy 0] ∧
      ([.listeningStart, .copy 0 .unixsockCopy, .listeningStop, .destroy 0, .destroy 0].foldl
        World.step World.constructed).uses =
          [.unlink true, .deleteArray true, .unlink false, .deleteArray false] ∧
      ¬ EveryState World.step World.RemovedOnce World.constructed
        [.listeningStart, .copy 0 .unixsockOfSocket, .destroy 0, .destroy 0] ∧
      ([.listeningStart, .copy 0 .unixsockOfSocket, .destroy 0, .destroy 0].foldl
        World.step World.constructed).uses = [] := by
  refine ⟨?_, rfl, ?_, rfl⟩
  · intro every
    have last := every.final
    revert last
    decide
  · intro every
    have last := every.final
    revert last
    decide

/-! ### A server that outlives its copies -/

/-- The step does not destroy the server before a copy of it. -/
def World.ServerLast (world : World) (op : Op) : Prop :=
  op = .destroy 0 → world.serverAlive = true → world.objects.length = 1

def World.ServerStays (world : World) : Prop :=
  world.objects ≠ [] → world.serverAlive = true

theorem World.ServerStays.spares {world : World} (stays : world.ServerStays)
    (sound : world.Sound) (op : Op) : world.Spares op := by
  cases op with
  | listeningStart => trivial
  | listeningStop => trivial
  | copy source maker => trivial
  | destroy index =>
      intro _ object objects
      have alive := stays (by rw [objects]; exact List.cons_ne_nil _ _)
      have head := sound.server alive
      rw [objects] at head
      obtain rfl := Option.some.inj head
      exact beq_iff_eq

theorem World.ServerStays.step {world : World} (stays : world.ServerStays) (op : Op)
    (last : world.ServerLast op) : (world.step op).ServerStays := by
  cases op with
  | listeningStart =>
      rw [World.step, World.listeningStart]
      split
      · rename_i ready
        exact fun _ => ready.1
      · exact stays
  | listeningStop =>
      rw [World.step, World.listeningStop, World.delSockFile]
      split
      · rename_i running
        split
        · exact fun _ => running.1
        · exact fun _ => running.1
      · exact stays
  | copy source maker =>
      rw [World.step, World.copy]
      split
      · exact stays
      · rename_i object made
        obtain ⟨original, found, _⟩ := Option.bind_eq_some_iff.mp made
        intro _
        exact stays (List.ne_nil_of_mem (List.mem_of_getElem? found))
  | destroy index =>
      rw [World.step, World.destroy]
      split
      · exact stays
      · rename_i object found
        have alive := stays (List.ne_nil_of_mem (List.mem_of_getElem? found))
        intro left
        cases index with
        | zero =>
            obtain ⟨only, objects⟩ := List.length_eq_one_iff.mp (last rfl alive)
            change world.objects.eraseIdx 0 ≠ [] at left
            rw [objects] at left
            exact absurd rfl left
        | succ index =>
            change (world.serverAlive && true) = true
            rw [alive]
            rfl

/-- The file is removed once if all copies are destroyed before the server. -/
theorem removedOnce_of_serverLast (ops : List Op)
    (last : EveryStep World.step World.ServerLast World.constructed ops) :
    EveryState World.step World.RemovedOnce World.constructed ops := by
  have keeps : ∀ world : World, ∀ op, world.Sound ∧ world.ServerStays → world.ServerLast op →
      (world.step op).Sound ∧ (world.step op).ServerStays := by
    intro world op both last
    obtain ⟨sound, stays⟩ := both
    exact ⟨sound.step op (stays.spares sound op), stays.step op last⟩
  exact last.everyState (fun _ both => both.1.removedOnce) keeps
    ⟨constructed_sound, fun _ => rfl⟩

end Socketxx.SocketFile
