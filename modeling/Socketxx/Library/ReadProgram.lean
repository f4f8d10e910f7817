import Socketxx.Library.StreamReader

/-!
Programs that read from a connection they know nothing about, and that make and give back
blocks of memory.

A strict read has its result or an error, which the program may handle; `new` is answered
with a block, or with none; `room` asks for memory that its owner gives back by itself. A
program is executed over any connection, with a heap.

`Agrees` compares it with a reader of the stream that the connection carries, `Tidy` is what
it leaves in the heap, and `Spelled` says with which pieces, one for each strict read, it
returns. Each has one rule for every way programs are composed.
-/

set_option autoImplicit false

open StreamReader

inductive ReadProgram (β ε υ α : Type) where
  | done (value : α)
  | throw (error : ε)
  | undefined (fault : υ)
  | running
  | read (count : Nat) (next : Except ε (List β) → ReadProgram β ε υ α)
  | room (size : Nat) (next : Bool → ReadProgram β ε υ α)
  | new (size : Nat) (next : Option Nat → ReadProgram β ε υ α)
  | free (block : Nat) (next : ReadProgram β ε υ α)

namespace ReadProgram

variable {β ε υ α γ σ : Type}

@[simp]
protected def bind : ReadProgram β ε υ α → (α → ReadProgram β ε υ γ) → ReadProgram β ε υ γ
  | .done value, f => f value
  | .throw error, _ => .throw error
  | .undefined fault, _ => .undefined fault
  | .running, _ => .running
  | .read count next, f => .read count fun word => (next word).bind f
  | .room size next, f => .room size fun granted => (next granted).bind f
  | .new size next, f => .new size fun block => (next block).bind f
  | .free block next, f => .free block (next.bind f)

instance : Monad (ReadProgram β ε υ) where
  pure := .done
  bind := ReadProgram.bind

/-- A strict read that throws what the connection throws. -/
def strict (count : Nat) : ReadProgram β ε υ (List β) :=
  .read count fun
    | .ok word => .done word
    | .error error => .throw error

def times (item : ReadProgram β ε υ α) : Nat → ReadProgram β ε υ (List α)
  | 0 => pure []
  | count + 1 => do
      let head ← item
      let tail ← times item count
      pure (head :: tail)

theorem bind_eq (first : ReadProgram β ε υ α) (next : α → ReadProgram β ε υ γ) :
    first >>= next = first.bind next := rfl

theorem map_eq_bind (f : α → γ) (first : ReadProgram β ε υ α) :
    f <$> first = first >>= fun value => pure (f value) := rfl

theorem bind_assoc {δ : Type} (first : ReadProgram β ε υ α) (next : α → ReadProgram β ε υ γ)
    (last : γ → ReadProgram β ε υ δ) :
    (first >>= next) >>= last = first >>= fun value => next value >>= last := by
  simp only [bind_eq]
  induction first with
  | done value => rfl
  | throw error => rfl
  | undefined fault => rfl
  | running => rfl
  | read count after ih => exact congrArg (ReadProgram.read count) (funext ih)
  | room size after ih => exact congrArg (ReadProgram.room size) (funext ih)
  | new size after ih => exact congrArg (ReadProgram.new size) (funext ih)
  | free block after ih => exact congrArg (ReadProgram.free block) ih

/-! ### Over a connection, with a heap -/

/-- The blocks that are in use; `grants` is the answer to each request in turn. -/
structure Heap where
  live : List Nat
  next : Nat
  asked : Nat
  grants : Nat → Bool

structure World (σ : Type) where
  connection : σ
  heap : Heap

inductive Ending (ε υ α : Type) where
  | returned (value : α)
  | threw (error : ε)
  | undefined (fault : υ)
  | running
  | badFree

abbrev Strict (β ε σ : Type) := Nat → σ → Except ε (List β) × σ

def Heap.ask (heap : Heap) : Bool × Heap :=
  (heap.grants heap.asked, { heap with asked := heap.asked + 1 })

def Heap.new (heap : Heap) : Option Nat × Heap :=
  if heap.ask.1 then
    (some heap.next, { heap.ask.2 with live := heap.next :: heap.live, next := heap.next + 1 })
  else (none, heap.ask.2)

def Heap.free (heap : Heap) (block : Nat) : Heap :=
  { heap with live := heap.live.erase block }

@[simp]
def exec (connection : Strict β ε σ) : ReadProgram β ε υ α → World σ →
    Ending ε υ α × World σ
  | .done value, world => (.returned value, world)
  | .throw error, world => (.threw error, world)
  | .undefined fault, world => (.undefined fault, world)
  | .running, world => (.running, world)
  | .read count next, world =>
      let (word, after) := connection count world.connection
      (next word).exec connection { world with connection := after }
  | .room _ next, world =>
      (next world.heap.ask.1).exec connection { world with heap := world.heap.ask.2 }
  | .new _ next, world =>
      (next world.heap.new.1).exec connection { world with heap := world.heap.new.2 }
  | .free block next, world =>
      if block ∈ world.heap.live then
        next.exec connection { world with heap := world.heap.free block }
      else (.badFree, world)

def Ending.bind : Ending ε υ α × World σ → (α → World σ → Ending ε υ γ × World σ) →
    Ending ε υ γ × World σ
  | (.returned value, world), next => next value world
  | (.threw error, world), _ => (.threw error, world)
  | (.undefined fault, world), _ => (.undefined fault, world)
  | (.running, world), _ => (.running, world)
  | (.badFree, world), _ => (.badFree, world)

/-- Whether the program returns. -/
def returns (connection : Strict β ε σ) (program : ReadProgram β ε υ α) (world : World σ) :
    Bool :=
  match (program.exec connection world).1 with
  | .returned _ => true
  | _ => false

theorem returns_of_returned {connection : Strict β ε σ} {program : ReadProgram β ε υ α}
    {world after : World σ} {value : α}
    (ran : program.exec connection world = (.returned value, after)) :
    returns connection program world = true := by
  rw [returns, ran]

theorem returns_of_threw {connection : Strict β ε σ} {program : ReadProgram β ε υ α}
    {world after : World σ} {error : ε}
    (ran : program.exec connection world = (.threw error, after)) :
    returns connection program world = false := by
  rw [returns, ran]

theorem exec_bind (connection : Strict β ε σ) (first : ReadProgram β ε υ α)
    (next : α → ReadProgram β ε υ γ) (world : World σ) :
    (first >>= next).exec connection world =
      Ending.bind (first.exec connection world) (fun value => (next value).exec connection) := by
  rw [bind_eq]
  induction first generalizing world with
  | done value => rfl
  | throw error => rfl
  | undefined fault => rfl
  | running => rfl
  | read count after ih => exact ih _ _
  | room size after ih => exact ih _ _
  | new size after ih => exact ih _ _
  | free block after ih =>
      rw [ReadProgram.bind, exec, exec]
      by_cases used : block ∈ world.heap.live
      · rw [if_pos used, if_pos used]
        exact ih _
      · rw [if_neg used, if_neg used]
        rfl

theorem threw_of_map {connection : Strict β ε σ} {f : α → γ} {first : ReadProgram β ε υ α}
    {world after : World σ} {error : ε}
    (ran : (f <$> first).exec connection world = (.threw error, after)) :
    first.exec connection world = (.threw error, after) := by
  rw [map_eq_bind, exec_bind] at ran
  generalize first.exec connection world = early at ran ⊢
  obtain ⟨ending, between⟩ := early
  cases ending with
  | threw error =>
      cases ran
      rfl
  | returned value => cases ran
  | undefined fault => cases ran
  | running => cases ran
  | badFree => cases ran

/-! ### Readers -/

/-- The strict reads take the bytes of a stream, one after the other, and throw `short` where
it ends before. -/
def Exact (short : ε) (connection : Strict β ε σ) (stream : σ → List β) : Prop :=
  ∀ count state,
    if count ≤ (stream state).length then
      (connection count state).1 = .ok ((stream state).take count) ∧
        stream (connection count state).2 = (stream state).drop count
    else (connection count state).1 = .error short

def plain (short : ε) : Strict β ε (List β) := fun count stream =>
  if count ≤ stream.length then (.ok (stream.take count), stream.drop count)
  else (.error short, stream)

def Heap.Ample (heap : Heap) : Prop := ∀ request, heap.grants request = true

/-- Over every connection that is exact, and with room for all that is made, the program ends
as the reader does on the stream. -/
def Agrees (short : ε) (program : ReadProgram β ε υ α) (f : α → γ) (reader : Reader β ε υ γ) :
    Prop :=
  ∀ (σ : Type) (connection : Strict β ε σ) (stream : σ → List β) (world : World σ),
    Exact short connection stream → world.heap.Ample →
    match program.exec connection world with
    | (.returned value, after) =>
        reader (stream world.connection) = .ok (f value, stream after.connection) ∧
          after.heap.Ample
    | (.threw error, _) => reader (stream world.connection) = .throw error
    | (.undefined fault, _) => reader (stream world.connection) = .undefined fault
    | (.running, _) => reader (stream world.connection) = .running
    | (.badFree, _) => True

theorem Heap.Ample.new {heap : Heap} (ample : heap.Ample) :
    heap.new.1 = some heap.next ∧ heap.new.2.Ample := by
  rw [Heap.new, Heap.ask, ample]
  exact ⟨rfl, ample⟩

theorem reader_bind_pure (reader : Reader β ε υ α) : reader >>= pure = reader := by
  funext stream
  rw [Reader.bind_apply]
  cases reader stream <;> rfl

namespace Agrees

variable {δ : Type} {short : ε} {f : α → γ}

theorem done (value : α) : Agrees short (.done value : ReadProgram β ε υ α) f (pure (f value)) :=
  fun _ _ _ _ _ ample => ⟨rfl, ample⟩

theorem throw (error : ε) :
    Agrees short (.throw error : ReadProgram β ε υ α) f (Reader.throw error) :=
  fun _ _ _ _ _ _ => rfl

theorem undefined (fault : υ) :
    Agrees short (.undefined fault : ReadProgram β ε υ α) f (Reader.undefined fault) :=
  fun _ _ _ _ _ _ => rfl

theorem running : Agrees short (.running : ReadProgram β ε υ α) f Reader.running :=
  fun _ _ _ _ _ _ => rfl

theorem read {count : Nat} {next : Except ε (List β) → ReadProgram β ε υ α}
    {reader : List β → Reader β ε υ γ}
    (word : ∀ word, word.length = count → Agrees short (next (.ok word)) f (reader word))
    (failed : Agrees short (next (.error short)) f (Reader.throw short)) :
    Agrees short (.read count next) f (Reader.take short count >>= reader) := by
  intro σ connection stream world exact_ ample
  have delivers := exact_ count world.connection
  rw [exec, Reader.bind_apply, Reader.take]
  by_cases fits : count ≤ (stream world.connection).length
  · rw [if_pos fits] at delivers
    rw [if_pos fits]
    generalize connection count world.connection = ran at delivers
    obtain ⟨result, after⟩ := ran
    obtain ⟨rfl, rest⟩ := delivers
    have size := List.length_take_of_le fits
    have later := word _ size σ connection stream ⟨after, world.heap⟩ exact_ ample
    simp only [rest] at later
    exact later
  · rw [if_neg fits] at delivers
    rw [if_neg fits]
    generalize connection count world.connection = ran at delivers
    obtain ⟨result, after⟩ := ran
    obtain rfl := delivers
    exact failed σ connection stream ⟨after, world.heap⟩ exact_ ample

theorem strict (count : Nat) :
    Agrees short (ReadProgram.strict count : ReadProgram β ε υ (List β)) id
      (Reader.take short count) := by
  rw [← reader_bind_pure (Reader.take short count)]
  exact read (fun word _size => done word) (throw short)

theorem room {size : Nat} {next : Bool → ReadProgram β ε υ α} {reader : Reader β ε υ γ}
    (granted : Agrees short (next true) f reader) : Agrees short (.room size next) f reader := by
  intro σ connection stream world exact_ ample
  rw [exec, Heap.ask, ample]
  exact granted σ connection stream _ exact_ ample

theorem new {size : Nat} {next : Option Nat → ReadProgram β ε υ α} {reader : Reader β ε υ γ}
    (granted : ∀ block, Agrees short (next (some block)) f reader) :
    Agrees short (.new size next) f reader := by
  intro σ connection stream world exact_ ample
  obtain ⟨made, kept⟩ := ample.new
  rw [exec, made]
  exact granted _ σ connection stream _ exact_ kept

theorem free {block : Nat} {next : ReadProgram β ε υ α} {reader : Reader β ε υ γ}
    (rest : Agrees short next f reader) : Agrees short (.free block next) f reader := by
  intro σ connection stream world exact_ ample
  rw [exec]
  by_cases used : block ∈ world.heap.live
  · rw [if_pos used]
    exact rest σ connection stream ⟨world.connection, world.heap.free block⟩ exact_ ample
  · rw [if_neg used]
    trivial

theorem bind {first : ReadProgram β ε υ α} {next : α → ReadProgram β ε υ δ} {η : Type}
    {g : δ → η} {reader : Reader β ε υ γ} {later : γ → Reader β ε υ η}
    (early : Agrees short first f reader)
    (late : ∀ value, Agrees short (next value) g (later (f value))) :
    Agrees short (first >>= next) g (reader >>= later) := by
  intro σ connection stream world exact_ ample
  have here := early σ connection stream world exact_ ample
  rw [exec_bind, Reader.bind_apply]
  generalize first.exec connection world = ran at here
  obtain ⟨ending, after⟩ := ran
  cases ending with
  | returned value =>
      rw [here.1]
      exact late value σ connection stream after exact_ here.2
  | threw error =>
      rw [show reader (stream world.connection) = .throw error from here]
      rfl
  | undefined fault =>
      rw [show reader (stream world.connection) = .undefined fault from here]
      rfl
  | running =>
      rw [show reader (stream world.connection) = .running from here]
      rfl
  | badFree => trivial

theorem map {first : ReadProgram β ε υ α} {k : α → δ} {η : Type} {g : δ → η} {m : γ → η}
    {reader : Reader β ε υ γ} (early : Agrees short first f reader)
    (same : ∀ value, g (k value) = m (f value)) :
    Agrees short (k <$> first) g (m <$> reader) := by
  apply early.bind
  intro value
  change Agrees short (.done (k value)) g (pure (m (f value)))
  rw [← same]
  exact done (k value)

theorem times {item : ReadProgram β ε υ α} {reader : Reader β ε υ α}
    (each : Agrees short item id reader) (count : Nat) :
    Agrees short (ReadProgram.times item count) id (Reader.times reader count) := by
  induction count with
  | zero => exact done []
  | succ count ih => exact each.bind (fun head => ih.bind (fun tail => done (head :: tail)))

end Agrees

/-! ### Blocks -/

/-- The connection throws nothing but `short`. -/
def Honest (short : ε) (connection : Strict β ε σ) : Prop :=
  ∀ count state error, (connection count state).1 = .error error → error = short

theorem plain_honest (short : ε) : Honest short (plain short : Strict β ε (List β)) := by
  intro count stream error thrown
  rw [plain] at thrown
  split at thrown
  · cases thrown
  · cases thrown
    rfl

/-- The program is begun with some blocks of its own, and gives them and all others it makes
back, but for those that it hands to its caller with a value and those that it loses when it
throws, of which there are no more than told. -/
def Tidy (short : ε) (owned : List Nat) (hands : α → List Nat) (loses : ε → Nat)
    (program : ReadProgram β ε υ α) : Prop :=
  ∀ (σ : Type) (connection : Strict β ε σ) (world : World σ) (others : List Nat),
    Honest short connection → world.heap.live = owned ++ others →
    match program.exec connection world with
    | (.returned value, after) => after.heap.live = hands value ++ others
    | (.threw error, after) =>
        ∃ lost, after.heap.live = lost ++ others ∧ lost.length ≤ loses error
    | (.badFree, _) => False
    | _ => True

theorem Tidy.threw {short : ε} {hands : α → List Nat} {loses : ε → Nat}
    {program : ReadProgram β ε υ α} (tidy : Tidy short [] hands loses program)
    {connection : Strict β ε σ} (honest : Honest short connection) {world after : World σ}
    {error : ε} (ran : program.exec connection world = (.threw error, after)) :
    ∃ lost, after.heap.live = lost ++ world.heap.live ∧ lost.length ≤ loses error := by
  have here := tidy σ connection world world.heap.live honest rfl
  rwa [ran] at here

namespace Tidy

variable {short : ε} {owned : List Nat} {keeps : α → List Nat} {hands : γ → List Nat}
  {loses : ε → Nat}

theorem done {value : α} (left : owned = keeps value) :
    Tidy short owned keeps loses (.done value : ReadProgram β ε υ α) := by
  intro σ connection world others _honest live
  rw [left] at live
  exact live

theorem throw {error : ε} (few : owned.length ≤ loses error) :
    Tidy short owned keeps loses (.throw error : ReadProgram β ε υ α) :=
  fun _ _ _ _ _ live => ⟨owned, live, few⟩

theorem undefined (fault : υ) :
    Tidy short owned keeps loses (.undefined fault : ReadProgram β ε υ α) :=
  fun _ _ _ _ _ _ => trivial

theorem running : Tidy short owned keeps loses (.running : ReadProgram β ε υ α) :=
  fun _ _ _ _ _ _ => trivial

theorem read {count : Nat} {next : Except ε (List β) → ReadProgram β ε υ α}
    (word : ∀ word, Tidy short owned keeps loses (next (.ok word)))
    (failed : Tidy short owned keeps loses (next (.error short))) :
    Tidy short owned keeps loses (.read count next) := by
  intro σ connection world others honest live
  have throws := honest count world.connection
  rw [exec]
  generalize connection count world.connection = ran at throws
  obtain ⟨result, after⟩ := ran
  cases result with
  | ok result => exact word result σ connection _ others honest live
  | error error =>
      rw [throws error rfl]
      exact failed σ connection _ others honest live

theorem room {size : Nat} {next : Bool → ReadProgram β ε υ α}
    (granted : Tidy short owned keeps loses (next true))
    (refused : Tidy short owned keeps loses (next false)) :
    Tidy short owned keeps loses (.room size next) := by
  intro σ connection world others honest live
  rw [exec]
  cases world.heap.ask.1 with
  | true => exact granted σ connection _ others honest live
  | false => exact refused σ connection _ others honest live

theorem new {size : Nat} {next : Option Nat → ReadProgram β ε υ α}
    (granted : ∀ block, Tidy short (block :: owned) keeps loses (next (some block)))
    (refused : Tidy short owned keeps loses (next none)) :
    Tidy short owned keeps loses (.new size next) := by
  intro σ connection world others honest live
  rw [exec, Heap.new]
  cases world.heap.ask.1 with
  | true => exact granted _ σ connection _ others honest (congrArg (List.cons _) live)
  | false => exact refused σ connection _ others honest live

theorem free {block : Nat} {next : ReadProgram β ε υ α}
    (rest : Tidy short owned keeps loses next) :
    Tidy short (block :: owned) keeps loses (.free block next) := by
  intro σ connection world others honest live
  have used : block ∈ world.heap.live := by
    rw [live]
    exact List.mem_cons_self
  rw [exec, if_pos used]
  apply rest σ connection _ others honest
  rw [Heap.free, live]
  exact List.erase_cons_head _ _

theorem bind {first : ReadProgram β ε υ α} {next : α → ReadProgram β ε υ γ}
    (early : Tidy short owned keeps loses first)
    (late : ∀ value, Tidy short (keeps value) hands loses (next value)) :
    Tidy short owned hands loses (first >>= next) := by
  intro σ connection world others honest live
  have here := early σ connection world others honest live
  rw [exec_bind]
  generalize first.exec connection world = ran at here
  obtain ⟨ending, after⟩ := ran
  cases ending with
  | returned value => exact late value σ connection after others honest here
  | threw error => exact here
  | undefined fault => trivial
  | running => trivial
  | badFree => exact here

theorem map {first : ReadProgram β ε υ α} {f : α → γ}
    (early : Tidy short owned keeps loses first)
    (same : ∀ value, keeps value = hands (f value)) :
    Tidy short owned hands loses (f <$> first) :=
  early.bind (fun value => done (same value))

theorem strict (count : Nat) (few : owned.length ≤ loses short) :
    Tidy short owned (fun _ => owned) loses
      (ReadProgram.strict count : ReadProgram β ε υ (List β)) :=
  read (fun _ => done rfl) (throw few)

theorem times {item : ReadProgram β ε υ α}
    (each : Tidy short owned (fun _ => owned) loses item) (count : Nat) :
    Tidy short owned (fun _ => owned) loses (ReadProgram.times item count) := by
  induction count with
  | zero => exact done rfl
  | succ count ih => exact each.bind (fun head => ih.bind (fun tail => done rfl))

end Tidy

def Proper (short : ε) (program : ReadProgram β ε υ α) : Prop :=
  ∀ (σ : Type) (connection : Strict β ε σ) (world : World σ), Honest short connection →
    (program.exec connection world).1 ≠ .badFree

theorem Tidy.proper {short : ε} {keeps : α → List Nat} {loses : ε → Nat}
    {program : ReadProgram β ε υ α} (tidy : Tidy short [] keeps loses program) :
    Proper short program := by
  intro σ connection world honest bad
  have here := tidy σ connection world world.heap.live honest rfl
  generalize program.exec connection world = ran at here bad
  obtain ⟨ending, after⟩ := ran
  cases bad
  exact here

theorem Proper.bind {short : ε} {first : ReadProgram β ε υ α} {next : α → ReadProgram β ε υ γ}
    (early : Proper short first) (late : ∀ value, Proper short (next value)) :
    Proper short (first >>= next) := by
  intro σ connection world honest
  have here := early σ connection world honest
  rw [exec_bind]
  generalize first.exec connection world = ran at here
  obtain ⟨ending, after⟩ := ran
  cases ending with
  | returned value => exact late value σ connection after honest
  | threw error => nofun
  | undefined fault => nofun
  | running => nofun
  | badFree => exact absurd rfl here

/-! ### The pieces of a word -/

/-- The program asks for the pieces, one after the other, and returns a good value. -/
inductive Spelled (good : α → Prop) : ReadProgram β ε υ α → List (List β) → Prop where
  | done {value : α} (fine : good value) : Spelled good (.done value) []
  | read {next : Except ε (List β) → ReadProgram β ε υ α} {piece : List β}
      {later : List (List β)} (rest : Spelled good (next (.ok piece)) later) :
      Spelled good (.read piece.length next) (piece :: later)
  | room {size : Nat} {next : Bool → ReadProgram β ε υ α} {pieces : List (List β)}
      (rest : Spelled good (next true) pieces) : Spelled good (.room size next) pieces
  | new {size : Nat} {next : Option Nat → ReadProgram β ε υ α} {pieces : List (List β)}
      (rest : ∀ block, Spelled good (next (some block)) pieces) :
      Spelled good (.new size next) pieces
  | free {block : Nat} {next : ReadProgram β ε υ α} {pieces : List (List β)}
      (rest : Spelled good next pieces) : Spelled good (.free block next) pieces

namespace Spelled

variable {pieces later : List (List β)} {fine : α → Prop} {good : γ → Prop}

theorem bind {first : ReadProgram β ε υ α} {next : α → ReadProgram β ε υ γ}
    (early : Spelled fine first pieces)
    (late : ∀ middle, fine middle → Spelled good (next middle) later) :
    Spelled good (first >>= next) (pieces ++ later) := by
  rw [bind_eq]
  induction early with
  | done here => exact late _ here
  | read _rest ih => exact .read ih
  | room _rest ih => exact .room ih
  | new _rest ih => exact .new ih
  | free _rest ih => exact .free ih

theorem bind_nil {first : ReadProgram β ε υ α} {next : α → ReadProgram β ε υ γ}
    (early : Spelled fine first pieces)
    (late : ∀ middle, fine middle → Spelled good (next middle) []) :
    Spelled good (first >>= next) pieces := by
  have both := early.bind late
  rw [List.append_nil] at both
  exact both

theorem map {first : ReadProgram β ε υ α} {f : α → γ} (early : Spelled fine first pieces)
    (image : ∀ middle, fine middle → good (f middle)) : Spelled good (f <$> first) pieces := by
  rw [map_eq_bind]
  exact early.bind_nil (fun middle here => .done (image middle here))

theorem strict (piece : List β) :
    Spelled (· = piece) (ReadProgram.strict piece.length : ReadProgram β ε υ (List β)) [piece] :=
  .read (.done rfl)

theorem exec {program : ReadProgram β ε υ α} (spelled : Spelled fine program pieces)
    {connection : Strict β ε σ} {holds : σ → List (List β) → Prop}
    (delivers : ∀ piece later state, holds state (piece :: later) →
      ∃ after, connection piece.length state = (.ok piece, after) ∧ holds after later)
    (world : World σ) {later : List (List β)} (ready : holds world.connection (pieces ++ later))
    (ample : world.heap.Ample) (proper : (program.exec connection world).1 ≠ .badFree) :
    ∃ value after, program.exec connection world = (.returned value, after) ∧ fine value ∧
      holds after.connection later ∧ after.heap.Ample := by
  induction spelled generalizing world with
  | @done value here => exact ⟨value, world, rfl, here, ready, ample⟩
  | @read next piece pieces _rest ih =>
      obtain ⟨after, delivered, held⟩ := delivers piece (pieces ++ later) _ ready
      rw [ReadProgram.exec, delivered] at proper ⊢
      exact ih _ held ample proper
  | @room size next pieces _rest ih =>
      rw [ReadProgram.exec, Heap.ask, ample] at proper ⊢
      exact ih _ ready ample proper
  | @new size next pieces _rest ih =>
      obtain ⟨granted, kept⟩ := ample.new
      rw [ReadProgram.exec, granted] at proper ⊢
      exact ih world.heap.next _ ready kept proper
  | @free block next pieces _rest ih =>
      rw [ReadProgram.exec] at proper ⊢
      by_cases used : block ∈ world.heap.live
      · rw [if_pos used] at proper ⊢
        exact ih _ ready ample proper
      · rw [if_neg used] at proper
        exact absurd rfl proper

end Spelled

end ReadProgram
