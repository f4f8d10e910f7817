import Mathlib.Tactic.Common

/-!
Readers of a finite stream, with four ways to end: a value and what is left of
the stream, a thrown error, undefined behaviour, or no more fuel.

`Decodes` is the round-trip judgement, `Framed` the round trip together with what a
stream that ends inside the word comes to, `Consumes` and `Finishes` are the two halves
of the termination argument, `Settles` leaves only values and errors, and `Refines`
compares two amounts of fuel. Each has one rule for every way readers are composed.
-/

set_option autoImplicit false

namespace StreamReader

inductive Outcome (ε υ α : Type) where
  | ok (value : α)
  | throw (error : ε)
  | undefined (fault : υ)
  | running
deriving Repr, DecidableEq

inductive Failure (ε υ : Type) where
  | throw (error : ε)
  | undefined (fault : υ)

def Failure.outcome {ε υ α : Type} : Failure ε υ → Outcome ε υ α
  | .throw error => .throw error
  | .undefined fault => .undefined fault

/-- A reader maps the stream to its outcome; a value comes with the unread rest. -/
def Reader (β ε υ α : Type) := List β → Outcome ε υ (α × List β)

variable {β ε υ α γ σ : Type}

namespace Reader

protected def pure (value : α) : Reader β ε υ α := fun stream => .ok (value, stream)

protected def bind (first : Reader β ε υ α) (next : α → Reader β ε υ γ) :
    Reader β ε υ γ := fun stream =>
  match first stream with
  | .ok (value, rest) => next value rest
  | .throw error => .throw error
  | .undefined fault => .undefined fault
  | .running => .running

instance : Monad (Reader β ε υ) where
  pure := Reader.pure
  bind := Reader.bind

def throw (error : ε) : Reader β ε υ α := fun _ => .throw error

def undefined (fault : υ) : Reader β ε υ α := fun _ => .undefined fault

def running : Reader β ε υ α := fun _ => .running

def mapError {ε' : Type} (f : ε → ε') (first : Reader β ε υ α) : Reader β ε' υ α :=
  fun stream =>
    match first stream with
    | .ok result => .ok result
    | .throw error => .throw (f error)
    | .undefined fault => .undefined fault
    | .running => .running

/-- The strict read: exactly `count` items, or `short` when the stream ends before. -/
def take (short : ε) (count : Nat) : Reader β ε υ (List β) := fun stream =>
  if count ≤ stream.length then .ok (stream.take count, stream.drop count)
  else .throw short

def times (item : Reader β ε υ α) : Nat → Reader β ε υ (List α)
  | 0 => pure []
  | count + 1 => do
      let head ← item
      let tail ← times item count
      pure (head :: tail)

theorem bind_apply (first : Reader β ε υ α) (next : α → Reader β ε υ γ)
    (stream : List β) :
    (first >>= next) stream =
      match first stream with
      | .ok (value, rest) => next value rest
      | .throw error => .throw error
      | .undefined fault => .undefined fault
      | .running => .running := rfl

theorem map_eq_bind (f : α → γ) (first : Reader β ε υ α) :
    f <$> first = first >>= fun value => pure (f value) := rfl

theorem bind_ok {first : Reader β ε υ α} {next : α → Reader β ε υ γ}
    {stream rest : List β} {value : α} (read : first stream = .ok (value, rest)) :
    (first >>= next) stream = next value rest := by
  rw [bind_apply, read]

theorem mapError_ok {ε' : Type} (f : ε → ε') {first : Reader β ε υ α} {stream : List β}
    {result : α × List β} :
    first.mapError f stream = .ok result ↔ first stream = .ok result := by
  rw [mapError]
  cases first stream <;> simp

theorem mapError_bind {ε' : Type} (f : ε → ε') (first : Reader β ε υ α)
    (next : α → Reader β ε υ γ) :
    (first >>= next).mapError f = first.mapError f >>= fun value => (next value).mapError f := by
  funext stream
  rw [Reader.mapError, bind_apply, bind_apply, Reader.mapError]
  cases first stream <;> rfl

theorem bind_undefined {first : Reader β ε υ α} {next : α → Reader β ε υ γ}
    {stream : List β} {fault : υ} (faulty : first stream = .undefined fault) :
    (first >>= next) stream = .undefined fault := by
  rw [bind_apply, faulty]

theorem bind_eq_ok {first : Reader β ε υ α} {next : α → Reader β ε υ γ}
    {stream rest : List β} {value : γ} :
    (first >>= next) stream = .ok (value, rest) ↔
      ∃ middle between, first stream = .ok (middle, between) ∧
        next middle between = .ok (value, rest) := by
  rw [bind_apply]
  cases first stream with
  | ok result =>
      constructor
      · intro read
        exact ⟨result.1, result.2, rfl, read⟩
      · intro parts
        obtain ⟨middle, between, same, read⟩ := parts
        cases same
        exact read
  | throw error => simp
  | undefined fault => simp
  | running => simp

theorem bind_eq_failure (failure : Failure ε υ) {first : Reader β ε υ α}
    {next : α → Reader β ε υ γ} {stream : List β} :
    (first >>= next) stream = failure.outcome ↔
      first stream = failure.outcome ∨
        ∃ middle between, first stream = .ok (middle, between) ∧
          next middle between = failure.outcome := by
  rw [bind_apply]
  cases first stream with
  | ok result =>
      constructor
      · intro failed
        exact Or.inr ⟨result.1, result.2, rfl, failed⟩
      · intro failed
        rcases failed with impossible | ⟨middle, between, same, failed⟩
        · cases failure <;> cases impossible
        · cases same
          exact failed
  | throw error => cases failure <;> simp [Failure.outcome]
  | undefined earlier => cases failure <;> simp [Failure.outcome]
  | running => cases failure <;> simp [Failure.outcome]

theorem bind_eq_undefined {first : Reader β ε υ α} {next : α → Reader β ε υ γ}
    {stream : List β} {fault : υ} :
    (first >>= next) stream = .undefined fault ↔
      first stream = .undefined fault ∨
        ∃ middle between, first stream = .ok (middle, between) ∧
          next middle between = .undefined fault :=
  bind_eq_failure (.undefined fault)

theorem bind_eq_throw {first : Reader β ε υ α} {next : α → Reader β ε υ γ}
    {stream : List β} {error : ε} :
    (first >>= next) stream = .throw error ↔
      first stream = .throw error ∨
        ∃ middle between, first stream = .ok (middle, between) ∧
          next middle between = .throw error :=
  bind_eq_failure (.throw error)

theorem map_eq_ok {f : α → γ} {first : Reader β ε υ α} {stream rest : List β}
    {value : γ} :
    (f <$> first) stream = .ok (value, rest) ↔
      ∃ before, first stream = .ok (before, rest) ∧ f before = value := by
  rw [map_eq_bind, bind_eq_ok]
  constructor
  · intro parts
    obtain ⟨before, between, read, same⟩ := parts
    cases same
    exact ⟨before, read, rfl⟩
  · intro parts
    obtain ⟨before, read, rfl⟩ := parts
    exact ⟨before, rest, read, rfl⟩

theorem map_eq_failure (failure : Failure ε υ) {f : α → γ} {first : Reader β ε υ α}
    {stream : List β} :
    (f <$> first) stream = failure.outcome ↔ first stream = failure.outcome := by
  rw [map_eq_bind, bind_eq_failure]
  constructor
  · intro failed
    rcases failed with failed | ⟨before, between, _read, impossible⟩
    · exact failed
    · cases failure <;> cases impossible
  · exact Or.inl

theorem map_eq_undefined {f : α → γ} {first : Reader β ε υ α} {stream : List β}
    {fault : υ} :
    (f <$> first) stream = .undefined fault ↔ first stream = .undefined fault :=
  map_eq_failure (.undefined fault)

theorem map_eq_throw {f : α → γ} {first : Reader β ε υ α} {stream : List β} {error : ε} :
    (f <$> first) stream = .throw error ↔ first stream = .throw error :=
  map_eq_failure (.throw error)

theorem take_eq_throw {short : ε} {count : Nat} {stream : List β} :
    (take short count : Reader β ε υ (List β)) stream = .throw short ↔
      stream.length < count := by
  rw [take]
  split
  · rename_i enough
    exact iff_of_false nofun (Nat.not_lt_of_le enough)
  · rename_i few
    exact iff_of_true rfl (Nat.lt_of_not_le few)

theorem take_append (short : ε) (word rest : List β) (count : Nat)
    (size : word.length = count) :
    (take short count : Reader β ε υ (List β)) (word ++ rest) = .ok (word, rest) := by
  subst size
  have fits : word.length ≤ (word ++ rest).length := by simp
  simp only [take, if_pos fits, List.take_left, List.drop_left]

theorem take_eq_ok {short : ε} {count : Nat} {stream word rest : List β} :
    (take short count : Reader β ε υ (List β)) stream = .ok (word, rest) ↔
      stream = word ++ rest ∧ word.length = count := by
  constructor
  · intro read
    simp only [take] at read
    split at read
    · rename_i fits
      cases read
      exact ⟨(List.take_append_drop count stream).symm, List.length_take_of_le fits⟩
    · cases read
  · intro taken
    obtain ⟨rfl, size⟩ := taken
    exact take_append short word rest count size

/-! ### Round trips -/

/-- The word is read as the value, whatever follows it on the stream. -/
def Decodes (reader : Reader β ε υ α) (word : List β) (value : α) : Prop :=
  ∀ rest, reader (word ++ rest) = .ok (value, rest)

theorem Decodes.pure (value : α) : Decodes (pure value : Reader β ε υ α) [] value :=
  fun _ => rfl

theorem Decodes.bind {first : Reader β ε υ α} {next : α → Reader β ε υ γ}
    {word tail : List β} {middle : α} {value : γ}
    (head : Decodes first word middle) (rest : Decodes (next middle) tail value) :
    Decodes (first >>= next) (word ++ tail) value := by
  intro stream
  rw [List.append_assoc, bind_ok (head (tail ++ stream))]
  exact rest stream

theorem Decodes.bind_nil {first : Reader β ε υ α} {next : α → Reader β ε υ γ}
    {word : List β} {middle : α} {value : γ}
    (head : Decodes first word middle) (rest : Decodes (next middle) [] value) :
    Decodes (first >>= next) word value := by
  have whole := head.bind rest
  rwa [List.append_nil] at whole

theorem Decodes.nil_bind {first : Reader β ε υ α} {next : α → Reader β ε υ γ}
    {word : List β} {middle : α} {value : γ}
    (head : Decodes first [] middle) (rest : Decodes (next middle) word value) :
    Decodes (first >>= next) word value :=
  head.bind rest

theorem Decodes.map {reader : Reader β ε υ α} {word : List β} {value : α}
    (f : α → γ) (read : Decodes reader word value) :
    Decodes (f <$> reader) word (f value) := by
  intro stream
  rw [map_eq_bind, bind_ok (read stream)]
  rfl

theorem Decodes.take (short : ε) (word : List β) :
    Decodes (Reader.take short word.length : Reader β ε υ (List β)) word word :=
  fun rest => take_append short word rest word.length rfl

private theorem Decodes.times {item : Reader β ε υ α} (pairs : List (α × List β))
    (each : ∀ pair ∈ pairs, Decodes item pair.2 pair.1) :
    Decodes (times item pairs.length) (pairs.flatMap Prod.snd) (pairs.map Prod.fst) := by
  induction pairs with
  | nil => exact Decodes.pure []
  | cons head tail ih =>
      have headRead := each head List.mem_cons_self
      have tailRead := ih (fun pair member => each pair (List.mem_cons_of_mem _ member))
      rw [List.flatMap_cons]
      exact headRead.bind (tailRead.map (head.1 :: ·))

theorem times_eq_ok {item : Reader β ε υ α} {holds : α → List β → Prop}
    (each : ∀ stream value rest, item stream = .ok (value, rest) →
      ∃ word, stream = word ++ rest ∧ holds value word)
    {count : Nat} {stream rest : List β} {values : List α}
    (read : times item count stream = .ok (values, rest)) :
    ∃ pairs : List (α × List β), pairs.length = count ∧ values = pairs.map Prod.fst ∧
      stream = pairs.flatMap Prod.snd ++ rest ∧ ∀ pair ∈ pairs, holds pair.1 pair.2 := by
  induction count generalizing stream values with
  | zero =>
      cases read
      exact ⟨[], rfl, rfl, rfl, by simp⟩
  | succ count ih =>
      obtain ⟨head, between, headRead, consRead⟩ := bind_eq_ok.mp read
      obtain ⟨tail, tailRead, rfl⟩ := map_eq_ok.mp consRead
      obtain ⟨word, rfl, headHolds⟩ := each stream head between headRead
      obtain ⟨pairs, rfl, rfl, rfl, tailHolds⟩ := ih tailRead
      refine ⟨(head, word) :: pairs, rfl, rfl, ?_, ?_⟩
      · rw [List.flatMap_cons, List.append_assoc]
      · intro pair member
        rcases List.mem_cons.mp member with rfl | later
        · exact headHolds
        · exact tailHolds pair later

private theorem exists_pairs {item : Reader β ε υ α} (words : List (List β))
    (each : ∀ word ∈ words, ∃ value, Decodes item word value) :
    ∃ pairs : List (α × List β), pairs.map Prod.snd = words ∧
      ∀ pair ∈ pairs, Decodes item pair.2 pair.1 := by
  induction words with
  | nil => exact ⟨[], rfl, by simp⟩
  | cons head tail ih =>
      obtain ⟨value, headRead⟩ := each head List.mem_cons_self
      obtain ⟨pairs, rfl, tailRead⟩ :=
        ih (fun word member => each word (List.mem_cons_of_mem _ member))
      refine ⟨(value, head) :: pairs, rfl, ?_⟩
      intro pair member
      rcases List.mem_cons.mp member with rfl | later
      · exact headRead
      · exact tailRead pair later

theorem Decodes.times_words {item : Reader β ε υ α} (words : List (List β))
    (each : ∀ word ∈ words, ∃ value, Decodes item word value) :
    ∃ values, Decodes (Reader.times item words.length) words.flatten values := by
  obtain ⟨pairs, rfl, read⟩ := exists_pairs words each
  refine ⟨pairs.map Prod.fst, ?_⟩
  rw [List.length_map, ← List.flatMap_def]
  exact Decodes.times pairs read

theorem times_eq_failure (failure : Failure ε υ) {item : Reader β ε υ α}
    {holds : α → List β → Prop}
    (each : ∀ stream value rest, item stream = .ok (value, rest) →
      ∃ word, stream = word ++ rest ∧ holds value word)
    {count : Nat} {stream : List β}
    (failed : times item count stream = failure.outcome) :
    ∃ (pairs : List (α × List β)) (left : List β), pairs.length < count ∧
      stream = pairs.flatMap Prod.snd ++ left ∧
      (∀ pair ∈ pairs, holds pair.1 pair.2) ∧ item left = failure.outcome := by
  induction count generalizing stream with
  | zero => cases failure <;> cases failed
  | succ count ih =>
      rcases (bind_eq_failure failure).mp failed with now | ⟨head, between, headRead, later⟩
      · exact ⟨[], stream, Nat.succ_pos count, rfl, by simp, now⟩
      · have tailFailed := (map_eq_failure failure).mp later
        obtain ⟨word, rfl, headHolds⟩ := each stream head between headRead
        obtain ⟨pairs, left, fewer, rfl, tailHolds, leftFailed⟩ := ih tailFailed
        refine ⟨(head, word) :: pairs, left, Nat.succ_lt_succ fewer, ?_, ?_, leftFailed⟩
        · rw [List.flatMap_cons, List.append_assoc]
        · intro pair member
          rcases List.mem_cons.mp member with rfl | earlier
          · exact headHolds
          · exact tailHolds pair earlier

theorem times_failure (failure : Failure ε υ) {item : Reader β ε υ α} (words : List (List β))
    (each : ∀ word ∈ words, ∃ value, Decodes item word value) {count : Nat}
    (fewer : words.length < count) {left : List β}
    (failed : item left = failure.outcome) :
    times item count (words.flatten ++ left) = failure.outcome := by
  induction words generalizing count with
  | nil =>
      obtain ⟨less, rfl⟩ := Nat.exists_eq_add_one_of_ne_zero (Nat.ne_of_gt fewer)
      exact (bind_eq_failure failure).mpr (Or.inl failed)
  | cons head tail ih =>
      rw [List.length_cons] at fewer
      obtain ⟨less, rfl⟩ := Nat.exists_eq_add_one_of_ne_zero (by omega : count ≠ 0)
      obtain ⟨value, headRead⟩ := each head List.mem_cons_self
      have tailFailed := ih (fun word member => each word (List.mem_cons_of_mem _ member))
        (Nat.lt_of_succ_lt_succ fewer)
      rw [List.flatten_cons, List.append_assoc]
      apply (bind_ok (headRead _)).trans
      exact (map_eq_failure failure).mpr tailFailed

/-! ### Streams that end inside a word -/

/-- On every proper prefix of the word the reader throws `short`. -/
def Truncated (short : ε) (reader : Reader β ε υ α) (word : List β) : Prop :=
  ∀ cut missing, word = cut ++ missing → missing ≠ [] → reader cut = .throw short

/-- The word is read as the value, and no proper prefix of it is read at all. -/
structure Framed (short : ε) (reader : Reader β ε υ α) (word : List β) (value : α) : Prop where
  decodes : Decodes reader word value
  truncated : Truncated short reader word

private theorem Truncated.nil (short : ε) (reader : Reader β ε υ α) :
    Truncated short reader [] := by
  intro cut missing whole nonempty
  have parts := List.append_eq_nil_iff.mp whole.symm
  exact absurd parts.2 nonempty

theorem Truncated.bind_left {short : ε} {first : Reader β ε υ α} {next : α → Reader β ε υ γ}
    {word : List β} (headCut : Truncated short first word) :
    Truncated short (first >>= next) word := by
  intro cut missing whole nonempty
  rw [bind_apply, headCut cut missing whole nonempty]

theorem Framed.of_nil (short : ε) {reader : Reader β ε υ α} {value : α}
    (read : Decodes reader [] value) : Framed short reader [] value :=
  ⟨read, Truncated.nil short reader⟩

theorem Framed.pure (short : ε) (value : α) :
    Framed short (pure value : Reader β ε υ α) [] value :=
  Framed.of_nil short (Decodes.pure value)

theorem Framed.take (short : ε) (word : List β) :
    Framed short (Reader.take short word.length : Reader β ε υ (List β)) word word := by
  constructor
  case decodes => exact Decodes.take short word
  case truncated =>
    intro cut missing whole nonempty
    have positive := List.length_pos_iff.mpr nonempty
    rw [whole, Reader.take, List.length_append, if_neg (by omega)]

theorem Truncated.bind_read {short : ε} {first : Reader β ε υ α} {next : α → Reader β ε υ γ}
    {word tail : List β} (headCut : Truncated short first word)
    (read : ∀ rest, ∃ middle, first (word ++ rest) = .ok (middle, rest) ∧
      Truncated short (next middle) tail) :
    Truncated short (first >>= next) (word ++ tail) := by
  intro cut missing whole nonempty
  rcases List.append_eq_append_iff.mp whole with ⟨more, cutIs, tailIs⟩ | ⟨more, wordIs, missingIs⟩
  · obtain ⟨middle, headRead, tailCut⟩ := read more
    rw [cutIs, bind_ok headRead]
    exact tailCut more missing tailIs nonempty
  · by_cases inside : more = []
    · subst inside
      obtain ⟨middle, headRead, tailCut⟩ := read []
      rw [List.append_nil] at wordIs
      rw [List.append_nil, wordIs] at headRead
      rw [bind_ok headRead]
      exact tailCut [] missing missingIs.symm nonempty
    · rw [bind_apply, headCut cut more wordIs inside]

theorem Truncated.bind {short : ε} {first : Reader β ε υ α} {next : α → Reader β ε υ γ}
    {word tail : List β} {middle : α} (head : Framed short first word middle)
    (tailCut : Truncated short (next middle) tail) :
    Truncated short (first >>= next) (word ++ tail) :=
  Truncated.bind_read head.truncated (fun rest => ⟨middle, head.decodes rest, tailCut⟩)

private theorem Truncated.mapError {ε' : Type} {short : ε} (f : ε → ε') {reader : Reader β ε υ α}
    {word : List β} (inner : Truncated short reader word) :
    Truncated (f short) (reader.mapError f) word := by
  intro cut missing whole nonempty
  rw [Reader.mapError, inner cut missing whole nonempty]

theorem Framed.mapError {ε' : Type} {short : ε} (f : ε → ε') {reader : Reader β ε υ α}
    {word : List β} {value : α} (inner : Framed short reader word value) :
    Framed (f short) (reader.mapError f) word value :=
  ⟨fun rest => (mapError_ok f).mpr (inner.decodes rest), inner.truncated.mapError f⟩

theorem Framed.bind {short : ε} {first : Reader β ε υ α} {next : α → Reader β ε υ γ}
    {word tail : List β} {middle : α} {value : γ} (head : Framed short first word middle)
    (rest : Framed short (next middle) tail value) :
    Framed short (first >>= next) (word ++ tail) value :=
  ⟨head.decodes.bind rest.decodes, Truncated.bind head rest.truncated⟩

theorem Framed.bind_nil {short : ε} {first : Reader β ε υ α} {next : α → Reader β ε υ γ}
    {word : List β} {middle : α} {value : γ} (head : Framed short first word middle)
    (rest : Decodes (next middle) [] value) : Framed short (first >>= next) word value := by
  have whole := head.bind (Framed.of_nil short rest)
  rwa [List.append_nil] at whole

theorem Framed.nil_bind {short : ε} {first : Reader β ε υ α} {next : α → Reader β ε υ γ}
    {word : List β} {middle : α} {value : γ} (head : Decodes first [] middle)
    (rest : Framed short (next middle) word value) : Framed short (first >>= next) word value :=
  (Framed.of_nil short head).bind rest

theorem Framed.map {short : ε} {reader : Reader β ε υ α} {word : List β} {value : α}
    (f : α → γ) (inner : Framed short reader word value) :
    Framed short (f <$> reader) word (f value) :=
  inner.bind_nil (Decodes.pure (f value))

theorem Framed.times {short : ε} {item : Reader β ε υ α} (pairs : List (α × List β))
    (each : ∀ pair ∈ pairs, Framed short item pair.2 pair.1) :
    Framed short (Reader.times item pairs.length) (pairs.flatMap Prod.snd)
      (pairs.map Prod.fst) := by
  induction pairs with
  | nil => exact Framed.pure short []
  | cons head tail ih =>
      have headRead := each head List.mem_cons_self
      have tailRead := ih (fun pair member => each pair (List.mem_cons_of_mem _ member))
      rw [List.flatMap_cons]
      exact headRead.bind (tailRead.map (head.1 :: ·))

/-! ### Termination -/

/-- Every success leaves at least `count` items less than there were. -/
def Consumes (count : Nat) (reader : Reader β ε υ α) : Prop :=
  ∀ stream value rest, reader stream = .ok (value, rest) →
    rest.length + count ≤ stream.length

/-- On streams of at most `bound` items the fuel never runs out. -/
def Finishes (bound : Nat) (reader : Reader β ε υ α) : Prop :=
  ∀ stream, stream.length ≤ bound → reader stream ≠ .running

theorem Consumes.pure (value : α) : Consumes 0 (pure value : Reader β ε υ α) := by
  intro stream result rest read
  cases read
  exact Nat.le_refl _

theorem Consumes.bind {first : Reader β ε υ α} {next : α → Reader β ε υ γ}
    {head tail : Nat} (before : Consumes head first)
    (after : ∀ middle, Consumes tail (next middle)) :
    Consumes (head + tail) (first >>= next) := by
  intro stream value rest read
  obtain ⟨middle, between, firstRead, nextRead⟩ := bind_eq_ok.mp read
  have headLength := before stream middle between firstRead
  have tailLength := after middle between value rest nextRead
  omega

theorem Consumes.mono {reader : Reader β ε υ α} {less more : Nat} (le : less ≤ more)
    (inner : Consumes more reader) : Consumes less reader := by
  intro stream value rest read
  have length := inner stream value rest read
  omega

theorem Consumes.bind_left {first : Reader β ε υ α} {next : α → Reader β ε υ γ}
    {count : Nat} (before : Consumes count first)
    (after : ∀ middle, Consumes 0 (next middle)) : Consumes count (first >>= next) :=
  before.bind after

theorem Consumes.map {reader : Reader β ε υ α} {count : Nat} (f : α → γ)
    (inner : Consumes count reader) : Consumes count (f <$> reader) :=
  inner.bind (fun value => Consumes.pure (f value))

theorem Consumes.take (short : ε) (count : Nat) :
    Consumes count (Reader.take short count : Reader β ε υ (List β)) := by
  intro stream value rest read
  obtain ⟨rfl, rfl⟩ := take_eq_ok.mp read
  simp only [List.length_append]
  omega

theorem Consumes.throw (count : Nat) (error : ε) :
    Consumes count (Reader.throw error : Reader β ε υ α) := by
  intro stream value rest read
  cases read

theorem Consumes.undefined (count : Nat) (fault : υ) :
    Consumes count (Reader.undefined fault : Reader β ε υ α) := by
  intro stream value rest read
  cases read

theorem Consumes.running (count : Nat) :
    Consumes count (Reader.running : Reader β ε υ α) := by
  intro stream value rest read
  cases read

theorem Consumes.times {item : Reader β ε υ α} (each : Consumes 0 item) (count : Nat) :
    Consumes 0 (Reader.times item count) := by
  induction count with
  | zero => exact Consumes.pure []
  | succ count ih => exact each.bind (fun head => ih.map (head :: ·))

theorem Finishes.pure (bound : Nat) (value : α) :
    Finishes bound (pure value : Reader β ε υ α) := by
  intro stream _short ran
  cases ran

/-- The first half finishes, and what it consumed pays for the second half. -/
theorem Finishes.bind {first : Reader β ε υ α} {next : α → Reader β ε υ γ}
    {bound count : Nat} (before : Finishes bound first) (used : Consumes count first)
    (after : ∀ middle, count ≤ bound → Finishes (bound - count) (next middle)) :
    Finishes bound (first >>= next) := by
  intro stream short ran
  rw [bind_apply] at ran
  cases firstAt : first stream with
  | ok result =>
      rw [firstAt] at ran
      have left := used stream result.1 result.2 firstAt
      exact after result.1 (by omega) result.2 (by omega) ran
  | throw error => rw [firstAt] at ran; cases ran
  | undefined fault => rw [firstAt] at ran; cases ran
  | running => exact before stream short firstAt

theorem Finishes.mono {reader : Reader β ε υ α} {less more : Nat} (le : less ≤ more)
    (inner : Finishes more reader) : Finishes less reader :=
  fun stream short => inner stream (Nat.le_trans short le)

theorem Finishes.map {reader : Reader β ε υ α} {bound : Nat} (f : α → γ)
    (inner : Finishes bound reader) : Finishes bound (f <$> reader) := by
  intro stream short ran
  rw [map_eq_bind, bind_apply] at ran
  cases readerAt : reader stream with
  | ok result => rw [readerAt] at ran; cases ran
  | throw error => rw [readerAt] at ran; cases ran
  | undefined fault => rw [readerAt] at ran; cases ran
  | running => exact inner stream short readerAt

theorem Finishes.take (bound : Nat) (short : ε) (count : Nat) :
    Finishes bound (Reader.take short count : Reader β ε υ (List β)) := by
  intro stream _short ran
  simp only [Reader.take] at ran
  split at ran <;> cases ran

theorem Finishes.throw (bound : Nat) (error : ε) :
    Finishes bound (Reader.throw error : Reader β ε υ α) := by
  intro stream _short ran
  cases ran

theorem Finishes.undefined (bound : Nat) (fault : υ) :
    Finishes bound (Reader.undefined fault : Reader β ε υ α) := by
  intro stream _short ran
  cases ran

theorem Finishes.times {item : Reader β ε υ α} {bound : Nat}
    (each : Finishes bound item) (used : Consumes 0 item) (count : Nat) :
    Finishes bound (Reader.times item count) := by
  induction count with
  | zero => exact Finishes.pure bound []
  | succ count ih => exact each.bind used (fun head _ => ih.map (head :: ·))

/-! ### Readers that cannot go wrong -/

/-- Every stream ends in a value or in an error that is allowed. -/
def Settles (allowed : ε → Prop) (reader : Reader β ε υ α) : Prop :=
  ∀ stream, (∃ result, reader stream = .ok result) ∨
    ∃ error, reader stream = .throw error ∧ allowed error

variable {allowed : ε → Prop}

theorem Settles.pure (value : α) : Settles allowed (pure value : Reader β ε υ α) := by
  intro stream
  exact Or.inl ⟨(value, stream), rfl⟩

theorem Settles.throw {error : ε} (fine : allowed error) :
    Settles allowed (Reader.throw error : Reader β ε υ α) := by
  intro stream
  exact Or.inr ⟨error, rfl, fine⟩

theorem Settles.take {short : ε} (fine : allowed short) (count : Nat) :
    Settles allowed (Reader.take short count : Reader β ε υ (List β)) := by
  intro stream
  rw [Reader.take]
  by_cases enough : count ≤ stream.length
  · rw [if_pos enough]
    exact Or.inl ⟨_, rfl⟩
  · rw [if_neg enough]
    exact Or.inr ⟨short, rfl, fine⟩

theorem Settles.bind {first : Reader β ε υ α} {next : α → Reader β ε υ γ}
    (before : Settles allowed first) (after : ∀ middle, Settles allowed (next middle)) :
    Settles allowed (first >>= next) := by
  intro stream
  rw [bind_apply]
  rcases before stream with ⟨result, read⟩ | ⟨error, thrown, fine⟩
  · rw [read]
    exact after result.1 result.2
  · rw [thrown]
    exact Or.inr ⟨error, rfl, fine⟩

theorem Settles.map {reader : Reader β ε υ α} (f : α → γ)
    (inner : Settles allowed reader) : Settles allowed (f <$> reader) := by
  rw [map_eq_bind]
  exact inner.bind (fun value => Settles.pure (f value))

theorem Settles.mapError {ε' : Type} {allowed' : ε' → Prop} {f : ε → ε'}
    {reader : Reader β ε υ α} (inner : Settles allowed reader)
    (fine : ∀ error, allowed error → allowed' (f error)) :
    Settles allowed' (reader.mapError f) := by
  intro stream
  rw [Reader.mapError]
  rcases inner stream with ⟨result, read⟩ | ⟨error, thrown, before⟩
  · rw [read]
    exact Or.inl ⟨result, rfl⟩
  · rw [thrown]
    exact Or.inr ⟨f error, rfl, fine error before⟩

theorem Settles.ne_undefined {reader : Reader β ε υ α} (inner : Settles allowed reader)
    (stream : List β) (fault : υ) : reader stream ≠ .undefined fault := by
  intro faulty
  rcases inner stream with ⟨result, read⟩ | ⟨error, thrown, _fine⟩
  · rw [read] at faulty
    cases faulty
  · rw [thrown] at faulty
    cases faulty

/-! ### More fuel -/

/-- Whatever the first reader settles, the second settles the same way. -/
def Refines (less more : Reader β ε υ α) : Prop :=
  ∀ stream, less stream ≠ .running → more stream = less stream

theorem Refines.refl (reader : Reader β ε υ α) : Refines reader reader :=
  fun _ _ => rfl

theorem Refines.trans {first second third : Reader β ε υ α}
    (left : Refines first second) (right : Refines second third) :
    Refines first third := by
  intro stream settled
  have same := left stream settled
  rw [right stream (by rw [same]; exact settled), same]

theorem Refines.bind {first second : Reader β ε υ α} {next other : α → Reader β ε υ γ}
    (head : Refines first second) (tail : ∀ middle, Refines (next middle) (other middle)) :
    Refines (first >>= next) (second >>= other) := by
  intro stream settled
  rw [bind_apply] at settled
  rw [bind_apply, bind_apply]
  cases firstAt : first stream with
  | ok result =>
      rw [head stream (by rw [firstAt]; intro impossible; cases impossible), firstAt]
      rw [firstAt] at settled
      exact tail result.1 result.2 settled
  | throw error =>
      rw [head stream (by rw [firstAt]; intro impossible; cases impossible), firstAt]
  | undefined fault =>
      rw [head stream (by rw [firstAt]; intro impossible; cases impossible), firstAt]
  | running =>
      rw [firstAt] at settled
      exact absurd rfl settled

theorem Refines.map {first second : Reader β ε υ α} (f : α → γ)
    (inner : Refines first second) : Refines (f <$> first) (f <$> second) :=
  inner.bind (fun value => Refines.refl (Reader.pure (f value)))

theorem Refines.running (reader : Reader β ε υ α) : Refines Reader.running reader := by
  intro stream settled
  exact absurd rfl settled

theorem Refines.times {item other : Reader β ε υ α} (each : Refines item other)
    (count : Nat) : Refines (Reader.times item count) (Reader.times other count) := by
  induction count with
  | zero => exact Refines.refl _
  | succ count ih => exact each.bind (fun head => ih.map (head :: ·))

end Reader

end StreamReader
