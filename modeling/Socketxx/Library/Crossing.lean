import Socketxx.Library.Dialogue

/-!
Two parties that both write first: each of them writes a burst of messages and reads those of
the other one only then.

A queue that has no room blocks its writer, and a party that is blocked reads nothing. When
one of the bursts fits into its queue, every run comes to its end with all messages read.
When neither does, no run ends so: each party waits for the other one to read.
-/

set_option autoImplicit false

namespace Dialogue

open StreamReader MessageCodec

variable {β ε υ μ κ ν : Type} (c : Codec β ε υ μ κ ν)

def burstScript (unsaid awaited : List μ) : List (Act μ κ) :=
  unsaid.map .send ++ awaited.map (fun m => .receive (c.kind m))

def crossed (bursts : Side → List μ) : State β μ κ ν where
  party side :=
    { script := burstScript c (bursts side) (bursts side.other), unsent := [], held := [],
      log := [] }
  wire _ := []

/-- Both bursts have been written and read, and nothing is on its way. -/
def BothThrough (bursts : Side → List μ) (s : State β μ κ ν) : Prop :=
  ∀ side, s.party side =
      { script := [], unsent := [], held := [], log := (bursts side.other).map c.value } ∧
    s.wire side = []

def CrossReached (room : Side → Nat) (bursts : Side → List μ) (s : State β μ κ ν) : Prop :=
  Relation.ReflTransGen (Step c room) (crossed c bursts) s

/-- Where a side is: the messages it has still to write, those of the other side it has
read and those it has not. -/
structure Place (μ : Type) where
  unsaid : List μ
  heard : List μ
  awaited : List μ

/-- The sides are at these places. A side that has something to write has read nothing. -/
structure Crossing (bursts : Side → List μ) (place : Side → Place μ) (s : State β μ κ ν) :
    Prop where
  split : ∀ side, bursts side.other = (place side).heard ++ (place side).awaited
  script : ∀ side, (s.party side).script =
    burstScript c (place side).unsaid (place side).awaited
  log : ∀ side, (s.party side).log = (place side).heard.map c.value
  stream : ∀ side, (s.party side.other).held ++ (s.wire side ++
    ((s.party side).unsent ++ c.encodeAll (place side).unsaid)) =
      c.encodeAll (place side.other).awaited
  inside : ∀ side, (s.party side).held <+: firstWord c (place side).awaited
  writesFirst : ∀ side, (place side).unsaid = [] ∧ (s.party side).unsent = [] ∨
    (place side).heard = [] ∧ (s.party side).held = []

def Writes (place : Side → Place μ) (s : State β μ κ ν) (side : Side) : Prop :=
  ¬ ((place side).unsaid = [] ∧ (s.party side).unsent = [])

theorem burstScript_eq_send {unsaid awaited : List μ} {m : μ} {later : List (Act μ κ)}
    (first : burstScript c unsaid awaited = .send m :: later) :
    ∃ rest, unsaid = m :: rest ∧ later = burstScript c rest awaited := by
  cases unsaid with
  | nil => cases awaited <;> cases first
  | cons said rest =>
      cases first
      exact ⟨rest, rfl, rfl⟩

theorem burstScript_eq_receive {unsaid awaited : List μ} {k : κ} {later : List (Act μ κ)}
    (first : burstScript c unsaid awaited = .receive k :: later) :
    unsaid = [] ∧ ∃ m rest, awaited = m :: rest ∧ k = c.kind m ∧
      later = burstScript c [] rest := by
  cases unsaid with
  | cons said rest => cases first
  | nil =>
      cases awaited with
      | nil => cases first
      | cons m rest =>
          cases first
          exact ⟨rfl, m, rest, rfl, rfl, rfl⟩

variable {c} {bursts : Side → List μ} {place : Side → Place μ} {s t : State β μ κ ν}
  {room : Side → Nat} {side : Side}

theorem Crossing.begin (bursts : Side → List μ) :
    Crossing c bursts (fun side => ⟨bursts side, [], bursts side.other⟩) (crossed c bursts) where
  split _ := rfl
  script _ := rfl
  log _ := rfl
  stream side := by
    rw [side.other_other]
    rfl
  inside _ := List.nil_prefix
  writesFirst _ := Or.inr ⟨rfl, rfl⟩

/-! ### The steps -/

theorem Crossing.call {m : μ} {rest : List μ} (at_ : Crossing c bursts place s)
    (idle : (s.party side).unsent = []) (next : (place side).unsaid = m :: rest) :
    Crossing c bursts (Function.update place side { place side with unsaid := rest })
      (s.set side { s.party side with
        script := burstScript c rest (place side).awaited, unsent := c.encode m }) := by
  constructor <;> intro other <;> rcases other.eq_or_other side with rfl | rfl
  case split.inl => simpa using at_.split other
  case split.inr => simpa using at_.split side.other
  case script.inl => simp
  case script.inr => simpa using at_.script side.other
  case log.inl => simpa using at_.log other
  case log.inr => simpa using at_.log side.other
  case stream.inl =>
    have stream := at_.stream other
    rw [idle, next, Codec.encodeAll_cons, List.nil_append] at stream
    simpa using stream
  case stream.inr => simpa using at_.stream side.other
  case inside.inl => simpa using at_.inside other
  case inside.inr => simpa using at_.inside side.other
  case writesFirst.inl =>
    have before := at_.writesFirst other
    rw [next] at before
    simpa using Or.inr (before.resolve_left (fun none => List.cons_ne_nil _ _ none.1))
  case writesFirst.inr => simpa using at_.writesFirst side.other

theorem Crossing.push {byte : β} {bytes : List β} (at_ : Crossing c bursts place s)
    (ready : (s.party side).unsent = byte :: bytes) :
    Crossing c bursts place
      ((s.set side { s.party side with unsent := bytes }).carry side
        (s.wire side ++ [byte])) := by
  constructor <;> intro other <;> rcases other.eq_or_other side with rfl | rfl
  case split.inl => exact at_.split other
  case split.inr => exact at_.split side.other
  case script.inl => simpa using at_.script other
  case script.inr => simpa using at_.script side.other
  case log.inl => simpa using at_.log other
  case log.inr => simpa using at_.log side.other
  case stream.inl =>
    have stream := at_.stream other
    rw [ready] at stream
    simpa using stream
  case stream.inr => simpa using at_.stream side.other
  case inside.inl => simpa using at_.inside other
  case inside.inr => simpa using at_.inside side.other
  case writesFirst.inl =>
    have before := at_.writesFirst other
    rw [ready] at before
    simpa using Or.inr (before.resolve_left (fun none => List.cons_ne_nil _ _ none.2))
  case writesFirst.inr => simpa using at_.writesFirst side.other

theorem Crossing.inside_first {m : μ} {rest : List μ} (at_ : Crossing c bursts place s)
    (next : (place side).awaited = m :: rest) : (s.party side).held <+: c.encode m := by
  have inside := at_.inside side
  rwa [next, firstWord, List.take_succ_cons, List.take_zero, List.flatMap_cons,
    List.flatMap_nil, List.append_nil] at inside

theorem Crossing.incoming (at_ : Crossing c bursts place s) (side : Side) :
    (s.party side).held ++ (s.wire side.other ++ ((s.party side.other).unsent ++
      c.encodeAll (place side.other).unsaid)) = c.encodeAll (place side).awaited := by
  have stream := at_.stream side.other
  rwa [side.other_other] at stream

private theorem Crossing.pull {m : μ} {rest : List μ} {byte : β} {bytes : List β}
    (at_ : Crossing c bursts place s) (unsaid : (place side).unsaid = [])
    (idle : (s.party side).unsent = []) (next : (place side).awaited = m :: rest)
    (blocked : c.reader (c.kind m) (s.party side).held = .throw c.short)
    (ready : s.wire side.other = byte :: bytes) :
    Crossing c bursts place
      ((s.set side { s.party side with held := (s.party side).held ++ [byte] }).carry
        side.other bytes) := by
  have incoming := at_.incoming side
  rw [ready] at incoming
  constructor <;> intro other <;> rcases other.eq_or_other side with rfl | rfl
  case split.inl => exact at_.split other
  case split.inr => exact at_.split side.other
  case script.inl => simpa using at_.script other
  case script.inr => simpa using at_.script side.other
  case log.inl => simpa using at_.log other
  case log.inr => simpa using at_.log side.other
  case stream.inl => simpa using at_.stream other
  case stream.inr => simpa using incoming
  case inside.inl =>
    -- A reader that is blocked has not the whole word yet, so that the byte belongs to it.
    rcases c.held_cases (at_.inside_first next) with whole | ⟨⟨missing, some, word⟩, _short⟩
    · rw [whole, c.whole_read] at blocked
      cases blocked
    · rw [next, Codec.encodeAll_cons, word, List.append_assoc] at incoming
      have after := List.append_cancel_left incoming
      obtain ⟨first, missing, rfl⟩ := List.exists_cons_of_ne_nil some
      rw [List.cons_append, List.cons_append] at after
      obtain ⟨rfl, _same⟩ := List.cons.inj after
      simp only [State.carry_party, State.set_party_self, next, firstWord,
        List.take_succ_cons, List.take_zero, List.flatMap_cons, List.flatMap_nil,
        List.append_nil, word]
      exact ⟨missing, List.append_assoc _ _ _⟩
  case inside.inr => simpa using at_.inside side.other
  case writesFirst.inl => simp [unsaid, idle]
  case writesFirst.inr => simpa using at_.writesFirst side.other

private theorem Crossing.deliver {m : μ} {rest : List μ} {value : ν} {left : List β}
    (at_ : Crossing c bursts place s) (unsaid : (place side).unsaid = [])
    (idle : (s.party side).unsent = []) (next : (place side).awaited = m :: rest)
    (read : c.reader (c.kind m) (s.party side).held = .ok (value, left)) :
    Crossing c bursts
      (Function.update place side ⟨[], (place side).heard ++ [m], rest⟩)
      (s.set side { s.party side with
        script := burstScript c [] rest, held := left,
        log := (s.party side).log ++ [value] }) := by
  rcases c.held_cases (at_.inside_first next) with whole | ⟨_missing, short⟩
  case inr =>
    rw [short] at read
    cases read
  rw [whole, c.whole_read] at read
  cases read
  constructor <;> intro other <;> rcases other.eq_or_other side with rfl | rfl
  case split.inl =>
    have split := at_.split other
    rw [next] at split
    simpa using split
  case split.inr => simpa using at_.split side.other
  case script.inl => simp
  case script.inr => simpa using at_.script side.other
  case log.inl => simp [at_.log other]
  case log.inr => simpa using at_.log side.other
  case stream.inl => simpa [unsaid] using at_.stream other
  case stream.inr =>
    have incoming := at_.incoming side
    rw [next, Codec.encodeAll_cons, whole] at incoming
    simpa using List.append_cancel_left incoming
  case inside.inl => simp
  case inside.inr => simpa using at_.inside side.other
  case writesFirst.inl => simpa using idle
  case writesFirst.inr => simpa using at_.writesFirst side.other

private theorem Crossing.step (at_ : Crossing c bursts place s) (step : Step c room s t) :
    ∃ place, Crossing c bursts place t := by
  cases step with
  | @call side m later idle next =>
      rw [at_.script] at next
      obtain ⟨rest, unsaid, rfl⟩ := burstScript_eq_send c next
      exact ⟨_, at_.call idle unsaid⟩
  | @push side byte bytes ready free => exact ⟨_, at_.push ready⟩
  | @pull side k later byte bytes idle next blocked ready =>
      rw [at_.script] at next
      obtain ⟨unsaid, m, rest, awaited, rfl, _same⟩ := burstScript_eq_receive c next
      exact ⟨_, at_.pull unsaid idle awaited blocked ready⟩
  | @deliver side k later value left idle next read =>
      rw [at_.script] at next
      obtain ⟨unsaid, m, rest, awaited, rfl, rfl⟩ := burstScript_eq_receive c next
      exact ⟨_, at_.deliver unsaid idle awaited read⟩

private theorem CrossReached.crossing (reached : CrossReached c room bursts s) :
    ∃ place, Crossing c bursts place s := by
  induction reached with
  | refl => exact ⟨_, Crossing.begin bursts⟩
  | tail _before step ih =>
      obtain ⟨place, at_⟩ := ih
      exact at_.step step

/-! ### Progress when one of the bursts fits -/

private theorem Crossing.queue_le (at_ : Crossing c bursts place s) (side : Side) :
    (s.wire side).length + (s.party side).unsent.length ≤ (c.encodeAll (bursts side)).length := by
  have stream := congrArg List.length (at_.stream side)
  have split := at_.split side.other
  rw [side.other_other] at split
  rw [split, Codec.encodeAll, List.flatMap_append, List.length_append]
  rw [List.length_append, List.length_append, List.length_append] at stream
  rw [Codec.encodeAll, Codec.encodeAll] at stream
  omega

private theorem Crossing.moves_writer (at_ : Crossing c bursts place s)
    (writes : Writes place s side)
    (free : (s.party side).unsent ≠ [] → (s.wire side).length < room side) :
    ∃ t, Step c room s t := by
  cases unsentAt : (s.party side).unsent with
  | cons byte bytes =>
      have ready := free (by rw [unsentAt]; exact List.cons_ne_nil _ _)
      exact ⟨_, Step.push side unsentAt ready⟩
  | nil =>
      cases unsaidAt : (place side).unsaid with
      | nil => exact absurd ⟨unsaidAt, unsentAt⟩ writes
      | cons m rest =>
          have next := at_.script side
          rw [unsaidAt] at next
          exact ⟨_, Step.call side unsentAt next⟩

private theorem Crossing.moves_reader {m : μ} {rest : List μ} (at_ : Crossing c bursts place s)
    (through : ¬ Writes place s side) (awaited : (place side).awaited = m :: rest)
    (data : s.wire side.other ≠ [] ∨ ¬ Writes place s side.other) :
    ∃ t, Step c room s t := by
  obtain ⟨unsaid, idle⟩ := not_not.mp through
  have next := at_.script side
  rw [unsaid, awaited] at next
  rcases c.held_cases (at_.inside_first awaited) with whole | ⟨⟨missing, some, word⟩, short⟩
  · have read : c.reader (c.kind m) (s.party side).held = .ok (c.value m, []) := by
      rw [whole]
      exact c.whole_read m
    exact ⟨_, Step.deliver side idle next read⟩
  · cases wireAt : s.wire side.other with
    | cons byte bytes => exact ⟨_, Step.pull side idle next short wireAt⟩
    | nil =>
        obtain ⟨unsaidOther, unsentOther⟩ := not_not.mp (data.resolve_left (not_not.mpr wireAt))
        have incoming := at_.incoming side
        rw [wireAt, unsaidOther, unsentOther, awaited, Codec.encodeAll_cons, word,
          List.append_assoc] at incoming
        have after := List.append_cancel_left incoming
        exact absurd (List.append_eq_nil_iff.mp after.symm).1 some

private theorem Crossing.through (at_ : Crossing c bursts place s)
    (wrote : ∀ side, ¬ Writes place s side) (read : ∀ side, (place side).awaited = []) :
    BothThrough c bursts s := by
  intro side
  obtain ⟨unsaid, unsent⟩ := not_not.mp (wrote side)
  have script := at_.script side
  have log := at_.log side
  have split := at_.split side
  have held := at_.inside side
  have stream := at_.stream side
  rw [unsaid, read] at script
  rw [read, List.append_nil] at split
  rw [read, firstWord] at held
  rw [read, Codec.encodeAll, Codec.encodeAll, unsaid, unsent] at stream
  rw [← split] at log
  constructor
  · cases partyAt : s.party side with
    | mk scriptNow unsentNow heldNow logNow =>
        rw [partyAt] at script unsent held log
        subst script unsent log
        rw [show heldNow = [] from List.prefix_nil.mp held]
        rfl
  · exact (List.append_eq_nil_iff.mp (List.append_eq_nil_iff.mp stream).2).1

private theorem Crossing.progress (at_ : Crossing c bursts place s)
    (positive : ∀ side, 0 < room side) {lead : Side}
    (fits : (c.encodeAll (bursts lead)).length ≤ room lead) :
    (∃ t, Step c room s t) ∨ BothThrough c bursts s := by
  by_cases leads : Writes place s lead
  · apply Or.inl
    apply at_.moves_writer leads
    intro some
    have queue := at_.queue_le lead
    have unsent := List.length_pos_iff.mpr some
    omega
  · by_cases follows : Writes place s lead.other
    · apply Or.inl
      by_cases free : (s.wire lead.other).length < room lead.other
      · exact at_.moves_writer follows (fun _ => free)
      · -- The side that has written all is there to read what the other one waits with.
        have full : s.wire lead.other ≠ [] :=
          List.length_pos_iff.mp (Nat.lt_of_lt_of_le (positive _) (Nat.not_lt.mp free))
        cases awaited : (place lead).awaited with
        | cons m rest => exact at_.moves_reader leads awaited (Or.inl full)
        | nil =>
            have incoming := at_.incoming lead
            rw [awaited] at incoming
            have nothing := (List.append_eq_nil_iff.mp incoming).2
            exact absurd (List.append_eq_nil_iff.mp nothing).1 full
    · have wrote : ∀ side, ¬ Writes place s side := by
        intro side
        rcases side.eq_or_other lead with rfl | rfl
        · exact leads
        · exact follows
      by_cases read : ∀ side, (place side).awaited = []
      · exact Or.inr (at_.through wrote read)
      · obtain ⟨side, waits⟩ := not_forall.mp read
        obtain ⟨m, rest, awaited⟩ := List.exists_cons_of_ne_nil waits
        exact Or.inl (at_.moves_reader (wrote side) awaited (Or.inr (wrote side.other)))

/-! ### Both bursts longer than the queue -/

private theorem Crossing.step_writes (at_ : Crossing c bursts place s)
    (long : ∀ side, room side < (c.encodeAll (bursts side)).length)
    (writes : ∀ side, Writes place s side) (step : Step c room s t) :
    ∃ place, Crossing c bursts place t ∧ ∀ side, Writes place t side := by
  cases step with
  | @call side m later idle next =>
      rw [at_.script] at next
      obtain ⟨rest, unsaid, rfl⟩ := burstScript_eq_send c next
      refine ⟨_, at_.call idle unsaid, ?_⟩
      intro other
      rcases other.eq_or_other side with rfl | rfl
      · simp [Writes, c.nonempty]
      · simpa [Writes] using writes side.other
  | @push side byte bytes ready free =>
      refine ⟨_, at_.push ready, ?_⟩
      intro other
      rcases other.eq_or_other side with rfl | rfl
      · intro both
        obtain ⟨unsaid, last⟩ := both
        simp only [State.carry_party, State.set_party_self] at last
        -- The last byte of the burst would need more room than there is.
        have unread := (at_.writesFirst other.other).resolve_left (writes other.other)
        have split := at_.split other.other
        rw [unread.1, other.other_other, List.nil_append] at split
        have stream := congrArg List.length (at_.stream other)
        rw [unread.2, unsaid, ready, last, ← split] at stream
        have more := long other
        simp only [List.nil_append, List.length_append, List.length_cons, List.length_nil,
          Codec.encodeAll, List.flatMap_nil] at stream more
        omega
      · simpa [Writes] using writes side.other
  | @pull side k later byte bytes idle next blocked ready =>
      rw [at_.script] at next
      obtain ⟨unsaid, _⟩ := burstScript_eq_receive c next
      exact absurd ⟨unsaid, idle⟩ (writes side)
  | @deliver side k later value left idle next read =>
      rw [at_.script] at next
      obtain ⟨unsaid, _⟩ := burstScript_eq_receive c next
      exact absurd ⟨unsaid, idle⟩ (writes side)

theorem CrossReached.writes (long : ∀ side, room side < (c.encodeAll (bursts side)).length)
    (reached : CrossReached c room bursts s) :
    ∃ place, Crossing c bursts place s ∧ ∀ side, Writes place s side := by
  induction reached with
  | refl =>
      refine ⟨_, Crossing.begin bursts, ?_⟩
      intro side both
      have more := long side
      rw [show bursts side = [] from both.1] at more
      exact Nat.not_lt_zero _ more
  | tail _before step ih =>
      obtain ⟨place, at_, writes⟩ := ih
      exact at_.step_writes long writes step

private theorem Crossing.not_through (at_ : Crossing c bursts place s)
    (writes : Writes place s side) :
    ¬ BothThrough c bursts s := by
  intro through
  have script := at_.script side
  rw [(through side).1] at script
  apply writes
  constructor
  · cases unsaidAt : (place side).unsaid with
    | nil => rfl
    | cons m rest =>
        rw [unsaidAt] at script
        cases script
  · rw [(through side).1]

/-! ### Runs -/

def crossedWork (c : Codec β ε υ μ κ ν) (bursts : Side → List μ) : Nat :=
  2 * ((bursts .left).length + (bursts .right).length) +
    2 * ((c.encodeAll (bursts .left)).length + (c.encodeAll (bursts .right)).length)

private theorem burstScript_bytes (unsaid awaited : List μ) :
    (burstScript c unsaid awaited).flatMap (Act.bytes c) = c.encodeAll unsaid := by
  rw [burstScript, List.flatMap_append, List.flatMap_map, List.flatMap_map]
  have none : awaited.flatMap (fun m => Act.bytes c (.receive (c.kind m))) = [] :=
    List.flatMap_eq_nil_iff.mpr (fun _ _ => rfl)
  rw [none, List.append_nil]
  rfl

private theorem crossed_total (bursts : Side → List μ) :
    (crossed c bursts).total c = crossedWork c bursts := by
  simp only [State.total, State.work, crossed, Party.work, burstScript_bytes, crossedWork]
  simp only [burstScript, Side.other, List.length_append, List.length_map, List.length_nil]
  omega

/-- In each state some step that can be made, as long as there is one. -/
structure CrossedRun (c : Codec β ε υ μ κ ν) (room : Side → Nat) (bursts : Side → List μ) where
  state : Nat → State β μ κ ν
  begins : state 0 = crossed c bursts
  goes : ∀ n, Step c room (state n) (state (n + 1)) ∨
    state (n + 1) = state n ∧ ∀ t, ¬ Step c room (state n) t

noncomputable def CrossedRun.any (c : Codec β ε υ μ κ ν) (room : Side → Nat)
    (bursts : Side → List μ) : CrossedRun c room bursts where
  state n := Nat.rec (crossed c bursts) (fun _ s => advance c room s) n
  begins := rfl
  goes _ := advance_goes c room _

theorem CrossedRun.reached (run : CrossedRun c room bursts) (n : Nat) :
    CrossReached c room bursts (run.state n) := by
  induction n with
  | zero =>
      rw [run.begins]
      exact Relation.ReflTransGen.refl
  | succ n ih =>
      rcases run.goes n with step | ⟨same, _stuck⟩
      · exact ih.tail step
      · rw [same]
        exact ih

private theorem CrossedRun.paid (run : CrossedRun c room bursts) (n : Nat) :
    (run.state n).total c + n = crossedWork c bursts ∨ ∀ t, ¬ Step c room (run.state n) t := by
  induction n with
  | zero => exact Or.inl (by rw [run.begins, crossed_total, Nat.add_zero])
  | succ n ih =>
      rcases run.goes n with step | ⟨same, stuck⟩
      · rcases ih with here | stuck
        · have one := step.total
          exact Or.inl (by omega)
        · exact absurd step (stuck _)
      · rw [same]
        exact Or.inr stuck

theorem CrossedRun.rests (run : CrossedRun c room bursts) {n : Nat}
    (late : crossedWork c bursts ≤ n) (t : State β μ κ ν) : ¬ Step c room (run.state n) t := by
  intro step
  rcases run.paid n with here | stuck
  · have one := step.total
    omega
  · exact stuck t step

theorem CrossedRun.blocked (run : CrossedRun c room bursts)
    (long : ∀ side, room side < (c.encodeAll (bursts side)).length) {n : Nat}
    (late : crossedWork c bursts ≤ n) (side : Side) :
    ((run.state n).party side).unsent ≠ [] ∧ ((run.state n).party side).log = [] := by
  obtain ⟨place, at_, writes⟩ := (run.reached n).writes long
  constructor
  · intro idle
    cases unsaidAt : (place side).unsaid with
    | nil => exact writes side ⟨unsaidAt, idle⟩
    | cons m rest =>
        have next := at_.script side
        rw [unsaidAt] at next
        exact run.rests late _ (Step.call side idle next)
  · rw [at_.log, ((at_.writesFirst side).resolve_left (writes side)).1]
    rfl

/-- When it has come to rest, both sides are through just if one of the bursts fits into
its queue. -/
theorem CrossedRun.through_iff (run : CrossedRun c room bursts) (positive : ∀ side, 0 < room side)
    {n : Nat}
    (late : crossedWork c bursts ≤ n) :
    BothThrough c bursts (run.state n) ↔
      ∃ side, (c.encodeAll (bursts side)).length ≤ room side := by
  constructor
  · intro through
    by_contra none
    have long : ∀ side, room side < (c.encodeAll (bursts side)).length := by
      intro side
      exact Nat.lt_of_not_le (fun fits => none ⟨side, fits⟩)
    obtain ⟨place, at_, writes⟩ := (run.reached n).writes long
    exact at_.not_through (writes .left) through
  · rintro ⟨lead, fits⟩
    obtain ⟨place, at_⟩ := (run.reached n).crossing
    rcases at_.progress positive fits with ⟨t, step⟩ | through
    · exact absurd step (run.rests late t)
    · exact through

end Dialogue
