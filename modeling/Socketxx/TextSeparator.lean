import Socketxx.TextWriter

/-!
Separators of the lengths `set_line_sep` permits.

The matching loop of `read_line` is followed round by round here, with its index, so that
one can say what it compares and when the index wraps.
-/

set_option autoImplicit false

namespace Socketxx.TextSocket

/-- What the comment on `set_line_sep` asks for. -/
structure PermittedSep where
  chars : List UInt8
  nonempty : chars ≠ []
  permitted : chars.length ≤ 256
  noNul : 0 ∉ chars

def PermittedSep.toLineSep (sep : PermittedSep) (short : sep.chars.length ≤ 255) : LineSep :=
  ⟨sep.chars, sep.nonempty, short, sep.noNul⟩

/-! ### The matching loop, round by round -/

/-- A round that neither ends the loop nor jumps to `_nextchar`. -/
structure Passes (sep buffer : List UInt8) (i : Nat) (c : UInt8) : Prop where
  goesOn : sepAt sep c ≠ 0
  inside : i + c.toNat ≤ buffer.length
  same : sepAt sep c = buffer.getD (i + c.toNat) 0

/-- The loop is before a further round, with this index, after so many rounds. -/
inductive Reaches (sep buffer : List UInt8) (i : Nat) : Nat → UInt8 → Prop where
  | start : Reaches sep buffer i 0 1
  | next {rounds : Nat} {c : UInt8} (before : Reaches sep buffer i rounds c)
      (passes : Passes sep buffer i c) : Reaches sep buffer i (rounds + 1) (c + 1)

theorem Passes.compareSep_succ {sep buffer : List UInt8} {i : Nat} {c : UInt8}
    (passes : Passes sep buffer i c) (rounds : Nat) :
    compareSep sep buffer i (rounds + 1) c = compareSep sep buffer i rounds (c + 1) := by
  have inside := passes.inside
  rw [compareSep, if_neg passes.goesOn, if_neg (by omega), if_neg (not_not_intro passes.same)]

private theorem passes_of_endless {sep buffer : List UInt8} {i rounds : Nat} {c : UInt8}
    (endless : compareSep sep buffer i (rounds + 1) c = .endless) :
    Passes sep buffer i c := by
  rw [compareSep] at endless
  by_cases ended : sepAt sep c = 0
  · rw [if_pos ended] at endless
    cases endless
  · rw [if_neg ended] at endless
    by_cases outside : buffer.length < i + c.toNat
    · rw [if_pos outside] at endless
      cases endless
    · rw [if_neg outside] at endless
      by_cases different : sepAt sep c ≠ buffer.getD (i + c.toNat) 0
      · rw [if_pos different] at endless
        cases endless
      · exact ⟨ended, Nat.not_lt.mp outside, not_not.mp different⟩

private theorem Reaches.compareSep_add {sep buffer : List UInt8} {i rounds : Nat} {c : UInt8}
    (reached : Reaches sep buffer i rounds c) (more : Nat) :
    compareSep sep buffer i (rounds + more) 1 = compareSep sep buffer i more c := by
  induction reached generalizing more with
  | start => rw [Nat.zero_add]
  | @next rounds c before passes ih =>
      rw [Nat.add_assoc, Nat.add_comm 1 more, ih, passes.compareSep_succ]

theorem Reaches.index {sep buffer : List UInt8} {i rounds : Nat} {c : UInt8}
    (reached : Reaches sep buffer i rounds c) : c = 1 + UInt8.ofNat rounds := by
  induction reached with
  | start => rfl
  | @next rounds c before passes ih =>
      rw [ih, UInt8.add_assoc, UInt8.ofNat_add]
      rfl

theorem Reaches.exists_of_passes {sep buffer : List UInt8} {i : Nat}
    (all : ∀ c, Passes sep buffer i c) (rounds : Nat) :
    ∃ c, Reaches sep buffer i rounds c := by
  induction rounds with
  | zero => exact ⟨1, .start⟩
  | succ rounds ih =>
      obtain ⟨c, reached⟩ := ih
      exact ⟨c + 1, reached.next (all c)⟩

private theorem passes_of_endless_rounds {sep buffer : List UInt8} {i rounds : Nat} {c : UInt8}
    (endless : compareSep sep buffer i rounds c = .endless) :
    ∀ done < rounds, Passes sep buffer i (c + UInt8.ofNat done) := by
  induction rounds generalizing c with
  | zero =>
      intro done less
      omega
  | succ rounds ih =>
      have here := passes_of_endless endless
      rw [here.compareSep_succ] at endless
      intro done less
      cases done with
      | zero =>
          change Passes sep buffer i (c + 0)
          rw [UInt8.add_zero]
          exact here
      | succ done =>
          have later := ih endless done (by omega)
          rw [Nat.add_comm done 1, UInt8.ofNat_add, ← UInt8.add_assoc]
          exact later

private theorem compareSep_endless_iff (sep buffer : List UInt8) (i : Nat) :
    compareSep sep buffer i 256 1 = .endless ↔
      ∀ rounds, ∃ c, Reaches sep buffer i rounds c := by
  constructor
  · intro endless rounds
    apply Reaches.exists_of_passes
    intro c
    have here := passes_of_endless_rounds endless (c - 1).toNat (c - 1).toNat_lt
    rw [UInt8.ofNat_toNat, UInt8.add_comm, UInt8.sub_add_cancel] at here
    exact here
  · intro all
    obtain ⟨c, reached⟩ := all 256
    exact reached.compareSep_add 0

/-! ### The calls of the matching loop -/

/-- The positions at which the outer loop, from `i` on, enters the matching loop. -/
inductive Entered (sep buffer : List UInt8) : Nat → Nat → Nat → Prop where
  | here {count i : Nat} (first : buffer.getD i 0 = sepAt sep 0) :
      Entered sep buffer (count + 1) i i
  | later {count i place : Nat}
      (next : buffer.getD i 0 = sepAt sep 0 → compareSep sep buffer i 256 1 = .nextchar)
      (entered : Entered sep buffer count (i + 1) place) : Entered sep buffer (count + 1) i place

/-- The calls of the matching loop in a call of `read_line`: the buffer as it is then, and
the position. -/
inductive MatchingCall (sep : List UInt8) :
    List UInt8 → List Arrival → List UInt8 → Nat → Prop where
  | here {buffer : List UInt8} {arrivals : List Arrival} {i : Nat}
      (enough : sepsz sep ≤ buffer.length)
      (entered : Entered sep buffer (buffer.length - sepsz sep + 1) 0 i) :
      MatchingCall sep buffer arrivals buffer i
  | later {buffer bytes current : List UInt8} {arrivals : List Arrival} {i : Nat}
      (absent : search sep buffer = .absent)
      (called : MatchingCall sep (buffer ++ bytes) arrivals current i) :
      MatchingCall sep buffer (.chunk bytes :: arrivals) current i

structure MatchesInside (sep buffer : List UInt8) (i : Nat) : Prop where
  terminates : ∃ rounds, ∀ c, ¬ Reaches sep buffer i rounds c
  neverWraps : ∀ rounds c, Reaches sep buffer i rounds c → c.toNat = 1 + rounds
  comparesInside : ∀ rounds c, Reaches sep buffer i rounds c → sepAt sep c ≠ 0 →
    i + c.toNat < buffer.length

/-- A separator works: `sepsz`, which `read_line` and `write_txt` compute alike, is its
length, and every call of the matching loop is as it should be. -/
structure Works (sep : List UInt8) : Prop where
  size : sepsz sep = sep.length
  matching : ∀ (buffer : List UInt8) (arrivals : List Arrival) (current : List UInt8) (i : Nat),
    MatchingCall sep buffer arrivals current i → MatchesInside sep current i

/-! ### Up to 255 characters -/

private theorem LineSep.reaches (sep : LineSep) {buffer : List UInt8} {i rounds : Nat} {c : UInt8}
    (reached : Reaches sep.chars buffer i rounds c) :
    c.toNat = 1 + rounds ∧ c.toNat ≤ sep.chars.length := by
  induction reached with
  | start =>
      have positive := List.length_pos_iff.mpr sep.nonempty
      rw [UInt8.toNat_one]
      omega
  | @next rounds c before passes ih =>
      have short := sep.short
      have less : c.toNat < sep.chars.length := by
        by_contra outside
        exact passes.goesOn ((sep.sepAt_eq_zero_iff c).mpr (by omega))
      have next : (c + 1).toNat = c.toNat + 1 := by
        rw [UInt8.toNat_add, UInt8.toNat_one, Nat.mod_eq_of_lt (by omega)]
      omega

private theorem LineSep.matchesInside (sep : LineSep) {buffer : List UInt8} {i : Nat}
    (inside : i + sep.chars.length ≤ buffer.length) : MatchesInside sep.chars buffer i := by
  constructor
  case terminates =>
    refine ⟨sep.chars.length, ?_⟩
    intro c reached
    have index := sep.reaches reached
    omega
  case neverWraps =>
    intro rounds c reached
    exact (sep.reaches reached).1
  case comparesInside =>
    intro rounds c reached compared
    have less : c.toNat < sep.chars.length := by
      by_contra outside
      exact compared ((sep.sepAt_eq_zero_iff c).mpr (by omega))
    omega

private theorem Entered.bound {sep buffer : List UInt8} {count i place : Nat}
    (entered : Entered sep buffer count i place) : place < i + count := by
  induction entered with
  | here first => omega
  | later next entered ih => omega

private theorem MatchingCall.bound {sep buffer current : List UInt8} {arrivals : List Arrival}
    {i : Nat}
    (called : MatchingCall sep buffer arrivals current i) :
    i + sepsz sep ≤ current.length := by
  induction called with
  | here enough entered =>
      have bound := entered.bound
      omega
  | later absent called ih => exact ih

private theorem LineSep.works (sep : LineSep) : Works sep.chars := by
  constructor
  case size => exact sep.sepsz_eq
  case matching =>
    intro buffer arrivals current i called
    have bound := called.bound
    rw [sep.sepsz_eq] at bound
    exact sep.matchesInside bound

/-! ### 256 characters -/

theorem PermittedSep.sepsz_eq_zero (sep : PermittedSep) (full : sep.chars.length = 256) :
    sepsz sep.chars = 0 := by
  rw [sepsz, full]
  rfl

theorem PermittedSep.passes (sep : PermittedSep) (full : sep.chars.length = 256)
    (rest : List UInt8) (c : UInt8) : Passes sep.chars (sep.chars ++ rest) 0 c := by
  have less : c.toNat < sep.chars.length := by
    rw [full]
    exact c.toNat_lt
  constructor
  case goesOn =>
    intro zero
    rw [sepAt, List.getD_eq_getElem _ _ less] at zero
    apply sep.noNul
    rw [← zero]
    exact List.getElem_mem _
  case inside =>
    rw [List.length_append]
    omega
  case same =>
    rw [Nat.zero_add, List.getD_append _ _ _ _ less]
    rfl

/-- On a stream that starts with the separator, `read_line` never returns. -/
theorem PermittedSep.readLine_endless (sep : PermittedSep) (full : sep.chars.length = 256)
    (rest : List UInt8) (arrivals : List Arrival) :
    readLine sep.chars (sep.chars ++ rest) arrivals =
      (.endless, ⟨sep.chars ++ rest, arrivals⟩) := by
  have compared : compareSep sep.chars (sep.chars ++ rest) 0 256 1 = .endless :=
    (compareSep_endless_iff _ _ 0).mpr (Reaches.exists_of_passes (sep.passes full rest))
  have first : (sep.chars ++ rest).getD 0 0 = sepAt sep.chars 0 := by
    rw [List.getD_append _ _ _ _ (by omega)]
    rfl
  have searched : search sep.chars (sep.chars ++ rest) = .endless := by
    rw [search, sep.sepsz_eq_zero full, if_pos (Nat.zero_le _), searchFrom, if_pos first,
      compared]
  unfold readLine
  rw [searched]

/-- On a stream of the first character of the separator alone, the one behind it is
compared. -/
theorem PermittedSep.compares_past_end (sep : PermittedSep) (full : sep.chars.length = 256) :
    ∃ buffer, MatchingCall sep.chars buffer [] buffer 0 ∧ ¬ MatchesInside sep.chars buffer 0 := by
  have size := sep.sepsz_eq_zero full
  have alone : (sep.chars.take 1).length = 1 := List.length_take_of_le (by omega)
  refine ⟨sep.chars.take 1, ?_, ?_⟩
  · apply MatchingCall.here
    · omega
    · rw [alone, size]
      apply Entered.here
      rw [sepAt, List.getD_eq_getElem _ _ (by omega), List.getElem_take, UInt8.toNat_zero,
        List.getD_eq_getElem _ _ (by omega)]
  · intro asItShould
    have compared := asItShould.comparesInside 0 1 .start (sep.passes full [] 1).goesOn
    rw [alone, UInt8.toNat_one] at compared
    omega

theorem PermittedSep.works_iff (sep : PermittedSep) :
    Works sep.chars ↔ sep.chars.length ≤ 255 := by
  constructor
  · intro works
    have permitted := sep.permitted
    by_contra long
    have full : sep.chars.length = 256 := by omega
    have size := works.size
    rw [sep.sepsz_eq_zero full] at size
    omega
  · intro short
    exact (sep.toLineSep short).works

def longestSep : PermittedSep where
  chars := List.replicate 256 97
  nonempty := List.cons_ne_nil _ _
  permitted := List.length_replicate.le
  noNul := fun inside => absurd (List.eq_of_mem_replicate inside) (by decide)

theorem longestSep_fails :
    sepsz longestSep.chars = 0 ∧
      readLine longestSep.chars longestSep.chars [] = (.endless, ⟨longestSep.chars, []⟩) ∧
      (∃ buffer, MatchingCall longestSep.chars buffer [] buffer 0 ∧
        ¬ MatchesInside longestSep.chars buffer 0) ∧
      ¬ Works longestSep.chars := by
  have full : longestSep.chars.length = 256 := List.length_replicate
  have pastEnd := longestSep.compares_past_end full
  have endless := longestSep.readLine_endless full [] []
  rw [List.append_nil] at endless
  refine ⟨longestSep.sepsz_eq_zero full, endless, pastEnd, ?_⟩
  intro works
  obtain ⟨buffer, called, outside⟩ := pastEnd
  exact outside (works.matching buffer [] buffer 0 called)

end Socketxx.TextSocket
