import Mathlib.Data.Nat.Digits.Lemmas
import Socketxx.Library.CString

/-!
The name that `create_temp_file` makes up: the loop that replaces characters of the
random string where they stand in memory, and what `l64a` gives it to work on.
-/

set_option autoImplicit false

namespace Socketxx.FileWire

open CString (cStr isalnum)

/-! ### The loop in memory -/

def plusUnlessAlnum (c : UInt8) : UInt8 := if isalnum c then c else 43

/-- So many rounds of the loop, the next one at index `i`; `none` when it leaves the
memory. -/
def sanitiseFrom : Nat → Nat → List UInt8 → Option (List UInt8)
  | 0, _, randstr => some randstr
  | rounds + 1, i, randstr =>
      match randstr[i]? with
      | none => none
      | some c => sanitiseFrom rounds (i + 1) (if ¬ isalnum c then randstr.set i 43 else randstr)

def sanitise (randstr : List UInt8) : Option (List UInt8) := sanitiseFrom 6 0 randstr

private theorem sanitiseFrom_eq (rounds : Nat) (done todo : List UInt8) :
    sanitiseFrom rounds done.length (done ++ todo) =
      if rounds ≤ todo.length then
        some (done ++ ((todo.take rounds).map plusUnlessAlnum ++ todo.drop rounds))
      else none := by
  induction rounds generalizing done todo with
  | zero => exact (if_pos (Nat.zero_le _)).symm
  | succ rounds ih =>
      cases todo with
      | nil =>
          have outside : (done ++ [])[done.length]? = none :=
            List.getElem?_eq_none (Nat.le_of_eq (congrArg List.length (List.append_nil done)))
          rw [sanitiseFrom, outside]
          exact (if_neg (Nat.not_succ_le_zero rounds)).symm
      | cons c later =>
          have here : (done ++ c :: later)[done.length]? = some c := by
            rw [List.getElem?_append_right (Nat.le_refl _), Nat.sub_self]
            rfl
          have written : (if ¬ isalnum c = true then (done ++ c :: later).set done.length 43
              else done ++ c :: later) = (done ++ [plusUnlessAlnum c]) ++ later := by
            unfold plusUnlessAlnum
            rw [List.append_assoc, List.singleton_append]
            by_cases kept : isalnum c = true
            · rw [if_neg (not_not_intro kept), if_pos kept]
            · rw [if_pos kept, if_neg kept, List.set_append_right _ _ (Nat.le_refl _),
                Nat.sub_self]
              rfl
          have rest := ih (done ++ [plusUnlessAlnum c]) later
          rw [List.length_append] at rest
          rw [sanitiseFrom, here]
          simp only [written]
          refine rest.trans ?_
          by_cases room : rounds ≤ later.length
          · have whole : rounds + 1 ≤ (c :: later).length := Nat.succ_le_succ room
            rw [if_pos room, if_pos whole, List.append_assoc, List.singleton_append]
            rfl
          · have tooMany : ¬ rounds + 1 ≤ (c :: later).length :=
              fun more => room (Nat.le_of_succ_le_succ more)
            rw [if_neg room, if_neg tooMany]

/-- The first six characters replaced. -/
def sanitised (randstr : List UInt8) : List UInt8 :=
  (randstr.take 6).map plusUnlessAlnum ++ randstr.drop 6

theorem sanitise_eq (randstr : List UInt8) :
    sanitise randstr = if 6 ≤ randstr.length then some (sanitised randstr) else none :=
  sanitiseFrom_eq 6 [] randstr

theorem sanitise_eq_none (randstr : List UInt8) :
    sanitise randstr = none ↔ randstr.length < 6 := by
  rw [sanitise_eq]
  split
  · rename_i room
    exact iff_of_false (Option.some_ne_none _) (Nat.not_lt_of_le room)
  · rename_i short
    exact iff_of_true rfl (Nat.lt_of_not_le short)

/-! ### The strings of `l64a` -/

structure RandStr where
  chars : List UInt8
  size : chars.length ≤ 6
  alphabet : ∀ c ∈ chars, isalnum c = true ∨ c = 46 ∨ c = 47

theorem RandStr.noNul (randstr : RandStr) : 0 ∉ randstr.chars := by
  intro member
  rcases randstr.alphabet 0 member with alnum | dot | slash
  · exact Bool.false_ne_true alnum
  · contradiction
  · contradiction

/-- The name built with this string in memory is as it should be: the loop stays inside the
string, and adds it to the prefix without anything that is not alphanumeric. -/
structure SanitisesInside (randstr : RandStr) (rest fileName : List UInt8) : Prop where
  inside : ∃ after, sanitise (randstr.chars ++ 0 :: rest) = some after ∧
    (∀ index, randstr.chars.length ≤ index →
      after[index]? = (randstr.chars ++ 0 :: rest)[index]?) ∧
    fileName ++ 45 :: cStr after = fileName ++ 45 :: randstr.chars.map plusUnlessAlnum
  harmless : ∀ c ∈ randstr.chars.map plusUnlessAlnum, c ≠ 46 ∧ c ≠ 47

private theorem plusUnlessAlnum_harmless (c : UInt8) :
    plusUnlessAlnum c ≠ 46 ∧ plusUnlessAlnum c ≠ 47 ∧ plusUnlessAlnum c ≠ 0 := by
  unfold plusUnlessAlnum
  by_cases kept : isalnum c = true
  · rw [if_pos kept]
    refine ⟨?_, ?_, ?_⟩
    · rintro rfl
      exact Bool.false_ne_true kept
    · rintro rfl
      exact Bool.false_ne_true kept
    · rintro rfl
      exact Bool.false_ne_true kept
  · rw [if_neg kept]
    decide

private theorem sanitised_getElem? {memory : List UInt8} (room : 6 ≤ memory.length) {index : Nat}
    (less : index < 6) :
    (sanitised memory)[index]? = (memory[index]?).map plusUnlessAlnum := by
  have taken : ((memory.take 6).map plusUnlessAlnum).length = 6 := by
    rw [List.length_map, List.length_take]
    omega
  rw [sanitised, List.getElem?_append_left (by omega), List.getElem?_map,
    List.getElem?_take_of_lt less]

/-- The loop stays inside exactly the strings of six characters. -/
theorem sanitisesInside_iff (randstr : RandStr) (rest fileName : List UInt8) :
    SanitisesInside randstr rest fileName ↔ randstr.chars.length = 6 := by
  constructor
  · intro inside
    obtain ⟨after, ran, unchanged, _name⟩ := inside.inside
    have size := randstr.size
    by_contra short
    rw [sanitise_eq] at ran
    by_cases room : 6 ≤ (randstr.chars ++ 0 :: rest).length
    · rw [if_pos room] at ran
      cases ran
      have terminator : (randstr.chars ++ 0 :: rest)[randstr.chars.length]? = some 0 := by
        rw [List.getElem?_append_right (Nat.le_refl _), Nat.sub_self]
        rfl
      have kept := unchanged randstr.chars.length (Nat.le_refl _)
      rw [sanitised_getElem? room (by omega), terminator] at kept
      contradiction
    · rw [if_neg room] at ran
      cases ran
  · intro full
    have memory : sanitise (randstr.chars ++ 0 :: rest) =
        some (randstr.chars.map plusUnlessAlnum ++ 0 :: rest) := by
      rw [sanitise_eq, if_pos (by rw [List.length_append]; omega), sanitised,
        List.take_left' full, List.drop_left' full]
    have noNul : 0 ∉ randstr.chars.map plusUnlessAlnum := by
      rw [List.mem_map]
      rintro ⟨c, _member, zero⟩
      exact (plusUnlessAlnum_harmless c).2.2 zero
    constructor
    case inside =>
      refine ⟨_, memory, ?_, ?_⟩
      · intro index behind
        rw [List.getElem?_append_right (by rw [List.length_map]; exact behind),
          List.getElem?_append_right behind, List.length_map]
      · rw [CString.cStr_append_nul noNul]
    case harmless =>
      rw [List.forall_mem_map]
      intro c _member
      exact ⟨(plusUnlessAlnum_harmless c).1, (plusUnlessAlnum_harmless c).2.1⟩

def oneChar : RandStr where
  chars := [98]
  size := Nat.succ_le_succ (Nat.zero_le _)
  alphabet := fun _c member => Or.inl (List.mem_singleton.mp member ▸ rfl)

theorem oneChar_not_inside :
    sanitise (oneChar.chars ++ 0 :: [0, 0, 0, 0, 0]) = some [98, 43, 43, 43, 43, 43, 0] ∧
      ¬ SanitisesInside oneChar [0, 0, 0, 0, 0] [120] := by
  refine ⟨rfl, ?_⟩
  intro inside
  have six := (sanitisesInside_iff oneChar _ _).mp inside
  contradiction

/-! ### `l64a` -/

def a64Digit (digit : Nat) : UInt8 :=
  if digit < 12 then UInt8.ofNat (46 + digit)
  else if digit < 38 then UInt8.ofNat (53 + digit)
  else UInt8.ofNat (59 + digit)

/-- The low 32 bits to the base 64, the lowest digit first. -/
def l64a (rand : Nat) : List UInt8 := (Nat.digits 64 (rand % 2 ^ 32)).map a64Digit

private theorem a64Digit_alphabet :
    ∀ digit < 64, isalnum (a64Digit digit) = true ∨ a64Digit digit = 46 ∨ a64Digit digit = 47 := by
  decide

theorem length_l64a (rand : Nat) :
    (l64a rand).length ≤ 6 ∧ (5 < (l64a rand).length ↔ 2 ^ 30 ≤ rand % 2 ^ 32) := by
  have low : rand % 2 ^ 32 < 64 ^ 6 :=
    Nat.lt_of_lt_of_le (Nat.mod_lt rand (Nat.two_pow_pos 32)) (by omega)
  have base : 1 < 64 := by omega
  rw [l64a, List.length_map]
  exact ⟨(Nat.digits_length_le_iff base _).mpr low, Nat.lt_digits_length_iff base _⟩

def randStr (rand : Nat) : RandStr where
  chars := l64a rand
  size := (length_l64a rand).1
  alphabet := by
    rw [l64a, List.forall_mem_map]
    intro digit member
    exact a64Digit_alphabet digit (Nat.digits_lt_base (Nat.succ_lt_succ (Nat.succ_pos _)) member)

/-- The low 32 bits decide. -/
theorem sanitisesInside_l64a_iff (rand : Nat) (rest fileName : List UInt8) :
    SanitisesInside (randStr rand) rest fileName ↔ 2 ^ 30 ≤ rand % 2 ^ 32 := by
  have size := length_l64a rand
  rw [sanitisesInside_iff, ← size.2]
  change (l64a rand).length = 6 ↔ _
  omega

end Socketxx.FileWire
