import Mathlib.Data.List.TakeWhile
import Mathlib.Data.Nat.Digits.Lemmas
import Mathlib.Tactic.Ring

/-!
Text of the C library: the part of a buffer a `const char*` stands for, the character
classes of the `"C"` locale, and decimal numbers.

`atoi` is `(int)strtol(str, NULL, 10)` with a 64-bit `long`: a number out of range is
first clamped, then cut to its low 32 bits.
-/

set_option autoImplicit false

namespace CString

/-- What a function that takes a `const char*` sees of a buffer. -/
def cStr (str : List UInt8) : List UInt8 := str.takeWhile (· ≠ 0)

def isdigit (c : UInt8) : Bool := 48 ≤ c ∧ c ≤ 57

def isalnum (c : UInt8) : Bool :=
  isdigit c || (65 ≤ c ∧ c ≤ 90) || (97 ≤ c ∧ c ≤ 122)

def isspace (c : UInt8) : Bool := c = 32 ∨ (9 ≤ c ∧ c ≤ 13)

def value (digits : List UInt8) : Nat :=
  digits.foldl (fun number c => 10 * number + (c.toNat - 48)) 0

def magnitude (str : List UInt8) : Nat := value (str.takeWhile isdigit)

def strtol (str : List UInt8) : Int :=
  match (cStr str).dropWhile isspace with
  | 45 :: rest => max (-(magnitude rest : Int)) (-2 ^ 63)
  | 43 :: rest => min (magnitude rest : Int) (2 ^ 63 - 1)
  | rest => min (magnitude rest : Int) (2 ^ 63 - 1)

def atoi (str : List UInt8) : Int := (BitVec.ofInt 32 (strtol str)).toInt

/-- The decimal digits of a number, without padding. -/
def decimal (number : Nat) : List UInt8 :=
  if number = 0 then [48]
  else ((Nat.digits 10 number).reverse).map (fun digit => UInt8.ofNat (48 + digit))

/-! ### Buffers without a `NUL` -/

theorem cStr_of_noNul {str : List UInt8} (noNul : 0 ∉ str) : cStr str = str := by
  apply List.takeWhile_eq_self_iff.mpr
  intro c member
  apply decide_eq_true
  intro zero
  rw [zero] at member
  exact noNul member

theorem cStr_append_nul {str : List UInt8} (noNul : 0 ∉ str) (rest : List UInt8) :
    cStr (str ++ 0 :: rest) = str := by
  have whole : str.takeWhile (· ≠ 0) = str := cStr_of_noNul noNul
  rw [cStr, List.takeWhile_append, whole, if_pos rfl, List.takeWhile_cons_of_neg]
  · exact List.append_nil str
  · exact fun other => of_decide_eq_true other rfl

private theorem noNul_of_isdigit {str : List UInt8} (digits : ∀ c ∈ str, isdigit c = true) :
    0 ∉ str := by
  intro member
  have impossible := digits 0 member
  revert impossible
  decide

/-! ### Digits -/

private theorem isspace_of_isdigit {c : UInt8} (digit : isdigit c = true) : isspace c = false := by
  simp only [isdigit, decide_eq_true_eq, UInt8.le_iff_toNat_le] at digit
  simp only [isspace, decide_eq_false_iff_not, UInt8.le_iff_toNat_le, ← UInt8.toNat_inj]
  have low := digit.1
  change 48 ≤ c.toNat at low
  change ¬ (c.toNat = 32 ∨ (9 ≤ c.toNat ∧ c.toNat ≤ 13))
  omega

private theorem ne_of_isdigit {c : UInt8} (digit : isdigit c = true) : c ≠ 45 ∧ c ≠ 43 := by
  constructor
  · intro minus
    rw [minus] at digit
    cases digit
  · intro plus
    rw [plus] at digit
    cases digit

private theorem strtol_of_isdigit {str : List UInt8} (digits : ∀ c ∈ str, isdigit c = true) :
    strtol str = min (value str : Int) (2 ^ 63 - 1) := by
  have whole : str.takeWhile isdigit = str := List.takeWhile_eq_self_iff.mpr digits
  rw [strtol, cStr_of_noNul (noNul_of_isdigit digits)]
  cases str with
  | nil => rfl
  | cons c later =>
      have digit := digits c List.mem_cons_self
      have signless := ne_of_isdigit digit
      rw [List.dropWhile_cons_of_neg (by simp [isspace_of_isdigit digit])]
      split
      · rename_i same
        exact absurd (List.cons.inj same).1 signless.1
      · rename_i same
        exact absurd (List.cons.inj same).1 signless.2
      · rw [magnitude, whole]

theorem atoi_of_isdigit {str : List UInt8} (digits : ∀ c ∈ str, isdigit c = true)
    (small : value str < 2 ^ 31) : atoi str = value str := by
  have inside : min (value str : Int) (2 ^ 63 - 1) = value str := by omega
  rw [atoi, strtol_of_isdigit digits, inside, BitVec.toInt_ofInt]
  apply Int.bmod_eq_of_le
  · omega
  · omega

/-! ### Decimal numbers -/

private theorem isdigit_ofNat {digit : Nat} (small : digit < 10) :
    isdigit (UInt8.ofNat (48 + digit)) = true := by
  have number : (UInt8.ofNat (48 + digit)).toNat = 48 + digit := by
    rw [UInt8.toNat_ofNat']
    omega
  simp only [isdigit, decide_eq_true_eq, UInt8.le_iff_toNat_le, number]
  constructor
  · exact Nat.le_add_right 48 digit
  · change 48 + digit ≤ 57
    omega

theorem isdigit_decimal (number : Nat) : ∀ c ∈ decimal number, isdigit c = true := by
  intro c member
  unfold decimal at member
  split at member
  · cases List.mem_singleton.mp member
    rfl
  · obtain ⟨digit, present, rfl⟩ := List.mem_map.mp member
    exact isdigit_ofNat (Nat.digits_lt_base (by decide) (List.mem_reverse.mp present))

theorem decimal_ne_nil (number : Nat) : decimal number ≠ [] := by
  unfold decimal
  split
  · exact List.cons_ne_nil _ _
  · rename_i positive
    intro empty
    have none := List.reverse_eq_nil_iff.mp (List.map_eq_nil_iff.mp empty)
    exact positive (Nat.digits_eq_nil_iff_eq_zero.mp none)

theorem value_decimal (number : Nat) : value (decimal number) = number := by
  unfold decimal
  split
  · rename_i zero
    rw [zero]
    rfl
  · have digits : ∀ list : List Nat, (∀ digit ∈ list, digit < 10) →
        value (list.reverse.map (fun digit => UInt8.ofNat (48 + digit))) =
          Nat.ofDigits 10 list := by
      intro list small
      induction list with
      | nil => rfl
      | cons head tail ih =>
          have headSmall := small head List.mem_cons_self
          have tailValue := ih (fun digit member => small digit (List.mem_cons_of_mem _ member))
          have number : (UInt8.ofNat (48 + head)).toNat = 48 + head := by
            rw [UInt8.toNat_ofNat']
            omega
          unfold value at tailValue
          rw [value, List.reverse_cons, List.map_append, List.foldl_append, tailValue,
            Nat.ofDigits_cons]
          simp only [List.map_cons, List.map_nil, List.foldl_cons, List.foldl_nil, number]
          omega
    rw [digits _ (fun digit present => Nat.digits_lt_base (by decide) present),
      Nat.ofDigits_digits]

end CString
