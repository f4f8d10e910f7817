import Mathlib.Data.List.Flatten
import Mathlib.Tactic.Common

/-!
Words one after the other, and how many of them are there as a whole in a beginning of
them.
-/

set_option autoImplicit false

namespace WholeWords

variable {β : Type}

def wholeWords : List (List β) → Nat → Nat
  | [], _ => 0
  | word :: later, size =>
      if word.length ≤ size then wholeWords later (size - word.length) + 1 else 0

theorem wholeWords_fits {word : List β} {size : Nat} (later : List (List β))
    (fits : word.length ≤ size) :
    wholeWords (word :: later) size = wholeWords later (size - word.length) + 1 :=
  if_pos fits

theorem wholeWords_short {word : List β} {size : Nat} (later : List (List β))
    (short : size < word.length) : wholeWords (word :: later) size = 0 :=
  if_neg (Nat.not_le_of_lt short)

theorem wholeWords_eq_length_iff (words : List (List β)) (size : Nat) :
    wholeWords words size = words.length ↔ words.flatten.length ≤ size := by
  induction words generalizing size with
  | nil => exact iff_of_true rfl (Nat.zero_le size)
  | cons word later ih =>
      rw [List.flatten_cons, List.length_append, List.length_cons]
      by_cases fits : word.length ≤ size
      · rw [wholeWords_fits later fits, Nat.add_right_cancel_iff, ih]
        omega
      · rw [wholeWords_short later (Nat.lt_of_not_le fits)]
        omega

theorem take_flatten (words : List (List β)) (size : Nat) :
    ∃ part, words.flatten.take size = (words.take (wholeWords words size)).flatten ++ part ∧
      (part = [] ∨ ∃ word ∈ words, part <+: word ∧ part.length < word.length) := by
  induction words generalizing size with
  | nil => exact ⟨[], List.take_nil, Or.inl rfl⟩
  | cons word later ih =>
      rw [List.flatten_cons]
      by_cases fits : word.length ≤ size
      · obtain ⟨part, split, inside⟩ := ih (size - word.length)
        refine ⟨part, ?_, ?_⟩
        · rw [List.take_append, List.take_of_length_le fits, split,
            wholeWords_fits later fits, List.take_succ_cons, List.flatten_cons,
            List.append_assoc]
        · rcases inside with nothing | ⟨other, member, inside⟩
          · exact Or.inl nothing
          · exact Or.inr ⟨other, List.mem_cons_of_mem word member, inside⟩
      · have short := Nat.lt_of_not_le fits
        refine ⟨word.take size, ?_, Or.inr ⟨word, List.mem_cons_self, ?_, ?_⟩⟩
        · rw [wholeWords_short later short, List.take_append_of_le_length (Nat.le_of_lt short)]
          rfl
        · exact List.take_prefix size word
        · rw [List.length_take]
          omega

end WholeWords
