import Mathlib.Data.List.Infix
import Mathlib.Tactic.Common

/-!
A stream cut again and again at the leftmost occurrence of a separator.

`Cut sep stream lines rest` is the specification: it determines the lines and the
rest, exists for every stream, and grows with the stream, so that a reader may cut
whenever it likes and keep the rest.
-/

set_option autoImplicit false

namespace LeftmostCut

variable {α : Type} {sep stream more : List α} {index : Nat}

def OccursAt (sep stream : List α) (index : Nat) : Prop := sep <+: stream.drop index

structure Leftmost (sep stream : List α) (index : Nat) : Prop where
  occurs : OccursAt sep stream index
  first : ∀ earlier < index, ¬ OccursAt sep stream earlier

def Absent (sep stream : List α) : Prop := ∀ index, ¬ OccursAt sep stream index

inductive Cut (sep : List α) : List α → List (List α) → List α → Prop where
  | rest (stream : List α) (absent : Absent sep stream) : Cut sep stream [] stream
  | line (line after : List α) (lines : List (List α)) (rest : List α)
      (leftmost : Leftmost sep (line ++ (sep ++ after)) line.length)
      (later : Cut sep after lines rest) :
      Cut sep (line ++ (sep ++ after)) (line :: lines) rest

theorem OccursAt.length_le (nonempty : sep ≠ []) (occurs : OccursAt sep stream index) :
    index + sep.length ≤ stream.length := by
  have positive := List.length_pos_iff.mpr nonempty
  have inside := List.IsPrefix.length_le occurs
  rw [List.length_drop] at inside
  omega

theorem OccursAt.append (nonempty : sep ≠ []) (occurs : OccursAt sep stream index)
    (more : List α) : OccursAt sep (stream ++ more) index := by
  have inside := occurs.length_le nonempty
  rw [OccursAt, List.drop_append_of_le_length (by omega)]
  exact List.IsPrefix.trans occurs (List.prefix_append ..)

theorem OccursAt.of_append (inside : index + sep.length ≤ stream.length)
    (occurs : OccursAt sep (stream ++ more) index) : OccursAt sep stream index := by
  rw [OccursAt, List.drop_append_of_le_length (by omega)] at occurs
  apply List.prefix_of_prefix_length_le occurs (List.prefix_append ..)
  rw [List.length_drop]
  omega

theorem OccursAt.split (occurs : OccursAt sep stream index) :
    stream = stream.take index ++ (sep ++ stream.drop (index + sep.length)) := by
  obtain ⟨after, same⟩ := occurs
  have later : stream.drop (index + sep.length) = after := by
    rw [← List.drop_drop, ← same, List.drop_left]
  rw [later, same, List.take_append_drop]

theorem absent_nil (nonempty : sep ≠ []) : Absent sep [] := by
  intro index occurs
  have inside := occurs.length_le nonempty
  have positive := List.length_pos_iff.mpr nonempty
  rw [List.length_nil] at inside
  omega

private theorem occursAt_middle (line sep after : List α) :
    OccursAt sep (line ++ (sep ++ after)) line.length := by
  rw [OccursAt, List.drop_left]
  exact List.prefix_append ..

theorem Leftmost.append (nonempty : sep ≠ []) (leftmost : Leftmost sep stream index)
    (more : List α) : Leftmost sep (stream ++ more) index := by
  constructor
  case occurs => exact leftmost.occurs.append nonempty more
  case first =>
    intro earlier before occurs
    have inside := leftmost.occurs.length_le nonempty
    exact leftmost.first earlier before (occurs.of_append (by omega))

private theorem Leftmost.of_append (nonempty : sep ≠ [])
    (inside : index + sep.length ≤ stream.length)
    (leftmost : Leftmost sep (stream ++ more) index) : Leftmost sep stream index := by
  constructor
  case occurs => exact leftmost.occurs.of_append inside
  case first =>
    intro earlier before occurs
    exact leftmost.first earlier before (occurs.append nonempty more)

private theorem Leftmost.unique {other : Nat} (left : Leftmost sep stream index)
    (right : Leftmost sep stream other) : index = other := by
  rcases Nat.lt_trichotomy index other with before | same | behind
  · exact absurd left.occurs (right.first index before)
  · exact same
  · exact absurd right.occurs (left.first other behind)

private theorem exists_leftmost (occurs : OccursAt sep stream index) :
    ∃ first, Leftmost sep stream first := by
  induction index using Nat.strongRecOn with
  | ind index ih =>
      by_cases earlier : ∃ before < index, OccursAt sep stream before
      · obtain ⟨before, less, found⟩ := earlier
        exact ih before less found
      · refine ⟨index, occurs, ?_⟩
        intro before less found
        exact earlier ⟨before, less, found⟩

/-! ### Cutting -/

theorem Cut.stream_eq {lines : List (List α)} {rest : List α}
    (cut : Cut sep stream lines rest) :
    lines.flatMap (fun line => line ++ sep) ++ rest = stream := by
  induction cut with
  | rest stream absent => rfl
  | line line after lines rest leftmost later ih =>
      rw [List.flatMap_cons, List.append_assoc, List.append_assoc, ih]

theorem Cut.absent {lines : List (List α)} {rest : List α}
    (cut : Cut sep stream lines rest) : Absent sep rest := by
  induction cut with
  | rest stream absent => exact absent
  | line line after lines rest leftmost later ih => exact ih

theorem Cut.unique {lines others : List (List α)} {rest other : List α}
    (left : Cut sep stream lines rest) (right : Cut sep stream others other) :
    lines = others ∧ rest = other := by
  induction left generalizing others other with
  | rest stream absent =>
      cases right with
      | rest _ _ => exact ⟨rfl, rfl⟩
      | line line after lines rest leftmost later =>
          exact absurd leftmost.occurs (absent line.length)
  | line line after lines rest leftmost later ih =>
      generalize same : line ++ (sep ++ after) = whole at right
      cases right with
      | rest _ absent =>
          rw [← same] at absent
          exact absurd leftmost.occurs (absent line.length)
      | line other behind others rest' first further =>
          rw [← same] at first
          obtain ⟨rfl, tail⟩ := List.append_inj same (leftmost.unique first)
          obtain rfl := List.append_cancel_left tail
          obtain ⟨rfl, rfl⟩ := ih further
          exact ⟨rfl, rfl⟩

theorem Cut.exists (nonempty : sep ≠ []) (stream : List α) :
    ∃ lines rest, Cut sep stream lines rest := by
  induction size : stream.length using Nat.strongRecOn generalizing stream with
  | ind count ih =>
      by_cases found : ∃ index, OccursAt sep stream index
      · obtain ⟨index, occurs⟩ := found
        obtain ⟨first, leftmost⟩ := exists_leftmost occurs
        have positive := List.length_pos_iff.mpr nonempty
        have inside := leftmost.occurs.length_le nonempty
        have place : (stream.take first).length = first := List.length_take_of_le (by omega)
        have shorter : (stream.drop (first + sep.length)).length < count := by
          rw [List.length_drop]
          omega
        obtain ⟨lines, rest, cut⟩ := ih _ shorter _ rfl
        have parts := leftmost.occurs.split
        refine ⟨stream.take first :: lines, rest, ?_⟩
        have here : Leftmost sep (stream.take first ++
            (sep ++ stream.drop (first + sep.length))) (stream.take first).length := by
          rw [← parts, place]
          exact leftmost
        have whole := Cut.line _ _ _ _ here cut
        rwa [← parts] at whole
      · refine ⟨[], stream, Cut.rest stream ?_⟩
        intro index occurs
        exact found ⟨index, occurs⟩

theorem Cut.append (nonempty : sep ≠ []) {lines others : List (List α)} {rest last : List α}
    (cut : Cut sep stream lines rest) (further : Cut sep (rest ++ more) others last) :
    Cut sep (stream ++ more) (lines ++ others) last := by
  induction cut with
  | rest stream absent => exact further
  | line line after lines rest leftmost later ih =>
      have grown := leftmost.append nonempty more
      rw [List.append_assoc, List.append_assoc] at grown ⊢
      exact Cut.line line (after ++ more) (lines ++ others) last grown (ih further)

theorem Cut.mark {mark : α} (nonempty : sep ≠ []) (foreign : mark ∉ sep)
    (absent : Absent sep stream) :
    Cut sep (stream ++ mark :: sep) [stream ++ [mark]] [] := by
  have leftmost : Leftmost sep ((stream ++ [mark]) ++ (sep ++ []))
      (stream ++ [mark]).length := by
    refine ⟨occursAt_middle .., ?_⟩
    intro earlier before occurs
    rw [List.length_append, List.length_singleton] at before
    by_cases inside : earlier + sep.length ≤ stream.length
    · rw [List.append_assoc] at occurs
      exact absent earlier (occurs.of_append inside)
    · apply foreign
      rw [OccursAt, List.drop_append_of_le_length (by simp; omega),
        List.drop_append_of_le_length (by omega), List.append_assoc] at occurs
      have place : (stream.drop earlier).length < sep.length := by
        rw [List.length_drop]
        omega
      have same := occurs.getElem place
      rw [List.getElem_append_right (Nat.le_refl _)] at same
      simp only [Nat.sub_self, List.singleton_append, List.getElem_cons_zero] at same
      rw [← same]
      exact List.getElem_mem place
  have cut := Cut.line (stream ++ [mark]) [] [] [] leftmost
    (Cut.rest [] (absent_nil nonempty))
  rwa [List.append_assoc, List.append_nil, List.singleton_append] at cut

/-! ### Lines put together again -/

/-- Lines that are each followed by the separator are cut apart as they were when each of
them ends at its leftmost separator. -/
theorem cut_flatMap_iff (nonempty : sep ≠ []) (lines : List (List α)) :
    Cut sep (lines.flatMap (fun line => line ++ sep)) lines [] ↔
      ∀ line ∈ lines, Leftmost sep (line ++ sep) line.length := by
  induction lines with
  | nil =>
      constructor
      · intro _cut line member
        cases member
      · intro _each
        exact Cut.rest [] (absent_nil nonempty)
  | cons line lines ih =>
      rw [List.forall_mem_cons, ← ih, List.flatMap_cons]
      generalize lines.flatMap (fun line => line ++ sep) = after
      have shape : line ++ sep ++ after = line ++ (sep ++ after) := List.append_assoc ..
      constructor
      · intro cut
        generalize same : line ++ sep ++ after = stream at cut
        cases cut with
        | line _ behind _ _ leftmost later =>
            rw [shape] at same
            obtain rfl := List.append_cancel_left (List.append_cancel_left same)
            rw [← shape] at leftmost
            constructor
            · apply leftmost.of_append nonempty
              rw [List.length_append]
            · exact later
      · intro parts
        obtain ⟨leftmost, later⟩ := parts
        have grown := leftmost.append nonempty after
        rw [shape] at grown ⊢
        exact Cut.line line after lines [] grown later

/-- A proper and non-empty prefix of the separator that is also one of its suffixes. -/
structure Border (border sep : List α) : Prop where
  nonempty : border ≠ []
  proper : border.length < sep.length
  isPrefix : border <+: sep
  isSuffix : border <:+ sep

private theorem Leftmost.absent {line : List α} (nonempty : sep ≠ [])
    (leftmost : Leftmost sep (line ++ sep) line.length) : Absent sep line := by
  intro index occurs
  have positive := List.length_pos_iff.mpr nonempty
  have inside := occurs.length_le nonempty
  exact leftmost.first index (by omega) (occurs.append nonempty sep)

private theorem OccursAt.border {line : List α} (occurs : OccursAt sep (line ++ sep) index)
    (before : index < line.length) (across : line.length < index + sep.length) :
    Border (sep.take (index + sep.length - line.length)) sep := by
  rw [OccursAt, List.drop_append_of_le_length (by omega), List.prefix_iff_eq_take,
    List.take_append, List.take_of_length_le (by rw [List.length_drop]; omega),
    List.length_drop] at occurs
  have size : (sep.take (index + sep.length - line.length)).length =
      index + sep.length - line.length := by
    rw [List.length_take]
    omega
  constructor
  case nonempty =>
    intro empty
    rw [empty, List.length_nil] at size
    omega
  case proper => omega
  case isPrefix => exact List.take_prefix ..
  case isSuffix =>
    have overlap : sep.length - (line.length - index) = index + sep.length - line.length := by
      omega
    rw [overlap] at occurs
    exact ⟨line.drop index, occurs.symm⟩

theorem leftmost_iff_absent {line : List α} (nonempty : sep ≠ [])
    (unbordered : ∀ border, ¬ Border border sep) :
    Leftmost sep (line ++ sep) line.length ↔ Absent sep line := by
  constructor
  · exact Leftmost.absent nonempty
  · intro absent
    constructor
    case occurs =>
      rw [OccursAt, List.drop_left]
    case first =>
      intro earlier before occurs
      by_cases inside : earlier + sep.length ≤ line.length
      · exact absent earlier (occurs.of_append inside)
      · exact unbordered _ (occurs.border before (by omega))

end LeftmostCut
