import Socketxx.TextBuffered

/-!
Lines written with `o_line` and read back with `i_line`.

Writers are the byte strings they hand to the underlying `_o`, which sends all of them.
-/

set_option autoImplicit false

namespace Socketxx.TextSocket

open LeftmostCut

/-! ### `o_line` -/

def oStr (str : List UInt8) : List UInt8 := str

def oLineEnding (sep : List UInt8) : List UInt8 := sep

def oLine (sep line : List UInt8) : List UInt8 := oStr line ++ oLineEnding sep

/-- What a sender of these lines has put on the stream. -/
def oLines (sep : List UInt8) (lines : List (List UInt8)) : List UInt8 :=
  lines.flatMap (oLine sep)

/-! ### Calls that all return a line -/

private theorem iLines_length_le (sep : List UInt8) (calls : Nat) (sock : Reading) :
    (iLines sep calls sock).1.length ≤ calls := by
  induction calls generalizing sock with
  | zero => exact Nat.le_refl 0
  | succ calls ih =>
      unfold iLines
      have others := ih (iLine sep sock).2
      by_cases returned : (iLine sep sock).1.returned
      · simp only [returned, if_true, List.length_cons]
        omega
      · simp [returned]

private theorem linesOf_map_line (lines : List (List UInt8)) :
    linesOf (lines.map Ending.line) = lines := by
  rw [linesOf, List.filterMap_map]
  exact List.filterMap_some

private theorem eq_map_line {endings : List Ending} {lines : List (List UInt8)}
    (same : linesOf endings = lines) (few : endings.length ≤ lines.length) :
    endings = lines.map Ending.line := by
  induction endings generalizing lines with
  | nil =>
      subst same
      rfl
  | cons ending later ih =>
      have bound : (linesOf later).length ≤ later.length := List.length_filterMap_le _ _
      cases ending with
      | line bytes =>
          have split : linesOf (.line bytes :: later) = bytes :: linesOf later := rfl
          rw [split] at same
          subst same
          rw [List.map_cons, ← ih rfl (Nat.le_of_succ_le_succ few)]
      | _ =>
          have skipped : linesOf later = lines := same
          rw [skipped] at bound
          rw [List.length_cons] at few
          omega

/-! ### The round trip -/

variable {sep : List UInt8} {arrivals consumed : List Arrival} {endings : List Ending}
  {after : Reading}

theorem Session.cut_rest (session : Session sep ⟨[], arrivals⟩ endings consumed after)
    {more : List (List UInt8)} {rest : List UInt8}
    (cut : Cut sep (after.buffer ++ received after.arrivals) more rest) :
    Cut sep (received arrivals) (linesOf endings ++ more) rest := by
  have whole := session.leftmost _ more rest cut
  rwa [List.append_assoc, ← received_append, ← session.order] at whole

private theorem Session.cut_of_stream (nonempty : sep ≠ [])
    (session : Session sep ⟨[], arrivals⟩ endings consumed after)
    (stream : received arrivals = (linesOf endings).flatMap (fun line => line ++ sep)) :
    Cut sep (received arrivals) (linesOf endings) [] := by
  have order : arrivals = consumed ++ after.arrivals := session.order
  have bytes := session.lossless
  rw [List.nil_append, ← stream] at bytes
  have whole : received arrivals ++ (after.buffer ++ received after.arrivals) =
      received arrivals := by
    rw [← List.append_assoc, bytes, ← received_append, ← order]
  have left := List.append_right_eq_self.mp whole
  have cut := @Session.cut_rest sep arrivals consumed endings after session [] []
    (by rw [left]; exact Cut.rest [] (absent_nil nonempty))
  rwa [List.append_nil] at cut

private theorem Session.linesOf_eq (session : Session sep ⟨[], arrivals⟩ endings consumed after)
    (quiet : failures arrivals = 0) {lines : List (List UInt8)}
    (cut : Cut sep (received arrivals) lines []) (first : linesOf endings <+: lines)
    (ended : endings.countP Ending.returned = lines.length ∨
      after.arrivals = [] ∧ Absent sep after.buffer) : linesOf endings = lines := by
  rcases ended with completed | ⟨used, absent⟩
  · have order : arrivals = consumed ++ after.arrivals := session.order
    rw [order, failures_append] at quiet
    rw [countP_returned, session.errors] at completed
    exact first.eq_of_length (by omega)
  · have whole := @Session.cut_rest sep arrivals consumed endings after session [] after.buffer
      (by rw [used, received_nil, List.append_nil]; exact Cut.rest _ absent)
    rw [List.append_nil] at whole
    exact (whole.unique cut).1

/-- Reading as many lines as were sent gives them back when they are the pieces between the
leftmost separators of the stream. -/
theorem LineSep.iLines_eq_iff (sep : LineSep) (lines : List (List UInt8))
    (arrivals : List Arrival) (quiet : failures arrivals = 0)
    (stream : received arrivals = lines.flatMap (fun line => line ++ sep.chars)) :
    (iLines sep.chars lines.length ⟨[], arrivals⟩).1 = lines.map Ending.line ↔
      Cut sep.chars (received arrivals) lines [] := by
  obtain ⟨consumed, session⟩ := sep.iLines_session lines.length ⟨[], arrivals⟩
  constructor
  · intro same
    have read : linesOf (iLines sep.chars lines.length ⟨[], arrivals⟩).1 = lines := by
      rw [same, linesOf_map_line]
    have cut := session.cut_of_stream sep.nonempty (by rw [read, stream])
    rwa [read] at cut
  · intro cut
    have first := (sep.iLines_pieces lines.length ⟨[], arrivals⟩ cut).1
    have ended := sep.iLines_completed_or_waiting lines.length ⟨[], arrivals⟩
    have few := iLines_length_le sep.chars lines.length ⟨[], arrivals⟩
    exact eq_map_line (session.linesOf_eq quiet cut first ended) few

theorem LineSep.crlf_unbordered (border : List UInt8) : ¬ Border border LineSep.crlf.chars := by
  intro overlap
  have positive := List.length_pos_iff.mpr overlap.nonempty
  have proper : border.length < 2 := overlap.proper
  have short : border.length = 1 := by omega
  have front := List.prefix_iff_eq_take.mp overlap.isPrefix
  have back := List.suffix_iff_eq_drop.mp overlap.isSuffix
  rw [short] at front back
  have clash : LineSep.crlf.chars.take 1 = LineSep.crlf.chars.drop 1 := front.symm.trans back
  revert clash
  decide

/-- Lines come back as they were sent when each of them ends at the leftmost separator of
what was sent for it, and only then; for a separator without a border, these are the lines
that do not contain it. -/
theorem oLines_iLines_iff (sep : LineSep) :
    (∀ (lines : List (List UInt8)) (arrivals : List Arrival), failures arrivals = 0 →
      received arrivals = oLines sep.chars lines →
      ((iLines sep.chars lines.length ⟨[], arrivals⟩).1 = lines.map Ending.line ↔
        ∀ line ∈ lines, Leftmost sep.chars (line ++ sep.chars) line.length)) ∧
    ((∀ border, ¬ Border border sep.chars) → ∀ line : List UInt8,
      (Leftmost sep.chars (line ++ sep.chars) line.length ↔ Absent sep.chars line)) := by
  constructor
  · intro lines arrivals quiet stream
    rw [sep.iLines_eq_iff lines arrivals quiet stream, stream]
    exact cut_flatMap_iff sep.nonempty lines
  · intro unbordered line
    exact leftmost_iff_absent sep.nonempty unbordered

theorem oLines_iLines_two :
    (iLines LineSep.crlf.chars 2 ⟨[], [.chunk [97, 13], .chunk [10, 98, 13, 10]]⟩).1 =
      [.line [97], .line [98]] := by
  have both := oLines_iLines_iff LineSep.crlf
  apply (both.1 [[97], [98]] [.chunk [97, 13], .chunk [10, 98, 13, 10]] rfl rfl).mpr
  intro line member
  apply (both.2 LineSep.crlf_unbordered line).mpr
  have short : line.length = 1 := by
    rcases List.mem_cons.mp member with rfl | member
    · rfl
    · rw [List.mem_singleton.mp member]
      rfl
  intro index occurs
  have inside := occurs.length_le LineSep.crlf.nonempty
  have two : LineSep.crlf.chars.length = 2 := rfl
  omega

end Socketxx.TextSocket
