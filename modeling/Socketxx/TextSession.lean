import Socketxx.Library.WholeWords
import Socketxx.TextLines
import Socketxx.TextWriter

/-!
Text sessions that are not read to their end, and texts: what a reader of lines makes of a
beginning of a session, and of what `o_txt` writes.
-/

set_option autoImplicit false

namespace Socketxx.TextSocket

open LeftmostCut WholeWords

/-- The line with its separator ends where the reader first finds one. -/
def Clean (sep line : List UInt8) : Prop := Leftmost sep (line ++ sep) line.length

/-- How many lines are there as a whole in the first `size` bytes of a session. -/
def completeLines (sep : List UInt8) (lines : List (List UInt8)) (size : Nat) : Nat :=
  wholeWords (lines.map (oLine sep)) size

/-! ### Sessions that end early -/

section

variable {sep : List UInt8} {lines : List (List UInt8)}

private theorem Clean.absent_part (nonempty : sep ≠ []) {line part : List UInt8}
    (clean : Clean sep line) (inside : part <+: oLine sep line)
    (less : part.length < (oLine sep line).length) : Absent sep part := by
  have size : (oLine sep line).length = line.length + sep.length := List.length_append
  intro index occurs
  have fits := occurs.length_le nonempty
  obtain ⟨more, whole⟩ := inside
  have earlier := occurs.append nonempty more
  rw [whole] at earlier
  exact clean.first index (by omega) earlier

theorem Clean.of_newline {line : List UInt8} (marked : newline ∈ sep)
    (unbordered : ∀ border, ¬ Border border sep) (plain : newline ∉ line) :
    Clean sep line := by
  apply (leftmost_iff_absent (List.ne_nil_of_mem marked) unbordered).mpr
  intro index occurs
  exact plain (List.mem_of_mem_drop (occurs.subset marked))

theorem oLines_eq_flatten (sep : List UInt8) (lines : List (List UInt8)) :
    oLines sep lines = (lines.map (oLine sep)).flatten := List.flatMap_def

private theorem oLines_eq_flatMap (sep : List UInt8) (lines : List (List UInt8)) :
    oLines sep lines = lines.flatMap (fun line => line ++ sep) := rfl

theorem Clean.cut_take (nonempty : sep ≠ []) (clean : ∀ line ∈ lines, Clean sep line)
    (size : Nat) :
    ∃ part, Cut sep ((oLines sep lines).take size)
      (lines.take (completeLines sep lines size)) part := by
  obtain ⟨part, split, inside⟩ := take_flatten (lines.map (oLine sep)) size
  have absent : Absent sep part := by
    rcases inside with nothing | ⟨word, member, beginning, less⟩
    · rw [nothing]
      exact absent_nil nonempty
    · obtain ⟨line, present, rfl⟩ := List.mem_map.mp member
      exact (clean line present).absent_part nonempty beginning less
  have whole := (cut_flatMap_iff nonempty (lines.take (completeLines sep lines size))).mpr
    (fun line member => clean line (List.mem_of_mem_take member))
  have cut := whole.append nonempty (Cut.rest ([] ++ part) absent)
  refine ⟨part, ?_⟩
  rw [List.append_nil] at cut
  rw [oLines_eq_flatten, split, ← List.map_take, ← oLines_eq_flatten]
  exact cut

end

/-- However many bytes of a session arrive, in whatever chunks and with whatever failures of
`_i` between them: the calls return the first lines that were sent, and, when there are
calls enough, exactly those that have arrived as a whole, a part of a line never. -/
theorem iLines_take (sep : LineSep) {lines : List (List UInt8)}
    (clean : ∀ line ∈ lines, Clean sep.chars line) (size : Nat) (arrivals : List Arrival)
    (stream : received arrivals = (oLines sep.chars lines).take size) (calls : Nat) :
    linesOf (iLines sep.chars calls ⟨[], arrivals⟩).1 <+:
        lines.take (completeLines sep.chars lines size) ∧
      ((lines.take (completeLines sep.chars lines size)).length + failures arrivals < calls →
        linesOf (iLines sep.chars calls ⟨[], arrivals⟩).1 =
          lines.take (completeLines sep.chars lines size)) := by
  obtain ⟨part, cut⟩ := Clean.cut_take sep.nonempty clean size
  rw [← stream] at cut
  obtain ⟨first, enough⟩ := sep.iLines_pieces calls ⟨[], arrivals⟩ cut
  exact ⟨first, fun more => (enough more).1⟩

theorem iLines_take_seven :
    linesOf (iLines LineSep.crlf.chars 4
      ⟨[], [.chunk [97, 98], .ioError, .chunk [13, 10, 99, 100, 13]]⟩).1 = [[97, 98]] := by
  have clean : ∀ line ∈ [[97, 98], [99, 100]], Clean LineSep.crlf.chars line := by
    intro line member
    apply Clean.of_newline (by decide) LineSep.crlf_unbordered
    rcases List.mem_cons.mp member with rfl | member
    · decide
    · rw [List.mem_singleton.mp member]
      decide
  exact (iLines_take LineSep.crlf clean 7 _ rfl 4).2 (by decide)

/-! ### Texts -/

/-- The lines of a text that end in a newline, without it. -/
def txtLines : List UInt8 → List (List UInt8)
  | [] => []
  | c :: rest =>
      if newline ∈ c :: rest then
        if c = newline then [] :: txtLines rest
        else
          match txtLines rest with
          | [] => []
          | line :: later => (c :: line) :: later
      else []

theorem txtLines_plain {txt : List UInt8} (plain : newline ∉ txt) : txtLines txt = [] := by
  cases txt with
  | nil => rfl
  | cons c rest => exact if_neg plain

theorem txtLines_line {line : List UInt8} (plain : newline ∉ line) (rest : List UInt8) :
    txtLines (line ++ newline :: rest) = line :: txtLines rest := by
  induction line with
  | nil => rw [List.nil_append, txtLines, if_pos List.mem_cons_self, if_pos rfl]
  | cons c line ih =>
      rw [List.mem_cons, not_or] at plain
      have inside : newline ∈ c :: (line ++ newline :: rest) := by simp
      rw [List.cons_append, txtLines, if_pos inside, if_neg (Ne.symm plain.1), ih plain.2]

theorem txt_induction {motive : List UInt8 → Prop}
    (last : ∀ rest, newline ∉ rest → motive rest)
    (line : ∀ line rest, newline ∉ line → motive rest → motive (line ++ newline :: rest))
    (txt : List UInt8) : motive txt := by
  induction size : txt.length using Nat.strongRecOn generalizing txt with
  | ind count ih =>
      by_cases inside : newline ∈ txt
      · obtain ⟨front, rest, split, plain⟩ := List.eq_append_cons_of_mem inside
        subst split
        apply line front rest plain
        apply ih rest.length _ rest rfl
        rw [← size, List.length_append, List.length_cons]
        omega
      · exact last txt inside

private theorem replaceNewlines_throughLastNewline (sep txt : List UInt8) :
    replaceNewlines sep (throughLastNewline txt) = oLines sep (txtLines txt) := by
  induction txt using txt_induction with
  | last rest plain =>
      rw [throughLastNewline_plain plain, txtLines_plain plain]
      rfl
  | line line rest plain ih =>
      rw [throughLastNewline_line, txtLines_line plain, replaceNewlines_append,
        replaceNewlines_newline, replaceNewlines_line sep plain, ih, oLines_eq_flatMap,
        oLines_eq_flatMap, List.flatMap_cons, List.append_assoc]

private theorem newline_not_mem_txtLines (txt : List UInt8) :
    ∀ line ∈ txtLines txt, newline ∉ line := by
  induction txt using txt_induction with
  | last rest plain =>
      rw [txtLines_plain plain]
      intro line member
      cases member
  | line line rest plain ih =>
      rw [txtLines_line plain, List.forall_mem_cons]
      exact ⟨plain, ih⟩

/-- A text written by `o_txt` is read as the lines that end in a newline, when each of them
is clean and only then. That is so for every text if the separator contains a newline and
has no border, as the default one does. -/
theorem writeTxt_iLines_iff (sep : LineSep) :
    (∀ (txt : List UInt8) (arrivals : List Arrival), failures arrivals = 0 →
      received arrivals = (writeTxt sep.chars txt).flatten →
      ((iLines sep.chars (txtLines txt).length ⟨[], arrivals⟩).1 =
          (txtLines txt).map Ending.line ↔
        ∀ line ∈ txtLines txt, Clean sep.chars line)) ∧
    (newline ∈ sep.chars → (∀ border, ¬ Border border sep.chars) →
      ∀ txt : List UInt8, ∀ line ∈ txtLines txt, Clean sep.chars line) := by
  constructor
  · intro txt arrivals quiet stream
    rw [sep.writeTxt_flatten, replaceNewlines_throughLastNewline] at stream
    rw [sep.iLines_eq_iff (txtLines txt) arrivals quiet stream, stream]
    exact cut_flatMap_iff sep.nonempty (txtLines txt)
  · intro marked unbordered txt line member
    exact Clean.of_newline marked unbordered (newline_not_mem_txtLines txt line member)

theorem writeTxt_iLines_abc :
    (iLines LineSep.crlf.chars 2 ⟨[], [.chunk [97, 13], .chunk [10, 13, 10]]⟩).1 =
      [.line [97], .line []] := by
  have both := writeTxt_iLines_iff LineSep.crlf
  exact (both.1 [97, 10, 10, 99] [.chunk [97, 13], .chunk [10, 13, 10]] rfl rfl).mpr
    (both.2 (by decide) LineSep.crlf_unbordered [97, 10, 10, 99])

end Socketxx.TextSocket
