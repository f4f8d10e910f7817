import Socketxx.TextBuffered

/-!
`write_txt` and `o_txt` of `text_socket`.

The two loops share `pos`: the inner one leaves it on a newline, and the outer one steps
past it. What the function hands to the underlying `_o` is the list of its writes.
-/

set_option autoImplicit false

namespace Socketxx.TextSocket

def newline : UInt8 := 10

/-! ### `write_txt` -/

def findNewline (txt : List UInt8) : Nat → Nat → Option Nat
  | 0, _ => none
  | rounds + 1, i =>
      if txt.getD i 0 = newline then some i else findNewline txt rounds (i + 1)

/-- `txt.c_str()+pos`, with a length. -/
def textAt (txt : List UInt8) (pos len : Nat) : List UInt8 := (txt.drop pos).take len

def lineWrites (sep txt : List UInt8) (pos i : Nat) : List (List UInt8) :=
  (if 0 < i - pos then [textAt txt pos (i - pos)] else []) ++ [sep.take (sepsz sep)]

/-- The outer loop: its writes, and `pos` behind it. A round moves `pos` by one or more,
so that there are no more rounds than bytes to go. -/
def writeLoop (sep txt : List UInt8) : Nat → Nat → List (List UInt8) × Nat
  | 0, pos => ([], pos)
  | rounds + 1, pos =>
      if pos < txt.length then
        match findNewline txt (txt.length - pos) pos with
        | some i =>
            let (writes, last) := writeLoop sep txt rounds (i + 1)
            (lineWrites sep txt pos i ++ writes, last)
        | none => writeLoop sep txt rounds (pos + 1)
      else ([], pos)

def writeTxt (sep txt : List UInt8) : List (List UInt8) :=
  let (writes, pos) := writeLoop sep txt txt.length 0
  if pos < txt.length then
    writes ++ [textAt txt pos (txt.length - pos), sep.take (sepsz sep)]
  else writes

/-! ### The documented text -/

def replaceNewlines (sep txt : List UInt8) : List UInt8 :=
  txt.flatMap (fun c => if c = newline then sep else [c])

/-- The comment on `o_txt`: a final line ending is added if there is none. -/
def documentedTxt (sep txt : List UInt8) : List UInt8 :=
  replaceNewlines sep txt ++
    if txt ≠ [] ∧ txt.getLast? ≠ some newline then sep else []

/-- A text up to its last newline, this one included. -/
def throughLastNewline : List UInt8 → List UInt8
  | [] => []
  | c :: rest => if newline ∈ c :: rest then c :: throughLastNewline rest else []

theorem replaceNewlines_append (sep left right : List UInt8) :
    replaceNewlines sep (left ++ right) =
      replaceNewlines sep left ++ replaceNewlines sep right :=
  List.flatMap_append ..

theorem replaceNewlines_newline (sep rest : List UInt8) :
    replaceNewlines sep (newline :: rest) = sep ++ replaceNewlines sep rest := by
  rw [replaceNewlines, List.flatMap_cons, if_pos rfl]
  rfl

theorem replaceNewlines_line (sep : List UInt8) {line : List UInt8} (plain : newline ∉ line) :
    replaceNewlines sep line = line := by
  induction line with
  | nil => rfl
  | cons c line ih =>
      rw [List.mem_cons, not_or] at plain
      obtain ⟨other, plain⟩ := plain
      rw [replaceNewlines, List.flatMap_cons, if_neg (Ne.symm other), List.singleton_append]
      exact congrArg (List.cons c) (ih plain)

theorem throughLastNewline_plain {txt : List UInt8} (plain : newline ∉ txt) :
    throughLastNewline txt = [] := by
  cases txt with
  | nil => rfl
  | cons c rest => exact if_neg plain

theorem throughLastNewline_line (line rest : List UInt8) :
    throughLastNewline (line ++ newline :: rest) =
      line ++ newline :: throughLastNewline rest := by
  induction line with
  | nil => exact if_pos List.mem_cons_self
  | cons c line ih =>
      have inside : newline ∈ c :: (line ++ newline :: rest) := by simp
      rw [List.cons_append, throughLastNewline, if_pos inside, ih]
      rfl

theorem throughLastNewline_split (txt : List UInt8) :
    ∃ last, txt = throughLastNewline txt ++ last ∧ newline ∉ last := by
  induction txt with
  | nil => exact ⟨[], rfl, List.not_mem_nil⟩
  | cons c rest ih =>
      unfold throughLastNewline
      by_cases inside : newline ∈ c :: rest
      · obtain ⟨last, split, plain⟩ := ih
        rw [if_pos inside]
        exact ⟨last, congrArg (List.cons c) split, plain⟩
      · rw [if_neg inside]
        exact ⟨c :: rest, rfl, inside⟩

private theorem throughLastNewline_getLast? (txt : List UInt8) :
    throughLastNewline txt = [] ∨ (throughLastNewline txt).getLast? = some newline := by
  induction txt with
  | nil => exact Or.inl rfl
  | cons c rest ih =>
      unfold throughLastNewline
      by_cases inside : newline ∈ c :: rest
      · apply Or.inr
        rw [if_pos inside]
        rcases ih with empty | ends
        · have here : c = newline := by
            rcases List.mem_cons.mp inside with here | later
            · exact here.symm
            · obtain ⟨line, after, split⟩ := List.append_of_mem later
              rw [split, throughLastNewline_line] at empty
              simp at empty
          rw [empty, here]
          rfl
        · rw [List.getLast?_cons, ends]
          rfl
      · exact Or.inl (if_neg inside)

private theorem throughLastNewline_eq_self_iff (txt : List UInt8) :
    throughLastNewline txt = txt ↔ txt = [] ∨ txt.getLast? = some newline := by
  constructor
  · intro same
    have ends := throughLastNewline_getLast? txt
    rwa [same] at ends
  · intro ends
    obtain ⟨last, split, plain⟩ := throughLastNewline_split txt
    rcases ends with empty | ends
    · rw [empty]
      rfl
    · have nothing : last = [] := by
        by_contra something
        rw [split, List.getLast?_append_of_ne_nil _ something] at ends
        exact plain (List.mem_of_getLast? ends)
      rw [nothing, List.append_nil] at split
      exact split.symm

/-! ### What the loops write -/

private theorem findNewline_cases (txt : List UInt8) (rounds i : Nat)
    (all : i + rounds = txt.length) :
    (∃ line rest, txt.drop i = line ++ newline :: rest ∧ newline ∉ line ∧
        findNewline txt rounds i = some (i + line.length)) ∨
      newline ∉ txt.drop i ∧ findNewline txt rounds i = none := by
  induction rounds generalizing i with
  | zero =>
      apply Or.inr
      rw [List.drop_of_length_le (by omega)]
      exact ⟨List.not_mem_nil, rfl⟩
  | succ rounds ih =>
      have inside : i < txt.length := by omega
      rw [findNewline, List.getD_eq_getElem _ _ inside, List.drop_eq_getElem_cons inside]
      by_cases here : txt[i] = newline
      · rw [if_pos here, here]
        exact Or.inl ⟨[], txt.drop (i + 1), rfl, List.not_mem_nil, rfl⟩
      · rw [if_neg here]
        rcases ih (i + 1) (by omega) with ⟨line, rest, split, plain, found⟩ | ⟨plain, none⟩
        · apply Or.inl
          refine ⟨txt[i] :: line, rest, ?_, ?_, ?_⟩
          · rw [split, List.cons_append]
          · rw [List.mem_cons, not_or]
            exact ⟨Ne.symm here, plain⟩
          · rw [found, List.length_cons]
            congr 1
            omega
        · apply Or.inr
          rw [List.mem_cons, not_or]
          exact ⟨⟨Ne.symm here, plain⟩, none⟩

private theorem LineSep.lineWrites_flatten (sep : LineSep) {txt line rest : List UInt8} {pos : Nat}
    (split : txt.drop pos = line ++ newline :: rest) :
    (lineWrites sep.chars txt pos (pos + line.length)).flatten = line ++ sep.chars := by
  have whole : sep.chars.take (sepsz sep.chars) = sep.chars := by
    rw [sep.sepsz_eq, List.take_length]
  have piece : textAt txt pos line.length = line := by
    rw [textAt, split, List.take_left]
  rw [lineWrites, Nat.add_sub_cancel_left, whole, piece]
  cases line with
  | nil => exact List.append_nil _
  | cons c line => simp

private theorem LineSep.writeLoop_eq (sep : LineSep) (txt : List UInt8) (rounds pos : Nat)
    (inside : pos ≤ txt.length) (enough : txt.length ≤ pos + rounds) :
    (writeLoop sep.chars txt rounds pos).1.flatten =
        replaceNewlines sep.chars (throughLastNewline (txt.drop pos)) ∧
      (writeLoop sep.chars txt rounds pos).2 = txt.length := by
  induction rounds generalizing pos with
  | zero =>
      rw [List.drop_of_length_le (by omega)]
      exact ⟨rfl, Nat.le_antisymm inside enough⟩
  | succ rounds ih =>
      unfold writeLoop
      by_cases more : pos < txt.length
      · rw [if_pos more]
        rcases findNewline_cases txt (txt.length - pos) pos (by omega) with
          ⟨line, rest, split, plain, found⟩ | ⟨plain, none⟩
        · have size := congrArg List.length split
          rw [List.length_drop, List.length_append, List.length_cons] at size
          have later : txt.drop (pos + line.length + 1) = rest := by
            rw [Nat.add_assoc, ← List.drop_drop, split, ← List.drop_drop, List.drop_left]
            rfl
          obtain ⟨text, last⟩ := ih (pos + line.length + 1) (by omega) (by omega)
          rw [found]
          constructor
          · rw [List.flatten_append, sep.lineWrites_flatten split, text, later, split,
              throughLastNewline_line, replaceNewlines_append, replaceNewlines_newline,
              replaceNewlines_line _ plain, List.append_assoc]
          · exact last
        · rw [none]
          obtain ⟨text, last⟩ := ih (pos + 1) (by omega) (by omega)
          have tail : newline ∉ txt.drop (pos + 1) := by
            intro member
            rw [← List.drop_drop] at member
            exact plain (List.mem_of_mem_drop member)
          rw [throughLastNewline_plain tail] at text
          rw [throughLastNewline_plain plain]
          exact ⟨text, last⟩
      · rw [if_neg more, List.drop_of_length_le (by omega)]
        exact ⟨rfl, by omega⟩

/-- The branch behind the loops is never taken: what is written ends with the last newline. -/
theorem LineSep.writeTxt_flatten (sep : LineSep) (txt : List UInt8) :
    (writeTxt sep.chars txt).flatten =
      replaceNewlines sep.chars (throughLastNewline txt) := by
  obtain ⟨text, last⟩ := sep.writeLoop_eq txt txt.length 0 (Nat.zero_le _) (by omega)
  rw [List.drop_zero] at text
  unfold writeTxt
  rw [← text]
  simp only [last, Nat.lt_irrefl, if_false]

/-- `o_txt` writes the documented text when nothing comes after the last newline, and no
other text. -/
theorem writeTxt_documented_iff (sep : LineSep) (txt : List UInt8) :
    (writeTxt sep.chars txt).flatten = documentedTxt sep.chars txt ↔
      txt = [] ∨ txt.getLast? = some newline := by
  rw [sep.writeTxt_flatten]
  unfold documentedTxt
  constructor
  · intro same
    by_contra openEnd
    obtain ⟨last, split, plain⟩ := throughLastNewline_split txt
    rw [if_pos (not_or.mp openEnd)] at same
    nth_rewrite 2 [split] at same
    rw [replaceNewlines_append, List.append_assoc] at same
    have nothing := List.append_right_eq_self.mp same.symm
    exact sep.nonempty (List.append_eq_nil_iff.mp nothing).2
  · intro ends
    have closed : ¬ (txt ≠ [] ∧ txt.getLast? ≠ some newline) := by
      intro both
      rcases ends with empty | ends
      · exact both.1 empty
      · exact both.2 ends
    rw [if_neg closed, List.append_nil, (throughLastNewline_eq_self_iff txt).mpr ends]

theorem writeTxt_abc :
    ¬ ∀ (sep : LineSep) (txt : List UInt8),
      (writeTxt sep.chars txt).flatten = documentedTxt sep.chars txt := by
  intro documented
  have text := documented LineSep.crlf [97, 98, 99]
  revert text
  decide

end Socketxx.TextSocket
