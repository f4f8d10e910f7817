import Mathlib.Data.List.GetD
import Socketxx.Library.LeftmostCut

/-!
`read_line` and `i_line` of `text_socket`.

Separators are C strings, given by their bytes before the NUL; `LineSep` is the range
in which the `uint8_t` counters of `read_line` are exact. What the underlying `_i`
does is a list of arrivals, one for every call of it, and a reader whose list is used
up is waiting in `_i`.
-/

set_option autoImplicit false

namespace Socketxx.TextSocket

open LeftmostCut

/-- One call of the underlying `_i`: it returns some bytes or throws. -/
inductive Arrival where
  | chunk (bytes : List UInt8)
  | ioError
deriving DecidableEq, Repr

/-- A separator of 1 to 255 bytes. -/
structure LineSep where
  chars : List UInt8
  nonempty : chars ≠ []
  short : chars.length ≤ 255
  noNul : 0 ∉ chars

def LineSep.crlf : LineSep := ⟨[13, 10], by decide, by decide, by decide⟩

/-! ### `read_line` -/

def sepAt (sep : List UInt8) (c : UInt8) : UInt8 := sep.getD c.toNat 0

def sepsz (sep : List UInt8) : Nat := (UInt8.ofNat sep.length).toNat

inductive Comparison where
  | equal
  | nextchar
  | outOfRange
  | endless
deriving DecidableEq, Repr

/-- The inner loop. The index is back at its start after 256 rounds, so that a loop
still running then runs forever; behind the last byte of a string stands a NUL, behind
which nothing may be read. -/
def compareSep (sep buffer : List UInt8) (i : Nat) : Nat → UInt8 → Comparison
  | 0, _ => .endless
  | rounds + 1, c =>
      if sepAt sep c = 0 then .equal
      else if buffer.length < i + c.toNat then .outOfRange
      else if sepAt sep c ≠ buffer.getD (i + c.toNat) 0 then .nextchar
      else compareSep sep buffer i rounds (c + 1)

inductive Search where
  | line (i : Nat)
  | absent
  | outOfRange
  | endless
deriving DecidableEq, Repr

def searchFrom (sep buffer : List UInt8) : Nat → Nat → Search
  | 0, _ => .absent
  | count + 1, i =>
      if buffer.getD i 0 = sepAt sep 0 then
        match compareSep sep buffer i 256 1 with
        | .equal => .line i
        | .nextchar => searchFrom sep buffer count (i + 1)
        | .outOfRange => .outOfRange
        | .endless => .endless
      else searchFrom sep buffer count (i + 1)

def search (sep buffer : List UInt8) : Search :=
  if sepsz sep ≤ buffer.length then
    searchFrom sep buffer (buffer.length - sepsz sep + 1) 0
  else .absent

inductive Ending where
  | line (bytes : List UInt8)
  | ioError
  | waiting
  | outOfRange
  | endless
deriving DecidableEq, Repr

/-- The buffer of a `text_socket`, and what is still to come out of `_i`. -/
structure Reading where
  buffer : List UInt8
  arrivals : List Arrival
deriving DecidableEq, Repr

def readLine (sep buffer : List UInt8) (arrivals : List Arrival) : Ending × Reading :=
  match search sep buffer with
  | .line i => (.line (buffer.take i), ⟨buffer.drop (i + sepsz sep), arrivals⟩)
  | .outOfRange => (.outOfRange, ⟨buffer, arrivals⟩)
  | .endless => (.endless, ⟨buffer, arrivals⟩)
  | .absent =>
      match arrivals with
      | [] => (.waiting, ⟨buffer, []⟩)
      | .ioError :: later => (.ioError, ⟨buffer, later⟩)
      | .chunk bytes :: later => readLine sep (buffer ++ bytes) later

def iLine (sep : List UInt8) (sock : Reading) : Ending × Reading :=
  readLine sep sock.buffer sock.arrivals

def Ending.returned : Ending → Bool
  | .line _ | .ioError => true
  | _ => false

/-- Up to `calls` calls of `i_line`, each made when the one before it is over. -/
def iLines (sep : List UInt8) : Nat → Reading → List Ending × Reading
  | 0, sock => ([], sock)
  | calls + 1, sock =>
      let (ending, after) := iLine sep sock
      if ending.returned then
        let (endings, last) := iLines sep calls after
        (ending :: endings, last)
      else ([ending], after)

def Ending.line? : Ending → Option (List UInt8)
  | .line bytes => some bytes
  | _ => none

def linesOf (endings : List Ending) : List (List UInt8) := endings.filterMap Ending.line?

def Arrival.bytes : Arrival → List UInt8
  | .chunk bytes => bytes
  | .ioError => []

def received (arrivals : List Arrival) : List UInt8 := arrivals.flatMap Arrival.bytes

def failures (arrivals : List Arrival) : Nat := arrivals.count .ioError

/-! ### The two loops find the leftmost occurrence -/

theorem LineSep.sepsz_eq (sep : LineSep) : sepsz sep.chars = sep.chars.length := by
  have short := sep.short
  rw [sepsz, UInt8.toNat_ofNat', Nat.mod_eq_of_lt (by omega)]

theorem LineSep.sepAt_eq_zero_iff (sep : LineSep) (c : UInt8) :
    sepAt sep.chars c = 0 ↔ sep.chars.length ≤ c.toNat := by
  unfold sepAt
  constructor
  · intro zero
    by_contra inside
    rw [List.getD_eq_getElem _ _ (by omega)] at zero
    apply sep.noNul
    rw [← zero]
    exact List.getElem_mem _
  · intro outside
    exact List.getD_eq_default _ _ outside

private theorem LineSep.compareSep_eq (sep : LineSep) {buffer : List UInt8} {i : Nat}
    (inside : i + sep.chars.length ≤ buffer.length) (rounds : Nat) (c : UInt8)
    (started : c.toNat ≤ sep.chars.length) (enough : sep.chars.length < c.toNat + rounds) :
    compareSep sep.chars buffer i rounds c =
      if sep.chars.drop c.toNat <+: buffer.drop (i + c.toNat) then .equal else .nextchar := by
  induction rounds generalizing c with
  | zero => omega
  | succ rounds ih =>
      have short := sep.short
      unfold compareSep
      by_cases outside : sep.chars.length ≤ c.toNat
      · rw [if_pos ((sep.sepAt_eq_zero_iff c).mpr outside), List.drop_of_length_le outside,
          if_pos (List.nil_prefix ..)]
      · have here : c.toNat < sep.chars.length := by omega
        have there : i + c.toNat < buffer.length := by omega
        have next : (c + 1).toNat = c.toNat + 1 := by
          rw [UInt8.toNat_add, UInt8.toNat_one, Nat.mod_eq_of_lt (by omega)]
        have rest := ih (c + 1) (by omega) (by omega)
        rw [next] at rest
        have split : sep.chars.drop c.toNat <+: buffer.drop (i + c.toNat) ↔
            sep.chars[c.toNat] = buffer[i + c.toNat] ∧
              sep.chars.drop (c.toNat + 1) <+: buffer.drop (i + (c.toNat + 1)) := by
          rw [List.drop_eq_getElem_cons here, List.drop_eq_getElem_cons there,
            List.cons_prefix_cons, Nat.add_assoc]
        rw [if_neg (fun zero => outside ((sep.sepAt_eq_zero_iff c).mp zero)),
          if_neg (by omega), sepAt, List.getD_eq_getElem _ _ here,
          List.getD_eq_getElem _ _ there]
        by_cases same : sep.chars[c.toNat] = buffer[i + c.toNat]
        · rw [if_neg (fun different => different same), rest]
          by_cases tail : sep.chars.drop (c.toNat + 1) <+: buffer.drop (i + (c.toNat + 1))
          · rw [if_pos tail, if_pos (split.mpr ⟨same, tail⟩)]
          · rw [if_neg tail, if_neg (fun both => tail (split.mp both).2)]
        · rw [if_pos same, if_neg (fun both => same (split.mp both).1)]

private theorem LineSep.searchFrom_succ (sep : LineSep) {buffer : List UInt8} {i : Nat}
    (inside : i + sep.chars.length ≤ buffer.length) (count : Nat)
    [Decidable (OccursAt sep.chars buffer i)] :
    searchFrom sep.chars buffer (count + 1) i =
      if OccursAt sep.chars buffer i then .line i
      else searchFrom sep.chars buffer count (i + 1) := by
  have positive := List.length_pos_iff.mpr sep.nonempty
  have short := sep.short
  have here : i < buffer.length := by omega
  have compared := sep.compareSep_eq inside 256 1 (by rw [UInt8.toNat_one]; omega)
    (by rw [UInt8.toNat_one]; omega)
  have first : sepAt sep.chars 0 = sep.chars[0] := by
    rw [sepAt, UInt8.toNat_zero, List.getD_eq_getElem _ _ positive]
  have split : OccursAt sep.chars buffer i ↔
      buffer[i] = sep.chars[0] ∧ sep.chars.drop 1 <+: buffer.drop (i + 1) := by
    have opened : sep.chars = sep.chars[0] :: sep.chars.drop 1 := by
      rw [← List.drop_eq_getElem_cons positive, List.drop_zero]
    rw [OccursAt, List.drop_eq_getElem_cons here]
    nth_rewrite 1 [opened]
    rw [List.cons_prefix_cons]
    exact and_congr_left' eq_comm
  rw [searchFrom, first, List.getD_eq_getElem _ _ here, compared, UInt8.toNat_one]
  by_cases same : buffer[i] = sep.chars[0]
  · rw [if_pos same]
    by_cases tail : sep.chars.drop 1 <+: buffer.drop (i + 1)
    · rw [if_pos tail, if_pos (split.mpr ⟨same, tail⟩)]
    · rw [if_neg tail, if_neg (fun both => tail (split.mp both).2)]
  · rw [if_neg same, if_neg (fun both => same (split.mp both).1)]

private theorem LineSep.searchFrom_cases (sep : LineSep) {buffer : List UInt8} (count i : Nat)
    (all : i + count + sep.chars.length = buffer.length + 1)
    (before : ∀ earlier < i, ¬ OccursAt sep.chars buffer earlier) :
    (∃ first, searchFrom sep.chars buffer count i = .line first ∧
        Leftmost sep.chars buffer first) ∨
      searchFrom sep.chars buffer count i = .absent ∧ Absent sep.chars buffer := by
  induction count generalizing i with
  | zero =>
      refine Or.inr ⟨rfl, ?_⟩
      intro index occurs
      have inside := occurs.length_le sep.nonempty
      exact before index (by omega) occurs
  | succ count ih =>
      classical
      rw [sep.searchFrom_succ (by omega) count]
      by_cases here : OccursAt sep.chars buffer i
      · rw [if_pos here]
        exact Or.inl ⟨i, rfl, here, before⟩
      · rw [if_neg here]
        apply ih (i + 1) (by omega)
        intro earlier less
        rcases Nat.lt_succ_iff_lt_or_eq.mp less with less | rfl
        · exact before earlier less
        · exact here

private theorem LineSep.search_cases (sep : LineSep) (buffer : List UInt8) :
    (∃ first, search sep.chars buffer = .line first ∧ Leftmost sep.chars buffer first) ∨
      search sep.chars buffer = .absent ∧ Absent sep.chars buffer := by
  rw [search, sep.sepsz_eq]
  by_cases enough : sep.chars.length ≤ buffer.length
  · rw [if_pos enough]
    apply sep.searchFrom_cases _ 0 (by omega)
    intro earlier less
    omega
  · rw [if_neg enough]
    refine Or.inr ⟨rfl, ?_⟩
    intro index occurs
    have inside := occurs.length_le sep.nonempty
    omega

/-! ### One call -/

inductive Read (sep buffer : List UInt8) (arrivals : List Arrival) :
    Ending × Reading → Prop where
  | line (consumed later : List Arrival) (line rest : List UInt8)
      (order : arrivals = consumed ++ later) (quiet : failures consumed = 0)
      (bytes : buffer ++ received consumed = line ++ (sep ++ rest))
      (leftmost : Leftmost sep (line ++ (sep ++ rest)) line.length) :
      Read sep buffer arrivals (.line line, ⟨rest, later⟩)
  | ioError (consumed later : List Arrival)
      (order : arrivals = consumed ++ .ioError :: later) (quiet : failures consumed = 0)
      (absent : Absent sep (buffer ++ received consumed)) :
      Read sep buffer arrivals (.ioError, ⟨buffer ++ received consumed, later⟩)
  | waiting (quiet : failures arrivals = 0)
      (absent : Absent sep (buffer ++ received arrivals)) :
      Read sep buffer arrivals (.waiting, ⟨buffer ++ received arrivals, []⟩)

@[simp] theorem received_nil : received [] = [] := rfl

theorem received_append (left right : List Arrival) :
    received (left ++ right) = received left ++ received right :=
  List.flatMap_append ..

theorem failures_append (left right : List Arrival) :
    failures (left ++ right) = failures left + failures right :=
  List.count_append

private theorem received_chunk (buffer bytes : List UInt8) (consumed : List Arrival) :
    buffer ++ bytes ++ received consumed = buffer ++ received (.chunk bytes :: consumed) := by
  rw [received, received, List.flatMap_cons, List.append_assoc]
  rfl

private theorem failures_chunk (bytes : List UInt8) (consumed : List Arrival) :
    failures (.chunk bytes :: consumed) = failures consumed :=
  List.count_cons_of_ne (by simp)

private theorem Read.chunk {sep buffer bytes : List UInt8} {later : List Arrival}
    {result : Ending × Reading} (read : Read sep (buffer ++ bytes) later result) :
    Read sep buffer (.chunk bytes :: later) result := by
  cases read with
  | line consumed later line rest order quiet split leftmost =>
      subst order
      rw [received_chunk] at split
      rw [← failures_chunk bytes] at quiet
      exact Read.line (.chunk bytes :: consumed) later line rest rfl quiet split leftmost
  | ioError consumed later order quiet absent =>
      subst order
      rw [received_chunk] at absent ⊢
      rw [← failures_chunk bytes] at quiet
      exact Read.ioError (.chunk bytes :: consumed) later rfl quiet absent
  | waiting quiet absent =>
      rw [received_chunk] at absent ⊢
      rw [← failures_chunk bytes] at quiet
      exact Read.waiting quiet absent

private theorem Read.found (sep : LineSep) (buffer : List UInt8) (arrivals : List Arrival)
    {first : Nat} (leftmost : Leftmost sep.chars buffer first) :
    Read sep.chars buffer arrivals
      (.line (buffer.take first), ⟨buffer.drop (first + sepsz sep.chars), arrivals⟩) := by
  have inside := leftmost.occurs.length_le sep.nonempty
  have place : (buffer.take first).length = first := List.length_take_of_le (by omega)
  have parts := leftmost.occurs.split
  rw [sep.sepsz_eq]
  refine Read.line [] arrivals _ _ rfl rfl ?_ ?_
  · rw [received_nil, List.append_nil]
    exact parts
  · rw [← parts, place]
    exact leftmost

theorem LineSep.readLine_read (sep : LineSep) (buffer : List UInt8)
    (arrivals : List Arrival) :
    Read sep.chars buffer arrivals (readLine sep.chars buffer arrivals) := by
  induction arrivals generalizing buffer with
  | nil =>
      rw [readLine.eq_def]
      rcases sep.search_cases buffer with ⟨first, found, leftmost⟩ | ⟨missing, absent⟩
      · rw [found]
        exact Read.found sep buffer [] leftmost
      · rw [missing]
        have read := @Read.waiting sep.chars buffer [] rfl
          (by rwa [received_nil, List.append_nil])
        rwa [received_nil, List.append_nil] at read
  | cons arrival later ih =>
      rw [readLine.eq_def]
      rcases sep.search_cases buffer with ⟨first, found, leftmost⟩ | ⟨missing, absent⟩
      · rw [found]
        exact Read.found sep buffer (arrival :: later) leftmost
      · rw [missing]
        cases arrival with
        | chunk bytes => exact (ih (buffer ++ bytes)).chunk
        | ioError =>
            have read := @Read.ioError sep.chars buffer (.ioError :: later) [] later rfl rfl
              (by rwa [received_nil, List.append_nil])
            rwa [received_nil, List.append_nil] at read

/-! ### Sessions -/

structure Session (sep : List UInt8) (before : Reading) (endings : List Ending)
    (consumed : List Arrival) (after : Reading) : Prop where
  order : before.arrivals = consumed ++ after.arrivals
  lossless : (linesOf endings).flatMap (fun line => line ++ sep) ++ after.buffer =
    before.buffer ++ received consumed
  leftmost : ∀ more lines rest, Cut sep (after.buffer ++ more) lines rest →
    Cut sep (before.buffer ++ received consumed ++ more) (linesOf endings ++ lines) rest
  errors : endings.count .ioError = failures consumed
  regular : ∀ ending ∈ endings, ending.returned ∨ ending = .waiting

private theorem linesOf_append (left right : List Ending) :
    linesOf (left ++ right) = linesOf left ++ linesOf right :=
  List.filterMap_append ..

private theorem Session.nil (sep : List UInt8) (sock : Reading) : Session sep sock [] [] sock := by
  refine ⟨rfl, ?_, ?_, rfl, ?_⟩
  · rw [received_nil, List.append_nil]
    rfl
  · intro more lines rest cut
    rw [received_nil, List.append_nil]
    exact cut
  · intro ending member
    cases member

private theorem Session.trans {sep : List UInt8} {before between after : Reading}
    {first second : List Ending} {early late : List Arrival}
    (left : Session sep before first early between)
    (right : Session sep between second late after) :
    Session sep before (first ++ second) (early ++ late) after := by
  refine ⟨?_, ?_, ?_, ?_, ?_⟩
  · rw [left.order, right.order, List.append_assoc]
  · rw [linesOf_append, List.flatMap_append, List.append_assoc, right.lossless,
      ← List.append_assoc, left.lossless, received_append, List.append_assoc]
  · intro more lines rest cut
    have further := right.leftmost more lines rest cut
    rw [List.append_assoc] at further
    have whole := left.leftmost _ _ _ further
    rwa [← List.append_assoc, List.append_assoc before.buffer, ← received_append,
      ← List.append_assoc, ← linesOf_append] at whole
  · rw [List.count_append, failures_append, left.errors, right.errors]
  · intro ending member
    rcases List.mem_append.mp member with earlier | later
    · exact left.regular ending earlier
    · exact right.regular ending later

private theorem Session.uncut (sep buffer : List UInt8) (consumed later : List Arrival)
    (ending : Ending) (noLine : ending.line? = none)
    (errors : [ending].count .ioError = failures consumed)
    (regular : ending.returned ∨ ending = .waiting) :
    Session sep ⟨buffer, consumed ++ later⟩ [ending] consumed
      ⟨buffer ++ received consumed, later⟩ := by
  have lines : linesOf [ending] = [] := by
    rw [linesOf, List.filterMap_cons_none noLine, List.filterMap_nil]
  refine ⟨rfl, ?_, ?_, errors, ?_⟩
  · rw [lines]
    rfl
  · intro more lines' rest cut
    rw [lines]
    exact cut
  · intro other member
    rw [List.mem_singleton.mp member]
    exact regular

private theorem LineSep.iLine_session (sep : LineSep) (sock : Reading) :
    ∃ consumed, Session sep.chars sock [(iLine sep.chars sock).1] consumed
      (iLine sep.chars sock).2 := by
  obtain ⟨buffer, arrivals⟩ := sock
  have read := sep.readLine_read buffer arrivals
  unfold iLine
  generalize readLine sep.chars buffer arrivals = result at read ⊢
  cases read with
  | line consumed later line rest order quiet bytes leftmost =>
      subst order
      refine ⟨consumed, rfl, ?_, ?_, quiet.symm, ?_⟩
      · rw [bytes]
        simp only [linesOf, Ending.line?, List.filterMap_cons, List.filterMap_nil,
          List.flatMap_cons, List.flatMap_nil, List.append_nil, List.append_assoc]
      · intro more lines last cut
        have grown := leftmost.append sep.nonempty more
        rw [List.append_assoc, List.append_assoc] at grown
        rw [bytes, List.append_assoc, List.append_assoc]
        exact Cut.line line (rest ++ more) lines last grown cut
      · intro ending member
        rw [List.mem_singleton.mp member]
        exact Or.inl rfl
  | ioError consumed later order quiet absent =>
      subst order
      have session := Session.uncut sep.chars buffer (consumed ++ [.ioError]) later .ioError
        rfl (by rw [failures_append, quiet]; rfl) (Or.inl rfl)
      have silent : received (consumed ++ [.ioError]) = received consumed := by
        rw [received_append]
        exact List.append_nil _
      rw [List.append_assoc, List.singleton_append, silent] at session
      exact ⟨consumed ++ [.ioError], session⟩
  | waiting quiet absent =>
      have session := Session.uncut sep.chars buffer arrivals [] .waiting rfl quiet.symm
        (Or.inr rfl)
      rw [List.append_nil] at session
      exact ⟨arrivals, session⟩

theorem LineSep.iLines_session (sep : LineSep) (calls : Nat) (sock : Reading) :
    ∃ consumed, Session sep.chars sock (iLines sep.chars calls sock).1 consumed
      (iLines sep.chars calls sock).2 := by
  induction calls generalizing sock with
  | zero => exact ⟨[], Session.nil sep.chars sock⟩
  | succ calls ih =>
      obtain ⟨early, first⟩ := sep.iLine_session sock
      unfold iLines
      by_cases returned : (iLine sep.chars sock).1.returned
      · obtain ⟨late, others⟩ := ih (iLine sep.chars sock).2
        simp only [returned, if_true]
        exact ⟨early ++ late, first.trans others⟩
      · simp only [returned]
        exact ⟨early, first⟩

/-- A session makes all its calls, or it waits with nothing left to cut. -/
theorem LineSep.iLines_completed_or_waiting (sep : LineSep) (calls : Nat) (sock : Reading) :
    (iLines sep.chars calls sock).1.countP Ending.returned = calls ∨
      (iLines sep.chars calls sock).2.arrivals = [] ∧
        Absent sep.chars (iLines sep.chars calls sock).2.buffer := by
  induction calls generalizing sock with
  | zero => exact Or.inl rfl
  | succ calls ih =>
      have read := sep.readLine_read sock.buffer sock.arrivals
      unfold iLines
      by_cases returned : (iLine sep.chars sock).1.returned
      · simp only [returned, if_true]
        rcases ih (iLine sep.chars sock).2 with completed | waiting
        · apply Or.inl
          rw [List.countP_cons_of_pos returned, completed]
        · exact Or.inr waiting
      · simp only [returned]
        apply Or.inr
        rw [iLine] at returned ⊢
        generalize readLine sep.chars sock.buffer sock.arrivals = result at read returned ⊢
        cases read with
        | line consumed later line rest order quiet bytes leftmost => exact absurd rfl returned
        | ioError consumed later order quiet absent => exact absurd rfl returned
        | waiting quiet absent => exact ⟨rfl, absent⟩

theorem countP_returned (endings : List Ending) :
    endings.countP Ending.returned = (linesOf endings).length + endings.count .ioError := by
  induction endings with
  | nil => rfl
  | cons ending later ih =>
      rw [List.countP_cons, ih, List.count_cons, linesOf, linesOf, List.filterMap_cons]
      cases ending <;> simp [Ending.returned, Ending.line?] <;> omega

/-- The lines of a session are the first pieces of all there is to read, and all of
them when there are calls enough. -/
theorem LineSep.iLines_pieces (sep : LineSep) (calls : Nat) (sock : Reading)
    {lines : List (List UInt8)} {rest : List UInt8}
    (cut : Cut sep.chars (sock.buffer ++ received sock.arrivals) lines rest) :
    linesOf (iLines sep.chars calls sock).1 <+: lines ∧
      (lines.length + failures sock.arrivals < calls →
        linesOf (iLines sep.chars calls sock).1 = lines ∧
        (iLines sep.chars calls sock).2.buffer = rest) := by
  obtain ⟨consumed, session⟩ := sep.iLines_session calls sock
  have ended := sep.iLines_completed_or_waiting calls sock
  generalize iLines sep.chars calls sock = result at session ended ⊢
  obtain ⟨endings, after⟩ := result
  obtain ⟨others, last, further⟩ :=
    Cut.exists sep.nonempty (after.buffer ++ received after.arrivals)
  have whole := session.leftmost (received after.arrivals) others last further
  rw [List.append_assoc, ← received_append, ← session.order] at whole
  obtain ⟨rfl, rfl⟩ := cut.unique whole
  refine ⟨List.prefix_append .., ?_⟩
  intro enough
  rcases ended with completed | ⟨used, absent⟩
  · rw [countP_returned, session.errors] at completed
    rw [session.order, failures_append, List.length_append] at enough
    omega
  · rw [used, received_nil, List.append_nil] at further
    obtain ⟨rfl, rfl⟩ := further.unique (Cut.rest after.buffer absent)
    exact ⟨(List.append_nil _).symm, rfl⟩

/-- Line reading does not depend on how the stream was cut into chunks, and loses
nothing: the calls return or throw what `_i` did, the lines with their separators and
the buffer are the bytes received, and the lines are the first pieces of the whole
stream cut at its leftmost separators, all of them when there are calls enough. -/
theorem iLines_cut (sep : LineSep) (arrivals : List Arrival) (calls : Nat) :
    ∃ consumed,
      arrivals = consumed ++ (iLines sep.chars calls ⟨[], arrivals⟩).2.arrivals ∧
      (linesOf (iLines sep.chars calls ⟨[], arrivals⟩).1).flatMap
          (fun line => line ++ sep.chars) ++
        (iLines sep.chars calls ⟨[], arrivals⟩).2.buffer = received consumed ∧
      (iLines sep.chars calls ⟨[], arrivals⟩).1.count .ioError = failures consumed ∧
      (∀ ending ∈ (iLines sep.chars calls ⟨[], arrivals⟩).1,
        ending.returned ∨ ending = .waiting) ∧
      ∀ lines rest, Cut sep.chars (received arrivals) lines rest →
        linesOf (iLines sep.chars calls ⟨[], arrivals⟩).1 <+: lines ∧
        (lines.length + failures arrivals < calls →
          linesOf (iLines sep.chars calls ⟨[], arrivals⟩).1 = lines ∧
          (iLines sep.chars calls ⟨[], arrivals⟩).2.buffer = rest) := by
  obtain ⟨consumed, session⟩ := sep.iLines_session calls ⟨[], arrivals⟩
  refine ⟨consumed, session.order, session.lossless, session.errors, session.regular, ?_⟩
  intro lines rest cut
  exact sep.iLines_pieces calls ⟨[], arrivals⟩ cut

end Socketxx.TextSocket
