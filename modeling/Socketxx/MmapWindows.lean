import Socketxx.TransferProgress

/-!
The windows in which `write_from_file` maps and sends a file, with the variables of its
loop as the code has them: a signed `off_f`, and `chunksz` and `chunk_rest` of type
`size_t`, of which `chunksz` is overwritten by what is left of the file.

`FileWire` has the same loop as a recursion over the chunks.
-/

set_option autoImplicit false

namespace Socketxx.MmapWindows

open FileWire (Window Sender SentFile Sent)

structure PageSize where
  size : Nat
  pos : 0 < size
  lt : size < 2 ^ 31

def PageSize.chunksz (page : PageSize) : UInt64 := UInt64.ofNat page.size * 16

structure Loop where
  offF : BitVec 64
  chunksz : UInt64
  chunkRest : UInt64
deriving DecidableEq, Repr

structure Mapped where
  offset : Int
  length : Nat
deriving DecidableEq, Repr

/-- How a round of the loop ends: at the first `break`, at the second one, behind the
window, or with the increment. -/
inductive Round where
  | done
  | last (mapped : Mapped)
  | next (mapped : Mapped) (loop : Loop)
deriving DecidableEq, Repr

def Loop.mapped (loop : Loop) : Mapped := ⟨loop.offF.toInt, loop.chunksz.toNat⟩

def Loop.send (loop : Loop) : Round :=
  if loop.chunkRest = 0 then .last loop.mapped
  else
    .next loop.mapped
      { loop with
        offF := loop.offF + loop.chunksz.toBitVec
        chunkRest := loop.chunkRest - 1 }

def Loop.round (sz : UInt64) (loop : Loop) : Round :=
  if loop.chunkRest = 0 then
    if sz % loop.chunksz ≠ 0 then Loop.send { loop with chunksz := sz % loop.chunksz }
    else .done
  else loop.send

/-- The windows of the loop; `none` when it needs more rounds. -/
def Loop.run (sz : UInt64) : Nat → Loop → Option (List Mapped)
  | 0, _ => none
  | rounds + 1, loop =>
      match loop.round sz with
      | .done => some []
      | .last mapped => some [mapped]
      | .next mapped after => (Loop.run sz rounds after).map (mapped :: ·)

def startLoop (page : PageSize) (sz : UInt64) : Loop :=
  ⟨0, page.chunksz, sz / page.chunksz⟩

/-- The windows of `write_from_file`, which returns at once for an empty file. -/
def windows (page : PageSize) (sz : UInt64) (rounds : Nat) : Option (List Mapped) :=
  if sz = 0 then some [] else (startLoop page sz).run sz rounds

/-- The windows tile a file of `sz` bytes. -/
structure TilesFile (page : PageSize) (sz : Nat) (windows : List Mapped) : Prop where
  nonempty : ∀ window ∈ windows, 0 < window.length
  start : ∀ window, windows.head? = some window → window.offset = 0
  contiguous : ∀ (index : Nat) window, windows[index]? = some window →
    window.offset = ((windows.take index).map Mapped.length).sum
  aligned : ∀ window ∈ windows, (page.size : Int) ∣ window.offset
  short : ∀ window ∈ windows, window.length ≤ 16 * page.size
  inside : ∀ window ∈ windows, window.offset + window.length ≤ sz
  sum : (windows.map Mapped.length).sum = sz

/-! ### Whole chunks and a remainder -/

def windowsFrom (chunksz left : Nat) : Nat → Nat → List Window
  | 0, offF => if left ≠ 0 then [⟨offF, left⟩] else []
  | rest + 1, offF => ⟨offF, chunksz⟩ :: windowsFrom chunksz left rest (offF + chunksz)

def Mapped.ofWindow (window : Window) : Mapped := ⟨window.offset, window.length⟩

theorem PageSize.chunksz_toNat (page : PageSize) : page.chunksz.toNat = page.size * 16 := by
  have lt := page.lt
  rw [PageSize.chunksz, UInt64.toNat_mul, UInt64.toNat_ofNat']
  change page.size % 2 ^ 64 * 16 % 2 ^ 64 = page.size * 16
  omega

theorem toInt_eq {offF : BitVec 64} (small : offF.toNat < 2 ^ 63) :
    offF.toInt = offF.toNat := by
  rw [BitVec.toInt_eq_toNat_cond, if_pos (by omega)]

private theorem left_toNat (page : PageSize) (sz : UInt64) :
    (sz % page.chunksz).toNat = sz.toNat % (page.size * 16) := by
  rw [UInt64.toNat_mod, page.chunksz_toNat]

private theorem Loop.run_left (page : PageSize) {sz : UInt64} {offF : BitVec 64}
    (small : offF.toNat < 2 ^ 63) (rounds : Nat) :
    Loop.run sz (rounds + 1) ⟨offF, page.chunksz, 0⟩ =
      some ((windowsFrom (page.size * 16) (sz.toNat % (page.size * 16)) 0 offF.toNat).map
        Mapped.ofWindow) := by
  have left := left_toNat page sz
  rw [Loop.run, Loop.round, if_pos rfl, windowsFrom]
  by_cases even : sz.toNat % (page.size * 16) = 0
  · have nothing : sz % page.chunksz = 0 := UInt64.toNat_inj.mp (left.trans even)
    rw [if_neg (not_not_intro nothing), if_neg (not_not_intro even)]
    rfl
  · have something : sz % page.chunksz ≠ 0 := by
      intro zero
      rw [zero] at left
      exact even left.symm
    rw [if_pos something, if_pos even, Loop.send, if_pos rfl]
    change some [(⟨offF.toInt, (sz % page.chunksz).toNat⟩ : Mapped)] =
      some [⟨offF.toNat, sz.toNat % (page.size * 16)⟩]
    rw [toInt_eq small, left]

private theorem Loop.run_chunk {loop : Loop} (more : loop.chunkRest ≠ 0) (sz : UInt64)
    (rounds : Nat) :
    Loop.run sz (rounds + 1) loop =
      (Loop.run sz rounds
        ⟨loop.offF + loop.chunksz.toBitVec, loop.chunksz, loop.chunkRest - 1⟩).map
          (loop.mapped :: ·) := by
  rw [Loop.run, Loop.round, if_neg more, Loop.send, if_neg more]

private theorem Loop.run_eq (page : PageSize) {sz : UInt64} (bound : sz.toNat < 2 ^ 63)
    (rest : Nat) {offF : BitVec 64} {chunkRest : UInt64} (number : chunkRest.toNat = rest)
    (place : offF.toNat + rest * (page.size * 16) + sz.toNat % (page.size * 16) = sz.toNat)
    {rounds : Nat} (enough : rest < rounds) :
    Loop.run sz rounds ⟨offF, page.chunksz, chunkRest⟩ =
      some ((windowsFrom (page.size * 16) (sz.toNat % (page.size * 16)) rest offF.toNat).map
        Mapped.ofWindow) := by
  have whole := page.chunksz_toNat
  induction rest generalizing offF chunkRest rounds with
  | zero =>
      obtain ⟨rounds, rfl⟩ := Nat.exists_eq_succ_of_ne_zero (Nat.ne_zero_of_lt enough)
      have none : chunkRest = 0 := UInt64.toNat_inj.mp number
      rw [none]
      exact Loop.run_left page (by omega) rounds
  | succ rest ih =>
      obtain ⟨rounds, rfl⟩ := Nat.exists_eq_succ_of_ne_zero (Nat.ne_zero_of_lt enough)
      have more : chunkRest ≠ 0 := by
        intro zero
        rw [zero] at number
        cases number
      rw [Nat.succ_mul] at place
      have moved : (offF + page.chunksz.toBitVec).toNat = offF.toNat + page.size * 16 := by
        have width : page.chunksz.toBitVec.toNat = page.size * 16 := whole
        rw [BitVec.toNat_add, width]
        omega
      have fewer : (chunkRest - 1).toNat = rest := by
        rw [UInt64.toNat_sub_of_le]
        · rw [number]
          rfl
        · rw [UInt64.le_iff_toNat_le, number]
          exact Nat.succ_le_succ (Nat.zero_le rest)
      have offset : offF.toInt = offF.toNat := toInt_eq (by omega)
      have later := @ih (offF + page.chunksz.toBitVec) (chunkRest - 1) fewer (by omega) rounds
        (by omega)
      rw [moved] at later
      rw [Nat.succ_eq_add_one, Loop.run_chunk more, later, Loop.mapped, offset, whole]
      rfl

/-! ### The windows tile the file -/

private theorem windowsFrom_sum (chunksz left rest offF : Nat) :
    ((windowsFrom chunksz left rest offF).map Window.length).sum = rest * chunksz + left := by
  induction rest generalizing offF with
  | zero =>
      rw [windowsFrom, Nat.zero_mul, Nat.zero_add]
      by_cases even : left ≠ 0
      · rw [if_pos even]
        rfl
      · rw [if_neg even, not_not.mp even]
        rfl
  | succ rest ih =>
      rw [windowsFrom, List.map_cons, List.sum_cons, ih, Nat.succ_mul]
      change chunksz + (rest * chunksz + left) = rest * chunksz + chunksz + left
      omega

private theorem windowsFrom_contiguous (chunksz left rest offF index : Nat) {window : Window}
    (found : (windowsFrom chunksz left rest offF)[index]? = some window) :
    window.offset =
      offF + (((windowsFrom chunksz left rest offF).take index).map Window.length).sum := by
  induction rest generalizing offF index with
  | zero =>
      rw [windowsFrom] at found ⊢
      by_cases even : left ≠ 0
      · rw [if_pos even] at found ⊢
        cases index with
        | zero =>
            cases found
            rfl
        | succ index => cases found
      · rw [if_neg even] at found
        cases found
  | succ rest ih =>
      rw [windowsFrom] at found ⊢
      cases index with
      | zero =>
          cases found
          rfl
      | succ index =>
          rw [List.getElem?_cons_succ] at found
          rw [ih (offF + chunksz) index found, List.take_succ_cons, List.map_cons,
            List.sum_cons, Nat.add_assoc]

private theorem windowsFrom_mem {chunksz left rest offF : Nat} (positive : 0 < chunksz)
    (less : left < chunksz) (aligned : chunksz ∣ offF) :
    ∀ window ∈ windowsFrom chunksz left rest offF,
      0 < window.length ∧ window.length ≤ chunksz ∧ chunksz ∣ window.offset ∧
        window.offset + window.length ≤ offF + rest * chunksz + left := by
  induction rest generalizing offF with
  | zero =>
      intro window member
      rw [windowsFrom] at member
      by_cases even : left ≠ 0
      · rw [if_pos even, List.mem_singleton] at member
        subst member
        refine ⟨Nat.pos_of_ne_zero even, Nat.le_of_lt less, aligned, ?_⟩
        change offF + left ≤ offF + 0 * chunksz + left
        omega
      · rw [if_neg even] at member
        cases member
  | succ rest ih =>
      intro window member
      rw [windowsFrom, List.mem_cons] at member
      rw [Nat.succ_mul]
      rcases member with same | later
      · subst same
        refine ⟨positive, Nat.le_refl _, aligned, ?_⟩
        change offF + chunksz ≤ offF + (rest * chunksz + chunksz) + left
        omega
      · obtain ⟨some, most, multiple, inside⟩ :=
          ih (Nat.dvd_add aligned (Nat.dvd_refl chunksz)) window later
        exact ⟨some, most, multiple, by omega⟩

private theorem map_length_ofWindow (windows : List Window) :
    (windows.map Mapped.ofWindow).map Mapped.length = windows.map Window.length := by
  rw [List.map_map]
  rfl

private theorem windowsFrom_tile (page : PageSize) (sz : Nat) :
    TilesFile page sz ((windowsFrom (page.size * 16) (sz % (page.size * 16))
      (sz / (page.size * 16)) 0).map Mapped.ofWindow) := by
  have positive : 0 < page.size * 16 := Nat.mul_pos page.pos (Nat.succ_pos 15)
  have whole : sz / (page.size * 16) * (page.size * 16) + sz % (page.size * 16) = sz :=
    Nat.div_add_mod' sz (page.size * 16)
  have each := @windowsFrom_mem (page.size * 16) (sz % (page.size * 16))
    (sz / (page.size * 16)) 0 positive (Nat.mod_lt sz positive) (Nat.dvd_zero _)
  have contiguous := windowsFrom_contiguous (page.size * 16) (sz % (page.size * 16))
    (sz / (page.size * 16)) 0
  have sum := windowsFrom_sum (page.size * 16) (sz % (page.size * 16))
    (sz / (page.size * 16)) 0
  generalize windowsFrom (page.size * 16) (sz % (page.size * 16))
    (sz / (page.size * 16)) 0 = windows at each contiguous sum
  have joined : ∀ (index : Nat) mapped, (windows.map Mapped.ofWindow)[index]? = some mapped →
      mapped.offset =
        ((((windows.map Mapped.ofWindow).take index).map Mapped.length).sum : Nat) := by
    intro index mapped found
    rw [List.getElem?_map, Option.map_eq_some_iff] at found
    obtain ⟨window, found, same⟩ := found
    subst same
    have offset := contiguous index found
    rw [Nat.zero_add] at offset
    rw [← List.map_take, map_length_ofWindow]
    exact congrArg Int.ofNat offset
  constructor
  case nonempty =>
    rw [List.forall_mem_map]
    intro window member
    exact (each window member).1
  case start =>
    intro mapped first
    rw [List.head?_eq_getElem?] at first
    exact joined 0 mapped first
  case contiguous => exact joined
  case aligned =>
    rw [List.forall_mem_map]
    intro window member
    exact Int.natCast_dvd_natCast.mpr
      (Nat.dvd_trans (Nat.dvd_mul_right page.size 16) (each window member).2.2.1)
  case short =>
    rw [List.forall_mem_map]
    intro window member
    rw [Nat.mul_comm]
    exact (each window member).2.1
  case inside =>
    rw [List.forall_mem_map]
    intro window member
    have inside := (each window member).2.2.2
    rw [Nat.zero_add, whole] at inside
    exact Int.ofNat_le.mpr inside
  case sum => rw [map_length_ofWindow, sum, whole]

/-- As many rounds as there are whole chunks and one more are enough. -/
theorem windows_eq (page : PageSize) {sz : UInt64} (positive : 0 < sz.toNat)
    (bound : sz.toNat < 2 ^ 63) {rounds : Nat} (enough : sz.toNat / (page.size * 16) < rounds) :
    windows page sz rounds =
      some ((windowsFrom (page.size * 16) (sz.toNat % (page.size * 16))
        (sz.toNat / (page.size * 16)) 0).map Mapped.ofWindow) := by
  have something : sz ≠ 0 := by
    intro zero
    rw [zero] at positive
    exact Nat.lt_irrefl 0 positive
  have number : (sz / page.chunksz).toNat = sz.toNat / (page.size * 16) := by
    rw [UInt64.toNat_div, page.chunksz_toNat]
  have place : (0 : BitVec 64).toNat + sz.toNat / (page.size * 16) * (page.size * 16) +
      sz.toNat % (page.size * 16) = sz.toNat := by
    change 0 + _ + _ = _
    rw [Nat.zero_add]
    exact Nat.div_add_mod' sz.toNat (page.size * 16)
  rw [windows, if_neg something]
  exact Loop.run_eq page bound _ number place enough

/-- The loop ends, and its windows tile the file. -/
theorem windows_tile (page : PageSize) {sz : UInt64} (positive : 0 < sz.toNat)
    (bound : sz.toNat < 2 ^ 63) :
    ∃ mapped, (∀ rounds, sz.toNat / (page.size * 16) < rounds →
        windows page sz rounds = some mapped) ∧ TilesFile page sz.toNat mapped :=
  ⟨_, fun _rounds enough => windows_eq page positive bound enough,
    windowsFrom_tile page sz.toNat⟩

private theorem page4096_lt : 4096 < 2 ^ 31 := by omega

def page4096 : PageSize := ⟨4096, Nat.succ_pos _, page4096_lt⟩

theorem windows_tile_131072 :
    ∃ mapped, (∀ rounds, (131072 : UInt64).toNat / (page4096.size * 16) < rounds →
        windows page4096 131072 rounds = some mapped) ∧
      TilesFile page4096 (131072 : UInt64).toNat mapped :=
  windows_tile page4096 (Nat.succ_pos _) (by decide)

example : windows page4096 131072 4 = some [⟨0, 65536⟩, ⟨65536, 65536⟩] := by decide

/-! ### The sender's windows -/

private theorem report_windows (sender : Sender) (chunksz total : Nat) (sent : Sent) :
    (sender.report chunksz total sent).2.windows = sent.windows := by
  rw [Sender.report]
  cases sender.infoThrows with
  | none => rfl
  | some throws => rfl

private theorem sendWindow_windows {sender : Sender} {file : SentFile} {window : Window}
    {sent after : Sent} (sends : sender.sendWindow file window sent = (none, after)) :
    after.windows = sent.windows ++ [window] := by
  rw [FileWire.Sender.sendWindow_eq_none sends, report_windows]
  rfl

private theorem sendChunks_windows {sender : Sender} {file : SentFile} (rest offF : Nat)
    {sent after : Sent} (sends : sender.sendChunks file rest offF sent = (none, after)) :
    after.windows = sent.windows ++
      windowsFrom (sender.pageSize * 16) (file.sz % (sender.pageSize * 16)) rest offF := by
  induction rest generalizing offF sent with
  | zero =>
      rw [Sender.sendChunks] at sends
      rw [windowsFrom]
      by_cases even : file.sz % (sender.pageSize * 16) ≠ 0
      · simp only [if_pos even] at sends
        rw [if_pos even]
        exact sendWindow_windows sends
      · simp only [if_neg even] at sends
        cases sends
        rw [if_neg even, List.append_nil]
  | succ rest ih =>
      rw [Sender.sendChunks] at sends
      rcases first : sender.sendWindow file ⟨offF, sender.pageSize * 16⟩ sent with
        ⟨_ | ending, middle⟩
      · simp only [first] at sends
        rw [ih (offF + sender.pageSize * 16) sends, sendWindow_windows first, windowsFrom,
          List.append_assoc, List.singleton_append]
      · simp only [first] at sends
        cases sends

/-- A file that is sent whole is sent in the windows of the loop. -/
theorem sendChunks_eq_windows {sender : Sender} {file : SentFile} (positive : 0 < file.sz)
    {after : Sent} (sends : sender.sendChunks file (file.sz / (sender.pageSize * 16)) 0
      ⟨[], [], 0, []⟩ = (none, after)) :
    windows ⟨sender.pageSize, sender.pageSize_pos, sender.pageSize_lt⟩ (UInt64.ofNat file.sz)
      (file.sz / (sender.pageSize * 16) + 1) = some (after.windows.map Mapped.ofWindow) := by
  have bound : file.sz < 2 ^ 63 := Nat.lt_of_le_of_lt file.sz_le file.length_lt
  have number : (UInt64.ofNat file.sz).toNat = file.sz := by
    rw [UInt64.toNat_ofNat', Nat.mod_eq_of_lt (by omega)]
  rw [windows_eq _ (by omega) (by omega) (by rw [number]; exact Nat.lt_succ_self _), number,
    sendChunks_windows _ 0 sends]
  rfl

end Socketxx.MmapWindows
