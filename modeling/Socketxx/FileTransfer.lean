import Mathlib.Data.List.Range
import Mathlib.Tactic.Ring

/-!
`read_to_file`, which takes a file off the stream chunk by chunk and writes each chunk
to a descriptor.

The system decides how much each `_i` brings and how much each `write` accepts, the
two counted separately. The bytes behind those just received are not modelled: a
`write` that reaches them is recorded, and the run ends there.
-/

set_option autoImplicit false

namespace Socketxx.FileTransfer

structure File where
  bytes : List UInt8
  position : Nat

def File.rewind (file : File) : File := { file with position := 0 }

def File.write (file : File) (data : List UInt8) : File :=
  { bytes := file.bytes.take file.position ++
      (data ++ file.bytes.drop (file.position + data.length))
    position := file.position + data.length }

/-- What a transfer meets: the bytes of the peer and where they end, if they do, and the
results of the system. The digest is there in a build with OpenSSL. -/
structure World where
  pageSize : Nat
  pageSize_pos : 0 < pageSize
  pageSize_lt : pageSize < 2 ^ 31
  content : Nat → UInt8
  ends : Option Nat
  read : Nat → Nat → Int
  read_le : ∀ call maxlen, read call maxlen ≤ maxlen
  write : Nat → Nat → Int
  write_le : ∀ call count, write call count ≤ count
  infoThrows : Option (Nat → Nat → Bool)
  digest : Option (List UInt8 → List UInt8)

/-- Nothing fails: reads and writes are short at most. -/
structure World.Reliable (world : World) : Prop where
  read : ∀ call maxlen, 0 < maxlen → 1 ≤ world.read call maxlen
  write : ∀ call count, 0 < count → 1 ≤ world.write call count
  info : ∀ throws ∈ world.infoThrows, ∀ done total, throws done total = false

def World.bytes (world : World) (place count : Nat) : List UInt8 :=
  (List.range' place count).map world.content

def World.Holds (world : World) (place count : Nat) : Prop :=
  ∀ length ∈ world.ends, place + count ≤ length

/-- What `_i` brings at a place of the stream, which fails where the stream ends. -/
def World.recv (world : World) (place call maxlen : Nat) : Int :=
  match world.ends with
  | none => world.read call maxlen
  | some length => min (world.read call maxlen) (length - place : Nat)

/-- A call of `write`: the bytes just received, and the part of them it is given. -/
structure Write where
  size : Nat
  offset : Nat
  count : Nat
deriving DecidableEq, Repr

def Write.Inside (write : Write) : Prop := write.offset + write.count ≤ write.size

structure Progress where
  reads : Nat
  writes : List Write
  file : File
  received : List UInt8
  reports : List (Nat × Nat)

inductive Ending where
  | returned (hash : Option (List UInt8))
  | ioError
  | otherError
  | callback
  | outOfBounds
  | running
deriving DecidableEq, Repr

def Progress.record (done : Progress) (write : Write) : Progress :=
  { done with writes := done.writes ++ [write] }

def Progress.receive (done : Progress) (chunk : List UInt8) : Progress :=
  { done with reads := done.reads + 1, received := done.received ++ chunk }

def World.put (world : World) (chunk : List UInt8) (offset count : Nat)
    (done : Progress) : Int × Progress :=
  let rs := world.write done.writes.length count
  (rs, { done.record ⟨chunk.length, offset, count⟩ with
    file := done.file.write ((chunk.drop offset).take rs.toNat) })

/-- The loop after a short write, which subtracts `rs` again before it writes. -/
def World.writeRest (world : World) (chunk : List UInt8) :
    Nat → Nat → Nat → Nat → Progress → Option Ending × Progress
  | 0, _, _, _, done => (some .running, done)
  | fuel + 1, rs, b, fileRest, done =>
      if fileRest = 0 then (none, done)
      else
        let fileRest := (fileRest + 2 ^ 64 - rs) % 2 ^ 64
        let b := b + rs
        if chunk.length < b + fileRest then
          (some .outOfBounds, done.record ⟨chunk.length, b, fileRest⟩)
        else
          let (rs, done) := world.put chunk b fileRest done
          if rs < 1 then (some .otherError, done)
          else world.writeRest chunk fuel rs.toNat b fileRest done

def World.writeChunk (world : World) (chunk : List UInt8) (done : Progress) :
    Option Ending × Progress :=
  let (rs, done) := world.put chunk 0 chunk.length done
  if rs < 1 then (some .otherError, done)
  else if rs.toNat = chunk.length then (none, done)
  else world.writeRest chunk (chunk.length + 1) rs.toNat rs.toNat
    (chunk.length - rs.toNat) done

def World.report (world : World) (done total : Nat) (progress : Progress) :
    Bool × Progress :=
  match world.infoThrows with
  | none => (false, progress)
  | some throws =>
      (throws done total, { progress with reports := progress.reports ++ [(done, total)] })

def World.transfer (world : World) (sz : Nat) :
    Nat → Nat → Nat → Progress → Ending × Progress
  | 0, _, _, done => (.running, done)
  | fuel + 1, bytesRest, chunksz, done =>
      if bytesRest = 0 then
        (.returned (world.digest.map (fun digest => digest done.received)), done)
      else
        let chunksz := if bytesRest < chunksz then bytesRest else chunksz
        let recsz := world.recv done.received.length done.reads chunksz
        if recsz < 1 then (.ioError, done.receive [])
        else
          let chunk := world.bytes done.received.length recsz.toNat
          let bytesRest := bytesRest - recsz.toNat
          let (threw, done) := world.report (sz - bytesRest) sz (done.receive chunk)
          if threw then (.callback, done)
          else
            match world.writeChunk chunk done with
            | (some ending, done) => (ending, done)
            | (none, done) => world.transfer sz fuel bytesRest chunksz done

def World.readToFile (world : World) (file : File) (sz : Nat) : Ending × Progress :=
  if sz = 0 then (.returned none, ⟨0, [], file, [], []⟩)
  else world.transfer sz (sz + 1) sz (world.pageSize * 16) ⟨0, [], file.rewind, [], []⟩

/-- The sizes of the chunks, as the reads split the stream. -/
def World.splits (world : World) : Nat → Nat → Nat → Nat → List Nat
  | 0, _, _, _ => []
  | fuel + 1, call, bytesRest, chunksz =>
      if bytesRest = 0 then []
      else
        let chunksz := if bytesRest < chunksz then bytesRest else chunksz
        let recsz := (world.read call chunksz).toNat
        recsz :: world.splits fuel (call + 1) (bytesRest - recsz) chunksz

/-- Each chunk is accepted whole by its first `write`. -/
def World.FullWrites (world : World) : Nat → List Nat → Prop
  | _, [] => True
  | call, size :: later => world.write call size = size ∧ world.FullWrites (call + 1) later

/-- The file has arrived: the call has returned, no `write` reached behind the bytes
just received, and the file begins with the bytes of the stream, written once. -/
structure World.Arrived (world : World) (sz : Nat) (run : Ending × Progress) : Prop where
  returned : ∃ hash, run.1 = .returned hash
  inside : ∀ write ∈ run.2.writes, write.Inside
  content : run.2.file.bytes.take sz = world.bytes 0 sz
  once : run.2.file.position = sz

variable {world : World}

/-! ### The stream -/

theorem World.recv_le (world : World) (place call maxlen : Nat) :
    world.recv place call maxlen ≤ maxlen := by
  have bound := world.read_le call maxlen
  rw [recv]
  cases world.ends with
  | none => exact bound
  | some length => exact (Int.min_le_left _ _).trans bound

theorem World.recv_inside {length : Nat} (ends : world.ends = some length)
    (place call maxlen : Nat) : world.recv place call maxlen ≤ (length - place : Nat) := by
  simp only [recv, ends]
  exact Int.min_le_right _ _

theorem World.Holds.recv_eq {place count : Nat} (holds : world.Holds place count) (call : Nat)
    {maxlen : Nat} (within : maxlen ≤ count) :
    world.recv place call maxlen = world.read call maxlen := by
  have bound := world.read_le call maxlen
  rw [World.recv]
  cases ends : world.ends with
  | none => rfl
  | some length =>
      have inside := holds length ends
      apply Int.min_eq_left
      omega

theorem World.Holds.later {place count : Nat} (holds : world.Holds place count) {recsz : Nat}
    (within : recsz ≤ count) : world.Holds (place + recsz) (count - recsz) := by
  intro length ends
  have inside := holds length ends
  omega

/-! ### A short write is never made good -/

private theorem World.write_zero (world : World) (call : Nat) : world.write call 0 < 1 := by
  have bound := world.write_le call 0
  omega

/-- The loop ends by an exception or behind the buffer, never by its condition: a count
of zero is written before it is tested. -/
private theorem World.writeRest_ne_none (chunk : List UInt8) (fuel rs b fileRest : Nat)
    (done : Progress) (missing : fileRest ≠ 0) :
    (world.writeRest chunk fuel rs b fileRest done).1 ≠ none := by
  induction fuel generalizing rs b fileRest done with
  | zero => exact Option.some_ne_none _
  | succ fuel ih =>
      rw [writeRest, if_neg missing]
      simp only
      split
      · exact Option.some_ne_none _
      · by_cases failed : (world.put chunk (b + rs)
            ((fileRest + 2 ^ 64 - rs) % 2 ^ 64) done).1 < 1
        · rw [if_pos failed]
          exact Option.some_ne_none _
        · rw [if_neg failed]
          apply ih _ _ _ _
          intro nothing
          rw [nothing] at failed
          exact failed (world.write_zero _)

private theorem World.writeRest_ne_returned (chunk : List UInt8) (fuel rs b fileRest : Nat)
    (done : Progress) (hash : Option (List UInt8)) :
    (world.writeRest chunk fuel rs b fileRest done).1 ≠ some (.returned hash) := by
  induction fuel generalizing rs b fileRest done with
  | zero => simp [writeRest]
  | succ fuel ih =>
      unfold writeRest
      by_cases drained : fileRest = 0
      · simp [drained]
      · rw [if_neg drained]
        simp only
        split
        · simp
        · by_cases failed : (world.put chunk (b + rs)
              ((fileRest + 2 ^ 64 - rs) % 2 ^ 64) done).1 < 1
          · rw [if_pos failed]
            simp
          · rw [if_neg failed]
            exact ih _ _ _ _

theorem World.writeChunk_ne_returned (chunk : List UInt8) (done : Progress)
    (hash : Option (List UInt8)) :
    (world.writeChunk chunk done).1 ≠ some (.returned hash) := by
  unfold writeChunk
  simp only
  split
  · simp
  · split
    · simp
    · exact world.writeRest_ne_returned chunk _ _ _ _ _ hash

private theorem World.writeChunk_eq_none_iff (chunk : List UInt8) (done : Progress)
    (some : chunk ≠ []) :
    (world.writeChunk chunk done).1 = none ↔
      world.write done.writes.length chunk.length = chunk.length := by
  have positive := List.length_pos_iff.mpr some
  have bound := world.write_le done.writes.length chunk.length
  have result : (world.put chunk 0 chunk.length done).1 =
      world.write done.writes.length chunk.length := rfl
  unfold writeChunk
  simp only [result]
  by_cases failed : world.write done.writes.length chunk.length < 1
  · rw [if_pos failed]
    apply iff_of_false (Option.some_ne_none _)
    omega
  · rw [if_neg failed]
    by_cases full : (world.write done.writes.length chunk.length).toNat = chunk.length
    · rw [if_pos full]
      exact iff_of_true rfl (by omega)
    · rw [if_neg full]
      refine iff_of_false (world.writeRest_ne_none chunk _ _ _ _ _ ?_) ?_ <;> omega

private theorem World.writeChunk_full {chunk : List UInt8} {done : Progress} (some : chunk ≠ [])
    (full : world.write done.writes.length chunk.length = chunk.length) :
    world.writeChunk chunk done =
      (none, { done.record ⟨chunk.length, 0, chunk.length⟩ with
        file := done.file.write chunk }) := by
  have positive := List.length_pos_iff.mpr some
  rw [writeChunk, put, full]
  simp only [List.drop_zero, Int.toNat_natCast, List.take_length, if_true]
  rw [if_neg (by omega)]

theorem World.bytes_length (place count : Nat) :
    (world.bytes place count).length = count := by
  rw [bytes, List.length_map, List.length_range']

private theorem World.bytes_append (place first second : Nat) :
    world.bytes place first ++ world.bytes (place + first) second =
      world.bytes place (first + second) := by
  rw [bytes, bytes, bytes, ← List.map_append, List.range'_append_1]

/-! ### The invariant of the outer loop -/

/-- As many writes as reads, each of a whole chunk, and what was received is what the
file begins with. -/
structure World.InStep (world : World) (done : Progress) : Prop where
  calls : done.writes.length = done.reads
  inside : ∀ write ∈ done.writes, write.Inside
  received : done.received = world.bytes 0 done.received.length
  stored : done.file.bytes.take done.file.position = done.received
  position : done.file.position = done.received.length

theorem World.inStep_start (world : World) (file : File) :
    world.InStep ⟨0, [], file.rewind, [], []⟩ := by
  refine ⟨rfl, ?_, rfl, rfl, rfl⟩
  intro write member
  cases member

/-- The state after a chunk that was accepted whole. -/
def World.next (world : World) (sz bytesRest recsz : Nat) (done : Progress) : Progress :=
  let chunk := world.bytes done.received.length recsz
  let (_, told) := world.report (sz - (bytesRest - recsz)) sz (done.receive chunk)
  { told.record ⟨chunk.length, 0, chunk.length⟩ with file := told.file.write chunk }

private theorem File.write_stored (file : File) (data : List UInt8)
    (whole : (file.bytes.take file.position).length = file.position) :
    (file.write data).bytes.take (file.write data).position =
      file.bytes.take file.position ++ data := by
  rw [write, ← List.append_assoc]
  have size : (file.bytes.take file.position ++ data).length =
      file.position + data.length := by
    rw [List.length_append, whole]
  simp only
  rw [← size, List.take_left]

theorem World.report_frame (done total : Nat) (progress : Progress) :
    (world.report done total progress).2.reads = progress.reads ∧
      (world.report done total progress).2.writes = progress.writes ∧
      (world.report done total progress).2.file = progress.file ∧
      (world.report done total progress).2.received = progress.received := by
  unfold report
  cases world.infoThrows <;> exact ⟨rfl, rfl, rfl, rfl⟩

theorem World.next_frame (world : World) (sz bytesRest recsz : Nat) (done : Progress) :
    (world.next sz bytesRest recsz done).reads = done.reads + 1 ∧
      (world.next sz bytesRest recsz done).writes = done.writes ++ [⟨recsz, 0, recsz⟩] ∧
      (world.next sz bytesRest recsz done).file =
        done.file.write (world.bytes done.received.length recsz) ∧
      (world.next sz bytesRest recsz done).received =
        done.received ++ world.bytes done.received.length recsz := by
  obtain ⟨reads, writes, file, received⟩ := world.report_frame (sz - (bytesRest - recsz)) sz
    (done.receive (world.bytes done.received.length recsz))
  refine ⟨reads, ?_, congrArg (fun old => File.write old _) file, received⟩
  simp only [next, Progress.record, writes, bytes_length]
  rfl

private theorem World.InStep.next {done : Progress} (inStep : world.InStep done)
    (sz bytesRest recsz : Nat) : world.InStep (world.next sz bytesRest recsz done) := by
  obtain ⟨reads, writes, file, received⟩ := world.next_frame sz bytesRest recsz done
  have whole : (done.file.bytes.take done.file.position).length = done.file.position := by
    rw [inStep.stored, inStep.position]
  constructor
  case calls =>
    rw [writes, reads, List.length_append, inStep.calls]
    rfl
  case inside =>
    intro write member
    rw [writes] at member
    rcases List.mem_append.mp member with earlier | now
    · exact inStep.inside write earlier
    · rw [List.mem_singleton.mp now, Write.Inside, Nat.zero_add]
  case received =>
    rw [received, List.length_append, bytes_length, ← world.bytes_append, Nat.zero_add,
      ← inStep.received]
  case stored =>
    rw [file, received, File.write_stored _ _ whole, inStep.stored]
  case position =>
    rw [file, received, File.write, List.length_append, inStep.position]

theorem World.Reliable.report_quiet (reliable : world.Reliable) (done total : Nat)
    (progress : Progress) : (world.report done total progress).1 = false := by
  unfold report
  cases info : world.infoThrows with
  | none => rfl
  | some throws => exact reliable.info throws info done total

theorem World.chunksz_eq_min (bytesRest chunksz : Nat) :
    (if bytesRest < chunksz then bytesRest else chunksz) = min bytesRest chunksz := by
  split <;> omega

/-- What one round of the outer loop comes to: a failed read, a callback that throws, a
chunk accepted whole, or the end that a short or failed `write` leads to. -/
inductive World.Round (world : World) (sz fuel bytesRest chunksz : Nat) (done : Progress) :
    Ending × Progress → Prop where
  | failed (progress : Progress) :
      world.recv done.received.length done.reads chunksz < 1 →
        world.Round sz fuel bytesRest chunksz done (.ioError, progress)
  | threw (recsz : Nat) (progress : Progress) :
      (world.report (sz - (bytesRest - recsz)) sz
        (done.receive (world.bytes done.received.length recsz))).1 = true →
        world.Round sz fuel bytesRest chunksz done (.callback, progress)
  | next (recsz : Nat) :
      world.recv done.received.length done.reads chunksz = recsz → 0 < recsz →
        world.write done.writes.length recsz = recsz →
          world.Round sz fuel bytesRest chunksz done
            (world.transfer sz fuel (bytesRest - recsz) chunksz
              (world.next sz bytesRest recsz done))
  | short (recsz : Nat) (told : Progress) (ending : Ending) (after : Progress) :
      world.recv done.received.length done.reads chunksz = recsz →
        world.write done.writes.length recsz ≠ recsz →
          world.writeChunk (world.bytes done.received.length recsz) told =
              (some ending, after) →
            world.Round sz fuel bytesRest chunksz done (ending, after)

theorem World.transfer_round (world : World) (sz fuel : Nat) {bytesRest : Nat} (chunksz : Nat)
    (done : Progress) (missing : bytesRest ≠ 0) :
    world.Round sz fuel bytesRest (min bytesRest chunksz) done
      (world.transfer sz (fuel + 1) bytesRest chunksz done) := by
  rw [transfer, if_neg missing]
  simp only [World.chunksz_eq_min]
  generalize min bytesRest chunksz = chunksz
  by_cases failed : world.recv done.received.length done.reads chunksz < 1
  · rw [if_pos failed]
    exact Round.failed _ failed
  · rw [if_neg failed]
    obtain ⟨recsz, read⟩ := Int.eq_ofNat_of_zero_le
      (show 0 ≤ world.recv done.received.length done.reads chunksz by omega)
    have positive : 0 < recsz := by omega
    have some : world.bytes done.received.length recsz ≠ [] := by
      rw [← List.length_pos_iff, bytes_length]
      exact positive
    simp only [read, Int.toNat_natCast]
    obtain ⟨_reads, writes, _file, _received⟩ := world.report_frame
      (sz - (bytesRest - recsz)) sz (done.receive (world.bytes done.received.length recsz))
    cases threw : (world.report (sz - (bytesRest - recsz)) sz
        (done.receive (world.bytes done.received.length recsz))).1 with
    | true => exact Round.threw recsz _ threw
    | false =>
        rw [if_neg Bool.false_ne_true]
        by_cases whole : world.write done.writes.length recsz = recsz
        · rw [World.writeChunk_full some (by rwa [writes, bytes_length])]
          exact Round.next recsz read positive whole
        · have ends := (world.writeChunk_eq_none_iff _ (world.report
            (sz - (bytesRest - recsz)) sz
              (done.receive (world.bytes done.received.length recsz))).2 some).not
          rw [writes, bytes_length] at ends
          rcases wrote : world.writeChunk (world.bytes done.received.length recsz)
            (world.report (sz - (bytesRest - recsz)) sz
              (done.receive (world.bytes done.received.length recsz))).2
            with ⟨_ | ending, after⟩
          · rw [wrote] at ends
            exact absurd rfl (ends.mpr whole)
          · exact Round.short recsz _ ending after read whole wrote

theorem World.Reliable.transfer_succ (reliable : world.Reliable) (sz fuel : Nat)
    {bytesRest chunksz recsz : Nat} {done : Progress} (missing : bytesRest ≠ 0)
    (read : world.recv done.received.length done.reads (min bytesRest chunksz) = recsz)
    (some : 0 < recsz) :
    (world.write done.writes.length recsz = recsz →
      world.transfer sz (fuel + 1) bytesRest chunksz done =
        world.transfer sz fuel (bytesRest - recsz) (min bytesRest chunksz)
          (world.next sz bytesRest recsz done)) ∧
    (world.write done.writes.length recsz ≠ recsz →
      ∀ hash, (world.transfer sz (fuel + 1) bytesRest chunksz done).1 ≠ .returned hash) := by
  have round := world.transfer_round sz fuel chunksz done missing
  generalize world.transfer sz (fuel + 1) bytesRest chunksz done = run at *
  cases round with
  | failed progress failed => omega
  | threw size progress threw =>
      rw [reliable.report_quiet] at threw
      cases threw
  | next size same _positive whole =>
      cases Int.ofNat.inj (same.symm.trans read)
      exact ⟨fun _ => rfl, fun short => absurd whole short⟩
  | short size told ending after same notWhole wrote =>
      cases Int.ofNat.inj (same.symm.trans read)
      refine ⟨fun full => absurd full notWhole, fun _short hash returned => ?_⟩
      have ended := world.writeChunk_ne_returned (world.bytes done.received.length recsz) told
        hash
      rw [wrote] at ended
      exact ended (congrArg Option.some returned)

/-- The outer loop returns if and only if each chunk is accepted whole, and then all
that was missing has arrived. -/
theorem World.Reliable.transfer_returned_iff (reliable : world.Reliable) (sz fuel : Nat)
    (bytesRest chunksz : Nat) (done : Progress) (inStep : world.InStep done)
    (holds : world.Holds done.received.length bytesRest) (enough : bytesRest < fuel)
    (room : 0 < chunksz) :
    ((∃ hash, (world.transfer sz fuel bytesRest chunksz done).1 = .returned hash) ↔
      world.FullWrites done.reads (world.splits fuel done.reads bytesRest chunksz)) ∧
    (world.FullWrites done.reads (world.splits fuel done.reads bytesRest chunksz) →
      world.InStep (world.transfer sz fuel bytesRest chunksz done).2 ∧
      (world.transfer sz fuel bytesRest chunksz done).2.received.length =
        done.received.length + bytesRest) := by
  induction fuel generalizing bytesRest chunksz done with
  | zero => omega
  | succ fuel ih =>
      by_cases missing : bytesRest = 0
      · subst missing
        rw [transfer, splits]
        simp only [if_true, FullWrites]
        exact ⟨iff_of_true ⟨_, rfl⟩ trivial, fun _ => ⟨inStep, rfl⟩⟩
      · have positive : 0 < min bytesRest chunksz := by omega
        obtain ⟨recsz, read⟩ := Int.eq_ofNat_of_zero_le
          (Int.le_trans Int.one_nonneg (reliable.read done.reads _ positive))
        have least := reliable.read done.reads _ positive
        have most := world.read_le done.reads (min bytesRest chunksz)
        rw [read] at least most
        have recv := (holds.recv_eq done.reads (Nat.min_le_left _ _)).trans read
        obtain ⟨full, short⟩ := reliable.transfer_succ sz fuel missing recv (by omega)
        obtain ⟨reads, writes, file, received⟩ := world.next_frame sz bytesRest recsz done
        have rest := ih (bytesRest - recsz) (min bytesRest chunksz)
          (world.next sz bytesRest recsz done) (inStep.next sz bytesRest recsz)
        rw [reads, received, List.length_append, bytes_length] at rest
        replace rest := rest (holds.later (by omega)) (by omega) positive
        have sizes : world.splits (fuel + 1) done.reads bytesRest chunksz =
            recsz :: world.splits fuel (done.reads + 1) (bytesRest - recsz)
              (min bytesRest chunksz) := by
          rw [splits, if_neg missing]
          simp only [World.chunksz_eq_min, read, Int.toNat_natCast]
        rw [sizes, FullWrites]
        rw [inStep.calls] at full short
        by_cases whole : world.write done.reads recsz = recsz
        · rw [full whole, and_iff_right whole]
          refine ⟨rest.1, fun later => ⟨(rest.2 later).1, ?_⟩⟩
          rw [(rest.2 later).2]
          omega
        · refine ⟨iff_of_false ?_ (fun all => whole all.1), fun all => absurd all.1 whole⟩
          intro ended
          obtain ⟨hash, returned⟩ := ended
          exact short whole hash returned

theorem World.transfer_succ_recv {sz fuel bytesRest chunksz : Nat}
    {hash : Option (List UInt8)} {done final : Progress} (missing : bytesRest ≠ 0)
    (returned : world.transfer sz (fuel + 1) bytesRest chunksz done =
      (.returned hash, final)) :
    ∃ recsz : Nat,
      world.recv done.received.length done.reads (min bytesRest chunksz) = recsz ∧ 0 < recsz ∧
      world.transfer sz fuel (bytesRest - recsz) (min bytesRest chunksz)
        (world.next sz bytesRest recsz done) = (.returned hash, final) := by
  have round := world.transfer_round sz fuel chunksz done missing
  generalize world.transfer sz (fuel + 1) bytesRest chunksz done = run at *
  cases round with
  | failed progress failed => cases returned
  | threw size progress threw => cases returned
  | next size read positive _whole => exact ⟨size, read, positive, returned⟩
  | short size told ending after _read _notWhole wrote =>
      have ended := world.writeChunk_ne_returned (world.bytes done.received.length size) told
        hash
      rw [wrote] at ended
      exact absurd (congrArg Option.some (congrArg Prod.fst returned)) ended

theorem World.transfer_holds (sz fuel bytesRest chunksz : Nat) {hash : Option (List UInt8)}
    {done final : Progress} (inside : world.Holds done.received.length 0)
    (returned : world.transfer sz fuel bytesRest chunksz done = (.returned hash, final)) :
    world.Holds done.received.length bytesRest := by
  induction fuel generalizing bytesRest chunksz done with
  | zero => cases returned
  | succ fuel ih =>
      by_cases drained : bytesRest = 0
      · rw [drained]
        exact inside
      · obtain ⟨recsz, read, _some, later⟩ := World.transfer_succ_recv drained returned
        have most := world.recv_le done.received.length done.reads (min bytesRest chunksz)
        have received := (world.next_frame sz bytesRest recsz done).2.2.2
        have next : (world.next sz bytesRest recsz done).received.length =
            done.received.length + recsz := by
          rw [received, List.length_append, bytes_length]
        have here : world.Holds (done.received.length + recsz) 0 := by
          intro length ends
          have bound := inside length ends
          have left := World.recv_inside ends done.received.length done.reads
            (min bytesRest chunksz)
          omega
        have rest := ih _ _ (by rwa [next]) later
        rw [next] at rest
        intro length ends
        have bound := rest length ends
        omega

theorem World.transfer_succ_returned {sz fuel bytesRest chunksz : Nat}
    {hash : Option (List UInt8)} {done final : Progress} (missing : bytesRest ≠ 0)
    (inside : world.Holds done.received.length 0)
    (returned : world.transfer sz (fuel + 1) bytesRest chunksz done =
      (.returned hash, final)) :
    ∃ recsz : Nat, world.read done.reads (min bytesRest chunksz) = recsz ∧ 0 < recsz ∧
      world.transfer sz fuel (bytesRest - recsz) (min bytesRest chunksz)
        (world.next sz bytesRest recsz done) = (.returned hash, final) := by
  have holds := world.transfer_holds sz _ _ _ inside returned
  obtain ⟨recsz, read, some, later⟩ := World.transfer_succ_recv missing returned
  rw [holds.recv_eq done.reads (Nat.min_le_left _ _)] at read
  exact ⟨recsz, read, some, later⟩

theorem World.transfer_hash (sz fuel bytesRest chunksz : Nat) {hash : Option (List UInt8)}
    {done final : Progress}
    (returned : world.transfer sz fuel bytesRest chunksz done = (.returned hash, final)) :
    hash = world.digest.map (fun digest => digest final.received) := by
  induction fuel generalizing bytesRest chunksz done with
  | zero => cases returned
  | succ fuel ih =>
      by_cases drained : bytesRest = 0
      · rw [transfer, if_pos drained] at returned
        cases returned
        rfl
      · obtain ⟨recsz, _read, _some, later⟩ := World.transfer_succ_recv drained returned
        exact ih _ _ later

/-- No `write` is short: each is complete, or fails. -/
def World.WholeOrFails (world : World) : Prop :=
  ∀ call count : Nat, world.write call count = count ∨ world.write call count < 1

private theorem World.WholeOrFails.writeChunk (whole : world.WholeOrFails) (chunk : List UInt8)
    (done : Progress) :
    (world.writeChunk chunk done).1 = none ∨
      (world.writeChunk chunk done).1 = some .otherError := by
  have result : (world.put chunk 0 chunk.length done).1 =
      world.write done.writes.length chunk.length := rfl
  unfold World.writeChunk
  simp only [result]
  rcases whole done.writes.length chunk.length with full | failed
  · rw [full]
    by_cases empty : (chunk.length : Int) < 1
    · rw [if_pos empty]
      exact Or.inr rfl
    · rw [if_neg empty, Int.toNat_natCast, if_pos rfl]
      exact Or.inl rfl
  · rw [if_pos failed]
    exact Or.inr rfl

def Ending.Thrown : Ending → Prop
  | .ioError | .otherError | .callback => True
  | .returned _ | .outOfBounds | .running => False

private theorem World.WholeOrFails.transfer (whole : world.WholeOrFails) (sz fuel : Nat)
    {bytesRest : Nat} (chunksz : Nat) (done : Progress) (enough : bytesRest < fuel) :
    (∃ hash, (world.transfer sz fuel bytesRest chunksz done).1 = .returned hash) ∨
      (world.transfer sz fuel bytesRest chunksz done).1.Thrown := by
  induction fuel generalizing bytesRest chunksz done with
  | zero => omega
  | succ fuel ih =>
      by_cases drained : bytesRest = 0
      · rw [World.transfer, if_pos drained]
        exact Or.inl ⟨_, rfl⟩
      · have round := world.transfer_round sz fuel chunksz done drained
        generalize world.transfer sz (fuel + 1) bytesRest chunksz done = run at *
        cases round with
        | failed progress failed => exact Or.inr trivial
        | threw size progress threw => exact Or.inr trivial
        | next size _read _positive _whole => exact ih _ _ (by omega)
        | short size told ending after _read _notWhole wrote =>
            have ended := whole.writeChunk (world.bytes done.received.length size) told
            rw [wrote] at ended
            rcases ended with impossible | failing
            · cases impossible
            · cases failing
              exact Or.inr trivial

theorem World.WholeOrFails.readToFile (whole : world.WholeOrFails) (file : File) (sz : Nat) :
    (∃ hash, (world.readToFile file sz).1 = .returned hash) ∨
      (world.readToFile file sz).1.Thrown := by
  rw [World.readToFile]
  by_cases empty : sz = 0
  · rw [if_pos empty]
    exact Or.inl ⟨none, rfl⟩
  · rw [if_neg empty]
    exact whole.transfer sz (sz + 1) _ _ (Nat.lt_succ_self sz)

theorem World.Reliable.transfer_sizes (reliable : world.Reliable)
    (whole : ∀ call count : Nat, world.write call count = count) (sz fuel : Nat)
    {bytesRest chunksz : Nat} {done : Progress}
    (holds : world.Holds done.received.length bytesRest) (room : 0 < chunksz) :
    ∀ write ∈ (world.transfer sz fuel bytesRest chunksz done).2.writes,
      write ∈ done.writes ∨ write.size ≤ chunksz := by
  induction fuel generalizing bytesRest chunksz done with
  | zero => exact fun write member => Or.inl member
  | succ fuel ih =>
      intro write member
      by_cases drained : bytesRest = 0
      · rw [transfer, if_pos drained] at member
        exact Or.inl member
      · have positive : 0 < min bytesRest chunksz := by omega
        obtain ⟨recsz, read⟩ := Int.eq_ofNat_of_zero_le
          (Int.le_trans Int.one_nonneg (reliable.read done.reads _ positive))
        have least := reliable.read done.reads _ positive
        have most := world.read_le done.reads (min bytesRest chunksz)
        rw [read] at least most
        have recv := (holds.recv_eq done.reads (Nat.min_le_left _ _)).trans read
        have received := (world.next_frame sz bytesRest recsz done).2.2.2
        have next : world.Holds (world.next sz bytesRest recsz done).received.length
            (bytesRest - recsz) := by
          rw [received, List.length_append, bytes_length]
          exact holds.later (by omega)
        rw [(reliable.transfer_succ sz fuel drained recv (by omega)).1 (whole _ _)] at member
        rcases ih next positive write member with before | short
        · rw [(world.next_frame sz bytesRest recsz done).2.1] at before
          rcases List.mem_append.mp before with earlier | now
          · exact Or.inl earlier
          · rw [List.mem_singleton.mp now]
            exact Or.inr (show recsz ≤ chunksz by omega)
        · exact Or.inr (by omega)

theorem World.fullWrites (whole : ∀ call count : Nat, world.write call count = count)
    (call : Nat) (sizes : List Nat) : world.FullWrites call sizes := by
  induction sizes generalizing call with
  | nil => trivial
  | cons size later ih => exact ⟨whole call size, ih (call + 1)⟩

private theorem World.Reliable.transfer_cut (reliable : world.Reliable)
    (whole : ∀ call count : Nat, world.write call count = count) {length : Nat}
    (ends : world.ends = some length) (sz fuel : Nat) {bytesRest : Nat} (chunksz : Nat)
    (done : Progress) (inside : done.received.length ≤ length)
    (cut : length < done.received.length + bytesRest) (enough : bytesRest < fuel) :
    (world.transfer sz fuel bytesRest chunksz done).1 = .ioError := by
  induction fuel generalizing bytesRest chunksz done with
  | zero => omega
  | succ fuel ih =>
      have missing : bytesRest ≠ 0 := by omega
      have round := world.transfer_round sz fuel chunksz done missing
      generalize world.transfer sz (fuel + 1) bytesRest chunksz done = run at *
      cases round with
      | failed progress failed => rfl
      | threw size progress threw =>
          rw [reliable.report_quiet] at threw
          cases threw
      | next size read positive _whole =>
          have most := world.recv_le done.received.length done.reads (min bytesRest chunksz)
          have left := World.recv_inside ends done.received.length done.reads
            (min bytesRest chunksz)
          have received := (world.next_frame sz bytesRest size done).2.2.2
          have next : (world.next sz bytesRest size done).received.length =
              done.received.length + size := by
            rw [received, List.length_append, bytes_length]
          apply ih <;> omega
      | short size told ending after _read notWhole _wrote => exact absurd (whole _ _) notWhole

theorem World.Reliable.readToFile_cut (reliable : world.Reliable)
    (whole : ∀ call count : Nat, world.write call count = count) {length : Nat}
    (ends : world.ends = some length) (file : File) {sz : Nat} (cut : length < sz) :
    (world.readToFile file sz).1 = .ioError := by
  have start : length < ([] : List UInt8).length + sz := by
    rw [List.length_nil, Nat.zero_add]
    exact cut
  rw [World.readToFile, if_neg (Nat.ne_zero_of_lt cut)]
  exact reliable.transfer_cut whole ends sz (sz + 1) (world.pageSize * 16)
    ⟨0, [], file.rewind, [], []⟩ (Nat.zero_le _) start (Nat.lt_succ_self sz)

/-- However the bytes are split into reads, a file arrives if and only if no chunk is
met by a short `write`. -/
theorem readToFile_arrived_iff (world : World) (reliable : world.Reliable) (file : File)
    (sz : Nat) (positive : 0 < sz) (holds : world.Holds 0 sz) :
    world.Arrived sz (world.readToFile file sz) ↔
      world.FullWrites 0 (world.splits (sz + 1) 0 sz (world.pageSize * 16)) := by
  have room : 0 < world.pageSize * 16 := Nat.mul_pos world.pageSize_pos (Nat.succ_pos 15)
  obtain ⟨returned, arrived⟩ := reliable.transfer_returned_iff sz (sz + 1) sz
    (world.pageSize * 16) ⟨0, [], file.rewind, [], []⟩ (world.inStep_start file) holds
    (Nat.lt_succ_self sz) room
  rw [World.readToFile, if_neg (Nat.ne_of_gt positive)]
  constructor
  · intro all
    exact returned.mp all.returned
  · intro full
    obtain ⟨inStep, length⟩ := arrived full
    rw [List.length_nil, Nat.zero_add] at length
    refine ⟨returned.mpr full, inStep.inside, ?_, inStep.position.trans length⟩
    have stored := inStep.stored
    rwa [inStep.position, inStep.received, World.bytes_length, length] at stored

/-- A machine with 4 KiB pages that reads what there is and accepts all but the first
`write`, of which it takes one byte. -/
def shortFirst : World :=
  { pageSize := 4096
    pageSize_pos := by decide
    pageSize_lt := by decide
    content := fun place => UInt8.ofNat (place + 65)
    ends := some 3
    read := fun _ maxlen => maxlen
    read_le := fun _ _ => Int.le_refl _
    write := fun call count => if call = 0 then min 1 count else count
    write_le := by
      intro call count
      split <;> omega
    infoThrows := none
    digest := none }

theorem shortFirst_reliable : shortFirst.Reliable := by
  constructor
  case read =>
    intro call maxlen positive
    exact Int.ofNat_le.mpr positive
  case write =>
    intro call count positive
    simp only [shortFirst]
    split <;> omega
  case info =>
    intro throws member
    cases member

private theorem shortFirst_holds : shortFirst.Holds 0 3 := by
  rintro length ⟨⟩
  exact Nat.le_refl 3

theorem shortFirst_arrived_iff :
    shortFirst.Reliable ∧ 0 < 3 ∧ shortFirst.Holds 0 3 ∧
      (shortFirst.Arrived 3 (shortFirst.readToFile ⟨[], 0⟩ 3) ↔
        shortFirst.FullWrites 0 (shortFirst.splits 4 0 3 (4096 * 16))) :=
  ⟨shortFirst_reliable, Nat.succ_pos _, shortFirst_holds,
    readToFile_arrived_iff shortFirst shortFirst_reliable ⟨[], 0⟩ 3 (Nat.succ_pos _)
      shortFirst_holds⟩

/-- Of three bytes the second one is left out, and the call throws. -/
theorem shortFirst_loses :
    shortFirst.Reliable ∧ ¬ shortFirst.Arrived 3 (shortFirst.readToFile ⟨[], 0⟩ 3) ∧
      (shortFirst.readToFile ⟨[], 0⟩ 3).1 = .otherError ∧
      (shortFirst.readToFile ⟨[], 0⟩ 3).2.file.bytes = [65, 67] := by
  have ended : (shortFirst.readToFile ⟨[], 0⟩ 3).1 = .otherError := rfl
  refine ⟨shortFirst_reliable, ?_, ended, rfl⟩
  intro arrived
  obtain ⟨⟨hash, returned⟩, _⟩ := arrived
  rw [ended] at returned
  cases returned

end Socketxx.FileTransfer
