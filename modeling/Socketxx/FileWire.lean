import Socketxx.FileTransfer
import Socketxx.SimpleSocket

/-!
`o_file` and `i_file`: the size, the file in the chunks of either side, and a digest
that a build without OpenSSL sends and checks as an empty block.
-/

set_option autoImplicit false

namespace Socketxx.FileWire

open StreamReader
open SimpleSocket (Host Exception Fault PairOrder iInt oInt iBin oBin)
open FileTransfer (File Progress)

/-- `MD5` of OpenSSL: a digest of `MD5_DIGEST_LENGTH` bytes. -/
structure Md5 where
  digest : List UInt8 → List UInt8
  length : ∀ data, (digest data).length = 16

/-! ### Sending -/

structure SentFile where
  bytes : List UInt8
  sz : Nat
  sz_le : sz ≤ bytes.length
  length_lt : bytes.length < 2 ^ 63

/-- The part of a file that one call of `mmap` maps. -/
structure Window where
  offset : Nat
  length : Nat
deriving DecidableEq, Repr

def SentFile.mapped (file : SentFile) (window : Window) : List UInt8 :=
  (file.bytes.drop window.offset).take window.length

structure Sender where
  host : Host
  pageSize : Nat
  pageSize_pos : 0 < pageSize
  pageSize_lt : pageSize < 2 ^ 31
  openssl : Bool
  mmapFails : Window → Bool
  infoThrows : Option (Nat → Nat → Bool)

structure Sender.Reliable (sender : Sender) : Prop where
  mmap : ∀ window, sender.mmapFails window = false
  info : ∀ throws ∈ sender.infoThrows, ∀ done total, throws done total = false

structure Sent where
  windows : List Window
  chunks : List (List UInt8)
  bytesDone : Nat
  reports : List (Nat × Nat)

inductive SendEnding where
  | returned (hash : Option (List UInt8))
  | mmapError
  | callback
deriving DecidableEq, Repr

def Sent.add (sent : Sent) (window : Window) (chunk : List UInt8) : Sent :=
  { sent with windows := sent.windows ++ [window], chunks := sent.chunks ++ [chunk] }

def Sender.report (sender : Sender) (chunksz total : Nat) (sent : Sent) : Bool × Sent :=
  match sender.infoThrows with
  | none => (false, sent)
  | some throws =>
      (throws (sent.bytesDone + chunksz) total,
        { sent with
          bytesDone := sent.bytesDone + chunksz
          reports := sent.reports ++ [(sent.bytesDone + chunksz, total)] })

/-- One round of the loop: map a window, send it, hash it, report it. -/
def Sender.sendWindow (sender : Sender) (file : SentFile) (window : Window) (sent : Sent) :
    Option SendEnding × Sent :=
  if sender.mmapFails window then (some .mmapError, sent)
  else
    let (threw, sent) :=
      sender.report window.length file.sz (sent.add window (file.mapped window))
    (if threw then some .callback else none, sent)

/-- The loop, as long as `chunk_rest` whole chunks and the remainder are left. -/
def Sender.sendChunks (sender : Sender) (file : SentFile) :
    Nat → Nat → Sent → Option SendEnding × Sent
  | 0, offF, sent =>
      let chunksz := file.sz % (sender.pageSize * 16)
      if chunksz ≠ 0 then sender.sendWindow file ⟨offF, chunksz⟩ sent else (none, sent)
  | chunkRest + 1, offF, sent =>
      let chunksz := sender.pageSize * 16
      match sender.sendWindow file ⟨offF, chunksz⟩ sent with
      | (none, sent) => sender.sendChunks file chunkRest (offF + chunksz) sent
      | (some ending, sent) => (some ending, sent)

variable (md5 : Md5)

def Sender.writeFromFile (sender : Sender) (file : SentFile) : SendEnding × Sent :=
  if file.sz = 0 then (.returned none, ⟨[], [], 0, []⟩)
  else
    match sender.sendChunks file (file.sz / (sender.pageSize * 16)) 0 ⟨[], [], 0, []⟩ with
    | (some ending, sent) => (ending, sent)
    | (none, sent) =>
        (.returned (if sender.openssl then some (md5.digest sent.chunks.flatten) else none),
          sent)

/-- `o_file`: how it ends, and the bytes it has given to `_o`. -/
def Sender.oFile (sender : Sender) (file : SentFile) : SendEnding × List UInt8 :=
  let header := oInt sender.host (BitVec.ofNat (8 * 8) file.sz)
  match sender.writeFromFile md5 file with
  | (.returned hash, sent) =>
      (.returned hash, header ++ (sent.chunks.flatten ++ oBin sender.host hash))
  | (ending, sent) => (ending, header ++ sent.chunks.flatten)

/-! ### Receiving -/

structure Receiver where
  host : Host
  pageSize : Nat
  pageSize_pos : 0 < pageSize
  pageSize_lt : pageSize < 2 ^ 31
  openssl : Bool
  read : Nat → Nat → Int
  read_le : ∀ call maxlen, read call maxlen ≤ maxlen
  write : Nat → Nat → Int
  write_le : ∀ call count, write call count ≤ count
  infoThrows : Option (Nat → Nat → Bool)

/-- Nothing fails. Reads are short at most, writes are not. -/
structure Receiver.Reliable (receiver : Receiver) : Prop where
  alloc : ∀ size, receiver.host.alloc size = true
  read : ∀ call maxlen, 0 < maxlen → 1 ≤ receiver.read call maxlen
  write : ∀ call count : Nat, receiver.write call count = count
  info : ∀ throws ∈ receiver.infoThrows, ∀ done total, throws done total = false

inductive FileError where
  | socket (error : Exception)
  | file (ending : FileTransfer.Ending)
  | hashLength
  | hashMismatch
deriving DecidableEq, Repr

abbrev ReceiveFile (α : Type) := Reader UInt8 FileError Fault α

def Receiver.world (receiver : Receiver) (stream : List UInt8) : FileTransfer.World :=
  { pageSize := receiver.pageSize
    pageSize_pos := receiver.pageSize_pos
    pageSize_lt := receiver.pageSize_lt
    content := fun place => stream.getD place 0
    ends := some stream.length
    read := receiver.read
    read_le := receiver.read_le
    write := receiver.write
    write_le := receiver.write_le
    infoThrows := receiver.infoThrows
    digest := if receiver.openssl then some md5.digest else none }

def Receiver.readToFile (receiver : Receiver) (file : File) (sz : Nat) :
    ReceiveFile (Option (List UInt8) × Progress) := fun stream =>
  match (receiver.world md5 stream).readToFile file sz with
  | (.returned hash, done) => .ok ((hash, done), stream.drop sz)
  | (ending, _) => .throw (.file ending)

/-- `same_hash`, where `none` is the exception for a length that is not MD5's. -/
def Receiver.sameHash (receiver : Receiver) (hash sHash : Option (List UInt8)) :
    Option Bool :=
  if receiver.openssl then
    match hash, sHash with
    | none, _ => some true
    | some _, none => some true
    | some hash, some sHash =>
        if sHash.length ≠ 16 then none
        else some ((List.range 16).all (fun i => hash.getD i 0 == sHash.getD i 0))
  else some true

structure Reception where
  sz : Nat
  done : Progress
  sHash : Option (List UInt8)

def Receiver.iFile (receiver : Receiver) (file : File) : ReceiveFile Reception := do
  let sz ← BitVec.toNat <$> (iInt receiver.host 8).mapError FileError.socket
  let (hash, done) ← receiver.readToFile md5 file sz
  let sHash ← (iBin receiver.host).mapError FileError.socket
  match receiver.sameHash hash sHash with
  | none => Reader.throw .hashLength
  | some false => Reader.throw .hashMismatch
  | some true => pure ⟨sz, done, sHash⟩

/-! ### The windows tile the file -/

private theorem SentFile.mapped_append (file : SentFile) (offset first second : Nat) :
    file.mapped ⟨offset, first⟩ ++ file.mapped ⟨offset + first, second⟩ =
      file.mapped ⟨offset, first + second⟩ := by
  rw [mapped, mapped, mapped, List.take_add, List.drop_drop]

private theorem Sender.Reliable.sendWindow {sender : Sender} (reliable : sender.Reliable)
    (file : SentFile) (window : Window) (sent : Sent) :
    ∃ after, sender.sendWindow file window sent = (none, after) ∧
      after.chunks = sent.chunks ++ [file.mapped window] := by
  rw [Sender.sendWindow, reliable.mmap window, if_neg Bool.false_ne_true, Sender.report]
  cases info : sender.infoThrows with
  | none => exact ⟨_, rfl, rfl⟩
  | some throws =>
      simp only [reliable.info throws info]
      exact ⟨_, rfl, rfl⟩

private theorem Sender.Reliable.sendChunks {sender : Sender} (reliable : sender.Reliable)
    (file : SentFile) (chunkRest offF : Nat) (sent : Sent) :
    ∃ after, sender.sendChunks file chunkRest offF sent = (none, after) ∧
      after.chunks.flatten = sent.chunks.flatten ++ file.mapped
        ⟨offF, chunkRest * (sender.pageSize * 16) + file.sz % (sender.pageSize * 16)⟩ := by
  induction chunkRest generalizing offF sent with
  | zero =>
      rw [Sender.sendChunks, Nat.zero_mul, Nat.zero_add]
      by_cases remainder : file.sz % (sender.pageSize * 16) = 0
      · rw [remainder]
        exact ⟨sent, rfl, (List.append_nil _).symm⟩
      · simp only [ne_eq, remainder, not_false_eq_true, if_true]
        obtain ⟨after, sends, chunks⟩ := reliable.sendWindow file
          ⟨offF, file.sz % (sender.pageSize * 16)⟩ sent
        refine ⟨after, sends, ?_⟩
        rw [chunks, List.flatten_append, List.flatten_singleton]
  | succ chunkRest ih =>
      obtain ⟨middle, sends, chunks⟩ := reliable.sendWindow file
        ⟨offF, sender.pageSize * 16⟩ sent
      obtain ⟨after, later, rest⟩ := ih (offF + sender.pageSize * 16) middle
      rw [Sender.sendChunks]
      simp only [sends]
      refine ⟨after, later, ?_⟩
      rw [rest, chunks, List.flatten_append, List.flatten_singleton, List.append_assoc,
        SentFile.mapped_append, Nat.succ_mul, Nat.add_right_comm, Nat.add_comm]

def Sender.hash (sender : Sender) (file : SentFile) : Option (List UInt8) :=
  if file.sz ≠ 0 ∧ sender.openssl = true then some (md5.digest (file.bytes.take file.sz))
  else none

private theorem Sender.Reliable.writeFromFile {sender : Sender} (reliable : sender.Reliable)
    (file : SentFile) :
    ∃ after, sender.writeFromFile md5 file = (.returned (sender.hash md5 file), after) ∧
      after.chunks.flatten = file.bytes.take file.sz := by
  rw [Sender.writeFromFile, Sender.hash]
  by_cases empty : file.sz = 0
  · rw [if_pos empty, if_neg (fun both => both.1 empty), empty]
    exact ⟨_, rfl, rfl⟩
  · obtain ⟨after, sends, chunks⟩ := reliable.sendChunks file
      (file.sz / (sender.pageSize * 16)) 0 ⟨[], [], 0, []⟩
    have tiled : after.chunks.flatten = file.bytes.take file.sz := by
      rw [chunks, Nat.div_add_mod', SentFile.mapped]
      rfl
    rw [if_neg empty, sends]
    refine ⟨after, ?_, tiled⟩
    simp only [tiled, ne_eq, empty, not_false_eq_true, true_and]

theorem Sender.Reliable.oFile {sender : Sender} (reliable : sender.Reliable)
    (file : SentFile) :
    sender.oFile md5 file = (.returned (sender.hash md5 file),
      oInt sender.host (BitVec.ofNat (8 * 8) file.sz) ++
        (file.bytes.take file.sz ++ oBin sender.host (sender.hash md5 file))) := by
  obtain ⟨after, sends, chunks⟩ := reliable.writeFromFile md5 file
  rw [Sender.oFile, sends]
  simp only [chunks]

/-! ### The receiver follows -/

theorem Receiver.Reliable.world {receiver : Receiver} (reliable : receiver.Reliable)
    (stream : List UInt8) : (receiver.world md5 stream).Reliable := by
  refine ⟨reliable.read, ?_, reliable.info⟩
  intro call count positive
  change 1 ≤ receiver.write call count
  rw [reliable.write]
  exact Int.ofNat_le.mpr positive

private theorem Receiver.world_bytes (receiver : Receiver) {stream : List UInt8} {sz : Nat}
    (enough : sz ≤ stream.length) : (receiver.world md5 stream).bytes 0 sz = stream.take sz := by
  apply List.ext_getElem
  · rw [FileTransfer.World.bytes_length, List.length_take, Nat.min_eq_left enough]
  · intro place left right
    rw [List.length_take] at right
    have inside : place < stream.length := by omega
    simp [FileTransfer.World.bytes, Receiver.world, inside]

theorem Receiver.Reliable.readToFile {receiver : Receiver} (reliable : receiver.Reliable)
    (file : File) {sz : Nat} {stream : List UInt8} (enough : sz ≤ stream.length) :
    ∃ done, receiver.readToFile md5 file sz stream =
        .ok ((if sz ≠ 0 ∧ receiver.openssl = true then some (md5.digest (stream.take sz))
          else none, done), stream.drop sz) ∧
      done.received = stream.take sz ∧ done.file.bytes.take sz = stream.take sz ∧
      ∀ write ∈ done.writes, write.size ≤ receiver.pageSize * 16 := by
  rw [Receiver.readToFile, FileTransfer.World.readToFile]
  by_cases empty : sz = 0
  · subst empty
    exact ⟨⟨0, [], file, [], []⟩, rfl, rfl, rfl, List.forall_mem_nil _⟩
  · have world := reliable.world md5 stream
    have room : 0 < (receiver.world md5 stream).pageSize * 16 :=
      Nat.mul_pos receiver.pageSize_pos (Nat.succ_pos 15)
    have holds : (receiver.world md5 stream).Holds 0 sz := by
      rintro length ⟨⟩
      rwa [Nat.zero_add]
    obtain ⟨returned, arrived⟩ := world.transfer_returned_iff sz (sz + 1) sz
      ((receiver.world md5 stream).pageSize * 16) ⟨0, [], file.rewind, [], []⟩
      ((receiver.world md5 stream).inStep_start file) holds (Nat.lt_succ_self sz) room
    have full := (receiver.world md5 stream).fullWrites reliable.write 0
      ((receiver.world md5 stream).splits (sz + 1) 0 sz
        ((receiver.world md5 stream).pageSize * 16))
    obtain ⟨hash, ends⟩ := returned.mpr full
    obtain ⟨inStep, length⟩ := arrived full
    have sizes := @FileTransfer.World.Reliable.transfer_sizes _ world reliable.write sz
      (sz + 1) sz _ ⟨0, [], file.rewind, [], []⟩ holds room
    rw [if_neg empty]
    generalize ran : (receiver.world md5 stream).transfer sz (sz + 1) sz
      ((receiver.world md5 stream).pageSize * 16) ⟨0, [], file.rewind, [], []⟩ = run at *
    obtain ⟨ending, done⟩ := run
    cases ends
    have received : done.received = stream.take sz := by
      have all := inStep.received
      rw [show done.received.length = sz from length.trans (Nat.zero_add sz)] at all
      rw [all, receiver.world_bytes md5 enough]
    have digest := (receiver.world md5 stream).transfer_hash _ _ _ _ ran
    refine ⟨done, ?_, received, ?_, ?_⟩
    · rw [digest, received]
      simp only [empty, ne_eq, not_false_eq_true, true_and, Receiver.world]
      cases receiver.openssl <;> rfl
    · have stored := inStep.stored
      rw [inStep.position, show done.received.length = sz from length.trans (Nat.zero_add sz)]
        at stored
      rw [stored, received]
    · intro write member
      exact (sizes write member).resolve_left List.not_mem_nil

/-! ### The digest -/

private theorem Receiver.sameHash_of_agree (receiver : Receiver) {hash sHash : Option (List UInt8)}
    (agree : ∀ own sent, hash = some own → sHash = some sent → sent.length = 16 ∧ sent = own) :
    receiver.sameHash hash sHash = some true := by
  unfold Receiver.sameHash
  cases receiver.openssl with
  | false => rfl
  | true =>
      cases hash with
      | none => rfl
      | some own =>
          cases sHash with
          | none => rfl
          | some sent =>
              obtain ⟨length, rfl⟩ := agree own sent rfl rfl
              simp [length]

private theorem Receiver.agree_of_sameHash {receiver : Receiver} (openssl : receiver.openssl = true)
    {own sent : List UInt8} (size : own.length = 16)
    (same : receiver.sameHash (some own) (some sent) = some true) :
    sent.length = 16 ∧ sent = own := by
  unfold Receiver.sameHash at same
  rw [if_pos openssl] at same
  by_cases length : sent.length = 16
  · simp only [length, ne_eq, not_true_eq_false, if_false, Option.some.injEq,
      List.all_eq_true, List.mem_range, beq_iff_eq] at same
    refine ⟨length, List.ext_getElem (length.trans size.symm) ?_⟩
    intro place left right
    have here := same place (by omega)
    simpa [left, right] using here.symm
  · simp [length] at same

theorem Receiver.iFile_eq_ok (receiver : Receiver) (file : File) (stream rest : List UInt8)
    (result : Reception) :
    receiver.iFile md5 file stream = .ok (result, rest) ↔
      ∃ num between hash after, iInt receiver.host 8 stream = .ok (num, between) ∧
        num.toNat = result.sz ∧
        receiver.readToFile md5 file result.sz between = .ok ((hash, result.done), after) ∧
        iBin receiver.host after = .ok (result.sHash, rest) ∧
        receiver.sameHash hash result.sHash = some true := by
  rw [Receiver.iFile]
  simp only [Reader.bind_eq_ok, Reader.map_eq_ok, Reader.mapError_ok]
  constructor
  · rintro ⟨sz, between, ⟨num, size, rfl⟩, ⟨hash, done⟩, after, file, sHash, final, bin, same⟩
    cases passed : receiver.sameHash hash sHash with
    | none =>
        simp only [passed] at same
        cases same
    | some agrees =>
        cases agrees with
        | false =>
            simp only [passed] at same
            cases same
        | true =>
            simp only [passed] at same
            cases same
            exact ⟨num, between, hash, after, size, rfl, file, bin, passed⟩
  · intro taken
    obtain ⟨num, between, hash, after, size, same, file, bin, passed⟩ := taken
    refine ⟨result.sz, between, ⟨num, size, same⟩, (hash, result.done), after, file,
      result.sHash, rest, bin, ?_⟩
    simp only [passed]
    rfl

/-! ### A transfer -/

theorem Sender.hash_length (sender : Sender) (file : SentFile) :
    ∀ digest, sender.hash md5 file = some digest →
      digest = md5.digest (file.bytes.take file.sz) ∧ digest.length = 16 := by
  intro digest made
  rw [Sender.hash] at made
  split at made
  · cases made
    exact ⟨rfl, md5.length _⟩
  · cases made

private theorem Sender.iBin_hash (sender : Sender) {receiver : Receiver}
    (reliable : receiver.Reliable)
    (little : receiver.host.endianness = .littleEndian) (file : SentFile) (rest : List UInt8) :
    iBin receiver.host (oBin sender.host (sender.hash md5 file) ++ rest) =
      .ok (sender.hash md5 file, rest) := by
  have block := SimpleSocket.iBin_decodes sender.host receiver.host little reliable.alloc
    (sender.hash md5 file)
  cases made : sender.hash md5 file with
  | none =>
      rw [made] at block
      exact block (Nat.succ_pos _) rest
  | some digest =>
      have size := (sender.hash_length md5 file digest made).2
      rw [made] at block
      have read := block (by rw [Option.getD_some, size]; decide) rest
      rwa [Option.getD_some, if_neg] at read
      intro empty
      rw [empty] at size
      cases size

theorem Receiver.Reliable.iFile {receiver : Receiver} (reliable : receiver.Reliable)
    (little : receiver.host.endianness = .littleEndian) (sender : Sender) (file : SentFile)
    (dest : File) (rest : List UInt8) :
    ∃ done, receiver.iFile md5 dest
        (oInt sender.host (BitVec.ofNat (8 * 8) file.sz) ++
          (file.bytes.take file.sz ++ oBin sender.host (sender.hash md5 file)) ++ rest) =
        .ok (⟨file.sz, done, sender.hash md5 file⟩, rest) ∧
      done.received = file.bytes.take file.sz ∧
      done.file.bytes.take file.sz = file.bytes.take file.sz ∧
      ∀ write ∈ done.writes, write.size ≤ receiver.pageSize * 16 := by
  have length : (file.bytes.take file.sz).length = file.sz := by
    rw [List.length_take, Nat.min_eq_left file.sz_le]
  have number : (BitVec.ofNat (8 * 8) file.sz).toNat = file.sz := by
    have bound := file.sz_le
    have limit := file.length_lt
    rw [BitVec.toNat_ofNat]
    omega
  let behind := oBin sender.host (sender.hash md5 file) ++ rest
  have header := SimpleSocket.iInt_oInt_decodes sender.host receiver.host little
    (BitVec.ofNat (8 * 8) file.sz) (file.bytes.take file.sz ++ behind)
  have enough : file.sz ≤ (file.bytes.take file.sz ++ behind).length := by
    rw [List.length_append, length]
    exact Nat.le_add_right _ _
  obtain ⟨done, read, received, stored, sizes⟩ := reliable.readToFile md5 dest enough
  have front : (file.bytes.take file.sz ++ behind).take file.sz = file.bytes.take file.sz :=
    List.take_left' length
  have back : (file.bytes.take file.sz ++ behind).drop file.sz = behind :=
    List.drop_left' length
  rw [front] at read received stored
  rw [back] at read
  refine ⟨done, ?_, received, stored, sizes⟩
  rw [Receiver.iFile_eq_ok, List.append_assoc, List.append_assoc]
  refine ⟨_, _, _, _, header, number, read, sender.iBin_hash md5 reliable little file rest, ?_⟩
  apply receiver.sameHash_of_agree
  intro own sent ours theirs
  obtain ⟨rfl, size⟩ := sender.hash_length md5 file sent theirs
  refine ⟨size, ?_⟩
  split at ours
  · exact Option.some.inj ours
  · cases ours

/-- The two ends of a transfer agree, for every file and size, whatever the page sizes,
the split into reads and the two builds; the bytes behind it are left alone. With
OpenSSL, nothing of a size other than zero is accepted whose digest, if it has one, is not
that of the bytes received. -/
theorem oFile_iFile (sender : Sender) (sends : sender.Reliable) (receiver : Receiver)
    (receives : receiver.Reliable) (little : receiver.host.endianness = .littleEndian)
    (file : SentFile) (dest : File) (rest : List UInt8) :
    (∃ hash wire, sender.oFile md5 file = (.returned hash, wire) ∧
      ∃ done, receiver.iFile md5 dest (wire ++ rest) = .ok (⟨file.sz, done, hash⟩, rest) ∧
        done.received = file.bytes.take file.sz ∧
        done.file.bytes.take file.sz = file.bytes.take file.sz ∧
        ∀ write ∈ done.writes, write.size ≤ receiver.pageSize * 16) ∧
    (receiver.openssl = true → ∀ stream result after,
      receiver.iFile md5 dest stream = .ok (result, after) → 0 < result.sz →
        ∀ digest, result.sHash = some digest →
          digest.length = 16 ∧ digest = md5.digest result.done.received) := by
  constructor
  · exact ⟨_, _, sends.oFile md5 file, receives.iFile md5 little sender file dest rest⟩
  · intro openssl stream result after accepted positive digest block
    obtain ⟨num, between, hash, behind, size, same, read, bin, passed⟩ :=
      (receiver.iFile_eq_ok md5 dest stream after result).mp accepted
    rw [block] at passed
    rw [Receiver.readToFile, FileTransfer.World.readToFile,
      if_neg (Nat.ne_of_gt positive)] at read
    split at read
    · rename_i own done ran
      have ours := (receiver.world md5 between).transfer_hash _ _ _ _ ran
      cases read
      rw [ours, Receiver.world] at passed
      simp only [openssl, if_true, Option.map_some] at passed
      exact Receiver.agree_of_sameHash openssl (md5.length _) passed
    · cases read

def abcMd5 : Md5 :=
  { digest := fun _ => [0x90, 0x01, 0x50, 0x98, 0x3c, 0xd2, 0x4f, 0xb0, 0xd6, 0x96, 0x3f,
      0x7d, 0x28, 0xe1, 0x7f, 0x72]
    length := fun _ => rfl }

def abcFile : SentFile :=
  { bytes := [97, 98, 99]
    sz := 3
    sz_le := by decide
    length_lt := by decide }

def abcSender : Sender :=
  { host := Host.little .keyFirst
    pageSize := 8192
    pageSize_pos := by decide
    pageSize_lt := by decide
    openssl := true
    mmapFails := fun _ => false
    infoThrows := none }

def abcReceiver : Receiver :=
  { host := Host.little .valueFirst
    pageSize := 16384
    pageSize_pos := by decide
    pageSize_lt := by decide
    openssl := true
    read := fun _ maxlen => Int.ofNat (min 1 maxlen)
    read_le := fun _ maxlen => Int.ofNat_le.mpr (Nat.min_le_right 1 maxlen)
    write := fun _ count => Int.ofNat count
    write_le := fun _ _ => Int.le_refl _
    infoThrows := none }

theorem abcSender_reliable : abcSender.Reliable :=
  ⟨fun _ => rfl, fun _ impossible => nomatch impossible⟩

theorem abcReceiver_reliable : abcReceiver.Reliable := by
  refine ⟨fun _ => rfl, ?_, fun _ _ => rfl, fun _ impossible => nomatch impossible⟩
  intro call maxlen positive
  exact Int.ofNat_le.mpr (Nat.le_min.mpr ⟨Nat.le_refl 1, positive⟩)

theorem abc_received :
    ∃ hash wire, abcSender.oFile abcMd5 abcFile = (.returned hash, wire) ∧
      ∃ done, abcReceiver.iFile abcMd5 ⟨[], 0⟩ (wire ++ [7]) = .ok (⟨3, done, hash⟩, [7]) ∧
        done.received = [97, 98, 99] ∧ done.file.bytes.take 3 = [97, 98, 99] ∧
        ∀ write ∈ done.writes, write.size ≤ 16384 * 16 :=
  (oFile_iFile abcMd5 abcSender abcSender_reliable abcReceiver abcReceiver_reliable rfl abcFile
    ⟨[], 0⟩ [7]).1

end Socketxx.FileWire
