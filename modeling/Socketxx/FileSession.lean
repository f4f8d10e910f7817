import Socketxx.FileWire
import Socketxx.Library.Dialogue
import Socketxx.SessionCut

/-!
Sessions of all that goes by value over a `simple_socket`: the typed values, buffers of a
size that both ends know, and files.
-/

set_option autoImplicit false

namespace Socketxx.FileSession

open StreamReader MessageCodec Dialogue
open SimpleSocket (Host TypeCodes Exception Fault Kind Received SizedMessage oInt oBin)
open FileTransfer (File)
open FileWire

/-- A file, the ends of its transfer, and where the receiver puts it. Nothing fails at the
ends, which may differ in page size, build and callbacks and read in any chunks. -/
structure FileTurn where
  file : SentFile
  sender : Sender
  sends : sender.Reliable
  receiver : Receiver
  receives : receiver.Reliable
  little : receiver.host.endianness = .littleEndian
  dest : File

inductive Message where
  | value (message : SizedMessage)
  | buf (bytes : List UInt8) (some : bytes ≠ [])
  | file (turn : FileTurn)

inductive Call where
  | value (kind : Kind)
  | buf (len : Nat)
  | file (receiver : Receiver) (dest : File)

inductive Result where
  | value (received : Received)
  | buf (bytes : List UInt8)
  | file (sz : Nat) (contents : List UInt8)

def Message.call : Message → Call
  | .value message => .value message.1.kind
  | .buf bytes _ => .buf bytes.length
  | .file turn => .file turn.receiver turn.dest

def Message.result : Message → Result
  | .value message => .value message.1.received
  | .buf bytes _ => .buf bytes
  | .file turn => .file turn.file.sz (turn.file.bytes.take turn.file.sz)

/-- In the middle of a file, too, the end of the stream is an `io_error` of `_i`. -/
def atEnd : FileError → FileError
  | .file .ioError => .socket .ioError
  | error => error

variable (md5 : Md5)

def Result.ofReception (reception : Reception) : Result :=
  .file reception.sz (reception.done.file.bytes.take reception.sz)

def Call.reader (codes : TypeCodes) : Call → ReceiveFile Result
  | .value kind =>
      .value <$> (SimpleSocket.receive (Host.little .keyFirst) codes kind).mapError .socket
  | .buf len => .buf <$> (SimpleSocket.iFixsize len).mapError FileError.socket
  | .file receiver dest => Result.ofReception <$> (receiver.iFile md5 dest).mapError atEnd

def Message.bytes (host : Host) (codes : TypeCodes) : Message → List UInt8
  | .value message => SimpleSocket.send host codes message.1
  | .buf bytes _ => bytes
  | .file turn => (turn.sender.oFile md5 turn.file).2

/-! ### A file is received as a whole or not at all -/

variable {md5}

theorem FileTurn.bytes (turn : FileTurn) :
    (turn.sender.oFile md5 turn.file).2 =
      oInt turn.sender.host (BitVec.ofNat (8 * 8) turn.file.sz) ++
        (turn.file.bytes.take turn.file.sz ++
          oBin turn.sender.host (turn.sender.hash md5 turn.file)) := by
  rw [turn.sends.oFile md5 turn.file]

private theorem FileTurn.content_length (turn : FileTurn) :
    (turn.file.bytes.take turn.file.sz).length = turn.file.sz := by
  rw [List.length_take, Nat.min_eq_left turn.file.sz_le]

private theorem readToFile_truncated (md5 : Md5) {receiver : Receiver}
    (reliable : receiver.Reliable)
    (dest : File) (content : List UInt8) :
    Reader.Truncated (.socket .ioError)
      ((receiver.readToFile md5 dest content.length).mapError atEnd) content := by
  intro cut missing whole nonempty
  have positive := List.length_pos_iff.mpr nonempty
  have sizes := congrArg List.length whole
  rw [List.length_append] at sizes
  have ends := (reliable.world md5 cut).readToFile_cut reliable.write rfl dest
    (show cut.length < content.length by omega)
  rw [Reader.mapError, Receiver.readToFile]
  generalize (receiver.world md5 cut).readToFile dest content.length = run at *
  obtain ⟨ending, done⟩ := run
  cases ends
  rfl

private theorem FileTurn.hash_small (turn : FileTurn) :
    ((turn.sender.hash md5 turn.file).getD []).length < 2 ^ 32 := by
  cases made : turn.sender.hash md5 turn.file with
  | none => exact Nat.succ_pos _
  | some digest =>
      rw [Option.getD_some, (turn.sender.hash_length md5 turn.file digest made).2]
      decide

private theorem FileTurn.iFile_truncated (turn : FileTurn) :
    Reader.Truncated (.socket .ioError) ((turn.receiver.iFile md5 turn.dest).mapError atEnd)
      (turn.sender.oFile md5 turn.file).2 := by
  have number : (BitVec.ofNat (8 * 8) turn.file.sz).toNat = turn.file.sz := by
    have bound := turn.file.sz_le
    have limit := turn.file.length_lt
    rw [BitVec.toNat_ofNat]
    omega
  have header := ((SimpleSocket.iInt_oInt_framed turn.sender.host turn.receiver.host turn.little
    (BitVec.ofNat (8 * 8) turn.file.sz)).mapError FileError.socket).map BitVec.toNat
  rw [number] at header
  have digest := (SimpleSocket.iBin_framed turn.sender.host turn.receiver.host turn.little
    turn.receives.alloc (turn.sender.hash md5 turn.file) turn.hash_small).mapError
      FileError.socket
  rw [turn.bytes, Receiver.iFile, Reader.mapError_bind]
  apply Reader.Truncated.bind (header.mapError atEnd)
  rw [Reader.mapError_bind]
  apply Reader.Truncated.bind_read
  · have content := readToFile_truncated md5 turn.receives turn.dest
      (turn.file.bytes.take turn.file.sz)
    rwa [turn.content_length] at content
  · intro rest
    have enough : turn.file.sz ≤ (turn.file.bytes.take turn.file.sz ++ rest).length := by
      rw [List.length_append, turn.content_length]
      exact Nat.le_add_right _ _
    obtain ⟨done, read, _⟩ := turn.receives.readToFile md5 turn.dest enough
    rw [List.drop_left' turn.content_length] at read
    refine ⟨_, (Reader.mapError_ok atEnd).mpr read, ?_⟩
    rw [Reader.mapError_bind]
    exact (digest.mapError atEnd).truncated.bind_left

private theorem FileTurn.iFile_framed (turn : FileTurn) :
    Reader.Framed (.socket .ioError)
      (Result.ofReception <$> (turn.receiver.iFile md5 turn.dest).mapError atEnd)
      (turn.sender.oFile md5 turn.file).2
      (.file turn.file.sz (turn.file.bytes.take turn.file.sz)) := by
  constructor
  case decodes =>
    intro rest
    obtain ⟨done, read, _received, stored, _sizes⟩ :=
      turn.receives.iFile md5 turn.little turn.sender turn.file turn.dest rest
    rw [turn.bytes, Reader.map_eq_bind,
      Reader.bind_ok ((Reader.mapError_ok atEnd).mpr read)]
    rw [← stored]
    rfl
  case truncated => exact turn.iFile_truncated.bind_left

private theorem Message.framed (host : Host) (codes : TypeCodes) (message : Message) :
    Reader.Framed (.socket .ioError) (message.call.reader md5 codes)
      (message.bytes md5 host codes) message.result := by
  cases message with
  | value message =>
      have read := SimpleSocket.receive_framed host (Host.little .keyFirst) rfl (fun _ => rfl)
        rfl codes message.1
      exact (read.mapError FileError.socket).map Result.value
  | buf bytes some =>
      have read := (SimpleSocket.iFixsize_framed bytes).mapError FileError.socket
      exact read.map Result.buf
  | file turn => exact turn.iFile_framed

private theorem Message.bytes_ne_nil (host : Host) (codes : TypeCodes) (message : Message) :
    message.bytes md5 host codes ≠ [] := by
  cases message with
  | value message => exact SimpleSocket.send_ne_nil host codes message
  | buf bytes some => exact some
  | file turn =>
      rw [Message.bytes, turn.bytes]
      exact List.append_ne_nil_of_left_ne_nil
        (SimpleSocket.oInt_ne_nil turn.sender.host (Nat.succ_pos 7) _) _

/-! ### The buffers of a file -/

private theorem mapped_ne_nil (file : SentFile) {window : Window} (positive : 0 < window.length)
    (inside : window.offset + window.length ≤ file.sz) : file.mapped window ≠ [] := by
  have bound := file.sz_le
  apply List.length_pos_iff.mp
  rw [SentFile.mapped, List.length_take, List.length_drop]
  omega

private theorem sendWindow_chunks (sender : Sender) (file : SentFile) (window : Window)
    (positive : 0 < window.length) (inside : window.offset + window.length ≤ file.sz)
    {sent : Sent} (some : ∀ chunk ∈ sent.chunks, chunk ≠ []) :
    ∀ chunk ∈ (sender.sendWindow file window sent).2.chunks, chunk ≠ [] := by
  rw [Sender.sendWindow]
  split
  · exact some
  · have added : (sender.report window.length file.sz
        (sent.add window (file.mapped window))).2.chunks =
          sent.chunks ++ [file.mapped window] := by
      rw [Sender.report]
      cases sender.infoThrows <;> rfl
    simp only [added]
    intro chunk member
    rcases List.mem_append.mp member with before | here
    · exact some chunk before
    · rw [List.mem_singleton.mp here]
      exact mapped_ne_nil file positive inside

private theorem sendChunks_chunks (sender : Sender) (file : SentFile) (chunkRest offF : Nat)
    (sent : Sent)
    (inside : offF + chunkRest * (sender.pageSize * 16) + file.sz % (sender.pageSize * 16) ≤
      file.sz)
    (some : ∀ chunk ∈ sent.chunks, chunk ≠ []) :
    ∀ chunk ∈ (sender.sendChunks file chunkRest offF sent).2.chunks, chunk ≠ [] := by
  induction chunkRest generalizing offF sent with
  | zero =>
      rw [Sender.sendChunks]
      by_cases remainder : file.sz % (sender.pageSize * 16) = 0
      · rw [remainder]
        exact some
      · simp only [ne_eq, remainder, not_false_eq_true, if_true]
        apply sendWindow_chunks sender file _ (Nat.pos_of_ne_zero remainder) _ some
        change offF + file.sz % (sender.pageSize * 16) ≤ file.sz
        omega
  | succ chunkRest ih =>
      have room := Nat.mul_pos sender.pageSize_pos (Nat.succ_pos 15)
      rw [Nat.succ_mul] at inside
      have window := sendWindow_chunks sender file ⟨offF, sender.pageSize * 16⟩ room
        (by change offF + sender.pageSize * 16 ≤ file.sz; omega) some
      rw [Sender.sendChunks]
      generalize sender.sendWindow file ⟨offF, sender.pageSize * 16⟩ sent = ran at window
      obtain ⟨ending, after⟩ := ran
      cases ending with
      | none => exact ih (offF + sender.pageSize * 16) _ (by omega) window
      | some ending => exact window

private theorem writeFromFile_chunks (md5 : Md5) (sender : Sender) (file : SentFile) :
    ∀ chunk ∈ (sender.writeFromFile md5 file).2.chunks, chunk ≠ [] := by
  rw [Sender.writeFromFile]
  by_cases empty : file.sz = 0
  · rw [if_pos empty]
    simp
  · have chunks := sendChunks_chunks sender file (file.sz / (sender.pageSize * 16)) 0
      ⟨[], [], 0, []⟩ (by rw [Nat.zero_add, Nat.div_add_mod']) (by simp)
    rw [if_neg empty]
    generalize sender.sendChunks file (file.sz / (sender.pageSize * 16)) 0 ⟨[], [], 0, []⟩ = ran
      at chunks
    obtain ⟨ending, sent⟩ := ran
    cases ending with
    | none => exact chunks
    | some ending => exact chunks

/-- The data of each `_o` of `o_file`. -/
def FileTurn.writes (md5 : Md5) (turn : FileTurn) : List (List UInt8) :=
  let header := oInt turn.sender.host (BitVec.ofNat (8 * 8) turn.file.sz)
  match turn.sender.writeFromFile md5 turn.file with
  | (.returned hash, sent) =>
      header :: (sent.chunks ++ SslWrite.oBinWrites turn.sender.host hash)
  | (_, sent) => header :: sent.chunks

def Message.writes (md5 : Md5) (host : Host) (codes : TypeCodes) : Message → List (List UInt8)
  | .value message => message.1.writes host codes
  | .buf bytes _ => [bytes]
  | .file turn => turn.writes md5

private theorem FileTurn.writes_spells (turn : FileTurn) :
    Spells (turn.writes md5) (turn.sender.oFile md5 turn.file).2 := by
  have chunks := writeFromFile_chunks md5 turn.sender turn.file
  rw [FileTurn.writes, Sender.oFile]
  generalize turn.sender.writeFromFile md5 turn.file = ran at chunks
  obtain ⟨ending, sent⟩ := ran
  have header := SimpleSocket.oInt_ne_nil turn.sender.host (Nat.succ_pos 7)
    (BitVec.ofNat (8 * 8) turn.file.sz)
  have content : Spells sent.chunks sent.chunks.flatten := ⟨rfl, chunks⟩
  cases ending with
  | returned hash =>
      exact Spells.cons header
        (content.append (SimpleSocket.oBinWrites_spells turn.sender.host hash))
  | mmapError => exact Spells.cons header content
  | callback => exact Spells.cons header content

private theorem Message.writes_spells (host : Host) (codes : TypeCodes) (message : Message) :
    Spells (message.writes md5 host codes) (message.bytes md5 host codes) := by
  cases message with
  | value message => exact SimpleSocket.writes_spells host codes message
  | buf bytes some => exact Spells.single some
  | file turn => exact turn.writes_spells

variable (md5)

/-- All messages between a sender of any build and a little-endian receiver. -/
def sessionCodec (host : Host) (codes : TypeCodes) :
    Codec UInt8 FileError Fault Message Call Result where
  encode := Message.bytes md5 host codes
  kind := Message.call
  value := Message.result
  reader := Call.reader md5 codes
  short := .socket .ioError
  nonempty := Message.bytes_ne_nil host codes
  framed := Message.framed host codes

/-! ### Sessions and conversations -/

def abcTurn : FileTurn :=
  { file := abcFile
    sender := abcSender
    sends := abcSender_reliable
    receiver := abcReceiver
    receives := abcReceiver_reliable
    little := rfl
    dest := ⟨[], 0⟩ }

/-- Two programs that send each other values, buffers and files in turns. Whatever their
schedule, with room for one byte in each direction they agree on all they have been through,
no call fails, and they are through after two steps for each byte and for each message. -/
theorem conversation_finishes (codes : TypeCodes) (conversation : Conversation Message)
    {room : Side → Nat} (positive : ∀ side, 0 < room side)
    (run : Schedule (sessionCodec md5 (Host.little .keyFirst) codes) room conversation) (n : Nat) :
    (∀ side, (∃ past rest, conversation = past ++ rest ∧
        ((run.state n).party side).log =
          (past.filter (fun turn => turn.1 ≠ side)).map (fun turn => turn.2.result)) ∧
      ¬ Fails (sessionCodec md5 (Host.little .keyFirst) codes) (run.state n) side) ∧
    (Finished (sessionCodec md5 (Host.little .keyFirst) codes) conversation (run.state n) ↔
      2 * conversation.length + 2 * (conversation.flatMap (fun turn =>
        turn.2.bytes md5 (Host.little .keyFirst) codes)).length ≤ n) := by
  constructor
  · intro side
    obtain ⟨⟨past, rest, split, log, _script⟩, fine⟩ := (run.reached n).agrees side
    exact ⟨⟨past, rest, split, log⟩, fine⟩
  · exact run.finished_iff positive n

def fileAndAnswer : Conversation Message :=
  [(.left, .file abcTurn), (.right, .value ⟨.bool true, trivial⟩)]

theorem fileAndAnswer_finished :
    let codec := sessionCodec abcMd5 (Host.little .keyFirst) TypeCodes.consecutive
    Finished codec fileAndAnswer ((Schedule.any codec (fun _ => 1) fileAndAnswer).state 68) :=
  (conversation_finishes abcMd5 TypeCodes.consecutive fileAndAnswer
    (fun _ => Nat.one_pos) _ 68).2.mpr (by decide)

end Socketxx.FileSession
