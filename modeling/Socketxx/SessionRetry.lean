import Socketxx.FixedRead
import Socketxx.SessionCut

/-!
A typed session with a read timeout. A `recv` that waits for all of its bytes and times
out has taken those that were there: `_i_fixsize` throws, and they are lost. A receiver
that makes the same call again goes on with what arrives later.
-/

set_option autoImplicit false

namespace Socketxx.SimpleSocket

open StreamReader MessageCodec

/-! ### The strict read when its burst ends -/

/-- The answer of a `recv` that waits for all, to the end of a burst. -/
def timedAnswer (burst : List UInt8) : FixedRead.Answer :=
  if burst = [] then .error else .ready burst.length

theorem timedAnswer_data (len : Nat) (burst later : List UInt8) :
    (timedAnswer burst).data len (burst ++ later) = burst.take len := by
  unfold timedAnswer
  split
  · rename_i empty
    rw [empty, FixedRead.Answer.data, List.take_nil]
  · rw [FixedRead.Answer.data, Int.toNat_natCast,
      List.take_append_of_le_length (Nat.min_le_left _ _), List.take_eq_take_min,
      Nat.min_right_comm, Nat.min_self, Nat.min_comm, ← List.take_eq_take_min]

private theorem timedAnswer_result {len : Nat} (some : 0 < len) (burst later : List UInt8) :
    (timedAnswer burst).result len (burst ++ later) < len ↔ burst.length < len := by
  have data := timedAnswer_data len burst later
  unfold timedAnswer at data ⊢
  split
  · rename_i empty
    simp only [FixedRead.Answer.result, empty, List.length_nil]
    omega
  · rename_i nonempty
    rw [if_neg nonempty] at data
    rw [FixedRead.Answer.result, if_neg (by omega), data, List.length_take]
    omega

theorem iFixsize_burst (len : UInt64) (burst later : List UInt8)
    (answers : List FixedRead.Answer) (some : 0 < len.toNat) :
    let read := FixedRead.socketFixsizeWaitall len
      ⟨burst ++ later, timedAnswer burst :: answers⟩
    iFixsize len.toNat burst =
        (if read.ending = .returned then .ok (read.stored, burst.drop len.toNat)
        else .throw .ioError) ∧
      read.left.stream = burst.drop len.toNat ++ later := by
  have data := timedAnswer_data len.toNat burst later
  have result := timedAnswer_result some burst later
  rw [iFixsize, Reader.take]
  by_cases enough : len.toNat ≤ burst.length
  · have size : (burst.take len.toNat).length = len.toNat := List.length_take_of_le enough
    have ready : ¬ (timedAnswer burst).result len.toNat (burst ++ later) < len.toNat := by
      rw [result]
      omega
    simp only [FixedRead.socketFixsizeWaitall, data, ready, enough, if_true, if_false, size,
      List.drop_append_of_le_length enough, and_self]
  · have size : (burst.take len.toNat).length = burst.length := by
      rw [List.length_take]
      omega
    have short : (timedAnswer burst).result len.toNat (burst ++ later) < len.toNat := by
      rw [result]
      omega
    simp only [FixedRead.socketFixsizeWaitall, data, short, enough, if_true, if_false, size,
      List.drop_left, List.drop_of_length_le (Nat.le_of_not_le enough), reduceCtorEq,
      List.nil_append, and_self]

/-! ### What a message takes -/

private theorem iBin_length {host : Host} {stream rest : List UInt8} {p : Option (List UInt8)}
    (read : iBin host stream = .ok (p, rest)) :
    4 + (p.getD []).length + rest.length ≤ stream.length := by
  obtain ⟨len, between, header, body⟩ := Reader.bind_eq_ok.mp read
  have headerTaken := (iInt_consumes host 4).map BitVec.toNat _ _ _ header
  split at body
  · cases body
    simp only [Option.getD_none, List.length_nil]
    omega
  · obtain ⟨_unit, after, made, stored⟩ := Reader.bind_eq_ok.mp body
    obtain ⟨block, blockRead, same⟩ := Reader.map_eq_ok.mp stored
    obtain ⟨rfl, size⟩ := Reader.take_eq_ok.mp blockRead
    obtain ⟨_room, rfl⟩ := newArray_eq_ok made
    cases same
    rw [List.length_append] at headerTaken
    simp only [Option.getD_some]
    omega

private theorem oBin_length (host : Host) (p : Option (List UInt8)) :
    (oBin host p).length = 4 + (p.getD []).length := by
  rw [oBin, List.length_append, oInt_length]
  split
  · rfl
  · rename_i none
    rw [not_not.mp none]
    rfl

theorem receive_thrifty (sender : Host) (codes : TypeCodes) (message : Message)
    (stream rest : List UInt8)
    (read : receive (Host.little .keyFirst) codes message.kind stream =
      .ok (message.received, rest)) :
    (send sender codes message).length + rest.length ≤ stream.length := by
  have little : (Host.little .keyFirst).endianness = .littleEndian := rfl
  cases message with
  | char byte =>
      have taken := iByte_consumes.map Received.char _ _ _ read
      exact (Nat.add_comm _ _).trans_le taken
  | bool b =>
      have taken := iBool_consumes.map Received.bool _ _ _ read
      exact (Nat.add_comm _ _).trans_le taken
  | int width num =>
      have taken := (iInt_consumes _ width).map (Received.int width) _ _ _ read
      have size := oInt_length sender num
      exact (Nat.add_comm _ _).trans_le (size.symm ▸ taken)
  | float f =>
      have taken := (iInt_consumes _ 8).map Received.float _ _ _ read
      have size := oInt_length sender f
      exact (Nat.add_comm _ _).trans_le (size.symm ▸ taken)
  | str text =>
      obtain ⟨str, strRead, same⟩ := Reader.map_eq_ok.mp read
      cases same
      obtain ⟨word, rfl, long, _⟩ := iStr_economical _ little strRead
      rw [← oStr_host _ sender] at long
      rw [List.length_append]
      exact Nat.add_le_add_right long _
  | bin p =>
      obtain ⟨block, blockRead, same⟩ := Reader.map_eq_ok.mp read
      have taken := iBin_length blockRead
      have size := oBin_length sender (p.map Block.bytes)
      have whole : (block.getD []).length = ((p.map Block.bytes).getD []).length := by
        cases p with
        | none =>
            cases same
            rfl
        | some sent =>
            cases same
            by_cases empty : sent.bytes = []
            · rw [if_pos empty, Option.map_some, Option.getD_some, empty]
              rfl
            · rw [if_neg empty]
              rfl
      rw [← whole] at size
      exact size.symm ▸ taken
  | var v =>
      obtain ⟨tree, treeRead, same⟩ := Reader.map_eq_ok.mp read
      cases same
      obtain ⟨word, rfl, long, _⟩ := iVarFuel_economical _ codes little _ _ _ _ treeRead
      rw [← oVar_host _ codes sender] at long
      rw [List.length_append]
      exact Nat.add_le_add_right long _

private theorem typedCodec_thrifty (sender : Host) (codes : TypeCodes) :
    (typedCodec sender codes).Thrifty :=
  fun message => receive_thrifty sender codes message.1

/-! ### Sessions with pauses -/

/-- The bytes of a session come in bursts, between which the reads of the receiver time
out. With every call made again it gets exactly the values that were sent if and only if
no pause falls inside a message. -/
theorem receive_retry_iff (sender : Host) (codes : TypeCodes) (messages : List SizedMessage)
    (bursts : List (List UInt8))
    (sent : bursts.flatten = sendAll sender codes (messages.map Subtype.val)) :
    (typedCodec sender codes).retry (messages.map (fun message => message.1.kind)) bursts =
        messages.map (fun message => message.1.received) ↔
      ∃ groups : List (List SizedMessage), groups.flatten = messages ∧
        groups.map (fun group => sendAll sender codes (group.map Subtype.val)) = bursts := by
  have whole : (fun group : List SizedMessage => sendAll sender codes (group.map Subtype.val)) =
      (typedCodec sender codes).encodeAll := by
    funext group
    exact List.flatMap_map ..
  have session : sendAll sender codes (messages.map Subtype.val) =
      (typedCodec sender codes).encodeAll messages := congrFun whole messages
  rw [session] at sent
  rw [whole]
  exact (typedCodec sender codes).retry_iff (typedCodec_thrifty sender codes) messages bursts sent

theorem receive_retry_paused :
    (typedCodec (Host.little .keyFirst) TypeCodes.consecutive).retry [.bool, .str]
        [[1], [2, 97, 98]] = [.bool true, .str ⟨[97, 98], by decide⟩] :=
  (receive_retry_iff (Host.little .keyFirst) TypeCodes.consecutive
    [⟨.bool true, trivial⟩, ⟨.str ⟨[97, 98], by decide⟩, trivial⟩] [[1], [2, 97, 98]] rfl).mpr
    ⟨[[⟨.bool true, trivial⟩], [⟨.str ⟨[97, 98], by decide⟩, trivial⟩]], rfl, rfl⟩

/-- A pause in the string: its length is lost, and its bytes are read as another length. -/
example : (typedCodec (Host.little .keyFirst) TypeCodes.consecutive).retry [.bool, .str]
    [[1, 2], [97, 98]] = [.bool true] := rfl

end Socketxx.SimpleSocket
