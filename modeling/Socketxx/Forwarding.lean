import Socketxx.BinaryBlock
import Socketxx.SessionRetry

/-!
Values that are sent on: what an `i_*` method returned, from whatever bytes, goes to the
matching `o_*` method.

`i_var` builds only polyvars that `o_var` can write, so the copy is read as the same
value. It takes no more bytes than the value was read from, and a copy of the copy is the
same bytes: what the `o_*` methods write is a normal form of the stream.
-/

set_option autoImplicit false

namespace Socketxx.SimpleSocket

open StreamReader MessageCodec

/-! ### What `i_var` returns is valid -/

section Received

variable (host : Host) (codes : TypeCodes)

private theorem iSize_lt {stream rest : List UInt8} {size : Nat}
    (read : (BitVec.toNat <$> iInt host 8) stream = .ok (size, rest)) : size < 2 ^ 64 := by
  obtain ⟨num, _numRead, rfl⟩ := Reader.map_eq_ok.mp read
  exact num.isLt

variable (little : host.endianness = .littleEndian)

include little

private theorem iPair_valid {nested : Receive PolyTree}
    (inner : ∀ stream tree rest, nested stream = .ok (tree, rest) →
      ∃ word, stream = word ++ rest ∧ tree.Valid)
    (stream : List UInt8) (entry : CxxString × PolyTree) (rest : List UInt8)
    (read : iPair host nested stream = .ok (entry, rest)) :
    ∃ word, stream = word ++ rest ∧ entry.2.Valid := by
  rw [iPair] at read
  cases order : host.pairOrder with
  | keyFirst =>
      rw [order] at read
      obtain ⟨key, between, keyRead, later⟩ := Reader.bind_eq_ok.mp read
      obtain ⟨element, elementRead, rfl⟩ := Reader.map_eq_ok.mp later
      obtain ⟨header, rfl, _⟩ := iStr_economical host little keyRead
      obtain ⟨word, rfl, valid⟩ := inner between element rest elementRead
      exact ⟨header ++ word, (List.append_assoc ..).symm, valid⟩
  | valueFirst =>
      rw [order] at read
      obtain ⟨element, between, elementRead, later⟩ := Reader.bind_eq_ok.mp read
      obtain ⟨key, keyRead, rfl⟩ := Reader.map_eq_ok.mp later
      obtain ⟨word, rfl, valid⟩ := inner stream element between elementRead
      obtain ⟨header, rfl, _⟩ := iStr_economical host little keyRead
      exact ⟨word ++ header, (List.append_assoc ..).symm, valid⟩

private theorem iVarSwitch_valid {nested : Receive PolyTree}
    (inner : ∀ stream tree rest, nested stream = .ok (tree, rest) →
      ∃ word, stream = word ++ rest ∧ tree.Valid)
    (type : PolyType) (stream : List UInt8) (tree : PolyTree) (rest : List UInt8)
    (read : iVarSwitch host nested (some type) stream = .ok (tree, rest)) : tree.Valid := by
  cases type with
  | void =>
      cases read
      exact PolyTree.Valid.void
  | str =>
      obtain ⟨s, _sRead, rfl⟩ := Reader.map_eq_ok.mp read
      exact PolyTree.Valid.str s
  | float =>
      obtain ⟨f, _fRead, rfl⟩ := Reader.map_eq_ok.mp read
      exact PolyTree.Valid.float f
  | int =>
      obtain ⟨i, _iRead, rfl⟩ := Reader.map_eq_ok.mp read
      exact PolyTree.Valid.int i
  | char =>
      obtain ⟨c, _cRead, rfl⟩ := Reader.map_eq_ok.mp read
      exact PolyTree.Valid.char c
  | bool =>
      obtain ⟨b, _bRead, rfl⟩ := Reader.map_eq_ok.mp read
      exact PolyTree.Valid.bool b
  | list =>
      obtain ⟨size, between, sizeRead, later⟩ := Reader.bind_eq_ok.mp read
      obtain ⟨_unit, after, arrayRead, loop⟩ := Reader.bind_eq_ok.mp later
      obtain ⟨v, elementsRead, rfl⟩ := Reader.map_eq_ok.mp loop
      obtain ⟨pairs, rfl, rfl, _split, each⟩ := Reader.times_eq_ok inner elementsRead
      have fits := iSize_lt host sizeRead
      apply PolyTree.Valid.list
      · rwa [List.length_map]
      · exact List.forall_mem_map.mpr each
  | map =>
      obtain ⟨sz, between, sizeRead, loop⟩ := Reader.bind_eq_ok.mp read
      rw [iMapEntries_eq_insertAll] at loop
      obtain ⟨m, mapRead, rfl⟩ := Reader.map_eq_ok.mp loop
      obtain ⟨entries, entriesRead, rfl⟩ := Reader.map_eq_ok.mp mapRead
      obtain ⟨pairs, rfl, rfl, _split, each⟩ :=
        Reader.times_eq_ok (iPair_valid host little inner) entriesRead
      have fits := iSize_lt host sizeRead
      have kept := OrderedMap.insertAll_length_le (pairs.map Prod.fst)
      rw [List.length_map] at kept
      apply PolyTree.Valid.map
      · exact Nat.lt_of_le_of_lt kept fits
      · exact OrderedMap.insertAll_sorted _
      · intro entry member
        have inserted := OrderedMap.mem_of_mem_insertAll member
        obtain ⟨pair, listed, rfl⟩ := List.mem_map.mp inserted
        exact each pair listed

theorem iVarFuel_valid (fuel : Nat) (stream : List UInt8) (tree : PolyTree)
    (rest : List UInt8) (read : iVarFuel host codes fuel stream = .ok (tree, rest)) :
    ∃ word, stream = word ++ rest ∧ tree.Valid := by
  induction fuel generalizing stream tree rest with
  | zero => cases read
  | succ fuel ih =>
      obtain ⟨word, split, _⟩ :=
        iVarFuel_economical host codes little (fuel + 1) stream tree rest read
      obtain ⟨type, between, _, switched⟩ := iVarFuel_eq_ok host codes read
      exact ⟨word, split, iVarSwitch_valid host little ih type between tree rest switched⟩

end Received

private theorem iBin_ne_nil {host : Host} {stream rest : List UInt8} {block : List UInt8}
    (read : iBin host stream = .ok (some block, rest)) : block ≠ [] := by
  obtain ⟨len, between, lenRead, body⟩ := Reader.bind_eq_ok.mp read
  split at body
  · cases body
  · rename_i positive
    obtain ⟨_unit, after, _made, stored⟩ := Reader.bind_eq_ok.mp body
    obtain ⟨bytes, taken, same⟩ := Reader.map_eq_ok.mp stored
    obtain ⟨_split, size⟩ := Reader.take_eq_ok.mp taken
    cases same
    intro empty
    rw [empty] at size
    exact positive size.symm

/-! ### Sending on -/

def Received.send (host : Host) (codes : TypeCodes) : Received → List UInt8
  | .char byte => oChar byte
  | .bool b => oBool b
  | .int _ num => oInt host num
  | .float f => oFloat host f
  | .str text => oStr host text
  | .bin p => oBin host p
  | .var v => oVar host codes v

private theorem received_message (sender : Host) (codes : TypeCodes) {kind : Kind}
    {stream rest : List UInt8} {value : Received}
    (read : receive (Host.little .keyFirst) codes kind stream = .ok (value, rest)) :
    ∃ message : Message, message.kind = kind ∧ message.received = value ∧
      send sender codes message = value.send sender codes := by
  cases kind with
  | char =>
      obtain ⟨byte, _read, rfl⟩ := Reader.map_eq_ok.mp read
      exact ⟨.char byte, rfl, rfl, rfl⟩
  | bool =>
      obtain ⟨b, _read, rfl⟩ := Reader.map_eq_ok.mp read
      exact ⟨.bool b, rfl, rfl, rfl⟩
  | int width =>
      obtain ⟨num, _read, rfl⟩ := Reader.map_eq_ok.mp read
      exact ⟨.int width num, rfl, rfl, rfl⟩
  | float =>
      obtain ⟨f, _read, rfl⟩ := Reader.map_eq_ok.mp read
      exact ⟨.float f, rfl, rfl, rfl⟩
  | str =>
      obtain ⟨text, _read, rfl⟩ := Reader.map_eq_ok.mp read
      exact ⟨.str text, rfl, rfl, rfl⟩
  | bin =>
      obtain ⟨p, blockRead, rfl⟩ := Reader.map_eq_ok.mp read
      cases p with
      | none => exact ⟨.bin none, rfl, rfl, rfl⟩
      | some block =>
          refine ⟨.bin (some ⟨block, iBin_length_lt blockRead⟩), rfl, ?_, rfl⟩
          rw [Message.received, if_neg (iBin_ne_nil blockRead)]
  | var =>
      obtain ⟨tree, treeRead, rfl⟩ := Reader.map_eq_ok.mp read
      obtain ⟨_word, _split, valid⟩ := iVarFuel_valid _ codes rfl _ _ _ _ treeRead
      exact ⟨.var ⟨tree, valid⟩, rfl, rfl, rfl⟩

private theorem typedCodec_forwards (sender : Host) (codes : TypeCodes) :
    (typedCodec sender codes).Forwards (Received.send sender codes) := by
  intro kind stream value rest read
  obtain ⟨message, rfl, rfl, sent⟩ := received_message sender codes read
  have framed := receive_framed sender (Host.little .keyFirst) rfl (fun _ => rfl) rfl codes
    message
  rw [← sent]
  exact ⟨framed.decodes, receive_thrifty sender codes message stream rest read⟩

/-- The containers of a polyvar are as `o_var` takes them. -/
def Received.Valid : Received → Prop
  | .var v => v.Valid
  | _ => True

private theorem received_valid (codes : TypeCodes) (kind : Kind) (stream : List UInt8)
    (value : Received) (rest : List UInt8)
    (read : receive (Host.little .keyFirst) codes kind stream = .ok (value, rest)) :
    value.Valid := by
  cases kind with
  | var =>
      obtain ⟨tree, treeRead, rfl⟩ := Reader.map_eq_ok.mp read
      obtain ⟨_word, _split, valid⟩ := iVarFuel_valid _ codes rfl _ _ _ _ treeRead
      exact valid
  | _ =>
      obtain ⟨field, _read, rfl⟩ := Reader.map_eq_ok.mp read
      trivial

/-- Whatever the incoming bytes: the polyvars that are returned are valid, the values that
are read and sent on are read again behind the station, which sends no more bytes than it
got, and behind any number of further stations there are the bytes of the first one. -/
theorem forwarded_normal (sender : Host) (codes : TypeCodes) (kinds : List Kind)
    (stream rest : List UInt8) (hops : Nat) :
    let codec := typedCodec sender codes
    let station := codec.forwarded (Received.send sender codes) kinds
    let values := (codec.calls kinds stream).1
    (∀ value ∈ values, value.Valid) ∧
      codec.calls (kinds.take values.length) (station stream ++ rest) = (values, .ok rest) ∧
      (station stream).length ≤ stream.length ∧
      station^[hops + 1] stream = station stream := by
  have forwards := typedCodec_forwards sender codes
  exact ⟨Codec.calls_forall _ (received_valid codes) kinds stream,
    Codec.forwarded_read _ forwards kinds stream rest,
    Codec.forwarded_length _ forwards kinds stream,
    Codec.forwarded_iterate _ forwards kinds stream hops⟩

end Socketxx.SimpleSocket
