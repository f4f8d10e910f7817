import Socketxx.Library.MessageCodec
import Socketxx.PairOrder
import Socketxx.Session
import Socketxx.SslWrite

/-!
A typed session that ends early: because the connection is cut, or because a `_o` of the
sender throws. `base_fd::_o` and `base_socket::_o` write once and throw unless all of the
data was taken, so a field of several `_o` may go out in part.
-/

set_option autoImplicit false

namespace Socketxx.SimpleSocket

open StreamReader MessageCodec

/-! ### Every kind of message is read as a whole or not at all -/

section LittleEndianReceiver

variable (sender receiver : Host) (little : receiver.endianness = .littleEndian)
  (ample : ∀ size, receiver.alloc size = true)

include little ample

theorem iBin_framed (p : Option (List UInt8)) (size : (p.getD []).length < 2 ^ 32) :
    Reader.Framed .ioError (iBin receiver) (oBin sender p)
      (if p.getD [] = [] then none else p) := by
  have header := (iInt_oInt_framed sender receiver little
    (BitVec.ofNat (8 * 4) (p.getD []).length)).map BitVec.toNat
  rw [BitVec.toNat_ofNat, Nat.mod_eq_of_lt size] at header
  apply header.bind
  by_cases empty : p.getD [] = []
  · rw [empty]
    exact Reader.Framed.pure _ none
  · have positive : (p.getD []).length ≠ 0 :=
      fun zero => empty (List.length_eq_zero_iff.mp zero)
    rw [if_neg positive, if_neg empty, if_pos positive]
    cases p with
    | none => exact absurd rfl empty
    | some block =>
        have body := (iFixsize_framed block).map some
        exact Reader.Framed.nil_bind (newArray_decodes receiver block.length (ample _)) body

theorem receive_framed (keyFirst : receiver.pairOrder = .keyFirst) (codes : TypeCodes)
    (message : Message) :
    Reader.Framed .ioError (receive receiver codes message.kind)
      (send sender codes message) message.received := by
  cases message with
  | char byte => exact (iByte_framed byte).map Received.char
  | bool b => exact (iBool_framed b).map Received.bool
  | int width num =>
      exact (iInt_oInt_framed sender receiver little num).map (Received.int width)
  | float f => exact (iInt_oInt_framed sender receiver little f).map Received.float
  | str text => exact (iStr_framed sender receiver little text (ample _)).map Received.str
  | bin p =>
      cases p with
      | none =>
          exact (iBin_framed sender receiver little ample none (Nat.succ_pos _)).map
            Received.bin
      | some block =>
          exact (iBin_framed sender receiver little ample (some block.bytes)
            block.size_lt).map Received.bin
  | var v =>
      have listing := oVar_listing receiver codes keyFirst v.valid
      rw [← oVar_host receiver codes sender] at listing
      exact (listing.iVar_framed _ codes little v.valid (fun size _fits => ample size)).map
        Received.var

end LittleEndianReceiver

/-! ### The buffers of a message -/

def Message.Sized : Message → Prop
  | .int width _ => 0 < width
  | _ => True

abbrev SizedMessage := { message : Message // message.Sized }

mutual

def oVarWrites (host : Host) (codes : TypeCodes) : PolyTree → List (List UInt8)
  | .void => [oChar (codes.code .void)]
  | .str s => oChar (codes.code .str) :: SslWrite.oStrWrites host s
  | .float f => [oChar (codes.code .float), oFloat host f]
  | .int i => [oChar (codes.code .int), oInt host i]
  | .char c => [oChar (codes.code .char), oChar c]
  | .bool b => [oChar (codes.code .bool), oBool b]
  | .list v =>
      oChar (codes.code .list) :: oInt host (BitVec.ofNat (8 * 8) v.length) ::
        oVarElementsWrites host codes v
  | .map m =>
      oChar (codes.code .map) :: oInt host (BitVec.ofNat (8 * 8) m.length) ::
        oVarEntriesWrites host codes m

def oVarElementsWrites (host : Host) (codes : TypeCodes) :
    List PolyTree → List (List UInt8)
  | [] => []
  | element :: rest => oVarWrites host codes element ++ oVarElementsWrites host codes rest

def oVarEntriesWrites (host : Host) (codes : TypeCodes) :
    List (CxxString × PolyTree) → List (List UInt8)
  | [] => []
  | entry :: rest => oVarEntryWrites host codes entry ++ oVarEntriesWrites host codes rest

def oVarEntryWrites (host : Host) (codes : TypeCodes) :
    CxxString × PolyTree → List (List UInt8)
  | (key, element) => SslWrite.oStrWrites host key ++ oVarWrites host codes element

end

/-- The data of each `_o` of an `o_*` call. -/
def Message.writes (host : Host) (codes : TypeCodes) : Message → List (List UInt8)
  | .char byte => [oChar byte]
  | .bool b => [oBool b]
  | .int _ num => [oInt host num]
  | .float f => [oFloat host f]
  | .str text => SslWrite.oStrWrites host text
  | .bin p => SslWrite.oBinWrites host (p.map Block.bytes)
  | .var v => oVarWrites host codes v.tree

theorem oInt_ne_nil (host : Host) {width : Nat} (positive : 0 < width)
    (num : BitVec (8 * width)) : oInt host num ≠ [] := by
  intro nothing
  have size := oInt_length host num
  rw [nothing, List.length_nil] at size
  omega

theorem oStrWrites_spells (host : Host) (str : CxxString) :
    Spells (SslWrite.oStrWrites host str) (oStr host str) := by
  unfold SslWrite.oStrWrites oStr
  apply Spells.append
  · by_cases long : str.bytes.length > 254
    · rw [if_pos long, if_pos long]
      exact Spells.cons (List.cons_ne_nil _ _)
        (Spells.single (oInt_ne_nil host (Nat.succ_pos 7) _))
    · rw [if_neg long, if_neg long]
      exact Spells.single (List.cons_ne_nil _ _)
  · by_cases some : str.bytes.length ≠ 0
    · rw [if_pos some, if_pos some]
      exact Spells.single (fun empty => some (congrArg List.length empty))
    · rw [if_neg some, if_neg some]
      exact Spells.nil

theorem oBinWrites_spells (host : Host) (p : Option (List UInt8)) :
    Spells (SslWrite.oBinWrites host p) (oBin host p) := by
  apply Spells.cons (oInt_ne_nil host (Nat.succ_pos 3) _)
  by_cases some : (p.getD []).length ≠ 0
  · rw [if_pos some, if_pos some]
    exact Spells.single (fun empty => some (congrArg List.length empty))
  · rw [if_neg some, if_neg some]
    exact Spells.nil

section Buffers

variable (host : Host) (codes : TypeCodes)

theorem oChar_ne_nil (byte : UInt8) : oChar byte ≠ [] := List.cons_ne_nil byte []

theorem oBool_ne_nil (b : Bool) : oBool b ≠ [] := List.cons_ne_nil _ []

mutual

private theorem oVarWrites_spells :
    (tree : PolyTree) → Spells (oVarWrites host codes tree) (oVar host codes tree)
  | .void => by
      rw [oVarWrites, oVar]
      exact Spells.single (oChar_ne_nil _)
  | .str s => by
      rw [oVarWrites, oVar]
      exact Spells.cons (oChar_ne_nil _) (oStrWrites_spells host s)
  | .float f => by
      rw [oVarWrites, oVar]
      exact Spells.cons (oChar_ne_nil _) (Spells.single (oInt_ne_nil host (Nat.succ_pos 7) f))
  | .int i => by
      rw [oVarWrites, oVar]
      exact Spells.cons (oChar_ne_nil _) (Spells.single (oInt_ne_nil host (Nat.succ_pos 7) i))
  | .char c => by
      rw [oVarWrites, oVar]
      exact Spells.cons (oChar_ne_nil _) (Spells.single (oChar_ne_nil c))
  | .bool b => by
      rw [oVarWrites, oVar]
      exact Spells.cons (oChar_ne_nil _) (Spells.single (oBool_ne_nil b))
  | .list v => by
      rw [oVarWrites, oVar]
      exact Spells.cons (oChar_ne_nil _)
        (Spells.cons (oInt_ne_nil host (Nat.succ_pos 7) _) (oVarElementsWrites_spells v))
  | .map m => by
      rw [oVarWrites, oVar]
      exact Spells.cons (oChar_ne_nil _)
        (Spells.cons (oInt_ne_nil host (Nat.succ_pos 7) _) (oVarEntriesWrites_spells m))

theorem oVarElementsWrites_spells : (v : List PolyTree) →
    Spells (oVarElementsWrites host codes v) (oVarElements host codes v)
  | [] => by
      rw [oVarElementsWrites, oVarElements]
      exact Spells.nil
  | element :: rest => by
      rw [oVarElementsWrites, oVarElements]
      exact (oVarWrites_spells element).append (oVarElementsWrites_spells rest)

theorem oVarEntriesWrites_spells : (m : List (CxxString × PolyTree)) →
    Spells (oVarEntriesWrites host codes m) (oVarEntries host codes m)
  | [] => by
      rw [oVarEntriesWrites, oVarEntries]
      exact Spells.nil
  | entry :: rest => by
      rw [oVarEntriesWrites, oVarEntries]
      exact (oVarEntryWrites_spells entry).append (oVarEntriesWrites_spells rest)

theorem oVarEntryWrites_spells : (entry : CxxString × PolyTree) →
    Spells (oVarEntryWrites host codes entry) (oVarEntry host codes entry)
  | (key, element) => by
      rw [oVarEntryWrites, oVarEntry]
      exact (oStrWrites_spells host key).append (oVarWrites_spells element)

end

theorem writes_spells (message : SizedMessage) :
    Spells (message.1.writes host codes) (send host codes message.1) := by
  obtain ⟨message, sized⟩ := message
  cases message with
  | char byte => exact Spells.single (oChar_ne_nil byte)
  | bool b => exact Spells.single (oBool_ne_nil b)
  | int width num => exact Spells.single (oInt_ne_nil host sized num)
  | float f => exact Spells.single (oInt_ne_nil host (Nat.succ_pos 7) f)
  | str text => exact oStrWrites_spells host text
  | bin p => exact oBinWrites_spells host (p.map Block.bytes)
  | var v => exact oVarWrites_spells host codes v.tree

private theorem oStr_ne_nil (str : CxxString) : oStr host str ≠ [] := by
  rw [oStr_eq_append, oStrLength]
  split
  · exact List.cons_ne_nil _ _
  · exact List.cons_ne_nil _ _

theorem send_ne_nil (message : SizedMessage) : send host codes message.1 ≠ [] := by
  obtain ⟨message, sized⟩ := message
  cases message with
  | char byte => exact oChar_ne_nil byte
  | bool b => exact oBool_ne_nil b
  | int width num => exact oInt_ne_nil host sized num
  | float f => exact oInt_ne_nil host (Nat.succ_pos 7) f
  | str text => exact oStr_ne_nil host text
  | bin p =>
      exact List.append_ne_nil_of_left_ne_nil (oInt_ne_nil host (Nat.succ_pos 3) _) _
  | var v => exact List.length_pos_iff.mp (oVar_length_pos host codes v.tree)

end Buffers

/-- The typed messages between a sender of any build and a little-endian receiver. -/
def typedCodec (sender : Host) (codes : TypeCodes) :
    Codec UInt8 Exception Fault SizedMessage Kind Received where
  encode message := send sender codes message.1
  kind message := message.1.kind
  value message := message.1.received
  reader := receive (Host.little .keyFirst) codes
  short := .ioError
  nonempty := send_ne_nil sender codes
  framed message := receive_framed sender _ rfl (fun _ => rfl) rfl codes message.1

/-! ### `_o` -/

/-- What `write` and `send` answer: -1, or how many bytes they take. -/
abbrev Taken := Option Nat

def Taken.result (taken : Taken) (data : List UInt8) : Int :=
  match taken with
  | none => -1
  | some count => min count data.length

def Taken.out (taken : Taken) (data : List UInt8) : List UInt8 := data.take (taken.getD 0)

/-- `base_fd::_o`; `base_pipe::_o` is the same at the writing end. -/
def fdWrite : Write UInt8 Taken := fun data taken =>
  (!decide (taken.result data ≠ data.length), taken.out data)

def socketWrite : Write UInt8 Taken := fun data taken =>
  (!decide (taken.result data < data.length), taken.out data)

private theorem Taken.result_le (taken : Taken) (data : List UInt8) :
    taken.result data ≤ data.length := by
  cases taken with
  | none => simp only [result]; omega
  | some count => exact Int.min_le_right _ _

/-- The two comparisons tell the same results apart. -/
theorem fdWrite_eq_socketWrite : fdWrite = socketWrite := by
  funext data taken
  have le := taken.result_le data
  rw [fdWrite, socketWrite]
  congr 2
  rw [decide_eq_decide]
  omega

theorem socketWrite_honest {data : List UInt8} (nonempty : data ≠ []) :
    Honest socketWrite data where
  beginning taken := List.take_prefix _ _
  returns_iff taken := by
    have positive := List.length_pos_iff.mpr nonempty
    rw [socketWrite, Bool.not_eq_true', decide_eq_false_iff_not, Taken.out,
      List.take_eq_self_iff]
    cases taken with
    | none => simp only [Taken.result, Option.getD_none]; omega
    | some count => simp only [Taken.result, Option.getD_some]; omega

/-! ### Sessions that end early -/

/-- However many bytes of a session arrive, the receiver gets the values of the messages
that are there as a whole, and an `io_error` for the next one. -/
theorem receive_cut (sender : Host) (codes : TypeCodes) (messages : List SizedMessage)
    (size : Nat) :
    (typedCodec sender codes).calls (messages.map (fun message => message.1.kind))
        ((sendAll sender codes (messages.map Subtype.val)).take size) =
      ((messages.take ((typedCodec sender codes).complete messages size)).map
          (fun message => message.1.received),
        if (sendAll sender codes (messages.map Subtype.val)).length ≤ size then .ok []
        else .throw .ioError) := by
  have whole : sendAll sender codes (messages.map Subtype.val) =
      (typedCodec sender codes).encodeAll messages := List.flatMap_map ..
  rw [whole]
  exact (typedCodec sender codes).calls_take messages size

end Socketxx.SimpleSocket
