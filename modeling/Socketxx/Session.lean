import Socketxx.PolyvarListing

/-!
A typed session: the sender calls one `o_*` method after the other, the receiver calls
the matching `i_*` methods in the same order.
-/

set_option autoImplicit false

namespace Socketxx.SimpleSocket

open StreamReader

/-- A buffer `o_bin` can describe: its length fits the 32-bit header. -/
structure Block where
  bytes : List UInt8
  size_lt : bytes.length < 2 ^ 32

inductive Message where
  | char (byte : UInt8)
  | bool (b : Bool)
  | int (width : Nat) (num : BitVec (8 * width))
  | float (f : BitVec (8 * 8))
  | str (str : CxxString)
  | bin (p : Option Block)
  | var (v : Polyvar)

inductive Kind where
  | char
  | bool
  | int (width : Nat)
  | float
  | str
  | bin
  | var

inductive Received where
  | char (byte : UInt8)
  | bool (b : Bool)
  | int (width : Nat) (num : BitVec (8 * width))
  | float (f : BitVec (8 * 8))
  | str (str : CxxString)
  | bin (p : Option (List UInt8))
  | var (v : PolyTree)

def Message.kind : Message → Kind
  | .char _ => .char
  | .bool _ => .bool
  | .int width _ => .int width
  | .float _ => .float
  | .str _ => .str
  | .bin _ => .bin
  | .var _ => .var

/-- The value itself; an empty block comes out as `NULL`. -/
def Message.received : Message → Received
  | .char byte => .char byte
  | .bool b => .bool b
  | .int width num => .int width num
  | .float f => .float f
  | .str text => .str text
  | .bin none => .bin none
  | .bin (some block) => .bin (if block.bytes = [] then none else some block.bytes)
  | .var v => .var v.tree

def send (host : Host) (codes : TypeCodes) : Message → List UInt8
  | .char byte => oChar byte
  | .bool b => oBool b
  | .int _ num => oInt host num
  | .float f => oFloat host f
  | .str text => oStr host text
  | .bin p => oBin host (p.map Block.bytes)
  | .var v => oVar host codes v.tree

def receive (host : Host) (codes : TypeCodes) : Kind → Receive Received
  | .char => .char <$> iChar
  | .bool => .bool <$> iBool
  | .int width => .int width <$> iInt host width
  | .float => .float <$> iFloat host
  | .str => .str <$> iStr host
  | .bin => .bin <$> iBin host
  | .var => .var <$> iVar host codes

def sendAll (host : Host) (codes : TypeCodes) (messages : List Message) : List UInt8 :=
  messages.flatMap (send host codes)

def receiveAll (host : Host) (codes : TypeCodes) : List Kind → Receive (List Received)
  | [] => pure []
  | kind :: rest => do
      let head ← receive host codes kind
      let tail ← receiveAll host codes rest
      pure (head :: tail)

private theorem receive_decodes (senderOrder : PairOrder) (codes : TypeCodes) (message : Message) :
    Reader.Decodes (receive (Host.little .keyFirst) codes message.kind)
      (send (Host.little senderOrder) codes message) message.received := by
  let sender := Host.little senderOrder
  let receiver := Host.little .keyFirst
  have ample : ∀ size, receiver.alloc size = true := fun _ => rfl
  cases message with
  | char byte => exact (iByte_decodes byte).map Received.char
  | bool b => exact (iBool_decodes b).map Received.bool
  | int width num =>
      exact (iInt_oInt_decodes sender receiver rfl num).map (Received.int width)
  | float f => exact (iInt_oInt_decodes sender receiver rfl f).map Received.float
  | str text => exact (iStr_decodes sender receiver rfl ample text).map Received.str
  | bin p =>
      cases p with
      | none =>
          exact (iBin_decodes sender receiver rfl ample none (Nat.succ_pos _)).map Received.bin
      | some block =>
          exact (iBin_decodes sender receiver rfl ample (some block.bytes)
            block.size_lt).map Received.bin
  | var v =>
      have listing := oVar_listing receiver codes rfl v.valid
      rw [← oVar_host receiver codes sender] at listing
      exact (listing.iVar_decodes receiver codes rfl ample v.valid).map Received.var

/-- The receiver gets the sequence of values that was sent, and what follows on the
stream is left untouched. -/
theorem receiveAll_sendAll (senderOrder : PairOrder) (codes : TypeCodes)
    (messages : List Message) (rest : List UInt8) :
    receiveAll (Host.little .keyFirst) codes (messages.map Message.kind)
        (sendAll (Host.little senderOrder) codes messages ++ rest) =
      .ok (messages.map Message.received, rest) := by
  have session : Reader.Decodes
      (receiveAll (Host.little .keyFirst) codes (messages.map Message.kind))
      (sendAll (Host.little senderOrder) codes messages)
      (messages.map Message.received) := by
    induction messages with
    | nil => exact Reader.Decodes.pure []
    | cons message later ih =>
        exact (receive_decodes senderOrder codes message).bind (ih.map (message.received :: ·))
  exact session rest

end Socketxx.SimpleSocket
