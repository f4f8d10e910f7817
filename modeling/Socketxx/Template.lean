import Socketxx.Library.ReadProgram
import Socketxx.SessionCut

/-!
`simple_socket<io_base>` as a template: what its read methods do with the `_i_fixsize` of
any `io_base`, and with the blocks they make.

A `std::string`, a vector and the nodes of a map give their memory back by themselves; the
blocks of `i_str` and of `i_bin` are made with `new` and have to be given back.
-/

set_option autoImplicit false

namespace Socketxx.SimpleSocket.Template

open StreamReader ReadProgram

abbrev Method (α : Type) := ReadProgram UInt8 Exception Fault α

def iFixsize (len : Nat) : Method (List UInt8) := ReadProgram.strict len

def iByte : Method UInt8 := (fun bytes => bytes.headD 0) <$> iFixsize 1

def iChar : Method UInt8 := iByte

def iBool : Method Bool := do
  let byte ← iByte
  if byte = 0 then pure false
  else if byte = 1 then pure true
  else .undefined .badBool

def iInt (host : Host) (width : Nat) : Method (BitVec (8 * width)) :=
  host.endianness.ofMemory width <$> iFixsize width

def iFloat (host : Host) : Method (BitVec (8 * 8)) := iInt host 8

def iStrLength (host : Host) : Method Nat := do
  let strLen8 ← iByte
  if strLen8 = 255 then BitVec.toNat <$> iInt host 8 else pure strLen8.toNat

def makeString (str : List UInt8) : Method CxxString :=
  .room str.length fun granted =>
    if granted then
      if fits : str.length < 2 ^ 64 then .done ⟨str, fits⟩ else .throw .lengthError
    else .throw .badAlloc

def newArray {α : Type} (size : Nat) (next : Nat → Method α) : Method α :=
  .new size fun
    | none => .throw .badAlloc
    | some block => next block

/-- The handler is there for the strict read only. -/
def iStr (host : Host) : Method CxxString := do
  let strLen64 ← iStrLength host
  if strLen64 = 0 then pure CxxString.empty
  else
    newArray strLen64 fun block =>
      .read strLen64 fun
        | .error error => .free block (.throw error)
        | .ok str => do
            let finalstr ← makeString str
            .free block (.done finalstr)

/-- The pointer that `i_bin(len)` returns, with the bytes behind it. -/
structure Handed where
  block : Nat
  bytes : List UInt8

/-- There is no handler here. -/
def iBin (host : Host) : Method (Option Handed) := do
  let len ← BitVec.toNat <$> iInt host 4
  if len = 0 then pure none
  else
    newArray len fun p => do
      let bytes ← iFixsize len
      pure (some ⟨p, bytes⟩)

def iPair (host : Host) (nested : Method PolyTree) : Method (CxxString × PolyTree) :=
  match host.pairOrder with
  | .keyFirst => do
      let key ← iStr host
      let element ← nested
      pure (key, element)
  | .valueFirst => do
      let element ← nested
      let key ← iStr host
      pure (key, element)

def iMapEntries (host : Host) (nested : Method PolyTree) :
    Nat → List (CxxString × PolyTree) → Method (List (CxxString × PolyTree))
  | 0, m => pure m
  | sz + 1, m => do
      let entry ← iPair host nested
      iMapEntries host nested sz (OrderedMap.insert entry m)

def makeVector (host : Host) (size : Nat) : Method Unit :=
  .room size fun granted =>
    if granted then .done ()
    else if size ≤ host.maxSize then .throw .badAlloc
    else .throw .lengthError

def iVarSwitch (host : Host) (nested : Method PolyTree) : Option PolyType → Method PolyTree
  | some .void => pure .void
  | some .str => .str <$> iStr host
  | some .float => .float <$> iFloat host
  | some .int => .int <$> iInt host 8
  | some .char => .char <$> iChar
  | some .bool => .bool <$> iBool
  | some .list => do
      let size ← BitVec.toNat <$> iInt host 8
      makeVector host size
      .list <$> ReadProgram.times nested size
  | some .map => do
      let sz ← BitVec.toNat <$> iInt host 8
      .map <$> iMapEntries host nested sz []
  | none => .undefined .missingReturn

/-- The recursion of `i_var`, which has no bound in the source. -/
def iVar (host : Host) (codes : TypeCodes) : Nat → Method PolyTree
  | 0 => .running
  | fuel + 1 => do
      let t ← iChar
      iVarSwitch host (iVar host codes fuel) (codes.typeOf t)

/-- What a call gives its caller: a block that the caller has to give back, and a value. -/
structure Given where
  block : Option Nat
  value : Received

def Given.plain (value : Received) : Given := ⟨none, value⟩

def Given.bin (p : Option Handed) : Given := ⟨p.map Handed.block, .bin (p.map Handed.bytes)⟩

def receive (host : Host) (codes : TypeCodes) (fuel : Nat) : Kind → Method Given
  | .char => (fun byte => .plain (.char byte)) <$> iChar
  | .bool => (fun b => .plain (.bool b)) <$> iBool
  | .int width => (fun num => .plain (.int width num)) <$> iInt host width
  | .float => (fun f => .plain (.float f)) <$> iFloat host
  | .str => (fun str => .plain (.str str)) <$> iStr host
  | .bin => Given.bin <$> iBin host
  | .var => (fun v => .plain (.var v)) <$> iVar host codes fuel

/-! ### Over an exact `_i_fixsize` the template is the reader -/

section Readers

abbrev Same {α : Type} (method : Method α) (reader : Receive α) : Prop :=
  Agrees .ioError method id reader

theorem iByte_same : Same iByte SimpleSocket.iByte := (Agrees.strict 1).map (fun _ => rfl)

theorem iBool_same : Same iBool SimpleSocket.iBool := by
  apply iByte_same.bind
  intro byte
  by_cases zero : byte = 0
  · rw [if_pos zero]
    simp only [id, if_pos zero]
    exact Agrees.done false
  · rw [if_neg zero]
    simp only [id, if_neg zero]
    by_cases one : byte = 1
    · rw [if_pos one, if_pos one]
      exact Agrees.done true
    · rw [if_neg one, if_neg one]
      exact Agrees.undefined Fault.badBool

variable (host : Host)

theorem iInt_same (width : Nat) : Same (iInt host width) (SimpleSocket.iInt host width) :=
  (Agrees.strict width).map (fun _ => rfl)

theorem iSize_same (width : Nat) :
    Same (BitVec.toNat <$> iInt host width) (BitVec.toNat <$> SimpleSocket.iInt host width) :=
  (iInt_same host width).map (fun _ => rfl)

private theorem iStrLength_same : Same (iStrLength host) (SimpleSocket.iStrLength host) := by
  apply iByte_same.bind
  intro strLen8
  by_cases long : strLen8 = 255
  · simp only [id, if_pos long]
    exact iSize_same host 8
  · simp only [id, if_neg long]
    exact Agrees.done _

private theorem makeString_same (str : List UInt8) :
    Same (makeString str) (SimpleSocket.makeString str) := by
  apply Agrees.room
  rw [if_pos rfl, SimpleSocket.makeString]
  by_cases fits : str.length < 2 ^ 64
  · rw [dif_pos fits, dif_pos fits]
    exact Agrees.done _
  · rw [dif_neg fits, dif_neg fits]
    exact Agrees.throw Exception.lengthError

variable {host} (ample : ∀ size, host.alloc size = true)

include ample

theorem newArray_same {α γ : Type} {f : α → γ} {size : Nat} {next : Nat → Method α}
    {reader : Receive γ} (granted : ∀ block, Agrees .ioError (next block) f reader) :
    Agrees .ioError (newArray size next) f
      (SimpleSocket.newArray host size >>= fun _ => reader) := by
  rw [SimpleSocket.newArray, if_pos (ample size)]
  exact Agrees.new granted

theorem iStr_same : Same (iStr host) (SimpleSocket.iStr host) := by
  apply (iStrLength_same host).bind
  intro strLen64
  by_cases empty : strLen64 = 0
  · simp only [id, if_pos empty]
    exact Agrees.done CxxString.empty
  · simp only [id, if_neg empty]
    apply newArray_same ample
    intro block
    apply Agrees.read
    · intro str _size
      rw [← reader_bind_pure (SimpleSocket.makeString str)]
      exact (makeString_same str).bind (fun finalstr => Agrees.free (Agrees.done finalstr))
    · exact Agrees.free (Agrees.throw Exception.ioError)

private theorem iBin_agrees :
    Agrees .ioError (iBin host) (fun p => p.map Handed.bytes) (SimpleSocket.iBin host) := by
  apply (iSize_same host 4).bind
  intro len
  by_cases empty : len = 0
  · simp only [id, if_pos empty]
    exact Agrees.done none
  · simp only [id, if_neg empty]
    apply newArray_same ample
    intro block
    apply (Agrees.strict len).bind
    exact fun bytes => Agrees.done (some (Handed.mk block bytes))

variable {nested : Method PolyTree} {reader : Receive PolyTree} (inner : Same nested reader)

include inner

private theorem iPair_same : Same (iPair host nested) (SimpleSocket.iPair host reader) := by
  have key := iStr_same ample
  rw [iPair, SimpleSocket.iPair]
  cases host.pairOrder with
  | keyFirst => exact key.bind (fun _ => inner.bind (fun _ => Agrees.done _))
  | valueFirst => exact inner.bind (fun _ => key.bind (fun _ => Agrees.done _))

private theorem iMapEntries_same (sz : Nat) (m : List (CxxString × PolyTree)) :
    Same (iMapEntries host nested sz m) (SimpleSocket.iMapEntries host reader sz m) := by
  induction sz generalizing m with
  | zero => exact Agrees.done m
  | succ sz ih =>
      exact (iPair_same ample inner).bind (fun entry => ih (OrderedMap.insert entry m))

private theorem iVarSwitch_same (type : Option PolyType) :
    Same (iVarSwitch host nested type) (SimpleSocket.iVarSwitch host reader type) := by
  cases type with
  | none => exact Agrees.undefined Fault.missingReturn
  | some type =>
      cases type with
      | void => exact Agrees.done PolyTree.void
      | str => exact (iStr_same ample).map (fun _ => rfl)
      | float => exact (iInt_same host 8).map (fun _ => rfl)
      | int => exact (iInt_same host 8).map (fun _ => rfl)
      | char => exact iByte_same.map (fun _ => rfl)
      | bool => exact iBool_same.map (fun _ => rfl)
      | list =>
          apply (iSize_same host 8).bind
          intro size
          have vector : Same (makeVector host size) (SimpleSocket.newVector host size) := by
            rw [SimpleSocket.newVector, if_pos (ample size)]
            exact Agrees.room (Agrees.done ())
          exact vector.bind (fun _ => (inner.times size).map (fun _ => rfl))
      | map =>
          apply (iSize_same host 8).bind
          intro sz
          exact (iMapEntries_same ample inner sz []).map (fun _ => rfl)

omit inner

private theorem iVar_same (codes : TypeCodes) (fuel : Nat) :
    Same (iVar host codes fuel) (iVarFuel host codes fuel) := by
  induction fuel with
  | zero => exact Agrees.running
  | succ fuel ih =>
      exact iByte_same.bind (fun t => iVarSwitch_same ample ih (codes.typeOf t))

def receiveFuel (host : Host) (codes : TypeCodes) (fuel : Nat) : Kind → Receive Received
  | .var => .var <$> iVarFuel host codes fuel
  | kind => SimpleSocket.receive host codes kind

theorem receive_agrees (codes : TypeCodes) (fuel : Nat) (kind : Kind) :
    Agrees .ioError (receive host codes fuel kind) Given.value
      (receiveFuel host codes fuel kind) := by
  cases kind with
  | char => exact iByte_same.map (fun _ => rfl)
  | bool => exact iBool_same.map (fun _ => rfl)
  | int width => exact (iInt_same host width).map (fun _ => rfl)
  | float => exact (iInt_same host 8).map (fun _ => rfl)
  | str => exact (iStr_same ample).map (fun _ => rfl)
  | bin => exact (iBin_agrees ample).map (fun _ => rfl)
  | var => exact (iVar_same ample codes fuel).map (fun _ => rfl)

end Readers

/-! ### The strict reads of a receiver are the writes of a sender -/

theorem iByte_spelled (byte : UInt8) : Spelled (· = byte) iByte [[byte]] := by
  apply (Spelled.strict [byte]).map
  rintro _ rfl
  rfl

theorem iBool_spelled (b : Bool) : Spelled (· = b) iBool [oBool b] := by
  cases b with
  | false =>
      apply (iByte_spelled 0).bind_nil
      rintro _ rfl
      exact .done rfl
  | true =>
      apply (iByte_spelled 1).bind_nil
      rintro _ rfl
      exact .done rfl

private theorem makeString_spelled (str : CxxString) : Spelled (· = str)
    (makeString str.bytes) [] := by
  apply Spelled.room
  rw [if_pos rfl, dif_pos str.size_lt]
  exact .done rfl

/-- The type byte, and what is read for it. -/
private theorem iVar_code_spelled {receiver : Host} {codes : TypeCodes} {fuel : Nat}
    {type : PolyType}
    {tree : PolyTree} {pieces : List (List UInt8)}
    (switch : Spelled (· = tree) (iVarSwitch receiver (iVar receiver codes fuel) (some type))
      pieces) :
    Spelled (· = tree) (iVar receiver codes (fuel + 1)) (oChar (codes.code type) :: pieces) := by
  change Spelled _ _ ([[codes.code type]] ++ pieces)
  apply (iByte_spelled _).bind
  rintro _ rfl
  rw [codes.typeOf_code]
  exact switch

section Spelling

variable (sender receiver : Host) (little : receiver.endianness = .littleEndian)

include little

theorem iInt_spelled {width : Nat} (num : BitVec (8 * width)) :
    Spelled (· = num) (iInt receiver width) [oInt sender num] := by
  have read : Spelled (· = oInt sender num) (iFixsize (oInt sender num).length)
      [oInt sender num] := Spelled.strict _
  rw [oInt_length] at read
  apply read.map
  rintro _ rfl
  rw [oInt_eq_bytesOf, little, Endianness.ofMemory, FixedWidth.patternOf_bytesOf]

theorem iSize_spelled {size : Nat} (fits : size < 2 ^ 64) :
    Spelled (· = size) (BitVec.toNat <$> iInt receiver 8)
      [oInt sender (BitVec.ofNat (8 * 8) size)] := by
  apply (iInt_spelled sender receiver little _).map
  rintro _ rfl
  rw [BitVec.toNat_ofNat, Nat.mod_eq_of_lt fits]

private theorem iStrLength_spelled (str : CxxString) :
    Spelled (· = str.bytes.length) (iStrLength receiver)
      (if str.bytes.length > 254 then
        [[255], oInt sender (BitVec.ofNat (8 * 8) str.bytes.length)]
      else [[UInt8.ofNat str.bytes.length]]) := by
  by_cases long : str.bytes.length > 254
  · rw [if_pos long]
    change Spelled _ _ ([[255]] ++ [oInt sender (BitVec.ofNat (8 * 8) str.bytes.length)])
    apply (iByte_spelled 255).bind
    rintro _ rfl
    rw [if_pos rfl]
    exact iSize_spelled sender receiver little str.size_lt
  · rw [if_neg long]
    apply (iByte_spelled _).bind_nil
    rintro _ rfl
    have byteValue : (UInt8.ofNat str.bytes.length).toNat = str.bytes.length := by
      rw [UInt8.toNat_ofNat']
      omega
    have short : UInt8.ofNat str.bytes.length ≠ 255 := by
      intro same
      have values := congrArg UInt8.toNat same
      rw [byteValue] at values
      change str.bytes.length = 255 at values
      omega
    rw [if_neg short]
    exact .done byteValue

theorem iStr_spelled (str : CxxString) :
    Spelled (· = str) (iStr receiver) (SslWrite.oStrWrites sender str) := by
  apply (iStrLength_spelled sender receiver little str).bind
  rintro _ rfl
  by_cases empty : str.bytes.length = 0
  · have noBytes := List.length_eq_zero_iff.mp empty
    have same : CxxString.empty = str := CxxString.ext noBytes.symm
    rw [if_pos empty, if_neg (not_not_intro empty)]
    exact .done same
  · rw [if_neg empty, if_pos empty]
    apply Spelled.new
    intro block
    apply Spelled.read
    apply (makeString_spelled str).bind_nil
    rintro _ rfl
    exact .free (.done rfl)

def Delivers (p : Option Block) (handed : Option Handed) : Prop :=
  Received.bin (handed.map Handed.bytes) = (Message.bin p).received

private theorem iBin_spelled (p : Option Block) :
    Spelled (Delivers p) (iBin receiver) (SslWrite.oBinWrites sender (p.map Block.bytes)) := by
  have size : ((p.map Block.bytes).getD []).length < 2 ^ 32 := by
    cases p with
    | none => exact Nat.succ_pos _
    | some block => exact block.size_lt
  have header : Spelled (· = ((p.map Block.bytes).getD []).length)
      (BitVec.toNat <$> iInt receiver 4)
      [oInt sender (BitVec.ofNat (8 * 4) ((p.map Block.bytes).getD []).length)] := by
    apply (iInt_spelled sender receiver little _).map
    rintro _ rfl
    rw [BitVec.toNat_ofNat, Nat.mod_eq_of_lt size]
  rw [SslWrite.oBinWrites]
  change Spelled _ _ ([oInt sender _] ++ _)
  apply header.bind
  rintro _ rfl
  cases p with
  | none => exact .done rfl
  | some block =>
      change Spelled (Delivers (some block)) (if block.bytes.length = 0 then _ else _)
        (if block.bytes.length ≠ 0 then [block.bytes] else [])
      by_cases empty : block.bytes.length = 0
      · have noBytes := List.length_eq_zero_iff.mp empty
        rw [if_pos empty, if_neg (not_not_intro empty)]
        apply Spelled.done
        rw [Delivers, Message.received, if_pos noBytes]
        rfl
      · have someBytes : block.bytes ≠ [] := fun none => empty (congrArg List.length none)
        rw [if_neg empty, if_pos empty]
        apply Spelled.new
        intro p
        apply (Spelled.strict block.bytes).bind_nil
        rintro _ rfl
        apply Spelled.done
        rw [Delivers, Message.received, if_neg someBytes]
        rfl

variable (keyFirst : receiver.pairOrder = .keyFirst) (codes : TypeCodes)

include keyFirst

set_option linter.unusedSectionVars false in
mutual

private theorem iVar_spelled : (tree : PolyTree) → tree.Valid → (fuel : Nat) →
    (oVar sender codes tree).length < fuel →
    Spelled (· = tree) (iVar receiver codes fuel) (oVarWrites sender codes tree)
  | .void, _, fuel + 1, _ => by
      rw [oVarWrites]
      exact iVar_code_spelled (.done rfl)
  | .str s, _, fuel + 1, _ => by
      rw [oVarWrites]
      apply iVar_code_spelled
      apply (iStr_spelled sender receiver little s).map
      rintro _ rfl
      rfl
  | .float f, _, fuel + 1, _ => by
      rw [oVarWrites]
      apply iVar_code_spelled
      apply (iInt_spelled sender receiver little f).map
      rintro _ rfl
      rfl
  | .int i, _, fuel + 1, _ => by
      rw [oVarWrites]
      apply iVar_code_spelled
      apply (iInt_spelled sender receiver little i).map
      rintro _ rfl
      rfl
  | .char c, _, fuel + 1, _ => by
      rw [oVarWrites]
      apply iVar_code_spelled
      apply (iByte_spelled c).map
      rintro _ rfl
      rfl
  | .bool b, _, fuel + 1, _ => by
      rw [oVarWrites]
      apply iVar_code_spelled
      apply (iBool_spelled b).map
      rintro _ rfl
      rfl
  | .list v, valid, fuel + 1, enough => by
      rw [oVar, List.length_append, List.length_append, oInt_length] at enough
      rw [oVarWrites]
      apply iVar_code_spelled
      change Spelled _ _ ([oInt sender (BitVec.ofNat (8 * 8) v.length)] ++ _)
      cases valid with
      | list _ size each =>
          apply (iSize_spelled sender receiver little size).bind
          rintro _ rfl
          apply Spelled.room
          apply (iVarElements_spelled v each fuel (by omega)).map
          rintro _ rfl
          rfl
  | .map m, valid, fuel + 1, enough => by
      rw [oVar, List.length_append, List.length_append, oInt_length] at enough
      rw [oVarWrites]
      apply iVar_code_spelled
      change Spelled _ _ ([oInt sender (BitVec.ofNat (8 * 8) m.length)] ++ _)
      cases valid with
      | map _ size ordered each =>
          apply (iSize_spelled sender receiver little size).bind
          rintro _ rfl
          apply (iVarEntries_spelled m each fuel (by omega) []).map
          rintro _ rfl
          exact congrArg PolyTree.map
            (OrderedMap.insertAll_of_perm (List.Perm.refl m) ordered)

theorem iVarElements_spelled : (v : List PolyTree) → (∀ element ∈ v, element.Valid) →
    (fuel : Nat) → (oVarElements sender codes v).length < fuel →
    Spelled (· = v) (ReadProgram.times (iVar receiver codes fuel) v.length)
      (oVarElementsWrites sender codes v)
  | [], _, _, _ => .done rfl
  | element :: rest, valid, fuel, enough => by
      rw [oVarElements, List.length_append] at enough
      apply (iVar_spelled element (valid element List.mem_cons_self) fuel (by omega)).bind
      rintro _ rfl
      apply (iVarElements_spelled rest
        (fun other member => valid other (List.mem_cons_of_mem _ member)) fuel
        (by omega)).bind_nil
      rintro _ rfl
      exact .done rfl

theorem iVarEntries_spelled : (m : List (CxxString × PolyTree)) →
    (∀ entry ∈ m, entry.2.Valid) → (fuel : Nat) →
    (oVarEntries sender codes m).length < fuel → (found : List (CxxString × PolyTree)) →
    Spelled (· = m.foldl (fun found entry => OrderedMap.insert entry found) found)
      (iMapEntries receiver (iVar receiver codes fuel) m.length found)
      (oVarEntriesWrites sender codes m)
  | [], _, _, _, _ => .done rfl
  | (key, element) :: rest, valid, fuel, enough, found => by
      rw [oVarEntries, oVarEntry, List.length_append, List.length_append] at enough
      have pair : Spelled (· = (key, element)) (iPair receiver (iVar receiver codes fuel))
          (oVarEntryWrites sender codes (key, element)) := by
        rw [iPair, keyFirst, oVarEntryWrites]
        apply (iStr_spelled sender receiver little key).bind
        rintro _ rfl
        apply (iVar_spelled element (valid _ List.mem_cons_self) fuel (by omega)).bind_nil
        rintro _ rfl
        exact .done rfl
      apply pair.bind
      rintro _ rfl
      exact iVarEntries_spelled rest
        (fun other member => valid other (List.mem_cons_of_mem _ member)) fuel (by omega) _

end

/-- For each `_o` of the sender there is an `_i_fixsize` of its length, in the same order. -/
theorem receive_spelled (message : Message) {fuel : Nat}
    (enough : (send sender codes message).length < fuel) :
    Spelled (fun given : Given => given.value = message.received)
      (receive receiver codes fuel message.kind) (message.writes sender codes) := by
  cases message with
  | char byte =>
      apply (iByte_spelled byte).map
      rintro _ rfl
      rfl
  | bool b =>
      apply (iBool_spelled b).map
      rintro _ rfl
      rfl
  | int width num =>
      apply (iInt_spelled sender receiver little num).map
      rintro _ rfl
      rfl
  | float f =>
      apply (iInt_spelled sender receiver little f).map
      rintro _ rfl
      rfl
  | str text =>
      apply (iStr_spelled sender receiver little text).map
      rintro _ rfl
      rfl
  | bin p => exact (iBin_spelled sender receiver little p).map (fun _ delivered => delivered)
  | var v =>
      apply (iVar_spelled sender receiver little keyFirst codes v.tree v.valid fuel enough).map
      rintro _ rfl
      rfl

end Spelling

/-! ### Blocks -/

/-- An `i_var` may lose a block where a container finds no room. -/
def varLoses : Exception → Nat
  | .badAlloc | .lengthError => 1
  | .ioError => 0

section Blocks

variable {owned : List Nat} {lost : Exception → Nat}

abbrev Clean {α : Type} (owned : List Nat) (lost : Exception → Nat) (method : Method α) : Prop :=
  Tidy .ioError owned (fun _ => owned) lost method

section Fields

variable (few : owned.length ≤ lost .ioError)

include few

theorem iByte_clean : Clean owned lost iByte := (Tidy.strict 1 few).map (fun _ => rfl)

theorem iBool_clean : Clean owned lost iBool := by
  apply (iByte_clean few).bind
  intro byte
  split
  · exact Tidy.done rfl
  · split
    · exact Tidy.done rfl
    · exact Tidy.undefined Fault.badBool

theorem iInt_clean (host : Host) (width : Nat) : Clean owned lost (iInt host width) :=
  (Tidy.strict width few).map (fun _ => rfl)

theorem iStrLength_clean (host : Host) : Clean owned lost (iStrLength host) := by
  apply (iByte_clean few).bind
  intro strLen8
  split
  · exact (iInt_clean few host 8).map (fun _ => rfl)
  · exact Tidy.done rfl

end Fields

variable (host : Host) (copy : 1 ≤ lost .badAlloc) (long : 1 ≤ lost .lengthError)

include copy long

private theorem makeString_clean {block : Nat} (str : List UInt8) :
    Clean [block] lost (makeString str) := by
  apply Tidy.room
  · rw [if_pos rfl]
    split
    · exact Tidy.done rfl
    · exact Tidy.throw long
  · exact Tidy.throw copy

theorem iStr_clean : Clean [] lost (iStr host) := by
  apply (iStrLength_clean (Nat.zero_le _) host).bind
  intro strLen64
  split
  · exact Tidy.done rfl
  · apply Tidy.new
    · intro block
      apply Tidy.read
      · intro str
        apply (makeString_clean copy long str).bind
        intro finalstr
        exact Tidy.free (Tidy.done rfl)
      · exact Tidy.free (Tidy.throw (Nat.zero_le _))
    · exact Tidy.throw (Nat.zero_le _)

variable {nested : Method PolyTree} (inner : Clean [] lost nested)

include inner

private theorem iMapEntries_clean (sz : Nat) (m : List (CxxString × PolyTree)) :
    Clean [] lost (iMapEntries host nested sz m) := by
  have key := iStr_clean host copy long
  have pair : Clean [] lost (iPair host nested) := by
    rw [iPair]
    cases host.pairOrder with
    | keyFirst => exact key.bind (fun _ => inner.bind (fun _ => Tidy.done rfl))
    | valueFirst => exact inner.bind (fun _ => key.bind (fun _ => Tidy.done rfl))
  induction sz generalizing m with
  | zero => exact Tidy.done rfl
  | succ sz ih => exact pair.bind (fun entry => ih (OrderedMap.insert entry m))

private theorem iVarSwitch_clean (type : Option PolyType) :
    Clean [] lost (iVarSwitch host nested type) := by
  have size : Clean [] lost (BitVec.toNat <$> iInt host 8) :=
    (iInt_clean (Nat.zero_le _) host 8).map (fun _ => rfl)
  cases type with
  | none => exact Tidy.undefined Fault.missingReturn
  | some type =>
      cases type with
      | void => exact Tidy.done rfl
      | str => exact (iStr_clean host copy long).map (fun _ => rfl)
      | float => exact (iInt_clean (Nat.zero_le _) host 8).map (fun _ => rfl)
      | int => exact (iInt_clean (Nat.zero_le _) host 8).map (fun _ => rfl)
      | char => exact (iByte_clean (Nat.zero_le _)).map (fun _ => rfl)
      | bool => exact (iBool_clean (Nat.zero_le _)).map (fun _ => rfl)
      | list =>
          apply size.bind
          intro size
          have vector : Clean [] lost (makeVector host size) := by
            apply Tidy.room
            · exact Tidy.done rfl
            · rw [if_neg Bool.false_ne_true]
              split
              · exact Tidy.throw (Nat.zero_le _)
              · exact Tidy.throw (Nat.zero_le _)
          exact vector.bind (fun _ => (inner.times size).map (fun _ => rfl))
      | map =>
          apply size.bind
          intro sz
          exact (iMapEntries_clean host copy long inner sz []).map (fun _ => rfl)

omit inner

theorem iVar_clean (codes : TypeCodes) (fuel : Nat) : Clean [] lost (iVar host codes fuel) := by
  induction fuel with
  | zero => exact Tidy.running
  | succ fuel ih =>
      apply (iByte_clean (Nat.zero_le _)).bind
      exact fun t => iVarSwitch_clean host copy long ih (codes.typeOf t)

omit copy long

def iStrBytes : Method (Option Handed) := do
  let strLen64 ← iStrLength host
  if strLen64 = 0 then pure none
  else
    newArray strLen64 fun block =>
      .read strLen64 fun
        | .error error => .free block (.throw error)
        | .ok str => .done (some ⟨block, str⟩)

/-- What it does with them. -/
def finishStr : Option Handed → Method CxxString
  | none => pure CxxString.empty
  | some handed => do
      let finalstr ← makeString handed.bytes
      .free handed.block (.done finalstr)

private theorem iStr_eq : iStr host = iStrBytes host >>= finishStr := by
  rw [iStr, iStrBytes, ReadProgram.bind_assoc]
  congr 1
  funext strLen64
  by_cases empty : strLen64 = 0
  · rw [if_pos empty, if_pos empty]
    rfl
  · rw [if_neg empty, if_neg empty]
    apply congrArg (ReadProgram.new strLen64)
    funext block
    cases block with
    | none => rfl
    | some block =>
        apply congrArg (ReadProgram.read strLen64)
        funext word
        cases word with
        | error error => rfl
        | ok str => rfl

private theorem iStrBytes_tidy :
    Tidy .ioError [] (fun p : Option Handed => (p.map Handed.block).toList) (fun _ => 0)
      (iStrBytes host) := by
  have length : Clean [] (fun _ => 0) (iStrLength host) := iStrLength_clean (Nat.zero_le _) host
  apply length.bind
  intro strLen64
  split
  · exact Tidy.done rfl
  · apply Tidy.new
    · intro block
      exact Tidy.read (fun str => Tidy.done rfl) (Tidy.free (Tidy.throw (Nat.le_refl 0)))
    · exact Tidy.throw (Nat.le_refl 0)

def iBinBlock (len : Nat) : Method (Option Handed) :=
  if len = 0 then pure none
  else
    newArray len fun p => do
      let bytes ← iFixsize len
      pure (some ⟨p, bytes⟩)

private theorem iBin_tidy :
    Tidy .ioError [] (fun p : Option Handed => (p.map Handed.block).toList) (fun _ => 1)
      (iBin host) := by
  have header : Clean [] (fun _ => 1) (BitVec.toNat <$> iInt host 4) :=
    (iInt_clean (Nat.zero_le _) host 4).map (fun _ => rfl)
  apply header.bind
  intro len
  split
  · exact Tidy.done rfl
  · apply Tidy.new
    · exact fun p => (Tidy.strict len (Nat.le_refl 1)).bind (fun _ => Tidy.done rfl)
    · exact Tidy.throw (Nat.zero_le _)

/-- Only a block that is handed out is left when a method returns, and one may be lost when
it throws. -/
theorem receive_tidy (codes : TypeCodes) (fuel : Nat) (kind : Kind) :
    Tidy .ioError [] (fun given : Given => given.block.toList) (fun _ => 1)
      (receive host codes fuel kind) := by
  cases kind with
  | char => exact (iByte_clean (Nat.zero_le _)).map (fun _ => rfl)
  | bool => exact (iBool_clean (Nat.zero_le _)).map (fun _ => rfl)
  | int width => exact (iInt_clean (Nat.zero_le _) host width).map (fun _ => rfl)
  | float => exact (iInt_clean (Nat.zero_le _) host 8).map (fun _ => rfl)
  | str => exact (iStr_clean host (Nat.le_refl 1) (Nat.le_refl 1)).map (fun _ => rfl)
  | bin => exact (iBin_tidy host).map (fun _ => rfl)
  | var => exact (iVar_clean host (Nat.le_refl 1) (Nat.le_refl 1) codes fuel).map (fun _ => rfl)

section Losses

variable {σ : Type} (connection : Strict UInt8 Exception σ)

/-- How many blocks a call that throws has lost: `i_bin` its own, where the length has come
and the bytes do not; `i_str` its own, where the bytes have come and there is no room for the
copy; `i_var` one at most, in the same way. -/
def Loses (kind : Kind) (before : World σ) (error : Exception) (lost : Nat) : Prop :=
  match kind with
  | .bin =>
      lost = if error = .ioError ∧ returns connection (BitVec.toNat <$> iInt host 4) before
        then 1 else 0
  | .str =>
      lost = if error ≠ .ioError ∧ returns connection (iStrBytes host) before then 1 else 0
  | .var => lost ≤ varLoses error
  | _ => lost = 0

variable {host connection} {world after : World σ} {error : Exception}

private theorem finishStr_threw {p : Option Handed}
    (ran : (finishStr p).exec connection world = (.threw error, after)) :
    p.isSome = true ∧ error ≠ .ioError ∧ after.heap.live = world.heap.live := by
  cases p with
  | none => cases ran
  | some handed =>
      rw [finishStr, exec_bind, makeString, exec] at ran
      cases granted : world.heap.ask.1 with
      | false =>
          rw [granted] at ran
          cases ran
          exact ⟨rfl, by decide, rfl⟩
      | true =>
          rw [granted, if_pos rfl] at ran
          by_cases fits : handed.bytes.length < 2 ^ 64
          · simp only [dif_pos fits, exec, Ending.bind] at ran
            by_cases held : handed.block ∈ world.heap.ask.2.live
            · rw [if_pos held] at ran
              cases ran
            · rw [if_neg held] at ran
              cases ran
          · simp only [dif_neg fits, exec, Ending.bind] at ran
            cases ran
            exact ⟨rfl, by decide, rfl⟩

variable (honest : Honest .ioError connection)

include honest

private theorem iStr_threw (ran : (iStr host).exec connection world = (.threw error, after)) :
    ∃ lost, after.heap.live = lost ++ world.heap.live ∧
      Loses host connection .str world error lost.length := by
  have tidy := iStrBytes_tidy host σ connection world world.heap.live honest rfl
  rw [iStr_eq, exec_bind] at ran
  obtain ⟨⟨ending, between⟩, early⟩ := @exists_eq' _ ((iStrBytes host).exec connection world)
  rw [early] at tidy ran
  cases ending with
  | returned p =>
      obtain ⟨some, notShort, kept⟩ := finishStr_threw ran
      obtain ⟨handed, rfl⟩ := Option.isSome_iff_exists.mp some
      refine ⟨[handed.block], kept.trans tidy, ?_⟩
      exact (if_pos ⟨notShort, returns_of_returned early⟩).symm
  | threw error =>
      obtain ⟨lost, live, none⟩ := tidy
      cases ran
      refine ⟨lost, live, ?_⟩
      rw [Loses, returns_of_threw early, Nat.le_zero.mp none, if_neg (fun came => nomatch came.2)]
  | undefined fault => cases ran
  | running => cases ran
  | badFree => exact tidy.elim

private theorem iBinBlock_threw {len : Nat}
    (ran : (iBinBlock len).exec connection world = (.threw error, after)) :
    if error = .ioError then ∃ block, after.heap.live = block :: world.heap.live
    else after.heap.live = world.heap.live := by
  rw [iBinBlock] at ran
  split at ran
  · cases ran
  · rw [newArray, exec, Heap.new] at ran
    cases granted : world.heap.ask.1 with
    | false =>
        rw [granted] at ran
        cases ran
        rfl
    | true =>
        rw [granted] at ran
        simp only [if_true, exec_bind, iFixsize, ReadProgram.strict, exec] at ran
        have throws := honest len world.connection
        generalize connection len world.connection = read at throws ran
        obtain ⟨word, rest⟩ := read
        cases word with
        | ok word => cases ran
        | error thrown =>
            cases ran
            rw [throws error rfl, if_pos rfl]
            exact ⟨_, rfl⟩

private theorem iBin_threw (ran : (iBin host).exec connection world = (.threw error, after)) :
    ∃ lost, after.heap.live = lost ++ world.heap.live ∧
      Loses host connection .bin world error lost.length := by
  have header : Clean [] (fun _ => 0) (BitVec.toNat <$> iInt host 4) :=
    (iInt_clean (Nat.zero_le _) host 4).map (fun _ => rfl)
  have tidy := header σ connection world world.heap.live honest rfl
  change ((BitVec.toNat <$> iInt host 4) >>= iBinBlock).exec connection world = _ at ran
  rw [exec_bind] at ran
  obtain ⟨⟨ending, between⟩, early⟩ :=
    @exists_eq' _ ((BitVec.toNat <$> iInt host 4).exec connection world)
  rw [early] at tidy ran
  cases ending with
  | returned len =>
      have same : between.heap.live = world.heap.live := tidy
      have left := iBinBlock_threw honest ran
      rw [same] at left
      cases error with
      | ioError =>
          rw [if_pos rfl] at left
          obtain ⟨block, live⟩ := left
          refine ⟨[block], live, ?_⟩
          exact (if_pos ⟨rfl, returns_of_returned early⟩).symm
      | badAlloc =>
          rw [if_neg nofun] at left
          exact ⟨[], left, rfl⟩
      | lengthError =>
          rw [if_neg nofun] at left
          exact ⟨[], left, rfl⟩
  | threw error =>
      obtain ⟨lost, live, none⟩ := tidy
      cases ran
      refine ⟨lost, live, ?_⟩
      rw [Loses, returns_of_threw early, Nat.le_zero.mp none, if_neg (fun came => nomatch came.2)]
  | undefined fault => cases ran
  | running => cases ran
  | badFree => exact tidy.elim

private theorem receive_threw {codes : TypeCodes} {fuel : Nat} {kind : Kind}
    (ran : (receive host codes fuel kind).exec connection world = (.threw error, after)) :
    ∃ lost, after.heap.live = lost ++ world.heap.live ∧
      Loses host connection kind world error lost.length := by
  have fields : ∀ {α : Type} {field : Method α}, Clean [] (fun _ => 0) field →
      field.exec connection world = (.threw error, after) →
      ∃ lost : List Nat, after.heap.live = lost ++ world.heap.live ∧ lost.length = 0 := by
    intro α field clean threw
    obtain ⟨lost, live, none⟩ := clean.threw honest threw
    exact ⟨lost, live, Nat.le_zero.mp none⟩
  have none : ([] : List Nat).length ≤ 0 := Nat.le_refl 0
  cases kind with
  | char => exact fields (iByte_clean none) (threw_of_map ran)
  | bool => exact fields (iBool_clean none) (threw_of_map ran)
  | int width => exact fields (iInt_clean none host width) (threw_of_map ran)
  | float => exact fields (iInt_clean none host 8) (threw_of_map ran)
  | str => exact iStr_threw honest (threw_of_map ran)
  | bin => exact iBin_threw honest (threw_of_map ran)
  | var =>
      have clean := @iVar_clean varLoses host (Nat.le_refl 1) (Nat.le_refl 1) codes fuel
      exact clean.threw honest (threw_of_map ran)

end Losses

structure Call (σ : Type) where
  kind : Kind
  before : World σ
  ending : Ending Exception Fault Given

/-- The calls of a program that catches what they throw and goes on. -/
def session (codes : TypeCodes) (fuel : Nat) {σ : Type} (connection : Strict UInt8 Exception σ) :
    List Kind → World σ → List (Call σ) × World σ
  | [], world => ([], world)
  | kind :: later, world =>
      match (receive host codes fuel kind).exec connection world with
      | (.returned given, after) =>
          let (calls, last) := session codes fuel connection later after
          (⟨kind, world, .returned given⟩ :: calls, last)
      | (.threw error, after) =>
          let (calls, last) := session codes fuel connection later after
          (⟨kind, world, .threw error⟩ :: calls, last)
      | (ending, after) => ([⟨kind, world, ending⟩], after)

section Calls

variable {σ : Type}

def Call.hands (call : Call σ) : List Nat :=
  match call.ending with
  | .returned given => given.block.toList
  | _ => []

def Call.Lost (connection : Strict UInt8 Exception σ) (call : Call σ) (lost : Nat) : Prop :=
  match call.ending with
  | .threw error => Loses host connection call.kind call.before error lost
  | _ => lost = 0

inductive LostBy (connection : Strict UInt8 Exception σ) : List (Call σ) → Nat → Prop where
  | nil : LostBy connection [] 0
  | cons {call : Call σ} {calls : List (Call σ)} {here later : Nat}
      (now : call.Lost host connection here) (rest : LostBy connection calls later) :
      LostBy connection (call :: calls) (here + later)

/-- A call that has come to an end, by a value or an exception. -/
def Call.Ended (call : Call σ) : Prop :=
  match call.ending with
  | .returned _ | .threw _ => True
  | _ => False

variable {connection : Strict UInt8 Exception σ}

private theorem receive_leaves (codes : TypeCodes) (fuel : Nat)
    (honest : Honest .ioError connection) (kind : Kind) {world after : World σ}
    {ending : Ending Exception Fault Given}
    (ran : (receive host codes fuel kind).exec connection world = (ending, after)) :
    let call : Call σ := ⟨kind, world, ending⟩
    ending ≠ .badFree ∧ (call.Ended → ∃ lost, call.Lost host connection lost.length ∧
      after.heap.live = call.hands ++ lost ++ world.heap.live) := by
  have tidy := receive_tidy host codes fuel kind σ connection world world.heap.live honest rfl
  rw [ran] at tidy
  cases ending with
  | returned given =>
      refine ⟨nofun, fun _ => ⟨[], rfl, ?_⟩⟩
      rw [List.append_nil]
      exact tidy
  | threw error =>
      obtain ⟨lost, live, loses⟩ := receive_threw honest ran
      exact ⟨nofun, fun _ => ⟨lost, loses, live⟩⟩
  | undefined fault => exact ⟨nofun, fun ended => ended.elim⟩
  | running => exact ⟨nofun, fun ended => ended.elim⟩
  | badFree => exact tidy.elim

private theorem session_cons (codes : TypeCodes) (fuel : Nat) (kind : Kind) (later : List Kind)
    {world after : World σ} {ending : Ending Exception Fault Given}
    (ran : (receive host codes fuel kind).exec connection world = (ending, after))
    (ended : Call.Ended ⟨kind, world, ending⟩) :
    session host codes fuel connection (kind :: later) world =
      (⟨kind, world, ending⟩ :: (session host codes fuel connection later after).1,
        (session host codes fuel connection later after).2) := by
  rw [session, ran]
  cases ending with
  | returned given => rfl
  | threw error => rfl
  | undefined fault => exact ended.elim
  | running => exact ended.elim
  | badFree => exact ended.elim

private theorem session_stop (codes : TypeCodes) (fuel : Nat) (kind : Kind) (later : List Kind)
    {world after : World σ} {ending : Ending Exception Fault Given}
    (ran : (receive host codes fuel kind).exec connection world = (ending, after))
    (stopped : ¬ Call.Ended ⟨kind, world, ending⟩) :
    session host codes fuel connection (kind :: later) world =
      ([⟨kind, world, ending⟩], after) := by
  rw [session, ran]
  cases ending with
  | returned given => exact absurd trivial stopped
  | threw error => exact absurd trivial stopped
  | undefined fault => rfl
  | running => rfl
  | badFree => rfl

/-- Whatever comes in and whatever `new` finds, no block is given back twice. When all calls
have come to an end, there are the blocks that were handed out and those that the calls that
threw have lost. -/
theorem session_blocks (codes : TypeCodes) (fuel : Nat)
    (connection : Strict UInt8 Exception σ) (honest : Honest .ioError connection)
    (kinds : List Kind) (world : World σ) :
    let (calls, last) := session host codes fuel connection kinds world
    (∀ call ∈ calls, call.ending ≠ .badFree) ∧
      ((∀ call ∈ calls, call.Ended) → ∃ lost, LostBy host connection calls lost.length ∧
        last.heap.live.Perm (calls.flatMap Call.hands ++ lost ++ world.heap.live)) := by
  induction kinds generalizing world with
  | nil => exact ⟨nofun, fun _ => ⟨[], .nil, List.Perm.refl _⟩⟩
  | cons kind later ih =>
      cases ran : (receive host codes fuel kind).exec connection world with
      | mk ending after =>
      obtain ⟨proper, leaves⟩ := receive_leaves host codes fuel honest kind ran
      by_cases ended : Call.Ended ⟨kind, world, ending⟩
      · rw [session_cons host codes fuel kind later ran ended]
        obtain ⟨laterProper, laterLeaves⟩ := ih after
        constructor
        · exact List.forall_mem_cons.mpr ⟨proper, laterProper⟩
        · intro all
          obtain ⟨lost, here, live⟩ := leaves ended
          obtain ⟨lostLater, rest, liveLater⟩ := laterLeaves
            (fun call member => all call (List.mem_cons_of_mem _ member))
          refine ⟨lost ++ lostLater, ?_, ?_⟩
          · rw [List.length_append]
            exact .cons here rest
          · rw [live] at liveLater
            apply liveLater.trans
            rw [List.perm_iff_count]
            intro block
            simp only [List.flatMap_cons, List.count_append]
            omega
      · rw [session_stop host codes fuel kind later ran ended]
        constructor
        · exact List.forall_mem_singleton.mpr proper
        · exact fun all => absurd (all _ List.mem_cons_self) ended

end Calls

/-- A block of two bytes of which one comes in, and then the connection ends. -/
def cutBlock : World (List UInt8) := ⟨[2, 0, 0, 0, 97], ⟨[], 7, 0, fun _ => true⟩⟩

/-- The first call loses its block, as the length has come; the second one has no length. -/
theorem session_blocks_cut :
    ∃ lost, lost.length = 1 ∧ (session (Host.little .keyFirst) TypeCodes.consecutive 1
      (plain .ioError) [.bin, .bin] cutBlock).2.heap.live.Perm lost := by
  have ran : session (Host.little .keyFirst) TypeCodes.consecutive 1 (plain .ioError)
      [.bin, .bin] cutBlock =
        ([⟨.bin, cutBlock, .threw .ioError⟩,
          ⟨.bin, ⟨[97], ⟨[7], 8, 1, fun _ => true⟩⟩, .threw .ioError⟩],
          ⟨[97], ⟨[7], 8, 1, fun _ => true⟩⟩) := rfl
  have blocks := session_blocks (Host.little .keyFirst) TypeCodes.consecutive 1
    (plain .ioError) (plain_honest _) [.bin, .bin] cutBlock
  rw [ran] at blocks ⊢
  obtain ⟨lost, counted, live⟩ := blocks.2 (by
    intro call member
    rcases List.mem_cons.mp member with rfl | member
    · trivial
    · rw [List.mem_singleton] at member
      subst member
      trivial)
  refine ⟨lost, ?_, by simpa [Call.hands, cutBlock] using live⟩
  generalize lost.length = count at counted
  cases counted with
  | @cons _ _ first _ here rest =>
  cases rest with
  | @cons _ _ second _ there none =>
  cases none
  have one : first = 1 := here
  have zero : second = 0 := there
  rw [one, zero]

end Blocks

end Socketxx.SimpleSocket.Template
