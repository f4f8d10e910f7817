import Socketxx.Library.StreamReader
import Socketxx.Defs

/-!
The typed fields of `simple_socket`: what each `o_*` method hands to `_o`, and what
each `i_*` method makes of the bytes `_i_fixsize` gives it.

`_i_fixsize` is here the strict read it is documented to be. Writers are the byte
strings they send, since `_o` sends all of its buffer or throws.
-/

set_option autoImplicit false

namespace Socketxx.SimpleSocket

open StreamReader

/-- The two orders in which the arguments of `std::pair(i_str(), i_var())` may be
evaluated. -/
inductive PairOrder where
  | keyFirst
  | valueFirst
deriving DecidableEq, Repr

/-- What a build takes from its machine, its compiler and its free store. -/
structure Host where
  endianness : Endianness
  pairOrder : PairOrder
  /-- Whether `new` finds room for that many elements. -/
  alloc : Nat → Bool
  /-- `max_size()` of a vector of polyvars. -/
  maxSize : Nat

def Host.ample (endianness : Endianness) (pairOrder : PairOrder) : Host :=
  { endianness := endianness
    pairOrder := pairOrder
    alloc := fun _ => true
    maxSize := 2 ^ 59 - 1 }

def Host.little (pairOrder : PairOrder) : Host := Host.ample .littleEndian pairOrder

inductive Exception where
  | ioError
  | badAlloc
  | lengthError
deriving DecidableEq, Repr

/-- The undefined behaviours a reader can run into. -/
inductive Fault where
  /-- The end of a non-void function is reached without a return. -/
  | missingReturn
  /-- A `bool` object holds a byte other than 0 and 1. -/
  | badBool
deriving DecidableEq, Repr

abbrev Receive (α : Type) := Reader UInt8 Exception Fault α

/-- A `std::string`: bytes whose number fits a `size_t`. -/
structure CxxString where
  bytes : List UInt8
  size_lt : bytes.length < 2 ^ 64

@[ext] theorem CxxString.ext {left right : CxxString} (same : left.bytes = right.bytes) :
    left = right := by
  cases left
  cases right
  cases same
  rfl

def CxxString.empty : CxxString := ⟨[], by decide⟩

def newArray (host : Host) (size : Nat) : Receive Unit :=
  if host.alloc size then pure () else Reader.throw .badAlloc

/-- `std::vector<polyvar>(size)`: for a size above `max_size()` there is no room, and an
exception of its own. -/
def newVector (host : Host) (size : Nat) : Receive Unit :=
  if host.alloc size then pure ()
  else if size ≤ host.maxSize then Reader.throw .badAlloc
  else Reader.throw .lengthError

def iFixsize (len : Nat) : Receive (List UInt8) := Reader.take .ioError len

def iByte : Receive UInt8 := (fun bytes => bytes.headD 0) <$> iFixsize 1

/-! ### Read methods -/

def iChar : Receive UInt8 := iByte

def iBool : Receive Bool := do
  let byte ← iByte
  if byte = 0 then pure false
  else if byte = 1 then pure true
  else Reader.undefined .badBool

/-- The bytes land in the variable as they came: the sender has swapped them. -/
def iInt (host : Host) (width : Nat) : Receive (BitVec (8 * width)) :=
  host.endianness.ofMemory width <$> iFixsize width

def iFloat (host : Host) : Receive (BitVec (8 * 8)) := iInt host 8

def makeString (str : List UInt8) : Receive CxxString :=
  if fits : str.length < 2 ^ 64 then pure ⟨str, fits⟩ else Reader.throw .lengthError

def iStrLength (host : Host) : Receive Nat := do
  let strLen8 ← iByte
  if strLen8 = 255 then BitVec.toNat <$> iInt host 8 else pure strLen8.toNat

def iStr (host : Host) : Receive CxxString := do
  let strLen64 ← iStrLength host
  if strLen64 = 0 then pure CxxString.empty
  else do
    newArray host strLen64
    let str ← iFixsize strLen64
    makeString str

/-- `none` is the `NULL` that stands for an empty block. -/
def iBin (host : Host) : Receive (Option (List UInt8)) := do
  let len ← BitVec.toNat <$> iInt host 4
  if len = 0 then pure none
  else do
    newArray host len
    let p ← iFixsize len
    pure (some p)

/-! ### Write methods -/

def swapBytesAt (size : Nat) (data : List UInt8) (i : Nat) : List UInt8 :=
  let tmp := data.getD i 0
  (data.set i (data.getD (size - 1 - i) 0)).set (size - 1 - i) tmp

def swapBytes (data : List UInt8) (size : Nat) : List UInt8 :=
  (List.range (size / 2)).foldl (swapBytesAt size) data

def oChar (byte : UInt8) : List UInt8 := [byte]

def oBool (b : Bool) : List UInt8 := [if b then 1 else 0]

def oInt (host : Host) {width : Nat} (num : BitVec (8 * width)) : List UInt8 :=
  if !endiannessSame host.endianness then
    swapBytes (host.endianness.toMemory num) width
  else host.endianness.toMemory num

def oFloat (host : Host) (f : BitVec (8 * 8)) : List UInt8 := oInt host f

def oStr (host : Host) (str : CxxString) : List UInt8 :=
  let strLen64 := str.bytes.length
  (if strLen64 > 254 then 255 :: oInt host (BitVec.ofNat (8 * 8) strLen64)
    else [UInt8.ofNat strLen64]) ++
  (if strLen64 ≠ 0 then str.bytes else [])

def oBin (host : Host) (p : Option (List UInt8)) : List UInt8 :=
  let len := (p.getD []).length
  oInt host (BitVec.ofNat (8 * 4) len) ++ (if len ≠ 0 then p.getD [] else [])

/-! ### Every build writes integers in little-endian order -/

private theorem swapBytesAt_length (size : Nat) (data : List UInt8) (i : Nat) :
    (swapBytesAt size data i).length = data.length := by
  simp [swapBytesAt]

private theorem swapBytesAt_getElem? (data : List UInt8) (i j : Nat)
    (half : i < data.length / 2) :
    (swapBytesAt data.length data i)[j]? =
      if j = i then data[data.length - 1 - i]?
      else if j = data.length - 1 - i then data[i]?
      else data[j]? := by
  have low : i < data.length := by omega
  have high : data.length - 1 - i < data.length := by omega
  have apart : i ≠ data.length - 1 - i := by omega
  simp only [swapBytesAt, List.getElem?_set, List.length_set, List.getD_eq_getElem?_getD,
    List.getElem?_eq_getElem low, List.getElem?_eq_getElem high, Option.getD_some]
  by_cases atLow : j = i
  · subst j
    simp [apart.symm, low]
  · by_cases atHigh : j = data.length - 1 - i
    · subst j
      simp [apart.symm, high]
    · simp [atLow, atHigh, Ne.symm atLow, Ne.symm atHigh]

private theorem swapBytes_prefix (data : List UInt8) (count : Nat)
    (half : count ≤ data.length / 2) :
    ((List.range count).foldl (swapBytesAt data.length) data).length = data.length ∧
      ∀ j < data.length,
        ((List.range count).foldl (swapBytesAt data.length) data)[j]? =
          if j < count ∨ data.length - 1 - j < count then data[data.length - 1 - j]?
          else data[j]? := by
  induction count with
  | zero => simp
  | succ count ih =>
      obtain ⟨size, cells⟩ := ih (by omega)
      rw [List.range_succ, List.foldl_append, List.foldl_cons, List.foldl_nil]
      generalize (List.range count).foldl (swapBytesAt data.length) data = partly at *
      refine ⟨(swapBytesAt_length _ _ _).trans size, ?_⟩
      intro j inside
      have step := swapBytesAt_getElem? partly count j (by omega)
      rw [size] at step
      rw [step, cells (data.length - 1 - count) (by omega), cells count (by omega),
        cells j inside]
      by_cases atLow : j = count
      · subst j
        rw [if_pos rfl, if_neg (by omega), if_pos (by omega)]
      · by_cases atHigh : j = data.length - 1 - count
        · subst j
          rw [if_neg atLow, if_pos rfl, if_neg (by omega), if_pos (by omega)]
          congr 1
          omega
        · rw [if_neg atLow, if_neg atHigh]
          by_cases done : j < count ∨ data.length - 1 - j < count
          · rw [if_pos done, if_pos (by omega)]
          · rw [if_neg done, if_neg (by omega)]

private theorem swapBytes_eq_reverse (data : List UInt8) :
    swapBytes data data.length = data.reverse := by
  obtain ⟨size, cells⟩ := swapBytes_prefix data (data.length / 2) (Nat.le_refl _)
  apply List.ext_getElem?
  intro j
  by_cases inside : j < data.length
  · rw [swapBytes, cells j inside, List.getElem?_reverse inside]
    split
    · rfl
    · congr 1
      omega
  · rw [List.getElem?_eq_none (by rw [swapBytes, size]; omega),
      List.getElem?_eq_none (by rw [List.length_reverse]; omega)]

/-- Whatever the host, an integer goes out least significant byte first. -/
theorem oInt_eq_bytesOf (host : Host) {width : Nat} (num : BitVec (8 * width)) :
    oInt host num = FixedWidth.bytesOf num := by
  cases order : host.endianness with
  | littleEndian =>
      simp [oInt, order, endiannessSame, endiannessPriority, Endianness.toMemory]
  | bigEndian =>
      have reversed := swapBytes_eq_reverse (FixedWidth.bytesOf num).reverse
      rw [List.length_reverse, FixedWidth.bytesOf_length, List.reverse_reverse] at reversed
      simpa [oInt, order, endiannessSame, endiannessPriority, Endianness.toMemory]
        using reversed

@[simp] theorem oInt_length (host : Host) {width : Nat} (num : BitVec (8 * width)) :
    (oInt host num).length = width := by
  rw [oInt_eq_bytesOf, FixedWidth.bytesOf_length]

/-! ### What a field needs of the stream -/

theorem iFixsize_consumes (len : Nat) : Reader.Consumes len (iFixsize len) :=
  Reader.Consumes.take _ len

theorem iByte_consumes : Reader.Consumes 1 iByte := (iFixsize_consumes 1).map _

theorem iBool_consumes : Reader.Consumes 1 iBool := by
  apply iByte_consumes.bind_left
  intro byte
  split
  · exact Reader.Consumes.pure false
  · split
    · exact Reader.Consumes.pure true
    · exact Reader.Consumes.undefined 0 _

theorem iInt_consumes (host : Host) (width : Nat) :
    Reader.Consumes width (iInt host width) :=
  (iFixsize_consumes width).map _

theorem newArray_consumes (host : Host) (size : Nat) :
    Reader.Consumes 0 (newArray host size) := by
  unfold newArray
  split
  · exact Reader.Consumes.pure ()
  · exact Reader.Consumes.throw 0 _

theorem newVector_consumes (host : Host) (size : Nat) :
    Reader.Consumes 0 (newVector host size) := by
  unfold newVector
  split
  · exact Reader.Consumes.pure ()
  · split
    · exact Reader.Consumes.throw 0 _
    · exact Reader.Consumes.throw 0 _

private theorem makeString_consumes (str : List UInt8) : Reader.Consumes 0 (makeString str) := by
  unfold makeString
  split
  · exact Reader.Consumes.pure _
  · exact Reader.Consumes.throw 0 _

theorem iStrLength_consumes (host : Host) : Reader.Consumes 1 (iStrLength host) := by
  apply iByte_consumes.bind_left
  intro strLen8
  split
  · exact ((iInt_consumes host 8).map _).mono (Nat.zero_le 8)
  · exact Reader.Consumes.pure _

theorem iStr_consumes (host : Host) : Reader.Consumes 1 (iStr host) := by
  apply (iStrLength_consumes host).bind_left
  intro strLen64
  split
  · exact Reader.Consumes.pure _
  · apply (newArray_consumes host strLen64).bind_left
    intro _
    exact ((iFixsize_consumes strLen64).bind makeString_consumes).mono (Nat.zero_le _)

theorem iFixsize_finishes (bound len : Nat) : Reader.Finishes bound (iFixsize len) :=
  Reader.Finishes.take bound _ len

theorem iByte_finishes (bound : Nat) : Reader.Finishes bound iByte :=
  (iFixsize_finishes bound 1).map _

theorem iBool_finishes (bound : Nat) : Reader.Finishes bound iBool := by
  apply (iByte_finishes bound).bind iByte_consumes
  intro byte _
  split
  · exact Reader.Finishes.pure _ false
  · split
    · exact Reader.Finishes.pure _ true
    · exact Reader.Finishes.undefined _ _

theorem iInt_finishes (bound : Nat) (host : Host) (width : Nat) :
    Reader.Finishes bound (iInt host width) :=
  (iFixsize_finishes bound width).map _

private theorem newArray_finishes (bound : Nat) (host : Host) (size : Nat) :
    Reader.Finishes bound (newArray host size) := by
  unfold newArray
  split
  · exact Reader.Finishes.pure _ ()
  · exact Reader.Finishes.throw _ _

theorem newVector_finishes (bound : Nat) (host : Host) (size : Nat) :
    Reader.Finishes bound (newVector host size) := by
  unfold newVector
  split
  · exact Reader.Finishes.pure _ ()
  · split
    · exact Reader.Finishes.throw _ _
    · exact Reader.Finishes.throw _ _

private theorem makeString_finishes (bound : Nat) (str : List UInt8) :
    Reader.Finishes bound (makeString str) := by
  unfold makeString
  split
  · exact Reader.Finishes.pure _ _
  · exact Reader.Finishes.throw _ _

private theorem iStrLength_finishes (bound : Nat) (host : Host) :
    Reader.Finishes bound (iStrLength host) := by
  apply (iByte_finishes bound).bind iByte_consumes
  intro strLen8 _
  split
  · exact (iInt_finishes _ host 8).map _
  · exact Reader.Finishes.pure _ _

theorem iStr_finishes (bound : Nat) (host : Host) : Reader.Finishes bound (iStr host) := by
  apply (iStrLength_finishes bound host).bind (iStrLength_consumes host)
  intro strLen64 _
  split
  · exact Reader.Finishes.pure _ _
  · refine (newArray_finishes _ host strLen64).bind (newArray_consumes host strLen64)
      (fun _ _ => ?_)
    exact (iFixsize_finishes _ strLen64).bind (iFixsize_consumes strLen64)
      (fun str _ => makeString_finishes _ str)

/-! ### A field is read, or an exception thrown -/

theorem iFixsize_settles (len : Nat) : Reader.Settles (fun _ => True) (iFixsize len) :=
  Reader.Settles.take trivial len

theorem iByte_settles : Reader.Settles (fun _ => True) iByte := (iFixsize_settles 1).map _

theorem iInt_settles (host : Host) (width : Nat) :
    Reader.Settles (fun _ => True) (iInt host width) :=
  (iFixsize_settles width).map _

theorem newArray_settles (host : Host) (size : Nat) :
    Reader.Settles (fun _ => True) (newArray host size) := by
  unfold newArray
  split
  · exact Reader.Settles.pure ()
  · exact Reader.Settles.throw trivial

private theorem makeString_settles (str : List UInt8) :
    Reader.Settles (fun _ => True) (makeString str) := by
  unfold makeString
  split
  · exact Reader.Settles.pure _
  · exact Reader.Settles.throw trivial

private theorem iStrLength_settles (host : Host) :
    Reader.Settles (fun _ => True) (iStrLength host) := by
  apply iByte_settles.bind
  intro strLen8
  split
  · exact (iInt_settles host 8).map _
  · exact Reader.Settles.pure _

theorem iStr_settles (host : Host) : Reader.Settles (fun _ => True) (iStr host) := by
  apply (iStrLength_settles host).bind
  intro strLen64
  split
  · exact Reader.Settles.pure _
  · apply (newArray_settles host strLen64).bind
    intro _
    exact (iFixsize_settles strLen64).bind makeString_settles

theorem iBin_settles (host : Host) : Reader.Settles (fun _ => True) (iBin host) := by
  apply ((iInt_settles host 4).map BitVec.toNat).bind
  intro len
  split
  · exact Reader.Settles.pure none
  · apply (newArray_settles host len).bind
    intro _
    exact (iFixsize_settles len).bind (fun p => Reader.Settles.pure (some p))

/-! ### Fields read back what was written -/

theorem iFixsize_decodes (bytes : List UInt8) :
    Reader.Decodes (iFixsize bytes.length) bytes bytes :=
  Reader.Decodes.take Exception.ioError bytes

theorem iByte_decodes (byte : UInt8) : Reader.Decodes iByte [byte] byte :=
  (iFixsize_decodes [byte]).map (fun bytes : List UInt8 => bytes.headD 0)

theorem iBool_decodes (b : Bool) : Reader.Decodes iBool (oBool b) b := by
  intro rest
  cases b with
  | false => exact Reader.bind_ok (iByte_decodes 0 rest)
  | true => exact Reader.bind_ok (iByte_decodes 1 rest)

theorem iInt_decodes (receiver : Host) {width : Nat} (bytes : List UInt8)
    (size : bytes.length = width) :
    Reader.Decodes (iInt receiver width) bytes (receiver.endianness.ofMemory width bytes) := by
  subst size
  exact (iFixsize_decodes bytes).map (receiver.endianness.ofMemory bytes.length)

theorem iFixsize_framed (bytes : List UInt8) :
    Reader.Framed .ioError (iFixsize bytes.length) bytes bytes :=
  Reader.Framed.take Exception.ioError bytes

theorem iByte_framed (byte : UInt8) : Reader.Framed .ioError iByte [byte] byte :=
  (iFixsize_framed [byte]).map (fun bytes : List UInt8 => bytes.headD 0)

theorem iBool_framed (b : Bool) : Reader.Framed .ioError iBool (oBool b) b := by
  cases b with
  | false => exact (iByte_framed 0).bind_nil (Reader.Decodes.pure false)
  | true => exact (iByte_framed 1).bind_nil (Reader.Decodes.pure true)

theorem iInt_framed (receiver : Host) {width : Nat} (bytes : List UInt8)
    (size : bytes.length = width) :
    Reader.Framed .ioError (iInt receiver width) bytes
      (receiver.endianness.ofMemory width bytes) := by
  subst size
  exact (iFixsize_framed bytes).map (receiver.endianness.ofMemory bytes.length)

theorem newArray_decodes (host : Host) (size : Nat) (room : host.alloc size = true) :
    Reader.Decodes (newArray host size) [] () := by
  rw [newArray, if_pos room]
  exact Reader.Decodes.pure ()

theorem newVector_decodes (host : Host) (size : Nat) (room : host.alloc size = true) :
    Reader.Decodes (newVector host size) [] () := by
  rw [newVector, if_pos room]
  exact Reader.Decodes.pure ()

theorem makeString_decodes (str : CxxString) :
    Reader.Decodes (makeString str.bytes) [] str := by
  rw [makeString, dif_pos str.size_lt]
  exact Reader.Decodes.pure str

/-- The length header of `o_str` and the form of it `i_str` reads. -/
def oStrLength (host : Host) (strLen64 : Nat) : List UInt8 :=
  if strLen64 > 254 then 255 :: oInt host (BitVec.ofNat (8 * 8) strLen64)
  else [UInt8.ofNat strLen64]

theorem oStr_eq_append (host : Host) (str : CxxString) :
    oStr host str = oStrLength host str.bytes.length ++ str.bytes := by
  rw [oStr, oStrLength]
  by_cases empty : str.bytes.length = 0
  · rw [List.length_eq_zero_iff.mp empty]
    rfl
  · simp only [ne_eq, empty, not_false_eq_true, if_true]

theorem iStrLength_short (receiver : Host) (strLen8 : UInt8) (short : strLen8 ≠ 255) :
    Reader.Decodes (iStrLength receiver) [strLen8] strLen8.toNat := by
  apply (iByte_decodes strLen8).bind_nil
  rw [if_neg short]
  exact Reader.Decodes.pure strLen8.toNat

theorem iStrLength_long (receiver : Host) (bytes : List UInt8) (size : bytes.length = 8) :
    Reader.Decodes (iStrLength receiver) (255 :: bytes)
      (receiver.endianness.ofMemory 8 bytes).toNat := by
  change Reader.Decodes _ ([255] ++ bytes) _
  apply (iByte_decodes 255).bind
  rw [if_pos rfl]
  exact (iInt_decodes receiver bytes size).map BitVec.toNat

private theorem makeString_eq_ok {bytes stream rest : List UInt8} {str : CxxString}
    (made : makeString bytes stream = .ok (str, rest)) :
    str.bytes = bytes ∧ rest = stream := by
  rw [makeString] at made
  split at made
  · cases made
    exact ⟨rfl, rfl⟩
  · cases made

theorem iByte_eq_ok {stream rest : List UInt8} {byte : UInt8}
    (read : iByte stream = .ok (byte, rest)) : stream = byte :: rest := by
  obtain ⟨bytes, taken, same⟩ := Reader.map_eq_ok.mp read
  obtain ⟨rfl, size⟩ := Reader.take_eq_ok.mp taken
  obtain ⟨only, rfl⟩ := List.length_eq_one_iff.mp size
  cases same
  rfl

theorem iBool_eq_ok {stream rest : List UInt8} {b : Bool}
    (read : iBool stream = .ok (b, rest)) : stream = oBool b ++ rest := by
  obtain ⟨byte, between, byteRead, decided⟩ := Reader.bind_eq_ok.mp read
  rw [iByte_eq_ok byteRead]
  split at decided
  · rename_i zero
    cases decided
    rw [zero]
    rfl
  · split at decided
    · rename_i one
      cases decided
      rw [one]
      rfl
    · cases decided

theorem newArray_eq_ok {host : Host} {size : Nat} {stream rest : List UInt8}
    (made : newArray host size stream = .ok ((), rest)) :
    host.alloc size = true ∧ rest = stream := by
  rw [newArray] at made
  split at made
  · cases made
    exact ⟨by assumption, rfl⟩
  · cases made

theorem newVector_eq_ok {host : Host} {size : Nat} {stream rest : List UInt8}
    (made : newVector host size stream = .ok ((), rest)) :
    host.alloc size = true ∧ rest = stream := by
  rw [newVector] at made
  split at made
  · cases made
    exact ⟨by assumption, rfl⟩
  · split at made <;> cases made

theorem iStr_eq_ok {host : Host} {stream rest : List UInt8} {str : CxxString} :
    iStr host stream = .ok (str, rest) ↔
      iStrLength host stream = .ok (str.bytes.length, str.bytes ++ rest) ∧
        (str.bytes.length = 0 ∨ host.alloc str.bytes.length = true) := by
  constructor
  · intro read
    obtain ⟨strLen64, between, lengthRead, bodyRead⟩ := Reader.bind_eq_ok.mp read
    rw [lengthRead]
    split at bodyRead
    · cases bodyRead
      rename_i zero
      rw [zero]
      exact ⟨rfl, Or.inl rfl⟩
    · obtain ⟨_unit, after, arrayRead, bytesRead⟩ := Reader.bind_eq_ok.mp bodyRead
      obtain ⟨bytes, left, taken, made⟩ := Reader.bind_eq_ok.mp bytesRead
      obtain ⟨room, rfl⟩ := newArray_eq_ok arrayRead
      obtain ⟨rfl, rfl⟩ := Reader.take_eq_ok.mp taken
      obtain ⟨rfl, rfl⟩ := makeString_eq_ok made
      exact ⟨rfl, Or.inr room⟩
  · intro parts
    obtain ⟨lengthRead, room⟩ := parts
    apply (Reader.bind_ok lengthRead).trans
    by_cases empty : str.bytes.length = 0
    · have noBytes := List.length_eq_zero_iff.mp empty
      have same : CxxString.empty = str := CxxString.ext noBytes.symm
      rw [if_pos empty, noBytes, same]
      rfl
    · rw [if_neg empty]
      exact (newArray_decodes host _ (room.resolve_left empty)).nil_bind
        ((iFixsize_decodes str.bytes).bind_nil (makeString_decodes str)) rest

section LittleEndianReceiver

variable (sender receiver : Host) (little : receiver.endianness = .littleEndian)
  (ample : ∀ size, receiver.alloc size = true)

include little

theorem iInt_oInt_decodes {width : Nat} (num : BitVec (8 * width)) :
    Reader.Decodes (iInt receiver width) (oInt sender num) num := by
  have read := iInt_decodes receiver (oInt sender num) (oInt_length sender num)
  rw [oInt_eq_bytesOf, little] at read
  rw [oInt_eq_bytesOf]
  simpa only [Endianness.ofMemory, FixedWidth.patternOf_bytesOf] using read

theorem iInt_oInt_framed {width : Nat} (num : BitVec (8 * width)) :
    Reader.Framed .ioError (iInt receiver width) (oInt sender num) num :=
  ⟨iInt_oInt_decodes sender receiver little num,
    (iInt_framed receiver (oInt sender num) (oInt_length sender num)).truncated⟩

private theorem iStrLength_decodes (strLen64 : Nat) (size : strLen64 < 2 ^ 64) :
    Reader.Decodes (iStrLength receiver) (oStrLength sender strLen64) strLen64 := by
  unfold oStrLength
  by_cases long : strLen64 > 254
  · rw [if_pos long]
    have header := iStrLength_long receiver
      (oInt sender (BitVec.ofNat (8 * 8) strLen64)) (oInt_length sender _)
    rw [oInt_eq_bytesOf, little] at header
    rw [oInt_eq_bytesOf]
    simpa only [Endianness.ofMemory, FixedWidth.patternOf_bytesOf, BitVec.toNat_ofNat,
      Nat.mod_eq_of_lt size] using header
  · rw [if_neg long]
    have byteValue : (UInt8.ofNat strLen64).toNat = strLen64 := by
      rw [UInt8.toNat_ofNat']
      omega
    have short : UInt8.ofNat strLen64 ≠ 255 := by
      intro same
      have values := congrArg UInt8.toNat same
      rw [byteValue] at values
      change strLen64 = 255 at values
      omega
    simpa only [byteValue] using iStrLength_short receiver (UInt8.ofNat strLen64) short

private theorem iStrLength_framed (strLen64 : Nat) (size : strLen64 < 2 ^ 64) :
    Reader.Framed .ioError (iStrLength receiver) (oStrLength sender strLen64) strLen64 := by
  constructor
  case decodes => exact iStrLength_decodes sender receiver little strLen64 size
  case truncated =>
    unfold oStrLength
    by_cases long : strLen64 > 254
    · rw [if_pos long]
      change Reader.Truncated _ _ ([255] ++ oInt sender (BitVec.ofNat (8 * 8) strLen64))
      apply Reader.Truncated.bind (iByte_framed 255)
      rw [if_pos rfl]
      exact ((iInt_framed receiver _ (oInt_length sender _)).map BitVec.toNat).truncated
    · rw [if_neg long]
      exact (iByte_framed _).truncated.bind_left

theorem iStr_framed (str : CxxString) (room : receiver.alloc str.bytes.length = true) :
    Reader.Framed .ioError (iStr receiver) (oStr sender str) str := by
  rw [oStr_eq_append]
  apply (iStrLength_framed sender receiver little str.bytes.length str.size_lt).bind
  by_cases empty : str.bytes.length = 0
  · have noBytes := List.length_eq_zero_iff.mp empty
    have same : CxxString.empty = str := CxxString.ext noBytes.symm
    rw [if_pos empty, noBytes, same]
    exact Reader.Framed.pure _ str
  · rw [if_neg empty]
    have body := (iFixsize_framed str.bytes).bind_nil (makeString_decodes str)
    exact Reader.Framed.nil_bind (newArray_decodes receiver str.bytes.length room) body

include ample

theorem iStr_decodes (str : CxxString) :
    Reader.Decodes (iStr receiver) (oStr sender str) str :=
  (iStr_framed sender receiver little str (ample _)).decodes

theorem iBin_decodes (p : Option (List UInt8)) (size : (p.getD []).length < 2 ^ 32) :
    Reader.Decodes (iBin receiver) (oBin sender p)
      (if p.getD [] = [] then none else p) := by
  have header := (iInt_oInt_decodes sender receiver little
    (BitVec.ofNat (8 * 4) (p.getD []).length)).map BitVec.toNat
  rw [BitVec.toNat_ofNat, Nat.mod_eq_of_lt size] at header
  apply header.bind
  by_cases empty : p.getD [] = []
  · rw [empty]
    exact Reader.Decodes.pure none
  · have positive : (p.getD []).length ≠ 0 :=
      fun zero => empty (List.length_eq_zero_iff.mp zero)
    rw [if_neg positive, if_neg empty, if_pos positive]
    cases p with
    | none => exact absurd rfl empty
    | some block =>
        have body := (iFixsize_decodes block).map some
        exact (newArray_decodes receiver block.length (ample _)).bind body

end LittleEndianReceiver

end Socketxx.SimpleSocket
