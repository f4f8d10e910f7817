import Socketxx.Session

/-!
Two hosts of different byte order. Only the sender converts, and it converts to
little-endian; the receiver copies the bytes into its own variable. A big-endian
receiver therefore finds the bytes of every integer in the opposite order.
-/

set_option autoImplicit false

namespace Socketxx.SimpleSocket

open StreamReader

/-- The receiver is little-endian, or the bytes of the integer read the same in both
directions. -/
def ReadsStraight (receiver : Host) {width : Nat} (num : BitVec (8 * width)) : Prop :=
  receiver.endianness = .littleEndian ∨
    (FixedWidth.bytesOf num).reverse = FixedWidth.bytesOf num

theorem ofMemory_bytesOf_iff (receiver : Host) {width : Nat} (num : BitVec (8 * width)) :
    receiver.endianness.ofMemory width (FixedWidth.bytesOf num) = num ↔
      ReadsStraight receiver num := by
  unfold ReadsStraight
  cases order : receiver.endianness with
  | littleEndian =>
      simp only [Endianness.ofMemory, FixedWidth.patternOf_bytesOf, true_or]
  | bigEndian =>
      have size : (FixedWidth.bytesOf num).reverse.length = width := by
        rw [List.length_reverse, FixedWidth.bytesOf_length]
      simp only [Endianness.ofMemory, reduceCtorEq, false_or]
      constructor
      · intro same
        have bytes := congrArg FixedWidth.bytesOf same
        rwa [FixedWidth.bytesOf_patternOf _ size] at bytes
      · intro same
        rw [same, FixedWidth.patternOf_bytesOf]

theorem iInt_oInt_apply (sender receiver : Host) {width : Nat} (num : BitVec (8 * width))
    (rest : List UInt8) :
    iInt receiver width (oInt sender num ++ rest) =
      .ok (receiver.endianness.ofMemory width (FixedWidth.bytesOf num), rest) := by
  rw [oInt_eq_bytesOf]
  exact iInt_decodes receiver _ (FixedWidth.bytesOf_length num) rest

theorem iInt_oInt_iff (sender receiver : Host) {width : Nat} (num : BitVec (8 * width))
    (rest : List UInt8) :
    iInt receiver width (oInt sender num ++ rest) = .ok (num, rest) ↔
      ReadsStraight receiver num := by
  rw [iInt_oInt_apply, ← ofMemory_bytesOf_iff]
  simp

theorem iSize_oInt_iff (sender receiver : Host) (size : Nat) (fits : size < 2 ^ 64)
    (rest : List UInt8) :
    (BitVec.toNat <$> iInt receiver 8) (oInt sender (BitVec.ofNat (8 * 8) size) ++ rest) =
        .ok (size, rest) ↔
      ReadsStraight receiver (BitVec.ofNat (8 * 8) size) := by
  rw [← iInt_oInt_iff sender receiver (BitVec.ofNat (8 * 8) size) rest, Reader.map_eq_ok]
  constructor
  · intro received
    obtain ⟨num, read, same⟩ := received
    rw [read]
    have value : num = BitVec.ofNat (8 * 8) size := by
      apply BitVec.eq_of_toNat_eq
      rw [same, BitVec.toNat_ofNat, Nat.mod_eq_of_lt fits]
    rw [value]
  · intro read
    exact ⟨_, read, by rw [BitVec.toNat_ofNat, Nat.mod_eq_of_lt fits]⟩

private theorem iStr_oStr_iff (sender : Host) (endianness : Endianness) (pairOrder : PairOrder)
    (str : CxxString) (rest : List UInt8) :
    iStr (Host.ample endianness pairOrder) (oStr sender str ++ rest) = .ok (str, rest) ↔
      str.bytes.length ≤ 254 ∨
        ReadsStraight (Host.ample endianness pairOrder)
          (BitVec.ofNat (8 * 8) str.bytes.length) := by
  let receiver := Host.ample endianness pairOrder
  have header : iStrLength receiver (oStr sender str ++ rest) =
      .ok (str.bytes.length, str.bytes ++ rest) ↔
        str.bytes.length ≤ 254 ∨
          ReadsStraight receiver (BitVec.ofNat (8 * 8) str.bytes.length) := by
    rw [oStr_eq_append, oStrLength, List.append_assoc]
    by_cases short : str.bytes.length ≤ 254
    · have byteValue : (UInt8.ofNat str.bytes.length).toNat = str.bytes.length := by
        rw [UInt8.toNat_ofNat']
        omega
      have notLong : UInt8.ofNat str.bytes.length ≠ 255 := by
        intro same
        have values := congrArg UInt8.toNat same
        rw [byteValue] at values
        change str.bytes.length = 255 at values
        omega
      rw [if_neg (by omega), iStrLength_short receiver _ notLong, byteValue]
      simp [short]
    · rw [if_pos (by omega), List.cons_append,
        ← iSize_oInt_iff sender receiver str.bytes.length str.size_lt (str.bytes ++ rest)]
      have read : iStrLength receiver
          (255 :: (oInt sender (BitVec.ofNat (8 * 8) str.bytes.length) ++
            (str.bytes ++ rest))) =
          (BitVec.toNat <$> iInt receiver 8)
            (oInt sender (BitVec.ofNat (8 * 8) str.bytes.length) ++ (str.bytes ++ rest)) :=
        Reader.bind_ok (iByte_decodes 255 _)
      rw [read]
      simp [short]
  rw [← header]
  constructor
  · intro read
    exact (iStr_eq_ok.mp read).1
  · intro lengthRead
    exact iStr_eq_ok.mpr ⟨lengthRead, Or.inr rfl⟩

def Block.received (block : Block) : Option (List UInt8) :=
  if block.bytes = [] then none else some block.bytes

theorem iBin_oBin_iff (sender : Host) (endianness : Endianness) (pairOrder : PairOrder)
    (block : Block) (rest : List UInt8) :
    iBin (Host.ample endianness pairOrder) (oBin sender (some block.bytes) ++ rest) =
        .ok (block.received, rest) ↔
      ReadsStraight (Host.ample endianness pairOrder)
        (BitVec.ofNat (8 * 4) block.bytes.length) := by
  let receiver := Host.ample endianness pairOrder
  let header := BitVec.ofNat (8 * 4) block.bytes.length
  have value : header.toNat = block.bytes.length := by
    rw [BitVec.toNat_ofNat, Nat.mod_eq_of_lt block.size_lt]
  have written : oBin sender (some block.bytes) = oInt sender header ++ block.bytes := by
    unfold oBin
    by_cases empty : block.bytes.length = 0
    · simp [header, List.length_eq_zero_iff.mp empty]
    · simp [header, empty]
  have first : (BitVec.toNat <$> iInt receiver 4) (oInt sender header ++ (block.bytes ++ rest)) =
      .ok ((receiver.endianness.ofMemory 4 (FixedWidth.bytesOf header)).toNat,
        block.bytes ++ rest) :=
    Reader.bind_ok (iInt_oInt_apply sender receiver header (block.bytes ++ rest))
  rw [written, List.append_assoc, ← ofMemory_bytesOf_iff, iBin, Reader.bind_ok first]
  constructor
  · intro read
    apply BitVec.eq_of_toNat_eq
    rw [value]
    split at read
    · rename_i zero
      by_cases empty : block.bytes = []
      · exact zero.trans (List.length_eq_zero_iff.mpr empty).symm
      · rw [Block.received, if_neg empty] at read
        cases read
    · rename_i positive
      obtain ⟨_unit, between, arrayRead, bytesRead⟩ := Reader.bind_eq_ok.mp read
      obtain ⟨bytes, taken, same⟩ := Reader.map_eq_ok.mp bytesRead
      obtain ⟨_split, size⟩ := Reader.take_eq_ok.mp taken
      rw [Block.received] at same
      split at same
      · cases same
      · cases same
        exact size.symm
  · intro same
    rw [same, value]
    by_cases empty : block.bytes = []
    · rw [Block.received, if_pos empty, empty]
      rfl
    · have positive : block.bytes.length ≠ 0 :=
        fun zero => empty (List.length_eq_zero_iff.mp zero)
      rw [Block.received, if_neg positive, if_neg empty]
      exact (newArray_decodes receiver block.bytes.length rfl).nil_bind
        ((iFixsize_decodes block.bytes).map some) rest

/-- Exactly when integers and the length headers built on them come out as they went
in: the receiver is little-endian or the bytes of the number are symmetric. Strings of
at most 254 bytes do not depend on it. -/
theorem endianness_roundTrip_iff (sender : Host) (endianness : Endianness)
    (pairOrder : PairOrder) :
    (∀ (width : Nat) (num : BitVec (8 * width)) (rest : List UInt8),
      iInt (Host.ample endianness pairOrder) width (oInt sender num ++ rest) =
          .ok (num, rest) ↔
        ReadsStraight (Host.ample endianness pairOrder) num) ∧
    (∀ (size : Fin (2 ^ 64)) (rest : List UInt8),
      (BitVec.toNat <$> iInt (Host.ample endianness pairOrder) 8)
          (oInt sender (BitVec.ofNat (8 * 8) size.val) ++ rest) = .ok (size.val, rest) ↔
        ReadsStraight (Host.ample endianness pairOrder) (BitVec.ofNat (8 * 8) size.val)) ∧
    (∀ (str : CxxString) (rest : List UInt8),
      iStr (Host.ample endianness pairOrder) (oStr sender str ++ rest) = .ok (str, rest) ↔
        str.bytes.length ≤ 254 ∨ ReadsStraight (Host.ample endianness pairOrder)
          (BitVec.ofNat (8 * 8) str.bytes.length)) ∧
    (∀ (block : Block) (rest : List UInt8),
      iBin (Host.ample endianness pairOrder) (oBin sender (some block.bytes) ++ rest) =
          .ok (block.received, rest) ↔
        ReadsStraight (Host.ample endianness pairOrder)
          (BitVec.ofNat (8 * 4) block.bytes.length)) := by
  refine ⟨?_, ?_, ?_, ?_⟩
  · intro width num rest
    exact iInt_oInt_iff sender _ num rest
  · intro size rest
    exact iSize_oInt_iff sender _ size.val size.isLt rest
  · intro str rest
    exact iStr_oStr_iff sender endianness pairOrder str rest
  · intro block rest
    exact iBin_oBin_iff sender endianness pairOrder block rest

theorem iInt_oInt_bigEndian_ne :
    iInt (Host.ample .bigEndian .keyFirst) 4
        (oInt (Host.ample .littleEndian .keyFirst) (BitVec.ofNat (8 * 4) 1) ++ []) ≠
      .ok (BitVec.ofNat (8 * 4) 1, []) := by
  intro read
  rcases (iInt_oInt_iff _ _ _ _).mp read with little | symmetric
  · cases little
  · revert symmetric
    decide

end Socketxx.SimpleSocket
