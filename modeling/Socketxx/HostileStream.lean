import Socketxx.PairOrder

/-!
`i_var` on an arbitrary stream, which may come from anyone.

`ValueWord` is the format a receiver accepts, read off the wire without its values;
`IllegalByte` holds of a stream on which, after whole values only, a type byte is none
of the enumerators or a bool is neither 0 nor 1. These are the streams on which the
function runs into undefined behaviour; on all others it returns or throws.
-/

set_option autoImplicit false

namespace Socketxx.SimpleSocket

open StreamReader

variable (host : Host) (codes : TypeCodes)

/-- A string header, and the length the receiver takes from it. -/
inductive LengthWord : List UInt8 → Nat → Prop where
  | short (strLen8 : UInt8) (short : strLen8 ≠ 255) : LengthWord [strLen8] strLen8.toNat
  | long (bytes : List UInt8) (size : bytes.length = 8) :
      LengthWord (255 :: bytes) (host.endianness.ofMemory 8 bytes).toNat

inductive StringWord : List UInt8 → Prop where
  | mk (header bytes : List UInt8) (length : LengthWord host header bytes.length)
      (room : bytes.length = 0 ∨ host.alloc bytes.length = true) :
      StringWord (header ++ bytes)

def entryWord (entry : List UInt8 × List UInt8) : List UInt8 :=
  match host.pairOrder with
  | .keyFirst => entry.1 ++ entry.2
  | .valueFirst => entry.2 ++ entry.1

inductive ValueWord : List UInt8 → Prop where
  | void : ValueWord [codes.code .void]
  | str (word : List UInt8) (string : StringWord host word) :
      ValueWord (codes.code .str :: word)
  | float (bytes : List UInt8) (size : bytes.length = 8) :
      ValueWord (codes.code .float :: bytes)
  | int (bytes : List UInt8) (size : bytes.length = 8) : ValueWord (codes.code .int :: bytes)
  | char (c : UInt8) : ValueWord [codes.code .char, c]
  | bool (b : Bool) : ValueWord (codes.code .bool :: oBool b)
  | list (head : List UInt8) (elements : List (List UInt8)) (size : head.length = 8)
      (count : (host.endianness.ofMemory 8 head).toNat = elements.length)
      (room : host.alloc elements.length = true)
      (each : ∀ element ∈ elements, ValueWord element) :
      ValueWord (codes.code .list :: (head ++ elements.flatten))
  | map (head : List UInt8) (entries : List (List UInt8 × List UInt8))
      (size : head.length = 8)
      (count : (host.endianness.ofMemory 8 head).toNat = entries.length)
      (keys : ∀ entry ∈ entries, StringWord host entry.1)
      (each : ∀ entry ∈ entries, ValueWord entry.2) :
      ValueWord (codes.code .map :: (head ++ entries.flatMap (entryWord host)))

/-- Reading the stream arrives at a byte that is not allowed where it stands. -/
inductive IllegalByte : List UInt8 → Prop where
  | type (byte : UInt8) (rest : List UInt8) (unknown : ∀ type, codes.code type ≠ byte) :
      IllegalByte (byte :: rest)
  | bool (byte : UInt8) (rest : List UInt8) (notFalse : byte ≠ 0) (notTrue : byte ≠ 1) :
      IllegalByte (codes.code .bool :: byte :: rest)
  | list (head : List UInt8) (elements : List (List UInt8)) (left : List UInt8)
      (size : head.length = 8)
      (more : elements.length < (host.endianness.ofMemory 8 head).toNat)
      (room : host.alloc (host.endianness.ofMemory 8 head).toNat = true)
      (each : ∀ element ∈ elements, ValueWord host codes element) (inside : IllegalByte left) :
      IllegalByte (codes.code .list :: (head ++ (elements.flatten ++ left)))
  | mapKeyFirst (head : List UInt8) (entries : List (List UInt8 × List UInt8))
      (key left : List UInt8) (order : host.pairOrder = .keyFirst) (size : head.length = 8)
      (more : entries.length < (host.endianness.ofMemory 8 head).toNat)
      (keys : ∀ entry ∈ entries, StringWord host entry.1)
      (each : ∀ entry ∈ entries, ValueWord host codes entry.2)
      (string : StringWord host key) (inside : IllegalByte left) :
      IllegalByte (codes.code .map ::
        (head ++ (entries.flatMap (entryWord host) ++ (key ++ left))))
  | mapValueFirst (head : List UInt8) (entries : List (List UInt8 × List UInt8))
      (left : List UInt8) (order : host.pairOrder = .valueFirst) (size : head.length = 8)
      (more : entries.length < (host.endianness.ofMemory 8 head).toNat)
      (keys : ∀ entry ∈ entries, StringWord host entry.1)
      (each : ∀ entry ∈ entries, ValueWord host codes entry.2) (inside : IllegalByte left) :
      IllegalByte (codes.code .map ::
        (head ++ (entries.flatMap (entryWord host) ++ left)))

/-! ### Strings -/

theorem LengthWord.decodes {header : List UInt8} {length : Nat}
    (word : LengthWord host header length) :
    Reader.Decodes (iStrLength host) header length := by
  cases word with
  | short strLen8 short => exact iStrLength_short host strLen8 short
  | long bytes size => exact iStrLength_long host bytes size

private theorem LengthWord.length_lt {header : List UInt8} {length : Nat}
    (word : LengthWord host header length) : length < 2 ^ 64 := by
  cases word with
  | short strLen8 short =>
      have small := strLen8.toNat_lt
      omega
  | long bytes size => exact (host.endianness.ofMemory 8 bytes).isLt

theorem iSize_word {stream rest : List UInt8} {size : Nat}
    (read : (BitVec.toNat <$> iInt host 8) stream = .ok (size, rest)) :
    ∃ head, stream = head ++ rest ∧ head.length = 8 ∧
      (host.endianness.ofMemory 8 head).toNat = size := by
  obtain ⟨num, numRead, same⟩ := Reader.map_eq_ok.mp read
  obtain ⟨head, taken, rfl⟩ := Reader.map_eq_ok.mp numRead
  obtain ⟨rfl, length⟩ := Reader.take_eq_ok.mp taken
  exact ⟨head, rfl, length, same⟩

theorem iStrLength_word {stream rest : List UInt8} {length : Nat}
    (read : iStrLength host stream = .ok (length, rest)) :
    ∃ header, stream = header ++ rest ∧ LengthWord host header length := by
  obtain ⟨strLen8, between, byteRead, decided⟩ := Reader.bind_eq_ok.mp read
  rw [iByte_eq_ok byteRead]
  split at decided
  · rename_i long
    obtain ⟨bytes, rfl, size, rfl⟩ := iSize_word host decided
    rw [long]
    exact ⟨255 :: bytes, rfl, LengthWord.long bytes size⟩
  · rename_i short
    cases decided
    exact ⟨[strLen8], rfl, LengthWord.short strLen8 short⟩

theorem iStr_word {stream rest : List UInt8} {str : CxxString}
    (read : iStr host stream = .ok (str, rest)) :
    ∃ word, stream = word ++ rest ∧ StringWord host word := by
  obtain ⟨lengthRead, room⟩ := iStr_eq_ok.mp read
  obtain ⟨header, rfl, length⟩ := iStrLength_word host lengthRead
  exact ⟨header ++ str.bytes, (List.append_assoc ..).symm,
    StringWord.mk header str.bytes length room⟩

theorem StringWord.decodes {word : List UInt8} (string : StringWord host word) :
    ∃ str, Reader.Decodes (iStr host) word str := by
  cases string with
  | mk header bytes length room =>
      refine ⟨⟨bytes, length.length_lt host⟩, fun rest => ?_⟩
      rw [List.append_assoc]
      exact iStr_eq_ok.mpr ⟨length.decodes host (bytes ++ rest), room⟩

theorem iStr_ne_undefined (stream : List UInt8) (fault : Fault) :
    iStr host stream ≠ .undefined fault :=
  (SimpleSocket.iStr_settles host).ne_undefined stream fault

/-! ### What is accepted is well formed, and what is well formed is accepted -/

def PairWord (_entry : CxxString × PolyTree) (word : List UInt8) : Prop :=
  ∃ parts : List UInt8 × List UInt8, word = entryWord host parts ∧
    StringWord host parts.1 ∧ ValueWord host codes parts.2

theorem iPair_word {nested : Receive PolyTree}
    (inner : ∀ stream tree rest, nested stream = .ok (tree, rest) →
      ∃ word, stream = word ++ rest ∧ ValueWord host codes word)
    (stream : List UInt8) (entry : CxxString × PolyTree) (rest : List UInt8)
    (read : iPair host nested stream = .ok (entry, rest)) :
    ∃ word, stream = word ++ rest ∧ PairWord host codes entry word := by
  rw [iPair] at read
  cases order : host.pairOrder with
  | keyFirst =>
      rw [order] at read
      obtain ⟨key, between, keyRead, later⟩ := Reader.bind_eq_ok.mp read
      obtain ⟨element, elementRead, _same⟩ := Reader.map_eq_ok.mp later
      obtain ⟨keyWord, rfl, string⟩ := iStr_word host keyRead
      obtain ⟨elementWord, rfl, value⟩ := inner between element rest elementRead
      refine ⟨keyWord ++ elementWord, (List.append_assoc ..).symm,
        (keyWord, elementWord), ?_, string, value⟩
      rw [entryWord, order]
  | valueFirst =>
      rw [order] at read
      obtain ⟨element, between, elementRead, later⟩ := Reader.bind_eq_ok.mp read
      obtain ⟨key, keyRead, _same⟩ := Reader.map_eq_ok.mp later
      obtain ⟨elementWord, rfl, value⟩ := inner stream element between elementRead
      obtain ⟨keyWord, rfl, string⟩ := iStr_word host keyRead
      refine ⟨elementWord ++ keyWord, (List.append_assoc ..).symm,
        (keyWord, elementWord), ?_, string, value⟩
      rw [entryWord, order]

theorem parts_of_pairs (pairs : List ((CxxString × PolyTree) × List UInt8))
    (each : ∀ pair ∈ pairs, PairWord host codes pair.1 pair.2) :
    ∃ entries : List (List UInt8 × List UInt8), entries.length = pairs.length ∧
      pairs.flatMap Prod.snd = entries.flatMap (entryWord host) ∧
      (∀ entry ∈ entries, StringWord host entry.1) ∧
      ∀ entry ∈ entries, ValueWord host codes entry.2 := by
  induction pairs with
  | nil => exact ⟨[], rfl, rfl, by simp, by simp⟩
  | cons head tail ih =>
      obtain ⟨parts, word, string, value⟩ := each head List.mem_cons_self
      obtain ⟨entries, length, words, strings, values⟩ :=
        ih (fun pair member => each pair (List.mem_cons_of_mem _ member))
      refine ⟨parts :: entries, by simp [length], ?_, ?_, ?_⟩
      · rw [List.flatMap_cons, List.flatMap_cons, word, words]
      · exact List.forall_mem_cons.mpr ⟨string, strings⟩
      · exact List.forall_mem_cons.mpr ⟨value, values⟩

private theorem iVarSwitch_word {nested : Receive PolyTree}
    (inner : ∀ stream tree rest, nested stream = .ok (tree, rest) →
      ∃ word, stream = word ++ rest ∧ ValueWord host codes word)
    (type : PolyType) (stream : List UInt8) (tree : PolyTree) (rest : List UInt8)
    (read : iVarSwitch host nested (some type) stream = .ok (tree, rest)) :
    ∃ word, stream = word ++ rest ∧ ValueWord host codes (codes.code type :: word) := by
  cases type with
  | void =>
      cases read
      exact ⟨[], rfl, ValueWord.void⟩
  | str =>
      obtain ⟨s, sRead, _same⟩ := Reader.map_eq_ok.mp read
      obtain ⟨word, rfl, string⟩ := iStr_word host sRead
      exact ⟨word, rfl, ValueWord.str word string⟩
  | float =>
      obtain ⟨f, fRead, _same⟩ := Reader.map_eq_ok.mp read
      obtain ⟨bytes, taken, _num⟩ := Reader.map_eq_ok.mp fRead
      obtain ⟨rfl, size⟩ := Reader.take_eq_ok.mp taken
      exact ⟨bytes, rfl, ValueWord.float bytes size⟩
  | int =>
      obtain ⟨i, iRead, _same⟩ := Reader.map_eq_ok.mp read
      obtain ⟨bytes, taken, _num⟩ := Reader.map_eq_ok.mp iRead
      obtain ⟨rfl, size⟩ := Reader.take_eq_ok.mp taken
      exact ⟨bytes, rfl, ValueWord.int bytes size⟩
  | char =>
      obtain ⟨c, cRead, _same⟩ := Reader.map_eq_ok.mp read
      exact ⟨[c], iByte_eq_ok cRead, ValueWord.char c⟩
  | bool =>
      obtain ⟨b, bRead, _same⟩ := Reader.map_eq_ok.mp read
      exact ⟨oBool b, iBool_eq_ok bRead, ValueWord.bool b⟩
  | list =>
      obtain ⟨size, between, sizeRead, later⟩ := Reader.bind_eq_ok.mp read
      obtain ⟨_unit, after, vectorMade, loop⟩ := Reader.bind_eq_ok.mp later
      obtain ⟨v, elementsRead, _same⟩ := Reader.map_eq_ok.mp loop
      obtain ⟨room, rfl⟩ := newVector_eq_ok vectorMade
      obtain ⟨head, rfl, headSize, value⟩ := iSize_word host sizeRead
      obtain ⟨pairs, count, _trees, rfl, each⟩ := Reader.times_eq_ok inner elementsRead
      have words : pairs.flatMap Prod.snd = (pairs.map Prod.snd).flatten :=
        List.flatMap_def ..
      refine ⟨head ++ pairs.flatMap Prod.snd, (List.append_assoc ..).symm, ?_⟩
      rw [words]
      refine ValueWord.list head (pairs.map Prod.snd) headSize ?_ ?_ ?_
      · rw [List.length_map, value, count]
      · rw [List.length_map, count]
        exact room
      · intro element member
        obtain ⟨pair, present, rfl⟩ := List.mem_map.mp member
        exact each pair present
  | map =>
      obtain ⟨sz, between, sizeRead, loop⟩ := Reader.bind_eq_ok.mp read
      rw [iMapEntries_eq_insertAll] at loop
      obtain ⟨m, mapRead, _same⟩ := Reader.map_eq_ok.mp loop
      obtain ⟨found, entriesRead, _built⟩ := Reader.map_eq_ok.mp mapRead
      obtain ⟨head, rfl, headSize, value⟩ := iSize_word host sizeRead
      obtain ⟨pairs, count, _trees, rfl, each⟩ :=
        Reader.times_eq_ok (iPair_word host codes inner) entriesRead
      obtain ⟨entries, length, words, strings, values⟩ := parts_of_pairs host codes pairs each
      refine ⟨head ++ pairs.flatMap Prod.snd, (List.append_assoc ..).symm, ?_⟩
      rw [words]
      exact ValueWord.map head entries headSize (by rw [value, length, count]) strings values

theorem iVarFuel_word (fuel : Nat) (stream : List UInt8) (tree : PolyTree)
    (rest : List UInt8) (read : iVarFuel host codes fuel stream = .ok (tree, rest)) :
    ∃ word, stream = word ++ rest ∧ ValueWord host codes word := by
  induction fuel generalizing stream tree rest with
  | zero => cases read
  | succ fuel ih =>
      obtain ⟨type, between, rfl, switched⟩ := iVarFuel_eq_ok host codes read
      obtain ⟨word, rfl, value⟩ :=
        iVarSwitch_word host codes ih type between tree rest switched
      exact ⟨codes.code type :: word, rfl, value⟩

theorem iSize_decodes_word (head : List UInt8) (size : head.length = 8) :
    Reader.Decodes (BitVec.toNat <$> iInt host 8) head
      (host.endianness.ofMemory 8 head).toNat :=
  (iInt_decodes host head size).map BitVec.toNat

private theorem entryWord_decodes {nested : Receive PolyTree} (parts : List UInt8 × List UInt8)
    (string : StringWord host parts.1)
    (element : ∃ tree, Reader.Decodes nested parts.2 tree) :
    ∃ entry, Reader.Decodes (iPair host nested) (entryWord host parts) entry := by
  obtain ⟨key, keyRead⟩ := string.decodes host
  obtain ⟨tree, treeRead⟩ := element
  refine ⟨(key, tree), ?_⟩
  rw [iPair, entryWord]
  cases host.pairOrder with
  | keyFirst => exact keyRead.bind (treeRead.map (fun element => (key, element)))
  | valueFirst => exact treeRead.bind (keyRead.map (fun key => (key, tree)))

theorem entryWord_length_le (parts : List UInt8 × List UInt8) :
    parts.2.length ≤ (entryWord host parts).length := by
  unfold entryWord
  split <;> simp only [List.length_append] <;> omega

private theorem entryWords_decode {nested : Receive PolyTree}
    (entries : List (List UInt8 × List UInt8))
    (keys : ∀ entry ∈ entries, StringWord host entry.1)
    (each : ∀ entry ∈ entries, ∃ tree, Reader.Decodes nested entry.2 tree) :
    ∀ word ∈ entries.map (entryWord host),
      ∃ entry, Reader.Decodes (iPair host nested) word entry := by
  intro word member
  obtain ⟨parts, present, rfl⟩ := List.mem_map.mp member
  exact entryWord_decodes host parts (keys parts present) (each parts present)

private theorem entries_decode {nested : Receive PolyTree}
    (entries : List (List UInt8 × List UInt8))
    (keys : ∀ entry ∈ entries, StringWord host entry.1)
    (each : ∀ entry ∈ entries, ∃ tree, Reader.Decodes nested entry.2 tree) :
    ∃ found, Reader.Decodes (Reader.times (iPair host nested) entries.length)
      (entries.flatMap (entryWord host)) found := by
  have read := Reader.Decodes.times_words (entries.map (entryWord host))
    (entryWords_decode host entries keys each)
  rwa [List.length_map, ← List.flatMap_def] at read

theorem ValueWord.decodes {word : List UInt8} (value : ValueWord host codes word) (fuel : Nat)
    (enough : word.length ≤ fuel) :
    ∃ tree, Reader.Decodes (iVarFuel host codes (fuel + 1)) word tree := by
  induction value generalizing fuel with
  | void => exact ⟨.void, iVarFuel_decodes host codes (Reader.Decodes.pure _)⟩
  | str word string =>
      obtain ⟨s, read⟩ := string.decodes host
      exact ⟨.str s, iVarFuel_decodes host codes (read.map _)⟩
  | float bytes size =>
      have read := iInt_decodes host bytes size
      exact ⟨.float (host.endianness.ofMemory 8 bytes),
        iVarFuel_decodes host codes (read.map _)⟩
  | int bytes size =>
      have read := iInt_decodes host bytes size
      exact ⟨.int (host.endianness.ofMemory 8 bytes),
        iVarFuel_decodes host codes (read.map _)⟩
  | char c => exact ⟨.char c, iVarFuel_decodes host codes ((iByte_decodes c).map _)⟩
  | bool b => exact ⟨.bool b, iVarFuel_decodes host codes ((iBool_decodes b).map _)⟩
  | list head elements size count room each ih =>
      rw [List.length_cons, List.length_append] at enough
      obtain ⟨fuel, rfl⟩ := Nat.exists_eq_add_one_of_ne_zero (by omega : fuel ≠ 0)
      obtain ⟨trees, read⟩ := Reader.Decodes.times_words elements (fun element member =>
        ih element member fuel (by
          have inside := (List.sublist_flatten_of_mem member).length_le
          omega))
      have header := iSize_decodes_word host head size
      rw [count] at header
      refine ⟨.list trees, iVarFuel_decodes host codes (header.bind ?_)⟩
      exact (newVector_decodes host elements.length room).nil_bind (read.map _)
  | map head entries size count keys each ih =>
      rw [List.length_cons, List.length_append] at enough
      obtain ⟨fuel, rfl⟩ := Nat.exists_eq_add_one_of_ne_zero (by omega : fuel ≠ 0)
      obtain ⟨found, read⟩ := entries_decode host entries keys (fun entry member =>
        ih entry member fuel (by
          have inside := length_le_flatMap (entryWord host) member
          have shorter := entryWord_length_le host entry
          omega))
      have header := iSize_decodes_word host head size
      rw [count] at header
      refine ⟨.map (OrderedMap.insertAll found),
        iVarFuel_decodes host codes (header.bind ?_)⟩
      rw [iMapEntries_eq_insertAll]
      exact (read.map _).map _

/-! ### Undefined behaviour, byte for byte -/

theorem iPair_eq_undefined {nested : Receive PolyTree} {stream : List UInt8} {fault : Fault} :
    iPair host nested stream = .undefined fault ↔
      (host.pairOrder = .keyFirst ∧ ∃ key between, iStr host stream = .ok (key, between) ∧
        nested between = .undefined fault) ∨
      (host.pairOrder = .valueFirst ∧ nested stream = .undefined fault) := by
  unfold iPair
  cases host.pairOrder with
  | keyFirst =>
      simp only [true_and, reduceCtorEq, false_and, or_false]
      constructor
      · intro faulty
        rcases Reader.bind_eq_undefined.mp faulty with string | ⟨key, between, read, later⟩
        · exact absurd string (iStr_ne_undefined host stream fault)
        · exact ⟨key, between, read, Reader.map_eq_undefined.mp later⟩
      · intro pair
        obtain ⟨key, between, read, later⟩ := pair
        exact (Reader.bind_ok read).trans (Reader.map_eq_undefined.mpr later)
  | valueFirst =>
      simp only [true_and, reduceCtorEq, false_and, false_or]
      constructor
      · intro faulty
        rcases Reader.bind_eq_undefined.mp faulty with now | ⟨element, between, _read, later⟩
        · exact now
        · exact absurd (Reader.map_eq_undefined.mp later) (iStr_ne_undefined host between fault)
      · intro faulty
        exact Reader.bind_undefined faulty

theorem iByte_ne_undefined (stream : List UInt8) (fault : Fault) :
    iByte stream ≠ .undefined fault :=
  SimpleSocket.iByte_settles.ne_undefined stream fault

theorem iInt_ne_undefined (width : Nat) (stream : List UInt8) (fault : Fault) :
    iInt host width stream ≠ .undefined fault :=
  (SimpleSocket.iInt_settles host width).ne_undefined stream fault

private theorem iSize_ne_undefined (stream : List UInt8) (fault : Fault) :
    (BitVec.toNat <$> iInt host 8) stream ≠ .undefined fault := by
  intro faulty
  exact iInt_ne_undefined host 8 stream fault (Reader.map_eq_undefined.mp faulty)

private theorem newVector_ne_undefined (size : Nat) (stream : List UInt8) (fault : Fault) :
    newVector host size stream ≠ .undefined fault := by
  intro faulty
  rw [newVector] at faulty
  split at faulty
  · cases faulty
  · split at faulty <;> cases faulty

private theorem iVarSwitch_illegal {nested : Receive PolyTree}
    (words : ∀ stream tree rest, nested stream = .ok (tree, rest) →
      ∃ word, stream = word ++ rest ∧ ValueWord host codes word)
    (inner : ∀ stream fault, nested stream = .undefined fault → IllegalByte host codes stream)
    (type : PolyType) (stream : List UInt8) (fault : Fault)
    (faulty : iVarSwitch host nested (some type) stream = .undefined fault) :
    IllegalByte host codes (codes.code type :: stream) := by
  cases type with
  | void => cases faulty
  | str => exact absurd (Reader.map_eq_undefined.mp faulty) (iStr_ne_undefined host _ _)
  | float => exact absurd (Reader.map_eq_undefined.mp faulty) (iInt_ne_undefined host _ _ _)
  | int => exact absurd (Reader.map_eq_undefined.mp faulty) (iInt_ne_undefined host _ _ _)
  | char => exact absurd (Reader.map_eq_undefined.mp faulty) (iByte_ne_undefined _ _)
  | bool =>
      have read := Reader.map_eq_undefined.mp faulty
      rcases Reader.bind_eq_undefined.mp read with byte | ⟨byte, rest, byteRead, decided⟩
      · exact absurd byte (iByte_ne_undefined _ _)
      · rw [iByte_eq_ok byteRead]
        split at decided
        · cases decided
        · rename_i notFalse
          split at decided
          · cases decided
          · rename_i notTrue
            exact IllegalByte.bool byte rest notFalse notTrue
  | list =>
      rcases Reader.bind_eq_undefined.mp faulty with size | ⟨size, between, sizeRead, later⟩
      · exact absurd size (iSize_ne_undefined host _ _)
      · obtain ⟨head, rfl, headSize, value⟩ := iSize_word host sizeRead
        rcases Reader.bind_eq_undefined.mp later with refused | ⟨_unit, after, vectorMade, loop⟩
        · exact absurd refused (newVector_ne_undefined host size between fault)
        · obtain ⟨room, rfl⟩ := newVector_eq_ok vectorMade
          obtain ⟨pairs, left, fewer, rfl, each, inside⟩ :=
            Reader.times_eq_failure (.undefined fault) words (Reader.map_eq_undefined.mp loop)
          rw [List.flatMap_def]
          refine IllegalByte.list head (pairs.map Prod.snd) left headSize ?_ ?_ ?_
            (inner left fault inside)
          · rw [List.length_map, value]
            exact fewer
          · rw [value]
            exact room
          · intro element member
            obtain ⟨pair, present, rfl⟩ := List.mem_map.mp member
            exact each pair present
  | map =>
      rcases Reader.bind_eq_undefined.mp faulty with size | ⟨sz, between, sizeRead, loop⟩
      · exact absurd size (iSize_ne_undefined host _ _)
      · obtain ⟨head, rfl, headSize, value⟩ := iSize_word host sizeRead
        rw [iMapEntries_eq_insertAll] at loop
        have entriesFaulty := Reader.map_eq_undefined.mp (Reader.map_eq_undefined.mp loop)
        obtain ⟨pairs, left, fewer, rfl, each, inside⟩ :=
          Reader.times_eq_failure (.undefined fault) (iPair_word host codes words) entriesFaulty
        obtain ⟨entries, length, parts, strings, values⟩ :=
          parts_of_pairs host codes pairs each
        have more : entries.length < (host.endianness.ofMemory 8 head).toNat := by
          rw [value, length]
          exact fewer
        rw [parts]
        rcases (iPair_eq_undefined host).mp inside with
          ⟨order, key, between, keyRead, nestedFaulty⟩ | ⟨order, nestedFaulty⟩
        · obtain ⟨keyWord, rfl, string⟩ := iStr_word host keyRead
          exact IllegalByte.mapKeyFirst head entries keyWord between order headSize more strings
            values string (inner between fault nestedFaulty)
        · exact IllegalByte.mapValueFirst head entries left order headSize more strings values
            (inner left fault nestedFaulty)

private theorem iVarFuel_illegal (fuel : Nat) (stream : List UInt8) (fault : Fault)
    (faulty : iVarFuel host codes fuel stream = .undefined fault) :
    IllegalByte host codes stream := by
  induction fuel generalizing stream fault with
  | zero => cases faulty
  | succ fuel ih =>
      rcases Reader.bind_eq_undefined.mp faulty with byte | ⟨byte, rest, byteRead, switched⟩
      · exact absurd byte (iByte_ne_undefined _ _)
      · rw [iByte_eq_ok byteRead]
        cases found : codes.typeOf byte with
        | none => exact IllegalByte.type byte rest ((codes.typeOf_eq_none byte).mp found)
        | some type =>
            rw [found] at switched
            have illegal := iVarSwitch_illegal host codes (iVarFuel_word host codes fuel) ih
              type rest fault switched
            rwa [(codes.typeOf_eq_some byte type).mp found] at illegal

theorem entries_failure (failure : Failure Exception Fault) {nested : Receive PolyTree}
    (entries : List (List UInt8 × List UInt8))
    (keys : ∀ entry ∈ entries, StringWord host entry.1)
    (each : ∀ entry ∈ entries, ∃ tree, Reader.Decodes nested entry.2 tree) {count : Nat}
    (fewer : entries.length < count) {left : List UInt8}
    (failed : iPair host nested left = failure.outcome) :
    iMapEntries host nested count [] (entries.flatMap (entryWord host) ++ left) =
      failure.outcome := by
  rw [iMapEntries_eq_insertAll]
  apply (Reader.map_eq_failure failure).mpr
  rw [List.flatMap_def]
  refine Reader.times_failure failure (entries.map (entryWord host))
    (entryWords_decode host entries keys each) ?_ failed
  rwa [List.length_map]

theorem elements_decoded {elements : List (List UInt8)} {fuel : Nat}
    (each : ∀ element ∈ elements, ValueWord host codes element)
    (enough : elements.flatten.length ≤ fuel) :
    ∀ element ∈ elements, ∃ tree,
      Reader.Decodes (iVarFuel host codes (fuel + 1)) element tree := by
  intro element member
  have inside := (List.sublist_flatten_of_mem member).length_le
  exact (each element member).decodes host codes fuel (by omega)

theorem entries_decoded {entries : List (List UInt8 × List UInt8)} {fuel : Nat}
    (each : ∀ entry ∈ entries, ValueWord host codes entry.2)
    (enough : (entries.flatMap (entryWord host)).length ≤ fuel) :
    ∀ entry ∈ entries, ∃ tree,
      Reader.Decodes (iVarFuel host codes (fuel + 1)) entry.2 tree := by
  intro entry member
  have inside := length_le_flatMap (entryWord host) member
  have shorter := entryWord_length_le host entry
  exact (each entry member).decodes host codes fuel (by omega)

private theorem IllegalByte.undefined {stream : List UInt8}
    (illegal : IllegalByte host codes stream)
    (fuel : Nat) (enough : stream.length ≤ fuel) :
    ∃ fault, iVarFuel host codes (fuel + 1) stream = .undefined fault := by
  induction illegal generalizing fuel with
  | type byte rest unknown =>
      refine ⟨.missingReturn, (Reader.bind_ok (iByte_decodes byte rest)).trans ?_⟩
      rw [(codes.typeOf_eq_none byte).mpr unknown]
      rfl
  | bool byte rest notFalse notTrue =>
      refine ⟨.badBool, ?_⟩
      rw [iVarFuel_code]
      apply Reader.map_eq_undefined.mpr
      apply (Reader.bind_ok (iByte_decodes byte rest)).trans
      rw [if_neg notFalse, if_neg notTrue]
      rfl
  | list head elements left size more room each inside ih =>
      rw [List.length_cons, List.length_append, List.length_append] at enough
      obtain ⟨fuel, rfl⟩ := Nat.exists_eq_add_one_of_ne_zero (by omega : fuel ≠ 0)
      obtain ⟨fault, faulty⟩ := ih fuel (by omega)
      refine ⟨fault, ?_⟩
      rw [iVarFuel_code]
      apply (Reader.bind_ok (iSize_decodes_word host head size _)).trans
      apply (Reader.bind_ok (newVector_decodes host _ room _)).trans
      exact Reader.map_eq_undefined.mpr (Reader.times_failure (.undefined fault) elements
        (elements_decoded host codes each (by omega)) more faulty)
  | mapKeyFirst head entries key left order size more keys each string inside ih =>
      rw [List.length_cons, List.length_append, List.length_append, List.length_append]
        at enough
      obtain ⟨fuel, rfl⟩ := Nat.exists_eq_add_one_of_ne_zero (by omega : fuel ≠ 0)
      obtain ⟨fault, faulty⟩ := ih fuel (by omega)
      obtain ⟨str, keyRead⟩ := string.decodes host
      refine ⟨fault, ?_⟩
      rw [iVarFuel_code]
      apply (Reader.bind_ok (iSize_decodes_word host head size _)).trans
      refine Reader.map_eq_undefined.mpr (entries_failure host (.undefined fault) entries keys
        (entries_decoded host codes each (by omega)) more ?_)
      exact (iPair_eq_undefined host).mpr (.inl ⟨order, str, left, keyRead left, faulty⟩)
  | mapValueFirst head entries left order size more keys each inside ih =>
      rw [List.length_cons, List.length_append, List.length_append] at enough
      obtain ⟨fuel, rfl⟩ := Nat.exists_eq_add_one_of_ne_zero (by omega : fuel ≠ 0)
      obtain ⟨fault, faulty⟩ := ih fuel (by omega)
      refine ⟨fault, ?_⟩
      rw [iVarFuel_code]
      apply (Reader.bind_ok (iSize_decodes_word host head size _)).trans
      refine Reader.map_eq_undefined.mpr (entries_failure host (.undefined fault) entries keys
        (entries_decoded host codes each (by omega)) more ?_)
      exact (iPair_eq_undefined host).mpr (.inr ⟨order, faulty⟩)

private theorem iVar_eq_undefined (stream : List UInt8) :
    (∃ fault, iVar host codes stream = .undefined fault) ↔ IllegalByte host codes stream := by
  constructor
  · intro undefined
    obtain ⟨fault, faulty⟩ := undefined
    exact iVarFuel_illegal host codes _ stream fault faulty
  · intro illegal
    exact illegal.undefined host codes stream.length (Nat.le_refl _)

/-- On any stream whatever, `i_var` returns or throws if and only if no byte of the
stream stands where no enumerator, or no bool, is equal to it. -/
theorem iVar_returns_or_throws_iff (stream : List UInt8) :
    ((∃ tree rest, iVar host codes stream = .ok (tree, rest)) ∨
        ∃ error, iVar host codes stream = .throw error) ↔
      ¬ IllegalByte host codes stream := by
  rw [← iVar_eq_undefined]
  cases ended : iVar host codes stream with
  | ok result =>
      refine iff_of_true (Or.inl ⟨result.1, result.2, rfl⟩) ?_
      intro undefined
      obtain ⟨fault, impossible⟩ := undefined
      cases impossible
  | throw error =>
      refine iff_of_true (Or.inr ⟨error, rfl⟩) ?_
      intro undefined
      obtain ⟨fault, impossible⟩ := undefined
      cases impossible
  | undefined fault =>
      refine iff_of_false ?_ (fun defined => defined ⟨fault, rfl⟩)
      rintro (⟨tree, rest, impossible⟩ | ⟨error, impossible⟩) <;> cases impossible
  | running => exact absurd ended (iVar_ne_running host codes stream)

theorem iVar_unknownType_undefined :
    ¬ ((∃ tree rest, iVar (Host.little .keyFirst) TypeCodes.consecutive [8] =
          .ok (tree, rest)) ∨
        ∃ error, iVar (Host.little .keyFirst) TypeCodes.consecutive [8] = .throw error) := by
  have undefined : iVar (Host.little .keyFirst) TypeCodes.consecutive [8] =
      .undefined .missingReturn := rfl
  rw [undefined]
  intro settled
  rcases settled with ⟨tree, rest, impossible⟩ | ⟨error, impossible⟩ <;> cases impossible

end Socketxx.SimpleSocket
