import Socketxx.HostileStream

/-!
A connection cut in the middle of a polyvar.

`ValueCut` holds of a stream that ends inside a value as the receiver spells it: what has
come of it are whole values, counts and lengths that the receiver has room for, and a
piece of the next one. These are the streams on which `i_var` throws `io_error`. Between
hosts that read the sizes as they are written every cut of a word of `o_var` is one of
them. A big-endian host misreads the sizes, and one that came whole may be refused.
-/

set_option autoImplicit false

namespace Socketxx.SimpleSocket

open StreamReader

/-- A build whose free store has room for `room` elements. -/
def Host.withRoom (endianness : Endianness) (pairOrder : PairOrder) (room : Nat) : Host :=
  { endianness := endianness
    pairOrder := pairOrder
    alloc := fun size => decide (size ≤ room)
    maxSize := 2 ^ 59 - 1 }

variable (host : Host) (codes : TypeCodes)

inductive StringCut : List UInt8 → Prop where
  | header : StringCut []
  | length (bytes : List UInt8) (short : bytes.length < 8) : StringCut (255 :: bytes)
  | bytes (header left : List UInt8) (length : Nat) (word : LengthWord host header length)
      (room : host.alloc length = true) (short : left.length < length) :
      StringCut (header ++ left)

/-- The stream ends inside a value, for a receiver that evaluates pairs as written. -/
inductive ValueCut : List UInt8 → Prop where
  | type : ValueCut []
  | str (left : List UInt8) (inside : StringCut host left) :
      ValueCut (codes.code .str :: left)
  | float (bytes : List UInt8) (short : bytes.length < 8) :
      ValueCut (codes.code .float :: bytes)
  | int (bytes : List UInt8) (short : bytes.length < 8) : ValueCut (codes.code .int :: bytes)
  | char : ValueCut [codes.code .char]
  | bool : ValueCut [codes.code .bool]
  | listSize (head : List UInt8) (short : head.length < 8) :
      ValueCut (codes.code .list :: head)
  | list (head : List UInt8) (elements : List (List UInt8)) (left : List UInt8)
      (size : head.length = 8)
      (more : elements.length < (host.endianness.ofMemory 8 head).toNat)
      (room : host.alloc (host.endianness.ofMemory 8 head).toNat = true)
      (each : ∀ element ∈ elements, ValueWord host codes element) (inside : ValueCut left) :
      ValueCut (codes.code .list :: (head ++ (elements.flatten ++ left)))
  | mapSize (head : List UInt8) (short : head.length < 8) : ValueCut (codes.code .map :: head)
  | mapKey (head : List UInt8) (entries : List (List UInt8 × List UInt8))
      (left : List UInt8) (size : head.length = 8)
      (more : entries.length < (host.endianness.ofMemory 8 head).toNat)
      (keys : ∀ entry ∈ entries, StringWord host entry.1)
      (each : ∀ entry ∈ entries, ValueWord host codes entry.2)
      (inside : StringCut host left) :
      ValueCut (codes.code .map :: (head ++ (entries.flatMap (entryWord host) ++ left)))
  | mapElement (head : List UInt8) (entries : List (List UInt8 × List UInt8))
      (key left : List UInt8) (size : head.length = 8)
      (more : entries.length < (host.endianness.ofMemory 8 head).toNat)
      (keys : ∀ entry ∈ entries, StringWord host entry.1)
      (each : ∀ entry ∈ entries, ValueWord host codes entry.2)
      (string : StringWord host key) (inside : ValueCut left) :
      ValueCut (codes.code .map ::
        (head ++ (entries.flatMap (entryWord host) ++ (key ++ left))))

/-! ### Fields that the stream ends in -/

theorem iByte_eq_ioError {stream : List UInt8} :
    iByte stream = .throw .ioError ↔ stream = [] := by
  rw [iByte, Reader.map_eq_throw, iFixsize, Reader.take_eq_throw, Nat.lt_one_iff,
    List.length_eq_zero_iff]

theorem iInt_eq_ioError {width : Nat} {stream : List UInt8} :
    iInt host width stream = .throw .ioError ↔ stream.length < width := by
  rw [iInt, Reader.map_eq_throw, iFixsize, Reader.take_eq_throw]

theorem iSize_eq_ioError {stream : List UInt8} :
    (BitVec.toNat <$> iInt host 8) stream = .throw .ioError ↔ stream.length < 8 := by
  rw [Reader.map_eq_throw, iInt_eq_ioError]

private theorem newArray_ne_ioError (size : Nat) (stream : List UInt8) :
    newArray host size stream ≠ .throw .ioError := by
  intro threw
  rw [newArray] at threw
  split at threw <;> cases threw

theorem newVector_ne_ioError (size : Nat) (stream : List UInt8) :
    newVector host size stream ≠ .throw .ioError := by
  intro threw
  rw [newVector] at threw
  split at threw
  · cases threw
  · split at threw <;> cases threw

private theorem makeString_ne_ioError (str stream : List UInt8) :
    makeString str stream ≠ .throw .ioError := by
  intro threw
  rw [makeString] at threw
  split at threw <;> cases threw

private theorem iStrLength_eq_ioError {stream : List UInt8} :
    iStrLength host stream = .throw .ioError ↔
      stream = [] ∨ ∃ bytes, stream = 255 :: bytes ∧ bytes.length < 8 := by
  rw [iStrLength, Reader.bind_eq_throw, iByte_eq_ioError]
  apply or_congr Iff.rfl
  constructor
  · intro later
    obtain ⟨strLen8, between, byteRead, decided⟩ := later
    rw [iByte_eq_ok byteRead]
    split at decided
    · rename_i long
      rw [long]
      exact ⟨between, rfl, (iSize_eq_ioError host).mp decided⟩
    · cases decided
  · intro long
    obtain ⟨bytes, rfl, short⟩ := long
    refine ⟨255, bytes, iByte_decodes 255 bytes, ?_⟩
    rw [if_pos rfl]
    exact (iSize_eq_ioError host).mpr short

theorem iStr_eq_ioError {stream : List UInt8} :
    iStr host stream = .throw .ioError ↔ StringCut host stream := by
  rw [iStr, Reader.bind_eq_throw, iStrLength_eq_ioError]
  constructor
  · rintro ((rfl | ⟨bytes, rfl, short⟩) | ⟨length, between, lengthRead, body⟩)
    · exact StringCut.header
    · exact StringCut.length bytes short
    · obtain ⟨header, rfl, word⟩ := iStrLength_word host lengthRead
      split at body
      · cases body
      · rcases Reader.bind_eq_throw.mp body with refused | ⟨_unit, after, made, bytesRead⟩
        · exact absurd refused (newArray_ne_ioError host length between)
        · obtain ⟨room, rfl⟩ := newArray_eq_ok made
          rcases Reader.bind_eq_throw.mp bytesRead with short | ⟨str, rest, _taken, copied⟩
          · exact StringCut.bytes header after length word room
              (Reader.take_eq_throw.mp short)
          · exact absurd copied (makeString_ne_ioError str rest)
  · intro cut
    cases cut with
    | header => exact Or.inl (Or.inl rfl)
    | length bytes short => exact Or.inl (Or.inr ⟨bytes, rfl, short⟩)
    | bytes header left length word room short =>
        refine Or.inr ⟨length, left, word.decodes host left, ?_⟩
        rw [if_neg (Nat.ne_of_gt (Nat.lt_of_le_of_lt (Nat.zero_le _) short))]
        apply (Reader.bind_ok (newArray_decodes host length room left)).trans
        exact Reader.bind_eq_throw.mpr (Or.inl (Reader.take_eq_throw.mpr short))

section WrittenOrder

variable (order : host.pairOrder = .keyFirst)

include order

theorem iPair_eq_ioError {nested : Receive PolyTree} {stream : List UInt8} :
    iPair host nested stream = .throw .ioError ↔
      StringCut host stream ∨ ∃ key between, iStr host stream = .ok (key, between) ∧
        nested between = .throw .ioError := by
  rw [iPair, order, ← iStr_eq_ioError]
  constructor
  · intro threw
    rcases Reader.bind_eq_throw.mp threw with short | ⟨key, between, read, later⟩
    · exact Or.inl short
    · exact Or.inr ⟨key, between, read, Reader.map_eq_throw.mp later⟩
  · rintro (short | ⟨key, between, read, later⟩)
    · exact Reader.bind_eq_throw.mpr (Or.inl short)
    · exact Reader.bind_eq_throw.mpr
        (Or.inr ⟨key, between, read, Reader.map_eq_throw.mpr later⟩)

/-! ### The streams that end inside a value -/

private theorem iVarSwitch_cut {nested : Receive PolyTree}
    (words : ∀ stream tree rest, nested stream = .ok (tree, rest) →
      ∃ word, stream = word ++ rest ∧ ValueWord host codes word)
    (inner : ∀ stream, nested stream = .throw .ioError → ValueCut host codes stream)
    (type : PolyType) (stream : List UInt8)
    (threw : iVarSwitch host nested (some type) stream = .throw .ioError) :
    ValueCut host codes (codes.code type :: stream) := by
  cases type with
  | void => cases threw
  | str =>
      exact ValueCut.str stream ((iStr_eq_ioError host).mp (Reader.map_eq_throw.mp threw))
  | float =>
      exact ValueCut.float stream ((iInt_eq_ioError host).mp (Reader.map_eq_throw.mp threw))
  | int =>
      exact ValueCut.int stream ((iInt_eq_ioError host).mp (Reader.map_eq_throw.mp threw))
  | char =>
      rw [iByte_eq_ioError.mp (Reader.map_eq_throw.mp threw)]
      exact ValueCut.char
  | bool =>
      rcases Reader.bind_eq_throw.mp (Reader.map_eq_throw.mp threw) with
        short | ⟨byte, rest, _read, decided⟩
      · rw [iByte_eq_ioError.mp short]
        exact ValueCut.bool
      · split at decided
        · cases decided
        · split at decided <;> cases decided
  | list =>
      rcases Reader.bind_eq_throw.mp threw with short | ⟨size, between, sizeRead, later⟩
      · exact ValueCut.listSize stream ((iSize_eq_ioError host).mp short)
      · obtain ⟨head, rfl, headSize, value⟩ := iSize_word host sizeRead
        rcases Reader.bind_eq_throw.mp later with refused | ⟨_unit, after, made, loop⟩
        · exact absurd refused (newVector_ne_ioError host size between)
        · obtain ⟨room, rfl⟩ := newVector_eq_ok made
          obtain ⟨pairs, left, fewer, rfl, each, inside⟩ :=
            Reader.times_eq_failure (.throw .ioError) words (Reader.map_eq_throw.mp loop)
          rw [List.flatMap_def]
          refine ValueCut.list head (pairs.map Prod.snd) left headSize ?_ ?_ ?_
            (inner left inside)
          · rw [List.length_map, value]
            exact fewer
          · rw [value]
            exact room
          · intro element member
            obtain ⟨pair, present, rfl⟩ := List.mem_map.mp member
            exact each pair present
  | map =>
      rcases Reader.bind_eq_throw.mp threw with short | ⟨sz, between, sizeRead, loop⟩
      · exact ValueCut.mapSize stream ((iSize_eq_ioError host).mp short)
      · obtain ⟨head, rfl, headSize, value⟩ := iSize_word host sizeRead
        rw [iMapEntries_eq_insertAll] at loop
        have entriesThrew := Reader.map_eq_throw.mp (Reader.map_eq_throw.mp loop)
        obtain ⟨pairs, left, fewer, rfl, each, inside⟩ :=
          Reader.times_eq_failure (.throw .ioError) (iPair_word host codes words) entriesThrew
        obtain ⟨entries, length, parts, strings, values⟩ :=
          parts_of_pairs host codes pairs each
        have more : entries.length < (host.endianness.ofMemory 8 head).toNat := by
          rw [value, length]
          exact fewer
        rw [parts]
        rcases (iPair_eq_ioError host order).mp inside with
          short | ⟨key, between, keyRead, nestedThrew⟩
        · exact ValueCut.mapKey head entries left headSize more strings values short
        · obtain ⟨keyWord, rfl, string⟩ := iStr_word host keyRead
          exact ValueCut.mapElement head entries keyWord between headSize more strings values
            string (inner between nestedThrew)

private theorem iVarFuel_cut (fuel : Nat) (stream : List UInt8)
    (threw : iVarFuel host codes fuel stream = .throw .ioError) :
    ValueCut host codes stream := by
  induction fuel generalizing stream with
  | zero => cases threw
  | succ fuel ih =>
      rcases Reader.bind_eq_throw.mp threw with short | ⟨byte, rest, byteRead, switched⟩
      · rw [iByte_eq_ioError.mp short]
        exact ValueCut.type
      · rw [iByte_eq_ok byteRead]
        cases found : codes.typeOf byte with
        | none =>
            rw [found] at switched
            cases switched
        | some type =>
            rw [found] at switched
            have cut := iVarSwitch_cut host codes order (iVarFuel_word host codes fuel) ih
              type rest switched
            rwa [(codes.typeOf_eq_some byte type).mp found] at cut

private theorem ValueCut.throws {stream : List UInt8} (cut : ValueCut host codes stream)
    (fuel : Nat)
    (enough : stream.length ≤ fuel) :
    iVarFuel host codes (fuel + 1) stream = .throw .ioError := by
  induction cut generalizing fuel with
  | type => exact Reader.bind_eq_throw.mpr (Or.inl (iByte_eq_ioError.mpr rfl))
  | str left inside =>
      rw [iVarFuel_code]
      exact Reader.map_eq_throw.mpr ((iStr_eq_ioError host).mpr inside)
  | float bytes short =>
      rw [iVarFuel_code]
      exact Reader.map_eq_throw.mpr ((iInt_eq_ioError host).mpr short)
  | int bytes short =>
      rw [iVarFuel_code]
      exact Reader.map_eq_throw.mpr ((iInt_eq_ioError host).mpr short)
  | char =>
      rw [iVarFuel_code]
      exact Reader.map_eq_throw.mpr (iByte_eq_ioError.mpr rfl)
  | bool =>
      rw [iVarFuel_code]
      exact Reader.map_eq_throw.mpr
        (Reader.bind_eq_throw.mpr (Or.inl (iByte_eq_ioError.mpr rfl)))
  | listSize head short =>
      rw [iVarFuel_code]
      exact Reader.bind_eq_throw.mpr (Or.inl ((iSize_eq_ioError host).mpr short))
  | list head elements left size more room each inside ih =>
      rw [List.length_cons, List.length_append, List.length_append] at enough
      obtain ⟨fuel, rfl⟩ := Nat.exists_eq_add_one_of_ne_zero (by omega : fuel ≠ 0)
      rw [iVarFuel_code]
      apply (Reader.bind_ok (iSize_decodes_word host head size _)).trans
      apply (Reader.bind_ok (newVector_decodes host _ room _)).trans
      exact Reader.map_eq_throw.mpr (Reader.times_failure (.throw .ioError) elements
        (elements_decoded host codes each (by omega)) more (ih fuel (by omega)))
  | mapSize head short =>
      rw [iVarFuel_code]
      exact Reader.bind_eq_throw.mpr (Or.inl ((iSize_eq_ioError host).mpr short))
  | mapKey head entries left size more keys each inside =>
      rw [List.length_cons, List.length_append, List.length_append] at enough
      obtain ⟨fuel, rfl⟩ := Nat.exists_eq_add_one_of_ne_zero (by omega : fuel ≠ 0)
      rw [iVarFuel_code]
      apply (Reader.bind_ok (iSize_decodes_word host head size _)).trans
      refine Reader.map_eq_throw.mpr (entries_failure host (.throw .ioError) entries keys
        (entries_decoded host codes each (by omega)) more ?_)
      exact (iPair_eq_ioError host order).mpr (Or.inl inside)
  | mapElement head entries key left size more keys each string inside ih =>
      rw [List.length_cons, List.length_append, List.length_append, List.length_append]
        at enough
      obtain ⟨fuel, rfl⟩ := Nat.exists_eq_add_one_of_ne_zero (by omega : fuel ≠ 0)
      obtain ⟨str, keyRead⟩ := string.decodes host
      rw [iVarFuel_code]
      apply (Reader.bind_ok (iSize_decodes_word host head size _)).trans
      refine Reader.map_eq_throw.mpr (entries_failure host (.throw .ioError) entries keys
        (entries_decoded host codes each (by omega)) more ?_)
      exact (iPair_eq_ioError host order).mpr
        (Or.inr ⟨str, left, keyRead left, ih fuel (by omega)⟩)

theorem iVar_eq_ioError (stream : List UInt8) :
    iVar host codes stream = .throw .ioError ↔ ValueCut host codes stream := by
  constructor
  · exact iVarFuel_cut host codes order _ stream
  · intro cut
    exact cut.throws host codes order stream.length (Nat.le_refl _)

end WrittenOrder

/-! ### Cut words of `o_var` -/

private theorem iVar_cut_little (senderOrder : PairOrder) (codes : TypeCodes) (v : Polyvar)
    {room : Nat}
    (fits : (oVar (Host.withRoom .littleEndian senderOrder room) codes v.tree).length ≤ room)
    {cut missing : List UInt8}
    (whole : oVar (Host.withRoom .littleEndian senderOrder room) codes v.tree = cut ++ missing)
    (proper : missing ≠ []) :
    iVar (Host.withRoom .littleEndian .keyFirst room) codes cut = .throw .ioError := by
  let receiver := Host.withRoom .littleEndian .keyFirst room
  rw [oVar_host receiver codes] at fits whole
  have listing := oVar_listing receiver codes rfl v.valid
  have framed := listing.iVar_framed receiver codes rfl v.valid
    (fun size inside => decide_eq_true (Nat.le_trans inside fits))
  exact framed.truncated cut missing whole proper

/-- A cut of a polyvar is noticed exactly when the hosts are little-endian, or when what has
come, read with its sizes from the other end, is nothing but the beginning of a value whose
sizes the receiver has room for. -/
theorem iVar_cut_iff (endianness : Endianness) (senderOrder : PairOrder) (codes : TypeCodes)
    (v : Polyvar) (room : Nat)
    (fits : (oVar (Host.withRoom endianness senderOrder room) codes v.tree).length ≤ room)
    (cut missing : List UInt8)
    (whole : oVar (Host.withRoom endianness senderOrder room) codes v.tree = cut ++ missing)
    (proper : missing ≠ []) :
    iVar (Host.withRoom endianness .keyFirst room) codes cut = .throw .ioError ↔
      endianness = .littleEndian ∨
        ValueCut (Host.withRoom .bigEndian .keyFirst room) codes cut := by
  cases endianness with
  | littleEndian =>
      exact iff_of_true (iVar_cut_little senderOrder codes v fits whole proper) (Or.inl rfl)
  | bigEndian =>
      rw [iVar_eq_ioError (Host.withRoom .bigEndian .keyFirst room) codes rfl]
      exact ⟨Or.inr, fun either => either.resolve_left nofun⟩

def Polyvar.oneInt : Polyvar := ⟨.int 1, PolyTree.Valid.int 1⟩

theorem iVar_cut_oneInt :
    iVar (Host.withRoom .bigEndian .keyFirst (2 ^ 47)) TypeCodes.consecutive [3, 1, 0] =
      .throw .ioError :=
  (iVar_cut_iff .bigEndian .keyFirst TypeCodes.consecutive Polyvar.oneInt (2 ^ 47) (by decide)
    [3, 1, 0] [0, 0, 0, 0, 0, 0] (by decide) (List.cons_ne_nil _ _)).mpr
    (Or.inr (ValueCut.int [1, 0] (by decide)))

theorem StringCut.of_unsized (s : CxxString) (room : host.alloc s.bytes.length = true)
    {cut missing : List UInt8} (whole : oStr host s = cut ++ missing) (proper : missing ≠ [])
    (unsized : s.bytes.length ≤ 254 ∨ cut.length < 9) : StringCut host cut := by
  rw [oStr_eq_append, oStrLength] at whole
  cases cut with
  | nil => exact StringCut.header
  | cons byte left =>
      by_cases long : s.bytes.length > 254
      · rw [if_pos long] at whole
        obtain ⟨rfl, _parts⟩ := List.cons_eq_cons.mp whole
        have few := unsized.resolve_left (Nat.not_le_of_gt long)
        exact StringCut.length left (Nat.lt_of_succ_lt_succ few)
      · rw [if_neg long] at whole
        obtain ⟨rfl, parts⟩ := List.cons_eq_cons.mp whole
        have value : (UInt8.ofNat s.bytes.length).toNat = s.bytes.length := by
          rw [UInt8.toNat_ofNat']
          omega
        have notLong : UInt8.ofNat s.bytes.length ≠ 255 := by
          intro same
          rw [same] at value
          change 255 = s.bytes.length at value
          omega
        have word := @LengthWord.short host (UInt8.ofNat s.bytes.length) notLong
        rw [value] at word
        have bytes : s.bytes = left ++ missing := parts
        have short : left.length < s.bytes.length := by
          rw [bytes, List.length_append]
          exact Nat.lt_add_of_pos_right (List.length_pos_iff.mpr proper)
        exact StringCut.bytes [_] left s.bytes.length word room short

/-- No byte order is asked for where no size has come whole: in front of the tenth byte, and
anywhere in a string of at most 254 bytes. -/
theorem ValueCut.of_unsized {tree : PolyTree} {cut missing : List UInt8}
    (room : ∀ size, size ≤ (oVar host codes tree).length → host.alloc size = true)
    (whole : oVar host codes tree = cut ++ missing) (proper : missing ≠ [])
    (unsized : cut.length < 9 ∨ ∃ s, tree = .str s ∧ s.bytes.length ≤ 254) :
    ValueCut host codes cut := by
  have positive := List.length_pos_iff.mpr proper
  cases cut with
  | nil => exact ValueCut.type
  | cons byte left =>
      have sizes := congrArg List.length whole
      simp only [List.length_append, List.length_cons] at sizes unsized
      cases tree with
      | void =>
          rw [oVar, oChar, List.length_singleton] at sizes
          omega
      | str s =>
          rw [oVar, oChar] at whole
          obtain ⟨rfl, parts⟩ := List.cons_eq_cons.mp whole
          have inside : s.bytes.length ≤ (oVar host codes (.str s)).length := by
            rw [oVar, oStr_eq_append]
            simp only [List.length_append]
            omega
          refine ValueCut.str left
            (StringCut.of_unsized host s (room _ inside) parts proper ?_)
          rcases unsized with few | ⟨_s, same, short⟩
          · exact Or.inr (Nat.lt_of_succ_lt few)
          · cases same
            exact Or.inl short
      | float f =>
          rw [oVar, oChar] at whole sizes
          obtain ⟨rfl, _bytes⟩ := List.cons_eq_cons.mp whole
          rw [List.length_append, List.length_singleton, oFloat, oInt_length] at sizes
          exact ValueCut.float left (by omega)
      | int i =>
          rw [oVar, oChar] at whole sizes
          obtain ⟨rfl, _bytes⟩ := List.cons_eq_cons.mp whole
          rw [List.length_append, List.length_singleton, oInt_length] at sizes
          exact ValueCut.int left (by omega)
      | char c =>
          obtain ⟨rfl, _bytes⟩ := List.cons_eq_cons.mp whole
          obtain rfl : left = [] := List.length_eq_zero_iff.mp (by
            simp only [oVar, oChar, List.length_append, List.length_singleton] at sizes
            omega)
          exact ValueCut.char
      | bool b =>
          obtain ⟨rfl, _bytes⟩ := List.cons_eq_cons.mp whole
          obtain rfl : left = [] := List.length_eq_zero_iff.mp (by
            simp only [oVar, oChar, oBool, List.length_append, List.length_singleton] at sizes
            omega)
          exact ValueCut.bool
      | list v =>
          obtain ⟨rfl, _bytes⟩ := List.cons_eq_cons.mp whole
          have few : left.length < 8 := by
            rcases unsized with few | ⟨s, impossible, _short⟩
            · omega
            · cases impossible
          exact ValueCut.listSize left few
      | map m =>
          obtain ⟨rfl, _bytes⟩ := List.cons_eq_cons.mp whole
          have few : left.length < 8 := by
            rcases unsized with few | ⟨s, impossible, _short⟩
            · omega
            · cases impossible
          exact ValueCut.mapSize left few

/-- A list whose size the receiver has no room for is refused as soon as the size is there. -/
theorem iVar_list_refused {head : List UInt8} (size : head.length = 8)
    (refused : host.alloc (host.endianness.ofMemory 8 head).toNat = false) (rest : List UInt8) :
    iVar host codes (codes.code .list :: (head ++ rest)) ≠ .throw .ioError := by
  rw [iVar, iVarFuel_code]
  intro threw
  rw [iVarSwitch, Reader.bind_ok (iSize_decodes_word host head size rest)] at threw
  rcases Reader.bind_eq_throw.mp threw with made | ⟨_unit, after, made, _loop⟩
  · exact newVector_ne_ioError host _ _ made
  · rw [(newVector_eq_ok made).1] at refused
    cases refused

def Polyvar.oneVoid : Polyvar where
  tree := .list [.void]
  valid := by
    apply PolyTree.Valid.list _ (by decide)
    intro element member
    cases List.mem_singleton.mp member
    exact PolyTree.Valid.void

private theorem oVar_oneVoid (host : Host) (codes : TypeCodes) :
    oVar host codes Polyvar.oneVoid.tree =
      (codes.code .list :: [1, 0, 0, 0, 0, 0, 0, 0]) ++ [codes.code .void] := by
  rw [Polyvar.oneVoid, oVar, oInt_eq_bytesOf]
  rfl

/-- The list of one `VOID`, cut in front of its element, between two big-endian hosts with
an address space of 47 bits. -/
theorem iVar_cut_bigEndian :
    ¬ ∀ cut missing, oVar (Host.withRoom .bigEndian .keyFirst (2 ^ 47)) TypeCodes.consecutive
        Polyvar.oneVoid.tree = cut ++ missing → missing ≠ [] →
      iVar (Host.withRoom .bigEndian .keyFirst (2 ^ 47)) TypeCodes.consecutive cut =
        .throw .ioError := by
  intro notices
  have head : ([1, 0, 0, 0, 0, 0, 0, 0] : List UInt8).length = 8 := rfl
  have thrown := notices _ _ (oVar_oneVoid _ _) (List.cons_ne_nil _ _)
  exact iVar_list_refused (Host.withRoom .bigEndian .keyFirst (2 ^ 47)) TypeCodes.consecutive
    head (by decide) [] thrown

end Socketxx.SimpleSocket
