import Socketxx.Session

/-!
What the order of evaluation of `std::pair(i_str(), i_var())` does to the round trip.

A word from which `i_var` reads a polyvar is never shorter than the word `o_var`
writes for it; when it is as long, it is a listing of the polyvar in the receiver's
order. So the written word is read back exactly when it is such a listing: always for
a compiler that evaluates the key first, and for the other one only when the bytes
happen to fit, as they do without a non-empty map.
-/

set_option autoImplicit false

namespace Socketxx.SimpleSocket

open StreamReader

variable (host : Host) (codes : TypeCodes)

/-- The word is at least as long as the written one, and a listing when no longer. -/
def Economical (tree : PolyTree) (word : List UInt8) : Prop :=
  (oVar host codes tree).length ≤ word.length ∧
    (word.length ≤ (oVar host codes tree).length → Listing host codes tree word)

def entryCost (entry : CxxString × PolyTree) : Nat :=
  (oStr host entry.1).length + (oVar host codes entry.2).length

theorem oVar_length_pos (tree : PolyTree) : 0 < (oVar host codes tree).length := by
  cases tree <;> simp [oVar, oChar]

private theorem entryCost_pos (entry : CxxString × PolyTree) : 0 < entryCost host codes entry := by
  have positive := oVar_length_pos host codes entry.2
  unfold entryCost
  omega

private theorem oVar_list_length (v : List PolyTree) :
    (oVar host codes (.list v)).length =
      9 + (v.map (fun element => (oVar host codes element).length)).sum := by
  rw [oVar, oVarElements_eq_flatMap]
  simp only [oChar, List.length_append, List.length_cons, List.length_nil, oInt_length,
    List.length_flatMap]
  omega

private theorem oVar_map_length (m : List (CxxString × PolyTree)) :
    (oVar host codes (.map m)).length = 9 + OrderedMap.weight (entryCost host codes) m := by
  have costs : entryCost host codes = fun entry =>
      (oStr host entry.1).length + (oVar host codes entry.2).length := rfl
  rw [oVar, oVarEntries_eq_flatMap, costs]
  simp only [oChar, List.length_append, List.length_cons, List.length_nil, oInt_length,
    List.length_flatMap, OrderedMap.weight]
  omega

private theorem oStrLength_length_le (strLen64 : Nat) :
    (oStrLength host strLen64).length ≤ 9 := by
  unfold oStrLength
  split <;> simp

private theorem sum_cost_le {α : Type} (cost : α → Nat) (pairs : List (α × List UInt8))
    (bound : ∀ pair ∈ pairs, cost pair.1 ≤ pair.2.length) :
    ((pairs.map Prod.fst).map cost).sum ≤ (pairs.flatMap Prod.snd).length := by
  induction pairs with
  | nil => exact Nat.le_refl 0
  | cons head tail ih =>
      have headBound := bound head List.mem_cons_self
      have tailBound := ih (fun pair member => bound pair (List.mem_cons_of_mem _ member))
      simp only [List.map_cons, List.sum_cons, List.flatMap_cons, List.length_append]
      omega

private theorem tight_of_sum_le {α : Type} (cost : α → Nat) (pairs : List (α × List UInt8))
    (bound : ∀ pair ∈ pairs, cost pair.1 ≤ pair.2.length)
    (whole : (pairs.flatMap Prod.snd).length ≤ ((pairs.map Prod.fst).map cost).sum) :
    ∀ pair ∈ pairs, pair.2.length ≤ cost pair.1 := by
  induction pairs with
  | nil => simp
  | cons head tail ih =>
      have headBound := bound head List.mem_cons_self
      have tailBound : ∀ pair ∈ tail, cost pair.1 ≤ pair.2.length :=
        fun pair member => bound pair (List.mem_cons_of_mem head member)
      have tailSum := sum_cost_le cost tail tailBound
      simp only [List.map_cons, List.sum_cons, List.flatMap_cons, List.length_append] at whole
      intro pair member
      rcases List.mem_cons.mp member with rfl | later
      · omega
      · exact ih tailBound (by omega) pair later

private theorem listed_of_each (pairs : List ((CxxString × PolyTree) × List UInt8))
    (each : ∀ pair ∈ pairs, ∃ element, pair.2 = pairWord host pair.1.1 element ∧
      Listing host codes pair.1.2 element) :
    ∃ listed : List ((CxxString × PolyTree) × List UInt8),
      listed.map Prod.fst = pairs.map Prod.fst ∧
      pairs.flatMap Prod.snd = listed.flatMap (fun pair => pairWord host pair.1.1 pair.2) ∧
      ∀ pair ∈ listed, Listing host codes pair.1.2 pair.2 := by
  induction pairs with
  | nil => exact ⟨[], rfl, rfl, by simp⟩
  | cons head tail ih =>
      obtain ⟨element, headWord, headListing⟩ := each head List.mem_cons_self
      obtain ⟨listed, sameEntries, sameWord, elements⟩ :=
        ih (fun pair member => each pair (List.mem_cons_of_mem _ member))
      refine ⟨(head.1, element) :: listed, ?_, ?_, ?_⟩
      · rw [List.map_cons, List.map_cons, sameEntries]
      · rw [List.flatMap_cons, List.flatMap_cons, sameWord, headWord]
      · intro pair member
        rcases List.mem_cons.mp member with rfl | later
        · exact headListing
        · exact elements pair later

def EconomicalPair (entry : CxxString × PolyTree) (word : List UInt8) : Prop :=
  entryCost host codes entry ≤ word.length ∧
    (word.length ≤ entryCost host codes entry →
      ∃ element, word = pairWord host entry.1 element ∧ Listing host codes entry.2 element)

private theorem list_economical (pairs : List (PolyTree × List UInt8))
    (each : ∀ pair ∈ pairs, Economical host codes pair.1 pair.2) :
    Economical host codes (.list (pairs.map Prod.fst)) (oChar (codes.code .list) ++
      (oInt host (BitVec.ofNat (8 * 8) pairs.length) ++ pairs.flatMap Prod.snd)) := by
  have sum := sum_cost_le (fun element => (oVar host codes element).length) pairs
    (fun pair member => (each pair member).1)
  constructor
  · rw [oVar_list_length]
    simp only [oChar, List.length_append, List.length_cons, List.length_nil, oInt_length]
    omega
  · intro short
    rw [oVar_list_length] at short
    simp only [oChar, List.length_append, List.length_cons, List.length_nil,
      oInt_length] at short
    have tight := tight_of_sum_le (fun element => (oVar host codes element).length) pairs
      (fun pair member => (each pair member).1) (by omega)
    exact Listing.list pairs (fun pair member => (each pair member).2 (tight pair member))

private theorem map_economical (pairs : List ((CxxString × PolyTree) × List UInt8))
    (each : ∀ pair ∈ pairs, EconomicalPair host codes pair.1 pair.2) :
    Economical host codes (.map (OrderedMap.insertAll (pairs.map Prod.fst)))
      (oChar (codes.code .map) ++
        (oInt host (BitVec.ofNat (8 * 8) pairs.length) ++ pairs.flatMap Prod.snd)) := by
  have sum := sum_cost_le (entryCost host codes) pairs (fun pair member => (each pair member).1)
  have kept := OrderedMap.insertAll_weight_le (entryCost host codes)
    (entryCost_pos host codes) (pairs.map Prod.fst)
  constructor
  · rw [oVar_map_length]
    simp only [oChar, List.length_append, List.length_cons, List.length_nil, oInt_length,
      OrderedMap.weight] at kept ⊢
    omega
  · intro short
    rw [oVar_map_length] at short
    simp only [oChar, List.length_append, List.length_cons, List.length_nil,
      oInt_length, OrderedMap.weight] at short kept
    have tight := tight_of_sum_le (entryCost host codes) pairs
      (fun pair member => (each pair member).1) (by omega)
    have perm := OrderedMap.insertAll_perm_of_weight (entryCost host codes)
      (entryCost_pos host codes) (pairs.map Prod.fst) (by
        simp only [OrderedMap.weight]
        omega)
    obtain ⟨listed, sameEntries, sameWord, elements⟩ := listed_of_each host codes pairs
      (fun pair member => (each pair member).2 (tight pair member))
    have length : (OrderedMap.insertAll (pairs.map Prod.fst)).length = pairs.length := by
      rw [perm.length_eq, List.length_map]
    have listing := @Listing.map host codes
      (OrderedMap.insertAll (pairs.map Prod.fst)) listed
      (by rw [sameEntries]; exact perm.symm) elements
    rw [length] at listing
    rw [sameWord]
    exact listing

/-! ### Inverting the typed fields -/

variable (little : host.endianness = .littleEndian)

include little

theorem iInt_eq_ok {width : Nat} {stream rest : List UInt8} {num : BitVec (8 * width)}
    (read : iInt host width stream = .ok (num, rest)) : stream = oInt host num ++ rest := by
  obtain ⟨bytes, taken, same⟩ := Reader.map_eq_ok.mp read
  obtain ⟨rfl, size⟩ := Reader.take_eq_ok.mp taken
  rw [oInt_eq_bytesOf, ← same, little, Endianness.ofMemory,
    FixedWidth.bytesOf_patternOf bytes size]

theorem iSize_eq_ok {stream rest : List UInt8} {size : Nat}
    (read : (BitVec.toNat <$> iInt host 8) stream = .ok (size, rest)) :
    stream = oInt host (BitVec.ofNat (8 * 8) size) ++ rest := by
  obtain ⟨num, numRead, same⟩ := Reader.map_eq_ok.mp read
  rw [iInt_eq_ok host little numRead, ← same, BitVec.ofNat_toNat, BitVec.setWidth_eq]

private theorem iStrLength_eq_ok {stream rest : List UInt8} {strLen64 : Nat}
    (read : iStrLength host stream = .ok (strLen64, rest)) :
    ∃ header, stream = header ++ rest ∧
      (oStrLength host strLen64).length ≤ header.length ∧
      (header.length ≤ (oStrLength host strLen64).length →
        header = oStrLength host strLen64) := by
  obtain ⟨strLen8, between, byteRead, decided⟩ := Reader.bind_eq_ok.mp read
  rw [iByte_eq_ok byteRead]
  split at decided
  · rename_i long
    rw [long, iSize_eq_ok host little decided]
    refine ⟨255 :: oInt host (BitVec.ofNat (8 * 8) strLen64), rfl, ?_, ?_⟩
    · have bound := oStrLength_length_le host strLen64
      rw [List.length_cons, oInt_length]
      exact bound
    · intro tight
      rw [oStrLength] at tight ⊢
      split at tight
      · rename_i long
        rw [if_pos long]
      · rw [List.length_cons, oInt_length] at tight
        simp at tight
  · rename_i short
    cases decided
    have small := strLen8.toNat_lt
    have notLast : strLen8.toNat ≠ 255 :=
      fun last => short (UInt8.toNat_inj.mp last)
    have written : oStrLength host strLen8.toNat = [strLen8] := by
      rw [oStrLength, if_neg (by omega), UInt8.ofNat_toNat]
    exact ⟨[strLen8], rfl, by rw [written], fun _ => written.symm⟩

theorem iStr_economical {stream rest : List UInt8} {str : CxxString}
    (read : iStr host stream = .ok (str, rest)) :
    ∃ word, stream = word ++ rest ∧ (oStr host str).length ≤ word.length ∧
      (word.length ≤ (oStr host str).length → word = oStr host str) := by
  obtain ⟨lengthRead, _room⟩ := iStr_eq_ok.mp read
  obtain ⟨header, rfl, bound, tight⟩ := iStrLength_eq_ok host little lengthRead
  refine ⟨header ++ str.bytes, (List.append_assoc ..).symm, ?_, ?_⟩
  · rw [oStr_eq_append, List.length_append, List.length_append]
    omega
  · intro short
    rw [oStr_eq_append, List.length_append, List.length_append] at short
    rw [oStr_eq_append, tight (by omega)]

/-! ### Inverting `i_var` -/

private theorem iPair_economical {nested : Receive PolyTree}
    (inner : ∀ stream tree rest, nested stream = .ok (tree, rest) →
      ∃ word, stream = word ++ rest ∧ Economical host codes tree word)
    (stream : List UInt8) (entry : CxxString × PolyTree) (rest : List UInt8)
    (read : iPair host nested stream = .ok (entry, rest)) :
    ∃ word, stream = word ++ rest ∧ EconomicalPair host codes entry word := by
  rw [iPair] at read
  cases order : host.pairOrder with
  | keyFirst =>
      rw [order] at read
      obtain ⟨key, between, keyRead, later⟩ := Reader.bind_eq_ok.mp read
      obtain ⟨element, elementRead, rfl⟩ := Reader.map_eq_ok.mp later
      obtain ⟨header, rfl, headerBound, headerTight⟩ := iStr_economical host little keyRead
      obtain ⟨word, rfl, bound, tight⟩ := inner between element rest elementRead
      refine ⟨header ++ word, (List.append_assoc ..).symm, ?_, ?_⟩
      · simp only [entryCost, List.length_append]
        omega
      · intro short
        simp only [entryCost, List.length_append] at short
        refine ⟨word, ?_, tight (by omega)⟩
        rw [pairWord, order, headerTight (by omega)]
  | valueFirst =>
      rw [order] at read
      obtain ⟨element, between, elementRead, later⟩ := Reader.bind_eq_ok.mp read
      obtain ⟨key, keyRead, rfl⟩ := Reader.map_eq_ok.mp later
      obtain ⟨word, rfl, bound, tight⟩ := inner stream element between elementRead
      obtain ⟨header, rfl, headerBound, headerTight⟩ := iStr_economical host little keyRead
      refine ⟨word ++ header, (List.append_assoc ..).symm, ?_, ?_⟩
      · simp only [entryCost, List.length_append]
        omega
      · intro short
        simp only [entryCost, List.length_append] at short
        refine ⟨word, ?_, tight (by omega)⟩
        rw [pairWord, order, headerTight (by omega)]

private theorem iVarSwitch_economical {nested : Receive PolyTree}
    (inner : ∀ stream tree rest, nested stream = .ok (tree, rest) →
      ∃ word, stream = word ++ rest ∧ Economical host codes tree word)
    (type : PolyType) (stream : List UInt8) (tree : PolyTree) (rest : List UInt8)
    (read : iVarSwitch host nested (some type) stream = .ok (tree, rest)) :
    ∃ word, stream = word ++ rest ∧
      Economical host codes tree (oChar (codes.code type) ++ word) := by
  cases type with
  | void =>
      cases read
      exact ⟨[], rfl, Nat.le_refl _, fun _ => Listing.void⟩
  | str =>
      obtain ⟨s, sRead, rfl⟩ := Reader.map_eq_ok.mp read
      obtain ⟨word, rfl, bound, tight⟩ := iStr_economical host little sRead
      refine ⟨word, rfl, ?_, ?_⟩
      · rw [oVar, List.length_append, List.length_append]
        omega
      · intro short
        rw [oVar, List.length_append, List.length_append] at short
        rw [tight (by omega)]
        exact Listing.str s
  | float =>
      obtain ⟨f, fRead, rfl⟩ := Reader.map_eq_ok.mp read
      exact ⟨oInt host f, iInt_eq_ok host little fRead, Nat.le_refl _,
        fun _ => Listing.float f⟩
  | int =>
      obtain ⟨i, iRead, rfl⟩ := Reader.map_eq_ok.mp read
      exact ⟨oInt host i, iInt_eq_ok host little iRead, Nat.le_refl _,
        fun _ => Listing.int i⟩
  | char =>
      obtain ⟨c, cRead, rfl⟩ := Reader.map_eq_ok.mp read
      exact ⟨oChar c, iByte_eq_ok cRead, Nat.le_refl _, fun _ => Listing.char c⟩
  | bool =>
      obtain ⟨b, bRead, rfl⟩ := Reader.map_eq_ok.mp read
      exact ⟨oBool b, iBool_eq_ok bRead, Nat.le_refl _, fun _ => Listing.bool b⟩
  | list =>
      obtain ⟨size, between, sizeRead, later⟩ := Reader.bind_eq_ok.mp read
      obtain ⟨_unit, after, vectorMade, loop⟩ := Reader.bind_eq_ok.mp later
      obtain ⟨v, elementsRead, rfl⟩ := Reader.map_eq_ok.mp loop
      obtain ⟨_room, rfl⟩ := newVector_eq_ok vectorMade
      obtain ⟨pairs, rfl, rfl, rfl, each⟩ := Reader.times_eq_ok inner elementsRead
      rw [iSize_eq_ok host little sizeRead]
      exact ⟨_, (List.append_assoc ..).symm, list_economical host codes pairs each⟩
  | map =>
      obtain ⟨sz, between, sizeRead, loop⟩ := Reader.bind_eq_ok.mp read
      rw [iMapEntries_eq_insertAll] at loop
      obtain ⟨m, mapRead, rfl⟩ := Reader.map_eq_ok.mp loop
      obtain ⟨entries, entriesRead, rfl⟩ := Reader.map_eq_ok.mp mapRead
      obtain ⟨pairs, rfl, rfl, rfl, each⟩ :=
        Reader.times_eq_ok (iPair_economical host codes little inner) entriesRead
      rw [iSize_eq_ok host little sizeRead]
      exact ⟨_, (List.append_assoc ..).symm, map_economical host codes pairs each⟩

theorem iVarFuel_economical (fuel : Nat) (stream : List UInt8) (tree : PolyTree)
    (rest : List UInt8) (read : iVarFuel host codes fuel stream = .ok (tree, rest)) :
    ∃ word, stream = word ++ rest ∧ Economical host codes tree word := by
  induction fuel generalizing stream tree rest with
  | zero => cases read
  | succ fuel ih =>
      obtain ⟨type, between, rfl, switched⟩ := iVarFuel_eq_ok host codes read
      obtain ⟨word, rfl, economical⟩ :=
        iVarSwitch_economical host codes little ih type between tree rest switched
      exact ⟨codes.code type :: word, rfl, economical⟩

private theorem listing_of_decodes {tree : PolyTree} {word : List UInt8}
    (read : Reader.Decodes (iVar host codes) word tree)
    (short : word.length ≤ (oVar host codes tree).length) :
    Listing host codes tree word := by
  obtain ⟨consumed, split, _bound, listed⟩ :=
    iVarFuel_economical host codes little _ (word ++ []) tree [] (read [])
  rw [List.append_nil, List.append_nil] at split
  subst split
  exact listed short

omit little

/-! ### The two orders -/

/-- No map at any depth has an entry. -/
inductive PolyTree.NoEntries : PolyTree → Prop where
  | void : NoEntries .void
  | str (s : CxxString) : NoEntries (.str s)
  | float (f : BitVec (8 * 8)) : NoEntries (.float f)
  | int (i : BitVec (8 * 8)) : NoEntries (.int i)
  | char (c : UInt8) : NoEntries (.char c)
  | bool (b : Bool) : NoEntries (.bool b)
  | list (v : List PolyTree) (each : ∀ element ∈ v, NoEntries element) : NoEntries (.list v)
  | map : NoEntries (.map [])

/-- The round trip of a polyvar for a given order of evaluation. -/
theorem iVar_oVar_iff (senderOrder order : PairOrder) (codes : TypeCodes) (v : Polyvar) :
    (∀ rest, iVar (Host.little order) codes
        (oVar (Host.little senderOrder) codes v.tree ++ rest) = .ok (v.tree, rest)) ↔
      order = .keyFirst ∨
        Listing (Host.little .valueFirst) codes v.tree
          (oVar (Host.little .valueFirst) codes v.tree) := by
  rw [oVar_host (Host.little order) codes (Host.little senderOrder)]
  have ample : ∀ size, (Host.little order).alloc size = true := fun _ => rfl
  constructor
  · intro read
    have listing := listing_of_decodes (Host.little order) codes rfl read (Nat.le_refl _)
    cases order with
    | keyFirst => exact Or.inl rfl
    | valueFirst => exact Or.inr listing
  · intro either
    rcases either with rfl | listing
    · exact (oVar_listing (Host.little .keyFirst) codes rfl v.valid).iVar_decodes
        _ codes rfl ample v.valid
    · cases order with
      | keyFirst =>
          exact (oVar_listing (Host.little .keyFirst) codes rfl v.valid).iVar_decodes
            _ codes rfl ample v.valid
      | valueFirst => exact listing.iVar_decodes _ codes rfl ample v.valid

def TypeCodes.consecutive : TypeCodes where
  code
    | .void => 0
    | .str => 1
    | .float => 2
    | .int => 3
    | .char => 4
    | .bool => 5
    | .list => 6
    | .map => 7
  injective := by
    intro left right same
    cases left <;> cases right <;> first | rfl | exact absurd same (by decide)

def Polyvar.oneEntry : Polyvar where
  tree := .map [(⟨[97], by decide⟩, .void)]
  valid := by
    apply PolyTree.Valid.map _ (by decide) (List.pairwise_singleton _ _)
    intro entry member
    cases List.mem_singleton.mp member
    exact PolyTree.Valid.void

/-- Read value first, the length byte of the key `"a"` is taken for a type byte. -/
theorem iVar_oneEntry_valueFirst :
    iVar (Host.little .valueFirst) TypeCodes.consecutive
        (oVar (Host.little .keyFirst) TypeCodes.consecutive Polyvar.oneEntry.tree ++ []) ≠
      .ok (Polyvar.oneEntry.tree, []) := by
  have thrown : iVar (Host.little .valueFirst) TypeCodes.consecutive
      (oVar (Host.little .keyFirst) TypeCodes.consecutive Polyvar.oneEntry.tree ++ []) =
        .throw .ioError := rfl
  intro read
  rw [thrown] at read
  cases read

end Socketxx.SimpleSocket
