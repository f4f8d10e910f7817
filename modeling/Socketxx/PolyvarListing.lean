import Socketxx.PolyvarReader

/-!
The words a polyvar can lie on the wire as, for a compiler that evaluates the pair of
the `MAP` case in a given order: the entries of a map may come in any order, each
with its key and value in the order of evaluation.

`o_var` writes the key-first word with the entries in key order. A little-endian
`i_var` reads back every listing, and what it reads from a word no longer than the
written one is a listing.
-/

set_option autoImplicit false

namespace Socketxx.SimpleSocket

open StreamReader

variable (host : Host) (codes : TypeCodes)

def pairWord (key : CxxString) (word : List UInt8) : List UInt8 :=
  match host.pairOrder with
  | .keyFirst => oStr host key ++ word
  | .valueFirst => word ++ oStr host key

inductive Listing : PolyTree → List UInt8 → Prop where
  | void : Listing .void (oVar host codes .void)
  | str (s : CxxString) : Listing (.str s) (oVar host codes (.str s))
  | float (f : BitVec (8 * 8)) : Listing (.float f) (oVar host codes (.float f))
  | int (i : BitVec (8 * 8)) : Listing (.int i) (oVar host codes (.int i))
  | char (c : UInt8) : Listing (.char c) (oVar host codes (.char c))
  | bool (b : Bool) : Listing (.bool b) (oVar host codes (.bool b))
  | list (pairs : List (PolyTree × List UInt8))
      (each : ∀ pair ∈ pairs, Listing pair.1 pair.2) :
      Listing (.list (pairs.map Prod.fst))
        (oChar (codes.code .list) ++ (oInt host (BitVec.ofNat (8 * 8) pairs.length) ++
          pairs.flatMap Prod.snd))
  | map (m : List (CxxString × PolyTree))
      (pairs : List ((CxxString × PolyTree) × List UInt8))
      (perm : (pairs.map Prod.fst).Perm m)
      (each : ∀ pair ∈ pairs, Listing pair.1.2 pair.2) :
      Listing (.map m)
        (oChar (codes.code .map) ++ (oInt host (BitVec.ofNat (8 * 8) m.length) ++
          pairs.flatMap (fun pair => pairWord host pair.1.1 pair.2)))

/-! ### The writer produces a listing, whoever writes -/

theorem oStr_host (sender : Host) (str : CxxString) : oStr sender str = oStr host str := by
  simp only [oStr, oInt_eq_bytesOf]

mutual

theorem oVar_host (sender : Host) :
    (tree : PolyTree) → oVar sender codes tree = oVar host codes tree
  | .void => rfl
  | .str s => by rw [oVar, oVar, oStr_host host sender]
  | .float f => by simp only [oVar, oFloat, oInt_eq_bytesOf]
  | .int i => by simp only [oVar, oInt_eq_bytesOf]
  | .char c => rfl
  | .bool b => rfl
  | .list v => by
      rw [oVar, oVar, oVarElements_host sender v, oInt_eq_bytesOf, oInt_eq_bytesOf]
  | .map m => by
      rw [oVar, oVar, oVarEntries_host sender m, oInt_eq_bytesOf, oInt_eq_bytesOf]

theorem oVarElements_host (sender : Host) :
    (v : List PolyTree) → oVarElements sender codes v = oVarElements host codes v
  | [] => rfl
  | element :: rest => by
      rw [oVarElements, oVarElements, oVar_host sender element, oVarElements_host sender rest]

theorem oVarEntries_host (sender : Host) :
    (m : List (CxxString × PolyTree)) →
      oVarEntries sender codes m = oVarEntries host codes m
  | [] => rfl
  | entry :: rest => by
      rw [oVarEntries, oVarEntries, oVarEntry_host sender entry, oVarEntries_host sender rest]

theorem oVarEntry_host (sender : Host) :
    (entry : CxxString × PolyTree) →
      oVarEntry sender codes entry = oVarEntry host codes entry
  | (key, element) => by
      rw [oVarEntry, oVarEntry, oStr_host host sender, oVar_host sender element]

end

theorem Listing.list_written {v : List PolyTree}
    (each : ∀ element ∈ v, Listing host codes element (oVar host codes element)) :
    Listing host codes (.list v) (oVar host codes (.list v)) := by
  have built := @Listing.list host codes
    (v.map (fun element => (element, oVar host codes element))) (by
      intro pair member
      obtain ⟨element, present, rfl⟩ := List.mem_map.mp member
      exact each element present)
  rw [oVar, oVarElements_eq_flatMap]
  simpa [Function.comp_def, List.flatMap_map] using built

theorem oVar_listing (order : host.pairOrder = .keyFirst) {tree : PolyTree}
    (valid : tree.Valid) : Listing host codes tree (oVar host codes tree) := by
  induction valid with
  | void => exact Listing.void
  | str s => exact Listing.str s
  | float f => exact Listing.float f
  | int i => exact Listing.int i
  | char c => exact Listing.char c
  | bool b => exact Listing.bool b
  | list v size each ih => exact Listing.list_written host codes ih
  | map m size ordered each ih =>
      have built := @Listing.map host codes m
        (m.map (fun entry => (entry, oVar host codes entry.2)))
        (by simp [Function.comp_def]) (by
          intro pair member
          obtain ⟨entry, present, rfl⟩ := List.mem_map.mp member
          exact ih entry present)
      rw [oVar, oVarEntries_eq_flatMap]
      simpa [List.flatMap_map, pairWord, order] using built

/-! ### Every listing is read back -/

theorem length_le_flatMap {α : Type} (f : α → List UInt8) {items : List α} {item : α}
    (member : item ∈ items) : (f item).length ≤ (items.flatMap f).length := by
  rw [List.flatMap_def]
  exact (List.sublist_flatten_of_mem (List.mem_map_of_mem member)).length_le

private theorem count_le_flatMap {α : Type} (f : α → List UInt8) {items : List α}
    (each : ∀ item ∈ items, 0 < (f item).length) :
    items.length ≤ (items.flatMap f).length := by
  induction items with
  | nil => exact Nat.zero_le _
  | cons head tail ih =>
      have headLength := each head List.mem_cons_self
      have tailLength := ih (fun item member => each item (List.mem_cons_of_mem _ member))
      rw [List.flatMap_cons, List.length_append, List.length_cons]
      omega

private theorem pairWord_length (key : CxxString) (word : List UInt8) :
    (pairWord host key word).length = (oStrLength host key.bytes.length).length +
      key.bytes.length + word.length := by
  unfold pairWord
  rw [oStr_eq_append]
  split
  · simp only [List.length_append]
  · simp only [List.length_append]
    omega

private theorem Listing.length_pos {host : Host} {codes : TypeCodes} {tree : PolyTree}
    {word : List UInt8} (listing : Listing host codes tree word) : 0 < word.length := by
  cases listing <;> simp [oVar, oChar]

private theorem iVarFuel_framed {fuel : Nat} {type : PolyType} {word : List UInt8} {tree : PolyTree}
    (read : Reader.Framed .ioError
      (iVarSwitch host (iVarFuel host codes fuel) (some type)) word tree) :
    Reader.Framed .ioError (iVarFuel host codes (fuel + 1)) (codes.code type :: word) tree := by
  change Reader.Framed _ _ ([codes.code type] ++ word) _
  apply (iByte_framed (codes.code type)).bind
  rw [codes.typeOf_code]
  exact read

section LittleEndianReceiver

variable (little : host.endianness = .littleEndian) (ample : ∀ size, host.alloc size = true)

include little

private theorem iSize_framed (size : Nat) (fits : size < 2 ^ 64) :
    Reader.Framed .ioError (BitVec.toNat <$> iInt host 8)
      (oInt host (BitVec.ofNat (8 * 8) size)) size := by
  have read := (iInt_oInt_framed host host little
    (BitVec.ofNat (8 * 8) size)).map BitVec.toNat
  rwa [BitVec.toNat_ofNat, Nat.mod_eq_of_lt fits] at read

private theorem iPair_framed {nested : Receive PolyTree} (key : CxxString) {element : PolyTree}
    {word : List UInt8} (room : host.alloc key.bytes.length = true)
    (inner : Reader.Framed .ioError nested word element) :
    Reader.Framed .ioError (iPair host nested) (pairWord host key word) (key, element) := by
  rw [iPair, pairWord]
  cases host.pairOrder with
  | keyFirst =>
      exact (iStr_framed host host little key room).bind
        (inner.map (fun element => (key, element)))
  | valueFirst =>
      exact inner.bind ((iStr_framed host host little key room).map
        (fun key => (key, element)))

private theorem Listing.framed {tree : PolyTree} {word : List UInt8}
    (listing : Listing host codes tree word) (valid : tree.Valid) (fuel : Nat)
    (enough : word.length ≤ fuel) (room : ∀ size, size ≤ word.length → host.alloc size = true) :
    Reader.Framed .ioError (iVarFuel host codes (fuel + 1)) word tree := by
  induction listing generalizing fuel with
  | void => exact iVarFuel_framed host codes (Reader.Framed.pure _ _)
  | str s =>
      have inside : s.bytes.length ≤ (oVar host codes (.str s)).length := by
        rw [oVar, oStr_eq_append]
        simp only [List.length_append]
        omega
      exact iVarFuel_framed host codes
        ((iStr_framed host host little s (room _ inside)).map _)
  | float f => exact iVarFuel_framed host codes ((iInt_oInt_framed host host little f).map _)
  | int i => exact iVarFuel_framed host codes ((iInt_oInt_framed host host little i).map _)
  | char c => exact iVarFuel_framed host codes ((iByte_framed c).map _)
  | bool b => exact iVarFuel_framed host codes ((iBool_framed b).map _)
  | list pairs each ih =>
      cases valid with
      | list _ size elements =>
      rw [List.length_map] at size
      simp only [oChar, List.length_append, List.length_cons, List.length_nil,
        oInt_length] at enough room
      obtain ⟨fuel, rfl⟩ := Nat.exists_eq_add_one_of_ne_zero (by omega : fuel ≠ 0)
      have items : ∀ pair ∈ pairs,
          Reader.Framed .ioError (iVarFuel host codes (fuel + 1)) pair.2 pair.1 := by
        intro pair member
        have inside : pair.2.length ≤ (pairs.flatMap Prod.snd).length :=
          length_le_flatMap Prod.snd member
        exact ih pair member (elements pair.1 (List.mem_map_of_mem member)) fuel (by omega)
          (fun size fits => room size (by omega))
      have count : pairs.length ≤ (pairs.flatMap Prod.snd).length :=
        count_le_flatMap Prod.snd (fun pair member => (each pair member).length_pos)
      apply iVarFuel_framed
      apply (iSize_framed host little pairs.length size).bind
      exact Reader.Framed.nil_bind (newVector_decodes host pairs.length (room _ (by omega)))
        ((Reader.Framed.times pairs items).map _)
  | map m pairs perm each ih =>
      cases valid with
      | map _ size ordered elements =>
      simp only [oChar, List.length_append, List.length_cons, List.length_nil,
        oInt_length] at enough room
      obtain ⟨fuel, rfl⟩ := Nat.exists_eq_add_one_of_ne_zero (by omega : fuel ≠ 0)
      have items : ∀ pair ∈ pairs,
          Reader.Framed .ioError (iPair host (iVarFuel host codes (fuel + 1)))
            (pairWord host pair.1.1 pair.2) pair.1 := by
        intro pair member
        have inside : (pairWord host pair.1.1 pair.2).length ≤
            (pairs.flatMap (fun pair => pairWord host pair.1.1 pair.2)).length :=
          length_le_flatMap (fun pair => pairWord host pair.1.1 pair.2) member
        have parts := pairWord_length host pair.1.1 pair.2
        have entry := (perm.mem_iff).mp (List.mem_map_of_mem member)
        have element := ih pair member (elements pair.1 entry) fuel (by omega)
          (fun size fits => room size (by omega))
        exact iPair_framed host little pair.1.1 (room _ (by omega)) element
      have loop := Reader.Framed.times
        (pairs.map (fun pair => (pair.1, pairWord host pair.1.1 pair.2))) (by
          intro pair member
          obtain ⟨source, present, rfl⟩ := List.mem_map.mp member
          exact items source present)
      simp only [List.length_map, List.flatMap_map, List.map_map, Function.comp_def] at loop
      apply iVarFuel_framed
      apply (iSize_framed host little m.length size).bind
      have count : pairs.length = m.length := by
        rw [← perm.length_eq, List.length_map]
      rw [iMapEntries_eq_insertAll, ← count]
      have built := (loop.map OrderedMap.insertAll).map PolyTree.map
      rwa [OrderedMap.insertAll_of_perm perm ordered] at built

theorem Listing.iVar_framed {tree : PolyTree} {word : List UInt8}
    (listing : Listing host codes tree word) (valid : tree.Valid)
    (room : ∀ size, size ≤ word.length → host.alloc size = true) :
    Reader.Framed .ioError (iVar host codes) word tree := by
  have fuelled := listing.framed host codes little valid word.length (Nat.le_refl _) room
  constructor
  case decodes => exact SimpleSocket.iVar_decodes host codes fuelled.decodes
  case truncated =>
    intro cut missing whole nonempty
    have shorter : cut.length < word.length + 1 := by
      rw [whole, List.length_append]
      omega
    rw [← iVarFuel_settles host codes shorter]
    exact fuelled.truncated cut missing whole nonempty

include ample

theorem Listing.iVar_decodes {tree : PolyTree} {word : List UInt8}
    (listing : Listing host codes tree word) (valid : tree.Valid) :
    Reader.Decodes (iVar host codes) word tree :=
  (listing.iVar_framed host codes little valid (fun size _fits => ample size)).decodes

end LittleEndianReceiver

end Socketxx.SimpleSocket
