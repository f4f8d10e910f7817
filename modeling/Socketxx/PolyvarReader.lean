import Socketxx.Polyvar

/-!
`i_var` as a reader of the stream: it always ends, and it returns what `o_var` wrote.

The round trip is proved for `Listing`, the ways a polyvar can lie on the wire for a
compiler that evaluates the pair in a given order. The writer produces one of them.
-/

set_option autoImplicit false

namespace Socketxx.SimpleSocket

open StreamReader

variable (host : Host) (codes : TypeCodes)

/-! ### One level of the recursion -/

theorem iVarFuel_code (fuel : Nat) (type : PolyType) (stream : List UInt8) :
    iVarFuel host codes (fuel + 1) (codes.code type :: stream) =
      iVarSwitch host (iVarFuel host codes fuel) (some type) stream := by
  apply (Reader.bind_ok (iByte_decodes (codes.code type) stream)).trans
  rw [codes.typeOf_code]

theorem iVarFuel_eq_ok {fuel : Nat} {stream rest : List UInt8} {tree : PolyTree}
    (read : iVarFuel host codes (fuel + 1) stream = .ok (tree, rest)) :
    ∃ type between, stream = codes.code type :: between ∧
      iVarSwitch host (iVarFuel host codes fuel) (some type) between = .ok (tree, rest) := by
  obtain ⟨byte, between, byteRead, switched⟩ := Reader.bind_eq_ok.mp read
  cases found : codes.typeOf byte with
  | none =>
      rw [found] at switched
      cases switched
  | some type =>
      rw [found] at switched
      refine ⟨type, between, ?_, switched⟩
      rw [iByte_eq_ok byteRead, (codes.typeOf_eq_some byte type).mp found]

theorem iVarFuel_decodes {fuel : Nat} {type : PolyType} {word : List UInt8} {tree : PolyTree}
    (read : Reader.Decodes (iVarSwitch host (iVarFuel host codes fuel) (some type)) word tree) :
    Reader.Decodes (iVarFuel host codes (fuel + 1)) (codes.code type :: word) tree := by
  intro rest
  rw [List.cons_append, iVarFuel_code]
  exact read rest

/-! ### Termination -/

theorem iPair_consumes {nested : Receive PolyTree} (inner : Reader.Consumes 0 nested) :
    Reader.Consumes 0 (iPair host nested) := by
  unfold iPair
  cases host.pairOrder with
  | keyFirst =>
      refine ((iStr_consumes host).bind_left (fun key => ?_)).mono (Nat.zero_le _)
      exact inner.map (fun element => (key, element))
  | valueFirst =>
      apply inner.bind_left
      intro element
      exact ((iStr_consumes host).map (fun key => (key, element))).mono (Nat.zero_le _)

private theorem iVarSwitch_consumes {nested : Receive PolyTree} (inner : Reader.Consumes 0 nested)
    (type : Option PolyType) : Reader.Consumes 0 (iVarSwitch host nested type) := by
  cases type with
  | none => exact Reader.Consumes.undefined 0 _
  | some type =>
      cases type with
      | void => exact Reader.Consumes.pure _
      | str => exact ((iStr_consumes host).map _).mono (Nat.zero_le _)
      | float => exact ((iInt_consumes host 8).map _).mono (Nat.zero_le _)
      | int => exact ((iInt_consumes host 8).map _).mono (Nat.zero_le _)
      | char => exact (iByte_consumes.map _).mono (Nat.zero_le _)
      | bool => exact (iBool_consumes.map _).mono (Nat.zero_le _)
      | list =>
          refine (((iInt_consumes host 8).map _).bind_left (fun size => ?_)).mono
            (Nat.zero_le _)
          exact (newVector_consumes host size).bind (fun _ => (inner.times size).map _)
      | map =>
          refine (((iInt_consumes host 8).map _).bind_left (fun sz => ?_)).mono
            (Nat.zero_le _)
          rw [iMapEntries_eq_insertAll]
          exact (((iPair_consumes host inner).times sz).map _).map _

private theorem iVarFuel_consumes (fuel : Nat) :
    Reader.Consumes 1 (iVarFuel host codes fuel) := by
  induction fuel with
  | zero => exact Reader.Consumes.running 1
  | succ fuel ih =>
      exact iByte_consumes.bind (fun t =>
        iVarSwitch_consumes host (ih.mono (Nat.zero_le 1)) (codes.typeOf t))

private theorem iPair_finishes {nested : Receive PolyTree} {bound : Nat}
    (inner : Reader.Finishes bound nested) (used : Reader.Consumes 0 nested) :
    Reader.Finishes bound (iPair host nested) := by
  unfold iPair
  cases host.pairOrder with
  | keyFirst =>
      exact (iStr_finishes bound host).bind (iStr_consumes host) (fun key _ =>
        (inner.mono (Nat.sub_le _ _)).map (fun element => (key, element)))
  | valueFirst =>
      exact inner.bind used (fun element _ =>
        (iStr_finishes _ host).map (fun key => (key, element)))

private theorem iVarSwitch_finishes {nested : Receive PolyTree} {bound : Nat}
    (inner : 8 ≤ bound → Reader.Finishes (bound - 8) nested)
    (used : Reader.Consumes 0 nested) (type : Option PolyType) :
    Reader.Finishes bound (iVarSwitch host nested type) := by
  cases type with
  | none => exact Reader.Finishes.undefined _ _
  | some type =>
      cases type with
      | void => exact Reader.Finishes.pure _ _
      | str => exact (iStr_finishes _ host).map _
      | float => exact (iInt_finishes _ host 8).map _
      | int => exact (iInt_finishes _ host 8).map _
      | char => exact (iByte_finishes _).map _
      | bool => exact (iBool_finishes _).map _
      | list =>
          refine ((iInt_finishes _ host 8).map _).bind ((iInt_consumes host 8).map _)
            (fun size enough => ?_)
          exact (newVector_finishes _ host size).bind (newVector_consumes host size)
            (fun _ _ => ((inner enough).times used size).map _)
      | map =>
          refine ((iInt_finishes _ host 8).map _).bind ((iInt_consumes host 8).map _)
            (fun sz enough => ?_)
          rw [iMapEntries_eq_insertAll]
          exact (((iPair_finishes host (inner enough) used).times
            (iPair_consumes host used) sz).map _).map _

/-- Every level of nesting takes a byte off the stream before it recurses. -/
theorem iVarFuel_finishes (fuel : Nat) :
    Reader.Finishes fuel (iVarFuel host codes (fuel + 1)) := by
  induction fuel using Nat.strong_induction_on with
  | _ fuel ih =>
      apply (iByte_finishes _).bind iByte_consumes
      intro t enough
      refine iVarSwitch_finishes host ?_
        ((iVarFuel_consumes host codes fuel).mono (Nat.zero_le 1)) (codes.typeOf t)
      intro room
      obtain ⟨less, rfl⟩ : ∃ less, fuel = less + 1 := ⟨fuel - 1, by omega⟩
      exact (ih less (Nat.lt_succ_self less)).mono (by omega)

private theorem iPair_refines {nested other : Receive PolyTree}
    (inner : Reader.Refines nested other) :
    Reader.Refines (iPair host nested) (iPair host other) := by
  rw [iPair, iPair]
  cases host.pairOrder with
  | keyFirst =>
      exact (Reader.Refines.refl _).bind (fun key => inner.map (fun element => (key, element)))
  | valueFirst => exact inner.bind (fun element => Reader.Refines.refl _)

private theorem iVarSwitch_refines {nested other : Receive PolyTree}
    (inner : Reader.Refines nested other) (type : Option PolyType) :
    Reader.Refines (iVarSwitch host nested type) (iVarSwitch host other type) := by
  cases type with
  | none => exact Reader.Refines.refl _
  | some type =>
      cases type with
      | list =>
          exact (Reader.Refines.refl _).bind (fun size =>
            (Reader.Refines.refl _).bind (fun _ => (inner.times size).map _))
      | map =>
          apply (Reader.Refines.refl _).bind
          intro sz
          rw [iMapEntries_eq_insertAll, iMapEntries_eq_insertAll]
          exact (((iPair_refines host inner).times sz).map _).map _
      | _ => exact Reader.Refines.refl _

private theorem iVarFuel_refines (fuel : Nat) :
    Reader.Refines (iVarFuel host codes fuel) (iVarFuel host codes (fuel + 1)) := by
  induction fuel with
  | zero => exact Reader.Refines.running _
  | succ fuel ih =>
      exact (Reader.Refines.refl _).bind (fun t => iVarSwitch_refines host ih (codes.typeOf t))

theorem iVarFuel_mono {less more : Nat} (le : less ≤ more) :
    Reader.Refines (iVarFuel host codes less) (iVarFuel host codes more) := by
  induction le with
  | refl => exact Reader.Refines.refl _
  | step _ ih => exact ih.trans (iVarFuel_refines host codes _)

/-- Any fuel above the length of the stream gives the outcome of the recursion. -/
theorem iVarFuel_settles {fuel : Nat} {stream : List UInt8}
    (enough : stream.length < fuel) :
    iVarFuel host codes fuel stream = iVar host codes stream :=
  iVarFuel_mono host codes enough stream
    (iVarFuel_finishes host codes stream.length stream (Nat.le_refl _))

theorem iVar_ne_running (stream : List UInt8) : iVar host codes stream ≠ .running :=
  iVarFuel_finishes host codes stream.length stream (Nat.le_refl _)

theorem iVar_decodes {fuel : Nat} {word : List UInt8} {tree : PolyTree}
    (read : Reader.Decodes (iVarFuel host codes fuel) word tree) :
    Reader.Decodes (iVar host codes) word tree := by
  intro rest
  have settled := read rest
  rcases Nat.lt_or_ge (word ++ rest).length fuel with enough | short
  · rw [← iVarFuel_settles host codes enough]
    exact settled
  · have fuelled := iVarFuel_mono host codes (Nat.le_succ_of_le short) (word ++ rest)
      (by rw [settled]; intro impossible; cases impossible)
    rw [iVar, fuelled, settled]

end Socketxx.SimpleSocket
