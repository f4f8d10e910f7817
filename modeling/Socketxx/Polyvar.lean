import Mathlib.Data.List.Lex
import Mathlib.Order.Basic
import Socketxx.Library.OrderedMap
import Socketxx.SimpleSocket

/-!
`xif::polyvar` as the library uses it, and the recursive functions `o_var` and
`i_var`.

A polyvar is a tagged union whose lists are vectors and whose maps are
`std::map<std::string, polyvar>`. The tags themselves are a parameter: nothing but
their distinctness is used. `i_var` runs on fuel; `iVarFuel_settles` shows that the
length of the stream is fuel enough, so that `iVar` is the unbounded recursion.
-/

set_option autoImplicit false

namespace Socketxx.SimpleSocket

open StreamReader

instance : LinearOrder CxxString :=
  LinearOrder.lift' (fun str => str.bytes.map UInt8.toNat) (by
    intro left right same
    apply CxxString.ext
    exact List.map_injective_iff.mpr (fun _ _ => UInt8.toNat_inj.mp) same)

inductive PolyType where
  | void
  | str
  | float
  | int
  | char
  | bool
  | list
  | map
deriving DecidableEq, Repr

/-- The values of `enum polyvar::type`, each of which fits a `char`. -/
structure TypeCodes where
  code : PolyType → UInt8
  injective : Function.Injective code

/-- What is held by a polyvar, before the invariants of its containers. -/
inductive PolyTree where
  | void
  | str (s : CxxString)
  | float (f : BitVec (8 * 8))
  | int (i : BitVec (8 * 8))
  | char (c : UInt8)
  | bool (b : Bool)
  | list (v : List PolyTree)
  | map (m : List (CxxString × PolyTree))

/-- Sizes fit a `size_t` and maps are ordered by key, at every depth. -/
inductive PolyTree.Valid : PolyTree → Prop where
  | void : Valid .void
  | str (s : CxxString) : Valid (.str s)
  | float (f : BitVec (8 * 8)) : Valid (.float f)
  | int (i : BitVec (8 * 8)) : Valid (.int i)
  | char (c : UInt8) : Valid (.char c)
  | bool (b : Bool) : Valid (.bool b)
  | list (v : List PolyTree) (size : v.length < 2 ^ 64)
      (each : ∀ element ∈ v, Valid element) : Valid (.list v)
  | map (m : List (CxxString × PolyTree)) (size : m.length < 2 ^ 64)
      (ordered : OrderedMap.Sorted m) (each : ∀ entry ∈ m, Valid entry.2) : Valid (.map m)

structure Polyvar where
  tree : PolyTree
  valid : tree.Valid

def PolyType.all : List PolyType :=
  [.void, .str, .float, .int, .char, .bool, .list, .map]

/-- The enumerator a received type byte is equal to, if there is one. -/
def TypeCodes.typeOf (codes : TypeCodes) (byte : UInt8) : Option PolyType :=
  PolyType.all.find? (fun type => codes.code type == byte)

/-! ### `o_var` -/

mutual

def oVar (host : Host) (codes : TypeCodes) : PolyTree → List UInt8
  | .void => oChar (codes.code .void)
  | .str s => oChar (codes.code .str) ++ oStr host s
  | .float f => oChar (codes.code .float) ++ oFloat host f
  | .int i => oChar (codes.code .int) ++ oInt host i
  | .char c => oChar (codes.code .char) ++ oChar c
  | .bool b => oChar (codes.code .bool) ++ oBool b
  | .list v =>
      oChar (codes.code .list) ++ (oInt host (BitVec.ofNat (8 * 8) v.length) ++
        oVarElements host codes v)
  | .map m =>
      oChar (codes.code .map) ++ (oInt host (BitVec.ofNat (8 * 8) m.length) ++
        oVarEntries host codes m)

def oVarElements (host : Host) (codes : TypeCodes) : List PolyTree → List UInt8
  | [] => []
  | element :: rest => oVar host codes element ++ oVarElements host codes rest

def oVarEntries (host : Host) (codes : TypeCodes) :
    List (CxxString × PolyTree) → List UInt8
  | [] => []
  | entry :: rest => oVarEntry host codes entry ++ oVarEntries host codes rest

def oVarEntry (host : Host) (codes : TypeCodes) : CxxString × PolyTree → List UInt8
  | (key, element) => oStr host key ++ oVar host codes element

end

/-! ### `i_var` -/

/-- `std::pair(i_str(), i_var())`, in the order the compiler chose. -/
def iPair (host : Host) (nested : Receive PolyTree) : Receive (CxxString × PolyTree) :=
  match host.pairOrder with
  | .keyFirst => do
      let key ← iStr host
      let element ← nested
      pure (key, element)
  | .valueFirst => do
      let element ← nested
      let key ← iStr host
      pure (key, element)

/-- The loop of the `MAP` case; `insert` leaves an entry already present alone. -/
def iMapEntries (host : Host) (nested : Receive PolyTree) :
    Nat → List (CxxString × PolyTree) → Receive (List (CxxString × PolyTree))
  | 0, m => pure m
  | sz + 1, m => do
      let entry ← iPair host nested
      iMapEntries host nested sz (OrderedMap.insert entry m)

/-- The `switch` of `i_var`. A byte that is none of the enumerators matches no case,
and the function ends there. -/
def iVarSwitch (host : Host) (nested : Receive PolyTree) :
    Option PolyType → Receive PolyTree
  | some .void => pure .void
  | some .str => .str <$> iStr host
  | some .float => .float <$> iFloat host
  | some .int => .int <$> iInt host 8
  | some .char => .char <$> iChar
  | some .bool => .bool <$> iBool
  | some .list => do
      let size ← BitVec.toNat <$> iInt host 8
      newVector host size
      .list <$> Reader.times nested size
  | some .map => do
      let sz ← BitVec.toNat <$> iInt host 8
      .map <$> iMapEntries host nested sz []
  | none => Reader.undefined .missingReturn

def iVarFuel (host : Host) (codes : TypeCodes) : Nat → Receive PolyTree
  | 0 => Reader.running
  | fuel + 1 => do
      let t ← iChar
      iVarSwitch host (iVarFuel host codes fuel) (codes.typeOf t)

def iVar (host : Host) (codes : TypeCodes) : Receive PolyTree := fun stream =>
  iVarFuel host codes (stream.length + 1) stream

/-! ### Type bytes -/

private theorem PolyType.mem_all (type : PolyType) : type ∈ PolyType.all := by
  cases type <;> decide

theorem TypeCodes.typeOf_eq_some (codes : TypeCodes) (byte : UInt8) (type : PolyType) :
    codes.typeOf byte = some type ↔ codes.code type = byte := by
  constructor
  · intro found
    have tested := List.find?_some found
    exact eq_of_beq tested
  · intro same
    subst same
    cases found : codes.typeOf (codes.code type) with
    | none =>
        have missed := List.find?_eq_none.mp found type type.mem_all
        exact absurd (beq_self_eq_true (codes.code type)) missed
    | some other =>
        have tested := List.find?_some found
        rw [codes.injective (eq_of_beq tested)]

@[simp] theorem TypeCodes.typeOf_code (codes : TypeCodes) (type : PolyType) :
    codes.typeOf (codes.code type) = some type :=
  (codes.typeOf_eq_some _ _).mpr rfl

theorem TypeCodes.typeOf_eq_none (codes : TypeCodes) (byte : UInt8) :
    codes.typeOf byte = none ↔ ∀ type, codes.code type ≠ byte := by
  constructor
  · intro missing type same
    rw [(codes.typeOf_eq_some byte type).mpr same] at missing
    cases missing
  · intro missing
    cases found : codes.typeOf byte with
    | none => rfl
    | some type => exact absurd ((codes.typeOf_eq_some byte type).mp found) (missing type)

theorem oVarElements_eq_flatMap (host : Host) (codes : TypeCodes) (v : List PolyTree) :
    oVarElements host codes v = v.flatMap (oVar host codes) := by
  induction v with
  | nil => rfl
  | cons head tail ih => rw [oVarElements, List.flatMap_cons, ih]

theorem oVarEntries_eq_flatMap (host : Host) (codes : TypeCodes)
    (m : List (CxxString × PolyTree)) :
    oVarEntries host codes m =
      m.flatMap (fun entry => oStr host entry.1 ++ oVar host codes entry.2) := by
  induction m with
  | nil => rfl
  | cons head tail ih =>
      obtain ⟨key, element⟩ := head
      rw [oVarEntries, oVarEntry, List.flatMap_cons, ih]

private theorem iMapEntries_eq_times (host : Host) (nested : Receive PolyTree) (sz : Nat)
    (m : List (CxxString × PolyTree)) :
    iMapEntries host nested sz m =
      (fun entries => entries.foldl (fun found entry => OrderedMap.insert entry found) m) <$>
        Reader.times (iPair host nested) sz := by
  induction sz generalizing m with
  | zero => rfl
  | succ sz ih =>
      funext stream
      rw [iMapEntries, Reader.times, Reader.map_eq_bind, Reader.bind_apply,
        Reader.bind_apply, Reader.bind_apply]
      cases iPair host nested stream with
      | ok result =>
          simp only [ih, Reader.map_eq_bind, Reader.bind_apply]
          cases Reader.times (iPair host nested) sz result.2 <;> rfl
      | throw error => rfl
      | undefined fault => rfl
      | running => rfl

theorem iMapEntries_eq_insertAll (host : Host) (nested : Receive PolyTree) (sz : Nat) :
    iMapEntries host nested sz [] =
      OrderedMap.insertAll <$> Reader.times (iPair host nested) sz :=
  iMapEntries_eq_times host nested sz []

end Socketxx.SimpleSocket
