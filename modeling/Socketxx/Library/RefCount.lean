import Mathlib.Data.List.Basic
import Mathlib.Data.List.Count
import Mathlib.Data.List.Perm.Basic
import Mathlib.Logic.Function.Basic

/-!
Objects that count the references to what they share.

The objects alive of one key share a counter, which is raised by each constructor that
takes over the key of another object, and lowered by each destructor.
-/

set_option autoImplicit false

namespace RefCount

/-- The objects alive, and the values of the counters. -/
structure Pool (ω κ : Type) where
  objects : List ω
  count : κ → Nat

variable {ω κ : Type} [DecidableEq κ]

def Pool.empty : Pool ω κ := ⟨[], fun _ => 0⟩

def Pool.construct (key : ω → κ) (pool : Pool ω κ) (object : ω) : Pool ω κ :=
  { objects := pool.objects ++ [object]
    count := Function.update pool.count (key object) 1 }

def Pool.share (key : ω → κ) (pool : Pool ω κ) (object : ω) : Pool ω κ :=
  { objects := pool.objects ++ [object]
    count := Function.update pool.count (key object) (pool.count (key object) + 1) }

/-- What is left of the object's counter once it is lowered. -/
def Pool.left (key : ω → κ) (pool : Pool ω κ) (object : ω) : Nat :=
  pool.count (key object) - 1

def Pool.destroy (key : ω → κ) (pool : Pool ω κ) (index : Nat) (object : ω) : Pool ω κ :=
  { objects := pool.objects.eraseIdx index
    count := Function.update pool.count (key object) (pool.left key object) }

/-- How many of the objects have the key. -/
def holders (key : ω → κ) (objects : List ω) (wanted : κ) : Nat :=
  objects.countP (fun object => key object = wanted)

/-- Each counter says how many objects share it. -/
def Pool.Counted (key : ω → κ) (pool : Pool ω κ) : Prop :=
  ∀ wanted, pool.count wanted = holders key pool.objects wanted

variable {key : ω → κ}

theorem holders_concat (objects : List ω) (object : ω) (wanted : κ) :
    holders key (objects ++ [object]) wanted =
      holders key objects wanted + if key object = wanted then 1 else 0 := by
  rw [holders, List.countP_append, List.countP_singleton, holders]
  simp only [decide_eq_true_eq]

theorem holders_eq_zero_iff (objects : List ω) (wanted : κ) :
    holders key objects wanted = 0 ↔ ∀ object ∈ objects, key object ≠ wanted := by
  rw [holders, List.countP_eq_zero]
  simp only [decide_eq_true_eq, ne_eq]

theorem perm_cons_eraseIdx {objects : List ω} {index : Nat} {object : ω}
    (found : objects[index]? = some object) :
    objects.Perm (object :: objects.eraseIdx index) := by
  obtain ⟨bound, same⟩ := List.getElem?_eq_some_iff.mp found
  rw [← same]
  exact (List.getElem_cons_eraseIdx_perm bound).symm

theorem mem_iff_eraseIdx {objects : List ω} {index : Nat} {object : ω}
    (found : objects[index]? = some object) (other : ω) :
    other ∈ objects ↔ other = object ∨ other ∈ objects.eraseIdx index := by
  rw [(perm_cons_eraseIdx found).mem_iff, List.mem_cons]

theorem holders_eraseIdx {objects : List ω} {index : Nat} {object : ω}
    (found : objects[index]? = some object) (wanted : κ) :
    holders key objects wanted =
      holders key (objects.eraseIdx index) wanted + if key object = wanted then 1 else 0 := by
  rw [holders, (perm_cons_eraseIdx found).countP_eq, List.countP_cons, holders]
  simp only [decide_eq_true_eq]

theorem Pool.empty_counted : (Pool.empty : Pool ω κ).Counted key := fun _ => rfl

theorem Pool.Counted.construct {pool : Pool ω κ} (counted : pool.Counted key) {object : ω}
    (new : ∀ other ∈ pool.objects, key other ≠ key object) :
    (pool.construct key object).Counted key := by
  intro wanted
  simp only [Pool.construct, holders_concat, Function.update_apply]
  by_cases same : wanted = key object
  · rw [if_pos same, if_pos same.symm, same, (holders_eq_zero_iff _ _).mpr new]
  · rw [if_neg same, if_neg (Ne.symm same)]
    exact counted wanted

theorem Pool.Counted.share {pool : Pool ω κ} (counted : pool.Counted key) (object : ω) :
    (pool.share key object).Counted key := by
  intro wanted
  simp only [Pool.share, holders_concat, Function.update_apply]
  by_cases same : wanted = key object
  · rw [if_pos same, if_pos same.symm, same, counted]
  · rw [if_neg same, if_neg (Ne.symm same)]
    exact counted wanted

theorem Pool.Counted.left {pool : Pool ω κ} (counted : pool.Counted key) {index : Nat}
    {object : ω} (found : pool.objects[index]? = some object) :
    pool.left key object = holders key (pool.objects.eraseIdx index) (key object) := by
  rw [Pool.left, counted, holders_eraseIdx found, if_pos rfl, Nat.add_sub_cancel]

theorem Pool.Counted.destroy {pool : Pool ω κ} (counted : pool.Counted key) {index : Nat}
    {object : ω} (found : pool.objects[index]? = some object) :
    (pool.destroy key index object).Counted key := by
  intro wanted
  simp only [Pool.destroy, Function.update_apply]
  by_cases same : wanted = key object
  · rw [if_pos same, same]
    exact counted.left found
  · have before := counted wanted
    rw [holders_eraseIdx found, if_neg (Ne.symm same)] at before
    rw [if_neg same]
    exact before

theorem Pool.Counted.left_eq_zero_iff {pool : Pool ω κ} (counted : pool.Counted key)
    {index : Nat} {object : ω} (found : pool.objects[index]? = some object) :
    pool.left key object = 0 ↔
      ∀ other ∈ pool.objects.eraseIdx index, key other ≠ key object := by
  rw [counted.left found, holders_eq_zero_iff]

end RefCount
