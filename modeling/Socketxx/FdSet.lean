import Mathlib.Data.List.Basic

/-!
The sets of descriptors that `select` is called with, of `FD_SETSIZE` bits.

`FD_SET` and `FD_ISSET` are not checked in the source. For a number that has no bit, `none` stands
for what they then do.
-/

set_option autoImplicit false

namespace Socketxx

abbrev FdSet := List Int

def fdSetSize : Int := 1024

def fdSet (fd : Int) (set : FdSet) : Option FdSet :=
  if 0 ≤ fd ∧ fd < fdSetSize then some (fd :: set) else none

def fdIsset (fd : Int) (set : FdSet) : Option Bool :=
  if 0 ≤ fd ∧ fd < fdSetSize then some (decide (fd ∈ set)) else none

/-- The loops that put descriptors in a set and keep the greatest one. -/
def fillFdset : List Int → Int → FdSet → Option (Int × FdSet)
  | [], max, set => some (max, set)
  | fd :: later, max, set =>
      match fdSet fd set with
      | none => none
      | some set => fillFdset later (if fd > max then fd else max) set

/-- What `select` leaves in the set it was given. -/
def selectResult (nfds : Int) (set : FdSet) (ready : List Int) : FdSet :=
  set.filter (fun fd => fd < nfds && decide (fd ∈ ready))

def InRange (fd : Int) : Prop := 0 ≤ fd ∧ fd < fdSetSize

instance (fd : Int) : Decidable (InRange fd) := inferInstanceAs (Decidable (_ ∧ _))

theorem fdSet_none_iff (fd : Int) (set : FdSet) : fdSet fd set = none ↔ ¬ InRange fd := by
  unfold fdSet InRange
  split <;> simp [*]

theorem fdSet_inRange {fd : Int} (inRange : InRange fd) (set : FdSet) :
    fdSet fd set = some (fd :: set) := if_pos inRange

theorem fdIsset_none_iff (fd : Int) (set : FdSet) : fdIsset fd set = none ↔ ¬ InRange fd := by
  unfold fdIsset InRange
  split <;> simp [*]

theorem fillFdset_none_iff (fds : List Int) (max : Int) (set : FdSet) :
    fillFdset fds max set = none ↔ ∃ fd ∈ fds, ¬ InRange fd := by
  induction fds generalizing max set with
  | nil => simp [fillFdset]
  | cons fd later ih =>
      rw [fillFdset]
      cases added : fdSet fd set with
      | none =>
          have outside := (fdSet_none_iff fd set).mp added
          exact iff_of_true rfl ⟨fd, List.mem_cons_self, outside⟩
      | some between =>
          have inside : InRange fd := by
            by_contra outside
            rw [(fdSet_none_iff fd set).mpr outside] at added
            cases added
          simp only [ih, List.mem_cons, exists_eq_or_imp, not_true, false_or, inside]

private theorem mem_of_fdSet {fd other : Int} {set after : FdSet}
    (added : fdSet fd set = some after) :
    other ∈ after ↔ other = fd ∨ other ∈ set := by
  rw [fdSet] at added
  split at added
  · cases added
    exact List.mem_cons
  · cases added

theorem mem_of_fdIsset {fd : Int} {set : FdSet} (isset : fdIsset fd set = some true) :
    fd ∈ set := by
  rw [fdIsset] at isset
  split at isset
  · exact of_decide_eq_true (Option.some.inj isset)
  · cases isset

theorem fillFdset_some (fds : List Int) {max top : Int} {set full : FdSet}
    (filled : fillFdset fds max set = some (top, full)) (bound : ∀ fd ∈ set, fd ≤ max) :
    (∀ fd, fd ∈ full ↔ fd ∈ set ∨ fd ∈ fds) ∧ ∀ fd ∈ full, fd ≤ top := by
  induction fds generalizing max set with
  | nil =>
      cases filled
      exact ⟨fun fd => by simp, bound⟩
  | cons head later ih =>
      rw [fillFdset] at filled
      cases added : fdSet head set with
      | none =>
          rw [added] at filled
          cases filled
      | some between =>
          rw [added] at filled
          have bounds : ∀ fd ∈ between, fd ≤ if head > max then head else max := by
            intro fd member
            rcases (mem_of_fdSet added).mp member with same | before
            · split <;> omega
            · have below := bound fd before
              split <;> omega
          obtain ⟨members, top⟩ := ih filled bounds
          refine ⟨fun fd => ?_, top⟩
          rw [members, mem_of_fdSet added, List.mem_cons]
          constructor
          · intro member
            rcases member with (same | before) | later
            · exact Or.inr (Or.inl same)
            · exact Or.inl before
            · exact Or.inr (Or.inr later)
          · intro member
            rcases member with before | same | later
            · exact Or.inl (Or.inr before)
            · exact Or.inl (Or.inl same)
            · exact Or.inr later

end Socketxx
