import Mathlib.Data.List.Sort
import Mathlib.Tactic.Ring

/-!
Ordered maps as strictly sorted association lists, with the insertion that keeps
the entry already present.

`insertAll_of_perm` rebuilds a map from any listing of its entries.
`insertAll_perm_of_weight` goes back: a listing that weighs no more than the map it
builds lists every entry exactly once.
-/

set_option autoImplicit false

namespace OrderedMap

variable {κ α : Type}

def weight (cost : κ × α → Nat) (entries : List (κ × α)) : Nat :=
  (entries.map cost).sum

private theorem weight_perm (cost : κ × α → Nat) {left right : List (κ × α)}
    (perm : left.Perm right) : weight cost left = weight cost right :=
  (perm.map cost).sum_nat

variable [LinearOrder κ]

def Sorted (entries : List (κ × α)) : Prop :=
  entries.Pairwise (fun left right => left.1 < right.1)

def insert (entry : κ × α) : List (κ × α) → List (κ × α)
  | [] => [entry]
  | head :: rest =>
      if entry.1 < head.1 then entry :: head :: rest
      else if entry.1 = head.1 then head :: rest
      else head :: insert entry rest

/-- The map a sequence of insertions builds from the empty one. -/
def insertAll (entries : List (κ × α)) : List (κ × α) :=
  entries.foldl (fun found entry => insert entry found) []

theorem insert_cases (entry : κ × α) (found : List (κ × α)) :
    insert entry found = found ∧ entry.1 ∈ found.map Prod.fst ∨
      (insert entry found).Perm (entry :: found) := by
  induction found with
  | nil => exact Or.inr (List.Perm.refl _)
  | cons head rest ih =>
      unfold insert
      by_cases before : entry.1 < head.1
      · rw [if_pos before]
        exact Or.inr (List.Perm.refl _)
      · rw [if_neg before]
        by_cases same : entry.1 = head.1
        · rw [if_pos same]
          refine Or.inl ⟨rfl, ?_⟩
          rw [same]
          exact List.mem_cons_self
        · rw [if_neg same]
          rcases ih with ⟨kept, present⟩ | added
          · rw [kept]
            exact Or.inl ⟨rfl, List.mem_cons_of_mem _ present⟩
          · exact Or.inr ((added.cons head).trans (List.Perm.swap entry head rest))

private theorem insert_perm {entry : κ × α} {found : List (κ × α)}
    (fresh : entry.1 ∉ found.map Prod.fst) :
    (insert entry found).Perm (entry :: found) := by
  rcases insert_cases entry found with ⟨_kept, present⟩ | added
  · exact absurd present fresh
  · exact added

theorem mem_insert {entry other : κ × α} {found : List (κ × α)}
    (member : other ∈ insert entry found) : other = entry ∨ other ∈ found := by
  rcases insert_cases entry found with ⟨kept, _present⟩ | added
  · rw [kept] at member
    exact Or.inr member
  · exact List.mem_cons.mp (added.mem_iff.mp member)

private theorem Sorted.insert {found : List (κ × α)} (sorted : Sorted found) (entry : κ × α) :
    Sorted (insert entry found) := by
  induction found with
  | nil => exact List.pairwise_singleton _ _
  | cons head rest ih =>
      obtain ⟨headLess, restSorted⟩ := List.pairwise_cons.mp sorted
      unfold OrderedMap.insert
      by_cases before : entry.1 < head.1
      · rw [if_pos before]
        refine List.pairwise_cons.mpr ⟨?_, sorted⟩
        intro other member
        rcases List.mem_cons.mp member with rfl | later
        · exact before
        · exact lt_trans before (headLess other later)
      · rw [if_neg before]
        by_cases same : entry.1 = head.1
        · rw [if_pos same]
          exact sorted
        · rw [if_neg same]
          refine List.pairwise_cons.mpr ⟨?_, ih restSorted⟩
          intro other member
          rcases mem_insert member with rfl | old
          · exact lt_of_le_of_ne (not_lt.mp before) (Ne.symm same)
          · exact headLess other old

private theorem sorted_foldl_insert (entries found : List (κ × α)) (sorted : Sorted found) :
    Sorted (entries.foldl (fun map entry => insert entry map) found) := by
  induction entries generalizing found with
  | nil => exact sorted
  | cons head rest ih => exact ih (insert head found) (sorted.insert head)

theorem insertAll_sorted (entries : List (κ × α)) : Sorted (insertAll entries) :=
  sorted_foldl_insert entries [] List.Pairwise.nil

theorem mem_of_mem_insertAll {entries : List (κ × α)} {entry : κ × α}
    (member : entry ∈ insertAll entries) : entry ∈ entries := by
  have origin : ∀ (added found : List (κ × α)),
      entry ∈ added.foldl (fun map entry => insert entry map) found →
        entry ∈ added ∨ entry ∈ found := by
    intro added
    induction added with
    | nil => exact fun found member => Or.inr member
    | cons head rest ih =>
        intro found member
        rcases ih (insert head found) member with later | inserted
        · exact Or.inl (List.mem_cons_of_mem head later)
        · rcases mem_insert inserted with rfl | old
          · exact Or.inl List.mem_cons_self
          · exact Or.inr old
  rcases origin entries [] member with added | found
  · exact added
  · exact absurd found List.not_mem_nil

private theorem Sorted.keys_nodup {entries : List (κ × α)} (sorted : Sorted entries) :
    (entries.map Prod.fst).Nodup := by
  refine List.pairwise_map.mpr (sorted.imp ?_)
  intro left right less
  exact ne_of_lt less

private theorem Sorted.eq_of_perm {left right : List (κ × α)} (leftSorted : Sorted left)
    (rightSorted : Sorted right) (perm : left.Perm right) : left = right := by
  refine perm.eq_of_pairwise ?_ leftSorted rightSorted
  intro first second _ _ less greater
  exact absurd (lt_trans less greater) (lt_irrefl _)

private theorem foldl_insert_perm (entries found : List (κ × α))
    (distinct : ((entries ++ found).map Prod.fst).Nodup) :
    (entries.foldl (fun map entry => insert entry map) found).Perm (entries ++ found) := by
  induction entries generalizing found with
  | nil => exact List.Perm.refl _
  | cons head rest ih =>
      rw [List.cons_append, List.map_cons, List.nodup_cons] at distinct
      have fresh : head.1 ∉ found.map Prod.fst := by
        intro present
        apply distinct.1
        rw [List.map_append]
        exact List.mem_append_right _ present
      have added : (rest ++ insert head found).Perm (head :: (rest ++ found)) :=
        ((insert_perm fresh).append_left rest).trans List.perm_middle
      have stillDistinct : ((rest ++ insert head found).map Prod.fst).Nodup := by
        rw [(added.map Prod.fst).nodup_iff, List.map_cons, List.nodup_cons]
        exact distinct
      exact (ih (insert head found) stillDistinct).trans added

/-- Inserting the entries of a map in any order rebuilds the map. -/
theorem insertAll_of_perm {entries map : List (κ × α)} (perm : entries.Perm map)
    (sorted : Sorted map) : insertAll entries = map := by
  have distinct : ((entries ++ []).map Prod.fst).Nodup := by
    rw [List.append_nil, (perm.map Prod.fst).nodup_iff]
    exact sorted.keys_nodup
  have built := foldl_insert_perm entries [] distinct
  rw [List.append_nil] at built
  exact (insertAll_sorted entries).eq_of_perm sorted (built.trans perm)

private theorem foldl_insert_weight (cost : κ × α → Nat) (positive : ∀ entry, 0 < cost entry)
    (entries found : List (κ × α)) :
    weight cost (entries.foldl (fun map entry => insert entry map) found) ≤
        weight cost entries + weight cost found ∧
      (weight cost entries + weight cost found ≤
          weight cost (entries.foldl (fun map entry => insert entry map) found) →
        (entries.foldl (fun map entry => insert entry map) found).Perm (entries ++ found)) := by
  induction entries generalizing found with
  | nil =>
      constructor
      · simp [weight]
      · intro _
        exact List.Perm.refl _
  | cons head rest ih =>
      obtain ⟨bound, exact⟩ := ih (insert head found)
      have headWeight : weight cost (head :: rest) = cost head + weight cost rest := by
        simp only [weight, List.map_cons, List.sum_cons]
      have headPositive := positive head
      rw [List.foldl_cons, headWeight]
      rcases insert_cases head found with ⟨kept, _present⟩ | added
      · rw [kept] at bound
        rw [kept]
        constructor
        · omega
        · intro heavy
          omega
      · have addedWeight : weight cost (insert head found) =
            cost head + weight cost found := by
          rw [weight_perm cost added]
          simp only [weight, List.map_cons, List.sum_cons]
        constructor
        · omega
        · intro heavy
          have restPerm := exact (by omega)
          exact restPerm.trans ((added.append_left rest).trans List.perm_middle)

theorem insertAll_weight_le (cost : κ × α → Nat) (positive : ∀ entry, 0 < cost entry)
    (entries : List (κ × α)) :
    weight cost (insertAll entries) ≤ weight cost entries := by
  have bound := (foldl_insert_weight cost positive entries []).1
  simpa [weight, insertAll] using bound

theorem insertAll_length_le (entries : List (κ × α)) :
    (insertAll entries).length ≤ entries.length := by
  have weights := insertAll_weight_le (fun _ => 1) (fun _ => Nat.one_pos) entries
  simpa [weight] using weights

theorem insertAll_perm_of_weight (cost : κ × α → Nat) (positive : ∀ entry, 0 < cost entry)
    (entries : List (κ × α)) (heavy : weight cost entries ≤ weight cost (insertAll entries)) :
    (insertAll entries).Perm entries := by
  have perm := (foldl_insert_weight cost positive entries []).2
    (by simpa [weight, insertAll] using heavy)
  rwa [List.append_nil] at perm

end OrderedMap
