import Mathlib.Data.List.Infix
import Mathlib.Data.List.Perm.Basic
import Mathlib.Tactic.Common

/-!
A queue whose first ready element is served and put at the end.

Who is ready may change from one service to the next. An element that is ready each time is
served after at most as many others as stand before it.
-/

set_option autoImplicit false

namespace ServedQueue

variable {α : Type} {ready : α → Prop} {queue after front back : List α} {served waiting : α}

structure Serve (ready : α → Prop) (queue : List α) (served : α) (after : List α) : Prop where
  isReady : ready served
  place : ∃ before later, queue = before ++ served :: later ∧
    (∀ other ∈ before, ¬ ready other) ∧ after = before ++ later ++ [served]

/-- Services one after another, at each of which `waiting` is ready. -/
inductive Serves (waiting : α) : List α → List α → Prop where
  | nil (queue : List α) : Serves waiting queue []
  | cons {ready : α → Prop} {queue after others : List α} {served : α}
      (first : Serve ready queue served after) (waits : ready waiting)
      (later : Serves waiting after others) : Serves waiting queue (served :: others)

theorem Serve.perm (serve : Serve ready queue served after) : after.Perm queue := by
  obtain ⟨before, later, split, _, moved⟩ := serve.place
  rw [split, moved, List.append_assoc]
  exact List.perm_append_comm.append_left before

private theorem Serve.advances (serve : Serve ready (front ++ waiting :: back) served after)
    (waits : ready waiting) (other : served ≠ waiting) :
    ∃ front' back', after = front' ++ waiting :: back' ∧ front'.length + 1 = front.length := by
  obtain ⟨before, later, split, idle, moved⟩ := serve.place
  rcases List.append_eq_append_iff.mp split with ⟨middle, behind, rest⟩ | ⟨middle, ahead, rest⟩
  · cases middle with
    | nil =>
        rw [List.nil_append] at rest
        cases rest
        exact absurd rfl other
    | cons head middle =>
        rw [List.cons_append] at rest
        cases rest
        rw [behind] at idle
        exact absurd waits (idle waiting (List.mem_append_right _ List.mem_cons_self))
  · cases middle with
    | nil =>
        rw [List.nil_append] at rest
        cases rest
        exact absurd rfl other
    | cons head middle =>
        rw [List.cons_append] at rest
        cases rest
        refine ⟨before ++ middle, back ++ [served], ?_, ?_⟩
        · rw [moved]
          simp only [List.append_assoc, List.cons_append]
        · rw [ahead, List.length_append, List.length_append, List.length_cons]
          omega

/-- Whoever is ready each time is served in time. -/
theorem Serves.mem {all : List α} (serves : Serves waiting (front ++ waiting :: back) all)
    (enough : front.length < all.length) : waiting ∈ all := by
  induction all generalizing front back with
  | nil => exact absurd enough (Nat.not_lt_zero _)
  | cons served others ih =>
      cases serves with
      | cons first waits later =>
          by_cases same : served = waiting
          · rw [same]
            exact List.mem_cons_self
          · obtain ⟨front', back', moved, shorter⟩ := first.advances waits same
            rw [moved] at later
            rw [List.length_cons] at enough
            exact List.mem_cons_of_mem _ (ih later (by omega))

end ServedQueue
