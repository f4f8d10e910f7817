import Mathlib.Tactic.Common

/-!
Computations of one thread over a state and a non-recursive lock, which is taken by
guards that release it when their scope is left by a return or an exception.

A computation is `Unlocked` if it leaves the lock alone, and `Safe` if it can be run
by a thread that does not hold the lock, which then does not hold it afterwards. A
guarded `Unlocked` computation is `Safe`, and nothing guarded twice ever is.
-/

set_option autoImplicit false

namespace ScopedLock

/-- `blocked` is a thread that waits for the system, `deadlock` one that locks what it
holds. -/
inductive Outcome (ε υ α : Type) where
  | returned (value : α)
  | threw (error : ε)
  | blocked
  | deadlock
  | undefined (fault : υ)
deriving Repr, DecidableEq

def Outcome.void {ε υ α : Type} : Outcome ε υ α → Outcome ε υ Unit
  | .returned _ => .returned ()
  | .threw error => .threw error
  | .blocked => .blocked
  | .deadlock => .deadlock
  | .undefined fault => .undefined fault

structure Guarded (σ : Type) where
  held : Bool
  state : σ
deriving Repr, DecidableEq

def LockM (σ ε υ α : Type) := Guarded σ → Outcome ε υ α × Guarded σ

variable {σ ε υ α γ : Type}

namespace LockM

protected def pure (value : α) : LockM σ ε υ α := fun world => (.returned value, world)

protected def bind (first : LockM σ ε υ α) (next : α → LockM σ ε υ γ) :
    LockM σ ε υ γ := fun world =>
  match first world with
  | (.returned value, after) => next value after
  | (.threw error, after) => (.threw error, after)
  | (.blocked, after) => (.blocked, after)
  | (.deadlock, after) => (.deadlock, after)
  | (.undefined fault, after) => (.undefined fault, after)

instance : Monad (LockM σ ε υ) where
  pure := LockM.pure
  bind := LockM.bind

def throw (error : ε) : LockM σ ε υ α := fun world => (.threw error, world)

def blocked : LockM σ ε υ α := fun world => (.blocked, world)

def undefined (fault : υ) : LockM σ ε υ α := fun world => (.undefined fault, world)

def ofOption (fault : υ) : Option α → LockM σ ε υ α
  | none => undefined fault
  | some value => pure value

def get : LockM σ ε υ σ := fun world => (.returned world.state, world)

def modify (f : σ → σ) : LockM σ ε υ Unit := fun world =>
  (.returned (), { world with state := f world.state })

def void (comp : LockM σ ε υ α) : LockM σ ε υ Unit := fun world =>
  ((comp world).1.void, (comp world).2)

def locked (scope : LockM σ ε υ α) : LockM σ ε υ α := fun world =>
  if world.held then (.deadlock, world)
  else
    match scope { world with held := true } with
    | (.returned value, after) => (.returned value, { after with held := false })
    | (.threw error, after) => (.threw error, { after with held := false })
    | (.blocked, after) => (.blocked, after)
    | (.deadlock, after) => (.deadlock, after)
    | (.undefined fault, after) => (.undefined fault, after)

theorem bind_apply (first : LockM σ ε υ α) (next : α → LockM σ ε υ γ)
    (world : Guarded σ) :
    (first >>= next) world =
      match first world with
      | (.returned value, after) => next value after
      | (.threw error, after) => (.threw error, after)
      | (.blocked, after) => (.blocked, after)
      | (.deadlock, after) => (.deadlock, after)
      | (.undefined fault, after) => (.undefined fault, after) := rfl

theorem bind_returned {first : LockM σ ε υ α} {next : α → LockM σ ε υ γ}
    {world after : Guarded σ} {value : α} (ran : first world = (.returned value, after)) :
    (first >>= next) world = next value after := by
  rw [bind_apply, ran]

theorem bind_threw {first : LockM σ ε υ α} {next : α → LockM σ ε υ γ}
    {world after : Guarded σ} {error : ε} (ran : first world = (.threw error, after)) :
    (first >>= next) world = (.threw error, after) := by
  rw [bind_apply, ran]

theorem bind_blocked {first : LockM σ ε υ α} {next : α → LockM σ ε υ γ}
    {world after : Guarded σ} (ran : first world = (.blocked, after)) :
    (first >>= next) world = (.blocked, after) := by
  rw [bind_apply, ran]

theorem bind_deadlock {first : LockM σ ε υ α} {next : α → LockM σ ε υ γ}
    {world after : Guarded σ} (ran : first world = (.deadlock, after)) :
    (first >>= next) world = (.deadlock, after) := by
  rw [bind_apply, ran]

theorem locked_of_held (scope : LockM σ ε υ α) {world : Guarded σ}
    (held : world.held = true) : locked scope world = (.deadlock, world) := by
  rw [locked, if_pos held]

theorem locked_threw {scope : LockM σ ε υ α} {world after : Guarded σ} {error : ε}
    (free : world.held = false)
    (ran : scope { world with held := true } = (.threw error, after)) :
    locked scope world = (.threw error, { after with held := false }) := by
  rw [locked, if_neg (by rw [free]; exact Bool.false_ne_true), ran]

theorem locked_blocked {scope : LockM σ ε υ α} {world after : Guarded σ}
    (free : world.held = false)
    (ran : scope { world with held := true } = (.blocked, after)) :
    locked scope world = (.blocked, after) := by
  rw [locked, if_neg (by rw [free]; exact Bool.false_ne_true), ran]

theorem locked_deadlock {scope : LockM σ ε υ α} {world after : Guarded σ}
    (free : world.held = false)
    (ran : scope { world with held := true } = (.deadlock, after)) :
    locked scope world = (.deadlock, after) := by
  rw [locked, if_neg (by rw [free]; exact Bool.false_ne_true), ran]

/-- A guarded scope that takes the same lock. -/
theorem locked_locked (scope : LockM σ ε υ α) (world : Guarded σ) :
    (locked (locked scope) world).1 = .deadlock := by
  cases held : world.held with
  | true => rw [locked_of_held (locked scope) held]
  | false => rw [locked_deadlock held (locked_of_held scope rfl)]

/-! ### Computations that do not deadlock -/

/-- No deadlock, and the lock is as told unless the thread is stuck. -/
inductive Leaves (held : Bool) : Outcome ε υ α × Guarded σ → Prop where
  | returned (value : α) (state : σ) : Leaves held (.returned value, ⟨held, state⟩)
  | threw (error : ε) (state : σ) : Leaves held (.threw error, ⟨held, state⟩)
  | blocked (after : Guarded σ) : Leaves held (.blocked, after)
  | undefined (fault : υ) (after : Guarded σ) : Leaves held (.undefined fault, after)

def Unlocked (comp : LockM σ ε υ α) : Prop := ∀ world, Leaves world.held (comp world)

def Safe (comp : LockM σ ε υ α) : Prop := ∀ state, Leaves false (comp ⟨false, state⟩)

theorem Leaves.void {held : Bool} {outcome : Outcome ε υ α} {after : Guarded σ}
    (leaves : Leaves held (outcome, after)) : Leaves held (outcome.void, after) := by
  cases leaves with
  | returned value state => exact Leaves.returned () state
  | threw error state => exact Leaves.threw error state
  | blocked after => exact Leaves.blocked after
  | undefined fault after => exact Leaves.undefined fault after

theorem Safe.void {comp : LockM σ ε υ α} (safe : Safe comp) : Safe comp.void :=
  fun state => (safe state).void

theorem void_deadlock {comp : LockM σ ε υ α} {world : Guarded σ}
    (ran : (comp world).1 = .deadlock) : (comp.void world).1 = .deadlock := by
  rw [LockM.void, ran]
  rfl

theorem Unlocked.pure (value : α) : Unlocked (pure value : LockM σ ε υ α) :=
  fun world => Leaves.returned value world.state

theorem Unlocked.throw (error : ε) : Unlocked (throw error : LockM σ ε υ α) :=
  fun world => Leaves.threw error world.state

theorem Unlocked.blocked : Unlocked (blocked : LockM σ ε υ α) :=
  fun world => Leaves.blocked world

theorem Unlocked.undefined (fault : υ) : Unlocked (undefined fault : LockM σ ε υ α) :=
  fun world => Leaves.undefined fault world

theorem Unlocked.get : Unlocked (get : LockM σ ε υ σ) :=
  fun world => Leaves.returned world.state world.state

theorem Unlocked.modify (f : σ → σ) : Unlocked (modify f : LockM σ ε υ Unit) :=
  fun world => Leaves.returned () (f world.state)

theorem Unlocked.bind {first : LockM σ ε υ α} {next : α → LockM σ ε υ γ}
    (unlocked : Unlocked first) (later : ∀ value, Unlocked (next value)) :
    Unlocked (first >>= next) := by
  intro world
  have here := unlocked world
  rw [bind_apply]
  generalize first world = ran at here
  cases here with
  | returned value state => exact later value ⟨world.held, state⟩
  | threw error state => exact Leaves.threw error state
  | blocked after => exact Leaves.blocked after
  | undefined fault after => exact Leaves.undefined fault after

theorem Unlocked.safe {comp : LockM σ ε υ α} (unlocked : Unlocked comp) : Safe comp :=
  fun state => unlocked ⟨false, state⟩

theorem Safe.bind {first : LockM σ ε υ α} {next : α → LockM σ ε υ γ}
    (safe : Safe first) (later : ∀ value, Safe (next value)) : Safe (first >>= next) := by
  intro state
  have here := safe state
  rw [bind_apply]
  generalize first ⟨false, state⟩ = ran at here
  cases here with
  | returned value state => exact later value state
  | threw error state => exact Leaves.threw error state
  | blocked after => exact Leaves.blocked after
  | undefined fault after => exact Leaves.undefined fault after

theorem Unlocked.locked {scope : LockM σ ε υ α} (unlocked : Unlocked scope) :
    Safe (locked scope) := by
  intro state
  have here := unlocked ⟨true, state⟩
  rw [LockM.locked, if_neg Bool.false_ne_true]
  generalize scope ⟨true, state⟩ = ran at here
  cases here with
  | returned value state => exact Leaves.returned value state
  | threw error state => exact Leaves.threw error state
  | blocked after => exact Leaves.blocked after
  | undefined fault after => exact Leaves.undefined fault after

end LockM

end ScopedLock
