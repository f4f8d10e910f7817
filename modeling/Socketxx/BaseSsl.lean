import Mathlib.Data.List.Range
import Mathlib.Data.List.Nodup
import Mathlib.Data.List.Count
import Socketxx.Library.Runs

/-!
`base_ssl`: the switch to TLS and back, and the `SSL` and `SSL_CTX` objects it makes
on the way.

The objects are numbered in the order of their creation. What OpenSSL answers is given
for each call.
-/

set_option autoImplicit false

namespace Socketxx.BaseSsl

open Runs

/-- The two pointers, and what the object has created and freed. -/
structure World where
  sslSock : Option Nat
  sslCtx : Option Nat
  sslCreated : Nat
  ctxCreated : Nat
  sslFreed : List Nat
  ctxFreed : List Nat
deriving DecidableEq, Repr

def World.constructed : World :=
  { sslSock := none
    sslCtx := none
    sslCreated := 0
    ctxCreated := 0
    sslFreed := []
    ctxFreed := [] }

/-- Whether `SSL_CTX_new`, `SSL_new` and `SSL_set_fd` succeed, and what `SSL_connect` or
`SSL_accept` returns. -/
structure Answers where
  ctxNew : Bool
  sslNew : Bool
  setFd : Bool
  handshake : Int
deriving DecidableEq, Repr

inductive Outcome where
  | returned
  | startError
  | stopError
  | logicError
deriving DecidableEq, Repr

def World.ctxNew (world : World) (succeeds : Bool) : World :=
  if succeeds then
    { world with
      sslCtx := some world.ctxCreated
      ctxCreated := world.ctxCreated + 1 }
  else { world with sslCtx := none }

def World.sslNew (world : World) (succeeds : Bool) : World :=
  if succeeds then
    { world with
      sslSock := some world.sslCreated
      sslCreated := world.sslCreated + 1 }
  else { world with sslSock := none }

def World.newSslSocket (world : World) (answers : Answers) : Outcome × World :=
  let world := world.ctxNew answers.ctxNew
  if world.sslCtx = none then (.startError, world)
  else
    let world := world.sslNew answers.sslNew
    if world.sslSock = none then (.startError, world)
    else if !answers.setFd then (.startError, world)
    else (.returned, world)

/-- The body of `start_ssl` and `wait_for_ssl`, which differ in the method they give to
`SSL_CTX_new`, and in the handshake they call for. -/
def World.enter (world : World) (answers : Answers) : Outcome × World :=
  let (outcome, world) := world.newSslSocket answers
  if outcome ≠ .returned then (outcome, world)
  else if answers.handshake ≤ 0 then (.startError, world)
  else (.returned, world)

def World.startSsl (world : World) (answers : Answers) : Outcome × World :=
  world.enter answers

def World.waitForSsl (world : World) (answers : Answers) : Outcome × World :=
  world.enter answers

/-- `stop_ssl`, with what `SSL_shutdown` returns. `SSL_CTX_free` ignores a null pointer. -/
def World.stopSsl (world : World) (shutdown : Int) : Outcome × World :=
  match world.sslSock with
  | none => (.logicError, world)
  | some sock =>
      if shutdown ≤ 0 then (.stopError, world)
      else
        (.returned,
          { world with
            sslSock := none
            sslCtx := none
            sslFreed := world.sslFreed ++ [sock]
            ctxFreed := world.ctxFreed ++ world.sslCtx.toList })

/-- `~base_ssl`; the counter is that of the descriptor, which copies as `base_netsock`
share. -/
def World.destroy (world : World) (refcount : Nat) (shutdown : Int) : World :=
  if refcount = 1 ∧ world.sslSock ≠ none then (world.stopSsl shutdown).2 else world

inductive Op where
  | startSsl (answers : Answers)
  | waitForSsl (answers : Answers)
  | stopSsl (shutdown : Int)
deriving DecidableEq, Repr

def World.call (world : World) : Op → Outcome × World
  | .startSsl answers => world.startSsl answers
  | .waitForSsl answers => world.waitForSsl answers
  | .stopSsl shutdown => world.stopSsl shutdown

def World.step (world : World) (op : Op) : World := (world.call op).2

/-- The pointers are null together, and nothing is left unfreed but what they point to. -/
structure World.Consistent (world : World) : Prop where
  null : world.sslSock = none ↔ world.sslCtx = none
  ssl : ∀ id < world.sslCreated, id ∉ world.sslFreed → world.sslSock = some id
  ctx : ∀ id < world.ctxCreated, id ∉ world.ctxFreed → world.sslCtx = some id

def World.SameMode (world after : World) : Prop :=
  after.sslSock = none ↔ world.sslSock = none

def World.CallHolds (world : World) (op : Op) : Prop :=
  (world.step op).Consistent ∧
    match op with
    | .startSsl _ => (world.call op).1 ≠ .returned → world.SameMode (world.step op)
    | .waitForSsl _ => (world.call op).1 ≠ .returned → world.SameMode (world.step op)
    | .stopSsl _ => True

structure World.FreedOnce (world : World) : Prop where
  ssl : ∀ id < world.sslCreated, world.sslFreed.count id = 1
  ctx : ∀ id < world.ctxCreated, world.ctxFreed.count id = 1

def Answers.AllOrNothing (answers : Answers) : Prop :=
  answers.ctxNew = true →
    answers.sslNew = true ∧ answers.setFd = true ∧ 0 < answers.handshake

/-- A start is made in plain mode, and fails with its first step if at all. -/
def World.Clean (world : World) : Op → Prop
  | .startSsl answers => world.sslSock = none ∧ answers.AllOrNothing
  | .waitForSsl answers => world.sslSock = none ∧ answers.AllOrNothing
  | .stopSsl _ => True

/-- The object is destroyed in plain mode, or as the last one on its descriptor by a
shutdown that returns 1. -/
def World.EndsClean (world : World) (refcount : Nat) (shutdown : Int) : Prop :=
  world.sslSock = none ∨ refcount = 1 ∧ 0 < shutdown

/-! ### What a start can do -/

def World.entered (world : World) : World :=
  { world with
    sslSock := some world.sslCreated
    sslCtx := some world.ctxCreated
    sslCreated := world.sslCreated + 1
    ctxCreated := world.ctxCreated + 1 }

inductive Enters (world : World) (answers : Answers) : Outcome × World → Prop where
  | noCtx (fails : answers.ctxNew = false) :
      Enters world answers (.startError, { world with sslCtx := none })
  | noSsl (made : answers.ctxNew = true) (fails : answers.sslNew = false) :
      Enters world answers (.startError, { world with
        sslSock := none
        sslCtx := some world.ctxCreated
        ctxCreated := world.ctxCreated + 1 })
  | failed (made : answers.ctxNew = true) (newSsl : answers.sslNew = true)
      (fails : ¬ (answers.setFd = true ∧ 0 < answers.handshake)) :
      Enters world answers (.startError, world.entered)
  | done (made : answers.ctxNew = true) (newSsl : answers.sslNew = true)
      (all : answers.setFd = true ∧ 0 < answers.handshake) :
      Enters world answers (.returned, world.entered)

theorem World.enter_enters (world : World) (answers : Answers) :
    Enters world answers (world.enter answers) := by
  obtain ⟨ctxNew, sslNew, setFd, handshake⟩ := answers
  cases ctxNew with
  | false => exact Enters.noCtx rfl
  | true =>
      cases sslNew with
      | false => exact Enters.noSsl rfl rfl
      | true =>
          cases setFd with
          | false => exact Enters.failed rfl rfl (fun all => Bool.false_ne_true all.1)
          | true =>
              by_cases positive : 0 < handshake
              · have result : world.enter ⟨true, true, true, handshake⟩ =
                    (.returned, world.entered) := by
                  simp only [enter, newSslSocket, World.ctxNew, World.sslNew]
                  simp [entered]
                  omega
                rw [result]
                exact Enters.done rfl rfl ⟨rfl, positive⟩
              · have result : world.enter ⟨true, true, true, handshake⟩ =
                    (.startError, world.entered) := by
                  simp only [enter, newSslSocket, World.ctxNew, World.sslNew]
                  simp [entered]
                  omega
                rw [result]
                exact Enters.failed rfl rfl (fun all => positive all.2)

/-! ### Between clean calls -/

structure World.Plain (world : World) : Prop where
  sock : world.sslSock = none
  ctx : world.sslCtx = none
  sslFreed : world.sslFreed = List.range world.sslCreated
  ctxFreed : world.ctxFreed = List.range world.ctxCreated

structure World.Secure (world : World) (lastSsl lastCtx : Nat) : Prop where
  sock : world.sslSock = some lastSsl
  ctx : world.sslCtx = some lastCtx
  sslCreated : world.sslCreated = lastSsl + 1
  ctxCreated : world.ctxCreated = lastCtx + 1
  sslFreed : world.sslFreed = List.range lastSsl
  ctxFreed : world.ctxFreed = List.range lastCtx

def World.Sound (world : World) : Prop := world.Plain ∨ ∃ ssl ctx, world.Secure ssl ctx

private theorem World.Plain.consistent {world : World} (plain : world.Plain) :
    world.Consistent := by
  refine ⟨iff_of_true plain.sock plain.ctx, ?_, ?_⟩
  · intro id created unfreed
    rw [plain.sslFreed] at unfreed
    exact absurd (List.mem_range.mpr created) unfreed
  · intro id created unfreed
    rw [plain.ctxFreed] at unfreed
    exact absurd (List.mem_range.mpr created) unfreed

private theorem World.Secure.consistent {world : World} {ssl ctx : Nat}
    (secure : world.Secure ssl ctx) : world.Consistent := by
  constructor
  case null =>
    rw [secure.sock, secure.ctx]
    exact iff_of_false (Option.some_ne_none _) (Option.some_ne_none _)
  case ssl =>
    intro id created unfreed
    rw [secure.sslFreed, List.mem_range] at unfreed
    rw [secure.sslCreated] at created
    rw [secure.sock]
    congr 1
    omega
  case ctx =>
    intro id created unfreed
    rw [secure.ctxFreed, List.mem_range] at unfreed
    rw [secure.ctxCreated] at created
    rw [secure.ctx]
    congr 1
    omega

private theorem World.Plain.entered {world : World} (plain : world.Plain) :
    world.entered.Secure world.sslCreated world.ctxCreated :=
  ⟨rfl, rfl, rfl, rfl, plain.sslFreed, plain.ctxFreed⟩

private theorem World.Secure.entered_leaks {world : World} {lastSsl lastCtx : Nat}
    (secure : world.Secure lastSsl lastCtx) : ¬ world.entered.Consistent := by
  intro consistent
  have created : lastSsl < world.entered.sslCreated := by
    change lastSsl < world.sslCreated + 1
    rw [secure.sslCreated]
    omega
  have unfreed : lastSsl ∉ world.entered.sslFreed := by
    change lastSsl ∉ world.sslFreed
    rw [secure.sslFreed]
    exact List.not_mem_range_self
  have same := Option.some.inj (consistent.ssl lastSsl created unfreed)
  rw [secure.sslCreated] at same
  omega

theorem World.Sound.consistent {world : World} (sound : world.Sound) : world.Consistent := by
  rcases sound with plain | ⟨ssl, ctx, secure⟩
  · exact plain.consistent
  · exact secure.consistent

/-! ### Starts -/

theorem World.Sound.enter {world : World} (sound : world.Sound) {answers : Answers}
    (sock : world.sslSock = none) (all : answers.AllOrNothing) :
    (world.enter answers).2.Sound ∧
      ((world.enter answers).1 ≠ .returned → world.SameMode (world.enter answers).2) := by
  have plain : world.Plain := by
    rcases sound with plain | ⟨ssl, ctx, secure⟩
    · exact plain
    · rw [secure.sock] at sock
      cases sock
  have enters := world.enter_enters answers
  generalize world.enter answers = result at enters ⊢
  cases enters with
  | noCtx fails =>
      exact ⟨Or.inl ⟨plain.sock, rfl, plain.sslFreed, plain.ctxFreed⟩, fun _ => Iff.rfl⟩
  | noSsl made fails =>
      rw [(all made).1] at fails
      cases fails
  | failed made newSsl fails => exact absurd (all made).2 fails
  | done made newSsl all =>
      exact ⟨Or.inr ⟨_, _, plain.entered⟩, fun other => absurd rfl other⟩

private theorem World.Sound.enter_other {world : World} (sound : world.Sound) {answers : Answers}
    (other : ¬ (world.sslSock = none ∧ answers.AllOrNothing)) :
    ¬ ((world.enter answers).2.Consistent ∧
      ((world.enter answers).1 ≠ .returned → world.SameMode (world.enter answers).2)) := by
  intro all
  obtain ⟨consistent, kept⟩ := all
  have enters := world.enter_enters answers
  generalize world.enter answers = result at enters consistent kept
  rcases sound with plain | ⟨ssl, ctx, secure⟩
  · cases enters with
    | noCtx fails =>
        refine other ⟨plain.sock, fun made => ?_⟩
        rw [fails] at made
        cases made
    | noSsl made fails => exact absurd (consistent.null.mp rfl) (Option.some_ne_none _)
    | failed made newSsl fails =>
        have back := (kept (fun impossible => nomatch impossible)).mpr plain.sock
        exact absurd back (Option.some_ne_none _)
    | done made newSsl all => exact other ⟨plain.sock, fun _ => ⟨newSsl, all⟩⟩
  · cases enters with
    | noCtx fails =>
        have gone := consistent.null.mpr rfl
        rw [secure.sock] at gone
        cases gone
    | noSsl made fails => exact absurd (consistent.null.mp rfl) (Option.some_ne_none _)
    | failed made newSsl fails => exact secure.entered_leaks consistent
    | done made newSsl all => exact secure.entered_leaks consistent

/-! ### Stops and the destructor -/

theorem World.Secure.stopped {world : World} {lastSsl lastCtx : Nat}
    (secure : world.Secure lastSsl lastCtx) {shutdown : Int} (positive : 0 < shutdown) :
    (world.stopSsl shutdown).2.Plain := by
  have succeeds : ¬ shutdown ≤ 0 := by omega
  rw [stopSsl, secure.sock]
  simp only [if_neg succeeds]
  refine ⟨rfl, rfl, ?_, ?_⟩
  · rw [secure.sslFreed, secure.sslCreated, List.range_succ]
  · rw [secure.ctxFreed, secure.ctxCreated, secure.ctx, List.range_succ]
    rfl

theorem World.Sound.stopSsl {world : World} (sound : world.Sound) (shutdown : Int) :
    (world.stopSsl shutdown).2.Sound := by
  rcases sound with plain | ⟨lastSsl, lastCtx, secure⟩
  · rw [World.stopSsl, plain.sock]
    exact Or.inl plain
  · by_cases positive : 0 < shutdown
    · exact Or.inl (secure.stopped positive)
    · rw [World.stopSsl, secure.sock]
      simp only [if_pos (Int.not_lt.mp positive)]
      exact Or.inr ⟨lastSsl, lastCtx, secure⟩

private theorem World.Plain.freedOnce {world : World} (plain : world.Plain) : world.FreedOnce := by
  constructor
  case ssl =>
    intro id created
    rw [plain.sslFreed]
    exact List.count_eq_one_of_mem List.nodup_range (List.mem_range.mpr created)
  case ctx =>
    intro id created
    rw [plain.ctxFreed]
    exact List.count_eq_one_of_mem List.nodup_range (List.mem_range.mpr created)

private theorem World.Secure.not_freedOnce {world : World} {lastSsl lastCtx : Nat}
    (secure : world.Secure lastSsl lastCtx) : ¬ world.FreedOnce := by
  intro freed
  have once := freed.ssl lastSsl (by rw [secure.sslCreated]; omega)
  rw [secure.sslFreed, List.count_eq_zero_of_not_mem List.not_mem_range_self] at once
  omega

private theorem World.Sound.destroy_freedOnce_iff {world : World} (sound : world.Sound)
    (refcount : Nat) (shutdown : Int) :
    (world.destroy refcount shutdown).FreedOnce ↔ world.EndsClean refcount shutdown := by
  rcases sound with plain | ⟨lastSsl, lastCtx, secure⟩
  · rw [destroy, if_neg (fun both => both.2 plain.sock)]
    exact iff_of_true plain.freedOnce (Or.inl plain.sock)
  · have started : world.sslSock ≠ none := by
      rw [secure.sock]
      exact Option.some_ne_none _
    by_cases clean : refcount = 1 ∧ 0 < shutdown
    · rw [destroy, if_pos ⟨clean.1, started⟩]
      exact iff_of_true (secure.stopped clean.2).freedOnce (Or.inr clean)
    · refine iff_of_false ?_ (fun ends => ends.elim started clean)
      rw [destroy]
      split
      · rename_i last
        have fails : shutdown ≤ 0 := by
          by_contra succeeds
          exact clean ⟨last.1, by omega⟩
        rw [World.stopSsl, secure.sock]
        simp only [if_pos fails]
        exact secure.not_freedOnce
      · exact secure.not_freedOnce

/-! ### Whole lives -/

private theorem World.Sound.step {world : World} (sound : world.Sound) (op : Op)
    (clean : world.Clean op) : (world.step op).Sound := by
  cases op with
  | startSsl answers => exact (sound.enter clean.1 clean.2).1
  | waitForSsl answers => exact (sound.enter clean.1 clean.2).1
  | stopSsl shutdown => exact sound.stopSsl shutdown

private theorem World.Sound.enter_iff {world : World} (sound : world.Sound) (answers : Answers) :
    ((world.enter answers).2.Consistent ∧
        ((world.enter answers).1 ≠ .returned → world.SameMode (world.enter answers).2)) ↔
      world.sslSock = none ∧ answers.AllOrNothing := by
  constructor
  · intro holds
    by_contra other
    exact sound.enter_other other holds
  · intro clean
    obtain ⟨sock, all⟩ := clean
    have entered := sound.enter sock all
    exact ⟨entered.1.consistent, entered.2⟩

private theorem World.Sound.callHolds_iff {world : World} (sound : world.Sound) (op : Op) :
    world.CallHolds op ↔ world.Clean op := by
  cases op with
  | startSsl answers => exact sound.enter_iff answers
  | waitForSsl answers => exact sound.enter_iff answers
  | stopSsl shutdown =>
      exact iff_of_true ⟨(sound.stopSsl shutdown).consistent, trivial⟩ trivial

private theorem constructed_sound : World.constructed.Sound := Or.inl ⟨rfl, rfl, rfl, rfl⟩

/-- In a life of calls ended by destruction, every call leaves mode and resources
consistent and everything is freed exactly once in the end, if and only if every start is
made in plain mode and fails with `SSL_CTX_new` or not at all, and the destructor finds
plain mode, or the last object on the descriptor and a shutdown that is complete. -/
theorem consistent_iff (ops : List Op) (refcount : Nat) (shutdown : Int) :
    (EveryStep World.step World.CallHolds World.constructed ops ∧
        ((ops.foldl World.step World.constructed).destroy refcount shutdown).FreedOnce) ↔
      EveryStep World.step World.Clean World.constructed ops ∧
        (ops.foldl World.step World.constructed).EndsClean refcount shutdown := by
  have keeps : ∀ (world : World) (op : Op), world.Sound → world.Clean op →
      (world.step op).Sound := fun _ op sound clean => sound.step op clean
  have same : ∀ (world : World) (op : Op), world.Sound →
      (world.CallHolds op ↔ world.Clean op) := fun _ op sound => sound.callHolds_iff op
  rw [everyStep_congr keeps same constructed_sound ops]
  apply and_congr_right
  intro clean
  exact (clean.invariant keeps constructed_sound).destroy_freedOnce_iff refcount shutdown

/-- A handshake that fails leaves SSL mode on, and what it made is lost to the next try. -/
theorem failed_start_inconsistent :
    ¬ World.constructed.CallHolds (.startSsl ⟨true, true, true, -1⟩) ∧
      ¬ (([.startSsl ⟨true, true, true, -1⟩].foldl World.step World.constructed).step
        (.startSsl ⟨true, true, true, 1⟩)).Consistent ∧
      ¬ (([.startSsl ⟨true, true, true, 1⟩].foldl World.step World.constructed).destroy 2
        1).FreedOnce := by
  refine ⟨?_, ?_, ?_⟩
  · intro holds
    obtain ⟨_, kept⟩ := holds
    exact absurd ((kept (by decide)).mpr rfl) (by decide)
  · intro consistent
    exact absurd (consistent.ssl 0 (Nat.succ_pos _) (by decide)) (by decide)
  · intro freed
    exact absurd (freed.ssl 0 (Nat.succ_pos _)) (by decide)

end Socketxx.BaseSsl
