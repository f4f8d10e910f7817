import Socketxx.PoolSteps

/-!
The iterators of `_wait_activity_loop` and `clients_foreach` under callbacks that change the
list they go through.
-/

set_option autoImplicit false

namespace Socketxx.ServerPool

open Runs ScopedLock

/-! ### `clients_foreach` -/

/-- Where the loop of `clients_foreach` is. An iterator that is `none` is `end()`. -/
inductive ForeachPhase where
  | visit (it : Option Nat)
  | advance (it : Nat)
  | ended (outcome : Outcome Error Fault Unit)
deriving DecidableEq, Repr

structure Foreach where
  world : Guarded Server
  phase : ForeachPhase

namespace Foreach

def goto (config : Foreach) (phase : ForeachPhase) : Foreach := { config with phase := phase }

/-- `f(*it)`, which ends the loop with `POOL_QUIT`. -/
def call (config : Foreach) (it : Nat) (behaviour : Behaviour) : Foreach :=
  match runOps behaviour.ops config.world with
  | (_, .returned (), world) =>
      match behaviour.result with
      | none => ⟨world, .ended (.threw .callback)⟩
      | some result =>
          if result = .poolQuit then ⟨world, .ended (.returned ())⟩ else ⟨world, .advance it⟩
  | (_, outcome, world) => ⟨world, .ended outcome⟩

def step (config : Foreach) (behaviour : Behaviour) : Foreach :=
  match config.phase with
  | .visit none => config.goto (.ended (.returned ()))
  | .visit (some it) =>
      match config.world.state.retainedClients.find it with
      | none => config.goto (.ended (.undefined .erased))
      | some _ => config.call it behaviour
  | .advance it =>
      match config.world.state.retainedClients.next it with
      | none => config.goto (.ended (.undefined .erased))
      | some next => config.goto (.visit next)
  | .ended _ => config

def start (world : Guarded Server) : Foreach :=
  ⟨world, .visit world.state.retainedClients.begin⟩

end Foreach

/-! ### What is claimed, and when it holds -/

/-- An iterator that is about to be dereferenced or incremented. -/
def ForeachPhase.iterator : ForeachPhase → Option Nat
  | .visit it => it
  | .advance it => some it
  | .ended _ => none

/-- The iterator that the loop is about to use is that of an entry of the list. -/
def Config.IteratorValid (config : Config) : Prop :=
  ∀ it, config.phase.iterator = some it → it ∈ config.world.state.retainedClients.ids

def Foreach.IteratorValid (config : Foreach) : Prop :=
  ∀ it, config.phase.iterator = some it → it ∈ config.world.state.retainedClients.ids

def Behaviour.Completes (behaviour : Behaviour) (world : Guarded Server) : Prop :=
  (runOps behaviour.ops world).2.1 = .returned ()

/-- A callback that lets the loop go on has not released the entry it was called for. -/
def Loop.KeepsEntry (loop : Loop) (config : Config) (answer : Answer) : Prop :=
  ∀ it, loop.Calls config answer.accept (.client it) →
    answer.behaviour.Completes config.world →
    answer.behaviour.result = some .poolContinue → .release it ∉ answer.behaviour.ops

/-- The same of `clients_foreach`, which goes on unless told to quit. -/
def Foreach.KeepsEntry (config : Foreach) (behaviour : Behaviour) : Prop :=
  ∀ it, config.phase = .visit (some it) → behaviour.Completes config.world →
    ∀ result, behaviour.result = some result → result ≠ .poolQuit →
      .release it ∉ behaviour.ops

/-! ### The list -/

private theorem RetainedClients.begin_mem {clients : RetainedClients} {it : Nat}
    (first : clients.begin = some it) : it ∈ clients.ids :=
  List.mem_of_head? first

private theorem RetainedClients.find_of_mem {clients : RetainedClients} {it : Nat}
    (member : it ∈ clients.ids) : ∃ entry, clients.find it = some entry := by
  obtain ⟨entry, inside, same⟩ := List.mem_map.mp member
  cases found : clients.find it with
  | some entry => exact ⟨entry, rfl⟩
  | none =>
      have other := List.find?_eq_none.mp found entry inside
      rw [same] at other
      simp at other

theorem runOps_keeps {ops : List ListOp} {world final : Guarded Server} {events : List Event}
    (ran : runOps ops world = (events, .returned (), final)) {it : Nat}
    (member : it ∈ world.state.retainedClients.ids) :
    it ∈ final.state.retainedClients.ids ↔ .release it ∉ ops :=
  (runOps_done ops ran).kept it member

/-! ### `_wait_activity_loop` -/

section

variable {loop : Loop} {config : Config} {answer : Answer}

theorem Config.IteratorValid.of_none (none : config.phase.iterator = none) :
    config.IteratorValid := by
  intro it current
  rw [none] at current
  cases current

private theorem Config.Called.iteratorValid {source : Source} {after : Config}
    (valid : config.IteratorValid) (keeps : loop.KeepsEntry config answer)
    (calls : loop.Calls config answer.accept source)
    (called : config.Called source answer.behaviour source.next after) :
    after.IteratorValid := by
  cases called with
  | goesOn events world ran result =>
      intro it current
      cases source with
      | monitored index => cases current
      | newClient => cases current
      | client id =>
          cases current
          have member : it ∈ config.world.state.retainedClients.ids := by
            apply valid
            rw [calls.1]
            rfl
          rw [runOps_keeps ran member]
          exact keeps it calls (by rw [Behaviour.Completes, ran]) result
  | leaves events world result ran returns leaves => exact Config.IteratorValid.of_none rfl
  | fails events world outcome called ran inRange => exact Config.IteratorValid.of_none rfl

private theorem Loop.step_iteratorValid (valid : config.IteratorValid)
    (keeps : loop.KeepsEntry config answer) : (loop.step config answer).IteratorValid := by
  have stepped := loop.stepped config answer
  generalize loop.step config answer = after at stepped ⊢
  cases stepped with
  | called source after calls called => exact called.iteratorValid valid keeps calls
  | scanned phase maxsock set => exact Config.IteratorValid.of_none rfl
  | unready phase ready next quiet =>
      apply Config.IteratorValid.of_none
      rcases quiet with same | ⟨error, same⟩
      · rw [same]
        rfl
      · rw [same]
        rfl
  | ready phase ready => exact Config.IteratorValid.of_none rfl
  | goes next goes =>
      cases goes with
      | on next valid dispatching live inRange => exact valid
      | stays outcome phase => exact Config.IteratorValid.of_none rfl
      | outOfRange fd tests outside => exact Config.IteratorValid.of_none rfl

private theorem Loop.step_iteratorInvalid (valid : config.IteratorValid)
    (drops : ¬ loop.KeepsEntry config answer) : ¬ (loop.step config answer).IteratorValid := by
  unfold Loop.KeepsEntry at drops
  push Not at drops
  obtain ⟨it, calls, completes, result, released⟩ := drops
  have member : it ∈ config.world.state.retainedClients.ids := by
    apply valid
    rw [calls.1]
    rfl
  rcases ran : runOps answer.behaviour.ops config.world with ⟨events, outcome, world⟩
  rw [Behaviour.Completes, ran] at completes
  cases completes
  intro still
  rw [Loop.step_called calls, Config.callback_goesOn ran result] at still
  exact (runOps_keeps ran member).mp (still it rfl) released

end

/-! ### `clients_foreach` under callbacks -/

section

variable {config : Foreach} {behaviour : Behaviour}

theorem Foreach.IteratorValid.of_none (none : config.phase.iterator = none) :
    config.IteratorValid := by
  intro it current
  rw [none] at current
  cases current

theorem Foreach.step_visit {it : Nat} (phase : config.phase = .visit (some it))
    (member : it ∈ config.world.state.retainedClients.ids) :
    config.step behaviour = config.call it behaviour := by
  obtain ⟨entry, found⟩ := RetainedClients.find_of_mem member
  rw [Foreach.step, phase]
  simp only [found]

theorem Foreach.call_goesOn {it : Nat} {result : PoolRet} {events : List Event}
    {world : Guarded Server}
    (ran : runOps behaviour.ops config.world = (events, .returned (), world))
    (returns : behaviour.result = some result) (goes : result ≠ .poolQuit) :
    config.call it behaviour = ⟨world, .advance it⟩ := by
  unfold Foreach.call
  rw [ran, returns]
  exact if_neg goes

private theorem Foreach.call_iteratorValid {it : Nat} (phase : config.phase = .visit (some it))
    (member : it ∈ config.world.state.retainedClients.ids)
    (keeps : config.KeepsEntry behaviour) : (config.call it behaviour).IteratorValid := by
  rcases ran : runOps behaviour.ops config.world with ⟨events, outcome, world⟩
  cases outcome with
  | returned value =>
      cases returns : behaviour.result with
      | none =>
          apply Foreach.IteratorValid.of_none
          unfold Foreach.call
          rw [ran, returns]
          rfl
      | some result =>
          by_cases quits : result = .poolQuit
          · apply Foreach.IteratorValid.of_none
            unfold Foreach.call
            rw [ran, returns, quits]
            rfl
          · rw [Foreach.call_goesOn ran returns quits]
            intro other current
            cases current
            have kept := keeps it phase (by rw [Behaviour.Completes, ran]) result returns quits
            exact (runOps_keeps ran member).mpr kept
  | _ =>
      apply Foreach.IteratorValid.of_none
      unfold Foreach.call
      rw [ran]
      rfl

private theorem Foreach.step_iteratorValid (valid : config.IteratorValid)
    (keeps : config.KeepsEntry behaviour) : (config.step behaviour).IteratorValid := by
  cases phase : config.phase with
  | visit it =>
      cases it with
      | none =>
          rw [Foreach.step, phase]
          exact Foreach.IteratorValid.of_none rfl
      | some it =>
          have member : it ∈ config.world.state.retainedClients.ids := by
            apply valid
            rw [phase]
            rfl
          rw [Foreach.step_visit phase member]
          exact Foreach.call_iteratorValid phase member keeps
  | advance it =>
      cases advanced : config.world.state.retainedClients.next it with
      | none =>
          simp only [Foreach.step, phase, advanced]
          exact Foreach.IteratorValid.of_none rfl
      | some next =>
          simp only [Foreach.step, phase, advanced]
          intro other current
          change next = some other at current
          rw [current] at advanced
          exact RetainedClients.next_mem advanced
  | ended outcome =>
      rw [Foreach.step, phase]
      exact valid

private theorem Foreach.step_iteratorInvalid (valid : config.IteratorValid)
    (drops : ¬ config.KeepsEntry behaviour) : ¬ (config.step behaviour).IteratorValid := by
  unfold Foreach.KeepsEntry at drops
  push Not at drops
  obtain ⟨it, phase, completes, result, returns, goes, released⟩ := drops
  have member : it ∈ config.world.state.retainedClients.ids := by
    apply valid
    rw [phase]
    rfl
  rcases ran : runOps behaviour.ops config.world with ⟨events, outcome, world⟩
  rw [Behaviour.Completes, ran] at completes
  cases completes
  intro still
  rw [Foreach.step_visit phase member, Foreach.call_goesOn ran returns goes] at still
  exact (runOps_keeps ran member).mp (still it rfl) released

end

/-! ### Whole runs -/

private theorem Loop.start_iteratorValid (loop : Loop) (world : Guarded Server) :
    (loop.start world).IteratorValid := by
  apply Config.IteratorValid.of_none
  rw [Loop.start]
  simp only
  split <;> rfl

private theorem Foreach.start_iteratorValid (world : Guarded Server) :
    (Foreach.start world).IteratorValid := by
  intro it first
  exact RetainedClients.begin_mem first

/-- Both loops use valid iterators only, exactly in the runs where no callback that lets
its loop go on has released the entry it was called for. Other entries may be released at
any time. -/
theorem iterators_survive_iff (loop : Loop) (world : Guarded Server) (answers : List Answer)
    (behaviours : List Behaviour) :
    (EveryState loop.step Config.IteratorValid (loop.start world) answers ↔
      EveryStep loop.step loop.KeepsEntry (loop.start world) answers) ∧
    (EveryState Foreach.step Foreach.IteratorValid (Foreach.start world) behaviours ↔
      EveryStep Foreach.step Foreach.KeepsEntry (Foreach.start world) behaviours) := by
  constructor
  · apply everyState_iff_everyStep
    · exact fun config valid => valid
    · exact fun config answer valid keeps => Loop.step_iteratorValid valid keeps
    · exact fun config answer valid drops => Loop.step_iteratorInvalid valid drops
    · exact loop.start_iteratorValid world
  · apply everyState_iff_everyStep
    · exact fun config valid => valid
    · exact fun config behaviour valid keeps => Foreach.step_iteratorValid valid keeps
    · exact fun config behaviour valid drops => Foreach.step_iteratorInvalid valid drops
    · exact Foreach.start_iteratorValid world

/-- A server that retains one client, on descriptor 4. -/
def oneClient : Guarded Server :=
  ⟨false, ⟨3, true, RetainedClients.empty.insert ⟨4, 0⟩⟩⟩

theorem iterators_die :
    ¬ (∀ (loop : Loop) (world : Guarded Server) (answers : List Answer),
        EveryState loop.step Config.IteratorValid (loop.start world) answers) ∧
      ¬ (∀ (world : Guarded Server) (behaviours : List Behaviour),
        EveryState Foreach.step Foreach.IteratorValid (Foreach.start world) behaviours) := by
  constructor
  · intro survive
    let answer : Answer := ⟨.ready [4], .pending, ⟨[.release 0], some .poolContinue⟩⟩
    have last := (survive ⟨false, false, []⟩ oneClient (List.replicate 6 answer)).final
    exact absurd (last 0 rfl) (by decide)
  · intro survive
    have last := (survive oneClient [⟨[.release 0], some .poolRescan⟩]).final
    exact absurd (last 0 rfl) (by decide)

end Socketxx.ServerPool
