import Socketxx.PoolSteps

/-!
Which client `_wait_activity_loop` reports activity for, when descriptor numbers are used
again for new connections.

A client is its connection with the number of its descriptor. What is remembered of a trace
is the list as it stands, and the clients in the list at the latest `select` with the result
of that.
-/

set_option autoImplicit false

namespace Socketxx.ServerPool

open Runs ScopedLock

structure Memory where
  retained : List Entry
  listed : List Client
  ready : FdSet

namespace Memory

def start (server : Server) : Memory :=
  { retained := server.retainedClients.entries
    listed := []
    ready := [] }

def observe (memory : Memory) : Event → Memory
  | .selected _ _ ready =>
      { memory with
        listed := memory.retained.map Entry.client
        ready := ready.getD [] }
  | .retained entry => { memory with retained := memory.retained ++ [entry] }
  | .released id =>
      { memory with retained := memory.retained.filter (fun entry => entry.id != id) }
  | .scanned => memory
  | .called _ => memory
  | .stopped => memory
  | .callbackReturned _ => memory

/-- A client that is reported was in the list at the latest `select`, and its descriptor was
reported by that. -/
def RightClient (memory : Memory) : Event → Prop
  | .called (.client id) =>
      ∃ entry ∈ memory.retained, entry.id = id ∧ entry.client ∈ memory.listed ∧
        entry.client.fd ∈ memory.ready
  | _ => True

end Memory

def Config.memory (config : Config) (server : Server) : Memory :=
  config.trace.foldl Memory.observe (Memory.start server)

/-- A callback that lets the round go on retains no client whose number is marked in the
result of the latest `select`, unless that client was in the list then. -/
def Loop.NoMarkedNewcomer (loop : Loop) (server : Server) (config : Config)
    (answer : Answer) : Prop :=
  ∀ source, loop.Calls config answer.accept source →
    answer.behaviour.result = some .poolContinue →
    ∀ client, .retain client ∈ answer.behaviour.ops →
      client.fd ∈ config.locals.cpset → client ∈ (config.memory server).listed

/-! ### The calls of a callback -/

structure Memory.Follows (memory after : Memory) (server : Server) : Prop where
  retained : after.retained = server.retainedClients.entries
  listed : after.listed = memory.listed
  ready : after.ready = memory.ready

private theorem Memory.Follows.trans {first second third : Memory} {before after : Server}
    (left : first.Follows second before) (right : second.Follows third after) :
    first.Follows third after :=
  ⟨right.retained, right.listed.trans left.listed, right.ready.trans left.ready⟩

private theorem ListOp.Ran.follows {world final : Guarded Server} {op : ListOp} {event : Event}
    {memory : Memory} (ran : ListOp.Ran world op (.returned event, final))
    (tracks : memory.retained = world.state.retainedClients.entries) :
    memory.RightClient event ∧ memory.Follows (memory.observe event) final.state := by
  cases ran with
  | retained client final state =>
      rw [state]
      exact ⟨trivial, congrArg (· ++ [_]) tracks, rfl, rfl⟩
  | released gone final state =>
      rw [state]
      have left := congrArg (List.filter (fun entry : Entry => entry.id != gone)) tracks
      exact ⟨trivial, left, rfl, rfl⟩
  | stopped final state =>
      rw [state]
      exact ⟨trivial, tracks, rfl, rfl⟩
  | failed op outcome final failed state => exact absurd rfl (failed event)

private theorem runOps_follows (ops : List ListOp) {world : Guarded Server} {memory : Memory}
    (tracks : memory.retained = world.state.retainedClients.entries) :
    EveryStep Memory.observe Memory.RightClient memory (runOps ops world).1 ∧
      memory.Follows ((runOps ops world).1.foldl Memory.observe memory)
        (runOps ops world).2.2.state := by
  induction ops generalizing world memory with
  | nil => exact ⟨trivial, tracks, rfl, rfl⟩
  | cons op later ih =>
      have ran := op.ran world
      rw [runOps]
      generalize op.call world = result at ran
      obtain ⟨outcome, final⟩ := result
      cases outcome with
      | returned event =>
          obtain ⟨right, followed⟩ := ran.follows tracks
          obtain ⟨every, follows⟩ := ih followed.retained
          exact ⟨⟨right, every⟩, followed.trans follows⟩
      | _ =>
          cases ran with
          | failed op outcome final failed state =>
              constructor
              · trivial
              · constructor
                case retained =>
                  change memory.retained = final.state.retainedClients.entries
                  rw [state]
                  exact tracks
                case listed => rfl
                case ready => rfl

/-! ### The loop -/

/-- As long as the result of a `select` is acted on, the clients whose number is marked were
all in the list at that `select`. -/
structure Config.Right (config : Config) (server : Server) : Prop where
  every : EveryStep Memory.observe Memory.RightClient (Memory.start server) config.trace
  tracks : (config.memory server).retained = config.world.state.retainedClients.entries
  ready : config.phase.dispatching = true →
    (config.memory server).ready = config.locals.cpset
  listed : config.phase.dispatching = true →
    ∀ entry ∈ config.world.state.retainedClients.entries,
      entry.client.fd ∈ config.locals.cpset → entry.client ∈ (config.memory server).listed

section

variable {loop : Loop} {server : Server} {config after : Config} {answer : Answer}

theorem Config.memory_append {events : List Event} (trace : after.trace = config.trace ++ events) :
    after.memory server = events.foldl Memory.observe (config.memory server) := by
  rw [Config.memory, trace, List.foldl_append]
  rfl

theorem Config.Right.idle (right : config.Right server) {events : List Event}
    (trace : after.trace = config.trace ++ events)
    (every : EveryStep Memory.observe Memory.RightClient (config.memory server) events)
    (tracks : (events.foldl Memory.observe (config.memory server)).retained =
      after.world.state.retainedClients.entries)
    (idle : after.phase.dispatching = false) : after.Right server := by
  constructor
  case every =>
    rw [trace, everyStep_append]
    exact ⟨right.every, every⟩
  case tracks =>
    rw [Config.memory_append trace]
    exact tracks
  case ready =>
    intro dispatching
    rw [idle] at dispatching
    cases dispatching
  case listed =>
    intro dispatching
    rw [idle] at dispatching
    cases dispatching

private theorem Config.Right.calls (right : config.Right server) {source : Source}
    (calls : loop.Calls config answer.accept source) :
    (config.memory server).RightClient (.called source) := by
  cases source with
  | monitored index => trivial
  | newClient => trivial
  | client id =>
      obtain ⟨phase, entry, found, isset⟩ := calls
      have dispatching : config.phase.dispatching = true := by
        rw [phase]
        rfl
      have member := List.mem_of_find?_eq_some found
      have same := List.find?_some found
      have marked := mem_of_fdIsset isset
      refine ⟨entry, ?_, beq_iff_eq.mp same, ?_, ?_⟩
      · rw [right.tracks]
        exact member
      · exact right.listed dispatching entry member marked
      · rw [right.ready dispatching]
        exact marked

private theorem Config.Called.right {source : Source} (right : config.Right server)
    (quiet : loop.NoMarkedNewcomer server config answer)
    (calls : loop.Calls config answer.accept source)
    (called : config.Called source answer.behaviour source.next after) :
    after.Right server := by
  have reported := right.calls calls
  have followed := @runOps_follows answer.behaviour.ops config.world (config.memory server)
    right.tracks
  have going : config.phase.dispatching = true := by
    cases source <;> rw [calls.1] <;> rfl
  cases called with
  | goesOn events world ran result =>
      rw [ran] at followed
      obtain ⟨every, follows⟩ := followed
      have trace : config.trace ++ .called source :: events ++ [.callbackReturned .poolContinue] =
          config.trace ++ (.called source :: events ++ [.callbackReturned .poolContinue]) :=
        List.append_assoc ..
      have memory : (⟨world, config.locals, source.next, config.trace ++ .called source :: events ++
          [.callbackReturned .poolContinue]⟩ : Config).memory server =
          events.foldl Memory.observe (config.memory server) := by
        rw [Config.memory_append trace, List.foldl_append]
        rfl
      constructor
      case every =>
        rw [trace, everyStep_append, everyStep_append]
        exact ⟨right.every, ⟨reported, every⟩, trivial, trivial⟩
      case tracks =>
        rw [memory]
        exact follows.retained
      case ready =>
        intro _going
        rw [memory, follows.ready]
        exact right.ready going
      case listed =>
        intro _going entry member marked
        rw [memory, follows.listed]
        rcases (runOps_done answer.behaviour.ops ran).entries entry member with old | retained
        · exact right.listed going entry old marked
        · exact quiet source calls result entry.client retained marked
  | leaves events world result ran returns leaves =>
      rw [ran] at followed
      apply right.idle (List.append_assoc ..)
      · rw [everyStep_append]
        exact ⟨⟨reported, followed.1⟩, trivial, trivial⟩
      · rw [List.foldl_append]
        exact followed.2.retained
      · rfl
  | fails events world outcome called ran inRange =>
      rw [ran] at followed
      exact right.idle rfl ⟨reported, followed.1⟩ followed.2.retained rfl

private theorem Loop.step_right (right : config.Right server)
    (quiet : loop.NoMarkedNewcomer server config answer) :
    (loop.step config answer).Right server := by
  have stepped := loop.stepped config answer
  generalize loop.step config answer = after at stepped ⊢
  cases stepped with
  | called source after calls called => exact called.right right quiet calls
  | scanned phase maxsock set =>
      exact @Config.Right.idle server config _ right [.scanned] rfl ⟨trivial, trivial⟩
        right.tracks rfl
  | unready phase ready next waits =>
      refine @Config.Right.idle server config _ right [.selected _ _ ready] rfl
        ⟨trivial, trivial⟩ right.tracks ?_
      rcases waits with same | ⟨error, same⟩
      · rw [same]
        rfl
      · rw [same]
        rfl
  | ready phase ready =>
      -- all that is in the list is in the list at this very call
      constructor
      case every =>
        rw [everyStep_append]
        exact ⟨right.every, trivial, trivial⟩
      case tracks =>
        rw [Config.memory_append rfl]
        exact right.tracks
      case ready =>
        intro _going
        rw [Config.memory_append rfl]
        rfl
      case listed =>
        intro _going entry member _marked
        rw [Config.memory_append rfl]
        change entry.client ∈ (config.memory server).retained.map Entry.client
        rw [right.tracks]
        exact List.mem_map_of_mem member
  | goes next goes =>
      cases goes with
      | on next valid dispatching live inRange =>
          constructor
          case every => exact right.every
          case tracks => exact right.tracks
          case ready => exact fun going => right.ready (dispatching going)
          case listed => exact fun going => right.listed (dispatching going)
      | stays outcome phase =>
          exact right.idle (List.append_nil _).symm trivial right.tracks rfl
      | outOfRange fd tests outside =>
          exact right.idle (List.append_nil _).symm trivial right.tracks rfl

private theorem Loop.start_right (loop : Loop) (world : Guarded Server) :
    (loop.start world).Right world.state := by
  have idle : (loop.start world).phase.dispatching = false := by
    rw [Loop.start]
    simp only
    split <;> rfl
  constructor
  case every => trivial
  case tracks => rfl
  case ready =>
    intro going
    rw [idle] at going
    cases going
  case listed =>
    intro going
    rw [idle] at going
    cases going

end

/-- Activity is reported for the right client in every run where no callback that returns
`POOL_CONTINUE` retains a newcomer whose number is marked. -/
theorem right_client (loop : Loop) (world : Guarded Server) (answers : List Answer)
    (quiet : EveryStep loop.step (loop.NoMarkedNewcomer world.state) (loop.start world) answers) :
    EveryStep Memory.observe Memory.RightClient (Memory.start world.state)
      (loop.run world answers).trace := by
  have right := EveryStep.invariant
    (fun config answer right quiet => @Loop.step_right loop world.state config answer right quiet)
    (loop.start_right world) quiet
  exact right.every

def pool : Loop := ⟨true, true, [4]⟩

def poolWorld : Guarded Server :=
  ⟨false, ⟨3, true, RetainedClients.empty.insert ⟨5, 0⟩⟩⟩

def unmarkedRetained : List Answer :=
  let quiet : Answer := ⟨.ready [3, 5], .pending, ⟨[], some .poolContinue⟩⟩
  let retain : Answer := ⟨.failed, .accepted ⟨6, 1⟩, ⟨[.retain ⟨6, 1⟩], some .poolContinue⟩⟩
  List.replicate 5 quiet ++ retain :: List.replicate 3 quiet

theorem right_client_unmarked :
    (pool.run poolWorld unmarkedRetained).trace =
      [.scanned, .selected 6 [4, 3, 5] (some [3, 5]),
        .called .newClient, .retained ⟨1, ⟨6, 1⟩⟩, .callbackReturned .poolContinue,
        .called (.client 0), .callbackReturned .poolContinue] ∧
      EveryStep Memory.observe Memory.RightClient (Memory.start poolWorld.state)
        (pool.run poolWorld unmarkedRetained).trace := by
  refine ⟨by decide, right_client pool poolWorld unmarkedRetained ?_⟩
  have nothing : ∀ (count : Nat) (config : Config), EveryStep pool.step
      (pool.NoMarkedNewcomer poolWorld.state) config
      (List.replicate count ⟨.ready [3, 5], .pending, ⟨[], some .poolContinue⟩⟩) := by
    intro count config
    apply EveryStep.of_forall
    intro answer member config source calls result client retained
    rw [List.eq_of_mem_replicate member] at retained
    cases retained
  rw [unmarkedRetained, everyStep_append]
  refine ⟨nothing 5 _, ?_, nothing 3 _⟩
  intro source calls result client retained marked
  have newcomer := List.mem_singleton.mp retained
  cases newcomer
  revert marked
  decide

/-- One `select` reports all three. The callback of the monitored descriptor releases the
client, which closes descriptor 5, and the next connection gets that number. -/
def numberReused : List Answer :=
  let select : Answer := ⟨.ready [3, 4, 5], .pending, ⟨[], some .poolContinue⟩⟩
  let release : Answer := ⟨.failed, .pending, ⟨[.release 0], some .poolContinue⟩⟩
  let retain : Answer := ⟨.failed, .accepted ⟨5, 1⟩, ⟨[.retain ⟨5, 1⟩], some .poolContinue⟩⟩
  [select, select, release, select, select, retain, select, select]

theorem newcomer_reported :
    ¬ ∀ (loop : Loop) (world : Guarded Server) (answers : List Answer),
      EveryStep Memory.observe Memory.RightClient (Memory.start world.state)
        (loop.run world answers).trace := by
  intro right
  have every := right pool poolWorld numberReused
  have trace : (pool.run poolWorld numberReused).trace =
      [.scanned, .selected 6 [4, 3, 5] (some [4, 3, 5]),
        .called (.monitored 0), .released 0, .callbackReturned .poolContinue,
        .called .newClient, .retained ⟨1, ⟨5, 1⟩⟩, .callbackReturned .poolContinue] ++
      [.called (.client 1), .callbackReturned .poolContinue] := by
    decide
  rw [trace, everyStep_append] at every
  obtain ⟨entry, member, _same, listed, _marked⟩ := every.2.1
  have newcomer : entry = ⟨1, ⟨5, 1⟩⟩ := List.mem_singleton.mp member
  rw [newcomer] at listed
  have old := List.mem_singleton.mp listed
  cases old

end Socketxx.ServerPool
