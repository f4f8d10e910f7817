import Socketxx.PoolDiscipline

/-!
The steps of `_wait_activity_loop`: which of them call a callback, what its calls leave of
the server, where the loop goes from there, and all that the other steps do.
-/

set_option autoImplicit false

namespace Socketxx.ServerPool

open ScopedLock

/-! ### The calls of a callback -/

structure OpsDone (ops : List ListOp) (before after : Server) : Prop where
  nextId : before.retainedClients.nextId ≤ after.retainedClients.nextId
  fresh : ∀ id ∈ after.retainedClients.ids, id ∈ before.retainedClients.ids ∨
    before.retainedClients.nextId ≤ id
  kept : ∀ id ∈ before.retainedClients.ids,
    (id ∈ after.retainedClients.ids ↔ ListOp.release id ∉ ops)
  entries : ∀ entry ∈ after.retainedClients.entries,
    entry ∈ before.retainedClients.entries ∨ ListOp.retain entry.client ∈ ops
  fd : after.fd = before.fd ∨ ListOp.listeningStop ∈ ops

variable {before middle after : Server} {ops : List ListOp}

private theorem RetainedClients.mem_ids_insert (clients : RetainedClients) (client : Client)
    (id : Nat) : id ∈ (clients.insert client).ids ↔ id ∈ clients.ids ∨ id = clients.nextId := by
  change id ∈ (clients.entries ++ [_]).map Entry.id ↔ _
  rw [List.map_append, List.mem_append, List.map_singleton, List.mem_singleton]
  rfl

theorem RetainedClients.mem_ids_erase (clients : RetainedClients) (erased id : Nat) :
    id ∈ (clients.erase erased).ids ↔ id ∈ clients.ids ∧ id ≠ erased := by
  change id ∈ (clients.entries.filter _).map Entry.id ↔ _
  rw [RetainedClients.ids, List.mem_map, List.mem_map]
  constructor
  · intro found
    obtain ⟨entry, member, same⟩ := found
    obtain ⟨member, other⟩ := List.mem_filter.mp member
    rw [← same]
    exact ⟨⟨entry, member, rfl⟩, by simpa using other⟩
  · intro found
    obtain ⟨⟨entry, member, same⟩, other⟩ := found
    refine ⟨entry, List.mem_filter.mpr ⟨member, ?_⟩, same⟩
    rw [same]
    simpa using other

private theorem OpsDone.nil (server : Server) : OpsDone [] server server :=
  { nextId := Nat.le_refl _
    fresh := fun _ member => Or.inl member
    kept := fun _ member => iff_of_true member List.not_mem_nil
    entries := fun _ member => Or.inl member
    fd := Or.inl rfl }

private theorem OpsDone.retain {client : Client}
    (later : OpsDone ops (before.modifyClients (fun clients => clients.insert client)) after) :
    OpsDone (.retain client :: ops) before after := by
  constructor
  case nextId => exact Nat.le_trans (Nat.le_succ _) later.nextId
  case fresh =>
    intro id member
    rcases later.fresh id member with inside | new
    · rcases (RetainedClients.mem_ids_insert _ client id).mp inside with old | last
      · exact Or.inl old
      · exact Or.inr (Nat.le_of_eq last.symm)
    · exact Or.inr (Nat.le_trans (Nat.le_succ _) new)
  case kept =>
    intro id member
    have inside := (RetainedClients.mem_ids_insert _ client id).mpr (Or.inl member)
    rw [later.kept id inside, List.mem_cons, or_iff_right (by simp)]
  case entries =>
    intro entry member
    rcases later.entries entry member with inside | retained
    · rcases List.mem_append.mp inside with old | last
      · exact Or.inl old
      · apply Or.inr
        rw [List.mem_singleton.mp last]
        exact List.mem_cons_self
    · exact Or.inr (List.mem_cons_of_mem _ retained)
  case fd =>
    rcases later.fd with same | stopped
    · exact Or.inl same
    · exact Or.inr (List.mem_cons_of_mem _ stopped)

private theorem OpsDone.release {erased : Nat}
    (later : OpsDone ops (before.modifyClients (fun clients => clients.erase erased)) after) :
    OpsDone (.release erased :: ops) before after := by
  constructor
  case nextId => exact later.nextId
  case fresh =>
    intro id member
    rcases later.fresh id member with inside | new
    · exact Or.inl ((RetainedClients.mem_ids_erase _ erased id).mp inside).1
    · exact Or.inr new
  case kept =>
    intro id member
    by_cases same : id = erased
    · apply iff_of_false
      · intro still
        rcases later.fresh id still with inside | new
        · exact ((RetainedClients.mem_ids_erase _ erased id).mp inside).2 same
        · have bound := before.retainedClients.fresh id member
          exact Nat.lt_irrefl _ (Nat.lt_of_lt_of_le bound new)
      · intro absent
        rw [same] at absent
        exact absent List.mem_cons_self
    · have inside := (RetainedClients.mem_ids_erase _ erased id).mpr ⟨member, same⟩
      rw [later.kept id inside, List.mem_cons, or_iff_right (by simpa using same)]
  case entries =>
    intro entry member
    rcases later.entries entry member with inside | retained
    · exact Or.inl (List.mem_filter.mp inside).1
    · exact Or.inr (List.mem_cons_of_mem _ retained)
  case fd =>
    rcases later.fd with same | stopped
    · exact Or.inl same
    · exact Or.inr (List.mem_cons_of_mem _ stopped)

private theorem OpsDone.listeningStop (later : OpsDone ops before.listeningStop after) :
    OpsDone (.listeningStop :: ops) before after := by
  constructor
  case nextId => exact later.nextId
  case fresh => exact later.fresh
  case kept =>
    intro id member
    rw [later.kept id member, List.mem_cons, or_iff_right (by simp)]
  case entries =>
    intro entry member
    rcases later.entries entry member with inside | retained
    · exact Or.inl inside
    · exact Or.inr (List.mem_cons_of_mem _ retained)
  case fd => exact Or.inr List.mem_cons_self

private theorem runOps_cons_returned {op : ListOp} {world final : Guarded Server}
    {events : List Event} (ran : runOps (op :: ops) world = (events, .returned (), final)) :
    ∃ event between others, op.call world = (.returned event, between) ∧
      runOps ops between = (others, .returned (), final) := by
  rw [runOps] at ran
  rcases called : op.call world with ⟨outcome, between⟩
  rw [called] at ran
  cases outcome with
  | returned event =>
      rcases rest : runOps ops between with ⟨others, outcome, last⟩
      simp only [rest] at ran
      cases ran
      exact ⟨event, between, others, rfl, rest⟩
  | _ => cases ran

theorem runOps_done (ops : List ListOp) {world final : Guarded Server} {events : List Event}
    (ran : runOps ops world = (events, .returned (), final)) :
    OpsDone ops world.state final.state := by
  induction ops generalizing world events with
  | nil =>
      cases ran
      exact OpsDone.nil final.state
  | cons op later ih =>
      obtain ⟨event, between, others, called, rest⟩ := runOps_cons_returned ran
      have here := op.ran world
      have done := ih rest
      rw [called] at here
      cases here with
      | retained client between state =>
          rw [state] at done
          exact done.retain
      | released id between state =>
          rw [state] at done
          exact done.release
      | stopped between state =>
          rw [state] at done
          exact done.listeningStop
      | failed op outcome between failed state => exact absurd rfl (failed event)

private theorem ListOp.call_ne_outOfRange (op : ListOp) (world : Guarded Server) :
    (op.call world).1 ≠ .undefined .outOfRange := by
  obtain ⟨held, server⟩ := world
  cases op with
  | retain client =>
      intro impossible
      cases held <;> cases impossible
  | release id =>
      cases held with
      | true =>
          intro impossible
          cases impossible
      | false =>
          by_cases member : id ∈ server.retainedClients.ids <;>
            simp [ListOp.call, releaseClient, LockM.locked, LockM.bind_apply, LockM.get,
              LockM.modify, LockM.undefined, member, pure, LockM.pure]
  | listeningStop =>
      cases listening : server.listening <;>
        simp [ListOp.call, ServerPool.listeningStop, chkl, LockM.bind_apply, LockM.get,
          LockM.modify, LockM.throw, listening, pure, LockM.pure]

private theorem runOps_ne_outOfRange (ops : List ListOp) (world : Guarded Server) :
    (runOps ops world).2.1 ≠ .undefined .outOfRange := by
  induction ops generalizing world with
  | nil =>
      intro impossible
      cases impossible
  | cons op later ih =>
      have here := op.call_ne_outOfRange world
      rw [runOps]
      generalize op.call world = called at here
      obtain ⟨outcome, between⟩ := called
      cases outcome with
      | returned event => exact ih between
      | undefined fault =>
          intro same
          apply here
          cases same
          rfl
      | _ =>
          intro impossible
          cases impossible

/-! ### Callbacks -/

/-- Where the loop is when a callback for this source has returned `POOL_CONTINUE`. -/
def Source.next : Source → Phase
  | .monitored index => .monitored (index + 1)
  | .newClient => .begin
  | .client id => .advance id

/-- The next step calls the callback for this source. -/
def Loop.Calls (loop : Loop) (config : Config) (accept : Accept) : Source → Prop
  | .monitored index => config.phase = .monitored index ∧
      ∃ fd, loop.monitoredFds[index]? = some fd ∧
        fdIsset fd config.locals.cpset = some true
  | .newClient => config.phase = .accept ∧
      ∃ client, (waitNewClient accept config.world).1 = .returned client
  | .client id => config.phase = .clients (some id) ∧
      ∃ entry, config.world.state.retainedClients.find id = some entry ∧
        fdIsset entry.client.fd config.locals.cpset = some true

variable {loop : Loop} {config : Config} {answer : Answer} {source : Source}

theorem Loop.step_called (calls : loop.Calls config answer.accept source) :
    loop.step config answer = config.callback source answer.behaviour source.next := by
  cases source with
  | monitored index =>
      obtain ⟨phase, fd, found, isset⟩ := calls
      simp only [Loop.step, phase, found, Config.ifIsset, isset]
      rfl
  | newClient =>
      obtain ⟨phase, client, returned⟩ := calls
      have same := waitNewClient_world answer.accept config.world
      simp only [Loop.step, phase]
      generalize waitNewClient answer.accept config.world = ran at returned same
      obtain ⟨outcome, world⟩ := ran
      cases returned
      cases same
      rfl
  | client id =>
      obtain ⟨phase, entry, found, isset⟩ := calls
      simp only [Loop.step, phase, found, Config.ifIsset, isset]
      rfl

theorem Config.callback_goesOn {config : Config} {source : Source} {behaviour : Behaviour}
    {next : Phase} {events : List Event} {world : Guarded Server}
    (ran : runOps behaviour.ops config.world = (events, .returned (), world))
    (result : behaviour.result = some .poolContinue) :
    config.callback source behaviour next =
      ⟨world, config.locals, next,
        config.trace ++ .called source :: events ++ [.callbackReturned .poolContinue]⟩ := by
  unfold Config.callback
  rw [ran, result]
  rfl

inductive Config.Called (config : Config) (source : Source) (behaviour : Behaviour)
    (next : Phase) : Config → Prop where
  | goesOn (events : List Event) (world : Guarded Server)
      (ran : runOps behaviour.ops config.world = (events, .returned (), world))
      (result : behaviour.result = some .poolContinue) :
      Called config source behaviour next
        ⟨world, config.locals, next,
          config.trace ++ .called source :: events ++ [.callbackReturned .poolContinue]⟩
  | leaves (events : List Event) (world : Guarded Server) (result : PoolRet)
      (ran : runOps behaviour.ops config.world = (events, .returned (), world))
      (returns : behaviour.result = some result) (leaves : result ≠ .poolContinue) :
      Called config source behaviour next
        ⟨world, config.locals, .check result,
          config.trace ++ .called source :: events ++ [.callbackReturned result]⟩
  | fails (events : List Event) (world : Guarded Server)
      (outcome called : Outcome Error Fault Unit)
      (ran : runOps behaviour.ops config.world = (events, called, world))
      (inRange : outcome ≠ .undefined .outOfRange) :
      Called config source behaviour next
        ⟨world, config.locals, .ended outcome, config.trace ++ .called source :: events⟩

theorem Config.callback_called (config : Config) (source : Source) (behaviour : Behaviour)
    (next : Phase) :
    config.Called source behaviour next (config.callback source behaviour next) := by
  have inRange := runOps_ne_outOfRange behaviour.ops config.world
  unfold Config.callback
  rcases ran : runOps behaviour.ops config.world with ⟨events, outcome, world⟩
  rw [ran] at inRange
  cases outcome with
  | returned value =>
      cases result : behaviour.result with
      | none => exact Called.fails events world _ _ ran (by simp)
      | some result' =>
          by_cases goes : result' = .poolContinue
          · subst goes
            exact Called.goesOn events world ran result
          · simp only [goes, if_false]
            exact Called.leaves events world result' ran result goes
  | _ => exact Called.fails events world _ _ ran inRange

/-! ### Steps -/

def Phase.iterator : Phase → Option Nat
  | .clients it => it
  | .advance it => some it
  | _ => none

/-- Between a `select` and the end of the loops that act on its result. -/
def Phase.dispatching : Phase → Bool
  | .monitored _ | .newClient | .accept | .begin | .clients _ | .advance _ => true
  | _ => false

def Phase.live : Phase → Bool
  | .check .poolQuit | .ended _ => false
  | _ => true

/-- The descriptors that the next step puts or looks up in a set. -/
def Loop.Tests (loop : Loop) (config : Config) (fd : Int) : Prop :=
  match config.phase with
  | .rescan =>
      fd ∈ config.world.state.retainedClients.fds ++ loop.otherFds config.world.state
  | .monitored index => loop.monitoredFds[index]? = some fd
  | .newClient => loop.newcli = true ∧ fd = config.world.state.fd
  | .clients (some it) =>
      ∃ entry, config.world.state.retainedClients.find it = some entry ∧ fd = entry.client.fd
  | _ => False

inductive Loop.Goes (loop : Loop) (config : Config) : Phase → Prop where
  | on (next : Phase)
      (valid : ∀ it, next.iterator = some it → it ∈ config.world.state.retainedClients.ids)
      (dispatching : next.dispatching = true → config.phase.dispatching = true)
      (live : next.live = true → config.phase.live = true)
      (inRange : next ≠ .ended (.undefined .outOfRange)) : Goes loop config next
  | stays (outcome : Outcome Error Fault Unit) (phase : config.phase = .ended outcome) :
      Goes loop config (.ended outcome)
  | outOfRange (fd : Int) (tests : loop.Tests config fd) (outside : ¬ InRange fd) :
      Goes loop config (.ended (.undefined .outOfRange))

/-- All that a step can do. -/
inductive Loop.Stepped (loop : Loop) (config : Config) (answer : Answer) : Config → Prop where
  | called (source : Source) (after : Config)
      (calls : loop.Calls config answer.accept source)
      (called : config.Called source answer.behaviour source.next after) :
      Stepped loop config answer after
  | scanned (phase : config.phase = .rescan) (maxsock : Int) (set : FdSet) :
      Stepped loop config answer
        ⟨config.world, { config.locals with set := set, maxsock := maxsock }, .select,
          config.trace ++ [.scanned]⟩
  | unready (phase : config.phase = .select) (ready : Option FdSet) (next : Phase)
      (quiet : next = .select ∨ ∃ error, next = .ended (.threw error)) :
      Stepped loop config answer
        ⟨config.world, config.locals, next, config.trace ++
          [.selected (config.locals.maxsock + 1) config.locals.set ready]⟩
  | ready (phase : config.phase = .select) (ready : FdSet) :
      Stepped loop config answer
        ⟨config.world, { config.locals with cpset := ready }, .monitored 0, config.trace ++
          [.selected (config.locals.maxsock + 1) config.locals.set (some ready)]⟩
  | goes (next : Phase) (goes : loop.Goes config next) :
      Stepped loop config answer (config.goto next)

section

variable {loop : Loop} {config : Config} {answer : Answer}

private theorem RetainedClients.mem_of_find {clients : RetainedClients} {it : Nat} {entry : Entry}
    (found : clients.find it = some entry) : it ∈ clients.ids := by
  have same := List.find?_some found
  rw [beq_iff_eq] at same
  rw [← same]
  exact List.mem_map_of_mem (List.mem_of_find?_eq_some found)

theorem RetainedClients.next_mem {clients : RetainedClients} {it after : Nat}
    (advanced : clients.next it = some (some after)) : after ∈ clients.ids := by
  rw [RetainedClients.next] at advanced
  split at advanced
  · have behind := List.mem_of_head? (Option.some.inj advanced)
    exact (List.dropWhile_sublist _).subset (List.mem_of_mem_tail behind)
  · cases advanced

private theorem Phase.live_of_dispatching {phase : Phase} (dispatching : phase.dispatching = true) :
    phase.live = true := by
  cases phase with
  | check result => cases dispatching
  | ended outcome => cases dispatching
  | _ => rfl

theorem Loop.Goes.dispatch {next : Phase} (going : config.phase.dispatching = true)
    (valid : ∀ it, next.iterator = some it → it ∈ config.world.state.retainedClients.ids)
    (live : next.live = true) : loop.Goes config next := by
  apply Loop.Goes.on next valid
  · exact fun _ => going
  · exact fun _ => Phase.live_of_dispatching going
  · intro ended
    rw [ended] at live
    cases live

theorem Loop.Goes.plain {next : Phase} (going : config.phase.dispatching = true)
    (none : next.iterator = none) (live : next.live = true) : loop.Goes config next := by
  apply Loop.Goes.dispatch going _ live
  intro it current
  rw [none] at current
  cases current

private theorem Loop.Goes.back {next : Phase} (checked : config.phase.live = true)
    (none : next.iterator = none) (idle : next.dispatching = false)
    (live : next.live = true) : loop.Goes config next := by
  apply Loop.Goes.on
  · intro it current
    rw [none] at current
    cases current
  · intro dispatching
    rw [idle] at dispatching
    cases dispatching
  · exact fun _ => checked
  · intro ended
    rw [ended] at live
    cases live

theorem Loop.Goes.ends {outcome : Outcome Error Fault Unit}
    (inRange : outcome ≠ .undefined .outOfRange) : loop.Goes config (.ended outcome) := by
  apply Loop.Goes.on
  · intro it current
    cases current
  · intro dispatching
    cases dispatching
  · intro live
    cases live
  · intro ended
    exact inRange (Phase.ended.inj ended)

theorem Loop.Stepped.ifIsset {fd : Int} {yes : Config} {no : Phase}
    (tests : loop.Tests config fd)
    (isset : fdIsset fd config.locals.cpset = some true → loop.Stepped config answer yes)
    (goes : loop.Goes config no) : loop.Stepped config answer (config.ifIsset fd yes no) := by
  unfold Config.ifIsset
  cases tested : fdIsset fd config.locals.cpset with
  | none =>
      apply Stepped.goes
      exact Goes.outOfRange fd tests ((fdIsset_none_iff fd _).mp tested)
  | some ready =>
      cases ready with
      | true => exact isset tested
      | false => exact Stepped.goes no goes

private theorem Loop.stepped_rescan (phase : config.phase = .rescan) :
    loop.Stepped config answer (loop.rescan config) := by
  have tests : ∀ fd, loop.Tests config fd ↔ fd ∈ config.world.state.retainedClients.fds ++
      loop.otherFds config.world.state := by
    intro fd
    rw [Loop.Tests, phase]
  unfold Loop.rescan
  cases clients : config.world.state.retainedClients.fillFdset with
  | none =>
      obtain ⟨fd, member, outside⟩ := (fillFdset_none_iff _ _ _).mp clients
      apply Stepped.goes
      exact Goes.outOfRange fd ((tests fd).mpr (List.mem_append_left _ member)) outside
  | some first =>
      obtain ⟨middle, between⟩ := first
      simp only
      cases others : fillFdset (loop.otherFds config.world.state) middle between with
      | none =>
          obtain ⟨fd, member, outside⟩ := (fillFdset_none_iff _ _ _).mp others
          apply Stepped.goes
          exact Goes.outOfRange fd ((tests fd).mpr (List.mem_append_right _ member)) outside
      | some second => exact Stepped.scanned phase second.1 second.2

private theorem Loop.stepped_select (phase : config.phase = .select) :
    loop.Stepped config answer (config.select answer.selected) := by
  cases selected : answer.selected with
  | interrupted => exact Stepped.unready phase none config.phase (Or.inl phase)
  | failed => exact Stepped.unready phase none _ (Or.inr ⟨.selectErr, rfl⟩)
  | ready fds =>
      rw [Config.select]
      generalize selectResult (config.locals.maxsock + 1) config.locals.set fds = ready
      by_cases timeout : ready = []
      · rw [if_pos timeout]
        exact Stepped.unready phase (some ready) _ (Or.inr ⟨.timeout, rfl⟩)
      · rw [if_neg timeout]
        exact Stepped.ready phase ready

private theorem waitNewClient_ne_outOfRange (accept : Accept) (world : Guarded Server) :
    (waitNewClient accept world).1.void ≠ .undefined .outOfRange := by
  rw [waitNewClient, LockM.bind_apply]
  cases listening : world.state.listening <;> cases accept <;>
    simp [chkl, serverAccept, LockM.bind_apply, LockM.get, LockM.throw,
      LockM.blocked, listening, pure, LockM.pure, Outcome.void]

private theorem Loop.stepped_accept (phase : config.phase = .accept) :
    loop.Stepped config answer (loop.step config answer) := by
  have inRange := waitNewClient_ne_outOfRange answer.accept config.world
  have same := waitNewClient_world answer.accept config.world
  rcases ran : waitNewClient answer.accept config.world with ⟨outcome, world⟩
  rw [ran] at inRange same
  cases same
  cases outcome with
  | returned client =>
      have calls : loop.Calls config answer.accept .newClient := ⟨phase, client, by rw [ran]⟩
      rw [Loop.step_called calls]
      exact Stepped.called .newClient _ calls (config.callback_called _ _ _)
  | _ =>
      simp only [Loop.step, phase, ran]
      apply Stepped.goes
      exact Goes.ends inRange

theorem Loop.stepped_called {source : Source} (calls : loop.Calls config answer.accept source) :
    loop.Stepped config answer (loop.step config answer) := by
  rw [Loop.step_called calls]
  exact Stepped.called source _ calls (config.callback_called _ _ _)

private theorem Loop.stepped_monitored {index : Nat} (phase : config.phase = .monitored index) :
    loop.Stepped config answer (loop.step config answer) := by
  have going : config.phase.dispatching = true := by rw [phase]; rfl
  cases found : loop.monitoredFds[index]? with
  | none =>
      simp only [Loop.step, phase, found]
      exact Stepped.goes _ (Goes.plain going rfl rfl)
  | some fd =>
      by_cases isset : fdIsset fd config.locals.cpset = some true
      · have calls : loop.Calls config answer.accept (.monitored index) := ⟨phase, fd, found, isset⟩
        exact Loop.stepped_called calls
      · simp only [Loop.step, phase, found]
        apply Stepped.ifIsset
        · rw [Loop.Tests, phase]
          exact found
        · intro set
          exact absurd set isset
        · exact Goes.plain going rfl rfl

private theorem Loop.stepped_newClient (phase : config.phase = .newClient) :
    loop.Stepped config answer (loop.step config answer) := by
  have going : config.phase.dispatching = true := by rw [phase]; rfl
  by_cases newcli : loop.newcli = true
  · simp only [Loop.step, phase, newcli, if_true]
    apply Stepped.ifIsset
    · rw [Loop.Tests, phase]
      exact ⟨newcli, rfl⟩
    · intro _isset
      exact Stepped.goes _ (Goes.plain going rfl rfl)
    · exact Goes.plain going rfl rfl
  · simp only [Loop.step, phase, newcli]
    exact Stepped.goes _ (Goes.plain going rfl rfl)

private theorem Loop.stepped_clients {it : Nat} (phase : config.phase = .clients (some it)) :
    loop.Stepped config answer (loop.step config answer) := by
  have going : config.phase.dispatching = true := by rw [phase]; rfl
  cases found : config.world.state.retainedClients.find it with
  | none =>
      simp only [Loop.step, phase, found]
      exact Stepped.goes _ (Goes.ends (by simp))
  | some entry =>
      by_cases isset : fdIsset entry.client.fd config.locals.cpset = some true
      · have calls : loop.Calls config answer.accept (.client it) := ⟨phase, entry, found, isset⟩
        exact Loop.stepped_called calls
      · simp only [Loop.step, phase, found]
        apply Stepped.ifIsset
        · rw [Loop.Tests, phase]
          exact ⟨entry, found, rfl⟩
        · intro set
          exact absurd set isset
        · apply Goes.dispatch going
          · intro other current
            cases current
            exact RetainedClients.mem_of_find found
          · rfl

private theorem Loop.stepped_advance {it : Nat} (phase : config.phase = .advance it) :
    loop.Stepped config answer (loop.step config answer) := by
  have going : config.phase.dispatching = true := by rw [phase]; rfl
  cases advanced : config.world.state.retainedClients.next it with
  | none =>
      simp only [Loop.step, phase, advanced]
      exact Stepped.goes _ (Goes.ends (by simp))
  | some next =>
      simp only [Loop.step, phase, advanced]
      apply Stepped.goes
      apply Goes.dispatch going
      · intro other current
        change next = some other at current
        rw [current] at advanced
        exact RetainedClients.next_mem advanced
      · rfl

theorem Loop.stepped (loop : Loop) (config : Config) (answer : Answer) :
    loop.Stepped config answer (loop.step config answer) := by
  cases phase : config.phase with
  | accept => exact Loop.stepped_accept phase
  | rescan =>
      rw [Loop.step, phase]
      exact Loop.stepped_rescan phase
  | select =>
      rw [Loop.step, phase]
      exact Loop.stepped_select phase
  | monitored index => exact Loop.stepped_monitored phase
  | newClient => exact Loop.stepped_newClient phase
  | begin =>
      have going : config.phase.dispatching = true := by rw [phase]; rfl
      rw [Loop.step, phase]
      apply Stepped.goes
      apply Goes.dispatch going
      · intro it first
        exact List.mem_of_head? first
      · rfl
  | clients it =>
      cases it with
      | none =>
          have going : config.phase.dispatching = true := by rw [phase]; rfl
          rw [Loop.step, phase]
          exact Stepped.goes _ (Goes.plain going rfl rfl)
      | some it => exact Loop.stepped_clients phase
  | advance it => exact Loop.stepped_advance phase
  | check result =>
      rw [Loop.step, phase]
      cases result with
      | poolContinue => exact Stepped.goes _ (Goes.back (by rw [phase]; rfl) rfl rfl rfl)
      | poolQuit => exact Stepped.goes _ (Goes.ends (by simp))
      | poolRescan => exact Stepped.goes _ (Goes.back (by rw [phase]; rfl) rfl rfl rfl)
  | ended outcome =>
      have goes : loop.Goes config config.phase := by
        rw [phase]
        exact Goes.stays outcome phase
      rw [Loop.step, phase]
      exact Stepped.goes config.phase goes

end

end Socketxx.ServerPool
