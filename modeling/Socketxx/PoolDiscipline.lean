import Socketxx.Library.Runs
import Socketxx.PoolLoop

/-!
What an observer of `_wait_activity_loop` may rely on: an abstract dispatcher that sees
only the trace, and says of each event whether it may come next.
-/

set_option autoImplicit false

namespace Socketxx.ServerPool

open Runs ScopedLock

/-- What is known from the trace: the list and the listening socket as they stand, the
descriptors put in the set by the last scan (none when a scan is due), those reported by
the latest `select`, the entries that have been in the list since, in list order, and the
callbacks called since. -/
structure Observer where
  retained : List Entry
  fd : Int
  scanned : Option (List Int)
  ready : FdSet
  entries : List Nat
  calls : List Source
  quit : Bool

def Observer.start (server : Server) : Observer :=
  { retained := server.retainedClients.entries
    fd := server.fd
    scanned := none
    ready := []
    entries := server.retainedClients.ids
    calls := []
    quit := false }

namespace Loop

variable (loop : Loop)

/-- What a scan has to put in the set. -/
def watched (obs : Observer) : List Int :=
  obs.retained.map (fun entry => entry.client.fd) ++
    ((if loop.newcli then [obs.fd] else []) ++ loop.monitoredFds)

def monitoredSources (count : Nat) : List Source := (List.range count).map Source.monitored

def otherSources : List Source :=
  monitoredSources loop.monitoredFds.length ++ (if loop.newcli then [.newClient] else [])

/-- The order of dispatch: monitored descriptors, new client, clients in list order. -/
def schedule (entries : List Nat) : List Source :=
  loop.otherSources ++ entries.map Source.client

def descriptor (obs : Observer) : Source → Option Int
  | .monitored index => loop.monitoredFds[index]?
  | .newClient => some obs.fd
  | .client id =>
      (obs.retained.find? (fun entry => entry.id == id)).map (fun entry => entry.client.fd)

def observe (obs : Observer) : Event → Observer
  | .scanned => { obs with scanned := some (loop.watched obs), ready := [] }
  | .selected _ _ ready =>
      { obs with
        ready := ready.getD []
        entries := obs.retained.map Entry.id
        calls := [] }
  | .called source => { obs with calls := obs.calls ++ [source] }
  | .retained entry =>
      { obs with retained := obs.retained ++ [entry], entries := obs.entries ++ [entry.id] }
  | .released id => { obs with retained := obs.retained.filter (fun entry => entry.id != id) }
  | .stopped => { obs with fd := -1 }
  | .callbackReturned .poolContinue => obs
  | .callbackReturned .poolQuit => { obs with quit := true }
  | .callbackReturned .poolRescan => { obs with scanned := none, ready := [] }

/-- `select` is given the set of the last scan and a bound for it. A callback is called
for a ready descriptor, in the order of dispatch and not twice for one source. None of
this happens when the loop has to quit, nor, without a new scan, when it has to rescan. -/
def Allows (obs : Observer) : Event → Prop
  | .scanned => obs.quit = false
  | .selected nfds set _ =>
      obs.quit = false ∧
        (∃ watched, obs.scanned = some watched ∧ ∀ fd, fd ∈ set ↔ fd ∈ watched) ∧
        ∀ fd ∈ set, fd < nfds
  | .called source =>
      obs.quit = false ∧ obs.scanned ≠ none ∧
        (∃ fd, loop.descriptor obs source = some fd ∧ fd ∈ obs.ready) ∧
        (obs.calls ++ [source]).Sublist (loop.schedule obs.entries) ∧ source ∉ obs.calls
  | .retained _ => True
  | .released _ => True
  | .stopped => True
  | .callbackReturned _ => True

end Loop

/-! ### The calls of a callback -/

section

variable {loop : Loop} {obs after : Observer}

structure Observer.Tracks (obs : Observer) (server : Server) : Prop where
  retained : obs.retained = server.retainedClients.entries
  fd : obs.fd = server.fd
  sub : (obs.retained.map Entry.id).Sublist obs.entries
  nodup : obs.entries.Nodup
  fresh : ∀ id ∈ obs.entries, id < server.retainedClients.nextId

structure Observer.Grows (obs after : Observer) : Prop where
  scanned : after.scanned = obs.scanned
  ready : after.ready = obs.ready
  calls : after.calls = obs.calls
  quit : after.quit = obs.quit
  entries : ∃ more, after.entries = obs.entries ++ more

private theorem Observer.start_tracks (server : Server) : (Observer.start server).Tracks server :=
  { retained := rfl
    fd := rfl
    sub := List.Sublist.refl _
    nodup := server.retainedClients.distinct
    fresh := server.retainedClients.fresh }

theorem Observer.Tracks.congr {server : Server} (tracks : obs.Tracks server)
    (retained : after.retained = obs.retained) (fd : after.fd = obs.fd)
    (entries : after.entries = obs.entries) : after.Tracks server := by
  constructor
  case retained => exact retained.trans tracks.retained
  case fd => exact fd.trans tracks.fd
  case sub =>
    rw [retained, entries]
    exact tracks.sub
  case nodup =>
    rw [entries]
    exact tracks.nodup
  case fresh =>
    rw [entries]
    exact tracks.fresh

private theorem Observer.Grows.refl (obs : Observer) : obs.Grows obs :=
  ⟨rfl, rfl, rfl, rfl, [], (List.append_nil _).symm⟩

private theorem Observer.Grows.trans {middle : Observer} (first : obs.Grows middle)
    (second : middle.Grows after) : obs.Grows after := by
  obtain ⟨more, entries⟩ := first.entries
  obtain ⟨others, later⟩ := second.entries
  constructor
  case scanned => exact second.scanned.trans first.scanned
  case ready => exact second.ready.trans first.ready
  case calls => exact second.calls.trans first.calls
  case quit => exact second.quit.trans first.quit
  case entries =>
    rw [later, entries, List.append_assoc]
    exact ⟨more ++ others, rfl⟩

inductive ListOp.Ran (world : Guarded Server) :
    ListOp → Outcome Error Fault Event × Guarded Server → Prop where
  | retained (client : Client) (final : Guarded Server)
      (state : final.state =
        world.state.modifyClients (fun clients => clients.insert client)) :
      Ran world (.retain client)
        (.returned (.retained ⟨world.state.retainedClients.nextId, client⟩), final)
  | released (id : Nat) (final : Guarded Server)
      (state : final.state = world.state.modifyClients (fun clients => clients.erase id)) :
      Ran world (.release id) (.returned (.released id), final)
  | stopped (final : Guarded Server) (state : final.state = world.state.listeningStop) :
      Ran world .listeningStop (.returned .stopped, final)
  | failed (op : ListOp) (outcome : Outcome Error Fault Event) (final : Guarded Server)
      (failed : ∀ event, outcome ≠ .returned event) (state : final.state = world.state) :
      Ran world op (outcome, final)

theorem ListOp.ran (op : ListOp) (world : Guarded Server) : Ran world op (op.call world) := by
  obtain ⟨held, server⟩ := world
  cases op with
  | retain client =>
      cases held with
      | true => exact Ran.failed _ .deadlock _ (fun _ => by simp) rfl
      | false => exact Ran.retained client _ rfl
  | release id =>
      cases held with
      | true => exact Ran.failed _ .deadlock _ (fun _ => by simp) rfl
      | false =>
          by_cases member : id ∈ server.retainedClients.ids
          · have erases : (ListOp.release id).call ⟨false, server⟩ =
                (.returned (.released id),
                  ⟨false, server.modifyClients (fun clients => clients.erase id)⟩) := by
              simp [ListOp.call, releaseClient, LockM.locked, LockM.bind_apply,
                LockM.get, LockM.modify, member, pure, LockM.pure]
            rw [erases]
            exact Ran.released id _ rfl
          · have fails : (ListOp.release id).call ⟨false, server⟩ =
                (.undefined .erased, ⟨true, server⟩) := by
              simp [ListOp.call, releaseClient, LockM.locked, LockM.bind_apply,
                LockM.get, LockM.undefined, member]
            rw [fails]
            exact Ran.failed _ _ _ (fun _ => by simp) rfl
  | listeningStop =>
      cases listening : server.listening with
      | true =>
          have stops : ListOp.listeningStop.call ⟨held, server⟩ =
              (.returned .stopped, ⟨held, server.listeningStop⟩) := by
            simp [ListOp.call, ServerPool.listeningStop, chkl, LockM.bind_apply,
              LockM.get, LockM.modify, listening, pure, LockM.pure]
          rw [stops]
          exact Ran.stopped _ rfl
      | false =>
          have fails : ListOp.listeningStop.call ⟨held, server⟩ =
              (.threw .badState, ⟨held, server⟩) := by
            simp [ListOp.call, ServerPool.listeningStop, chkl, LockM.bind_apply,
              LockM.get, LockM.throw, listening]
          rw [fails]
          exact Ran.failed _ _ _ (fun _ => by simp) rfl

private theorem Observer.Tracks.retain {server : Server} (tracks : obs.Tracks server)
    (client : Client) :
    (loop.observe obs (.retained ⟨server.retainedClients.nextId, client⟩)).Tracks
      (server.modifyClients (fun clients => clients.insert client)) := by
  constructor
  case retained => exact congrArg (· ++ [_]) tracks.retained
  case fd => exact tracks.fd
  case sub =>
    change ((obs.retained ++ [_]).map Entry.id).Sublist (obs.entries ++ [_])
    rw [List.map_append]
    exact tracks.sub.append (List.Sublist.refl _)
  case nodup =>
    have new : ∀ id ∈ obs.entries, ∀ other ∈ [server.retainedClients.nextId], id ≠ other := by
      intro id member other same equal
      have bound := tracks.fresh id member
      rw [equal, List.mem_singleton.mp same] at bound
      exact Nat.lt_irrefl _ bound
    exact List.nodup_append.mpr ⟨tracks.nodup, List.pairwise_singleton _ _, new⟩
  case fresh =>
    intro id member
    change id < server.retainedClients.nextId + 1
    rcases List.mem_append.mp member with before | last
    · exact Nat.lt_succ_of_lt (tracks.fresh id before)
    · rw [List.mem_singleton.mp last]
      exact Nat.lt_succ_self _

private theorem Observer.Tracks.release {server : Server} (tracks : obs.Tracks server) (id : Nat) :
    (loop.observe obs (.released id)).Tracks
      (server.modifyClients (fun clients => clients.erase id)) := by
  constructor
  case retained =>
    exact congrArg (List.filter (fun entry => entry.id != id)) tracks.retained
  case fd => exact tracks.fd
  case sub => exact ((List.filter_sublist).map Entry.id).trans tracks.sub
  case nodup => exact tracks.nodup
  case fresh => exact tracks.fresh

private theorem ListOp.Ran.tracks {world final : Guarded Server} {op : ListOp} {event : Event}
    (ran : Ran world op (.returned event, final)) (tracks : obs.Tracks world.state) :
    loop.Allows obs event ∧ (loop.observe obs event).Tracks final.state ∧
      obs.Grows (loop.observe obs event) := by
  cases ran with
  | retained client final state =>
      rw [state]
      exact ⟨trivial, tracks.retain client, rfl, rfl, rfl, rfl, _, rfl⟩
  | released id final state =>
      rw [state]
      exact ⟨trivial, tracks.release id, rfl, rfl, rfl, rfl, [], (List.append_nil _).symm⟩
  | stopped final state =>
      rw [state]
      refine ⟨trivial, ?_, rfl, rfl, rfl, rfl, [], (List.append_nil _).symm⟩
      exact ⟨tracks.retained, rfl, tracks.sub, tracks.nodup, tracks.fresh⟩
  | failed op outcome final failed state => exact absurd rfl (failed event)

private theorem runOps_tracks (ops : List ListOp) {world : Guarded Server}
    (tracks : obs.Tracks world.state) :
    EveryStep loop.observe loop.Allows obs (runOps ops world).1 ∧
      ((runOps ops world).1.foldl loop.observe obs).Tracks (runOps ops world).2.2.state ∧
      obs.Grows ((runOps ops world).1.foldl loop.observe obs) := by
  induction ops generalizing world obs with
  | nil => exact ⟨trivial, tracks, Observer.Grows.refl obs⟩
  | cons op later ih =>
      have ran := op.ran world
      rw [runOps]
      generalize op.call world = result at ran
      obtain ⟨outcome, final⟩ := result
      cases outcome with
      | returned event =>
          obtain ⟨allowed, followed, grows⟩ := @ListOp.Ran.tracks loop _ _ _ _ _ ran tracks
          obtain ⟨every, ends, more⟩ := ih followed
          exact ⟨⟨allowed, every⟩, ends, grows.trans more⟩
      | _ =>
          cases ran with
          | failed op outcome final failed state =>
              refine ⟨trivial, ?_, Observer.Grows.refl obs⟩
              change obs.Tracks final.state
              rw [state]
              exact tracks

end

/-! ### The loop -/

namespace Loop

structure Going (locals : Locals) (obs : Observer) : Prop where
  quit : obs.quit = false
  scanned : ∃ watched, obs.scanned = some watched ∧ ∀ fd, fd ∈ locals.set ↔ fd ∈ watched
  bound : ∀ fd ∈ locals.set, fd ≤ locals.maxsock

def Past (loop : Loop) (obs : Observer) : Phase → List Source → Prop
  | .monitored index, past =>
      index ≤ loop.monitoredFds.length ∧ past = monitoredSources index
  | .newClient, past => past = monitoredSources loop.monitoredFds.length
  | .accept, past =>
      past = monitoredSources loop.monitoredFds.length ∧ loop.newcli = true ∧
        obs.fd ∈ obs.ready
  | .begin, past => past = loop.otherSources
  | .clients (some it), past =>
      ∃ before later, obs.entries = before ++ it :: later ∧ past = loop.schedule before
  | .advance it, past =>
      ∃ before later, obs.entries = before ++ it :: later ∧
        past = loop.schedule (before ++ [it])
  | _, _ => True

structure Dispatching (loop : Loop) (locals : Locals) (obs : Observer) (phase : Phase) :
    Prop where
  going : Going locals obs
  ready : obs.ready = locals.cpset
  past : ∃ past, loop.Past obs phase past ∧ obs.calls.Sublist past

def AtPhase (loop : Loop) (locals : Locals) (obs : Observer) : Phase → Prop
  | .rescan => obs.quit = false
  | .check .poolRescan => obs.quit = false
  | .select => Going locals obs
  | .check .poolContinue => Going locals obs
  | .check .poolQuit => True
  | .ended _ => True
  | phase => loop.Dispatching locals obs phase

def seen (loop : Loop) (server : Server) (config : Config) : Observer :=
  config.trace.foldl loop.observe (Observer.start server)

structure Sound (loop : Loop) (server : Server) (config : Config) : Prop where
  every : EveryStep loop.observe loop.Allows (Observer.start server) config.trace
  tracks : (loop.seen server config).Tracks config.world.state
  phase : loop.AtPhase config.locals (loop.seen server config) config.phase

variable {loop : Loop} {server : Server} {config after : Config}

theorem Sound.extend (sound : loop.Sound server config) {events : List Event}
    (trace : after.trace = config.trace ++ events)
    (every : EveryStep loop.observe loop.Allows (loop.seen server config) events)
    (tracks : (events.foldl loop.observe (loop.seen server config)).Tracks after.world.state)
    (phase : loop.AtPhase after.locals (events.foldl loop.observe (loop.seen server config))
      after.phase) : loop.Sound server after := by
  have same : loop.seen server after =
      events.foldl loop.observe (loop.seen server config) := by
    rw [seen, trace, List.foldl_append]
    rfl
  constructor
  case every =>
    rw [trace, everyStep_append]
    exact ⟨sound.every, every⟩
  case tracks =>
    rw [same]
    exact tracks
  case phase =>
    rw [same]
    exact phase

theorem Sound.goto (sound : loop.Sound server config) {phase : Phase}
    (arrives : loop.AtPhase config.locals (loop.seen server config) phase) :
    loop.Sound server (config.goto phase) := by
  exact sound.extend (List.append_nil _).symm trivial sound.tracks arrives

/-- A scan rebuilds the set from the list as it stands. -/
private theorem Sound.rescan (sound : loop.Sound server config)
    (quit : (loop.seen server config).quit = false) :
    loop.Sound server (loop.rescan config) := by
  rw [Loop.rescan]
  cases clients : config.world.state.retainedClients.fillFdset with
  | none => exact sound.goto trivial
  | some first =>
      obtain ⟨middle, between⟩ := first
      simp only
      cases others : fillFdset (loop.otherFds config.world.state) middle between with
      | none => exact sound.goto trivial
      | some second =>
          obtain ⟨top, full⟩ := second
          have inner := fillFdset_some _ clients (fun fd impossible => nomatch impossible)
          have outer := fillFdset_some _ others inner.2
          refine sound.extend rfl ⟨quit, trivial⟩ ?_ ?_
          · exact sound.tracks.congr rfl rfl rfl
          · refine ⟨quit, ⟨_, rfl, fun fd => ?_⟩, outer.2⟩
            change fd ∈ full ↔ _
            rw [outer.1, inner.1, watched, List.mem_append, sound.tracks.retained,
              sound.tracks.fd]
            exact or_congr_left (or_iff_right (List.not_mem_nil))

private theorem Sound.select (sound : loop.Sound server config)
    (going : Going config.locals (loop.seen server config)) (selecting : config.phase = .select)
    (selected : Selected) : loop.Sound server (config.select selected) := by
  have allowed : ∀ ready, loop.Allows (loop.seen server config)
      (.selected (config.locals.maxsock + 1) config.locals.set ready) := by
    intro ready
    refine ⟨going.quit, going.scanned, fun fd member => ?_⟩
    exact Int.lt_add_one_of_le (going.bound fd member)
  have tracks : ∀ ready, (loop.observe (loop.seen server config)
      (.selected (config.locals.maxsock + 1) config.locals.set ready)).Tracks
        config.world.state := by
    intro ready
    have distinct := config.world.state.retainedClients.distinct
    have fresh := config.world.state.retainedClients.fresh
    rw [← sound.tracks.retained] at distinct fresh
    exact ⟨sound.tracks.retained, sound.tracks.fd, List.Sublist.refl _, distinct, fresh⟩
  cases selected with
  | interrupted =>
      refine sound.extend rfl ⟨allowed none, trivial⟩ (tracks none) ?_
      change loop.AtPhase config.locals _ config.phase
      rw [selecting]
      exact ⟨going.quit, going.scanned, going.bound⟩
  | failed => exact sound.extend rfl ⟨allowed none, trivial⟩ (tracks none) trivial
  | ready fds =>
      rw [Config.select]
      generalize selectResult (config.locals.maxsock + 1) config.locals.set fds = ready
      by_cases timeout : ready = []
      · rw [if_pos timeout]
        exact sound.extend rfl ⟨allowed (some ready), trivial⟩ (tracks (some ready)) trivial
      · rw [if_neg timeout]
        refine sound.extend rfl ⟨allowed (some ready), trivial⟩ (tracks (some ready)) ?_
        constructor
        case going => exact ⟨going.quit, going.scanned, going.bound⟩
        case ready => rfl
        case past => exact ⟨[], ⟨Nat.zero_le _, rfl⟩, List.Sublist.refl []⟩

/-- A callback for a source that is next in the order of dispatch, which goes on to the
next phase unless it says otherwise. -/
theorem Sound.callback (sound : loop.Sound server config) {source : Source} {fd : Int}
    {past : List Source} {next : Phase} (behaviour : Behaviour)
    (going : Going config.locals (loop.seen server config))
    (ready : (loop.seen server config).ready = config.locals.cpset)
    (calls : (loop.seen server config).calls.Sublist past)
    (descriptor : loop.descriptor (loop.seen server config) source = some fd)
    (isset : fd ∈ config.locals.cpset) (new : source ∉ past)
    (scheduled : (past ++ [source]).Sublist (loop.schedule (loop.seen server config).entries))
    (passes : ∀ obs : Observer, (∃ more, obs.entries =
      (loop.seen server config).entries ++ more) → loop.Past obs next (past ++ [source]))
    (dispatches : ∀ locals obs, loop.Dispatching locals obs next →
      loop.AtPhase locals obs next) :
    loop.Sound server (config.callback source behaviour next) := by
  have appended := calls.append (List.Sublist.refl [source])
  have allowed : loop.Allows (loop.seen server config) (.called source) := by
    obtain ⟨watched, scanned, _⟩ := going.scanned
    refine ⟨going.quit, ?_, ⟨fd, descriptor, by rw [ready]; exact isset⟩,
      appended.trans scheduled, fun before => new (calls.subset before)⟩
    rw [scanned]
    exact Option.some_ne_none watched
  have called : (loop.observe (loop.seen server config) (.called source)).Tracks
      config.world.state := sound.tracks.congr rfl rfl rfl
  have tracked := @runOps_tracks loop _ behaviour.ops _ called
  rw [Config.callback]
  generalize runOps behaviour.ops config.world = ran at tracked
  obtain ⟨events, outcome, world⟩ := ran
  obtain ⟨every, tracks, grows⟩ := tracked
  cases outcome with
  | returned value =>
      cases behaviour.result with
      | none => exact sound.extend rfl ⟨allowed, every⟩ tracks trivial
      | some result =>
          have trace : config.trace ++ .called source :: events ++ [.callbackReturned result] =
              config.trace ++ (.called source :: events ++ [.callbackReturned result]) :=
            List.append_assoc _ _ _
          refine sound.extend trace ?_ ?_ ?_
          · rw [everyStep_append]
            exact ⟨⟨allowed, every⟩, trivial, trivial⟩
          · rw [List.foldl_append]
            cases result <;> exact tracks.congr rfl rfl rfl
          · rw [List.foldl_append]
            cases result with
            | poolContinue =>
                apply dispatches
                constructor
                case going =>
                  obtain ⟨watched, scanned, members⟩ := going.scanned
                  exact ⟨grows.quit.trans going.quit,
                    ⟨watched, grows.scanned.trans scanned, members⟩, going.bound⟩
                case ready => exact grows.ready.trans ready
                case past =>
                  exact ⟨past ++ [source], passes _ grows.entries, grows.calls ▸ appended⟩
            | poolQuit => trivial
            | poolRescan => exact grows.quit.trans going.quit
  | _ => exact sound.extend rfl ⟨allowed, every⟩ tracks trivial

theorem Sound.ifIsset (sound : loop.Sound server config) {fd : Int} {yes : Config}
    {no : Phase} (isset : fd ∈ config.locals.cpset → loop.Sound server yes)
    (arrives : loop.AtPhase config.locals (loop.seen server config) no) :
    loop.Sound server (config.ifIsset fd yes no) := by
  rw [Config.ifIsset]
  cases tested : fdIsset fd config.locals.cpset with
  | none => exact sound.goto trivial
  | some ready =>
      cases ready with
      | true => exact isset (mem_of_fdIsset tested)
      | false => exact sound.goto arrives

/-! ### The order of dispatch -/

private theorem monitoredSources_succ (count : Nat) :
    monitoredSources (count + 1) = monitoredSources count ++ [.monitored count] := by
  rw [monitoredSources, List.range_succ, List.map_append]
  rfl

private theorem monitoredSources_sublist {fewer more : Nat} (below : fewer ≤ more) :
    (monitoredSources fewer).Sublist (monitoredSources more) :=
  (List.range_sublist.mpr below).map _

theorem monitoredSources_sublist_others (loop : Loop) :
    (monitoredSources loop.monitoredFds.length).Sublist loop.otherSources :=
  List.sublist_append_left _ _

theorem others_sublist_schedule (loop : Loop) (entries : List Nat) :
    loop.otherSources.Sublist (loop.schedule entries) :=
  List.sublist_append_left _ _

theorem schedule_sublist (loop : Loop) {fewer more : List Nat} (sub : fewer.Sublist more) :
    (loop.schedule fewer).Sublist (loop.schedule more) :=
  (List.Sublist.refl _).append (sub.map _)

private theorem schedule_snoc (loop : Loop) (before : List Nat) (id : Nat) :
    loop.schedule before ++ [.client id] = loop.schedule (before ++ [id]) := by
  rw [schedule, schedule, List.map_append, List.append_assoc]
  rfl

private theorem monitored_mem_iff (index count : Nat) :
    Source.monitored index ∈ monitoredSources count ↔ index < count := by
  simp [monitoredSources]

private theorem newClient_not_mem (count : Nat) : Source.newClient ∉ monitoredSources count := by
  simp [monitoredSources]

private theorem client_mem_schedule (loop : Loop) (id : Nat) (entries : List Nat) :
    Source.client id ∈ loop.schedule entries ↔ id ∈ entries := by
  have others : Source.client id ∉ loop.otherSources := by
    rw [otherSources]
    split <;> simp [monitoredSources]
  rw [schedule, List.mem_append, or_iff_right others]
  simp

private theorem behind_sublist {ids before later : List Nat} {it : Nat}
    (sub : ids.Sublist (before ++ it :: later)) (distinct : (before ++ it :: later).Nodup) :
    (ids.dropWhile (· != it)).tail.Sublist later := by
  induction before generalizing ids with
  | nil =>
      cases sub with
      | cons _ behind =>
          exact (List.tail_sublist _).trans ((List.dropWhile_sublist _).trans behind)
      | cons_cons _ behind =>
          rw [List.dropWhile_cons_of_neg (by simp)]
          exact behind
  | cons head before ih =>
      have rest := (List.nodup_cons.mp distinct)
      cases sub with
      | cons _ behind => exact ih behind rest.2
      | cons_cons _ behind =>
          have other : head ≠ it := by
            intro same
            exact rest.1 (by rw [same]; exact List.mem_append_right _ List.mem_cons_self)
          rw [List.dropWhile_cons_of_pos (by simpa using other)]
          exact ih behind rest.2

/-! ### One step -/

private theorem Sound.monitored (sound : loop.Sound server config) {index : Nat}
    (place : loop.Dispatching config.locals (loop.seen server config) (.monitored index))
    (behaviour : Behaviour) :
    loop.Sound server
      (match loop.monitoredFds[index]? with
      | none => config.goto .newClient
      | some fd =>
          config.ifIsset fd
            (config.callback (.monitored index) behaviour (.monitored (index + 1)))
            (.monitored (index + 1))) := by
  obtain ⟨going, ready, past, ⟨bound, rfl⟩, calls⟩ := place
  cases found : loop.monitoredFds[index]? with
  | none =>
      have all : index = loop.monitoredFds.length :=
        Nat.le_antisymm bound (List.getElem?_eq_none_iff.mp found)
      rw [all] at calls
      exact sound.goto ⟨going, ready, _, rfl, calls⟩
  | some fd =>
      have below : index < loop.monitoredFds.length := by
        by_contra beyond
        rw [List.getElem?_eq_none (Nat.le_of_not_lt beyond)] at found
        cases found
      apply sound.ifIsset
      · intro isset
        refine sound.callback behaviour going ready calls found isset ?_ ?_ ?_
          (fun _ _ place => place)
        · rw [monitored_mem_iff]
          exact Nat.lt_irrefl index
        · rw [← monitoredSources_succ]
          exact (monitoredSources_sublist below).trans
            ((monitoredSources_sublist_others loop).trans (others_sublist_schedule loop _))
        · exact fun _ _ => ⟨below, (monitoredSources_succ index).symm⟩
      · exact ⟨going, ready, _, ⟨below, rfl⟩,
          calls.trans (monitoredSources_sublist (Nat.le_succ index))⟩

private theorem Sound.newClient (sound : loop.Sound server config)
    (place : loop.Dispatching config.locals (loop.seen server config) .newClient) :
    loop.Sound server
      (if loop.newcli then config.ifIsset config.world.state.fd (config.goto .accept) .begin
      else config.goto .begin) := by
  obtain ⟨going, ready, past, rfl, calls⟩ := place
  have begins : loop.AtPhase config.locals (loop.seen server config) .begin :=
    ⟨going, ready, _, rfl, calls.trans (monitoredSources_sublist_others loop)⟩
  by_cases newcli : loop.newcli = true
  · rw [if_pos newcli]
    apply sound.ifIsset
    · intro isset
      refine sound.goto ⟨going, ready, _, ⟨rfl, newcli, ?_⟩, calls⟩
      rw [sound.tracks.fd, ready]
      exact isset
    · exact begins
  · rw [if_neg newcli]
    exact sound.goto begins

theorem waitNewClient_world (accept : Accept) (world : Guarded Server) :
    (waitNewClient accept world).2 = world := by
  rw [waitNewClient, LockM.bind_apply]
  cases listening : world.state.listening <;> cases accept <;>
    simp [chkl, serverAccept, LockM.bind_apply, LockM.get, LockM.throw,
      LockM.blocked, listening, pure, LockM.pure]

private theorem Sound.accept (sound : loop.Sound server config)
    (place : loop.Dispatching config.locals (loop.seen server config) .accept)
    (answer : Answer) :
    loop.Sound server
      (match waitNewClient answer.accept config.world with
      | (.returned _, world) =>
          { config with world := world }.callback .newClient answer.behaviour .begin
      | (outcome, world) => { config with world := world }.goto (.ended outcome.void)) := by
  obtain ⟨going, ready, past, ⟨rfl, newcli, isset⟩, calls⟩ := place
  have same := waitNewClient_world answer.accept config.world
  generalize waitNewClient answer.accept config.world = ran at same
  obtain ⟨outcome, world⟩ := ran
  cases same
  have others : monitoredSources loop.monitoredFds.length ++ [.newClient] =
      loop.otherSources := by
    rw [otherSources, if_pos newcli]
  cases outcome with
  | returned client =>
      refine sound.callback answer.behaviour going ready calls rfl (ready ▸ isset)
        (newClient_not_mem _) ?_ ?_ (fun _ _ place => place)
      · rw [others]
        exact others_sublist_schedule loop _
      · exact fun _ _ => others
  | _ => exact sound.goto trivial

private theorem Sound.begin (sound : loop.Sound server config)
    (place : loop.Dispatching config.locals (loop.seen server config) .begin) :
    loop.Sound server (config.goto (.clients config.world.state.retainedClients.begin)) := by
  obtain ⟨going, ready, past, rfl, calls⟩ := place
  apply sound.goto
  cases first : config.world.state.retainedClients.begin with
  | none => exact ⟨going, ready, _, trivial, List.Sublist.refl _⟩
  | some it =>
      have member : it ∈ (loop.seen server config).entries := by
        apply sound.tracks.sub.subset
        rw [sound.tracks.retained]
        exact List.mem_of_head? first
      obtain ⟨before, later, split⟩ := List.append_of_mem member
      exact ⟨going, ready, _, ⟨before, later, split, rfl⟩,
        calls.trans (others_sublist_schedule loop before)⟩

private theorem Sound.client (sound : loop.Sound server config) {it : Nat}
    (place : loop.Dispatching config.locals (loop.seen server config) (.clients (some it)))
    (behaviour : Behaviour) :
    loop.Sound server
      (match config.world.state.retainedClients.find it with
      | none => config.goto (.ended (.undefined .erased))
      | some entry =>
          config.ifIsset entry.client.fd (config.callback (.client it) behaviour (.advance it))
            (.advance it)) := by
  obtain ⟨going, ready, past, ⟨before, later, split, rfl⟩, calls⟩ := place
  cases found : config.world.state.retainedClients.find it with
  | none => exact sound.goto trivial
  | some entry =>
      have distinct := sound.tracks.nodup
      rw [split] at distinct
      apply sound.ifIsset
      · intro isset
        refine sound.callback behaviour going ready calls ?_ isset ?_ ?_ ?_
          (fun _ _ place => place)
        · change Option.map _ ((loop.seen server config).retained.find? _) = _
          rw [sound.tracks.retained]
          exact congrArg (Option.map (fun entry => entry.client.fd)) found
        · rw [client_mem_schedule]
          intro member
          exact (List.nodup_append.mp distinct).2.2 it member it List.mem_cons_self rfl
        · rw [schedule_snoc, split]
          apply schedule_sublist
          exact (List.append_sublist_append_left _).mpr
            (List.cons_sublist_cons.mpr (List.nil_sublist later))
        · rintro obs ⟨more, grown⟩
          refine ⟨before, later ++ more, ?_, schedule_snoc loop before it⟩
          rw [grown, split, List.append_assoc, List.cons_append]
      · exact ⟨going, ready, _, ⟨before, later, split, rfl⟩,
          calls.trans (schedule_sublist loop (List.sublist_append_left _ _))⟩

private theorem Sound.advance (sound : loop.Sound server config) {it : Nat}
    (place : loop.Dispatching config.locals (loop.seen server config) (.advance it)) :
    loop.Sound server
      (match config.world.state.retainedClients.next it with
      | none => config.goto (.ended (.undefined .erased))
      | some next => config.goto (.clients next)) := by
  obtain ⟨going, ready, past, ⟨before, later, split, rfl⟩, calls⟩ := place
  cases advanced : config.world.state.retainedClients.next it with
  | none => exact sound.goto trivial
  | some next =>
      apply sound.goto
      cases next with
      | none => exact ⟨going, ready, _, trivial, List.Sublist.refl _⟩
      | some behind =>
          have sub := sound.tracks.sub
          have distinct := sound.tracks.nodup
          rw [sound.tracks.retained, split] at sub
          rw [split] at distinct
          have member : behind ∈ later := by
            apply (behind_sublist sub distinct).subset
            rw [RetainedClients.next] at advanced
            split at advanced
            · exact List.mem_of_head? (Option.some.inj advanced)
            · cases advanced
          obtain ⟨middle, rest, behindSplit⟩ := List.append_of_mem member
          refine ⟨going, ready, _, ⟨before ++ it :: middle, rest, ?_, rfl⟩, ?_⟩
          · rw [split, behindSplit, List.append_assoc, List.cons_append]
          · apply calls.trans
            apply schedule_sublist
            exact (List.append_sublist_append_left _).mpr
              (List.cons_sublist_cons.mpr (List.nil_sublist middle))

private theorem Sound.step (sound : loop.Sound server config) (answer : Answer) :
    loop.Sound server (loop.step config answer) := by
  have place := sound.phase
  rw [Loop.step]
  cases phase : config.phase with
  | rescan =>
      rw [phase] at place
      exact sound.rescan place
  | select =>
      rw [phase] at place
      exact sound.select place phase answer.selected
  | monitored index =>
      rw [phase] at place
      exact sound.monitored place answer.behaviour
  | newClient =>
      rw [phase] at place
      exact sound.newClient place
  | accept =>
      rw [phase] at place
      exact sound.accept place answer
  | begin =>
      rw [phase] at place
      exact sound.begin place
  | clients it =>
      rw [phase] at place
      cases it with
      | none => exact sound.goto place.going
      | some it => exact sound.client place answer.behaviour
  | advance it =>
      rw [phase] at place
      exact sound.advance place
  | check result =>
      rw [phase] at place
      cases result with
      | poolContinue => exact sound.goto place
      | poolQuit => exact sound.goto trivial
      | poolRescan => exact sound.goto place
  | ended outcome => exact sound

private theorem start_sound (loop : Loop) (world : Guarded Server) :
    loop.Sound world.state (loop.start world) := by
  refine ⟨trivial, Observer.start_tracks world.state, ?_⟩
  rw [start]
  simp only
  split
  · trivial
  · rfl

/-- Every run of the loop is one that the dispatcher allows, event by event: any clients,
any flags and monitored descriptors, whatever the system answers and the callbacks do. -/
theorem run_disciplined (loop : Loop) (world : Guarded Server) (answers : List Answer) :
    EveryStep loop.observe loop.Allows (Observer.start world.state)
      (loop.run world answers).trace := by
  have keeps : ∀ (config : Config) (answer : Answer), loop.Sound world.state config →
      loop.Sound world.state (loop.step config answer) :=
    fun _ answer sound => sound.step answer
  exact (run_invariant keeps (loop.start_sound world) answers).every

end Loop

end Socketxx.ServerPool
