import Socketxx.PoolSteps

/-!
The descriptors that a server puts and looks up in its descriptor sets.

They come from `accept`, from the caller's list, and from the listening socket, which holds
-1 when it is stopped.
-/

set_option autoImplicit false

namespace Socketxx.ServerPool

open Runs ScopedLock

/-- Each `FD_SET` and `FD_ISSET` of the next step is for a descriptor in range. -/
def Loop.TestsInRange (loop : Loop) (config : Config) : Prop :=
  ∀ fd, loop.Tests config fd → InRange fd

def Loop.AllInRange (loop : Loop) (server : Server) : Prop :=
  ∀ fd ∈ server.retainedClients.fds ++ loop.otherFds server, InRange fd

/-- A callback that does not end the loop retains clients in range only, and does not stop a
loop that accepts from listening. -/
def Loop.StaysInRange (loop : Loop) (config : Config) (answer : Answer) : Prop :=
  ∀ source, loop.Calls config answer.accept source →
    ∀ result, answer.behaviour.result = some result → result ≠ .poolQuit →
      (∀ client, .retain client ∈ answer.behaviour.ops → InRange client.fd) ∧
        (loop.newcli = true → .listeningStop ∉ answer.behaviour.ops)

/-! ### `_wait_client_activity` -/

private theorem select_cases (maxfd : Int) (set : FdSet) (selected : List Selected)
    (world : Guarded Server) :
    (∃ ready, select maxfd set selected world = (.returned ready, world)) ∨
      select maxfd set selected world = (.blocked, world) ∨
      ∃ error, select maxfd set selected world = (.threw error, world) := by
  induction selected with
  | nil => exact Or.inr (Or.inl rfl)
  | cons answer later ih =>
      cases answer with
      | interrupted => exact ih
      | failed => exact Or.inr (Or.inr ⟨.selectErr, rfl⟩)
      | ready fds =>
          rw [select]
          by_cases timeout : selectResult (maxfd + 1) set fds = []
          · rw [if_pos timeout]
            exact Or.inr (Or.inr ⟨.timeout, rfl⟩)
          · rw [if_neg timeout]
            exact Or.inl ⟨_, rfl⟩

private theorem firstReady_ne_outOfRange (ready : FdSet) (entries : List Entry)
    (inRange : ∀ entry ∈ entries, InRange entry.client.fd) (world : Guarded Server) :
    (firstReady ready entries world).1 ≠ .undefined .outOfRange := by
  induction entries with
  | nil => simp [firstReady, LockM.undefined]
  | cons entry later ih =>
      rw [List.forall_mem_cons] at inRange
      rw [firstReady]
      cases tested : fdIsset entry.client.fd ready with
      | none => exact absurd inRange.1 ((fdIsset_none_iff _ _).mp tested)
      | some isset =>
          cases isset with
          | true => simp [LockM.bind_apply, LockM.ofOption, pure, LockM.pure]
          | false => exact ih inRange.2

private theorem RetainedClients.fds_inRange (clients : RetainedClients) :
    (∀ fd ∈ clients.fds, InRange fd) ↔ ∀ entry ∈ clients.entries, InRange entry.client.fd :=
  List.forall_mem_map

theorem RetainedClients.inRange_of_filled {clients : RetainedClients} {max : Int} {set : FdSet}
    (filled : clients.fillFdset = some (max, set)) :
    ∀ entry ∈ clients.entries, InRange entry.client.fd := by
  have refused := fillFdset_none_iff clients.fds 0 []
  change clients.fillFdset = _ ↔ _ at refused
  rw [filled] at refused
  rw [← RetainedClients.fds_inRange]
  simpa using refused

theorem pollClients_filled {world : Guarded Server} {max : Int} {set : FdSet}
    (filled : world.state.retainedClients.fillFdset = some (max, set))
    (selected : List Selected) :
    pollClients selected world =
      (select max set selected >>= fun ready =>
        firstReady ready world.state.retainedClients.entries) world := by
  have got : (LockM.get : Call Server) world = (.returned world.state, world) := rfl
  rw [pollClients, LockM.bind_returned got, filled]
  rfl

private theorem pollClients_outOfRange_iff (selected : List Selected) (world : Guarded Server) :
    (pollClients selected world).1 = .undefined .outOfRange ↔
      ∃ fd ∈ world.state.retainedClients.fds, ¬ InRange fd := by
  have refused := fillFdset_none_iff world.state.retainedClients.fds 0 []
  change world.state.retainedClients.fillFdset = _ ↔ _ at refused
  rw [← refused]
  cases filled : world.state.retainedClients.fillFdset with
  | none =>
      have got : (LockM.get : Call Server) world = (.returned world.state, world) := rfl
      apply iff_of_true _ rfl
      rw [pollClients, LockM.bind_returned got, filled]
      rfl
  | some full =>
      obtain ⟨max, set⟩ := full
      apply iff_of_false _ (by simp)
      rw [pollClients_filled filled]
      rcases select_cases max set selected world with ⟨ready, ran⟩ | ran | ⟨error, ran⟩
      · rw [LockM.bind_returned ran]
        exact firstReady_ne_outOfRange ready _
          (RetainedClients.inRange_of_filled filled) world
      · rw [LockM.bind_blocked ran]
        simp
      · rw [LockM.bind_threw ran]
        simp

private theorem waitClientActivity_outOfRange_iff (selected : List Selected)
    (world : Guarded Server) :
    (_waitClientActivity selected world).1 = .undefined .outOfRange ↔
      world.held = false ∧ ∃ fd ∈ world.state.retainedClients.fds, ¬ InRange fd := by
  obtain ⟨held, server⟩ := world
  unfold _waitClientActivity
  cases held with
  | true =>
      rw [LockM.locked_of_held _ rfl]
      simp
  | false =>
      have polled := pollClients_outOfRange_iff selected ⟨true, server⟩
      change _ ↔ ∃ fd ∈ server.retainedClients.fds, ¬ InRange fd at polled
      rw [← polled, and_iff_right rfl]
      unfold LockM.locked
      simp only [Bool.false_eq_true, if_false]
      rcases pollClients selected ⟨true, server⟩ with ⟨outcome, after⟩
      cases outcome <;> simp

/-! ### `_wait_activity_loop` -/

structure Config.Fitting (loop : Loop) (config : Config) : Prop where
  monitored : config.phase.live = true → ∀ fd ∈ loop.monitoredFds, InRange fd
  clients : config.phase.live = true →
    ∀ entry ∈ config.world.state.retainedClients.entries, InRange entry.client.fd
  listening : config.phase.live = true → loop.newcli = true → InRange config.world.state.fd

section

variable {loop : Loop} {config after : Config} {answer : Answer}

private theorem Loop.mem_otherFds {server : Server} {fd : Int}
    (member : fd ∈ loop.otherFds server) :
    (loop.newcli = true ∧ fd = server.fd) ∨ fd ∈ loop.monitoredFds := by
  rw [Loop.otherFds] at member
  rcases List.mem_append.mp member with listening | monitored
  · by_cases newcli : loop.newcli = true
    · rw [if_pos newcli] at listening
      exact Or.inl ⟨newcli, List.mem_singleton.mp listening⟩
    · rw [if_neg newcli] at listening
      cases listening
  · exact Or.inr monitored

theorem Config.Fitting.testsInRange (fitting : config.Fitting loop) :
    loop.TestsInRange config := by
  intro fd tests
  unfold Loop.Tests at tests
  cases phase : config.phase with
  | rescan =>
      have live : config.phase.live = true := by
        rw [phase]
        rfl
      simp only [phase] at tests
      rcases List.mem_append.mp tests with client | other
      · obtain ⟨entry, member, same⟩ := List.mem_map.mp client
        rw [← same]
        exact fitting.clients live entry member
      · rcases Loop.mem_otherFds other with ⟨newcli, same⟩ | monitored
        · rw [same]
          exact fitting.listening live newcli
        · exact fitting.monitored live fd monitored
  | monitored index =>
      have live : config.phase.live = true := by
        rw [phase]
        rfl
      simp only [phase] at tests
      exact fitting.monitored live fd (List.mem_of_getElem? tests)
  | newClient =>
      have live : config.phase.live = true := by
        rw [phase]
        rfl
      simp only [phase] at tests
      rw [tests.2]
      exact fitting.listening live tests.1
  | clients it =>
      have live : config.phase.live = true := by
        rw [phase]
        rfl
      cases it with
      | none => simp only [phase] at tests
      | some it =>
          simp only [phase] at tests
          obtain ⟨entry, found, same⟩ := tests
          rw [same]
          exact fitting.clients live entry (List.mem_of_find?_eq_some found)
  | _ => simp only [phase] at tests

private theorem Config.Fitting.ops (fitting : config.Fitting loop) (live : config.phase.live = true)
    {ops : List ListOp} {events : List Event} {world : Guarded Server}
    (ran : runOps ops config.world = (events, .returned (), world))
    (stays : (∀ client, .retain client ∈ ops → InRange client.fd) ∧
      (loop.newcli = true → .listeningStop ∉ ops))
    (same : after.world = world) : after.Fitting loop := by
  have done := runOps_done ops ran
  rw [← same] at done
  constructor
  case monitored => exact fun _ => fitting.monitored live
  case clients =>
    intro _live entry member
    rcases done.entries entry member with old | retained
    · exact fitting.clients live entry old
    · exact stays.1 entry.client retained
  case listening =>
    intro _live newcli
    rcases done.fd with kept | stopped
    · rw [kept]
      exact fitting.listening live newcli
    · exact absurd stopped (stays.2 newcli)

theorem Config.Fitting.ended (ended : after.phase.live = false) : after.Fitting loop := by
  constructor <;>
    · intro live
      rw [ended] at live
      cases live

private theorem Config.Fitting.still (fitting : config.Fitting loop)
    (live : after.phase.live = true → config.phase.live = true)
    (same : after.world = config.world) : after.Fitting loop := by
  constructor
  case monitored =>
    intro going
    exact fitting.monitored (live going)
  case clients =>
    intro going
    rw [same]
    exact fitting.clients (live going)
  case listening =>
    intro going
    rw [same]
    exact fitting.listening (live going)

private theorem Config.Called.fitting {source : Source} (fitting : config.Fitting loop)
    (stays : loop.StaysInRange config answer)
    (calls : loop.Calls config answer.accept source)
    (called : config.Called source answer.behaviour source.next after) :
    after.Fitting loop := by
  have live : config.phase.live = true := by
    cases source <;> rw [calls.1] <;> rfl
  cases called with
  | goesOn events world ran result =>
      exact fitting.ops live ran (stays source calls .poolContinue result (by simp)) rfl
  | leaves events world result ran returns leaves =>
      cases result with
      | poolContinue => exact absurd rfl leaves
      | poolQuit => exact Config.Fitting.ended rfl
      | poolRescan =>
          exact fitting.ops live ran (stays source calls .poolRescan returns (by simp)) rfl
  | fails events world outcome called ran inRange => exact Config.Fitting.ended rfl

private theorem Loop.step_fitting (fitting : config.Fitting loop)
    (stays : loop.StaysInRange config answer) : (loop.step config answer).Fitting loop := by
  have stepped := loop.stepped config answer
  generalize loop.step config answer = after at stepped ⊢
  cases stepped with
  | called source after calls called => exact called.fitting fitting stays calls
  | scanned phase maxsock set => exact fitting.still (fun _ => by rw [phase]; rfl) rfl
  | unready phase ready next quiet => exact fitting.still (fun _ => by rw [phase]; rfl) rfl
  | ready phase ready => exact fitting.still (fun _ => by rw [phase]; rfl) rfl
  | goes next goes =>
      cases goes with
      | on next valid dispatching live inRange => exact fitting.still live rfl
      | stays outcome phase => exact Config.Fitting.ended rfl
      | outOfRange fd tests outside => exact Config.Fitting.ended rfl

theorem Loop.start_fitting {world : Guarded Server}
    (all : (loop.start world).phase.live = true → loop.AllInRange world.state) :
    (loop.start world).Fitting loop := by
  constructor
  case monitored =>
    intro live fd member
    apply all live
    rw [Loop.otherFds]
    exact List.mem_append_right _ (List.mem_append_right _ member)
  case clients =>
    intro live entry member
    apply all live
    exact List.mem_append_left _ (List.mem_map_of_mem member)
  case listening =>
    intro live newcli
    apply all live
    rw [Loop.otherFds, if_pos newcli]
    exact List.mem_append_right _ List.mem_cons_self

private theorem Loop.start_testsInRange_iff (loop : Loop) (world : Guarded Server) :
    loop.TestsInRange (loop.start world) ↔
      ((loop.start world).phase.live = true → loop.AllInRange world.state) := by
  constructor
  · intro inRange live fd member
    apply inRange
    have scans : (loop.start world).phase = .rescan := by
      rw [Loop.start] at live ⊢
      simp only at live ⊢
      split at live
      · cases live
      · rename_i listens
        exact if_neg listens
    rw [Loop.Tests, scans]
    exact member
  · intro all
    exact (Loop.start_fitting all).testsInRange

end

/-- `_wait_client_activity` stays in range exactly when the retained clients are. A loop
begins in range exactly when all that it scans first is, and stays in range as long as no
callback that lets it go on retains a client out of range or stops the server whose new
clients the loop waits for. -/
theorem tests_in_range (loop : Loop) (world : Guarded Server) (selected : List Selected)
    (answers : List Answer) :
    ((_waitClientActivity selected world).1 ≠ .undefined .outOfRange ↔
      world.held = true ∨ ∀ fd ∈ world.state.retainedClients.fds, InRange fd) ∧
    (loop.TestsInRange (loop.start world) ↔
      ((loop.start world).phase.live = true → loop.AllInRange world.state)) ∧
    (((loop.start world).phase.live = true → loop.AllInRange world.state) →
      EveryStep loop.step loop.StaysInRange (loop.start world) answers →
      EveryState loop.step loop.TestsInRange (loop.start world) answers) := by
  constructor
  · rw [ne_eq, waitClientActivity_outOfRange_iff, not_and_or, Bool.not_eq_false]
    push Not
    rfl
  · constructor
    · exact loop.start_testsInRange_iff world
    · intro all stays
      have sound : ∀ config : Config, config.Fitting loop → loop.TestsInRange config :=
        fun config fitting => fitting.testsInRange
      have keeps : ∀ (config : Config) (answer : Answer), config.Fitting loop →
          loop.StaysInRange config answer → (loop.step config answer).Fitting loop :=
        fun config answer fitting step => Loop.step_fitting fitting step
      exact EveryStep.everyState sound keeps (Loop.start_fitting all) stays

def listeningPool : Guarded Server :=
  ⟨false, ⟨3, true, RetainedClients.empty.insert ⟨4, 0⟩⟩⟩

theorem listeningPool_inRange :
    EveryState (Loop.step ⟨true, false, []⟩) (Loop.TestsInRange ⟨true, false, []⟩)
      (Loop.start ⟨true, false, []⟩ listeningPool)
      (List.replicate 10 ⟨.ready [3], .accepted ⟨5, 1⟩, ⟨[.retain ⟨5, 1⟩], some .poolRescan⟩⟩) := by
  apply (tests_in_range ⟨true, false, []⟩ listeningPool [] _).2.2
  · intro _live
    unfold Loop.AllInRange
    decide
  · apply EveryStep.of_forall
    intro answer member config source calls result returns goes
    rw [List.eq_of_mem_replicate member]
    constructor
    · intro client retained
      have same : client = ⟨5, 1⟩ := by simpa using retained
      rw [same]
      decide
    · intro _newcli
      decide

/-- A client on descriptor 1024 is in the list; or a callback stops the server and has the
list scanned again. -/
theorem tests_out_of_range :
    ¬ (∀ (selected : List Selected) (world : Guarded Server),
        (_waitClientActivity selected world).1 ≠ .undefined .outOfRange) ∧
      ¬ (∀ (loop : Loop) (world : Guarded Server) (answers : List Answer),
        EveryState loop.step loop.TestsInRange (loop.start world) answers) ∧
      ¬ EveryState (Loop.step ⟨true, false, []⟩) (Loop.TestsInRange ⟨true, false, []⟩)
        (Loop.start ⟨true, false, []⟩ listeningPool)
        (List.replicate 7 ⟨.ready [4], .pending, ⟨[.listeningStop], some .poolRescan⟩⟩) := by
  let crowded : Guarded Server := ⟨false, ⟨3, true, RetainedClients.empty.insert ⟨1024, 0⟩⟩⟩
  constructor
  · intro inRange
    exact inRange [] crowded rfl
  constructor
  · intro inRange
    have first : Loop.TestsInRange ⟨false, false, []⟩ (Loop.start ⟨false, false, []⟩ crowded) :=
      inRange ⟨false, false, []⟩ crowded []
    have last := first 1024 List.mem_cons_self
    exact absurd last (by decide)
  · intro inRange
    have last := inRange.final (-1) (by
      change (-1 : Int) ∈ ([4, -1] : List Int)
      decide)
    exact absurd last (by decide)

end Socketxx.ServerPool
