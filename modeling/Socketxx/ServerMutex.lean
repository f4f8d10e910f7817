import Socketxx.Library.Runs
import Socketxx.PoolLoop

/-!
One thread that makes calls on a `socket_server` one after the other, and the mutex that
some of them take.
-/

set_option autoImplicit false

namespace Socketxx.ServerPool

open Runs ScopedLock
open ScopedLock.LockM (Unlocked Safe Leaves)

/-- A public call, with what the system answers it. -/
inductive PublicCall where
  | retainClient (client : Client)
  | releaseClient (id : Nat)
  | waitNewClient (accept : Accept)
  | waitNewClientRetained (accept : Accept)
  | waitClientActivity (selected : List Selected)
  | waitClientActivityFair (selected : List Selected)
  | waitActivityLoop (loop : Loop) (answers : List Answer)

def Phase.outcome : Phase → Outcome Error Fault Unit
  | .ended outcome => outcome
  | _ => .blocked

def Loop.call (loop : Loop) (answers : List Answer) : Call Unit := fun world =>
  ((loop.run world answers).phase.outcome, (loop.run world answers).world)

def PublicCall.run : PublicCall → Call Unit
  | .retainClient client => (ServerPool.retainClient client).void
  | .releaseClient id => ServerPool.releaseClient id
  | .waitNewClient accept => (ServerPool.waitNewClient accept).void
  | .waitNewClientRetained accept => (ServerPool.waitNewClientRetained accept).void
  | .waitClientActivity selected => (ServerPool.waitClientActivity selected).void
  | .waitClientActivityFair selected => (ServerPool.waitClientActivityFair selected).void
  | .waitActivityLoop loop answers => loop.call answers

/-- The thread, and the outcome of the call that it does not come back from. -/
structure Thread where
  world : Guarded Server
  stuck : Option (Outcome Error Fault Unit)

def Thread.start (server : Server) : Thread := ⟨⟨false, server⟩, none⟩

def Thread.step (thread : Thread) (call : PublicCall) : Thread :=
  match thread.stuck with
  | some _ => thread
  | none =>
      match call.run thread.world with
      | (.returned _, world) => ⟨world, none⟩
      | (.threw _, world) => ⟨world, none⟩
      | (outcome, world) => ⟨world, some outcome⟩

/-- The call takes the mutex in the scope of a guard that holds it. -/
def PublicCall.Relocks (server : Server) : PublicCall → Prop
  | .waitNewClientRetained accept =>
      server.listening = true ∧ ∃ client, accept = .accepted client
  | .waitClientActivity _ => server.listening = true
  | .waitClientActivityFair _ => server.listening = true
  | _ => False

/-! ### Calls that take the mutex at most once -/

theorem chkl_unlocked : Unlocked chkl := by
  apply Unlocked.bind Unlocked.get
  intro server
  split
  · exact Unlocked.pure ()
  · exact Unlocked.throw Error.badState

theorem waitNewClient_unlocked (accept : Accept) : Unlocked (waitNewClient accept) := by
  apply Unlocked.bind chkl_unlocked
  intro _
  cases accept with
  | pending => exact Unlocked.blocked
  | failed => exact Unlocked.throw Error.acceptErr
  | accepted client => exact Unlocked.pure client

theorem retainClient_safe (client : Client) : Safe (retainClient client) := by
  apply Unlocked.locked
  apply Unlocked.bind Unlocked.get
  intro server
  exact Unlocked.bind (Unlocked.modify _) (fun _ => Unlocked.pure _)

theorem releaseClient_safe (id : Nat) : Safe (releaseClient id) := by
  apply Unlocked.locked
  apply Unlocked.bind Unlocked.get
  intro server
  split
  · exact Unlocked.modify _
  · exact Unlocked.undefined Fault.erased

private theorem ListOp.call_safe (op : ListOp) : Safe op.call := by
  cases op with
  | retain client =>
      exact (retainClient_safe client).bind (fun _ => (Unlocked.pure _).safe)
  | release id => exact (releaseClient_safe id).bind (fun _ => (Unlocked.pure _).safe)
  | listeningStop =>
      apply Unlocked.safe
      apply Unlocked.bind
      · exact Unlocked.bind chkl_unlocked (fun _ => Unlocked.modify _)
      · exact fun _ => Unlocked.pure _

/-! ### The loop -/

private theorem runOps_leaves (ops : List ListOp) (server : Server) :
    Leaves false (runOps ops ⟨false, server⟩).2 := by
  induction ops generalizing server with
  | nil => exact Leaves.returned () server
  | cons op later ih =>
      have leaves := op.call_safe server
      rw [runOps]
      generalize op.call ⟨false, server⟩ = ran at leaves
      cases leaves with
      | returned event state => exact ih state
      | threw error state => exact Leaves.threw error state
      | blocked after => exact Leaves.blocked after
      | undefined fault after => exact Leaves.undefined fault after

def Config.Free (config : Config) : Prop :=
  match config.phase with
  | .ended outcome => Leaves false (outcome, config.world)
  | _ => config.world.held = false

theorem Config.free_of_held {config : Config} (held : config.world.held = false)
    (live : config.phase.outcome ≠ .deadlock) : config.Free := by
  obtain ⟨⟨held', state⟩, locals, phase, trace⟩ := config
  cases held
  cases phase with
  | ended outcome =>
      cases outcome with
      | returned value => exact Leaves.returned value state
      | threw error => exact Leaves.threw error state
      | blocked => exact Leaves.blocked _
      | deadlock => exact absurd rfl live
      | undefined fault => exact Leaves.undefined fault _
  | _ => rfl

variable {config : Config} (held : config.world.held = false)

include held

theorem Config.free_callback (source : Source) (behaviour : Behaviour) {next : Phase}
    (live : next.outcome ≠ .deadlock) : (config.callback source behaviour next).Free := by
  have leaves := runOps_leaves behaviour.ops config.world.state
  have world : config.world = ⟨false, config.world.state⟩ := by
    rw [← held]
  rw [← world] at leaves
  rw [Config.callback]
  generalize runOps behaviour.ops config.world = ran at leaves
  obtain ⟨events, result⟩ := ran
  cases leaves with
  | returned value state =>
      cases behaviour.result with
      | none => exact Leaves.threw Error.callback state
      | some result =>
          cases result with
          | poolContinue => exact Config.free_of_held rfl live
          | poolQuit => rfl
          | poolRescan => rfl
  | threw error state => exact Leaves.threw error state
  | blocked after => exact Leaves.blocked after
  | undefined fault after => exact Leaves.undefined fault after

private theorem Config.free_ifIsset (fd : Int) {yes : Config} {no : Phase} (free : yes.Free)
    (live : no.outcome ≠ .deadlock) : (config.ifIsset fd yes no).Free := by
  rw [Config.ifIsset]
  cases fdIsset fd config.locals.cpset with
  | none => exact Leaves.undefined Fault.outOfRange config.world
  | some ready =>
      cases ready with
      | true => exact free
      | false => exact Config.free_of_held held live

private theorem Config.free_select (selecting : config.phase = .select) (selected : Selected) :
    (config.select selected).Free := by
  cases selected with
  | interrupted =>
      apply Config.free_of_held held
      rw [selecting]
      nofun
  | failed => exact Config.free_of_held held nofun
  | ready fds =>
      rw [Config.select]
      simp only
      split <;> exact Config.free_of_held held nofun

private theorem Loop.free_rescan (loop : Loop) : (loop.rescan config).Free := by
  rw [Loop.rescan]
  split
  · exact Config.free_of_held held nofun
  · split <;> exact Config.free_of_held held nofun

private theorem Loop.free_accept (answer : Answer) :
    Config.Free
      (match waitNewClient answer.accept config.world with
      | (.returned _, world) =>
          { config with world := world }.callback .newClient answer.behaviour .begin
      | (outcome, world) => { config with world := world }.goto (.ended outcome.void)) := by
  have leaves := waitNewClient_unlocked answer.accept config.world
  rw [held] at leaves
  generalize waitNewClient answer.accept config.world = ran at leaves
  cases leaves with
  | returned value state => exact Config.free_callback rfl .newClient answer.behaviour nofun
  | threw error state => exact Leaves.threw error state
  | blocked after => exact Leaves.blocked after
  | undefined fault after => exact Leaves.undefined fault after

omit held

private theorem Config.Free.step (loop : Loop) (free : config.Free) (answer : Answer) :
    (loop.step config answer).Free := by
  rw [Config.Free] at free
  rw [Loop.step]
  cases phase : config.phase with
  | ended outcome =>
      rw [Config.Free, phase]
      rw [phase] at free
      exact free
  | rescan =>
      rw [phase] at free
      exact loop.free_rescan free
  | select =>
      rw [phase] at free
      exact Config.free_select free phase answer.selected
  | monitored index =>
      rw [phase] at free
      simp only
      cases loop.monitoredFds[index]? with
      | none => exact free
      | some fd =>
          exact Config.free_ifIsset free fd (Config.free_callback free _ _ nofun) nofun
  | newClient =>
      rw [phase] at free
      simp only
      split
      · exact Config.free_ifIsset free _ free nofun
      · exact free
  | accept =>
      rw [phase] at free
      exact Loop.free_accept free answer
  | begin =>
      rw [phase] at free
      exact free
  | clients it =>
      rw [phase] at free
      cases it with
      | none => exact free
      | some it =>
          simp only
          cases config.world.state.retainedClients.find it with
          | none => exact Config.free_of_held free nofun
          | some entry =>
              exact Config.free_ifIsset free _ (Config.free_callback free _ _ nofun) nofun
  | advance it =>
      rw [phase] at free
      simp only
      cases config.world.state.retainedClients.next it with
      | none => exact Config.free_of_held free nofun
      | some next => exact free
  | check result =>
      rw [phase] at free
      cases result with
      | poolContinue => exact free
      | poolQuit => exact Config.free_of_held free nofun
      | poolRescan => exact free

private theorem Loop.call_safe (loop : Loop) (answers : List Answer) : Safe
    (loop.call answers) := by
  intro server
  have start : (loop.start ⟨false, server⟩).Free := by
    apply Config.free_of_held rfl
    rw [Loop.start]
    simp only
    split <;> nofun
  have keeps : ∀ (config : Config) (answer : Answer), config.Free →
      (loop.step config answer).Free := fun _ answer free => free.step loop answer
  have free := run_invariant keeps start answers
  change Leaves false ((loop.run ⟨false, server⟩ answers).phase.outcome,
    (loop.run ⟨false, server⟩ answers).world)
  change (loop.run ⟨false, server⟩ answers).Free at free
  rw [Config.Free] at free
  cases phase : (loop.run ⟨false, server⟩ answers).phase with
  | ended outcome =>
      rw [phase] at free
      exact free
  | _ => exact Leaves.blocked _

/-! ### Runs of calls -/

theorem chkl_listening (world : Guarded Server) (listening : world.state.listening = true) :
    chkl world = (.returned (), world) := by
  rw [chkl, LockM.bind_apply, LockM.get]
  simp only [listening]
  rfl

theorem chkl_idle (world : Guarded Server) (idle : world.state.listening = false) :
    chkl world = (.threw .badState, world) := by
  rw [chkl, LockM.bind_apply, LockM.get]
  simp only [idle]
  rfl

theorem waitNewClient_listening (accept : Accept) (world : Guarded Server)
    (listening : world.state.listening = true) :
    waitNewClient accept world = serverAccept accept world :=
  LockM.bind_returned (chkl_listening world listening)

private theorem waitNewClient_idle (accept : Accept) (world : Guarded Server)
    (idle : world.state.listening = false) :
    waitNewClient accept world = (.threw .badState, world) :=
  LockM.bind_threw (chkl_idle world idle)

private theorem PublicCall.run_leaves {call : PublicCall} {server : Server}
    (avoids : ¬ call.Relocks server) : Leaves false (call.run ⟨false, server⟩) := by
  cases call with
  | retainClient client => exact (retainClient_safe client).void server
  | releaseClient id => exact releaseClient_safe id server
  | waitNewClient accept => exact (waitNewClient_unlocked accept).safe.void server
  | waitNewClientRetained accept =>
      apply Leaves.void
      rw [ServerPool.waitNewClientRetained]
      cases listening : server.listening with
      | false =>
          have throws := waitNewClient_idle accept ⟨true, server⟩ listening
          rw [LockM.locked_threw rfl (LockM.bind_threw throws)]
          exact Leaves.threw Error.badState server
      | true =>
          have accepts := waitNewClient_listening accept ⟨true, server⟩ listening
          cases accept with
          | accepted client => exact absurd ⟨listening, client, rfl⟩ avoids
          | failed =>
              rw [LockM.locked_threw rfl (LockM.bind_threw accepts)]
              exact Leaves.threw Error.acceptErr server
          | pending =>
              rw [LockM.locked_blocked rfl (LockM.bind_blocked accepts)]
              exact Leaves.blocked _
  | waitClientActivity selected =>
      have idle : server.listening = false := (Bool.not_eq_true _).mp avoids
      apply Leaves.void
      rw [ServerPool.waitClientActivity, LockM.bind_threw (chkl_idle _ idle)]
      exact Leaves.threw Error.badState server
  | waitClientActivityFair selected =>
      have idle : server.listening = false := (Bool.not_eq_true _).mp avoids
      apply Leaves.void
      rw [ServerPool.waitClientActivityFair, LockM.bind_threw (chkl_idle _ idle)]
      exact Leaves.threw Error.badState server
  | waitActivityLoop loop answers => exact loop.call_safe answers server

private theorem PublicCall.run_deadlock {call : PublicCall} {server : Server}
    (relocks : call.Relocks server) : (call.run ⟨false, server⟩).1 = .deadlock := by
  cases call with
  | waitNewClientRetained accept =>
      obtain ⟨listening, client, rfl⟩ := relocks
      have accepts := waitNewClient_listening (.accepted client) ⟨true, server⟩ listening
      apply LockM.void_deadlock
      have relocks : (ServerPool.waitNewClient (.accepted client) >>=
          ServerPool.retainClient) ⟨true, server⟩ = (.deadlock, ⟨true, server⟩) := by
        rw [LockM.bind_returned accepts]
        exact LockM.locked_of_held _ rfl
      rw [ServerPool.waitNewClientRetained, LockM.locked_deadlock rfl relocks]
  | waitClientActivity selected =>
      apply LockM.void_deadlock
      rw [ServerPool.waitClientActivity,
        LockM.bind_returned (chkl_listening ⟨false, server⟩ relocks)]
      exact LockM.locked_locked _ _
  | waitClientActivityFair selected =>
      apply LockM.void_deadlock
      rw [ServerPool.waitClientActivityFair,
        LockM.bind_returned (chkl_listening ⟨false, server⟩ relocks)]
      rw [LockM.locked_deadlock rfl]
      exact LockM.bind_deadlock (LockM.locked_of_held _ rfl)
  | retainClient client => exact relocks.elim
  | releaseClient id => exact relocks.elim
  | waitNewClient accept => exact relocks.elim
  | waitActivityLoop loop answers => exact relocks.elim

def Thread.Avoids (thread : Thread) (call : PublicCall) : Prop :=
  thread.stuck = none → ¬ call.Relocks thread.world.state

def Thread.Free (thread : Thread) : Prop :=
  match thread.stuck with
  | none => thread.world.held = false
  | some outcome => outcome ≠ .deadlock

private theorem Thread.Free.not_deadlock {thread : Thread} (free : thread.Free) :
    thread.stuck ≠ some .deadlock := by
  intro stuck
  rw [Free, stuck] at free
  exact free rfl

private theorem Thread.Free.step {thread : Thread} (free : thread.Free) (call : PublicCall)
    (avoids : thread.Avoids call) : (thread.step call).Free := by
  obtain ⟨⟨held, server⟩, stuck⟩ := thread
  cases stuck with
  | some outcome => exact free
  | none =>
      cases free
      have leaves := PublicCall.run_leaves (avoids rfl)
      rw [Thread.step]
      simp only
      generalize call.run ⟨false, server⟩ = ran at leaves
      cases leaves with
      | returned value state => rfl
      | threw error state => rfl
      | blocked after => nofun
      | undefined fault after => nofun

private theorem Thread.Free.breaks {thread : Thread} (free : thread.Free) (call : PublicCall)
    (relocks : ¬ thread.Avoids call) : ¬ (thread.step call).stuck ≠ some .deadlock := by
  obtain ⟨⟨held, server⟩, stuck⟩ := thread
  rw [Avoids, Classical.not_imp, not_not] at relocks
  obtain ⟨rfl, relocks⟩ := relocks
  cases free
  have deadlocks := PublicCall.run_deadlock relocks
  rw [not_not, Thread.step]
  simp only
  generalize call.run ⟨false, server⟩ = ran at deadlocks
  obtain ⟨outcome, world⟩ := ran
  cases deadlocks
  rfl

private theorem Thread.start_free (server : Server) : (Thread.start server).Free := by
  change false = false
  rfl

/-- A thread never locks the mutex while it holds it, if and only if it makes no
`wait_client_activity` of either kind on a listening server, and no
`wait_new_client_retained` on one that accepts a client. -/
theorem no_deadlock_iff (server : Server) (calls : List PublicCall) :
    EveryState Thread.step (fun thread => thread.stuck ≠ some .deadlock)
        (Thread.start server) calls ↔
      EveryStep Thread.step Thread.Avoids (Thread.start server) calls :=
  @everyState_iff_everyStep Thread PublicCall Thread.step Thread.Free
    (fun thread => thread.stuck ≠ some .deadlock) Thread.Avoids
    (fun _ free => free.not_deadlock) (fun _ call free avoids => free.step call avoids)
    (fun _ call free relocks => free.breaks call relocks) _ (Thread.start_free server) calls

theorem listening_deadlocks :
    ¬ EveryState Thread.step (fun thread => thread.stuck ≠ some .deadlock)
        (Thread.start ⟨3, true, RetainedClients.empty⟩)
        [.retainClient ⟨4, 0⟩, .waitClientActivity [.ready [4]]] ∧
      ¬ EveryState Thread.step (fun thread => thread.stuck ≠ some .deadlock)
        (Thread.start ⟨3, true, RetainedClients.empty⟩)
        [.retainClient ⟨4, 0⟩, .waitClientActivityFair [.ready [4]]] ∧
      ¬ EveryState Thread.step (fun thread => thread.stuck ≠ some .deadlock)
        (Thread.start ⟨3, true, RetainedClients.empty⟩)
        [.waitNewClientRetained (.accepted ⟨4, 0⟩)] := by
  refine ⟨?_, ?_, ?_⟩
  · intro every
    obtain ⟨_, _, after⟩ := every
    exact after rfl
  · intro every
    obtain ⟨_, _, after⟩ := every
    exact after rfl
  · intro every
    obtain ⟨_, after⟩ := every
    exact after rfl

end Socketxx.ServerPool
