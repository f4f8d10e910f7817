import Socketxx.ServerPool

/-!
`_wait_activity_loop` as a machine that makes one step for each visit of a loop or of a
label, and is told for each what the system answers and what a callback does.

The trace records what can be seen of a run from outside: scans of the list, calls of
`select`, calls of callbacks with what they do and return.
-/

set_option autoImplicit false

namespace Socketxx.ServerPool

open ScopedLock

inductive PoolRet where
  | poolContinue
  | poolQuit
  | poolRescan
deriving DecidableEq, Repr

/-- What a callback was called for: a monitored descriptor by its place in the vector, a
new client, or an entry of the list. -/
inductive Source where
  | monitored (index : Nat)
  | newClient
  | client (id : Nat)
deriving DecidableEq, Repr

inductive ListOp where
  | retain (client : Client)
  | release (id : Nat)
  | listeningStop
deriving DecidableEq, Repr

/-- A callback: the calls it makes, and what it returns unless it throws. -/
structure Behaviour where
  ops : List ListOp
  result : Option PoolRet
deriving DecidableEq, Repr

inductive Event where
  | scanned
  | selected (nfds : Int) (set : FdSet) (ready : Option FdSet)
  | called (source : Source)
  | retained (entry : Entry)
  | released (id : Nat)
  | stopped
  | callbackReturned (result : PoolRet)
deriving DecidableEq, Repr

def Server.listeningStop (server : Server) : Server :=
  { server with fd := -1, listening := false }

def listeningStop : Call Unit := do
  chkl
  LockM.modify Server.listeningStop

def ListOp.call : ListOp → Call Event
  | .retain client => do
      let entry ← retainClient client
      pure (.retained entry)
  | .release id => do
      releaseClient id
      pure (.released id)
  | .listeningStop => do
      ServerPool.listeningStop
      pure .stopped

/-- The calls of a callback, up to one that does not return. -/
def runOps : List ListOp → Guarded Server →
    List Event × Outcome Error Fault Unit × Guarded Server
  | [], world => ([], .returned (), world)
  | op :: later, world =>
      match op.call world with
      | (.returned event, after) =>
          let (events, outcome, final) := runOps later after
          (event :: events, outcome, final)
      | (outcome, after) => ([], outcome.void, after)

/-- The two flags of the template and the monitored descriptors. -/
structure Loop where
  newcli : Bool
  monfds : Bool
  fds : List Int
deriving DecidableEq, Repr

/-- Where the loop is. An iterator that is `none` is `end()`. -/
inductive Phase where
  | rescan
  | select
  | monitored (index : Nat)
  | newClient
  | accept
  | begin
  | clients (it : Option Nat)
  | advance (it : Nat)
  | check (result : PoolRet)
  | ended (outcome : Outcome Error Fault Unit)
deriving DecidableEq, Repr

structure Locals where
  set : FdSet
  maxsock : Int
  cpset : FdSet
deriving DecidableEq, Repr

structure Config where
  world : Guarded Server
  locals : Locals
  phase : Phase
  trace : List Event

/-- What each step is told, of which it takes what it needs. -/
structure Answer where
  selected : Selected
  accept : Accept
  behaviour : Behaviour
deriving DecidableEq, Repr

namespace Config

variable (config : Config)

def goto (phase : Phase) : Config := { config with phase := phase }

def record (events : List Event) : Config := { config with trace := config.trace ++ events }

def callback (source : Source) (behaviour : Behaviour) (next : Phase) : Config :=
  match runOps behaviour.ops config.world with
  | (events, .returned (), world) =>
      let called := { config with world := world }.record (.called source :: events)
      match behaviour.result with
      | none => called.goto (.ended (.threw .callback))
      | some result =>
          (called.record [.callbackReturned result]).goto
            (if result = .poolContinue then next else .check result)
  | (events, outcome, world) =>
      ({ config with world := world }.record (.called source :: events)).goto (.ended outcome)

def ifIsset (fd : Int) (yes : Config) (no : Phase) : Config :=
  match fdIsset fd config.locals.cpset with
  | none => config.goto (.ended (.undefined .outOfRange))
  | some true => yes
  | some false => config.goto no

/-- `_select(maxsock, &cpset, pool_timeout)` on a copy of `set`. -/
def select (selected : Selected) : Config :=
  let set := config.locals.set
  let nfds := config.locals.maxsock + 1
  match selected with
  | .interrupted => config.record [.selected nfds set none]
  | .failed => (config.record [.selected nfds set none]).goto (.ended (.threw .selectErr))
  | .ready fds =>
      let ready := selectResult nfds set fds
      let done := config.record [.selected nfds set (some ready)]
      if ready = [] then done.goto (.ended (.threw .timeout))
      else { done with locals := { config.locals with cpset := ready } }.goto (.monitored 0)

end Config

def Loop.monitoredFds (loop : Loop) : List Int := if loop.monfds then loop.fds else []

/-- What is put in the set besides the descriptors of the clients. -/
def Loop.otherFds (loop : Loop) (server : Server) : List Int :=
  (if loop.newcli then [server.fd] else []) ++ loop.monitoredFds

def Loop.rescan (loop : Loop) (config : Config) : Config :=
  match config.world.state.retainedClients.fillFdset with
  | none => config.goto (.ended (.undefined .outOfRange))
  | some (maxsock, set) =>
      match fillFdset (loop.otherFds config.world.state) maxsock set with
      | none => config.goto (.ended (.undefined .outOfRange))
      | some (maxsock, set) =>
          let locals := { config.locals with set := set, maxsock := maxsock }
          ({ config with locals := locals }.record [.scanned]).goto .select

def Loop.step (loop : Loop) (config : Config) (answer : Answer) : Config :=
  match config.phase with
  | .rescan => loop.rescan config
  | .select => config.select answer.selected
  | .monitored index =>
      match loop.monitoredFds[index]? with
      | none => config.goto .newClient
      | some fd =>
          config.ifIsset fd
            (config.callback (.monitored index) answer.behaviour (.monitored (index + 1)))
            (.monitored (index + 1))
  | .newClient =>
      if loop.newcli then
        config.ifIsset config.world.state.fd (config.goto .accept) .begin
      else config.goto .begin
  | .accept =>
      match waitNewClient answer.accept config.world with
      | (.returned _, world) =>
          { config with world := world }.callback .newClient answer.behaviour .begin
      | (outcome, world) => { config with world := world }.goto (.ended outcome.void)
  | .begin => config.goto (.clients config.world.state.retainedClients.begin)
  | .clients none => config.goto (.check .poolContinue)
  | .clients (some it) =>
      match config.world.state.retainedClients.find it with
      | none => config.goto (.ended (.undefined .erased))
      | some entry =>
          config.ifIsset entry.client.fd
            (config.callback (.client it) answer.behaviour (.advance it)) (.advance it)
  | .advance it =>
      match config.world.state.retainedClients.next it with
      | none => config.goto (.ended (.undefined .erased))
      | some next => config.goto (.clients next)
  | .check .poolRescan => config.goto .rescan
  | .check .poolQuit => config.goto (.ended (.returned ()))
  | .check .poolContinue => config.goto .select
  | .ended _ => config

def Loop.start (loop : Loop) (world : Guarded Server) : Config :=
  { world := world
    locals := ⟨[], 0, []⟩
    phase :=
      if loop.newcli ∧ world.state.listening = false then .ended (.threw .badState) else .rescan
    trace := [] }

def Loop.run (loop : Loop) (world : Guarded Server) (answers : List Answer) : Config :=
  answers.foldl loop.step (loop.start world)

end Socketxx.ServerPool
