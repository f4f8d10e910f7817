import Socketxx.Library.Runs

/-!
Starting and stopping a `socket_server`, over the descriptor it owns and, for UNIX
servers, the socket file at the path of its address.

What the system would answer on a fresh socket is given for each start. A descriptor
that is closed answers `EBADF`, one that is bound answers `EINVAL` to a second `bind`,
and a path that exists answers `EADDRINUSE`.
-/

set_option autoImplicit false

namespace Socketxx.SocketServer

open Runs

inductive SocketKind where
  | net
  | unix
deriving DecidableEq, Repr

inductive Descriptor where
  | invalid
  | fresh
  | bound
  | listening
deriving DecidableEq, Repr

/-- Who made the socket file: this object or someone else. -/
inductive Owner where
  | self
  | other
deriving DecidableEq, Repr

/-- Whether the system grants `bind` and `listen` on a fresh socket, the path apart. -/
structure Answers where
  bind : Bool
  listen : Bool
deriving DecidableEq, Repr

structure Server where
  kind : SocketKind
  fd : Descriptor
  listening : Bool
  /-- `autodel_path` is set; the path is always that of `listen_addr`. -/
  autodelPath : Bool
deriving DecidableEq, Repr

/-- The server and whose file is at its path. `unlinks` is what each `unlink` has found there. -/
structure World where
  server : Server
  file : Option Owner
  unlinks : List (Option Owner)
deriving DecidableEq, Repr

inductive Outcome where
  | returned
  | badState
  | otherError
  | bindErr
  | listenErr
deriving DecidableEq, Repr

def World.constructed (kind : SocketKind) (file : Option Owner) : World :=
  { server :=
      { kind := kind
        fd := .fresh
        listening := false
        autodelPath := false }
    file := file
    unlinks := [] }

def World.setFd (world : World) (fd : Descriptor) : World :=
  { world with server := { world.server with fd := fd } }

def World.setListening (world : World) (listening : Bool) : World :=
  { world with server := { world.server with listening := listening } }

def World.setAutodelPath (world : World) (autodelPath : Bool) : World :=
  { world with server := { world.server with autodelPath := autodelPath } }

def World.fdClose (world : World) : World := world.setFd .invalid

def World.unlink (world : World) : World :=
  { world with
    file := none
    unlinks := world.unlinks ++ [world.file] }

/-! ### `base_unixsock` -/

def World.autodelSockFile (world : World) : World := world.setAutodelPath true

def World.delSockFile (world : World) : World :=
  if world.server.autodelPath then (world.fdClose.unlink).setAutodelPath false else world

/-- `_addrt::use` for a server. -/
def World.use (world : World) : World :=
  match world.server.kind with
  | .net => world
  | .unix => world.autodelSockFile

def World.unuse (world : World) : World :=
  match world.server.kind with
  | .net => world
  | .unix => world.delSockFile

def World.destroy (world : World) : World :=
  match world.server.kind with
  | .net => world.fdClose
  | .unix =>
      if world.server.autodelPath then world.fdClose.unlink else world.fdClose

/-! ### `socket_server` -/

/-- `bind` would succeed on a fresh socket. -/
def World.bindsFresh (world : World) (answers : Answers) : Bool :=
  answers.bind && (world.server.kind == .net || world.file == none)

def World.bindDone (world : World) : World :=
  match world.server.kind with
  | .net => world.setFd .bound
  | .unix => { world.setFd .bound with file := some .self }

def World.bind (world : World) (answers : Answers) : Bool × World :=
  if world.server.fd = .fresh ∧ world.bindsFresh answers then (true, world.bindDone)
  else (false, world)

def World.listen (world : World) (answers : Answers) : Bool × World :=
  if world.server.fd = .bound ∧ answers.listen then (true, world.setFd .listening)
  else (false, world)

def World.serverLaunch (world : World) (reuse : Bool) (answers : Answers) :
    Outcome × World :=
  if reuse ∧ world.server.fd = .invalid then (.otherError, world)
  else
    let (bound, world) := world.bind answers
    if !bound then (.bindErr, world)
    else
      let (listens, world) := world.listen answers
      if !listens then (.listenErr, world) else (.returned, world)

def World.listeningStart (world : World) (reuse : Bool) (answers : Answers) :
    Outcome × World :=
  if world.server.listening then (.badState, world)
  else
    let (outcome, world) := world.use.serverLaunch reuse answers
    if outcome = .returned then (.returned, world.setListening true) else (outcome, world)

def World.listeningStop (world : World) : Outcome × World :=
  if !world.server.listening then (.badState, world)
  else (.returned, (world.unuse.fdClose).setListening false)

/-- The constructor that starts listening. When the start throws, the object is
destroyed on the way out. -/
def World.constructStarted (kind : SocketKind) (file : Option Owner) (reuse : Bool)
    (answers : Answers) : Outcome × World :=
  let (outcome, world) := (World.constructed kind file).listeningStart reuse answers
  if outcome = .returned then (outcome, world) else (outcome, world.destroy)

/-- A call on the server, or someone else who leaves a file at the path or removes it. -/
inductive Op where
  | start (reuse : Bool) (answers : Answers)
  | stop
  | others (present : Bool)
deriving DecidableEq, Repr

def World.step (world : World) : Op → World
  | .start reuse answers => (world.listeningStart reuse answers).2
  | .stop => world.listeningStop.2
  | .others present => { world with file := if present then some .other else none }

/-! ### What the calls can do -/

section

variable (world : World)

@[simp] theorem World.use_kind : world.use.server.kind = world.server.kind := by
  unfold use
  split <;> rfl

@[simp] theorem World.use_fd : world.use.server.fd = world.server.fd := by
  unfold use
  split <;> rfl

@[simp] theorem World.use_listening : world.use.server.listening = world.server.listening := by
  unfold use
  split <;> rfl

@[simp] theorem World.use_file : world.use.file = world.file := by
  unfold use
  split <;> rfl

@[simp] theorem World.use_unlinks : world.use.unlinks = world.unlinks := by
  unfold use
  split <;> rfl

@[simp] theorem World.use_bindsFresh (answers : Answers) :
    world.use.bindsFresh answers = world.bindsFresh answers := by
  unfold use
  split <;> rfl

@[simp] theorem World.bindDone_fd : world.bindDone.server.fd = .bound := by
  unfold bindDone
  split <;> rfl

/-- A start on an idle server: it gets through, or fails in `listen`, or fails before the
descriptor is bound. -/
theorem World.listeningStart_cases (reuse : Bool) (answers : Answers)
    (idle : world.server.listening = false) :
    (world.server.fd = .fresh ∧ world.bindsFresh answers = true ∧ answers.listen = true ∧
      world.listeningStart reuse answers =
        (.returned, (world.use.bindDone.setFd .listening).setListening true)) ∨
    (world.server.fd = .fresh ∧ world.bindsFresh answers = true ∧ answers.listen = false ∧
      world.listeningStart reuse answers = (.listenErr, world.use.bindDone)) ∨
    (¬ (world.server.fd = .fresh ∧ world.bindsFresh answers = true) ∧
      ∃ outcome, outcome ≠ .returned ∧
        world.listeningStart reuse answers = (outcome, world.use)) := by
  rw [listeningStart, if_neg (by rw [idle]; exact Bool.false_ne_true), serverLaunch]
  by_cases binds : world.server.fd = .fresh ∧ world.bindsFresh answers = true
  · have valid : ¬ (reuse = true ∧ world.server.fd = .invalid) := by
      rw [binds.1]
      intro fresh
      obtain ⟨_, impossible⟩ := fresh
      cases impossible
    simp only [use_fd, bind, use_bindsFresh, listen, if_neg valid, if_pos binds, bindDone_fd]
    cases listens : answers.listen with
    | true => exact Or.inl ⟨binds.1, binds.2, rfl, rfl⟩
    | false => exact Or.inr (Or.inl ⟨binds.1, binds.2, rfl, rfl⟩)
  · refine Or.inr (Or.inr ⟨binds, ?_⟩)
    simp only [use_fd, bind, use_bindsFresh, if_neg binds]
    by_cases refused : reuse = true ∧ world.server.fd = .invalid
    · rw [if_pos refused]
      exact ⟨.otherError, by decide, rfl⟩
    · rw [if_neg refused]
      exact ⟨.bindErr, by decide, rfl⟩

private theorem World.listeningStart_busy (reuse : Bool) (answers : Answers)
    (busy : world.server.listening = true) :
    world.listeningStart reuse answers = (.badState, world) := by
  rw [listeningStart, if_pos busy]

private theorem World.listeningStop_idle (idle : world.server.listening = false) :
    world.listeningStop = (.badState, world) := by
  rw [listeningStop, idle]
  rfl

private theorem World.listeningStop_busy (busy : world.server.listening = true) :
    world.listeningStop = (.returned, (world.unuse.fdClose).setListening false) := by
  rw [listeningStop, busy]
  rfl

inductive World.Moves : Op → World → Prop where
  | launched (reuse : Bool) (answers : Answers) (idle : world.server.listening = false)
      (fresh : world.server.fd = .fresh) (binds : world.bindsFresh answers = true) :
      Moves (.start reuse answers)
        ((world.use.bindDone.setFd .listening).setListening true)
  | listenFailed (reuse : Bool) (answers : Answers) (idle : world.server.listening = false)
      (fresh : world.server.fd = .fresh) (binds : world.bindsFresh answers = true) :
      Moves (.start reuse answers) world.use.bindDone
  | refused (reuse : Bool) (answers : Answers) (idle : world.server.listening = false)
      (missed : ¬ (world.server.fd = .fresh ∧ world.bindsFresh answers = true)) :
      Moves (.start reuse answers) world.use
  | badStart (reuse : Bool) (answers : Answers) (busy : world.server.listening = true) :
      Moves (.start reuse answers) world
  | stopped (busy : world.server.listening = true) :
      Moves .stop ((world.unuse.fdClose).setListening false)
  | badStop (idle : world.server.listening = false) : Moves .stop world
  | others (present : Bool) :
      Moves (.others present) { world with file := if present then some .other else none }

theorem World.step_moves (op : Op) : world.Moves op (world.step op) := by
  cases op with
  | start reuse answers =>
      rw [step]
      cases busy : world.server.listening with
      | true =>
          rw [world.listeningStart_busy reuse answers busy]
          exact Moves.badStart reuse answers busy
      | false =>
          rcases world.listeningStart_cases reuse answers busy with
            ⟨fresh, binds, _, started⟩ | ⟨fresh, binds, _, failed⟩ | ⟨missed, _, _, ended⟩
          · rw [started]
            exact Moves.launched reuse answers busy fresh binds
          · rw [failed]
            exact Moves.listenFailed reuse answers busy fresh binds
          · rw [ended]
            exact Moves.refused reuse answers busy missed
  | stop =>
      rw [step]
      cases busy : world.server.listening with
      | true =>
          rw [world.listeningStop_busy busy]
          exact Moves.stopped busy
      | false =>
          rw [world.listeningStop_idle busy]
          exact Moves.badStop busy
  | others present => exact Moves.others present

end

/-! ### A stopped server can be restarted -/

/-- The start succeeds and leaves an open, bound, listening descriptor. -/
def World.Restarts (world : World) (reuse : Bool) (answers : Answers) : Prop :=
  (world.listeningStart reuse answers).1 = .returned ∧
    (world.listeningStart reuse answers).2.server.listening = true ∧
    (world.listeningStart reuse answers).2.server.fd = .listening

instance (world : World) (reuse : Bool) (answers : Answers) :
    Decidable (world.Restarts reuse answers) :=
  inferInstanceAs (Decidable (_ ∧ _ ∧ _))

/-- The call is a start, made where a fresh socket could be bound. -/
def World.Binds (world : World) : Op → Prop
  | .start _ answers => world.bindsFresh answers = true
  | .stop => False
  | .others _ => False

structure World.Unbound (world : World) : Prop where
  idle : world.server.listening = false
  fresh : world.server.fd = .fresh

private theorem World.restarts_iff_fresh (world : World) (reuse : Bool) {answers : Answers}
    (idle : world.server.listening = false) (binds : world.bindsFresh answers = true)
    (listens : answers.listen = true) :
    world.Restarts reuse answers ↔ world.server.fd = .fresh := by
  rcases world.listeningStart_cases reuse answers idle with
    ⟨fresh, _, _, started⟩ | ⟨_, _, refused, _⟩ | ⟨spent, outcome, failed, ended⟩
  · rw [Restarts, started]
    exact iff_of_true ⟨rfl, rfl, rfl⟩ fresh
  · rw [listens] at refused
    cases refused
  · refine iff_of_false ?_ (fun fresh => spent ⟨fresh, binds⟩)
    intro fresh
    obtain ⟨returned, _⟩ := fresh
    rw [ended] at returned
    exact failed returned

private theorem World.Unbound.step {world : World} (unbound : world.Unbound) (op : Op)
    (misses : ¬ world.Binds op) : (world.step op).Unbound := by
  have moves := world.step_moves op
  generalize world.step op = after at moves ⊢
  cases moves with
  | launched reuse answers idle fresh binds => exact absurd binds misses
  | listenFailed reuse answers idle fresh binds => exact absurd binds misses
  | refused reuse answers idle missed =>
      exact ⟨world.use_listening.trans idle, world.use_fd.trans unbound.fresh⟩
  | badStart reuse answers busy => exact unbound
  | stopped busy => exact absurd (unbound.idle.symm.trans busy) Bool.false_ne_true
  | badStop idle => exact unbound
  | others present => exact ⟨unbound.idle, unbound.fresh⟩

private theorem World.Unbound.spent {world : World} (unbound : world.Unbound) (op : Op)
    (binds : ¬ ¬ world.Binds op) : (world.step op).server.fd ≠ .fresh := by
  have binds := not_not.mp binds
  have moves := world.step_moves op
  generalize world.step op = after at moves ⊢
  cases moves with
  | launched reuse answers idle fresh _ => exact fun impossible => nomatch impossible
  | listenFailed reuse answers idle fresh _ =>
      rw [World.bindDone_fd]
      decide
  | refused reuse answers idle missed => exact absurd ⟨unbound.fresh, binds⟩ missed
  | badStart reuse answers busy =>
      exact absurd (unbound.idle.symm.trans busy) Bool.false_ne_true
  | stopped busy => exact absurd binds id
  | badStop idle => exact absurd binds id
  | others present => exact absurd binds id

private theorem World.step_fd_ne_fresh (world : World) (op : Op)
    (spent : world.server.fd ≠ .fresh) :
    (world.step op).server.fd ≠ .fresh := by
  have moves := world.step_moves op
  generalize world.step op = after at moves ⊢
  cases moves with
  | launched reuse answers idle fresh binds => exact absurd fresh spent
  | listenFailed reuse answers idle fresh binds => exact absurd fresh spent
  | refused reuse answers idle missed =>
      rw [use_fd]
      exact spent
  | badStart reuse answers busy => exact spent
  | stopped busy => exact fun impossible => nomatch impossible
  | badStop idle => exact spent
  | others present => exact spent

/-- A server that is not listening starts, where a fresh socket could, if and only if none
of its starts so far could have bound a fresh socket: neither after a stop, nor after a
start that failed in `listen`. -/
theorem restarts_iff (kind : SocketKind) (file : Option Owner) (ops : List Op) (reuse : Bool)
    (answers : Answers)
    (idle : (ops.foldl World.step (World.constructed kind file)).server.listening = false)
    (binds : (ops.foldl World.step (World.constructed kind file)).bindsFresh answers = true)
    (listens : answers.listen = true) :
    (ops.foldl World.step (World.constructed kind file)).Restarts reuse answers ↔
      EveryStep World.step (fun world op => ¬ world.Binds op)
        (World.constructed kind file) ops := by
  have start : (World.constructed kind file).Unbound := ⟨rfl, rfl⟩
  rw [World.restarts_iff_fresh _ reuse idle binds listens]
  rcases @everyStep_or World Op World.step World.Unbound
    (fun world => world.server.fd ≠ .fresh) (fun world op => ¬ world.Binds op)
    (fun _ op unbound misses => unbound.step op misses)
    (fun _ op unbound binds => unbound.spent op binds) World.step_fd_ne_fresh _ start ops
    with ⟨every, ends⟩ | ⟨other, ends⟩
  · exact iff_of_true ends.fresh every
  · exact iff_of_false ends other

theorem restarts_after_refusal :
    (World.constructed .net none).Binds (.start true ⟨true, true⟩) ∧
    (([.start true ⟨false, true⟩].foldl World.step (World.constructed .net none)).Restarts
        true ⟨true, true⟩ ↔
      EveryStep World.step (fun world op => ¬ world.Binds op) (World.constructed .net none)
        [.start true ⟨false, true⟩]) :=
  ⟨rfl, restarts_iff .net none [.start true ⟨false, true⟩] true ⟨true, true⟩ rfl rfl rfl⟩

theorem stopped_not_restarts :
    (([.start true ⟨true, true⟩, .stop].foldl World.step
        (World.constructed .net none)).server.listening = false ∧
      ([.start true ⟨true, true⟩, .stop].foldl World.step
        (World.constructed .net none)).bindsFresh ⟨true, true⟩ = true ∧
      ¬ ([.start true ⟨true, true⟩, .stop].foldl World.step
        (World.constructed .net none)).Restarts false ⟨true, true⟩) ∧
    (([.start false ⟨true, true⟩, .stop].foldl World.step
        (World.constructed .unix none)).server.listening = false ∧
      ([.start false ⟨true, true⟩, .stop].foldl World.step
        (World.constructed .unix none)).bindsFresh ⟨true, true⟩ = true ∧
      ¬ ([.start false ⟨true, true⟩, .stop].foldl World.step
        (World.constructed .unix none)).Restarts false ⟨true, true⟩) := by
  decide

/-! ### Only a socket file of one's own is unlinked -/

/-- No `unlink` has found the file of someone else. -/
def World.Own (world : World) : Prop := ∀ found ∈ world.unlinks, found ≠ some .other

instance (world : World) : Decidable world.Own :=
  inferInstanceAs (Decidable (∀ found ∈ world.unlinks, found ≠ some .other))

/-- A start that finds the server idle finds no file of someone else at the path, and no one
leaves one there while the path is recorded. -/
def World.PathKept (world : World) : Op → Prop
  | .start _ _ => world.server.listening = false → world.file ≠ some .other
  | .stop => True
  | .others present => world.server.autodelPath = true → present = false

instance (world : World) (op : Op) : Decidable (world.PathKept op) :=
  match op with
  | .start _ _ => inferInstanceAs (Decidable (_ → _))
  | .stop => inferInstanceAs (Decidable True)
  | .others _ => inferInstanceAs (Decidable (_ → _))

/-- A path that will be unlinked is not that of a file of someone else. -/
structure World.PathOwned (world : World) : Prop where
  kind : world.server.kind = .unix
  own : world.Own
  path : world.server.autodelPath = true → world.file ≠ some .other

@[simp] theorem World.use_path (world : World) (unix : world.server.kind = .unix) :
    world.use.server.autodelPath = true := by
  rw [use, unix]
  rfl

private theorem World.bindDone_unix (world : World) (unix : world.server.kind = .unix) :
    world.bindDone = { world.setFd .bound with file := some .self } := by
  rw [bindDone, unix]

theorem World.destroy_unix (world : World) (unix : world.server.kind = .unix) :
    world.destroy =
      if world.server.autodelPath then world.fdClose.unlink else world.fdClose := by
  rw [destroy, unix]

theorem World.unlink_own (world : World) :
    world.unlink.Own ↔ world.Own ∧ world.file ≠ some .other := by
  rw [Own, unlink, Own, List.forall_mem_append, List.forall_mem_singleton]

private theorem World.PathOwned.destroy {world : World} (owned : world.PathOwned) :
    world.destroy.Own := by
  rw [world.destroy_unix owned.kind]
  cases path : world.server.autodelPath with
  | true => exact world.fdClose.unlink_own.mpr ⟨owned.own, owned.path path⟩
  | false => exact owned.own

theorem World.not_own_destroy {world : World} (unix : world.server.kind = .unix)
    (path : world.server.autodelPath = true) (foreign : world.file = some .other) :
    ¬ world.destroy.Own := by
  rw [world.destroy_unix unix, if_pos path, World.unlink_own]
  exact fun own => own.2 foreign

theorem World.PathOwned.bindDone {world : World} (owned : world.PathOwned) :
    world.use.bindDone.PathOwned := by
  have unix := world.use_kind.trans owned.kind
  rw [world.use.bindDone_unix unix]
  refine ⟨unix, ?_, fun _ => nofun⟩
  rw [Own, setFd, World.use_unlinks]
  exact owned.own

private theorem World.PathOwned.unuse {world : World} (owned : world.PathOwned) :
    world.unuse.PathOwned := by
  rw [World.unuse, owned.kind]
  simp only [delSockFile]
  cases path : world.server.autodelPath with
  | true =>
      refine ⟨owned.kind, ?_, fun impossible => nomatch impossible⟩
      exact world.fdClose.unlink_own.mpr ⟨owned.own, owned.path path⟩
  | false => exact owned

theorem World.PathOwned.use {world : World} (owned : world.PathOwned)
    (free : world.file ≠ some .other) : world.use.PathOwned := by
  refine ⟨world.use_kind.trans owned.kind, ?_, ?_⟩
  · rw [Own, World.use_unlinks]
    exact owned.own
  · intro _recorded
    rw [World.use_file]
    exact free

theorem World.bindsFresh_file {world : World} {answers : Answers}
    (unix : world.server.kind = .unix) (binds : world.bindsFresh answers = true) :
    world.file = none := by
  rw [bindsFresh, unix, Bool.and_eq_true] at binds
  exact eq_of_beq binds.2

private theorem World.PathOwned.step {world : World} (owned : world.PathOwned) (op : Op)
    (kept : world.PathKept op) : (world.step op).PathOwned := by
  have moves := world.step_moves op
  generalize world.step op = after at moves ⊢
  cases moves with
  | launched reuse answers idle fresh binds =>
      have bound := owned.bindDone
      exact ⟨bound.kind, bound.own, bound.path⟩
  | listenFailed reuse answers idle fresh binds => exact owned.bindDone
  | refused reuse answers idle missed => exact owned.use (kept idle)
  | badStart reuse answers busy => exact owned
  | stopped busy =>
      have unused := owned.unuse
      exact ⟨unused.kind, unused.own, unused.path⟩
  | badStop idle => exact owned
  | others present =>
      refine ⟨owned.kind, owned.own, fun path => ?_⟩
      have absent := kept path
      subst absent
      exact nofun

private theorem World.PathOwned.broken {world : World} (owned : world.PathOwned) (op : Op)
    (misses : ¬ world.PathKept op) : ¬ (world.step op).destroy.Own := by
  have moves := world.step_moves op
  generalize world.step op = after at moves ⊢
  cases moves with
  | launched reuse answers idle fresh binds =>
      refine absurd (fun _ foreign => ?_) misses
      rw [World.bindsFresh_file owned.kind binds] at foreign
      cases foreign
  | listenFailed reuse answers idle fresh binds =>
      refine absurd (fun _ foreign => ?_) misses
      rw [World.bindsFresh_file owned.kind binds] at foreign
      cases foreign
  | refused reuse answers idle missed =>
      have foreign : world.file = some .other := by
        by_contra free
        exact misses (fun _ => free)
      exact World.not_own_destroy (world.use_kind.trans owned.kind) (world.use_path owned.kind)
        (world.use_file.trans foreign)
  | badStart reuse answers busy =>
      refine absurd (fun idle => ?_) misses
      exact absurd (idle.symm.trans busy) Bool.false_ne_true
  | stopped busy => exact absurd trivial misses
  | badStop idle => exact absurd trivial misses
  | others present =>
      have both : world.server.autodelPath = true ∧ present = true := by
        by_contra not
        refine misses (fun path => ?_)
        exact (Bool.not_eq_true _).mp (fun there => not ⟨path, there⟩)
      obtain ⟨path, there⟩ := both
      subst there
      exact World.not_own_destroy owned.kind path rfl

private theorem constructed_pathOwned (file : Option Owner) :
    (World.constructed .unix file).PathOwned := by
  refine ⟨rfl, ?_, fun impossible => nomatch impossible⟩
  intro found member
  cases member

/-- Whenever the object is destroyed, it has never unlinked the file of someone else, if and only
if no start that finds it idle finds such a file at the path, and no one leaves one there while
the path is recorded; and the constructor that starts listening unlinks no such file, thrown or
not, if and only if there is none. -/
theorem unlinks_own_iff (file : Option Owner) (ops : List Op) :
    (EveryState World.step (fun world => world.destroy.Own) (World.constructed .unix file)
        ops ↔
      EveryStep World.step World.PathKept (World.constructed .unix file) ops) ∧
    ∀ reuse answers,
      (World.constructStarted .unix file reuse answers).2.Own ↔ file ≠ some .other := by
  constructor
  · exact @everyState_iff_everyStep World Op World.step World.PathOwned
      (fun world => world.destroy.Own) World.PathKept (fun _ owned => owned.destroy)
      (fun _ op owned kept => owned.step op kept)
      (fun _ op owned misses => owned.broken op misses) _ (constructed_pathOwned file) ops
  · intro reuse answers
    have owned := constructed_pathOwned file
    unfold World.constructStarted
    rcases (World.constructed .unix file).listeningStart_cases reuse answers rfl with
      ⟨_, binds, _, started⟩ | ⟨_, binds, _, failed⟩ | ⟨missed, outcome, other, ended⟩
    · have free : file = none := World.bindsFresh_file rfl binds
      rw [started]
      exact iff_of_true owned.bindDone.own (by rw [free]; exact nofun)
    · have free : file = none := World.bindsFresh_file rfl binds
      rw [failed]
      exact iff_of_true owned.bindDone.destroy (by rw [free]; exact nofun)
    · rw [ended]
      simp only [if_neg other]
      constructor
      · intro own foreign
        exact World.not_own_destroy rfl rfl foreign own
      · exact fun free => (owned.use free).destroy

/-- The file of another server is gone after a constructor that threw, and after the
destruction of a server whose own file another one has replaced. -/
theorem constructStarted_unlinks_other :
    (World.constructStarted .unix (some .other) false ⟨true, true⟩).1 = .bindErr ∧
      ¬ (World.constructStarted .unix (some .other) false ⟨true, true⟩).2.Own ∧
      (World.constructStarted .unix (some .other) false ⟨true, true⟩).2.file = none ∧
      ¬ EveryState World.step (fun world => world.destroy.Own)
        (World.constructed .unix (some .other)) [.start false ⟨true, true⟩] ∧
      ¬ EveryState World.step (fun world => world.destroy.Own)
        (World.constructed .unix none) [.start false ⟨true, true⟩, .others true] := by
  refine ⟨rfl, by decide, rfl, ?_, ?_⟩
  · intro every
    have last := every.final
    revert last
    decide
  · intro every
    have last := every.final
    revert last
    decide

end Socketxx.SocketServer
