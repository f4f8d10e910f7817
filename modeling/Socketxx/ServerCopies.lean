import Socketxx.BaseFd
import Socketxx.SocketServer

/-!
A listening `socket_server` whose socket is copied into other objects. The process
opens descriptors of its own meanwhile, and may get the number of the server's once
that is closed.

`listening_stop` closes the descriptor through the server object, whatever the
counter says; only that object learns of it.
-/

set_option autoImplicit false

namespace Socketxx.ServerCopies

open Runs
open BaseFd
open SocketServer (SocketKind)

/-- What the number of the server's descriptor refers to. -/
inductive Holder where
  | server
  | nobody
  | unrelated
deriving DecidableEq, Repr

/-- The server is the first of its family for as long as `serverAlive`. A system call
is recorded with what it reached. -/
structure World where
  kind : SocketKind
  family : Family
  serverAlive : Bool
  listening : Bool
  holder : Holder
  calls : List (SysCall × Holder)

/-- A server that has just been started. -/
def World.started (kind : SocketKind) (number : Nat) : World :=
  { kind := kind
    family := Family.construct
      (match kind with
        | .net => .baseNetsock
        | .unix => .baseUnixsock) number true
    serverAlive := true
    listening := true
    holder := .server
    calls := [] }

def World.call (world : World) (call : SysCall) : World :=
  { world with
    calls := world.calls ++ [(call, world.holder)]
    holder :=
      match call with
      | .shutdown _ => world.holder
      | .close _ => .nobody }

/-- What `listening_stop` does to the server object: `unuse`, which for a UNIX server is
`del_sock_file`, and `fd_close`. -/
def stopServer (kind : SocketKind) (shd : ShrdData) (server : Object) :
    List SysCall × Object :=
  match kind with
  | .net => server.socketFdClose shd
  | .unix =>
      let unuse := server.socketFdClose shd
      let close := unuse.2.socketFdClose shd
      (unuse.1 ++ close.1, close.2)

def World.listeningStop (world : World) : World :=
  if !(world.serverAlive && world.listening) then world
  else
    match world.family.objects with
    | [] => world
    | server :: others =>
        let stopped := stopServer world.kind world.family.shd server
        stopped.1.foldl World.call
          { world with
            family := { world.family with objects := stopped.2 :: others }
            listening := false }

inductive Op where
  | listeningStop
  | opened
  | object (op : BaseFd.Op)
deriving DecidableEq, Repr

def World.operate (world : World) (op : BaseFd.Op) : World :=
  (world.family.apply op).1.foldl World.call
    { world with
      family := (world.family.apply op).2
      serverAlive := world.serverAlive && !(op == .destroy 0) }

def World.step (world : World) : Op → World
  | .listeningStop => world.listeningStop
  | .opened =>
      { world with
        holder := if world.holder = .nobody then .unrelated else world.holder }
  | .object op => world.operate op

/-- `close` and `shutdown` are called at most once each, and reach the server's own
descriptor. -/
structure World.Once (world : World) : Prop where
  close : (world.calls.filter (fun call => call.1 matches .close _)).length ≤ 1
  shutdown : (world.calls.filter (fun call => call.1 matches .shutdown _)).length ≤ 1
  own : ∀ call ∈ world.calls, call.2 = .server

instance (world : World) : Decidable world.Once :=
  decidable_of_iff (_ ∧ _ ∧ _)
    ⟨fun all => ⟨all.1, all.2.1, all.2.2⟩, fun once => ⟨once.close, once.shutdown, once.own⟩⟩

/-- The step does not destroy, as the last one and after a stop, an object that still
has the number. -/
def World.Spares (world : World) : Op → Prop
  | .listeningStop => True
  | .opened => True
  | .object (.copy _ _ _) => True
  | .object (.setPreserved _) => True
  | .object (.destroy index) =>
      world.listening = false → index = 0 →
        ∀ object, world.family.objects = [object] → object.fd = invalidHandle

/-! ### The calls of a step -/

@[simp] theorem World.call_calls (world : World) (call : SysCall) :
    (world.call call).calls = world.calls ++ [(call, world.holder)] := rfl

theorem foldl_call_family (calls : List SysCall) (world : World) :
    (calls.foldl World.call world).family = world.family := by
  induction calls generalizing world with
  | nil => rfl
  | cons call later ih => exact ih (world.call call)

private theorem foldl_call_listening (calls : List SysCall) (world : World) :
    (calls.foldl World.call world).listening = world.listening := by
  induction calls generalizing world with
  | nil => rfl
  | cons call later ih => exact ih (world.call call)

def World.closes (world : World) : Nat :=
  (world.calls.filter (fun call => call.1 matches .close _)).length

private theorem foldl_call_closes (calls : List SysCall) (world : World) :
    (calls.foldl World.call world).closes =
      world.closes + (calls.filter (fun call => call matches .close _)).length := by
  induction calls generalizing world with
  | nil => rfl
  | cons call later ih =>
      rw [List.foldl_cons, ih, World.closes, World.call_calls, List.filter_append,
        List.length_append, World.closes]
      cases call with
      | shutdown fd => rfl
      | close fd =>
          simp only [List.filter_cons, List.filter_nil, if_true, List.length_cons,
            List.length_nil]
          omega

inductive Release (number : Nat) : List SysCall → Prop where
  | kept : Release number [.close number]
  | cut : Release number [.shutdown number, .close number]

private theorem Release.closes {number : Nat} {calls : List SysCall}
    (release : Release number calls) :
    (calls.filter (fun call => call matches .close _)).length = 1 := by
  cases release <;> rfl

private theorem socketFdClose_release (shd : ShrdData) (object : Object) {number : Nat}
    (automatic : shd.autoclose = true) (fd : object.fd = number) :
    Release number (object.socketFdClose shd).1 ∧
      (object.socketFdClose shd).2.fd = invalidHandle := by
  have valid : object.fd ≠ invalidHandle := by
    rw [fd, invalidHandle]
    omega
  rw [Object.socketFdClose, if_pos ⟨automatic, valid⟩, fd]
  refine ⟨?_, rfl⟩
  cases shd.preserveFd with
  | false => exact Release.cut
  | true => exact Release.kept

private theorem socketFdClose_invalid (shd : ShrdData) (object : Object)
    (invalid : object.fd = invalidHandle) : object.socketFdClose shd = ([], object) := by
  rw [Object.socketFdClose, if_neg (fun both => both.2 invalid)]

theorem released_release (shd : ShrdData) (object : Object) {number : Nat}
    (automatic : shd.autoclose = true) (fd : object.fd = number) :
    Release number (released shd object) := by
  rw [released, automatic, fd]
  cases object.cls.isSocket && !shd.preserveFd with
  | false => exact Release.kept
  | true => exact Release.cut

private theorem Release.foldl_calls {number : Nat} {calls : List SysCall}
    (release : Release number calls) (world : World) (held : world.holder = .server) :
    (calls.foldl World.call world).calls =
      world.calls ++ calls.map (fun call => (call, Holder.server)) := by
  cases release with
  | kept => simp only [List.foldl_cons, List.foldl_nil, World.call_calls, held, List.map_cons,
      List.map_nil]
  | cut =>
      have still : (world.call (.shutdown number)).holder = .server := held
      simp only [List.foldl_cons, List.foldl_nil, World.call_calls, held, still, List.map_cons,
        List.map_nil, List.append_assoc, List.cons_append, List.nil_append]

private theorem Release.once {number : Nat} {calls : List SysCall} (release : Release number calls)
    {world : World} (held : world.holder = .server) (quiet : world.calls = []) :
    (calls.foldl World.call world).Once ∧ (calls.foldl World.call world).closes = 1 := by
  have made := release.foldl_calls world held
  rw [quiet, List.nil_append] at made
  constructor
  · constructor
    case close =>
      rw [made]
      cases release <;> simp
    case shutdown =>
      rw [made]
      cases release <;> simp
    case own =>
      rw [made]
      intro call member
      obtain ⟨_, _, rfl⟩ := List.mem_map.mp member
      rfl
  · rw [World.closes, made]
    cases release <;> rfl

/-! ### Before and after the descriptor is closed -/

structure World.Open (world : World) (number : Nat) : Prop where
  listening : world.listening = true
  some : world.family.objects ≠ []
  fd : ∀ object ∈ world.family.objects, object.fd = (number : Int)
  held : world.holder = .server
  quiet : world.calls = []

/-- Closed: by the last object, or by a stop, after which an object that was copied
before still has the number. -/
structure World.Closed (world : World) (number : Nat) : Prop where
  once : world.Once
  closes : world.closes = 1
  done : world.family.objects = [] ∨ world.listening = false
  fd : ∀ object ∈ world.family.objects,
    object.fd = (number : Int) ∨ object.fd = invalidHandle

structure World.Sound (world : World) (number : Nat) : Prop where
  counted : world.family.Counted
  automatic : world.family.shd.autoclose = true
  phase : world.Open number ∨ world.Closed number

theorem started_sound (kind : SocketKind) (number : Nat) :
    (World.started kind number).Sound number := by
  refine ⟨rfl, rfl, Or.inl ⟨rfl, List.cons_ne_nil _ _, ?_, rfl, rfl⟩⟩
  intro object member
  rw [List.mem_singleton.mp member]

theorem World.Sound.once {world : World} {number : Nat} (sound : world.Sound number) :
    world.Once := by
  rcases sound.phase with still | closed
  · refine ⟨?_, ?_, ?_⟩ <;> simp [still.quiet]
  · exact closed.once

theorem Release.closed {number : Nat} {calls : List SysCall} (release : Release number calls)
    {world : World} (held : world.holder = .server) (quiet : world.calls = [])
    (done : world.family.objects = [] ∨ world.listening = false)
    (fd : ∀ object ∈ world.family.objects,
      object.fd = (number : Int) ∨ object.fd = invalidHandle) :
    (calls.foldl World.call world).Closed number := by
  obtain ⟨once, closes⟩ := release.once held quiet
  rw [← foldl_call_family calls world] at done fd
  rw [← foldl_call_listening calls world] at done
  exact ⟨once, closes, done, fd⟩

theorem World.Closed.quiet {world after : World} {number : Nat} (closed : world.Closed number)
    (calls : after.calls = world.calls)
    (done : after.family.objects = [] ∨ after.listening = false)
    (fd : ∀ object ∈ after.family.objects,
      object.fd = (number : Int) ∨ object.fd = invalidHandle) : after.Closed number := by
  have once : after.Once := by
    constructor <;> rw [calls]
    · exact closed.once.close
    · exact closed.once.shutdown
    · exact closed.once.own
  have closes : after.closes = 1 := by
    rw [World.closes, calls]
    exact closed.closes
  exact ⟨once, closes, done, fd⟩

theorem stopServer_release (kind : SocketKind) (shd : ShrdData) (server : Object)
    {number : Nat} (automatic : shd.autoclose = true) (fd : server.fd = number) :
    Release number (stopServer kind shd server).1 ∧
      (stopServer kind shd server).2.fd = invalidHandle := by
  have first := socketFdClose_release shd server automatic fd
  cases kind with
  | net => exact first
  | unix =>
      rw [stopServer, socketFdClose_invalid shd _ first.2, List.append_nil]
      exact first

theorem World.Sound.listeningStop {world : World} {number : Nat}
    (sound : world.Sound number) : world.listeningStop.Sound number := by
  unfold World.listeningStop
  split
  · exact sound
  · rename_i running
    have running : world.serverAlive = true ∧ world.listening = true := by
      rwa [Bool.not_eq_true', Bool.not_eq_false, Bool.and_eq_true] at running
    split
    · exact sound
    · rename_i server others objects
      rcases sound.phase with still | closed
      · have fd : server.fd = number := by
          apply still.fd server
          rw [objects]
          exact List.mem_cons_self
        obtain ⟨release, invalid⟩ :=
          stopServer_release world.kind world.family.shd server sound.automatic fd
        have fds : ∀ object ∈ (stopServer world.kind world.family.shd server).2 :: others,
            object.fd = (number : Int) ∨ object.fd = invalidHandle := by
          intro object member
          rcases List.mem_cons.mp member with rfl | other
          · exact Or.inr invalid
          · apply Or.inl
            apply still.fd object
            rw [objects]
            exact List.mem_cons_of_mem _ other
        constructor
        case counted =>
          rw [foldl_call_family, Family.Counted, sound.counted, objects]
          rfl
        case automatic =>
          rw [foldl_call_family]
          exact sound.automatic
        case phase => exact Or.inr (release.closed still.held still.quiet (Or.inr rfl) fds)
      · rcases closed.done with ended | stopped
        · rw [ended] at objects
          cases objects
        · rw [running.2] at stopped
          cases stopped

private theorem World.Open.release {world : World} {number : Nat} (still : world.Open number)
    (sound : world.Sound number) {op : BaseFd.Op}
    (gone : (world.family.apply op).2.objects = []) :
    Release number (world.family.apply op).1 := by
  have moves := Family.apply_moves sound.counted op
  obtain ⟨object, _, only, calls⟩ := moves.last sound.counted still.some gone
  have fd : object.fd = (number : Int) := by
    apply still.fd object
    rw [only]
    exact List.mem_singleton_self object
  have valid : object.fd ≠ invalidHandle := by
    rw [fd, invalidHandle]
    omega
  rw [calls, Object.destruct_last _ _ valid]
  exact released_release world.family.shd object sound.automatic fd

private theorem World.Closed.calls_eq_nil {world : World} {number : Nat}
    (closed : world.Closed number)
    (counted : world.family.Counted) {op : BaseFd.Op} (spares : world.Spares (.object op))
    (gone : (world.family.apply op).2.objects = []) : (world.family.apply op).1 = [] := by
  by_cases ended : world.family.objects = []
  · rw [Family.apply_of_nil ended op]
  · have moves := Family.apply_moves counted op
    obtain ⟨object, rfl, only, calls⟩ := moves.last counted ended gone
    have stopped := closed.done.resolve_left ended
    have invalid : object.fd = invalidHandle := spares stopped rfl object only
    obtain ⟨cls, fd⟩ := object
    rw [calls, show fd = invalidHandle from invalid]
    exact Object.destruct_invalid _ cls 1

theorem World.Sound.operate {world : World} {number : Nat} (sound : world.Sound number)
    (op : BaseFd.Op) (spares : world.Spares (.object op)) :
    (world.operate op).Sound number := by
  have moves := Family.apply_moves sound.counted op
  constructor
  case counted =>
    rw [World.operate, foldl_call_family]
    exact moves.counted sound.counted
  case automatic =>
    rw [World.operate, foldl_call_family]
    exact moves.autoclose.trans sound.automatic
  case phase =>
    rw [World.operate]
    by_cases gone : (world.family.apply op).2.objects = []
    · have none : ∀ object ∈ (world.family.apply op).2.objects,
          object.fd = (number : Int) ∨ object.fd = invalidHandle := by
        rw [gone]
        intro object member
        cases member
      apply Or.inr
      rcases sound.phase with still | closed
      · exact (still.release sound gone).closed still.held still.quiet (Or.inl gone) none
      · rw [closed.calls_eq_nil sound.counted spares gone]
        exact closed.quiet rfl (Or.inl gone) none
    · rw [moves.calls_eq_nil sound.counted gone]
      rcases sound.phase with still | closed
      · exact Or.inl ⟨still.listening, gone,
          moves.forall_objects (fun fd => fd = number) still.fd, still.held, still.quiet⟩
      · have done : world.listening = false := by
          apply closed.done.resolve_left
          intro ended
          rw [Family.apply_of_nil ended op] at gone
          exact gone ended
        exact Or.inr (closed.quiet rfl (Or.inr done)
          (moves.forall_objects (fun fd => fd = number ∨ fd = invalidHandle) closed.fd))

private theorem World.Sound.step {world : World} {number : Nat} (sound : world.Sound number)
    (op : Op)
    (spares : world.Spares op) : (world.step op).Sound number := by
  cases op with
  | listeningStop => exact sound.listeningStop
  | opened =>
      constructor
      case counted => exact sound.counted
      case automatic => exact sound.automatic
      case phase =>
        rcases sound.phase with still | closed
        · have held : (world.step .opened).holder = .server := by
            rw [World.step, if_neg (by rw [still.held]; decide)]
            exact still.held
          exact Or.inl ⟨still.listening, still.some, still.fd, held, still.quiet⟩
        · exact Or.inr (closed.quiet rfl closed.done closed.fd)
  | object op => exact sound.operate op spares

private theorem World.Sound.breaks {world : World} {number : Nat} (sound : world.Sound number)
    (op : Op) (other : ¬ world.Spares op) : ¬ (world.step op).Once := by
  cases op with
  | listeningStop => exact absurd trivial other
  | opened => exact absurd trivial other
  | object op =>
      cases op with
      | copy source cls isSocket => exact absurd trivial other
      | setPreserved index => exact absurd trivial other
      | destroy index =>
          rw [World.Spares] at other
          simp only [not_forall] at other
          obtain ⟨stopped, rfl, object, only, valid⟩ := other
          rcases sound.phase with still | closed
          · rw [still.listening] at stopped
            cases stopped
          · have member : object ∈ world.family.objects := by
              rw [only]
              exact List.mem_singleton_self object
            have fd := (closed.fd object member).resolve_right valid
            have last : world.family.refcount = 1 := by
              rw [sound.counted, only]
              rfl
            have calls : (world.family.apply (.destroy 0)).1 =
                released world.family.shd object := by
              rw [Family.apply, Family.destroy, only]
              simp only [List.getElem?_cons_zero, last]
              exact Object.destruct_last _ _ valid
            have again := (released_release world.family.shd object sound.automatic fd).closes
            rw [← calls] at again
            intro once
            have bound := once.close
            change (World.operate world (.destroy 0)).closes ≤ 1 at bound
            rw [World.operate, foldl_call_closes, again] at bound
            have before : world.closes = 1 := closed.closes
            change world.closes + 1 ≤ 1 at bound
            omega

/-- The server's descriptor is closed and shut down at most once, and no descriptor of
someone else's in its place, if and only if the run never destroys, as the last one after
a stop, an object that was copied before the stop. -/
theorem once_iff (kind : SocketKind) (number : Nat) (ops : List Op) :
    EveryState World.step World.Once (World.started kind number) ops ↔
      EveryStep World.step World.Spares (World.started kind number) ops :=
  @everyState_iff_everyStep World Op World.step (fun world => world.Sound number) World.Once
    World.Spares (fun _ sound => sound.once) (fun _ op sound spares => sound.step op spares)
    (fun _ op sound other => sound.breaks op other) _ (started_sound kind number) ops

/-- A copy outlives the server, whose number has gone to someone else. -/
theorem copy_closes_unrelated :
    ¬ EveryState World.step World.Once (World.started .net 5)
        [.object (.copy 0 .baseSocket true), .listeningStop, .opened, .object (.destroy 0),
          .object (.destroy 0)] ∧
      ([.object (.copy 0 .baseSocket true), .listeningStop, .opened, .object (.destroy 0),
          .object (.destroy 0)].foldl World.step (World.started .net 5)).calls =
        [(.shutdown 5, .server), (.close 5, .server), (.shutdown 5, .unrelated),
          (.close 5, .unrelated)] := by
  refine ⟨?_, rfl⟩
  intro every
  obtain ⟨_, _, _, _, _, last⟩ := every
  revert last
  unfold EveryState
  decide

end Socketxx.ServerCopies
