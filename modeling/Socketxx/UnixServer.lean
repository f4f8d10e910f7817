import Mathlib.Data.List.InsertIdx
import Socketxx.ServerCopies
import Socketxx.SocketFile

/-!
A UNIX server with its socket file and its descriptor.

`SocketFile` follows the path through the objects of a server, `ServerCopies` the number of
the descriptor. Once the server is started, the operations of the former are operations of
the latter on the same objects, and what holds of either holds of one server.
-/

set_option autoImplicit false

namespace Socketxx.SocketFile

open Runs

def Object.cls : Object → BaseFd.FdClass
  | .unixsock _ => .baseUnixsock
  | .socket => .baseSocket
  | .fd => .baseFd

def Constructor.cls : Constructor → BaseFd.FdClass
  | .unixsockCopy => .baseUnixsock
  | .unixsockOfSocket => .baseUnixsock
  | .socketOf _ => .baseSocket
  | .fdOf => .baseFd

def Constructor.isSocket : Constructor → Bool
  | .socketOf isSocket => isSocket
  | _ => true

/-- A world of `ServerCopies` has the same server and objects of the same classes. -/
structure World.Sees (world : World) (copies : ServerCopies.World) : Prop where
  kind : copies.kind = .unix
  refcount : copies.family.refcount = world.refcount
  classes : copies.family.objects.map BaseFd.Object.cls = world.objects.map Object.cls
  alive : copies.serverAlive = world.serverAlive
  listening : copies.listening = (world.phase == .started)

def World.seenAs (world : World) : Op → List ServerCopies.Op
  | .listeningStart => []
  | .listeningStop => [.listeningStop]
  | .copy source maker =>
      if ((world.objects[source]?).bind maker.construct).isSome then
        [.object (.copy source maker.cls maker.isSocket)]
      else []
  | .destroy index => [.object (.destroy index)]

private theorem Constructor.construct_cls {maker : Constructor} {source object : Object}
    (made : maker.construct source = some object) :
    object.cls = maker.cls ∧ maker.cls.takes source.cls = true ∧
      (maker.cls.checks source.cls && !maker.isSocket) = false := by
  cases maker with
  | unixsockCopy =>
      cases source with
      | unixsock autodelPath =>
          obtain rfl := Option.some.inj made
          exact ⟨rfl, rfl, rfl⟩
      | socket => cases made
      | fd => cases made
  | unixsockOfSocket =>
      cases source with
      | unixsock autodelPath =>
          obtain rfl := Option.some.inj made
          exact ⟨rfl, rfl, rfl⟩
      | socket =>
          obtain rfl := Option.some.inj made
          exact ⟨rfl, rfl, rfl⟩
      | fd => cases made
  | socketOf isSocket =>
      cases source with
      | unixsock autodelPath =>
          obtain rfl := Option.some.inj made
          exact ⟨rfl, rfl, rfl⟩
      | socket =>
          obtain rfl := Option.some.inj made
          exact ⟨rfl, rfl, rfl⟩
      | fd =>
          cases isSocket with
          | true =>
              obtain rfl := Option.some.inj made
              exact ⟨rfl, rfl, rfl⟩
          | false => cases made
  | fdOf =>
      obtain rfl := Option.some.inj made
      exact ⟨rfl, rfl, rfl⟩

theorem World.unixsockDtor_phase (world : World) (object : Object) :
    (world.unixsockDtor object).phase = world.phase := by
  rw [World.unixsockDtor]
  split
  · split <;> rfl
  · rfl

theorem World.Sees.calls {world : World} {copies : ServerCopies.World}
    (sees : world.Sees copies) (calls : List BaseFd.SysCall) :
    world.Sees (calls.foldl ServerCopies.World.call copies) := by
  induction calls generalizing copies with
  | nil => exact sees
  | cons call later ih =>
      exact ih ⟨sees.kind, sees.refcount, sees.classes, sees.alive, sees.listening⟩

private theorem socketFdClose_cls (shd : BaseFd.ShrdData) (object : BaseFd.Object) :
    (object.socketFdClose shd).2.cls = object.cls := by
  rw [BaseFd.Object.socketFdClose]
  split <;> rfl

private theorem stopServer_cls (shd : BaseFd.ShrdData) (server : BaseFd.Object) :
    (ServerCopies.stopServer .unix shd server).2.cls = server.cls := by
  rw [ServerCopies.stopServer, socketFdClose_cls, socketFdClose_cls]

theorem World.Sees.object_at {world : World} {copies : ServerCopies.World}
    (sees : world.Sees copies) (index : Nat) :
    (copies.family.objects[index]?).map BaseFd.Object.cls =
      (world.objects[index]?).map Object.cls := by
  rw [← List.getElem?_map, ← List.getElem?_map, sees.classes]

private theorem World.Sees.listeningStop {world : World} {copies : ServerCopies.World}
    (sees : world.Sees copies) (sound : world.Sound) :
    world.listeningStop.Sees copies.listeningStop := by
  by_cases running : world.serverAlive = true ∧ world.phase = .started
  · obtain ⟨alive, started⟩ := running
    obtain ⟨others, objects⟩ := sound.objects_of_server alive
    have path : world.serverPath = true := by
      rw [World.serverPath, objects, started]
      rfl
    have classes := sees.classes
    rw [objects, List.map_cons, List.map_eq_cons_iff] at classes
    obtain ⟨server, copied, both, serverCls, otherCls⟩ := classes
    have busy : (!(copies.serverAlive && copies.listening)) = false := by
      rw [sees.alive, sees.listening, alive, started]
      rfl
    rw [World.listeningStop, if_pos ⟨alive, started⟩, World.delSockFile, if_pos path,
      ServerCopies.World.listeningStop, busy, both]
    apply World.Sees.calls
    constructor
    case kind => exact sees.kind
    case refcount => exact sees.refcount
    case classes =>
      change (ServerCopies.stopServer copies.kind copies.family.shd server).2.cls ::
        copied.map BaseFd.Object.cls = .baseUnixsock :: world.objects.tail.map Object.cls
      rw [sees.kind, stopServer_cls, serverCls, otherCls, objects]
      rfl
    case alive => exact sees.alive
    case listening => rfl
  · have idle : (!(copies.serverAlive && copies.listening)) = true := by
      rw [sees.alive, sees.listening, Bool.not_eq_true', ← Bool.not_eq_true, Bool.and_eq_true,
        beq_iff_eq]
      exact running
    rw [World.listeningStop, if_neg running, ServerCopies.World.listeningStop, idle]
    exact sees

private theorem World.Sees.copy {world : World} {copies : ServerCopies.World}
    (sees : world.Sees copies) {source : Nat} {maker : Constructor} {object : Object}
    (made : (world.objects[source]?).bind maker.construct = some object) :
    (world.copy source maker).Sees
      (copies.operate (.copy source maker.cls maker.isSocket)) := by
  obtain ⟨original, found, constructs⟩ := Option.bind_eq_some_iff.mp made
  obtain ⟨cls, takes, checks⟩ := Constructor.construct_cls constructs
  have there := sees.object_at source
  rw [found, Option.map_some, Option.map_eq_some_iff] at there
  obtain ⟨other, otherFound, same⟩ := there
  have family : copies.family.apply (.copy source maker.cls maker.isSocket) =
      ([], { copies.family with
        refcount := copies.family.refcount + 1
        objects := copies.family.objects ++ [⟨maker.cls, other.fd⟩] }) := by
    rw [BaseFd.Family.apply, BaseFd.Family.copy, otherFound]
    simp [same, takes, checks]
  rw [World.copy, made, ServerCopies.World.operate, family]
  constructor
  case kind => exact sees.kind
  case refcount => exact congrArg (· + 1) sees.refcount
  case classes =>
    change (copies.family.objects ++ [_]).map BaseFd.Object.cls =
      (world.objects ++ [object]).map Object.cls
    rw [List.map_append, List.map_append, sees.classes, List.map_singleton, List.map_singleton,
      cls]
  case alive => exact (Bool.and_true _).trans sees.alive
  case listening => exact sees.listening

theorem destroy_beq_zero (index : Nat) :
    (!(BaseFd.Op.destroy index == .destroy 0)) = (index != 0) := by
  cases index with
  | zero => rfl
  | succ index =>
      rw [Bool.eq_iff_iff]
      simp

private theorem World.Sees.destroy {world : World} {copies : ServerCopies.World}
    (sees : world.Sees copies) (sound : world.Sound) (index : Nat) :
    (world.destroy index).Sees (copies.operate (.destroy index)) := by
  have there := sees.object_at index
  rw [ServerCopies.World.operate, destroy_beq_zero, BaseFd.Family.apply, BaseFd.Family.destroy,
    World.destroy]
  cases found : world.objects[index]? with
  | none =>
      rw [found, Option.map_none, Option.map_eq_none_iff] at there
      rw [there]
      constructor
      case kind => exact sees.kind
      case refcount => exact sees.refcount
      case classes => exact sees.classes
      case alive =>
        change (copies.serverAlive && index != 0) = world.serverAlive
        rw [sees.alive]
        cases alive : world.serverAlive with
        | false => rfl
        | true =>
            obtain ⟨others, objects⟩ := sound.objects_of_server alive
            cases index with
            | zero =>
                rw [objects] at found
                cases found
            | succ index => rfl
      case listening => exact sees.listening
  | some object =>
      rw [found, Option.map_some, Option.map_eq_some_iff] at there
      obtain ⟨other, otherFound, same⟩ := there
      rw [otherFound]
      apply World.Sees.calls
      constructor
      case kind => exact sees.kind
      case refcount => exact congrArg (· - 1) sees.refcount
      case classes =>
        change (copies.family.objects.eraseIdx index).map BaseFd.Object.cls =
          (world.objects.eraseIdx index).map Object.cls
        rw [← List.eraseIdx_map, ← List.eraseIdx_map, sees.classes]
      case alive => exact congrArg (· && index != 0) sees.alive
      case listening =>
        change copies.listening = ((world.unixsockDtor object).phase == .started)
        rw [World.unixsockDtor_phase]
        exact sees.listening

/-- One step of the server's objects is at most one step of them with their descriptor. -/
private theorem World.Sees.step {world : World} {copies : ServerCopies.World}
    (sees : world.Sees copies) (sound : world.Sound) (begun : world.phase ≠ .idle) (op : Op) :
    (world.step op).Sees ((world.seenAs op).foldl ServerCopies.World.step copies) := by
  cases op with
  | listeningStart =>
      rw [World.step, World.listeningStart, if_neg (fun ready => begun ready.2)]
      exact sees
  | listeningStop => exact sees.listeningStop sound
  | copy source maker =>
      rw [World.seenAs]
      cases made : (world.objects[source]?).bind maker.construct with
      | none =>
          rw [World.step, World.copy, made]
          exact sees
      | some object => exact sees.copy made
  | destroy index => exact sees.destroy sound index

/-! ### A server that outlives its copies -/

def ServerClosed (copies : ServerCopies.World) : Prop :=
  copies.serverAlive = true → copies.listening = false →
    ∃ server others, copies.family.objects = server :: others ∧
      server.fd = BaseFd.invalidHandle

theorem ServerClosed.calls {copies : ServerCopies.World} (closed : ServerClosed copies)
    (calls : List BaseFd.SysCall) : ServerClosed (calls.foldl ServerCopies.World.call copies) := by
  induction calls generalizing copies with
  | nil => exact closed
  | cons call later ih => exact ih closed

private theorem ServerClosed.listeningStop {copies : ServerCopies.World} {number : Nat}
    (closed : ServerClosed copies) (sound : copies.Sound number) :
    ServerClosed copies.listeningStop := by
  unfold ServerCopies.World.listeningStop
  split
  · exact closed
  · rename_i busy
    split
    · exact closed
    · rename_i server others objects
      have listening : copies.listening = true := by
        rw [Bool.not_eq_true', Bool.not_eq_false, Bool.and_eq_true] at busy
        exact busy.2
      rcases sound.phase with still | ended
      · have fd : server.fd = (number : Int) := by
          apply still.fd server
          rw [objects]
          exact List.mem_cons_self
        have released := ServerCopies.stopServer_release copies.kind copies.family.shd server
          sound.automatic fd
        apply ServerClosed.calls
        intro _ _
        exact ⟨_, others, rfl, released.2⟩
      · rcases ended.done with none | stopped
        · rw [none] at objects
          cases objects
        · rw [listening] at stopped
          cases stopped

private theorem ServerClosed.operate {copies : ServerCopies.World} {number : Nat}
    (closed : ServerClosed copies) (sound : copies.Sound number) (op : BaseFd.Op) :
    ServerClosed (copies.operate op) := by
  have moves := BaseFd.Family.apply_moves sound.counted op
  rw [ServerCopies.World.operate]
  generalize copies.family.apply op = result at moves ⊢
  apply ServerClosed.calls
  intro alive stopped
  change (copies.serverAlive && !(op == .destroy 0)) = true at alive
  rw [Bool.and_eq_true] at alive
  obtain ⟨server, others, objects, fd⟩ := closed alive.1 stopped
  cases moves with
  | nothing => exact ⟨server, others, objects, fd⟩
  | copied source cls isSocket object found =>
      change ∃ server others, copies.family.objects ++ [_] = server :: others ∧ _
      rw [objects]
      exact ⟨server, others ++ [_], rfl, fd⟩
  | preserved index inside => exact ⟨server, others, objects, fd⟩
  | destroyed index object found =>
      rw [destroy_beq_zero] at alive
      cases index with
      | zero => cases alive.2
      | succ index =>
          change ∃ server others, copies.family.objects.eraseIdx (index + 1) = server :: others ∧ _
          rw [objects]
          exact ⟨server, others.eraseIdx index, rfl, fd⟩

private theorem World.step_begun {world : World} (begun : world.phase ≠ .idle) (op : Op) :
    (world.step op).phase ≠ .idle := by
  cases op with
  | listeningStart =>
      rw [World.step, World.listeningStart, if_neg (fun ready => begun ready.2)]
      exact begun
  | listeningStop =>
      rw [World.step, World.listeningStop]
      split
      · simp
      · exact begun
  | copy source maker =>
      rw [World.step, World.copy]
      split
      · exact begun
      · exact begun
  | destroy index =>
      rw [World.step, World.destroy]
      split
      · exact begun
      · rename_i object found
        change (world.unixsockDtor object).phase ≠ .idle
        rw [World.unixsockDtor_phase]
        exact begun

/-- Both views of a server that was started and has not been destroyed before a copy. -/
structure World.Joint (world : World) (copies : ServerCopies.World) (number : Nat) :
    Prop where
  file : world.Sound
  stays : world.ServerStays
  begun : world.phase ≠ .idle
  sees : world.Sees copies
  descriptor : copies.Sound number
  closed : ServerClosed copies

private theorem started_joint (number : Nat) :
    World.constructed.listeningStart.Joint (ServerCopies.World.started .unix number) number := by
  constructor
  case file => exact constructed_sound.listeningStart
  case stays =>
    intro _
    rfl
  case begun => decide
  case sees => exact ⟨rfl, rfl, rfl, rfl, rfl⟩
  case descriptor => exact ServerCopies.started_sound .unix number
  case closed =>
    intro _ stopped
    cases stopped

private theorem World.Joint.spares {world : World} {copies : ServerCopies.World} {number : Nat}
    (joint : world.Joint copies number) (index : Nat) :
    copies.Spares (.object (.destroy index)) := by
  intro stopped _ object only
  have some : world.objects ≠ [] := by
    have classes := joint.sees.classes
    rw [only] at classes
    intro none
    rw [none] at classes
    cases classes
  have alive := joint.sees.alive.trans (joint.stays some)
  obtain ⟨server, others, objects, fd⟩ := joint.closed alive stopped
  rw [only] at objects
  cases objects
  exact fd

private theorem World.Joint.descriptor_step {world : World} {copies : ServerCopies.World}
    {number : Nat}
    (joint : world.Joint copies number) (op : Op) :
    ((world.seenAs op).foldl ServerCopies.World.step copies).Sound number ∧
      ServerClosed ((world.seenAs op).foldl ServerCopies.World.step copies) := by
  cases op with
  | listeningStart => exact ⟨joint.descriptor, joint.closed⟩
  | listeningStop =>
      exact ⟨joint.descriptor.listeningStop, joint.closed.listeningStop joint.descriptor⟩
  | copy source maker =>
      rw [World.seenAs]
      split
      · exact ⟨joint.descriptor.operate _ trivial, joint.closed.operate joint.descriptor _⟩
      · exact ⟨joint.descriptor, joint.closed⟩
  | destroy index =>
      exact ⟨joint.descriptor.operate _ (joint.spares index),
        joint.closed.operate joint.descriptor _⟩

private theorem World.Joint.step {world : World} {copies : ServerCopies.World} {number : Nat}
    (joint : world.Joint copies number) (op : Op) (last : world.ServerLast op) :
    (world.step op).Joint ((world.seenAs op).foldl ServerCopies.World.step copies) number := by
  obtain ⟨descriptor, closed⟩ := joint.descriptor_step op
  constructor
  case file => exact joint.file.step op (joint.stays.spares joint.file op)
  case stays => exact joint.stays.step op last
  case begun => exact World.step_begun joint.begun op
  case sees => exact joint.sees.step joint.file joint.begun op
  case descriptor => exact descriptor
  case closed => exact closed

private theorem World.Joint.run {world : World} {copies : ServerCopies.World} {number : Nat}
    (joint : world.Joint copies number) {ops : List Op}
    (last : EveryStep World.step World.ServerLast world ops) :
    ∃ seen : List ServerCopies.Op, (ops.foldl World.step world).Joint
      (seen.foldl ServerCopies.World.step copies) number := by
  induction ops generalizing world copies with
  | nil => exact ⟨[], joint⟩
  | cons op later ih =>
      obtain ⟨seen, ends⟩ := ih (joint.step op last.1) last.2
      refine ⟨world.seenAs op ++ seen, ?_⟩
      rw [List.foldl_append]
      exact ends

/-- A server that is started, and outlives its copies, removes its file once and closes its
descriptor once, whether it is stopped or not. -/
theorem removed_and_closed_once (number : Nat) (ops : List Op)
    (last : EveryStep World.step World.ServerLast World.constructed.listeningStart ops) :
    ∃ seen : List ServerCopies.Op,
      (ops.foldl World.step World.constructed.listeningStart).Sees
        (seen.foldl ServerCopies.World.step (ServerCopies.World.started .unix number)) ∧
      (ops.foldl World.step World.constructed.listeningStart).RemovedOnce ∧
      (seen.foldl ServerCopies.World.step (ServerCopies.World.started .unix number)).Once := by
  obtain ⟨seen, ends⟩ := (started_joint number).run last
  exact ⟨seen, ends.sees, ends.file.removedOnce, ends.descriptor.once⟩

end Socketxx.SocketFile
