import Mathlib.Logic.Function.Basic
import Socketxx.BaseFd
import Socketxx.SimpleSocket

/-!
`o_sock` and `i_sock`, which hand a socket to another thread of the process: the
descriptor is duplicated, and the new number sent over the stream.

The two sides have families of objects of their own, each with its counter and flags.
The descriptor table tells which connection, or other open file, each number refers to.
-/

set_option autoImplicit false

namespace Socketxx.SocketHandover

open Runs
open BaseFd
open StreamReader
open SimpleSocket (Host iInt oInt)

structure World where
  table : Int → Option Nat
  /-- The files that `shutdown` was called for. -/
  shut : List Nat
  sender : Family
  /-- What has been sent and not yet received. -/
  wire : List UInt8
  receiver : Option Family

def World.call (world : World) : SysCall → World
  | .shutdown fd =>
      match world.table fd with
      | none => world
      | some file => { world with shut := world.shut ++ [file] }
  | .close fd => { world with table := Function.update world.table fd none }

inductive Outcome where
  | returned
  | otherError
  | ioError
deriving DecidableEq, Repr

/-- `o_sock(sock)`, for an object of the sender: `dup` is the number the system finds, if
it finds one, and `sent` whether `o_int` returns. -/
def World.oSock (world : World) (host : Host) (sock : Object) (dup : Option Nat)
    (sent : Bool) : Outcome × World :=
  let world := { world with
    sender := { world.sender with shd := { world.sender.shd with preserveFd := true } } }
  match dup with
  | none => (.otherError, world)
  | some newFd =>
      let world := { world with
        table := Function.update world.table newFd (world.table sock.fd) }
      if sent then
        (.returned, { world with
          wire := world.wire ++ oInt host (BitVec.ofNat (8 * 4) newFd) })
      else (.ioError, world)

/-- `i_sock`; the constructor of `base_fd` it calls throws unless the number is that of an
open descriptor. -/
def World.iSock (world : World) (host : Host) : World :=
  match iInt host 4 world.wire with
  | .ok (fd, rest) =>
      if fd.toInt < 0 ∨ world.table fd.toInt = none then { world with wire := rest }
      else
        { world with
          wire := rest
          receiver := some (Family.construct .baseFd fd.toInt true) }
  | _ => world

/-- The two sides, and others who open and close descriptors of their own, of files
other than the connection. -/
inductive Op where
  | sender (op : BaseFd.Op)
  | iSock
  | receiver (op : BaseFd.Op)
  | opened (number : Int) (file : Nat)
  | closed (number : Int)

def World.step (host : Host) (connection : Nat) (world : World) : Op → World
  | .sender op =>
      (world.sender.apply op).1.foldl World.call
        { world with sender := (world.sender.apply op).2 }
  | .iSock => world.iSock host
  | .receiver op =>
      match world.receiver with
      | none => world
      | some family =>
          (family.apply op).1.foldl World.call
            { world with receiver := some (family.apply op).2 }
  | .opened number file =>
      if world.table number = none ∧ file ≠ connection then
        { world with table := Function.update world.table number (some file) }
      else world
  | .closed number =>
      if world.table number = some connection then world
      else { world with table := Function.update world.table number none }

/-- The object `i_sock` has returned and all its copies are destroyed. -/
def World.Done (world : World) : Prop :=
  ∃ family, world.receiver = some family ∧ family.objects = []

/-- The connection is not shut down, and has a descriptor. -/
def World.Kept (world : World) (connection : Nat) : Prop :=
  connection ∉ world.shut ∧ ∃ number, world.table number = some connection

structure Connected where
  table : Int → Option Nat
  connection : Nat
  fd : Nat
  opened : table fd = some connection
  shd : ShrdData
  classes : List FdClass
  dupFd : Nat
  free : table dupFd = none
  dupFd_lt : dupFd < 2 ^ 31

def Connected.objects (socket : Connected) : List Object :=
  socket.classes.map (fun cls => ⟨cls, socket.fd⟩)

def Connected.world (socket : Connected) : World :=
  { table := socket.table
    shut := []
    sender := ⟨socket.objects.length, socket.shd, socket.objects⟩
    wire := []
    receiver := none }

def Connected.sent (socket : Connected) (host : Host) (sock : Object) : Outcome × World :=
  socket.world.oSock host sock (some socket.dupFd) true

/-! ### The system calls of the two sides -/

private theorem moves_calls_of_preserved {family : Family} {op : BaseFd.Op}
    {result : List SysCall × Family} (moves : family.Moves op result)
    (counted : family.Counted) (preserved : family.shd.preserveFd = true) :
    ∀ call ∈ result.1, ∃ object ∈ family.objects, call = .close object.fd := by
  by_cases alive : result.2.objects = []
  · by_cases ended : family.objects = []
    · cases moves with
      | nothing => simp
      | copied => simp
      | preserved => simp
      | destroyed index object found =>
          rw [ended, List.getElem?_nil] at found
          cases found
    · obtain ⟨object, _, only, calls⟩ := moves.last counted ended alive
      have member : object ∈ family.objects := by
        rw [only]
        exact List.mem_singleton_self object
      intro call present
      by_cases valid : object.fd = invalidHandle
      · obtain ⟨cls, fd⟩ := object
        rw [calls, show fd = invalidHandle from valid, Object.destruct_invalid] at present
        cases present
      · rw [calls, Object.destruct_last _ _ valid, released, preserved] at present
        refine ⟨object, member, ?_⟩
        split at present
        · simpa using present
        · cases present
  · rw [moves.calls_eq_nil counted alive]
    intro call present
    cases present

private theorem foldl_close (calls : List SysCall) (fd : Int) (world : World)
    (closes : ∀ call ∈ calls, call = .close fd) :
    (calls.foldl World.call world).shut = world.shut ∧
      ∀ number, number ≠ fd →
        (calls.foldl World.call world).table number = world.table number := by
  induction calls generalizing world with
  | nil => exact ⟨rfl, fun _ _ => rfl⟩
  | cons call later ih =>
      obtain ⟨shut, table⟩ := ih (world.call call)
        (fun other member => closes other (List.mem_cons_of_mem _ member))
      rw [closes call List.mem_cons_self] at shut table ⊢
      refine ⟨shut, fun number other => ?_⟩
      rw [List.foldl_cons, table number other]
      exact Function.update_of_ne other none world.table

theorem foldl_call_frame (calls : List SysCall) (world : World) :
    (calls.foldl World.call world).sender = world.sender ∧
      (calls.foldl World.call world).receiver = world.receiver ∧
      (calls.foldl World.call world).wire = world.wire := by
  induction calls generalizing world with
  | nil => exact ⟨rfl, rfl, rfl⟩
  | cons call later ih =>
      obtain ⟨sender, receiver, wire⟩ := ih (world.call call)
      rw [List.foldl_cons, sender, receiver, wire]
      cases call with
      | shutdown fd =>
          rw [World.call]
          split <;> exact ⟨rfl, rfl, rfl⟩
      | close fd => exact ⟨rfl, rfl, rfl⟩

/-! ### The invariant -/

/-- The new descriptor stays with the connection until the receiver is done. -/
structure World.Safe (socket : Connected) (world : World) : Prop where
  counted : world.sender.Counted
  preserved : world.sender.shd.preserveFd = true
  fd : ∀ object ∈ world.sender.objects, object.fd = (socket.fd : Int)
  wire : world.wire = [] ∨ world.receiver = none ∧ world.wire.length = 4
  received : ∀ family ∈ world.receiver, family.Counted
  kept : ¬ world.Done →
    socket.connection ∉ world.shut ∧ world.table socket.dupFd = some socket.connection

variable {socket : Connected}

private theorem Connected.dupFd_ne (socket : Connected) : (socket.dupFd : Int) ≠ socket.fd := by
  intro same
  have opened := socket.opened
  rw [← same, socket.free] at opened
  cases opened

private theorem World.done_congr {world after : World} (same : after.receiver = world.receiver) :
    after.Done ↔ world.Done := by
  rw [Done, same, Done]

private theorem World.Safe.sender {world : World} (safe : world.Safe socket) (op : BaseFd.Op) :
    ((world.sender.apply op).1.foldl World.call
      { world with sender := (world.sender.apply op).2 }).Safe socket := by
  have moves := Family.apply_moves safe.counted op
  have closes : ∀ call ∈ (world.sender.apply op).1, call = .close (socket.fd : Int) := by
    intro call member
    obtain ⟨object, present, same⟩ :=
      moves_calls_of_preserved moves safe.counted safe.preserved call member
    rw [same, safe.fd object present]
  obtain ⟨shut, table⟩ := foldl_close (world.sender.apply op).1 socket.fd
    { world with sender := (world.sender.apply op).2 } closes
  obtain ⟨sender, receiver, wire⟩ := foldl_call_frame (world.sender.apply op).1
    { world with sender := (world.sender.apply op).2 }
  constructor
  case counted =>
    rw [sender]
    exact moves.counted safe.counted
  case preserved =>
    rw [sender]
    exact moves.preserveFd safe.preserved
  case fd =>
    rw [sender]
    exact moves.forall_objects (fun fd => fd = socket.fd) safe.fd
  case wire =>
    rw [wire, receiver]
    exact safe.wire
  case received =>
    rw [receiver]
    exact safe.received
  case kept =>
    intro waiting
    rw [@World.done_congr world _ receiver] at waiting
    rw [shut, table _ socket.dupFd_ne]
    exact safe.kept waiting

private theorem World.Safe.iSock {world : World} (safe : world.Safe socket) (host : Host) :
    (world.iSock host).Safe socket := by
  unfold World.iSock
  split
  · rename_i fd rest read
    obtain ⟨bytes, taken, _same⟩ := Reader.map_eq_ok.mp read
    obtain ⟨bytesRead, size⟩ := Reader.take_eq_ok.mp taken
    have length : world.wire.length = 4 + rest.length := by
      rw [bytesRead, List.length_append, size]
    have pending : world.receiver = none ∧ world.wire.length = 4 := by
      apply safe.wire.resolve_left
      intro empty
      rw [empty, List.length_nil] at length
      omega
    have empty : rest = [] := by
      apply List.eq_nil_of_length_eq_zero
      omega
    have waiting : ¬ world.Done := by
      intro done
      obtain ⟨family, present, _⟩ := done
      rw [pending.1] at present
      cases present
    split
    · exact ⟨safe.counted, safe.preserved, safe.fd, Or.inl empty, safe.received,
        fun _ => safe.kept waiting⟩
    · refine ⟨safe.counted, safe.preserved, safe.fd, Or.inl empty, ?_,
        fun _ => safe.kept waiting⟩
      intro family member
      cases member
      rfl
  · exact safe

private theorem World.Safe.receiver {world : World} (safe : world.Safe socket) {family : Family}
    (present : world.receiver = some family) (op : BaseFd.Op) :
    ((family.apply op).1.foldl World.call
      { world with receiver := some (family.apply op).2 }).Safe socket := by
  have counted := safe.received family present
  have moves := Family.apply_moves counted op
  obtain ⟨sender, receiver, wire⟩ := foldl_call_frame (family.apply op).1
    { world with receiver := some (family.apply op).2 }
  constructor
  case counted =>
    rw [sender]
    exact safe.counted
  case preserved =>
    rw [sender]
    exact safe.preserved
  case fd =>
    rw [sender]
    exact safe.fd
  case wire =>
    rw [wire]
    apply Or.inl
    apply safe.wire.resolve_right
    intro done
    obtain ⟨none, _⟩ := done
    rw [present] at none
    cases none
  case received =>
    rw [receiver]
    intro after member
    cases member
    exact moves.counted counted
  case kept =>
    intro waiting
    have alive : (family.apply op).2.objects ≠ [] :=
      fun ended => waiting ⟨(family.apply op).2, receiver, ended⟩
    rw [moves.calls_eq_nil counted alive]
    apply safe.kept
    intro done
    obtain ⟨other, same, ended⟩ := done
    rw [present] at same
    cases same
    rw [Family.apply_of_nil ended op] at alive
    exact alive ended

private theorem World.Safe.others {world : World} (safe : world.Safe socket) {number : Int}
    (file : Option Nat) (foreign : world.table number ≠ some socket.connection) :
    World.Safe socket { world with table := Function.update world.table number file } := by
  have kept : ¬ world.Done → socket.connection ∉ world.shut ∧
      Function.update world.table number file socket.dupFd = some socket.connection := by
    intro waiting
    obtain ⟨shut, table⟩ := safe.kept waiting
    have other : (socket.dupFd : Int) ≠ number := by
      intro same
      subst same
      exact foreign table
    rw [Function.update_of_ne other]
    exact ⟨shut, table⟩
  exact ⟨safe.counted, safe.preserved, safe.fd, safe.wire, safe.received, kept⟩

private theorem World.Safe.step {world : World} (safe : world.Safe socket) (host : Host) (op : Op) :
    (world.step host socket.connection op).Safe socket := by
  cases op with
  | sender op => exact safe.sender op
  | iSock => exact safe.iSock host
  | receiver op =>
      rw [World.step]
      split
      · exact safe
      · rename_i family present
        exact safe.receiver present op
  | opened number file =>
      rw [World.step]
      split
      · rename_i free
        apply safe.others
        rw [free.1]
        exact (Option.some_ne_none _).symm
      · exact safe
  | closed number =>
      rw [World.step]
      split
      · exact safe
      · rename_i foreign
        exact safe.others none foreign

theorem sent_safe (socket : Connected) (host : Host) (sock : Object)
    (one : sock ∈ socket.objects) : (socket.sent host sock).2.Safe socket := by
  have fds : ∀ object ∈ socket.objects, object.fd = (socket.fd : Int) := by
    intro object member
    obtain ⟨cls, _, rfl⟩ := List.mem_map.mp member
    rfl
  refine ⟨rfl, rfl, fds, Or.inr ⟨rfl, ?_⟩, ?_, ?_⟩
  · exact SimpleSocket.oInt_length host _
  · intro family member
    cases member
  · intro _
    refine ⟨List.not_mem_nil, ?_⟩
    have linked : socket.table sock.fd = some socket.connection := by
      rw [fds sock one]
      exact socket.opened
    rw [← linked]
    exact Function.update_self (socket.dupFd : Int) (socket.table sock.fd) socket.table

/-- Once `o_sock` has returned, and whatever the two sides and others do in whatever order,
the connection is not shut down and has a descriptor until the object `i_sock` returns and
all its copies are destroyed. -/
theorem handover_keeps (host : Host) (socket : Connected) (index : Fin socket.objects.length)
    (ops : List Op) :
    (socket.sent host socket.objects[index]).1 = .returned ∧
      EveryState (World.step host socket.connection)
        (fun world => ¬ world.Done → world.Kept socket.connection)
        (socket.sent host socket.objects[index]).2 ops := by
  have start := sent_safe socket host socket.objects[index] (List.getElem_mem _)
  have sound : ∀ world : World, world.Safe socket →
      ¬ world.Done → world.Kept socket.connection := by
    intro world safe waiting
    exact ⟨(safe.kept waiting).1, socket.dupFd, (safe.kept waiting).2⟩
  have keeps : ∀ (world : World) (op : Op), world.Safe socket →
      (world.step host socket.connection op).Safe socket := by
    intro world op safe
    exact safe.step host op
  exact ⟨rfl, everyState_of_invariant sound keeps start ops⟩

theorem iSock_receives (host : Host) (little : host.endianness = .littleEndian)
    (socket : Connected) (sock : Object) (one : sock ∈ socket.objects) :
    ((socket.sent host sock).2.iSock host).receiver =
        some (Family.construct .baseFd socket.dupFd true) ∧
      ((socket.sent host sock).2.iSock host).table socket.dupFd = some socket.connection := by
  have table := ((sent_safe socket host sock one).kept (by
    intro done
    obtain ⟨family, impossible, _⟩ := done
    cases impossible)).2
  have read := SimpleSocket.iInt_oInt_decodes host host little
    (BitVec.ofNat (8 * 4) socket.dupFd) []
  rw [List.append_nil] at read
  have wire : (socket.sent host sock).2.wire = oInt host (BitVec.ofNat (8 * 4) socket.dupFd) :=
    rfl
  have number : (BitVec.ofNat (8 * 4) socket.dupFd).toInt = socket.dupFd := by
    have bound := socket.dupFd_lt
    have fits : (BitVec.ofNat (8 * 4) socket.dupFd).toNat = socket.dupFd := by
      rw [BitVec.toNat_ofNat]
      omega
    rw [BitVec.toInt_eq_toNat_of_lt, fits]
    omega
  rw [World.iSock, wire, read]
  simp only [number]
  rw [if_neg]
  · exact ⟨rfl, table⟩
  · intro rejected
    rcases rejected with negative | closed
    · omega
    · rw [table] at closed
      cases closed

/-! ### A sending that fails -/

/-- What `dup` can return for a descriptor: an error, or a number that is free, if the
descriptor is open. -/
structure World.DupResult (world : World) (fd : Int) where
  number : Option Nat
  free : ∀ newFd : Nat, number = some newFd → world.table newFd = none
  opened : number ≠ none → world.table fd ≠ none

/-- Where `o_sock` throws, the preserve flag is what it was, and no descriptor is open
that was not open before. -/
def World.AllOrNothing (world : World) (call : Outcome × World) : Prop :=
  call.1 ≠ .returned →
    call.2.sender.shd.preserveFd = world.sender.shd.preserveFd ∧
      ∀ number, world.table number = none → call.2.table number = none

private theorem oSock_unsent (world : World) (host : Host) (sock : Object)
    (dup : world.DupResult sock.fd) {newFd : Nat} (found : dup.number = some newFd) :
    (world.oSock host sock dup.number false).1 = .ioError ∧
      (world.oSock host sock dup.number false).2.table newFd ≠ none := by
  rw [found]
  constructor
  · rfl
  · have source := dup.opened (by rw [found]; exact Option.some_ne_none newFd)
    change Function.update world.table newFd (world.table sock.fd) newFd ≠ none
    rwa [Function.update_self]

/-- `o_sock` is all or nothing exactly when nothing fails, or `dup` fails for a socket
that was preserved already. -/
theorem oSock_allOrNothing_iff (world : World) (host : Host) (sock : Object)
    (dup : world.DupResult sock.fd) (sent : Bool) :
    world.AllOrNothing (world.oSock host sock dup.number sent) ↔
      (dup.number ≠ none ∧ sent = true) ∨
        (dup.number = none ∧ world.sender.shd.preserveFd = true) := by
  cases found : dup.number with
  | none =>
      constructor
      · intro atomic
        have flag := (atomic (fun impossible => Outcome.noConfusion impossible)).1
        exact Or.inr ⟨rfl, flag.symm⟩
      · intro either
        rcases either with ⟨impossible, _sent⟩ | ⟨_none, preserved⟩
        · exact absurd rfl impossible
        · intro _thrown
          constructor
          · exact preserved.symm
          · intro number closed
            exact closed
  | some newFd =>
      cases sent with
      | true =>
          constructor
          · intro _atomic
            exact Or.inl ⟨Option.some_ne_none newFd, rfl⟩
          · intro _either thrown
            exact absurd rfl thrown
      | false =>
          have unsent := oSock_unsent world host sock dup found
          rw [found] at unsent
          constructor
          · intro atomic
            have closed := (atomic (by rw [unsent.1]; exact Outcome.noConfusion)).2 newFd
              (dup.free newFd found)
            exact absurd closed unsent.2
          · intro either
            rcases either with ⟨_some, impossible⟩ | ⟨impossible, _preserved⟩
            · cases impossible
            · cases impossible

def oneSocket : World where
  table := fun number => if number = 3 then some 0 else none
  shut := []
  sender := Family.construct .baseFd 3 true
  wire := []
  receiver := none

theorem oSock_leaks :
    ¬ oneSocket.AllOrNothing (oneSocket.oSock (Host.little .keyFirst) ⟨.baseFd, 3⟩ (some 4)
      false) := by
  intro atomic
  have flag := (atomic (fun impossible => Outcome.noConfusion impossible)).1
  cases flag

end Socketxx.SocketHandover
