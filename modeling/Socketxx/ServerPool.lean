import Mathlib.Data.List.Basic
import Socketxx.FdSet
import Socketxx.Library.ScopedLock

/-!
The clients that a `socket_server` retains, the calls that take its mutex, and the
descriptor sets they are polled with.

An entry of `retained_clients` is known by a number that is never used again. Such a
number is also what an iterator holds, so that one can outlive its entry.
-/

set_option autoImplicit false

namespace Socketxx.ServerPool

open ScopedLock
open ScopedLock.LockM (ofOption locked modify)

structure Client where
  fd : Int
  connection : Nat
deriving DecidableEq, Repr

structure Entry where
  id : Nat
  client : Client
deriving DecidableEq, Repr

structure RetainedClients where
  entries : List Entry
  nextId : Nat
  distinct : (entries.map Entry.id).Nodup
  fresh : ∀ id ∈ entries.map Entry.id, id < nextId
deriving DecidableEq

structure Server where
  fd : Int
  listening : Bool
  retainedClients : RetainedClients
deriving DecidableEq

inductive Error where
  | badState
  | selectErr
  | acceptErr
  | timeout
  | callback
deriving DecidableEq, Repr

/-- Undefined behaviour: an index outside of an `fd_set`, an iterator whose entry is
erased, and a function that ends without its return. -/
inductive Fault where
  | outOfRange
  | erased
  | noReturn
deriving DecidableEq, Repr

abbrev Call (α : Type) := LockM Server Error Fault α

/-! ### The list and its iterators -/

namespace RetainedClients

variable (clients : RetainedClients)

def ids : List Nat := clients.entries.map Entry.id

def fds : List Int := clients.entries.map (fun entry => entry.client.fd)

def empty : RetainedClients :=
  { entries := []
    nextId := 0
    distinct := List.nodup_nil
    fresh := fun _ impossible => nomatch impossible }

def find (id : Nat) : Option Entry := clients.entries.find? (fun entry => entry.id == id)

/-- `begin()`, where `none` is `end()`. -/
def begin : Option Nat := clients.ids.head?

def next (id : Nat) : Option (Option Nat) :=
  if id ∈ clients.ids then some ((clients.ids.dropWhile (· != id)).tail.head?) else none

/-- `insert` in front of `end()`. -/
def insert (client : Client) : RetainedClients :=
  { entries := clients.entries ++ [⟨clients.nextId, client⟩]
    nextId := clients.nextId + 1
    distinct := by
      rw [List.map_append, List.nodup_append]
      refine ⟨clients.distinct, List.pairwise_singleton _ _, ?_⟩
      intro id member other same equal
      rw [List.map_singleton, List.mem_singleton] at same
      have bound := clients.fresh id member
      rw [equal, same] at bound
      exact Nat.lt_irrefl _ bound
    fresh := by
      intro id member
      rw [List.map_append, List.mem_append, List.map_singleton, List.mem_singleton] at member
      rcases member with before | last
      · exact Nat.lt_succ_of_lt (clients.fresh id before)
      · rw [last]
        exact Nat.lt_succ_self _ }

theorem map_filter_sublist (keep : Entry → Bool) :
    ((clients.entries.filter keep).map Entry.id).Sublist (clients.entries.map Entry.id) :=
  (List.filter_sublist).map _

def erase (id : Nat) : RetainedClients :=
  { entries := clients.entries.filter (fun entry => entry.id != id)
    nextId := clients.nextId
    distinct := clients.distinct.sublist (clients.map_filter_sublist _)
    fresh := fun other member =>
      clients.fresh other ((clients.map_filter_sublist _).subset member) }

theorem perm_splice (id : Nat) :
    (clients.entries.filter (fun entry => !(entry.id == id)) ++
      clients.entries.filter (fun entry => entry.id == id)).Perm clients.entries :=
  List.perm_append_comm.trans (List.filter_append_perm _ _)

def splice (id : Nat) : RetainedClients :=
  { entries := clients.entries.filter (fun entry => !(entry.id == id)) ++
      clients.entries.filter (fun entry => entry.id == id)
    nextId := clients.nextId
    distinct := (((clients.perm_splice id).map Entry.id).nodup_iff).mpr clients.distinct
    fresh := fun other member =>
      clients.fresh other (((clients.perm_splice id).map Entry.id).mem_iff.mp member) }

end RetainedClients

def RetainedClients.fillFdset (clients : RetainedClients) : Option (Int × FdSet) :=
  Socketxx.fillFdset clients.fds 0 []

/-- What `select` is answered: interrupted by a signal, another error, or ready
descriptors, none of them being a timeout. -/
inductive Selected where
  | interrupted
  | failed
  | ready (fds : List Int)
deriving DecidableEq, Repr

def select (maxfd : Int) (set : FdSet) : List Selected → Call FdSet
  | [] => LockM.blocked
  | .interrupted :: later => select maxfd set later
  | .failed :: _ => LockM.throw .selectErr
  | .ready fds :: _ =>
      if selectResult (maxfd + 1) set fds = [] then LockM.throw .timeout
      else pure (selectResult (maxfd + 1) set fds)

/-! ### The calls -/

inductive Accept where
  | pending
  | failed
  | accepted (client : Client)
deriving DecidableEq, Repr

def chkl : Call Unit := do
  let server ← LockM.get
  if server.listening then pure () else LockM.throw .badState

def serverAccept : Accept → Call Client
  | .pending => LockM.blocked
  | .failed => LockM.throw .acceptErr
  | .accepted client => pure client

def waitNewClient (accept : Accept) : Call Client := do
  chkl
  serverAccept accept

def Server.modifyClients (f : RetainedClients → RetainedClients) (server : Server) : Server :=
  { server with retainedClients := f server.retainedClients }

def retainClient (client : Client) : Call Entry := locked do
  let server ← LockM.get
  modify (Server.modifyClients (fun clients => clients.insert client))
  pure ⟨server.retainedClients.nextId, client⟩

def releaseClient (id : Nat) : Call Unit := locked do
  let server ← LockM.get
  if id ∈ server.retainedClients.ids then
    modify (Server.modifyClients (fun clients => clients.erase id))
  else LockM.undefined .erased

def waitNewClientRetained (accept : Accept) : Call Entry := locked do
  let client ← waitNewClient accept
  retainClient client

/-- The first entry whose descriptor is set, and no return without one. -/
def firstReady (ready : FdSet) : List Entry → Call Nat
  | [] => LockM.undefined .noReturn
  | entry :: later => do
      let isset ← ofOption .outOfRange (fdIsset entry.client.fd ready)
      if isset then pure entry.id else firstReady ready later

/-- `_wait_client_activity` without its guard. -/
def pollClients (selected : List Selected) : Call Nat := do
  let server ← LockM.get
  let (max, set) ← ofOption .outOfRange server.retainedClients.fillFdset
  let ready ← select max set selected
  firstReady ready server.retainedClients.entries

def _waitClientActivity (selected : List Selected) : Call Nat := locked (pollClients selected)

def waitClientActivity (selected : List Selected) : Call Nat := do
  chkl
  locked (_waitClientActivity selected)

def waitClientActivityFair (selected : List Selected) : Call Nat := do
  chkl
  locked do
    let it ← _waitClientActivity selected
    modify (Server.modifyClients (fun clients => clients.splice it))
    pure it

end Socketxx.ServerPool
