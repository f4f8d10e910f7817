import Mathlib.Data.List.Nodup
import Socketxx.Library.ServedQueue
import Socketxx.PoolRange

/-!
`wait_client_activity_fair`, called again and again, with the guards left out: as the code
stands, a second guard of the mutex ends the first call in a deadlock.
-/

set_option autoImplicit false

namespace Socketxx.ServerPool

open Runs ScopedLock ServedQueue

/-- `wait_client_activity_fair` without its guards. -/
def pollClientsFair (selected : List Selected) : Call Nat := do
  chkl
  let it ← pollClients selected
  LockM.modify (Server.modifyClients (fun clients => clients.splice it))
  pure it

def fairStep (world : Guarded Server) (selected : List Selected) : Guarded Server :=
  (pollClientsFair selected world).2

def fairOutcomes : List (List Selected) → Guarded Server → List (Outcome Error Fault Nat)
  | [], _ => []
  | selected :: later, world =>
      (pollClientsFair selected world).1 :: fairOutcomes later (fairStep world selected)

private theorem fairOutcomes_length (calls : List (List Selected)) (world : Guarded Server) :
    (fairOutcomes calls world).length = calls.length := by
  induction calls generalizing world with
  | nil => rfl
  | cons selected later ih => exact congrArg (· + 1) (ih (fairStep world selected))

/-- The call gets to `select`, which reports these descriptors. -/
def Reported (world : Guarded Server) (selected : List Selected) (ready : FdSet) : Prop :=
  world.state.listening = true ∧
    ∃ max set, world.state.retainedClients.fillFdset = some (max, set) ∧
      select max set selected world = (.returned ready, world)

/-- The descriptor of the entry `id` is one of them. -/
def Reports (id : Nat) (world : Guarded Server) (selected : List Selected) : Prop :=
  ∃ ready, Reported world selected ready ∧
    ∃ entry ∈ world.state.retainedClients.entries, entry.id = id ∧ entry.client.fd ∈ ready

/-- The call returns the first entry of the list that is ready. -/
def ReturnsFirst (world : Guarded Server) (selected : List Selected) : Prop :=
  ∃ ready before entry later, Reported world selected ready ∧
    world.state.retainedClients.entries = before ++ entry :: later ∧
    (∀ other ∈ before, other.client.fd ∉ ready) ∧ entry.client.fd ∈ ready ∧
    (pollClientsFair selected world).1 = .returned entry.id

/-- The entries are those of `world`, in whatever order. -/
def SameEntries (world after : Guarded Server) : Prop :=
  after.state.retainedClients.entries.Perm world.state.retainedClients.entries

/-! ### One call -/

private theorem firstReady_eq {ready : FdSet} (entries : List Entry)
    (inRange : ∀ entry ∈ entries, InRange entry.client.fd)
    (some : ∃ entry ∈ entries, entry.client.fd ∈ ready) (world : Guarded Server) :
    ∃ before entry later, entries = before ++ entry :: later ∧
      (∀ other ∈ before, other.client.fd ∉ ready) ∧ entry.client.fd ∈ ready ∧
      firstReady ready entries world = (.returned entry.id, world) := by
  induction entries with
  | nil =>
      obtain ⟨entry, member, _⟩ := some
      cases member
  | cons head rest ih =>
      rw [List.forall_mem_cons] at inRange
      have tested : fdIsset head.client.fd ready = Option.some (decide (head.client.fd ∈ ready)) :=
        if_pos inRange.1
      rw [firstReady, tested]
      by_cases here : head.client.fd ∈ ready
      · refine ⟨[], head, rest, rfl, List.forall_mem_nil _, here, ?_⟩
        rw [decide_eq_true here]
        rfl
      · have behind : ∃ entry ∈ rest, entry.client.fd ∈ ready := by
          obtain ⟨entry, member, marked⟩ := some
          rcases List.mem_cons.mp member with same | member
          · rw [same] at marked
            exact absurd marked here
          · exact ⟨entry, member, marked⟩
        obtain ⟨before, entry, later, split, idle, marked, ran⟩ := ih inRange.2 behind
        refine ⟨head :: before, entry, later, ?_, ?_, marked, ?_⟩
        · rw [split, List.cons_append]
        · rw [List.forall_mem_cons]
          exact ⟨here, idle⟩
        · rw [decide_eq_false here]
          exact ran

private theorem RetainedClients.splice_entries {clients : RetainedClients}
    {before later : List Entry}
    {entry : Entry} (split : clients.entries = before ++ entry :: later) :
    (clients.splice entry.id).entries = before ++ later ++ [entry] := by
  have distinct := clients.distinct
  rw [split, List.map_append, List.map_cons, List.nodup_append] at distinct
  obtain ⟨_, behind, apart⟩ := distinct
  have front : ∀ other ∈ before, (other.id == entry.id) = false := by
    intro other member
    rw [beq_eq_false_iff_ne]
    exact apart other.id (List.mem_map_of_mem member) entry.id List.mem_cons_self
  have back : ∀ other ∈ later, (other.id == entry.id) = false := by
    intro other member
    rw [beq_eq_false_iff_ne]
    intro same
    apply (List.nodup_cons.mp behind).1
    rw [← same]
    exact List.mem_map_of_mem member
  change clients.entries.filter _ ++ clients.entries.filter _ = _
  rw [split, List.filter_append, List.filter_append, List.filter_cons, List.filter_cons,
    List.filter_eq_self.mpr (fun other member => by rw [front other member]; rfl),
    List.filter_eq_self.mpr (fun other member => by rw [back other member]; rfl),
    List.filter_eq_nil_iff.mpr (fun other member => by rw [front other member]; simp),
    List.filter_eq_nil_iff.mpr (fun other member => by rw [back other member]; simp)]
  simp

private theorem pollClientsFair_serves {world : Guarded Server} {selected : List Selected}
    {ready : FdSet} (reported : Reported world selected ready)
    (some : ∃ entry ∈ world.state.retainedClients.entries, entry.client.fd ∈ ready) :
    ∃ entry, (pollClientsFair selected world).1 = .returned entry.id ∧
      ReturnsFirst world selected ∧
      Serve (fun other : Entry => other.client.fd ∈ ready)
        world.state.retainedClients.entries entry
        (fairStep world selected).state.retainedClients.entries := by
  obtain ⟨listens, max, set, filled, ran⟩ := reported
  have checked : chkl world = (.returned (), world) := by
    simp [chkl, LockM.bind_apply, LockM.get, listens, pure, LockM.pure]
  obtain ⟨before, entry, later, split, idle, marked, first⟩ :=
    firstReady_eq _ (RetainedClients.inRange_of_filled filled) some world
  have polled : pollClients selected world = (.returned entry.id, world) := by
    rw [pollClients_filled filled, LockM.bind_returned ran]
    exact first
  have call : pollClientsFair selected world =
      (.returned entry.id, ⟨world.held,
        world.state.modifyClients (fun clients => clients.splice entry.id)⟩) := by
    rw [pollClientsFair, LockM.bind_returned checked, LockM.bind_returned polled]
    rfl
  have returned : (pollClientsFair selected world).1 = .returned entry.id := by rw [call]
  refine ⟨entry, returned, ?_, marked, before, later, split, idle, ?_⟩
  · exact ⟨ready, before, entry, later, ⟨listens, max, set, filled, ran⟩, split, idle, marked,
      returned⟩
  · rw [fairStep, call]
    exact RetainedClients.splice_entries split

/-! ### Successive calls -/

private theorem RetainedClients.eq_of_id {clients : RetainedClients} {entry other : Entry}
    (member : entry ∈ clients.entries) (beside : other ∈ clients.entries)
    (same : entry.id = other.id) : entry = other :=
  List.inj_on_of_nodup_map clients.distinct member beside same

private theorem fairOutcomes_serves {waiting : Entry} {origin world : Guarded Server}
    (calls : List (List Selected))
    (member : waiting ∈ world.state.retainedClients.entries) (same : SameEntries origin world)
    (reports : EveryStep fairStep (Reports waiting.id) world calls) :
    EveryStep fairStep ReturnsFirst world calls ∧
      EveryState fairStep (SameEntries origin) world calls ∧
      ∃ all : List Entry, Serves waiting world.state.retainedClients.entries all ∧
        fairOutcomes calls world = all.map (fun entry => .returned entry.id) := by
  induction calls generalizing world with
  | nil => exact ⟨trivial, same, [], Serves.nil _, rfl⟩
  | cons selected later ih =>
      obtain ⟨⟨ready, reported, reportedEntry, listed, named, marked⟩, others⟩ := reports
      obtain ⟨entry, returned, first, serve⟩ :=
        pollClientsFair_serves reported ⟨reportedEntry, listed, marked⟩
      rw [RetainedClients.eq_of_id listed member named] at marked
      obtain ⟨firsts, states, all, serves, outcomes⟩ :=
        ih (serve.perm.mem_iff.mpr member) (serve.perm.trans same) others
      refine ⟨⟨first, firsts⟩, ⟨same, states⟩, entry :: all, ?_, ?_⟩
      · exact Serves.cons serve marked serves
      · rw [fairOutcomes, returned, outcomes, List.map_cons]

/-- A client at position `p` that is reported each time is returned within `p + 1` calls.
Each call returns the first client that is ready, and the list only changes its order. -/
theorem pool_fair (world : Guarded Server) (c p : Nat)
    (place : world.state.retainedClients.ids[p]? = some c) (calls : List (List Selected))
    (count : calls.length = p + 1) (reports : EveryStep fairStep (Reports c) world calls) :
    EveryStep fairStep ReturnsFirst world calls ∧
      EveryState fairStep (SameEntries world) world calls ∧
      .returned c ∈ fairOutcomes calls world := by
  rw [RetainedClients.ids, List.getElem?_map, Option.map_eq_some_iff] at place
  obtain ⟨waiting, found, rfl⟩ := place
  obtain ⟨inside, here⟩ := List.getElem?_eq_some_iff.mp found
  have split : world.state.retainedClients.entries =
      world.state.retainedClients.entries.take p ++
        waiting :: world.state.retainedClients.entries.drop (p + 1) := by
    rw [← here, List.getElem_cons_drop, List.take_append_drop]
  obtain ⟨firsts, states, all, serves, outcomes⟩ :=
    fairOutcomes_serves calls (List.mem_of_getElem? found) (List.Perm.refl _) reports
  refine ⟨firsts, states, ?_⟩
  rw [split] at serves
  have size : all.length = p + 1 := by
    rw [← count, ← fairOutcomes_length calls world, outcomes, List.length_map]
  have served := serves.mem (by rw [List.length_take]; omega)
  rw [outcomes]
  exact List.mem_map_of_mem served

def twoClients : Guarded Server :=
  ⟨false, ⟨3, true, (RetainedClients.empty.insert ⟨4, 0⟩).insert ⟨5, 1⟩⟩⟩

/-- Both clients are ready each time, and the second one has its turn. -/
theorem twoClients_fair :
    .returned 1 ∈ fairOutcomes [[.ready [4, 5]], [.ready [4, 5]]] twoClients := by
  have first : Reports 1 twoClients [.ready [4, 5]] :=
    ⟨[5, 4], ⟨rfl, 5, [5, 4], rfl, rfl⟩, ⟨1, ⟨5, 1⟩⟩, by decide, rfl, by decide⟩
  have second : Reports 1 (fairStep twoClients [.ready [4, 5]]) [.ready [4, 5]] :=
    ⟨[4, 5], ⟨rfl, 5, [4, 5], rfl, rfl⟩, ⟨1, ⟨5, 1⟩⟩, by decide, rfl, by decide⟩
  exact (pool_fair twoClients 1 1 rfl [[.ready [4, 5]], [.ready [4, 5]]] rfl
    ⟨first, second, trivial⟩).2.2

end Socketxx.ServerPool
