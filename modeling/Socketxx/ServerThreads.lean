import Mathlib.Data.List.Nodup
import Socketxx.Library.CriticalSection
import Socketxx.PoolSteps
import Socketxx.ServerMutex

/-!
Threads that share a `socket_server`, with its mutex: each makes the calls it likes, and
the threads interleave in any way.

The pools and `clients_foreach` do not take the mutex, and the server says so; the threads
here leave them alone, and nobody starts or stops listening.
-/

set_option autoImplicit false

namespace Socketxx.ServerPool

open ScopedLock CriticalSection

/-- A call that a thread makes, with what the system answers it. -/
inductive ThreadCall where
  | retainClient (client : Client)
  | releaseClient (id : Nat)
  | waitNewClient (accept : Accept)
  | waitNewClientRetained (accept : Accept)
  | waitClientActivity (selected : List Selected)
  | waitClientActivityFair (selected : List Selected)
deriving DecidableEq, Repr

inductive Value where
  | retained (entry : Entry)
  | released
  | accepted (client : Client)
  | awaked (id : Nat)
deriving DecidableEq, Repr

abbrev Result := Except Error Value

def ThreadCall.run : ThreadCall → Call Value
  | .retainClient client => Value.retained <$> ServerPool.retainClient client
  | .releaseClient id => (fun _ => Value.released) <$> ServerPool.releaseClient id
  | .waitNewClient accept => Value.accepted <$> ServerPool.waitNewClient accept
  | .waitNewClientRetained accept =>
      Value.retained <$> ServerPool.waitNewClientRetained accept
  | .waitClientActivity selected => Value.awaked <$> ServerPool.waitClientActivity selected
  | .waitClientActivityFair selected =>
      Value.awaked <$> ServerPool.waitClientActivityFair selected

/-- The same call, made by the only thread there is. -/
def ThreadCall.alone : ThreadCall → PublicCall
  | .retainClient client => .retainClient client
  | .releaseClient id => .releaseClient id
  | .waitNewClient accept => .waitNewClient accept
  | .waitNewClientRetained accept => .waitNewClientRetained accept
  | .waitClientActivity selected => .waitClientActivity selected
  | .waitClientActivityFair selected => .waitClientActivityFair selected

/-- What a call does to the server, from when it has the mutex to when it gives it back. -/
def settles (call : ThreadCall) (server : Server) : Effect Server Result :=
  match call.run ⟨false, server⟩ with
  | (.returned value, after) => .stores after.state (.ok value)
  | (.threw error, after) => .stores after.state (.error error)
  | (.undefined _, _) => .undefined
  | _ => .stays

/-- `chkl` comes before the guard in the two waits for activity. -/
def ThreadCall.takesMutex (listening : Bool) : ThreadCall → Bool
  | .retainClient _ | .releaseClient _ | .waitNewClientRetained _ => true
  | .waitNewClient _ => false
  | .waitClientActivity _ | .waitClientActivityFair _ => listening

/-- What a call answers that has no need of the clients. -/
def ThreadCall.answer (listening : Bool) (call : ThreadCall) : Option Result :=
  match settles call ⟨-1, listening, .empty⟩ with
  | .stores _ result => some result
  | _ => none

def body (listening : Bool) (call : ThreadCall) : Body Server Result :=
  if call.takesMutex listening then .update (settles call) else .outside (call.answer listening)

variable {ι : Type}

/-- One thread makes the calls one after the other. -/
def Sequential (server : Server) : List (Commit ι ThreadCall Result) → Server → Prop
  | [], final => final = server
  | commit :: later, final =>
      ∃ after, settles commit.op server = .stores after commit.result ∧
        Sequential after later final

/-! ### The calls -/

private theorem settles_retainClient (client : Client) (server : Server) :
    settles (.retainClient client) server =
      .stores (server.modifyClients (fun clients => clients.insert client))
        (.ok (.retained ⟨server.retainedClients.nextId, client⟩)) := rfl

theorem settles_releaseClient (id : Nat) (server : Server) :
    settles (.releaseClient id) server =
      if id ∈ server.retainedClients.ids then
        .stores (server.modifyClients (fun clients => clients.erase id)) (.ok .released)
      else .undefined := by
  by_cases here : id ∈ server.retainedClients.ids
  · have released : ServerPool.releaseClient id ⟨false, server⟩ = (.returned (),
        ⟨false, server.modifyClients (fun clients => clients.erase id)⟩) := by
      simp [ServerPool.releaseClient, LockM.locked, LockM.bind_apply, LockM.get, here,
        LockM.modify]
    have run : (ThreadCall.releaseClient id).run ⟨false, server⟩ = (.returned .released,
        ⟨false, server.modifyClients (fun clients => clients.erase id)⟩) :=
      LockM.bind_returned released
    rw [if_pos here, settles, run]
  · have erased : ServerPool.releaseClient id ⟨false, server⟩ =
        (.undefined .erased, ⟨true, server⟩) := by
      simp [ServerPool.releaseClient, LockM.locked, LockM.bind_apply, LockM.get, here,
        LockM.undefined]
    have run : (ThreadCall.releaseClient id).run ⟨false, server⟩ =
        (.undefined .erased, ⟨true, server⟩) := by
      change (ServerPool.releaseClient id >>= fun _ => pure Value.released) _ = _
      rw [LockM.bind_apply, erased]
    rw [if_neg here, settles, run]

/-- The calls that leave the clients alone. -/
def ThreadCall.Looks : ThreadCall → Prop
  | .retainClient _ | .releaseClient _ => False
  | _ => True

def unchanged (server : Server) : Option Result → Effect Server Result
  | some result => .stores server result
  | none => .stays

theorem settles_looks {call : ThreadCall} (looks : call.Looks) (server : Server) :
    settles call server = unchanged server (call.answer server.listening) := by
  obtain ⟨fd, listening, clients⟩ := server
  cases call with
  | retainClient client => exact looks.elim
  | releaseClient id => exact looks.elim
  | waitNewClient accept => cases listening <;> cases accept <;> rfl
  | waitNewClientRetained accept => cases listening <;> cases accept <;> rfl
  | waitClientActivity selected => cases listening <;> rfl
  | waitClientActivityFair selected => cases listening <;> rfl

theorem settles_answered {call : ThreadCall} (looks : call.Looks) {server after : Server}
    {result : Result} (settled : settles call server = .stores after result) :
    after = server ∧ call.answer server.listening = some result := by
  rw [settles_looks looks] at settled
  cases answer : call.answer server.listening with
  | some other =>
      rw [answer] at settled
      cases settled
      exact ⟨rfl, rfl⟩
  | none =>
      rw [answer] at settled
      cases settled

theorem settles_unanswered {call : ThreadCall} (looks : call.Looks) {server : Server} :
    settles call server = .stays ↔ call.answer server.listening = none := by
  rw [settles_looks looks]
  cases call.answer server.listening with
  | some result => exact iff_of_false nofun nofun
  | none => exact iff_of_true rfl rfl

theorem settles_cases {call : ThreadCall} {server after : Server} {result : Result}
    (settled : settles call server = .stores after result) :
    (∃ client, call = .retainClient client ∧
      after = server.modifyClients (fun clients => clients.insert client) ∧
      result = .ok (.retained ⟨server.retainedClients.nextId, client⟩)) ∨
    (∃ id ∈ server.retainedClients.ids, call = .releaseClient id ∧
      after = server.modifyClients (fun clients => clients.erase id) ∧
      result = .ok .released) ∨
    (call.Looks ∧ after = server ∧ ∀ entry, result ≠ .ok (.retained entry)) := by
  by_cases looks : call.Looks
  · obtain ⟨same, answered⟩ := settles_answered looks settled
    refine .inr (.inr ⟨looks, same, ?_⟩)
    rintro entry rfl
    obtain ⟨fd, listening, clients⟩ := server
    cases call with
    | retainClient client => exact looks
    | releaseClient id => exact looks
    | waitNewClient accept => cases listening <;> cases accept <;> cases answered
    | waitNewClientRetained accept => cases listening <;> cases accept <;> cases answered
    | waitClientActivity selected => cases listening <;> cases answered
    | waitClientActivityFair selected => cases listening <;> cases answered
  · cases call with
    | retainClient client =>
        rw [settles_retainClient] at settled
        cases settled
        exact .inl ⟨client, rfl, rfl, rfl⟩
    | releaseClient id =>
        rw [settles_releaseClient] at settled
        split at settled
        case isTrue present =>
          cases settled
          exact .inr (.inl ⟨id, present, rfl, rfl, rfl⟩)
        case isFalse => cases settled
    | _ => exact (looks trivial).elim

theorem settles_listening {call : ThreadCall} {server after : Server} {result : Result}
    (settled : settles call server = .stores after result) :
    after.listening = server.listening := by
  rcases settles_cases settled with ⟨client, _, rfl, _⟩ | ⟨id, _, _, rfl, _⟩ | ⟨_, rfl, _⟩
  · rfl
  · rfl
  · rfl

theorem ThreadCall.looks_of_mutexless {listening : Bool} {call : ThreadCall}
    (mutexless : call.takesMutex listening = false) : call.Looks := by
  cases call with
  | retainClient client => cases mutexless
  | releaseClient id => cases mutexless
  | _ => trivial

theorem body_update {listening : Bool} {call : ThreadCall} {f : Server → Effect Server Result}
    (update : body listening call = .update f) :
    call.takesMutex listening = true ∧ f = settles call := by
  rw [body] at update
  split at update
  case isTrue takes =>
    cases update
    exact ⟨takes, rfl⟩
  case isFalse => cases update

theorem body_outside {listening : Bool} {call : ThreadCall} {result : Option Result}
    (outside : body listening call = .outside result) :
    call.takesMutex listening = false ∧ call.answer listening = result := by
  rw [body] at outside
  split at outside
  case isTrue => cases outside
  case isFalse takes =>
    cases outside
    exact ⟨(Bool.not_eq_true _).mp takes, rfl⟩

private theorem legal_sequential {listening : Bool} {server final : Server}
    {order : List (Commit ι ThreadCall Result)}
    (legal : Legal (body listening) server order final)
    (same : server.listening = listening) : Sequential server order final := by
  induction legal with
  | nil server => rfl
  | update update defined _rest ih =>
      obtain ⟨_takes, rfl⟩ := body_update update
      exact ⟨_, defined, ih ((settles_listening defined).trans same)⟩
  | outside outside _rest ih =>
      obtain ⟨mutexless, answer⟩ := body_outside outside
      refine ⟨_, ?_, ih same⟩
      rw [settles_looks (ThreadCall.looks_of_mutexless mutexless), same, answer]
      rfl

/-- The calls that do not return, each for a reason of its own. -/
inductive ThreadCall.Hangs (server : Server) : ThreadCall → Prop where
  | relocks {call : ThreadCall} (relocks : call.alone.Relocks server) : Hangs server call
  | noClient {call : ThreadCall} (listening : server.listening = true)
      (pending : call = .waitNewClient .pending ∨ call = .waitNewClientRetained .pending) :
      Hangs server call

private theorem ThreadCall.Hangs.of_settles {call : ThreadCall} {server : Server}
    (hangs : settles call server = .stays) : call.Hangs server := by
  by_cases looks : call.Looks
  · rw [settles_unanswered looks] at hangs
    cases listening : server.listening with
    | false =>
        rw [listening] at hangs
        cases call with
        | retainClient client => exact looks.elim
        | releaseClient id => exact looks.elim
        | _ => cases hangs
    | true =>
        rw [listening] at hangs
        cases call with
        | retainClient client => exact looks.elim
        | releaseClient id => exact looks.elim
        | waitNewClient accept =>
            cases accept with
            | pending => exact .noClient listening (.inl rfl)
            | failed => cases hangs
            | accepted client => cases hangs
        | waitNewClientRetained accept =>
            cases accept with
            | pending => exact .noClient listening (.inr rfl)
            | failed => cases hangs
            | accepted client => exact .relocks ⟨listening, client, rfl⟩
        | waitClientActivity selected => exact .relocks listening
        | waitClientActivityFair selected => exact .relocks listening
  · cases call with
    | retainClient client => cases hangs
    | releaseClient id =>
        rw [settles_releaseClient] at hangs
        split at hangs <;> cases hangs
    | _ => exact (looks trivial).elim

private theorem ThreadCall.Hangs.settles {call : ThreadCall} {server : Server}
    (hangs : call.Hangs server) : ServerPool.settles call server = .stays := by
  obtain ⟨fd, listening, clients⟩ := server
  cases hangs with
  | relocks relocks =>
      cases call with
      | retainClient client => exact relocks.elim
      | releaseClient id => exact relocks.elim
      | waitNewClient accept => exact relocks.elim
      | waitNewClientRetained accept =>
          obtain ⟨rfl, client, rfl⟩ := relocks
          rfl
      | waitClientActivity selected =>
          cases relocks
          rfl
      | waitClientActivityFair selected =>
          cases relocks
          rfl
  | noClient here pending =>
      cases here
      rcases pending with rfl | rfl <;> rfl

theorem settles_stays {call : ThreadCall} {server : Server} :
    settles call server = .stays ↔ call.Hangs server :=
  ⟨ThreadCall.Hangs.of_settles, ThreadCall.Hangs.settles⟩

private theorem settles_undefined {call : ThreadCall} {server : Server} :
    settles call server = .undefined ↔
      ∃ id, call = .releaseClient id ∧ id ∉ server.retainedClients.ids := by
  constructor
  · intro undefined
    by_cases looks : call.Looks
    · rw [settles_looks looks] at undefined
      cases answer : call.answer server.listening with
      | some result =>
          rw [answer] at undefined
          cases undefined
      | none =>
          rw [answer] at undefined
          cases undefined
    · cases call with
      | retainClient client => cases undefined
      | releaseClient id =>
          rw [settles_releaseClient] at undefined
          split at undefined
          case isTrue => cases undefined
          case isFalse gone => exact ⟨id, rfl, gone⟩
      | _ => exact (looks trivial).elim
  · rintro ⟨id, rfl, gone⟩
    rw [settles_releaseClient, if_neg gone]

/-! ### Runs of threads -/

variable {server : Server} {s t : State ι Server ThreadCall Result}

theorem Sequential.listening {final : Server} {order : List (Commit ι ThreadCall Result)}
    (sequential : Sequential server order final) : final.listening = server.listening := by
  induction order generalizing server with
  | nil => rw [sequential]
  | cons commit later ih =>
      obtain ⟨after, settled, rest⟩ := sequential
      exact (ih rest).trans (settles_listening settled)

variable [DecidableEq ι]

theorem reached_sequential (reached : Reached (body server.listening) server s) :
    Sequential server s.order s.shared :=
  legal_sequential (CriticalSection.Reached.linearizes reached).legal rfl

omit [DecidableEq ι] in
private theorem Sequential.legal {listening : Bool} {final : Server}
    {order : List (Commit ι ThreadCall Result)} (sequential : Sequential server order final)
    (same : server.listening = listening) : Legal (body listening) server order final := by
  induction order generalizing server with
  | nil =>
      rw [show final = server from sequential]
      exact Legal.nil server
  | cons commit later ih =>
      obtain ⟨after, settled, rest⟩ := sequential
      have legal := ih rest ((settles_listening settled).trans same)
      cases takes : commit.op.takesMutex listening with
      | true => exact Legal.update (if_pos takes) settled legal
      | false =>
          obtain ⟨rfl, answer⟩ :=
            settles_answered (ThreadCall.looks_of_mutexless takes) settled
          refine Legal.outside ?_ legal
          rw [same] at answer
          rw [body, takes, answer]
          rfl

theorem Sequential.reached {final : Server} {order : List (Commit ι ThreadCall Result)}
    (sequential : Sequential server order final) :
    ∃ s, Reached (body server.listening) server s ∧ Between (State.start server) order final s :=
  Quiet.between ⟨rfl, rfl, fun _ => rfl⟩ (sequential.legal rfl)

/-- Whatever the threads do, it is as if one of them had made all the calls, in an order
that nobody can tell from the real one. -/
theorem calls_linearize (reached : Reached (body server.listening) server s) :
    (∀ i j, (s.phase i).Holds → (s.phase j).Holds → i = j) ∧
      Sequential server s.order s.shared ∧
      (∀ i, returnsOf i s.history <+: commitsOf i s.order) ∧
      (∀ i, (commitsOf i s.order).map Prod.fst <+: callsOf i s.history) ∧
      RealTime s.history s.order := by
  have locked := CriticalSection.Reached.locked reached
  have linearizes := CriticalSection.Reached.linearizes reached
  exact ⟨fun _ _ => locked.exclusive, reached_sequential reached, linearizes.results,
    linearizes.program, linearizes.realTime⟩

def listeningServer : Server := ⟨3, true, .empty⟩

/-- Two threads retain a client each. The first to ask is the last to get the mutex; what the
other one has retained it releases again. -/
theorem crossingCalls : ∃ s : State Bool Server ThreadCall Result,
    Reached (body listeningServer.listening) listeningServer s ∧
      s.history =
        [.called true (.retainClient ⟨5, 7⟩), .called false (.retainClient ⟨6, 8⟩),
          .returned false (.retainClient ⟨6, 8⟩) (.ok (.retained ⟨0, ⟨6, 8⟩⟩)),
          .called false (.releaseClient 0),
          .returned true (.retainClient ⟨5, 7⟩) (.ok (.retained ⟨1, ⟨5, 7⟩⟩)),
          .returned false (.releaseClient 0) (.ok .released)] ∧
      s.order =
        [⟨false, .retainClient ⟨6, 8⟩, .ok (.retained ⟨0, ⟨6, 8⟩⟩)⟩,
          ⟨true, .retainClient ⟨5, 7⟩, .ok (.retained ⟨1, ⟨5, 7⟩⟩)⟩,
          ⟨false, .releaseClient 0, .ok .released⟩] ∧
      s.shared.retainedClients.entries = [⟨1, ⟨5, 7⟩⟩] := by
  have asked : Step (body true) (State.start listeningServer) _ :=
    ⟨rfl, .call true (.retainClient ⟨5, 7⟩) rfl⟩
  have run := Relation.ReflTransGen.single asked
  replace run := run.tail ⟨rfl, .call false (.retainClient ⟨6, 8⟩) rfl⟩
  replace run := run.tail ⟨rfl, .lock false rfl rfl rfl⟩
  replace run := run.tail ⟨rfl, .load false rfl rfl⟩
  replace run := run.tail ⟨rfl, .store false rfl rfl rfl⟩
  replace run := run.tail ⟨rfl, .unlock false rfl⟩
  replace run := run.tail ⟨rfl, .lock true rfl rfl rfl⟩
  replace run := run.tail ⟨rfl, .leave false rfl⟩
  replace run := run.tail ⟨rfl, .load true rfl rfl⟩
  replace run := run.tail ⟨rfl, .call false (.releaseClient 0) rfl⟩
  replace run := run.tail ⟨rfl, .store true rfl rfl rfl⟩
  replace run := run.tail ⟨rfl, .unlock true rfl⟩
  replace run := run.tail ⟨rfl, .leave true rfl⟩
  replace run := run.tail ⟨rfl, .lock false rfl rfl rfl⟩
  replace run := run.tail ⟨rfl, .load false rfl rfl⟩
  replace run := run.tail ⟨rfl, .store false rfl rfl rfl⟩
  replace run := run.tail ⟨rfl, .unlock false rfl⟩
  replace run := run.tail ⟨rfl, .leave false rfl⟩
  exact ⟨_, run, rfl, rfl, rfl⟩

theorem calls_linearize_two : ∃ s : State Bool Server ThreadCall Result,
    s.history.take 2 =
        [.called true (.retainClient ⟨5, 7⟩), .called false (.retainClient ⟨6, 8⟩)] ∧
      s.order.map Commit.thread = [false, true, false] ∧
      Sequential listeningServer s.order s.shared ∧ RealTime s.history s.order := by
  obtain ⟨s, reached, history, order, _entries⟩ := crossingCalls
  have result := calls_linearize reached
  refine ⟨s, ?_, ?_, result.2.1, result.2.2.2.2⟩
  · rw [history]
    rfl
  · rw [order]
    rfl

private theorem stays_of_relocks (reached : Reached (body server.listening) server s) {i : ι}
    {call : ThreadCall} (inside : s.phase i = .inside call)
    (relocks : call.alone.Relocks s.shared) : Stays (body server.listening) s i := by
  have guarded := CriticalSection.Reached.guarded reached i
  rw [inside] at guarded
  obtain ⟨f, update⟩ := guarded
  obtain ⟨_takes, rfl⟩ := body_update update
  exact ⟨call, _, update, settles_stays.mpr (.relocks relocks), .inl inside⟩

/-- One thread that takes the mutex twice is the end for all of them: the list of clients
does not change any more, no other thread gets the mutex, and only calls that never take
it still return. -/
theorem threads_frozen (reached : Reached (body server.listening) server s) {i : ι}
    {call : ThreadCall} (inside : s.phase i = .inside call)
    (relocks : call.alone.Relocks s.shared)
    (later : Relation.ReflTransGen (Step (body server.listening)) s t) :
    t.shared = s.shared ∧ (∀ j, (t.phase j).Holds ↔ j = i) ∧
      (∀ j other, s.phase j = .waiting other → other.takesMutex server.listening = true →
        t.phase j = .waiting other) ∧
      ∃ calls, t.order = s.order ++ calls ∧
        ∀ commit ∈ calls, ∃ accept, commit.op = .waitNewClient accept := by
  have stays := stays_of_relocks reached inside relocks
  obtain ⟨still, shared, ⟨calls, order, outside⟩, waits⟩ := stays.frozen reached later
  have locked := CriticalSection.Reached.locked (Relation.ReflTransGen.trans reached later)
  refine ⟨shared, ?_, ?_, calls, order, ?_⟩
  · intro j
    constructor
    · exact fun holds => locked.exclusive holds still.holds
    · rintro rfl
      exact still.holds
  · intro j other waiting takes
    exact waits j other _ waiting (if_pos takes)
  · intro commit member
    obtain ⟨mutexless, _answer⟩ := body_outside (outside commit member)
    -- on a server that listens every other call takes the mutex
    have listening : server.listening = true := by
      rw [← (reached_sequential reached).listening]
      cases call with
      | retainClient client => exact relocks.elim
      | releaseClient id => exact relocks.elim
      | waitNewClient accept => exact relocks.elim
      | waitNewClientRetained accept => exact relocks.1
      | waitClientActivity selected => exact relocks
      | waitClientActivityFair selected => exact relocks
    rw [listening] at mutexless
    cases here : commit.op with
    | waitNewClient accept => exact ⟨accept, rfl⟩
    | _ =>
        rw [here] at mutexless
        cases mutexless

theorem activityCalls : ∃ s : State Bool Server ThreadCall Result,
    Reached (body listeningServer.listening) listeningServer s ∧ s.shared = listeningServer ∧
      s.phase true = .inside (.waitClientActivity []) ∧
      s.phase false = .waiting (.retainClient ⟨5, 7⟩) ∧ s.ended = false := by
  have call : Step (body true) (State.start listeningServer) _ :=
    ⟨rfl, .call true (.waitClientActivity []) rfl⟩
  have called := Relation.ReflTransGen.single call
  have takes : body true (.waitClientActivity []) =
      .update (settles (.waitClientActivity [])) := rfl
  have locked := called.tail ⟨rfl, .lock true rfl takes rfl⟩
  exact ⟨_, locked.tail ⟨rfl, .call false (.retainClient ⟨5, 7⟩) rfl⟩, rfl, rfl, rfl,
    rfl⟩

theorem threads_frozen_activity : ∃ s : State Bool Server ThreadCall Result,
    Reached (body true) listeningServer s ∧
      s.phase false = .waiting (.retainClient ⟨5, 7⟩) ∧
      ∀ t, Relation.ReflTransGen (Step (body true)) s t →
        t.phase false = .waiting (.retainClient ⟨5, 7⟩) ∧ t.shared = listeningServer := by
  obtain ⟨s, reached, shared, inside, waiting, _running⟩ := activityCalls
  have relocks : (ThreadCall.waitClientActivity []).alone.Relocks s.shared := by
    rw [shared]
    rfl
  refine ⟨s, reached, waiting, ?_⟩
  intro t later
  have result := threads_frozen reached inside relocks later
  exact ⟨result.2.2.1 false _ waiting rfl, result.1.trans shared⟩

/-- A thread in a call that does not come to an end, with the mutex or waiting for a
connection without it. -/
def HangsIn (s : State ι Server ThreadCall Result) (i : ι) : Prop :=
  ∃ call, call.Hangs s.shared ∧
    (s.phase i = .inside call ∨ s.phase i = .loaded call s.shared ∨
      (s.phase i = .waiting call ∧ call.takesMutex s.shared.listening = false))

theorem hangsIn_iff (reached : Reached (body server.listening) server s) (i : ι) :
    HangsIn s i ↔ Stays (body server.listening) s i ∨
      ∃ call, s.phase i = .waiting call ∧ body server.listening call = .outside none := by
  have listening := (reached_sequential reached).listening
  have guarded := CriticalSection.Reached.guarded reached i
  constructor
  · rintro ⟨call, hangs, inside | loaded | ⟨waiting, mutexless⟩⟩
    · rw [inside] at guarded
      obtain ⟨f, update⟩ := guarded
      obtain ⟨_takes, rfl⟩ := body_update update
      exact .inl ⟨call, _, update, settles_stays.mpr hangs, .inl inside⟩
    · rw [loaded] at guarded
      obtain ⟨f, update⟩ := guarded
      obtain ⟨_takes, rfl⟩ := body_update update
      exact .inl ⟨call, _, update, settles_stays.mpr hangs, .inr loaded⟩
    · refine .inr ⟨call, waiting, ?_⟩
      have looks := ThreadCall.looks_of_mutexless mutexless
      have none := (settles_unanswered looks).mp (settles_stays.mpr hangs)
      rw [listening] at mutexless none
      rw [body, mutexless, none]
      rfl
  · rintro (⟨call, f, update, hangs, inside⟩ | ⟨call, waiting, outside⟩)
    · obtain ⟨_takes, rfl⟩ := body_update update
      refine ⟨call, settles_stays.mp hangs, ?_⟩
      rcases inside with inside | loaded
      · exact .inl inside
      · exact .inr (.inl loaded)
    · obtain ⟨mutexless, none⟩ := body_outside outside
      refine ⟨call, settles_stays.mp ?_, .inr (.inr ⟨waiting, listening ▸ mutexless⟩)⟩
      rw [settles_unanswered (ThreadCall.looks_of_mutexless mutexless), listening, none]

private theorem HangsIn.forever (reached : Reached (body server.listening) server s) {i : ι}
    (hangs : HangsIn s i) (later : Relation.ReflTransGen (Step (body server.listening)) s t) :
    HangsIn t i := by
  apply (hangsIn_iff (Relation.ReflTransGen.trans reached later) i).mpr
  rcases (hangsIn_iff reached i).mp hangs with stays | ⟨call, waiting, outside⟩
  · exact .inl (stays.frozen reached later).1
  · exact .inr ⟨call, outside_forever outside waiting later, outside⟩

/-- A thread in the release of an iterator whose entry is erased. -/
def ReleasesErased (s : State ι Server ThreadCall Result) (i : ι) : Prop :=
  ∃ id, s.phase i = .loaded (.releaseClient id) s.shared ∧ id ∉ s.shared.retainedClients.ids

omit [DecidableEq ι] in
private theorem releasesErased_of_faults {i : ι} (faults : Faults (body server.listening) s i) :
    ReleasesErased s i := by
  obtain ⟨call, f, update, undefined, loaded⟩ := faults
  obtain ⟨_takes, rfl⟩ := body_update update
  obtain ⟨id, rfl, gone⟩ := settles_undefined.mp undefined
  exact ⟨id, loaded, gone⟩

/-- The threads stop only for one that hangs, and this one hangs for good, or with the release
of an erased iterator. -/
theorem threads_go (reached : Reached (body server.listening) server s) {i : ι}
    (busy : s.phase i ≠ .idle) :
    (∃ j, Goes (body server.listening) s j) ∨
      (∃ j, HangsIn s j ∧ ∀ t, Relation.ReflTransGen (Step (body server.listening)) s t →
        HangsIn t j) ∨
      ∃ j, ReleasesErased s j := by
  have forever : ∀ j, HangsIn s j → HangsIn s j ∧
      ∀ t, Relation.ReflTransGen (Step (body server.listening)) s t → HangsIn t j :=
    fun j hangs => ⟨hangs, fun t later => hangs.forever reached later⟩
  rcases CriticalSection.Reached.goes reached busy with goes | ⟨j, stays⟩ | ⟨j, faults⟩ | outside
  · exact .inl goes
  · exact .inr (.inl ⟨j, forever j ((hangsIn_iff reached j).mpr (.inl stays))⟩)
  · exact .inr (.inr ⟨j, releasesErased_of_faults faults⟩)
  · exact .inr (.inl ⟨i, forever i ((hangsIn_iff reached i).mpr (.inr outside))⟩)

theorem threads_go_retain : ∃ s : State Bool Server ThreadCall Result,
    s.phase false = .waiting (.retainClient ⟨5, 7⟩) ∧ (∀ j, ¬ Goes (body true) s j) ∧
      ∃ j, HangsIn s j ∧ ∀ t, Relation.ReflTransGen (Step (body true)) s t → HangsIn t j := by
  obtain ⟨r, before, shared, inside, waiting, running⟩ := activityCalls
  have takes : body listeningServer.listening (.waitClientActivity []) =
      .update (settles (.waitClientActivity [])) := rfl
  have hangs : settles (.waitClientActivity []) r.shared = .stays := by
    rw [shared]
    rfl
  have step : Step (body listeningServer.listening) r _ := ⟨running, .load true inside takes⟩
  obtain ⟨s, reached, loaded, waiting, shared⟩ : ∃ s : State Bool Server ThreadCall Result,
      Reached (body listeningServer.listening) listeningServer s ∧
        s.phase true = .loaded (.waitClientActivity []) s.shared ∧
        s.phase false = .waiting (.retainClient ⟨5, 7⟩) ∧ s.shared = r.shared :=
    ⟨_, before.tail step, rfl, waiting, rfl⟩
  have stays : Stays (body listeningServer.listening) s true :=
    ⟨_, _, takes, by rw [shared]; exact hangs, .inr loaded⟩
  have still : ∀ j, ¬ Goes (body true) s j := by
    rintro j ⟨_busy, t, step, moved⟩
    cases j with
    | true => exact moved ((stays.not_goes loaded step).trans loaded.symm)
    | false =>
        have locked := CriticalSection.Reached.locked reached
        exact moved ((stays.waits locked step waiting rfl).trans waiting.symm)
  have busy : s.phase false ≠ .idle := by
    rw [waiting]
    nofun
  refine ⟨s, waiting, still, ?_⟩
  rcases threads_go reached busy with ⟨j, goes⟩ | hanging | ⟨j, id, erased, _gone⟩
  · exact absurd goes (still j)
  · exact hanging
  · cases j with
    | true =>
        rw [loaded] at erased
        cases erased
    | false =>
        rw [waiting] at erased
        cases erased

/-! ### The clients -/

/-- The entries that `retain_client` has made. -/
def retainedBy (order : List (Commit ι ThreadCall Result)) : List Entry :=
  order.filterMap fun commit =>
    match commit.result with
    | .ok (.retained entry) => some entry
    | _ => none

/-- The iterators that `release_client` has been given. -/
def releasedBy (order : List (Commit ι ThreadCall Result)) : List Nat :=
  order.filterMap fun commit =>
    match commit.op with
    | .releaseClient id => some id
    | _ => none

omit [DecidableEq ι]

theorem retainedBy_looks {commit : Commit ι ThreadCall Result}
    (other : ∀ entry, commit.result ≠ .ok (.retained entry))
    (later : List (Commit ι ThreadCall Result)) :
    retainedBy (commit :: later) = retainedBy later := by
  apply List.filterMap_cons_none
  split
  case h_1 entry same => exact absurd same (other entry)
  case h_2 => rfl

theorem releasedBy_looks {commit : Commit ι ThreadCall Result} (looks : commit.op.Looks)
    (later : List (Commit ι ThreadCall Result)) :
    releasedBy (commit :: later) = releasedBy later := by
  apply List.filterMap_cons_none
  split
  case h_1 id same =>
    rw [same] at looks
    exact looks.elim
  case h_2 => rfl

section

variable {final : Server} {order : List (Commit ι ThreadCall Result)}

private theorem Sequential.retained_ids (sequential : Sequential server order final) :
    (retainedBy order).map Entry.id =
      List.range' server.retainedClients.nextId (retainedBy order).length := by
  induction order generalizing server with
  | nil => rfl
  | cons commit later ih =>
      obtain ⟨i, op, result⟩ := commit
      obtain ⟨after, settled, rest⟩ := sequential
      have step := ih rest
      rcases settles_cases settled with ⟨client, rfl, rfl, rfl⟩ | ⟨id, _, rfl, rfl, rfl⟩ |
        ⟨_, rfl, other⟩
      · change _ :: (retainedBy later).map Entry.id = _
        rw [step]
        rfl
      · exact step
      · rw [retainedBy_looks other]
        exact step

private theorem Sequential.released_mem (sequential : Sequential server order final) {id : Nat}
    (released : id ∈ releasedBy order) :
    id ∈ (server.retainedClients.entries ++ retainedBy order).map Entry.id := by
  induction order generalizing server with
  | nil => cases released
  | cons commit later ih =>
      obtain ⟨i, op, result⟩ := commit
      obtain ⟨after, settled, rest⟩ := sequential
      rcases settles_cases settled with ⟨client, rfl, rfl, rfl⟩ | ⟨other, present, rfl, rfl, rfl⟩ |
        ⟨looks, rfl, other⟩
      · have member := ih rest released
        rw [Server.modifyClients, RetainedClients.insert] at member
        rw [List.append_assoc] at member
        exact member
      · rcases List.mem_cons.mp released with rfl | later'
        · rw [List.map_append]
          exact List.mem_append_left _ present
        · have member := ih rest later'
          rw [List.map_append, List.mem_append] at member ⊢
          rcases member with kept | made
          · exact .inl ((server.retainedClients.map_filter_sublist _).subset kept)
          · exact .inr made
      · rw [releasedBy_looks looks] at released
        rw [retainedBy_looks other]
        exact ih rest released

theorem Sequential.nodup (sequential : Sequential server order final) :
    ((server.retainedClients.entries ++ retainedBy order).map Entry.id).Nodup := by
  rw [List.map_append, sequential.retained_ids, List.nodup_append]
  refine ⟨server.retainedClients.distinct, List.nodup_range', ?_⟩
  intro old member new made same
  have bound := server.retainedClients.fresh old member
  have fresh := (List.mem_range'_1.mp made).1
  omega

private theorem Sequential.entries (sequential : Sequential server order final) :
    final.retainedClients.entries =
        (server.retainedClients.entries ++ retainedBy order).filter
          (fun entry => entry.id ∉ releasedBy order) ∧
      (releasedBy order).Nodup := by
  induction order generalizing server with
  | nil =>
      rw [sequential]
      simp [retainedBy, releasedBy]
  | cons commit later ih =>
      have distinct := sequential.nodup
      obtain ⟨i, op, result⟩ := commit
      obtain ⟨after, settled, rest⟩ := sequential
      obtain ⟨entries, once⟩ := ih rest
      rcases settles_cases settled with ⟨client, rfl, rfl, rfl⟩ | ⟨id, present, rfl, rfl, rfl⟩ |
        ⟨looks, rfl, other⟩
      · refine ⟨?_, once⟩
        rw [entries, Server.modifyClients, RetainedClients.insert, List.append_assoc]
        rfl
      · change final.retainedClients.entries =
            (server.retainedClients.entries ++ retainedBy later).filter
              (fun entry => entry.id ∉ id :: releasedBy later) ∧
          (id :: releasedBy later).Nodup
        -- what is retained later has an iterator of its own
        have apart : ∀ entry ∈ retainedBy later, entry.id ≠ id := by
          intro entry made same
          rw [List.map_append, List.nodup_append] at distinct
          exact distinct.2.2 id present entry.id (List.mem_map_of_mem made) same.symm
        have unreleased : id ∉ releasedBy later := by
          intro released
          have member := rest.released_mem released
          rw [List.map_append, List.mem_append] at member
          rcases member with kept | made
          · exact ((server.retainedClients.mem_ids_erase id id).mp kept).2 rfl
          · obtain ⟨entry, made, same⟩ := List.mem_map.mp made
            exact apart entry made same
        refine ⟨?_, List.nodup_cons.mpr ⟨unreleased, once⟩⟩
        have others : (retainedBy later).filter (fun entry => entry.id != id) =
            retainedBy later :=
          List.filter_eq_self.mpr (fun entry made => bne_iff_ne.mpr (apart entry made))
        rw [entries, Server.modifyClients, RetainedClients.erase, ← others, ← List.filter_append,
          List.filter_filter, others]
        apply List.filter_congr
        intro entry _member
        by_cases same : entry.id = id <;> simp [same]
      · rw [retainedBy_looks other, releasedBy_looks looks]
        exact ⟨entries, once⟩

end

variable [DecidableEq ι]

/-- No client is lost and none is released twice, whatever the threads do: an iterator that
`retain_client` has returned is one that nobody else was given, and its client is in the
list until a thread asks for its release. -/
theorem iterators_live (reached : Reached (body server.listening) server s) :
    s.shared.retainedClients.entries =
        (server.retainedClients.entries ++ retainedBy s.order).filter
          (fun entry => entry.id ∉ releasedBy s.order) ∧
      ((server.retainedClients.entries ++ retainedBy s.order).map Entry.id).Nodup ∧
      (releasedBy s.order).Nodup ∧
      ∀ i call entry, .returned i call (.ok (.retained entry)) ∈ s.history →
        entry ∈ s.shared.retainedClients.entries ∨
          ∃ j, .called j (.releaseClient entry.id) ∈ s.history := by
  have linearizes := CriticalSection.Reached.linearizes reached
  have sequential := reached_sequential reached
  obtain ⟨entries, once⟩ := sequential.entries
  refine ⟨entries, sequential.nodup, once, ?_⟩
  intro i call entry returned
  have made : entry ∈ retainedBy s.order :=
    List.mem_filterMap.mpr ⟨_, linearizes.of_returned returned, rfl⟩
  by_cases released : entry.id ∈ releasedBy s.order
  · right
    obtain ⟨⟨j, op, result⟩, commit, found⟩ := List.mem_filterMap.mp released
    cases op with
    | releaseClient id =>
        cases found
        exact ⟨j, linearizes.called commit⟩
    | _ => cases found
  · left
    rw [entries, List.mem_filter]
    exact ⟨List.mem_append_right _ made, decide_eq_true released⟩

theorem iterators_live_retain : ∃ s : State Bool Server ThreadCall Result,
    .returned true (.retainClient ⟨5, 7⟩) (.ok (.retained ⟨1, ⟨5, 7⟩⟩)) ∈ s.history ∧
      releasedBy s.order = [0] ∧ ⟨1, ⟨5, 7⟩⟩ ∈ s.shared.retainedClients.entries := by
  obtain ⟨s, reached, history, order, _entries⟩ := crossingCalls
  have returned : .returned true (.retainClient ⟨5, 7⟩) (.ok (.retained ⟨1, ⟨5, 7⟩⟩)) ∈
      s.history := by
    rw [history]
    simp
  refine ⟨s, returned, by rw [order]; rfl, ?_⟩
  rcases (iterators_live reached).2.2.2 true _ _ returned with live | ⟨j, released⟩
  · exact live
  · rw [history] at released
    simp at released

end Socketxx.ServerPool
