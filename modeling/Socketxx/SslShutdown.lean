import Mathlib.Logic.Function.Basic
import Socketxx.BaseSsl

/-!
Two `base_ssl` ends of one session that both leave SSL mode by `stop_ssl`.

`SSL_shutdown` sends a `close_notify` if it has sent none, and returns 1 if the one of
the peer has arrived and 0 if not.
-/

set_option autoImplicit false

namespace Socketxx.SslShutdown

open Runs
open BaseSsl (Answers Outcome)

inductive Side where
  | client
  | server
deriving DecidableEq, Repr

def Side.peer : Side → Side
  | .client => .server
  | .server => .client

/-- One end: the object, its two shutdown flags, and how its `stop_ssl` ended. -/
structure Endpoint where
  ssl : BaseSsl.World
  sent : Bool
  received : Bool
  outcome : Option Outcome
deriving DecidableEq, Repr

/-- The ends, and whether a `close_notify` is on its way to them. -/
structure Session where
  endpoint : Side → Endpoint
  inFlight : Side → Bool

inductive Move where
  | stopSsl (side : Side)
  | deliver (side : Side)
deriving DecidableEq, Repr

def succeeding : Answers :=
  { ctxNew := true
    sslNew := true
    setFd := true
    handshake := 1 }

def established : Session :=
  { endpoint := fun side =>
      { ssl :=
          match side with
          | .client => (BaseSsl.World.constructed.startSsl succeeding).2
          | .server => (BaseSsl.World.constructed.waitForSsl succeeding).2
        sent := false
        received := false
        outcome := none }
    inFlight := fun _ => false }

/-- What `SSL_shutdown` returns. -/
def Endpoint.sslShutdown (endpoint : Endpoint) : Int := if endpoint.received then 1 else 0

def Endpoint.stopSsl (endpoint : Endpoint) : Endpoint :=
  { ssl := (endpoint.ssl.stopSsl endpoint.sslShutdown).2
    sent := true
    received := endpoint.received
    outcome := some (endpoint.ssl.stopSsl endpoint.sslShutdown).1 }

def Session.stopSsl (session : Session) (side : Side) : Session :=
  if (session.endpoint side).outcome ≠ none then session
  else
    { endpoint := Function.update session.endpoint side (session.endpoint side).stopSsl
      inFlight :=
        if (session.endpoint side).sent then session.inFlight
        else Function.update session.inFlight side.peer true }

def Session.deliver (session : Session) (side : Side) : Session :=
  if session.inFlight side then
    { endpoint := Function.update session.endpoint side
        { session.endpoint side with received := true }
      inFlight := Function.update session.inFlight side false }
  else session

def Session.step (session : Session) : Move → Session
  | .stopSsl side => session.stopSsl side
  | .deliver side => session.deliver side

/-- The call has returned and the end is in plain mode. -/
structure Endpoint.Left (endpoint : Endpoint) : Prop where
  returned : endpoint.outcome = some .returned
  sock : endpoint.ssl.sslSock = none
  ctx : endpoint.ssl.sslCtx = none

/-! ### Who has seen whose alert -/

private theorem Side.peer_peer (side : Side) : side.peer.peer = side := by
  cases side <;> rfl

theorem Side.peer_ne (side : Side) : side.peer ≠ side := by
  cases side <;> decide

private theorem Side.forall_of_peer {holds : Side → Prop} {side : Side} (here : holds side)
    (there : holds side.peer) : ∀ other, holds other := by
  intro other
  cases side <;> cases other <;> assumption

/-- An alert has been sent by an end that has called, and a call that returned had
received one. -/
structure Session.Sound (session : Session) : Prop where
  started : ∀ side, (session.endpoint side).outcome = none →
    (session.endpoint side).ssl.sslSock ≠ none
  sent : ∀ side, (session.endpoint side).sent = true ↔ (session.endpoint side).outcome ≠ none
  flying : ∀ side, session.inFlight side = true →
    (session.endpoint side.peer).outcome ≠ none
  received : ∀ side, (session.endpoint side).received = true →
    (session.endpoint side.peer).outcome ≠ none
  returned : ∀ side, (session.endpoint side).outcome = some .returned →
    (session.endpoint side).received = true
  one : ¬ ∀ side, (session.endpoint side).outcome = some .returned

private theorem established_sound : established.Sound := by
  constructor
  case started =>
    intro side _
    cases side <;> decide
  case sent =>
    intro side
    exact iff_of_false Bool.false_ne_true (fun called => called rfl)
  case flying =>
    intro side impossible
    cases impossible
  case received =>
    intro side impossible
    cases impossible
  case returned =>
    intro side impossible
    cases impossible
  case one =>
    intro both
    exact nomatch both .client

theorem Endpoint.stopSsl_outcome {endpoint : Endpoint}
    (started : endpoint.ssl.sslSock ≠ none) :
    endpoint.stopSsl.outcome =
      some (if endpoint.received then .returned else .stopError) := by
  obtain ⟨sock, present⟩ := Option.ne_none_iff_exists'.mp started
  obtain ⟨ssl, sent, received, outcome⟩ := endpoint
  cases received <;>
    simp [stopSsl, sslShutdown, BaseSsl.World.stopSsl, show ssl.sslSock = some sock from present]

private theorem Session.stopSsl_called {session : Session} {side : Side}
    (called : (session.endpoint side).outcome ≠ none) : session.stopSsl side = session := by
  rw [stopSsl, if_pos called]

private theorem Session.stopSsl_uncalled {session : Session} {side : Side}
    (called : (session.endpoint side).outcome = none)
    (unsent : (session.endpoint side).sent = false) :
    (session.stopSsl side).endpoint side = (session.endpoint side).stopSsl ∧
      (session.stopSsl side).endpoint side.peer = session.endpoint side.peer ∧
      (session.stopSsl side).inFlight = Function.update session.inFlight side.peer true := by
  rw [Session.stopSsl, if_neg (not_not.mpr called), unsent]
  exact ⟨Function.update_self _ _ _, Function.update_of_ne side.peer_ne _ _, rfl⟩

private theorem Session.Sound.stopSsl {session : Session} (sound : session.Sound) (side : Side) :
    (session.stopSsl side).Sound := by
  by_cases called : (session.endpoint side).outcome = none
  · have unsent : (session.endpoint side).sent = false := by
      rw [← Bool.not_eq_true]
      exact fun sent => (sound.sent side).mp sent called
    have outcome := Endpoint.stopSsl_outcome (sound.started side called)
    obtain ⟨self, peer, alerts⟩ := Session.stopSsl_uncalled called unsent
    have done : ((session.stopSsl side).endpoint side).outcome ≠ none := by
      rw [self, outcome]
      exact Option.some_ne_none _
    -- the peer cannot have returned: it had no alert from this end
    have peerFailed : (session.endpoint side.peer).outcome ≠ some .returned := by
      intro returned
      have received := sound.received side.peer (sound.returned side.peer returned)
      rw [side.peer_peer] at received
      exact received called
    constructor
    case started =>
      apply Side.forall_of_peer
      · exact fun uncalled => absurd uncalled done
      · rw [peer]
        exact sound.started side.peer
    case sent =>
      apply Side.forall_of_peer
      · exact iff_of_true (by rw [self]; rfl) done
      · rw [peer]
        exact sound.sent side.peer
    case flying =>
      apply Side.forall_of_peer
      · rw [alerts, peer, Function.update_of_ne side.peer_ne.symm]
        exact sound.flying side
      · rw [side.peer_peer]
        exact fun _ => done
    case received =>
      apply Side.forall_of_peer
      · rw [self, peer]
        exact sound.received side
      · rw [side.peer_peer]
        exact fun _ => done
    case returned =>
      apply Side.forall_of_peer
      · rw [self, outcome]
        intro returned
        cases received : (session.endpoint side).received with
        | true => exact received
        | false =>
            rw [received] at returned
            cases returned
      · rw [peer]
        exact sound.returned side.peer
    case one =>
      intro both
      have returned := both side.peer
      rw [peer] at returned
      exact peerFailed returned
  · rw [Session.stopSsl_called called]
    exact sound

private theorem Session.deliver_frame (session : Session) (side other : Side) :
    ((session.deliver side).endpoint other).ssl = (session.endpoint other).ssl ∧
      ((session.deliver side).endpoint other).sent = (session.endpoint other).sent ∧
      ((session.deliver side).endpoint other).outcome = (session.endpoint other).outcome := by
  unfold deliver
  split
  · by_cases same : other = side
    · rw [same]
      simp only [Function.update_self, and_self]
    · simp only [Function.update_of_ne same, and_self]
  · exact ⟨rfl, rfl, rfl⟩

private theorem Session.deliver_flying {session : Session} {side other : Side}
    (flying : (session.deliver side).inFlight other = true) :
    session.inFlight other = true := by
  unfold deliver at flying
  split at flying
  · rename_i arriving
    by_cases same : other = side
    · rw [same]
      exact arriving
    · simpa only [Function.update_of_ne same] using flying
  · exact flying

private theorem Session.deliver_received (session : Session) (side other : Side) :
    ((session.deliver side).endpoint other).received = true ↔
      (session.endpoint other).received = true ∨
        other = side ∧ session.inFlight side = true := by
  unfold deliver
  split
  · rename_i arriving
    by_cases same : other = side
    · rw [same]
      simp only [Function.update_self, true_and, arriving, or_true]
    · simp only [Function.update_of_ne same, same, false_and, or_false]
  · rename_i absent
    exact (or_iff_left (fun both => absent both.2)).symm

private theorem Session.Sound.deliver {session : Session} (sound : session.Sound) (side : Side) :
    (session.deliver side).Sound := by
  constructor
  case started =>
    intro other
    obtain ⟨ssl, _, outcome⟩ := session.deliver_frame side other
    rw [ssl, outcome]
    exact sound.started other
  case sent =>
    intro other
    obtain ⟨_, sent, outcome⟩ := session.deliver_frame side other
    rw [sent, outcome]
    exact sound.sent other
  case flying =>
    intro other flying
    rw [(session.deliver_frame side other.peer).2.2]
    exact sound.flying other (Session.deliver_flying flying)
  case received =>
    intro other received
    rw [(session.deliver_frame side other.peer).2.2]
    rcases (session.deliver_received side other).mp received with before | ⟨same, arriving⟩
    · exact sound.received other before
    · rw [same]
      exact sound.flying side arriving
  case returned =>
    intro other returned
    rw [(session.deliver_frame side other).2.2] at returned
    exact (session.deliver_received side other).mpr (Or.inl (sound.returned other returned))
  case one =>
    intro both
    apply sound.one
    intro other
    rw [← (session.deliver_frame side other).2.2]
    exact both other

private theorem Session.Sound.step {session : Session} (sound : session.Sound) (move : Move) :
    (session.step move).Sound := by
  cases move with
  | stopSsl side => exact sound.stopSsl side
  | deliver side => exact sound.deliver side

/-- In no order of the two calls and the two deliveries do both calls return and leave
plain mode at both ends. A call made after the peer's alert has arrived returns, and one
made before throws. -/
theorem stops_never_both (moves : List Move) :
    (¬ ∀ side, ((moves.foldl Session.step established).endpoint side).Left) ∧
      ∀ side, ((moves.foldl Session.step established).endpoint side).outcome = none →
        (((moves.foldl Session.step established).step (.stopSsl side)).endpoint side).outcome =
          some (if ((moves.foldl Session.step established).endpoint side).received then
            .returned else .stopError) := by
  have keeps : ∀ (session : Session) (move : Move), session.Sound →
      (session.step move).Sound := fun _ move sound => sound.step move
  have sound := run_invariant keeps established_sound moves
  refine ⟨fun both => sound.one (fun side => (both side).returned), ?_⟩
  intro side uncalled
  rw [← Endpoint.stopSsl_outcome (sound.started side uncalled), Session.step, Session.stopSsl,
    if_neg (not_not.mpr uncalled)]
  exact congrArg Endpoint.outcome (Function.update_self _ _ _)

/-- The client calls first, its alert arrives, and the server calls. -/
theorem first_stop_throws :
    ((([.stopSsl .client, .deliver .server, .stopSsl .server, .deliver .client] :
        List Move).foldl Session.step established).endpoint .client).outcome =
          some .stopError ∧
      ((([.stopSsl .client, .deliver .server, .stopSsl .server, .deliver .client] :
        List Move).foldl Session.step established).endpoint .server).outcome =
          some .returned ∧
      ¬ ∀ side, ((([.stopSsl .client, .deliver .server, .stopSsl .server,
        .deliver .client] : List Move).foldl Session.step established).endpoint side).Left := by
  refine ⟨rfl, rfl, ?_⟩
  intro both
  exact absurd (both .client).returned (by decide)

end Socketxx.SslShutdown
