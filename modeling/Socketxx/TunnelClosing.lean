import Socketxx.TunnelPending

/-!
A round of the tunnel that finds both descriptors ready, one of the two sides at its end
of stream and the other with data. The sides are served one after the other inside one
`try`, so that what becomes of the data depends on which of them has closed.
-/

set_option autoImplicit false

namespace Socketxx.Tunnel

open Runs

def Setup.readResult (setup : Setup) (state : State) (side : Side) (answer : Answer) :
    Except Int (List UInt8 × Flow) :=
  if setup.ssl side then (state.flow side).sslRead state.buf.length answer
  else (state.flow side).read state.buf.length answer

def Setup.writeResult (setup : Setup) (side : Side) (data : List UInt8) (answer : Answer) :
    Bool × Int × List UInt8 :=
  if setup.ssl side then sslWrite data answer else plainWrite data answer

/-- The round, met in a state of the loop: `select` is called and reports both, the read of
the side that has closed, the read of the other one and the write of what it brings. -/
structure Round (setup : Setup) (state : State) where
  closing : Side
  both : Answer
  endOfStream : Answer
  data : Answer
  write : Answer
  chunk : List UInt8
  after : Flow
  inRange : ∀ side, InRange (setup.fd side)
  both_ready : both.selected = .ready true true
  drained : (state.flow closing).pending = []
  nothing : endOfStream.arrived = []
  closed : endOfStream.failure = 0
  read : setup.readResult state closing.other data = .ok (chunk, after)

section

variable {setup : Setup} {state : State}

def Round.answers (round : Round setup state) : List Answer :=
  match round.closing with
  | .first => [round.both, round.endOfStream, round.data, round.write]
  | .second => [round.both, round.data, round.write, round.endOfStream]

/-- If the function returns in this round, the data has been written. -/
def Round.Delivered (round : Round setup state) : Prop :=
  (round.answers.foldl setup.step state).phase = .ended .returned →
    ((round.answers.foldl setup.step state).flow round.closing.other).forwarded =
      (state.flow round.closing.other).forwarded ++ round.chunk

/-- The write of the data is not itself taken for a closed connection. -/
def Round.Writable (round : Round setup state) : Prop :=
  let (returns, ret, out) := setup.writeResult round.closing round.chunk round.write
  returns = true ∨ Ending.ofIoError ret ≠ .returned ∨ out = round.chunk

/-! ### The calls of a round -/

private theorem Setup.readResult_ne_nil {side : Side} {answer : Answer} {chunk : List UInt8}
    {after : Flow} (read : setup.readResult state side answer = .ok (chunk, after)) :
    chunk ≠ [] := by
  rw [readResult] at read
  cases ssl : setup.ssl side with
  | true =>
      rw [ssl, if_pos rfl, Flow.sslRead] at read
      generalize (if (state.flow side).pending = [] then sslRecord answer else []) = record
        at read
      split at read
      · cases read
      · rename_i available
        cases read
        intro empty
        rcases List.take_eq_nil_iff.mp empty with zero | none
        · exact available (Or.inl (by omega))
        · exact available (Or.inr none)
  | false =>
      rw [ssl, if_neg Bool.false_ne_true, Flow.read] at read
      split at read
      · cases read
      · rename_i some
        cases read
        exact some

private theorem Setup.readResult_closed {side : Side} {answer : Answer}
    (drained : (state.flow side).pending = []) (nothing : answer.arrived = [])
    (closed : answer.failure = 0) : setup.readResult state side answer = .error 0 := by
  rw [readResult, Flow.sslRead, Flow.read, sslRecord, drained, nothing, closed]
  simp

theorem Setup.step_closed {side : Side} {answer : Answer} (reading : state.phase = .read side)
    (ready : state.ready side = true) (drained : (state.flow side).pending = [])
    (nothing : answer.arrived = []) (closed : answer.failure = 0) :
    setup.step state answer = state.goto (.ended .returned) := by
  have result := @readResult_closed setup state side answer drained nothing closed
  rw [readResult] at result
  rw [Setup.step, reading]
  simp only [ready, if_true]
  rw [Setup.read, result]
  rfl

private theorem Setup.step_write {side : Side} {len : Nat} {answer : Answer} {returns : Bool}
    {ret : Int}
    {out : List UInt8} (writing : state.phase = .write side len)
    (result : setup.writeResult side.other (state.buf.take len) answer = (returns, ret, out)) :
    (setup.step state answer).phase =
        (if returns then side.next else .ended (Ending.ofIoError ret)) ∧
      (setup.step state answer).ready = state.ready ∧
      ((setup.step state answer).flow side).forwarded =
        (state.flow side).forwarded ++ out ∧
      (setup.step state answer).flow side.other = state.flow side.other := by
  rw [writeResult] at result
  rw [Setup.step, writing]
  simp only
  rw [Setup.write]
  simp only [result]
  cases returns with
  | true =>
      refine ⟨rfl, rfl, ?_, ?_⟩
      · change (((state.access len).setFlow side _).flow side).forwarded = _
        rw [State.setFlow_self]
      · exact State.setFlow_other _ _ _
  | false =>
      refine ⟨rfl, rfl, ?_, ?_⟩
      · change (((state.access len).setFlow side _).flow side).forwarded = _
        rw [State.setFlow_self]
      · exact State.setFlow_other _ _ _

theorem Setup.step_ended {ending : Ending} (ended : state.phase = .ended ending)
    (answer : Answer) : setup.step state answer = state := by
  rw [Setup.step, ended]

theorem Setup.step_both {answer : Answer} (inRange : ∀ side, InRange (setup.fd side))
    (selecting : state.phase = .select) (both : answer.selected = .ready true true) :
    (setup.step state answer).phase = .read .first ∧
      (∀ side, (setup.step state answer).ready side = true) ∧
      (setup.step state answer).flow = state.flow ∧
      (setup.step state answer).buf = state.buf := by
  rw [Setup.step_select inRange selecting, both]
  refine ⟨rfl, ?_, rfl, rfl⟩
  intro side
  cases side <;> rfl

/-! ### Which of the two has closed -/

theorem Round.first_loses (round : Round setup state) (selecting : state.phase = .select)
    (first : round.closing = .first) : ¬ round.Delivered := by
  intro delivered
  obtain ⟨reading, ready, flow, _buf⟩ := @Setup.step_both setup state round.both round.inRange
    selecting round.both_ready
  have drained := round.drained
  rw [first] at drained
  have final : round.answers.foldl setup.step state =
      (setup.step state round.both).goto (.ended .returned) := by
    have ends := @Setup.step_closed setup (setup.step state round.both) .first
      round.endOfStream reading (ready .first) (by rw [flow]; exact drained) round.nothing
      round.closed
    rw [Round.answers, first]
    change setup.step (setup.step (setup.step (setup.step state round.both)
      round.endOfStream) round.data) round.write = _
    rw [ends, Setup.step_ended rfl, Setup.step_ended rfl]
  have kept := delivered (by rw [final]; rfl)
  rw [final] at kept
  change ((setup.step state round.both).flow _).forwarded = _ at kept
  rw [flow] at kept
  have empty : round.chunk = [] := List.self_eq_append_right.mp kept
  exact Setup.readResult_ne_nil round.read empty

private theorem Round.second_filled (round : Round setup state) (selecting : state.phase = .select)
    (second : round.closing = .second) (direct : setup.intercept = false)
    (inOrder : setup.InOrder state) :
    ∃ full, setup.step (setup.step state round.both) round.data = full ∧
      full.phase = .write .first round.chunk.length ∧
      full.buf.take round.chunk.length = round.chunk ∧ full.ready .second = true ∧
      (full.flow .first).forwarded = (state.flow .first).forwarded ∧
      full.flow .second = state.flow .second := by
  obtain ⟨reading, ready, flow, buf⟩ := @Setup.step_both setup state round.both round.inRange
    selecting round.both_ready
  have read := round.read
  rw [second] at read
  have kept := (inOrder.read_ok read).2.1.forwarded
  rw [Setup.readResult, ← flow, ← buf] at read
  obtain ⟨writing, filled, stillReady, served, other⟩ := Setup.step_read reading (ready .first)
    read
  have unchanged : (if setup.intercept then round.data.intercepted else round.chunk) =
      round.chunk := by
    rw [direct]
    rfl
  rw [unchanged] at writing filled served
  refine ⟨_, rfl, writing, ?_, ?_, ?_, ?_⟩
  · rw [filled, fillBuffer_take]
  · rw [stillReady]
    exact ready .second
  · rw [served]
    exact kept
  · rw [← flow]
    exact other

private theorem Round.second_delivers_iff (round : Round setup state)
    (selecting : state.phase = .select) (second : round.closing = .second)
    (direct : setup.intercept = false) (inOrder : setup.InOrder state)
    (pageSize : state.buf.length = setup.pageSize) : round.Delivered ↔ round.Writable := by
  obtain ⟨full, filled, writing, data, ready, kept, untouched⟩ := round.second_filled selecting
    second direct inOrder
  have small : round.chunk.length < 2 ^ 31 := by
    have read := round.read
    have bound := (inOrder.read_ok read).1
    have page := setup.pageSize_lt
    omega
  have drained := round.drained
  rw [second] at drained
  rw [Round.Delivered, Round.Writable, Round.answers, second]
  change (setup.step (setup.step (setup.step (setup.step state round.both) round.data)
      round.write) round.endOfStream).phase = _ →
    ((setup.step (setup.step (setup.step (setup.step state round.both) round.data)
      round.write) round.endOfStream).flow .first).forwarded = _ ↔ _
  rw [filled]
  rcases result : setup.writeResult .second round.chunk round.write with ⟨returns, ret, out⟩
  have wrote : setup.writeResult Side.first.other (full.buf.take round.chunk.length)
      round.write = (returns, ret, out) := by
    rw [data]
    exact result
  obtain ⟨next, still, forwarded, other⟩ := Setup.step_write writing wrote
  have whole := (Setup.write_out result).2 (fun _ => small)
  generalize setup.step full round.write = after at *
  rw [kept] at forwarded
  cases returns with
  | true =>
      have ends := @Setup.step_closed setup after .second round.endOfStream next
        (by rw [still]; exact ready)
        (by rw [show after.flow .second = full.flow .second from other, untouched]; exact drained)
        round.nothing round.closed
      rw [ends]
      constructor
      · intro _delivered
        exact Or.inl rfl
      · intro _writable _returned
        rw [whole rfl] at forwarded
        exact forwarded
  | false =>
      rw [Setup.step_ended next, next]
      constructor
      · intro delivered
        by_cases closed : Ending.ofIoError ret = .returned
        · have sent := delivered (by rw [closed]; rfl)
          rw [forwarded] at sent
          exact Or.inr (Or.inr (List.append_cancel_left sent))
        · exact Or.inr (Or.inl closed)
      · intro writable returned
        rcases writable with impossible | open_ | sent
        · cases impossible
        · exact absurd (Phase.ended.inj returned) open_
        · rw [forwarded, sent]
          rfl

end

/-- Without a callback: in every `select` round of every run, met by one side at its end
of stream and data from the other, the data is written before the function returns
exactly when it is the second side that has closed, unless the write of the data is
itself taken for a closed connection. -/
theorem delivers_iff (setup : Setup) (direct : setup.intercept = false)
    (pending : Side → List UInt8) (answers : List Answer)
    (selecting : (answers.foldl setup.step (setup.start pending)).phase = .select)
    (round : Round setup (answers.foldl setup.step (setup.start pending))) :
    round.Delivered ↔ round.closing = .second ∧ round.Writable := by
  have keeps : ∀ (state : State) (answer : Answer),
      setup.InOrder state ∧ state.buf.length = setup.pageSize →
        setup.InOrder (setup.step state answer) ∧
          (setup.step state answer).buf.length = setup.pageSize := by
    intro state answer invariant
    obtain ⟨inOrder, pageSize⟩ := invariant
    constructor
    · exact inOrder.step answer (inOrder.fits pageSize)
    · rw [Setup.step_buf direct inOrder, pageSize]
  obtain ⟨inOrder, pageSize⟩ := run_invariant keeps
    ⟨setup.start_inOrder pending, List.length_replicate⟩ answers
  cases closing : round.closing with
  | first =>
      apply iff_of_false (round.first_loses selecting closing)
      intro impossible
      cases impossible.1
  | second =>
      rw [round.second_delivers_iff selecting closing direct inOrder pageSize]
      exact (and_iff_right rfl).symm

def plainTunnel : Setup :=
  { smallTunnel with
    ssl := fun _ => false
    intercept := false }

theorem plainTunnel_inRange (side : Side) : InRange (plainTunnel.fd side) :=
  @secureTunnel_inRange 4 (by decide) (by decide) side

def closingRound (closing : Side) : Round plainTunnel (plainTunnel.start fun _ => []) where
  closing := closing
  both := ⟨.ready true true, [], 0, [], 0, 0⟩
  endOfStream := ⟨.interrupted, [], 0, [], 0, 0⟩
  data := ⟨.interrupted, [7], 0, [], 0, 0⟩
  write := ⟨.interrupted, [], 0, [], 1, 0⟩
  chunk := [7]
  after := ⟨[7], [], [[7]], [], []⟩
  inRange := plainTunnel_inRange
  both_ready := rfl
  drained := rfl
  nothing := rfl
  closed := rfl
  read := rfl

theorem plainTunnel_delivers :
    (closingRound .second).Delivered ↔
      (closingRound .second).closing = .second ∧ (closingRound .second).Writable :=
  delivers_iff plainTunnel rfl (fun _ => []) [] rfl (closingRound .second)

theorem plainTunnel_loses : ¬ (closingRound .first).Delivered :=
  (closingRound .first).first_loses rfl rfl

end Socketxx.Tunnel
