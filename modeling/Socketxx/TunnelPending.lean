import Socketxx.Tunnel

/-!
What the SSL layers of a tunnel have decrypted and not yet handed out when the tunnel goes
to sleep in `select`, which looks at the descriptors only.
-/

set_option autoImplicit false

namespace Socketxx.Tunnel

open Runs

/-- Nothing is pending: all that was taken off the descriptor has been read. -/
def Flow.Drained (flow : Flow) : Prop :=
  flow.pending = [] ∧ flow.taken = flow.received.flatten

/-- What is claimed of each state: at `select` nothing is pending, and what was read has
been forwarded, as it is where there is no callback. -/
def Setup.SleepsDrained (setup : Setup) (state : State) : Prop :=
  state.phase = .select → ∀ side, (state.flow side).Drained ∧
    (setup.intercept = false → (state.flow side).forwarded = (state.flow side).taken)

/-- A record that `SSL_read` takes off the descriptor is one that the read has asked for
as a whole. -/
def Setup.RecordFits (setup : Setup) (state : State) (answer : Answer) : Prop :=
  match state.phase with
  | .read side =>
      state.ready side = true → setup.ssl side = true → 0 < toInt state.buf.length →
        (sslRecord answer).length ≤ toInt state.buf.length
  | _ => True

/-! ### Records that fit -/

private theorem Flow.Reads.drained {flow after : Flow} {chunk : List UInt8}
    (reads : flow.Reads chunk after) (drained : flow.Drained) (empty : after.pending = []) :
    after.Drained := by
  obtain ⟨record, taken, kept⟩ := reads.taken
  rw [drained.1, empty, List.append_nil, List.nil_append] at kept
  refine ⟨empty, ?_⟩
  rw [taken, drained.2, reads.received, kept, List.flatten_append, List.flatten_singleton]

private theorem Flow.sslRead_pending {flow after : Flow} {maxlen : Nat} {answer : Answer}
    {chunk : List UInt8} (drained : flow.pending = [])
    (fits : 0 < toInt maxlen → (sslRecord answer).length ≤ toInt maxlen)
    (read : flow.sslRead maxlen answer = .ok (chunk, after)) : after.pending = [] := by
  rw [Flow.sslRead, drained, if_pos rfl] at read
  split at read
  · cases read
  · rename_i asked
    cases read
    have whole := fits (by omega)
    rw [List.nil_append]
    exact List.drop_of_length_le (by omega)

section

variable {setup : Setup} {state : State}

private theorem Setup.read_drained {side : Side} {answer : Answer}
    (drained : ∀ side, (state.flow side).Drained)
    (fits : setup.ssl side = true → 0 < toInt state.buf.length →
      (sslRecord answer).length ≤ toInt state.buf.length) :
    ∀ each, ((setup.read state side answer).flow each).Drained := by
  rw [Setup.read]
  rcases result : (if setup.ssl side then (state.flow side).sslRead state.buf.length answer
    else (state.flow side).read state.buf.length answer) with ret | ⟨chunk, after⟩
  · exact drained
  · have here : after.Drained := by
      cases ssl : setup.ssl side with
      | true =>
          rw [if_pos ssl] at result
          exact (Flow.sslRead_ok result).2.drained (drained side)
            (Flow.sslRead_pending (drained side).1 (fits ssl) result)
      | false =>
          rw [if_neg (by rw [ssl]; exact Bool.false_ne_true)] at result
          obtain ⟨_, reads, empty⟩ := Flow.read_ok (drained side).1 result
          exact reads.drained (drained side) empty
    exact @State.setFlow_forall _ _ _ (fun _ flow => flow.Drained) here drained

private theorem Setup.write_drained {side : Side} {len : Nat} {answer : Answer}
    (drained : ∀ side, (state.flow side).Drained) :
    ∀ each, ((setup.write state side len answer).flow each).Drained := by
  rw [Setup.write]
  rcases (if setup.ssl side.other then sslWrite (state.buf.take len) answer
    else plainWrite (state.buf.take len) answer) with ⟨returns, ret, out⟩
  have moved := @State.setFlow_forall (state.access len) side ((state.flow side).forward out)
    (fun _ flow => flow.Drained) (drained side) drained
  cases returns <;> exact moved

private theorem Setup.step_drained {answer : Answer} (drained : ∀ side, (state.flow side).Drained)
    (fits : setup.RecordFits state answer) :
    ∀ side, ((setup.step state answer).flow side).Drained := by
  rw [RecordFits] at fits
  rw [Setup.step]
  cases phase : state.phase with
  | select =>
      simp only
      rcases setup.select_cases state answer.selected with outside | selected
      · rw [outside]
        exact drained
      · rw [selected]
        cases answer.selected with
        | interrupted => exact drained
        | failed => exact drained
        | ready first second =>
            rw [State.select]
            split <;> exact drained
  | read side =>
      rw [phase] at fits
      simp only
      split
      · exact Setup.read_drained drained (fits (by assumption))
      · exact drained
  | write side len => exact Setup.write_drained drained
  | ended ending => exact drained

private theorem Setup.start_drained (setup : Setup) {pending : Side → List UInt8}
    (fresh : ∀ side, pending side = []) : ∀ side, ((setup.start pending).flow side).Drained := by
  intro side
  have empty : (if setup.ssl side then pending side else []) = [] := by
    rw [fresh side, ite_self]
  exact ⟨empty, empty⟩

/-! ### The buffer without a callback -/

private theorem Setup.read_buf {side : Side} {answer : Answer} (direct : setup.intercept = false)
    (inOrder : setup.InOrder state) :
    (setup.read state side answer).buf.length = state.buf.length := by
  rw [Setup.read]
  rcases result : (if setup.ssl side then (state.flow side).sslRead state.buf.length answer
    else (state.flow side).read state.buf.length answer) with ret | ⟨chunk, after⟩
  · rfl
  · have bound := (inOrder.read_ok result).1
    rw [direct]
    change (fillBuffer state.buf chunk chunk).length = _
    rw [length_fillBuffer bound, Nat.max_eq_right bound]

theorem Setup.step_buf {answer : Answer} (direct : setup.intercept = false)
    (inOrder : setup.InOrder state) :
    (setup.step state answer).buf.length = state.buf.length := by
  rw [Setup.step]
  cases state.phase with
  | select =>
      simp only
      rcases setup.select_cases state answer.selected with outside | selected
      · rw [outside]
        rfl
      · rw [selected]
        cases answer.selected with
        | interrupted => rfl
        | failed => rfl
        | ready first second =>
            rw [State.select]
            split <;> rfl
  | read side =>
      simp only
      split
      · exact Setup.read_buf direct inOrder
      · rfl
  | write side len =>
      simp only
      rw [Setup.write]
      rcases (if setup.ssl side.other then sslWrite (state.buf.take len) answer
        else plainWrite (state.buf.take len) answer) with ⟨returns, ret, out⟩
      cases returns <;> rfl
  | ended ending => rfl

/-- Nothing is pending, and without a callback the buffer stays as it was allocated. -/
structure Setup.Relays (setup : Setup) (state : State) : Prop where
  drained : ∀ side, (state.flow side).Drained
  inOrder : setup.intercept = false → setup.InOrder state
  pageSize : setup.intercept = false → state.buf.length = setup.pageSize

theorem Setup.InOrder.fits (inOrder : setup.InOrder state)
    (pageSize : state.buf.length = setup.pageSize) : setup.Fits state := by
  have forwarded := inOrder.forwarded
  rw [Fits]
  cases phase : state.phase with
  | select => trivial
  | read side => trivial
  | write side len =>
      rw [phase] at forwarded
      have inside := forwarded.1
      have small := setup.pageSize_lt
      rw [pageSize] at inside
      exact fun _ => inside.trans_lt small
  | ended ending => trivial

private theorem Setup.Relays.recordFits (relays : setup.Relays state)
    (direct : setup.intercept = false) (large : 16384 ≤ setup.pageSize) {answer : Answer} :
    setup.RecordFits state answer := by
  have record : (sslRecord answer).length ≤ 16384 := List.length_take_le _ _
  have small := setup.pageSize_lt
  rw [RecordFits]
  cases state.phase with
  | select => trivial
  | read side =>
      intro _ready _ssl _asked
      rw [relays.pageSize direct, toInt_of_lt small]
      omega
  | write side len => trivial
  | ended ending => trivial

theorem Setup.Relays.step (relays : setup.Relays state) (answer : Answer)
    (fits : setup.RecordFits state answer) : setup.Relays (setup.step state answer) := by
  refine ⟨Setup.step_drained relays.drained fits, fun direct => ?_, fun direct => ?_⟩
  · exact (relays.inOrder direct).step answer
      ((relays.inOrder direct).fits (relays.pageSize direct))
  · rw [Setup.step_buf direct (relays.inOrder direct), relays.pageSize direct]

theorem Setup.Relays.atSelect (relays : setup.Relays state) :
    setup.SleepsDrained state := by
  intro selecting side
  refine ⟨relays.drained side, fun direct => ?_⟩
  have settled := (relays.inOrder direct).forwarded
  rw [selecting] at settled
  calc (state.flow side).forwarded
      = (state.flow side).outputs.flatten := settled side
    _ = (state.flow side).received.flatten := by rw [(relays.inOrder direct).uncut direct]
    _ = (state.flow side).taken := (relays.drained side).2.symm

theorem Setup.start_relays (setup : Setup) {pending : Side → List UInt8}
    (fresh : ∀ side, pending side = []) : setup.Relays (setup.start pending) :=
  ⟨setup.start_drained fresh, fun _ => setup.start_inOrder pending,
    fun _ => List.length_replicate⟩

end

/-- A tunnel that is entered with nothing pending never waits on data it has, in any run
in which each record that is taken off a descriptor fits in the buffer it is read into. -/
theorem sleepsDrained (setup : Setup) (pending : Side → List UInt8) (answers : List Answer)
    (fresh : ∀ side, pending side = [])
    (fits : EveryStep setup.step setup.RecordFits (setup.start pending) answers) :
    EveryState setup.step setup.SleepsDrained (setup.start pending) answers := by
  have sound : ∀ state : State, setup.Relays state → setup.SleepsDrained state :=
    fun _ relays => relays.atSelect
  have keeps : ∀ (state : State) (answer : Answer), setup.Relays state →
      setup.RecordFits state answer → setup.Relays (setup.step state answer) :=
    fun _ answer relays fits => relays.step answer fits
  exact fits.everyState sound keeps (setup.start_relays fresh)

theorem secureTunnel_sleepsDrained :
    EveryState smallTunnel.step smallTunnel.SleepsDrained (smallTunnel.start fun _ => [])
      [⟨.ready false true, [], 0, [], 0, 0⟩, ⟨.interrupted, [], 0, [], 0, 0⟩,
        ⟨.interrupted, [1, 2, 3], 0, [1, 2, 3], 0, 0⟩, ⟨.interrupted, [], 0, [], 3, 0⟩] :=
  sleepsDrained _ _ _ (fun _ => rfl)
    ⟨trivial, fun ready => Bool.noConfusion ready, fun _ _ _ => by decide, trivial, trivial⟩

/-! ### A record that is longer than the buffer -/

section

variable {setup : Setup} {state : State}

private theorem Setup.write_full {side : Side} {data : List UInt8} {answer : Answer}
    (small : data.length < 2 ^ 31) (full : answer.written = data.length) :
    (if setup.ssl side then sslWrite data answer else plainWrite data answer).1 = true := by
  cases setup.ssl side with
  | true =>
      have sent : ¬ ((data.length : Int) < 0) := by omega
      rw [if_pos rfl, sslWrite, toInt_of_lt small, full]
      simp only [sent, if_false, Int.min_self, Int.lt_irrefl, decide_false, Bool.not_false]
  | false =>
      have sent : max (-1) (min (data.length : Int) data.length) = data.length := by omega
      rw [if_neg Bool.false_ne_true, plainWrite, full]
      exact decide_eq_true sent

private theorem Setup.step_write_full {side : Side} {len : Nat} {answer : Answer}
    (writing : state.phase = .write side len) (inside : len ≤ state.buf.length)
    (small : len < 2 ^ 31) (full : answer.written = len) :
    (setup.step state answer).phase = side.next ∧
      ((setup.step state answer).flow side).pending = (state.flow side).pending := by
  have size : (state.buf.take len).length = len := by
    rw [List.length_take, Nat.min_eq_left inside]
  have returned := @Setup.write_full setup side.other (state.buf.take len) answer
    (by rw [size]; exact small) (by rw [size]; exact full)
  rw [Setup.step, writing]
  simp only
  rw [Setup.write]
  rcases result : (if setup.ssl side.other then sslWrite (state.buf.take len) answer
    else plainWrite (state.buf.take len) answer) with ⟨returns, ret, out⟩
  rw [result] at returned
  subst returned
  refine ⟨rfl, ?_⟩
  change (((state.access len).setFlow side _).flow side).pending = _
  rw [State.setFlow_self]

def longRound (record chunk : List UInt8) : List Answer :=
  [⟨.ready false true, [], 0, [], 0, 0⟩, ⟨.interrupted, [], 0, [], 0, 0⟩,
    ⟨.interrupted, record, 0, chunk, 0, 0⟩, ⟨.interrupted, [], 0, [], chunk.length, 0⟩]

/-- Of a record that is longer than the buffer, the buffer's length is handed out. -/
private theorem Flow.sslRead_part {maxlen : Nat} (positive : 0 < maxlen)
    (fits : maxlen < 2 ^ 31) (answer : Answer) (whole : answer.arrived.length ≤ 16384)
    (long : maxlen < answer.arrived.length) :
    (⟨[], [], [], [], []⟩ : Flow).sslRead maxlen answer =
      .ok (answer.arrived.take maxlen, ⟨answer.arrived, answer.arrived.drop maxlen,
        [answer.arrived.take maxlen], [], []⟩) := by
  have taken : sslRecord answer = answer.arrived := List.take_of_length_le whole
  have some : answer.arrived ≠ [] := List.ne_nil_of_length_pos (Nat.zero_lt_of_lt long)
  have asked : ¬ ((maxlen : Int) < 1 ∨ answer.arrived = []) := by
    intro nothing
    rcases nothing with none | empty
    · omega
    · exact some empty
  rw [Flow.sslRead, toInt_of_lt fits]
  simp only [if_true, taken, List.nil_append, asked, if_false, Int.toNat_natCast]
  rfl

theorem Setup.longRound_stalls (setup : Setup) (inRange : ∀ side, InRange (setup.fd side))
    (ssl : setup.ssl .second = true) {pending : Side → List UInt8}
    (fresh : ∀ side, pending side = []) {record : List UInt8}
    (long : setup.pageSize < record.length) (whole : record.length ≤ 16384) :
    ¬ EveryState setup.step setup.SleepsDrained (setup.start pending)
      (longRound record (record.take setup.pageSize)) := by
  intro every
  obtain ⟨_, _, _, _, last⟩ := every
  have small := setup.pageSize_lt
  have room : (List.replicate setup.pageSize (0 : UInt8)).length = setup.pageSize :=
    List.length_replicate
  rw [@Setup.step_select setup (setup.start pending) inRange rfl] at last
  generalize entered : setup.step ((setup.start pending).select _) _ = ready at last
  have reading : ready.phase = .read .second := by rw [← entered]; rfl
  have buf : ready.buf = List.replicate setup.pageSize 0 := by rw [← entered]; rfl
  have flow : ready.flow .second = ⟨[], [], [], [], []⟩ := by
    rw [← entered]
    change (setup.start pending).flow .second = _
    simp [start, fresh]
  generalize chunkEq : record.take setup.pageSize = chunk at last
  have length : chunk.length = setup.pageSize := by
    rw [← chunkEq, List.length_take, Nat.min_eq_left (Nat.le_of_lt long)]
  have read : (if setup.ssl .second then (ready.flow .second).sslRead ready.buf.length
      ⟨.interrupted, record, 0, chunk, 0, 0⟩
      else (ready.flow .second).read ready.buf.length
        ⟨.interrupted, record, 0, chunk, 0, 0⟩) =
      .ok (chunk, ⟨record, record.drop setup.pageSize, [chunk], [], []⟩) := by
    rw [ssl, if_pos rfl, flow, buf, room, ← chunkEq]
    exact Flow.sslRead_part setup.pageSize_pos small _ whole long
  obtain ⟨writing, filled, _, kept, _⟩ := Setup.step_read reading (by rw [← entered]; rfl) read
  rw [ite_self] at writing filled kept
  generalize setup.step ready _ = full at last writing filled kept
  have inside : chunk.length ≤ full.buf.length := by
    rw [filled, length_fillBuffer (by rw [buf, room, length])]
    exact Nat.le_max_left _ _
  obtain ⟨next, left⟩ := @Setup.step_write_full setup full .second chunk.length
    ⟨.interrupted, [], 0, [], chunk.length, 0⟩ writing inside (by rw [length]; exact small) rfl
  have drained := (last next .second).1.1
  rw [left, kept] at drained
  have dropped := List.drop_eq_nil_iff.mp drained
  omega

end

theorem secureTunnel_stalls :
    ¬ EveryState pageTunnel.step pageTunnel.SleepsDrained (pageTunnel.start fun _ => [])
      (longRound (List.replicate 4097 0) ((List.replicate 4097 0).take (2 ^ 12))) :=
  pageTunnel.longRound_stalls secureTunnel_inRange rfl (fun _ => rfl)
    (by rw [List.length_replicate]; decide) (by rw [List.length_replicate]; decide)

/-- Without a callback it is the page size that decides. -/
theorem Setup.sleepsDrained_iff_pageSize (setup : Setup)
    (inRange : ∀ side, InRange (setup.fd side)) (direct : setup.intercept = false)
    (ssl : setup.ssl .second = true) (pending : Side → List UInt8)
    (fresh : ∀ side, pending side = []) :
    (∀ answers, EveryState setup.step setup.SleepsDrained (setup.start pending) answers) ↔
      16384 ≤ setup.pageSize := by
  constructor
  · intro every
    by_contra small
    have long : (List.replicate (setup.pageSize + 1) (0 : UInt8)).length = setup.pageSize + 1 :=
      List.length_replicate
    exact setup.longRound_stalls inRange ssl fresh (by rw [long]; exact Nat.lt_succ_self _)
      (by rw [long]; omega) (every _)
  · intro large answers
    have sound : ∀ state : State, setup.Relays state → setup.SleepsDrained state :=
      fun _ relays => relays.atSelect
    have keeps : ∀ (state : State) (answer : Answer), setup.Relays state →
        setup.Relays (setup.step state answer) :=
      fun _ answer relays => relays.step answer (relays.recordFits direct large)
    exact everyState_of_invariant sound keeps (setup.start_relays fresh) answers

end Socketxx.Tunnel
