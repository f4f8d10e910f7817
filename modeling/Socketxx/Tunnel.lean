import Mathlib.Data.List.Infix
import Mathlib.Logic.Function.Basic
import Mathlib.Tactic.Ring
import Socketxx.FdSet
import Socketxx.Library.Runs

/-!
`do_copy_tunneling` between two sides, each on a plain descriptor or in SSL mode, as a
machine that makes one step for each `select`, each read with its callback and each write.

A flow is all that comes from one side and goes to the other. Of a side in SSL mode it
also has what the SSL layer keeps: a whole record is taken off the descriptor, and what was
not asked for is left pending.
-/

set_option autoImplicit false

namespace Socketxx.Tunnel

open Runs

inductive Side where
  | first
  | second
deriving DecidableEq, Repr

def Side.other : Side → Side
  | .first => .second
  | .second => .first

/-- From one side: the bytes taken off its descriptor and those of them that are still
pending, the chunks read, what the callback made of each, and the bytes written to the
other side. -/
structure Flow where
  taken : List UInt8
  pending : List UInt8
  received : List (List UInt8)
  outputs : List (List UInt8)
  forwarded : List UInt8
deriving DecidableEq, Repr

/-- Bytes of the buffer that a read or a write touches, and the size of the buffer. -/
structure Access where
  count : Nat
  size : Nat
deriving DecidableEq, Repr

def Access.Inside (access : Access) : Prop := access.count ≤ access.size

inductive Ending where
  | returned
  | ioError
  | timeout
  | selectError
  | outOfRange
deriving DecidableEq, Repr

inductive Phase where
  | select
  | read (side : Side)
  | write (side : Side) (len : Nat)
  | ended (ending : Ending)
deriving DecidableEq, Repr

structure State where
  buf : List UInt8
  ready : Side → Bool
  flow : Side → Flow
  accesses : List Access
  phase : Phase

/-- The descriptors, which of them are in SSL mode, whether there is a callback, and
`getpagesize()`. -/
structure Setup where
  fd : Side → Int
  ssl : Side → Bool
  intercept : Bool
  pageSize : Nat
  pageSize_pos : 0 < pageSize
  pageSize_lt : pageSize < 2 ^ 31

inductive Selected where
  | interrupted
  | failed
  | ready (first second : Bool)
deriving DecidableEq, Repr

/-- What a step meets: the answer of `select`; the bytes that have arrived, or the next
record, and the result of a read that brings nothing; what the callback makes of a chunk;
the result of a write, and how much of a failed `SSL_write` has gone out. -/
structure Answer where
  selected : Selected
  arrived : List UInt8
  failure : Int
  intercepted : List UInt8
  written : Int
  sent : Nat
deriving DecidableEq, Repr

def toInt (len : Nat) : Int := (BitVec.ofNat 32 len).toInt

/-! ### Reading and writing -/

def Flow.receive (flow : Flow) (taken chunk pending : List UInt8) : Flow :=
  { flow with
    taken := flow.taken ++ taken
    pending := pending
    received := flow.received ++ [chunk] }

/-- `_i`, or the result it throws. -/
def Flow.read (flow : Flow) (maxlen : Nat) (answer : Answer) :
    Except Int (List UInt8 × Flow) :=
  let chunk := answer.arrived.take maxlen
  if chunk = [] then .error (min answer.failure 0)
  else .ok (chunk, flow.receive chunk chunk flow.pending)

/-- What `SSL_read` takes off the descriptor when nothing is pending. -/
def sslRecord (answer : Answer) : List UInt8 := answer.arrived.take 16384

def Flow.sslRead (flow : Flow) (maxlen : Nat) (answer : Answer) :
    Except Int (List UInt8 × Flow) :=
  let count := toInt maxlen
  let record := if flow.pending = [] then sslRecord answer else []
  let available := flow.pending ++ record
  if count < 1 ∨ available = [] then .error (min answer.failure 0)
  else
    let chunk := available.take count.toNat
    .ok (chunk, flow.receive record chunk (available.drop count.toNat))

/-- `_o`: whether it returns, the result, and the bytes that have gone out. -/
def plainWrite (data : List UInt8) (answer : Answer) : Bool × Int × List UInt8 :=
  let r := max (-1) (min answer.written data.length)
  (decide (r = data.length), r, data.take r.toNat)

def sslWrite (data : List UInt8) (answer : Answer) : Bool × Int × List UInt8 :=
  let count := toInt data.length
  let ret := if count < 0 then -1 else min answer.written count
  let out := if 0 < ret then ret.toNat else min answer.sent count.toNat
  (!decide (ret < count), ret, data.take out)

/-- `is_connection_closed`, of the result kept in an `int`. -/
def Ending.ofIoError (ret : Int) : Ending := if ret % 2 ^ 32 = 0 then .returned else .ioError

/-! ### The loop -/

def Side.next : Side → Phase
  | .first => .read .second
  | .second => .select

def State.setFlow (state : State) (side : Side) (flow : Flow) : State :=
  { state with flow := Function.update state.flow side flow }

def State.access (state : State) (count : Nat) : State :=
  { state with accesses := state.accesses ++ [⟨count, state.buf.length⟩] }

def State.goto (state : State) (phase : Phase) : State := { state with phase := phase }

/-- The buffer after a chunk was read into it and the callback has left `out`, in place if
it fits and else in a buffer of its own. -/
def fillBuffer (buf chunk out : List UInt8) : List UInt8 :=
  if out.length > buf.length then out
  else out ++ (chunk ++ buf.drop chunk.length).drop out.length

def State.select (state : State) : Selected → State
  | .interrupted => state
  | .failed => state.goto (.ended .selectError)
  | .ready first second =>
      if !first && !second then state.goto (.ended .timeout)
      else
        { state with
          ready := fun side =>
            match side with
            | .first => first
            | .second => second
          phase := .read .first }

def Setup.selectSet (setup : Setup) : Option FdSet :=
  (fdSet (setup.fd .first) []).bind (fdSet (setup.fd .second))

def Setup.select (setup : Setup) (state : State) (selected : Selected) : State :=
  match setup.selectSet with
  | none => state.goto (.ended .outOfRange)
  | some _ => state.select selected

def Setup.read (setup : Setup) (state : State) (side : Side) (answer : Answer) : State :=
  let result :=
    if setup.ssl side then (state.flow side).sslRead state.buf.length answer
    else (state.flow side).read state.buf.length answer
  match result with
  | .error ret => state.goto (.ended (Ending.ofIoError ret))
  | .ok (chunk, flow) =>
      let out := if setup.intercept then answer.intercepted else chunk
      let state := state.access chunk.length
      { state.setFlow side { flow with outputs := flow.outputs ++ [out] } with
        buf := fillBuffer state.buf chunk out
        phase := .write side out.length }

def Setup.write (setup : Setup) (state : State) (side : Side) (len : Nat)
    (answer : Answer) : State :=
  let data := state.buf.take len
  let (returns, ret, out) :=
    if setup.ssl side.other then sslWrite data answer else plainWrite data answer
  let flow := state.flow side
  let state := (state.access len).setFlow side { flow with forwarded := flow.forwarded ++ out }
  if returns then state.goto side.next else state.goto (.ended (Ending.ofIoError ret))

def Setup.step (setup : Setup) (state : State) (answer : Answer) : State :=
  match state.phase with
  | .select => setup.select state answer.selected
  | .read side => if state.ready side then setup.read state side answer else state.goto side.next
  | .write side len => setup.write state side len answer
  | .ended _ => state

/-- The loop is entered, with what earlier reads have left in the SSL layers. -/
def Setup.start (setup : Setup) (pending : Side → List UInt8) : State :=
  { buf := List.replicate setup.pageSize 0
    ready := fun _ => false
    flow := fun side =>
      let pending := if setup.ssl side then pending side else []
      { taken := pending
        pending := pending
        received := []
        outputs := []
        forwarded := [] }
    accesses := []
    phase := .select }

/-! ### Sizes -/

theorem toInt_of_lt {len : Nat} (fits : len < 2 ^ 31) : toInt len = len := by
  rw [toInt, BitVec.toInt_eq_toNat_cond, BitVec.toNat_ofNat]
  split <;> omega

theorem toInt_le (len : Nat) : toInt len ≤ len := by
  rw [toInt, BitVec.toInt_eq_toNat_cond, BitVec.toNat_ofNat]
  split <;> omega

theorem fillBuffer_take {buf chunk out : List UInt8} :
    (fillBuffer buf chunk out).take out.length = out := by
  rw [fillBuffer]
  split
  · exact List.take_length
  · exact List.take_left

theorem length_fillBuffer {buf chunk out : List UInt8} (inside : chunk.length ≤ buf.length) :
    (fillBuffer buf chunk out).length = max out.length buf.length := by
  rw [fillBuffer]
  split
  · omega
  · rw [List.length_append, List.length_drop, List.length_append, List.length_drop]
    omega

/-! ### The set -/

private theorem Setup.selectSet_isSome_iff (setup : Setup) :
    setup.selectSet.isSome ↔ ∀ side, InRange (setup.fd side) := by
  constructor
  · intro filled side
    by_contra outside
    have gone : ∀ set, fdSet (setup.fd side) set = none :=
      fun set => (fdSet_none_iff _ set).mpr outside
    cases side with
    | first =>
        rw [selectSet, gone] at filled
        cases filled
    | second =>
        rw [selectSet, Option.bind_congr (fun set _ => gone set), Option.bind_fun_none] at filled
        cases filled
  · intro inRange
    rw [selectSet, fdSet_inRange (inRange .first), Option.bind_some,
      fdSet_inRange (inRange .second)]
    rfl

private theorem Setup.select_inRange {setup : Setup} (inRange : ∀ side, InRange (setup.fd side))
    (state : State) (selected : Selected) :
    setup.select state selected = state.select selected := by
  obtain ⟨set, filled⟩ := Option.isSome_iff_exists.mp (setup.selectSet_isSome_iff.mpr inRange)
  rw [select, filled]

theorem Setup.step_select {setup : Setup} {state : State}
    (inRange : ∀ side, InRange (setup.fd side)) (selecting : state.phase = .select)
    (answer : Answer) : setup.step state answer = state.select answer.selected := by
  rw [Setup.step, selecting]
  exact Setup.select_inRange inRange state answer.selected

theorem Setup.select_cases (setup : Setup) (state : State) (selected : Selected) :
    setup.select state selected = state.goto (.ended .outOfRange) ∨
      setup.select state selected = state.select selected := by
  rw [select]
  cases setup.selectSet with
  | none => exact .inl rfl
  | some set => exact .inr rfl

/-! ### What one call does -/

/-- A read takes bytes off the descriptor, hands out those that were pending first, and
keeps the rest. -/
structure Flow.Reads (flow : Flow) (chunk : List UInt8) (after : Flow) : Prop where
  taken : ∃ record, after.taken = flow.taken ++ record ∧
    chunk ++ after.pending = flow.pending ++ record
  received : after.received = flow.received ++ [chunk]
  outputs : after.outputs = flow.outputs
  forwarded : after.forwarded = flow.forwarded

theorem Flow.read_ok {flow after : Flow} {maxlen : Nat} {answer : Answer}
    {chunk : List UInt8} (idle : flow.pending = [])
    (read : flow.read maxlen answer = .ok (chunk, after)) :
    chunk.length ≤ maxlen ∧ flow.Reads chunk after ∧ after.pending = [] := by
  rw [Flow.read] at read
  split at read
  · cases read
  · cases read
    refine ⟨List.length_take_le _ _, ⟨⟨_, rfl, ?_⟩, rfl, rfl, rfl⟩, idle⟩
    rw [Flow.receive, idle, List.append_nil, List.nil_append]

theorem Flow.sslRead_ok {flow after : Flow} {maxlen : Nat} {answer : Answer}
    {chunk : List UInt8} (read : flow.sslRead maxlen answer = .ok (chunk, after)) :
    chunk.length ≤ maxlen ∧ flow.Reads chunk after := by
  rw [Flow.sslRead] at read
  generalize (if flow.pending = [] then sslRecord answer else []) = record at read
  split at read
  · cases read
  · cases read
    have bound := toInt_le maxlen
    refine ⟨?_, ⟨_, rfl, List.take_append_drop _ _⟩, rfl, rfl, rfl⟩
    rw [List.length_take]
    omega

private theorem plainWrite_out {data out : List UInt8} {answer : Answer} {returns : Bool} {r : Int}
    (wrote : plainWrite data answer = (returns, r, out)) :
    out <+: data ∧ (returns = true → out = data) := by
  rw [plainWrite] at wrote
  cases wrote
  refine ⟨List.take_prefix _ _, fun full => ?_⟩
  rw [of_decide_eq_true full, Int.toNat_natCast, List.take_length]

private theorem sslWrite_out {data out : List UInt8} {answer : Answer} {returns : Bool} {ret : Int}
    (wrote : sslWrite data answer = (returns, ret, out)) :
    out <+: data ∧ (data.length < 2 ^ 31 → returns = true → out = data) := by
  rw [sslWrite] at wrote
  cases wrote
  refine ⟨List.take_prefix _ _, fun fits full => ?_⟩
  have positive : ¬ (data.length : Int) < 0 := by omega
  rw [toInt_of_lt fits, if_neg positive] at full ⊢
  rw [Bool.not_eq_true', decide_eq_false_iff_not] at full
  have whole : min answer.written (data.length : Int) = data.length := by omega
  rw [whole]
  apply List.take_of_length_le
  split <;> omega

/-! ### In order, without loss or duplication -/

/-- All that the callback has put out has been written. -/
def Flow.Settled (flow : Flow) : Prop := flow.forwarded = flow.outputs.flatten

/-- Of the flow that is being served, the chunk in the buffer is still to be written. -/
def State.ForwardedAt (state : State) : Phase → Prop
  | .select => ∀ side, (state.flow side).Settled
  | .read _ => ∀ side, (state.flow side).Settled
  | .write side len =>
      len ≤ state.buf.length ∧
        (state.flow side).outputs.flatten = (state.flow side).forwarded ++ state.buf.take len ∧
        (state.flow side.other).Settled
  | .ended _ => ∀ side, (state.flow side).forwarded <+: (state.flow side).outputs.flatten

structure Setup.InOrder (setup : Setup) (state : State) : Prop where
  inside : ∀ access ∈ state.accesses, access.Inside
  idle : ∀ side, setup.ssl side = false → (state.flow side).pending = []
  taken : ∀ side, (state.flow side).taken =
    (state.flow side).received.flatten ++ (state.flow side).pending
  uncut : setup.intercept = false →
    ∀ side, (state.flow side).outputs = (state.flow side).received
  forwarded : state.ForwardedAt state.phase

/-- The chunk that is written is one the writer can send in one go: SSL takes its length
as an `int`. -/
def Setup.Fits (setup : Setup) (state : State) : Prop :=
  match state.phase with
  | .write side len => setup.ssl side.other = true → len < 2 ^ 31
  | _ => True

/-- What is claimed of each state. -/
structure Setup.Forwards (setup : Setup) (state : State) : Prop where
  inside : ∀ access ∈ state.accesses, access.Inside
  uncut : setup.intercept = false →
    ∀ side, (state.flow side).outputs = (state.flow side).received
  inOrder : ∀ side, (state.flow side).forwarded <+: (state.flow side).outputs.flatten
  settled : state.phase = .select →
    ∀ side, (state.flow side).forwarded = (state.flow side).outputs.flatten

theorem Side.eq_or_other (side each : Side) : each = side ∨ each = side.other := by
  cases side <;> cases each <;> decide

private theorem Side.other_ne (side : Side) : side.other ≠ side := by
  cases side <;> decide

section

variable (state : State) (side : Side) (flow : Flow)

@[simp] theorem State.setFlow_self : (state.setFlow side flow).flow side = flow := by
  rw [setFlow]
  exact Function.update_self side flow state.flow

@[simp] theorem State.setFlow_other :
    (state.setFlow side flow).flow side.other = state.flow side.other := by
  rw [setFlow]
  exact Function.update_of_ne side.other_ne flow state.flow

end

theorem State.setFlow_forall {state : State} {side : Side} {flow : Flow}
    {P : Side → Flow → Prop} (here : P side flow)
    (others : ∀ each, P each (state.flow each)) :
    ∀ each, P each ((state.setFlow side flow).flow each) := by
  rw [setFlow]
  exact (Function.forall_update_iff state.flow P).mpr ⟨here, fun each _ => others each⟩

theorem State.access_inside {state : State} {count : Nat}
    (inside : ∀ access ∈ state.accesses, access.Inside) (bound : count ≤ state.buf.length) :
    ∀ access ∈ (state.access count).accesses, access.Inside := by
  intro access member
  rcases List.mem_append.mp member with earlier | now
  · exact inside access earlier
  · rw [List.mem_singleton.mp now]
    exact bound

theorem Flow.Settled.inOrder {flow : Flow} (settled : flow.Settled) :
    flow.forwarded <+: flow.outputs.flatten := by
  rw [show flow.forwarded = flow.outputs.flatten from settled]

section

variable {setup : Setup} {state : State}

theorem Setup.InOrder.forwards (inOrder : setup.InOrder state) : setup.Forwards state := by
  have forwarded := inOrder.forwarded
  refine ⟨inOrder.inside, inOrder.uncut, ?_, ?_⟩
  · cases phase : state.phase with
    | select =>
        rw [phase] at forwarded
        exact fun side => (forwarded side).inOrder
    | read serving =>
        rw [phase] at forwarded
        exact fun side => (forwarded side).inOrder
    | write serving len =>
        rw [phase] at forwarded
        obtain ⟨_, missing, settled⟩ := forwarded
        intro side
        rcases serving.eq_or_other side with rfl | rfl
        · rw [missing]
          exact List.prefix_append _ _
        · exact settled.inOrder
    | ended ending =>
        rw [phase] at forwarded
        exact forwarded
  · intro selecting
    rw [selecting] at forwarded
    exact forwarded

theorem Setup.InOrder.goto (inOrder : setup.InOrder state) {phase : Phase}
    (forwarded : state.ForwardedAt phase) : setup.InOrder (state.goto phase) := by
  refine ⟨inOrder.inside, inOrder.idle, inOrder.taken, inOrder.uncut, ?_⟩
  cases phase <;> exact forwarded

private theorem Setup.InOrder.select (inOrder : setup.InOrder state)
    (settled : ∀ side, (state.flow side).Settled) (selected : Selected) :
    setup.InOrder (state.select selected) := by
  cases selected with
  | interrupted => exact inOrder
  | failed => exact inOrder.goto (fun side => (settled side).inOrder)
  | ready first second =>
      rw [State.select]
      split
      · exact inOrder.goto (fun side => (settled side).inOrder)
      · exact ⟨inOrder.inside, inOrder.idle, inOrder.taken, inOrder.uncut, settled⟩

theorem Setup.InOrder.read_ok (inOrder : setup.InOrder state) {side : Side}
    {answer : Answer} {chunk : List UInt8} {after : Flow}
    (read : (if setup.ssl side then (state.flow side).sslRead state.buf.length answer
      else (state.flow side).read state.buf.length answer) = .ok (chunk, after)) :
    chunk.length ≤ state.buf.length ∧ (state.flow side).Reads chunk after ∧
      (setup.ssl side = false → after.pending = []) := by
  cases ssl : setup.ssl side with
  | true =>
      rw [if_pos ssl] at read
      exact ⟨(Flow.sslRead_ok read).1, (Flow.sslRead_ok read).2, Bool.noConfusion⟩
  | false =>
      rw [if_neg (by rw [ssl]; exact Bool.false_ne_true)] at read
      obtain ⟨inside, reads, idle⟩ := Flow.read_ok (inOrder.idle side ssl) read
      exact ⟨inside, reads, fun _ => idle⟩

theorem Setup.write_out {side : Side} {data out : List UInt8} {answer : Answer}
    {returns : Bool} {ret : Int}
    (wrote : (if setup.ssl side then sslWrite data answer else plainWrite data answer) =
      (returns, ret, out)) :
    out <+: data ∧
      ((setup.ssl side = true → data.length < 2 ^ 31) → returns = true → out = data) := by
  cases ssl : setup.ssl side with
  | true =>
      rw [if_pos ssl] at wrote
      exact ⟨(sslWrite_out wrote).1, fun fits => (sslWrite_out wrote).2 (fits rfl)⟩
  | false =>
      rw [if_neg (by rw [ssl]; exact Bool.false_ne_true)] at wrote
      exact ⟨(plainWrite_out wrote).1, fun _ => (plainWrite_out wrote).2⟩

private theorem Setup.InOrder.read (inOrder : setup.InOrder state)
    (settled : ∀ side, (state.flow side).Settled) (side : Side) (answer : Answer) :
    setup.InOrder (setup.read state side answer) := by
  rw [Setup.read]
  rcases result : (if setup.ssl side then (state.flow side).sslRead state.buf.length answer
    else (state.flow side).read state.buf.length answer) with ret | ⟨chunk, after⟩
  · exact inOrder.goto (fun side => (settled side).inOrder)
  · obtain ⟨bound, reads, idle⟩ := inOrder.read_ok result
    obtain ⟨record, taken, kept⟩ := reads.taken
    simp only
    generalize made : (if setup.intercept then answer.intercepted else chunk) = out
    have room := @length_fillBuffer state.buf chunk out bound
    constructor
    case inside => exact State.access_inside inOrder.inside bound
    case idle =>
      exact @State.setFlow_forall _ _ _
        (fun each flow => setup.ssl each = false → flow.pending = []) idle inOrder.idle
    case taken =>
      have here : after.taken = after.received.flatten ++ after.pending := by
        rw [taken, inOrder.taken, reads.received, List.flatten_append, List.flatten_singleton,
          List.append_assoc, List.append_assoc, kept]
      exact @State.setFlow_forall _ _ _
        (fun _ flow => flow.taken = flow.received.flatten ++ flow.pending) here inOrder.taken
    case uncut =>
      intro direct
      have before := inOrder.uncut direct
      have here : after.outputs ++ [out] = after.received := by
        rw [direct] at made
        rw [reads.outputs, reads.received, before, ← made]
        rfl
      exact @State.setFlow_forall _ _ _ (fun _ flow => flow.outputs = flow.received) here before
    case forwarded =>
      have inside : out.length ≤ (fillBuffer state.buf chunk out).length := by
        rw [room]
        exact Nat.le_max_left _ _
      have missing : (after.outputs ++ [out]).flatten =
          after.forwarded ++ (fillBuffer state.buf chunk out).take out.length := by
        rw [reads.outputs, reads.forwarded, fillBuffer_take, List.flatten_append,
          List.flatten_singleton]
        exact congrArg (· ++ out) (settled side).symm
      change out.length ≤ _ ∧ _ ∧ _
      simp only [State.setFlow_self, State.setFlow_other]
      exact ⟨inside, missing, settled _⟩

theorem State.settled_next {side : Side} (settled : ∀ side, (state.flow side).Settled) :
    state.ForwardedAt side.next := by
  cases side <;> exact settled

def Flow.forward (flow : Flow) (out : List UInt8) : Flow :=
  { flow with forwarded := flow.forwarded ++ out }

private theorem Setup.InOrder.forward (inOrder : setup.InOrder state) {side : Side} {len : Nat}
    (bound : len ≤ state.buf.length) {out : List UInt8} {phase : Phase}
    (forwarded : ((state.access len).setFlow side
      ((state.flow side).forward out)).ForwardedAt phase) :
    setup.InOrder (((state.access len).setFlow side
      ((state.flow side).forward out)).goto phase) := by
  constructor
  case inside => exact State.access_inside inOrder.inside bound
  case idle =>
    exact @State.setFlow_forall _ _ _
      (fun each flow => setup.ssl each = false → flow.pending = []) (inOrder.idle side)
      inOrder.idle
  case taken =>
    exact @State.setFlow_forall _ _ _
      (fun _ flow => flow.taken = flow.received.flatten ++ flow.pending) (inOrder.taken side)
      inOrder.taken
  case uncut =>
    intro direct
    have before := inOrder.uncut direct
    exact @State.setFlow_forall _ _ _ (fun _ flow => flow.outputs = flow.received)
      (before side) before
  case forwarded => cases phase <;> exact forwarded

private theorem Setup.InOrder.write (inOrder : setup.InOrder state) {side : Side} {len : Nat}
    (writing : state.phase = .write side len) (answer : Answer) (fits : setup.Fits state) :
    setup.InOrder (setup.write state side len answer) := by
  have forwarded := inOrder.forwarded
  rw [writing] at forwarded
  rw [Setup.Fits, writing] at fits
  obtain ⟨bound, missing, settled⟩ := forwarded
  have size : (state.buf.take len).length = len := by
    rw [List.length_take, Nat.min_eq_left bound]
  rw [Setup.write]
  rcases result : (if setup.ssl side.other then sslWrite (state.buf.take len) answer
    else plainWrite (state.buf.take len) answer) with ⟨returns, ret, out⟩
  obtain ⟨sent, whole⟩ := Setup.write_out result
  rw [size] at whole
  cases returns with
  | true =>
      have done : ((state.flow side).forward out).Settled := by
        rw [Flow.Settled, Flow.forward, missing, whole fits rfl]
      apply inOrder.forward bound
      apply State.settled_next
      intro each
      rcases side.eq_or_other each with rfl | rfl
      · rw [State.setFlow_self]
        exact done
      · rw [State.setFlow_other]
        exact settled
  | false =>
      have part : ((state.flow side).forward out).forwarded <+:
          ((state.flow side).forward out).outputs.flatten := by
        rw [Flow.forward, missing]
        exact (List.prefix_append_right_inj _).mpr sent
      apply inOrder.forward bound
      intro each
      rcases side.eq_or_other each with rfl | rfl
      · rw [State.setFlow_self]
        exact part
      · rw [State.setFlow_other]
        exact settled.inOrder

theorem Setup.InOrder.step (inOrder : setup.InOrder state) (answer : Answer)
    (fits : setup.Fits state) : setup.InOrder (setup.step state answer) := by
  have forwarded := inOrder.forwarded
  rw [Setup.step]
  cases phase : state.phase with
  | select =>
      rw [phase] at forwarded
      rcases setup.select_cases state answer.selected with outside | selected
      · simp only [outside]
        exact inOrder.goto (fun side => (forwarded side).inOrder)
      · simp only [selected]
        exact inOrder.select forwarded answer.selected
  | read side =>
      rw [phase] at forwarded
      simp only
      split
      · exact inOrder.read forwarded side answer
      · exact inOrder.goto (State.settled_next forwarded)
  | write side len => exact inOrder.write phase answer fits
  | ended ending => exact inOrder

theorem Setup.start_inOrder (setup : Setup) (pending : Side → List UInt8) :
    setup.InOrder (setup.start pending) := by
  refine ⟨?_, ?_, fun _ => rfl, fun _ _ => rfl, fun _ => rfl⟩
  · intro access member
    cases member
  · intro side plain
    change (if setup.ssl side then pending side else []) = []
    rw [plain]
    rfl

end

/-- In every run, whatever the order of events, the chunks and the callback, and as long
as no chunk of 2^31 bytes or more is to be written to SSL: what has been written to a side
is the beginning of what the callback made of the chunks read from the other, all of it at
each `select`, and no access leaves the buffer. -/
theorem forwards_inOrder (setup : Setup) (pending : Side → List UInt8) (answers : List Answer)
    (fits : EveryStep setup.step (fun state _ => setup.Fits state) (setup.start pending)
      answers) :
    EveryState setup.step setup.Forwards (setup.start pending) answers := by
  have sound : ∀ state, setup.InOrder state → setup.Forwards state :=
    fun _ inOrder => inOrder.forwards
  have keeps : ∀ (state : State) (answer : Answer), setup.InOrder state →
      setup.Fits state → setup.InOrder (setup.step state answer) :=
    fun _ answer inOrder fits => inOrder.step answer fits
  exact fits.everyState sound keeps (setup.start_inOrder pending)

def secureTunnel (pageSize : Nat) (pos : 0 < pageSize) (lt : pageSize < 2 ^ 31) : Setup :=
  { fd := fun side => if side = .first then 3 else 4
    ssl := fun side => side == .second
    intercept := true
    pageSize := pageSize
    pageSize_pos := pos
    pageSize_lt := lt }

theorem secureTunnel_inRange {pageSize : Nat} {pos : 0 < pageSize} {lt : pageSize < 2 ^ 31}
    (side : Side) : InRange ((secureTunnel pageSize pos lt).fd side) := by
  cases side with
  | first => exact (by decide : InRange 3)
  | second => exact (by decide : InRange 4)

def smallTunnel : Setup := secureTunnel 4 (by decide) (by decide)

def pageTunnel : Setup := secureTunnel (2 ^ 12) (by decide) (by decide)

theorem secureTunnel_forwards :
    EveryState smallTunnel.step smallTunnel.Forwards (smallTunnel.start fun _ => [])
      [⟨.ready true false, [], 0, [], 0, 0⟩, ⟨.interrupted, [1], 0, [2, 3], 0, 0⟩,
        ⟨.interrupted, [], 0, [], 2, 0⟩, ⟨.interrupted, [], 0, [], 0, 0⟩] :=
  forwards_inOrder _ _ _ ⟨trivial, trivial, fun _ => by decide, trivial, trivial⟩

/-! ### A chunk that is too long for SSL -/

section

variable {setup : Setup} {state : State}

theorem sslWrite_huge {data : List UInt8} (answer : Answer)
    (huge : toInt data.length < 0) : sslWrite data answer = (true, -1, []) := by
  rw [sslWrite]
  simp only [huge, if_true]
  have never : ¬ ((-1 : Int) < toInt data.length) := by omega
  have nothing : min answer.sent (toInt data.length).toNat = 0 := by omega
  rw [if_neg (by decide), nothing, decide_eq_false never]
  rfl

theorem Setup.step_read {side : Side} {answer : Answer} {chunk : List UInt8} {after : Flow}
    (reading : state.phase = .read side) (ready : state.ready side = true)
    (read : (if setup.ssl side then (state.flow side).sslRead state.buf.length answer
      else (state.flow side).read state.buf.length answer) = .ok (chunk, after)) :
    (setup.step state answer).phase = .write side
        (if setup.intercept then answer.intercepted else chunk).length ∧
      (setup.step state answer).buf =
        fillBuffer state.buf chunk (if setup.intercept then answer.intercepted else chunk) ∧
      (setup.step state answer).ready = state.ready ∧
      (setup.step state answer).flow side =
        { after with
          outputs := after.outputs ++ [if setup.intercept then answer.intercepted else chunk] } ∧
      (setup.step state answer).flow side.other = state.flow side.other := by
  rw [Setup.step, reading]
  simp only [ready, if_true]
  rw [Setup.read, read]
  refine ⟨rfl, rfl, rfl, ?_, ?_⟩
  · simp only [State.setFlow_self]
  · simp only [State.setFlow_other]
    rfl

private theorem Setup.step_write_huge {side : Side} {len : Nat} {answer : Answer}
    (writing : state.phase = .write side len) (ssl : setup.ssl side.other = true)
    (inside : len ≤ state.buf.length) (huge : toInt len < 0) :
    (setup.step state answer).phase = side.next ∧
      (setup.step state answer).ready = state.ready ∧
      (setup.step state answer).flow side = state.flow side := by
  have size : (state.buf.take len).length = len := by
    rw [List.length_take, Nat.min_eq_left inside]
  have dropped := @sslWrite_huge (state.buf.take len) answer (by rw [size]; exact huge)
  rw [Setup.step, writing]
  simp only
  rw [Setup.write, if_pos ssl, dropped]
  refine ⟨rfl, rfl, ?_⟩
  change ((state.access len).setFlow side _).flow side = _
  rw [State.setFlow_self, List.append_nil]

def round (out : List UInt8) : List Answer :=
  [⟨.ready true false, [], 0, [], 0, 0⟩, ⟨.interrupted, [1], 0, out, 0, 0⟩,
    ⟨.interrupted, [], 0, [], 0, 0⟩, ⟨.interrupted, [], 0, [], 0, 0⟩]

private theorem Setup.round_drops (setup : Setup) (inRange : ∀ side, InRange (setup.fd side))
    (plain : setup.ssl .first = false) (ssl : setup.ssl .second = true)
    (intercept : setup.intercept = true) (pending : Side → List UInt8)
    {out : List UInt8} (huge : toInt out.length < 0) :
    ¬ EveryState setup.step setup.Forwards (setup.start pending) (round out) := by
  intro every
  obtain ⟨_, _, _, _, last⟩ := every
  rw [@Setup.step_select setup (setup.start pending) inRange rfl] at last
  generalize selected : (setup.start pending).select _ = ready at last
  have reading : ready.phase = .read .first := by rw [← selected]; rfl
  have buf : ready.buf = List.replicate setup.pageSize 0 := by rw [← selected]; rfl
  have flow : ready.flow .first = ⟨[], [], [], [], []⟩ := by
    rw [← selected]
    change (setup.start pending).flow .first = _
    simp [start, plain]
  have chunk : (if setup.ssl .first then (ready.flow .first).sslRead ready.buf.length
      ⟨.interrupted, [1], 0, out, 0, 0⟩
      else (ready.flow .first).read ready.buf.length ⟨.interrupted, [1], 0, out, 0, 0⟩) =
      .ok ([1], ⟨[1], [], [[1]], [], []⟩) := by
    have whole : ([1] : List UInt8).take setup.pageSize = [1] :=
      List.take_of_length_le setup.pageSize_pos
    rw [plain, if_neg Bool.false_ne_true, flow, buf, List.length_replicate, Flow.read]
    simp only [whole]
    rfl
  obtain ⟨writing, filled, kept, read, _⟩ := Setup.step_read reading (by rw [← selected]; rfl)
    chunk
  rw [intercept, if_pos rfl] at writing filled read
  generalize setup.step ready _ = full at last writing filled kept read
  have inside : out.length ≤ full.buf.length := by
    rw [filled, length_fillBuffer (by rw [buf, List.length_replicate]; exact setup.pageSize_pos)]
    exact Nat.le_max_left _ _
  obtain ⟨next, still, dropped⟩ := @Setup.step_write_huge setup full .first out.length
    ⟨.interrupted, [], 0, [], 0, 0⟩ writing ssl inside huge
  generalize setup.step full _ = wrote at last next still dropped
  have idle : wrote.ready .second = false := by
    rw [still, kept, ← selected]
    rfl
  have settled := last.settled
  rw [Setup.step, next] at settled
  simp only [Side.next, idle, Bool.false_eq_true, if_false] at settled
  have lost := settled rfl .first
  change (wrote.flow .first).forwarded = (wrote.flow .first).outputs.flatten at lost
  rw [dropped, read] at lost
  change [] = [out].flatten at lost
  rw [List.flatten_singleton] at lost
  rw [← lost] at huge
  contradiction

end

theorem secureTunnel_drops :
    ¬ EveryState pageTunnel.step pageTunnel.Forwards (pageTunnel.start fun _ => [])
      (round (List.replicate (2 ^ 31) 0)) :=
  pageTunnel.round_drops secureTunnel_inRange rfl rfl rfl _ (by rw [List.length_replicate]; decide)

end Socketxx.Tunnel
