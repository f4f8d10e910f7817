import Socketxx.SelectStop

/-!
The time that the wrappers of `select` spend in it.

`_select_throw_stop` goes on with the time that is left after a signal, `_select` with
the whole timeout.
-/

set_option autoImplicit false

namespace Socketxx.SelectStop

open BasePipe (Timeval timeoutInf)
open ServerPool (Selected)
open ScopedLock

structure FiniteTimeout where
  sec : Nat
  usec : Nat
  normal : usec < 1000000

def FiniteTimeout.tm (timeout : FiniteTimeout) : Timeval := ⟨timeout.sec, timeout.usec⟩

theorem FiniteTimeout.ne_inf (timeout : FiniteTimeout) : timeout.tm ≠ timeoutInf := by
  intro same
  have seconds := congrArg Timeval.tvSec same
  change (timeout.sec : Int) = -1 at seconds
  omega

theorem pointer_eq {tm : Timeval} (finite : tm ≠ timeoutInf) : pointer tm = some tm :=
  if_neg finite

private theorem remaining_eq {tm : Timeval} (finite : tm ≠ timeoutInf) (elapsed : Nat) :
    remaining tm elapsed = ofMicros (micros tm - elapsed) := by
  unfold remaining
  rw [pointer_eq finite]

/-- The time spent in a call; one that times out lasts as long as it may. -/
def SelectCall.spent (call : SelectCall) : Nat :=
  match call.answer with
  | some (.ready elapsed _) => elapsed
  | some .timedOut => (call.timeout.map micros).getD 0
  | some (.interrupted elapsed) => elapsed
  | some .failed => 0
  | none => 0

def totalSpent (calls : List SelectCall) : Nat := (calls.map SelectCall.spent).sum

theorem totalSpent_cons (call : SelectCall) (calls : List SelectCall) :
    totalSpent (call :: calls) = call.spent + totalSpent calls := rfl

theorem totalSpent_singleton (call : SelectCall) : totalSpent [call] = call.spent := by
  rw [totalSpent_cons]
  rfl

/-- What is documented of `select`: a positive result has a descriptor in the set, and it
does not wait longer than it may, nor up to the end when interrupted. -/
def SelectCall.AsDocumented (call : SelectCall) : Prop :=
  match call.answer with
  | some (.ready elapsed fds) =>
      call.result fds ≠ [] ∧ ∀ tm, call.timeout = some tm → elapsed ≤ micros tm
  | some .timedOut => call.timeout.isSome
  | some (.interrupted elapsed) => ∀ tm, call.timeout = some tm → elapsed < micros tm
  | some .failed => True
  | none => True

theorem SelectCall.spent_le {call : SelectCall} {tm : Timeval} (given : call.timeout = some tm)
    (documented : call.AsDocumented) : call.spent ≤ micros tm := by
  unfold SelectCall.AsDocumented at documented
  unfold SelectCall.spent
  cases answer : call.answer with
  | none => exact Nat.zero_le _
  | some answer' =>
      rw [answer] at documented
      cases answer' with
      | ready elapsed fds => exact documented.2 tm given
      | timedOut =>
          rw [given]
          exact Nat.le_refl _
      | interrupted elapsed => exact Nat.le_of_lt (documented tm given)
      | failed => exact Nat.zero_le _

/-- The calls of a loop that starts with this timeout: each but the last is interrupted. -/
inductive Wrapper.Calls (w : Wrapper) : Timeval → List SelectCall → Prop where
  | unfilled (timeout : Timeval) : Calls w timeout []
  | last (timeout : Timeval) (call : SelectCall) (given : call.timeout = pointer timeout) :
      Calls w timeout [call]
  | again (timeout : Timeval) (call : SelectCall) (elapsed : Nat) (later : List SelectCall)
      (given : call.timeout = pointer timeout)
      (answer : call.answer = some (.interrupted elapsed))
      (rest : Calls w (w.rearm timeout elapsed) later) : Calls w timeout (call :: later)

theorem Wrapper.redo_calls (w : Wrapper) (answers : List Answer) (maxfd : Int)
    (timeout : Timeval) : w.Calls timeout (w.redo answers maxfd timeout).1 := by
  induction answers generalizing maxfd timeout with
  | nil =>
      unfold Wrapper.redo
      cases w.fill maxfd with
      | none => exact .unfilled timeout
      | some both => exact .last timeout _ rfl
  | cons answer later ih =>
      unfold Wrapper.redo
      cases w.fill maxfd with
      | none => exact .unfilled timeout
      | some both =>
          cases answer with
          | interrupted elapsed =>
              cases w.ignsig with
              | false => exact .last timeout _ rfl
              | true => exact .again timeout _ elapsed _ rfl rfl (ih both.1 _)
          | failed => exact .last timeout _ rfl
          | timedOut => exact .last timeout _ rfl
          | ready elapsed fds => exact .last timeout _ rfl

theorem Wrapper.Calls.totalSpent_le {w : Wrapper} (rearm : w.rearm = remaining)
    {timeout : Timeval} {calls : List SelectCall} (made : w.Calls timeout calls)
    (finite : timeout ≠ timeoutInf) (documented : ∀ call ∈ calls, call.AsDocumented) :
    totalSpent calls ≤ micros timeout := by
  induction made with
  | unfilled timeout => exact Nat.zero_le _
  | last timeout call given =>
      rw [pointer_eq finite] at given
      rw [totalSpent_singleton]
      exact SelectCall.spent_le given (documented call List.mem_cons_self)
  | again timeout call elapsed later given answer rest ih =>
      rw [pointer_eq finite] at given
      rw [List.forall_mem_cons] at documented
      obtain ⟨here, documented⟩ := documented
      have left : w.rearm timeout elapsed = ofMicros (micros timeout - elapsed) := by
        rw [rearm, remaining_eq finite]
      have bound := ih (by rw [left]; exact ofMicros_ne_inf _) documented
      rw [left, micros_ofMicros] at bound
      have spent : call.spent = elapsed := by
        rw [SelectCall.spent, answer]
      have less : elapsed < micros timeout := by
        rw [SelectCall.AsDocumented, answer] at here
        exact here timeout given
      rw [totalSpent_cons, spent]
      omega

private theorem selectThrowStop_totalSpent (fd1 fd2 : Int) (timeout : FiniteTimeout)
    (answers : List Answer)
    (documented : ∀ call ∈ (selectThrowStop fd1 fd2 timeout.tm true answers).1, call.AsDocumented) :
    totalSpent (selectThrowStop fd1 fd2 timeout.tm true answers).1 ≤ micros timeout.tm :=
  (Wrapper.redo_calls _ _ _ _).totalSpent_le rfl timeout.ne_inf documented

private theorem selectThrowStopAll_totalSpent (fd1 : Int) (fds : List Int) (timeout : FiniteTimeout)
    (answers : List Answer)
    (documented : ∀ call ∈ (selectThrowStopAll fd1 fds timeout.tm true answers).1,
      call.AsDocumented) :
    totalSpent (selectThrowStopAll fd1 fds timeout.tm true answers).1 ≤ micros timeout.tm :=
  (Wrapper.redo_calls _ _ _ _).totalSpent_le rfl timeout.ne_inf documented

/-! ### `_select` -/

/-- An answer as the pool calls see it, to whom a timeout is an answer without ready
descriptors. -/
def Answer.selected : Answer → Selected
  | .ready _ fds => .ready fds
  | .timedOut => .ready []
  | .interrupted _ => .interrupted
  | .failed => .failed

/-- What the caller of `_select` sees of it. -/
def seen (calls : List SelectCall) : Exit → ServerPool.Call FdSet
  | .returned =>
      match calls.getLast? with
      | some call =>
          match call.answer with
          | some (.ready _ fds) => pure (call.result fds)
          | _ => LockM.blocked
      | none => LockM.blocked
  | .timeoutEvent => LockM.throw .timeout
  | .selectErr => LockM.throw .selectErr
  | _ => LockM.blocked

def interruptedThen (interruptions : List Nat) (last : Answer) : List Answer :=
  interruptions.map Answer.interrupted ++ [last]

private theorem _select_getLast? (maxfd : Int) (set : FdSet) (timeout : Timeval)
    (answers : List Answer) :
    ∃ last, (_select maxfd set timeout answers).1.getLast? = some last := by
  have run := @Wrapper.redo_run (plain set timeout) (fun _ => True) (fun _ _ => True)
    (fun maxfd _ => ⟨maxfd, set, rfl, trivial, trivial⟩) answers maxfd trivial timeout
  obtain ⟨_made, last, isLast, _ended⟩ := run
  exact ⟨last, isLast⟩

private theorem seen_cons {calls : List SelectCall} {last : SelectCall}
    (isLast : calls.getLast? = some last) (call : SelectCall) (exit : Exit) :
    seen (call :: calls) exit = seen calls exit := by
  have same : (call :: calls).getLast? = calls.getLast? := by
    rw [List.getLast?_cons, isLast]
    rfl
  cases exit <;> unfold seen <;> rw [same]

/-- Apart from the time, the `_select` of the pool calls is this one. -/
theorem select_eq_seen (maxfd : Int) (set : FdSet) (timeout : Timeval) (answers : List Answer)
    (documented : ∀ call ∈ (_select maxfd set timeout answers).1, call.AsDocumented) :
    ServerPool.select maxfd set (answers.map Answer.selected) =
      seen (_select maxfd set timeout answers).1 (_select maxfd set timeout answers).2 := by
  induction answers with
  | nil => rfl
  | cons answer later ih =>
      cases answer with
      | interrupted elapsed =>
          obtain ⟨last, isLast⟩ := _select_getLast? maxfd set timeout later
          have again := ih (fun call member => documented call (List.mem_cons_of_mem _ member))
          exact again.trans (seen_cons isLast _ _).symm
      | failed => rfl
      | timedOut =>
          have nothing : selectResult (maxfd + 1) set [] = [] := by
            simp [selectResult]
          exact if_pos nothing
      | ready elapsed fds => exact if_neg (documented _ List.mem_cons_self).1

section

variable (maxfd : Int) (set : FdSet) (timeout : FiniteTimeout)

theorem _select_cons (elapsed : Nat) (later : List Answer) :
    (_select maxfd set timeout.tm (.interrupted elapsed :: later)).1 =
      ⟨maxfd + 1, set, some timeout.tm, some (.interrupted elapsed)⟩ ::
        (_select maxfd set timeout.tm later).1 := by
  rw [_select, Wrapper.redo]
  simp only [plain, pointer_eq timeout.ne_inf]
  rfl

private theorem _select_nil :
    (_select maxfd set timeout.tm []).1 = [⟨maxfd + 1, set, some timeout.tm, none⟩] := by
  rw [_select, Wrapper.redo]
  simp only [plain, pointer_eq timeout.ne_inf]
  rfl

theorem _select_last {last : Answer} (answered : ∀ elapsed, last ≠ .interrupted elapsed) :
    (_select maxfd set timeout.tm [last]).1 =
      [⟨maxfd + 1, set, some timeout.tm, some last⟩] := by
  rw [_select, Wrapper.redo]
  cases last with
  | interrupted elapsed => exact absurd rfl (answered elapsed)
  | failed => simp only [plain, pointer_eq timeout.ne_inf, List.head?_cons]
  | timedOut => simp only [plain, pointer_eq timeout.ne_inf, List.head?_cons]
  | ready elapsed fds => simp only [plain, pointer_eq timeout.ne_inf, List.head?_cons]

private theorem _select_interruptedThen (interruptions : List Nat) (last : Answer) :
    totalSpent (_select maxfd set timeout.tm (interruptedThen interruptions last)).1 =
      interruptions.sum + totalSpent (_select maxfd set timeout.tm [last]).1 := by
  induction interruptions with
  | nil => exact (Nat.zero_add _).symm
  | cons elapsed later ih =>
      change totalSpent (_select maxfd set timeout.tm
        (.interrupted elapsed :: interruptedThen later last)).1 = _
      rw [_select_cons, totalSpent_cons, ih, List.sum_cons, Nat.add_assoc]
      rfl

private theorem _select_documented_iff (interruptions : List Nat) (last : Answer) :
    (∀ call ∈ (_select maxfd set timeout.tm (interruptedThen interruptions last)).1,
      call.AsDocumented) ↔
      (∀ elapsed ∈ interruptions, elapsed < micros timeout.tm) ∧
        ∀ call ∈ (_select maxfd set timeout.tm [last]).1, call.AsDocumented := by
  induction interruptions with
  | nil => exact (and_iff_right (List.forall_mem_nil _)).symm
  | cons elapsed later ih =>
      change (∀ call ∈ (_select maxfd set timeout.tm
        (.interrupted elapsed :: interruptedThen later last)).1, call.AsDocumented) ↔ _
      rw [_select_cons, List.forall_mem_cons, List.forall_mem_cons, ih, and_assoc]
      apply and_congr_left'
      constructor
      · intro documented
        exact documented timeout.tm rfl
      · intro less tm given
        cases given
        exact less

private theorem _select_last_le (last : Answer)
    (documented : ∀ call ∈ (_select maxfd set timeout.tm [last]).1, call.AsDocumented) :
    totalSpent (_select maxfd set timeout.tm [last]).1 ≤ micros timeout.tm := by
  by_cases again : ∃ elapsed, last = .interrupted elapsed
  · obtain ⟨elapsed, same⟩ := again
    subst same
    rw [_select_cons, List.forall_mem_cons] at documented
    rw [_select_cons, totalSpent_cons, _select_nil, totalSpent_singleton]
    exact SelectCall.spent_le rfl documented.1
  · rw [_select_last maxfd set timeout (not_exists.mp again)] at documented ⊢
    rw [totalSpent_singleton]
    exact SelectCall.spent_le rfl (documented _ List.mem_cons_self)

private theorem _select_totalSpent_iff (interruptions : List Nat)
    (shorter : ∀ elapsed ∈ interruptions, elapsed < micros timeout.tm) :
    (∀ last, (∀ call ∈ (_select maxfd set timeout.tm (interruptedThen interruptions last)).1,
        call.AsDocumented) →
      totalSpent (_select maxfd set timeout.tm (interruptedThen interruptions last)).1 ≤
        micros timeout.tm) ↔
      ∀ elapsed ∈ interruptions, elapsed = 0 := by
  constructor
  · intro within
    have alone := @_select_last maxfd set timeout .timedOut (by simp)
    have documented : ∀ call ∈ (_select maxfd set timeout.tm [.timedOut]).1, call.AsDocumented := by
      rw [alone]
      intro call member
      rw [List.mem_singleton.mp member]
      exact rfl
    have total := within .timedOut
      ((_select_documented_iff maxfd set timeout interruptions _).mpr ⟨shorter, documented⟩)
    have whole : totalSpent (_select maxfd set timeout.tm [.timedOut]).1 = micros timeout.tm := by
      rw [alone, totalSpent_singleton]
      rfl
    rw [_select_interruptedThen, whole] at total
    have nothing : interruptions.sum = 0 := by omega
    exact List.sum_eq_zero_iff_forall_eq_nat.mp nothing
  · intro instant last documented
    rw [_select_documented_iff] at documented
    have nothing : interruptions.sum = 0 := List.sum_eq_zero_iff_forall_eq_nat.mpr instant
    rw [_select_interruptedThen, nothing, Nat.zero_add]
    exact _select_last_le maxfd set timeout last documented.2

end

/-- The pool timeout is kept by `_select` exactly when it is interrupted at once or not at
all, and by `_select_throw_stop` under any signals. -/
theorem totalSpent_le_poolTimeout (timeout : FiniteTimeout) (maxfd : Int) (set : FdSet)
    (interruptions : List Nat)
    (shorter : ∀ elapsed ∈ interruptions, elapsed < micros timeout.tm) :
    ((∀ last, (∀ call ∈ (_select maxfd set timeout.tm (interruptedThen interruptions last)).1,
        call.AsDocumented) →
      totalSpent (_select maxfd set timeout.tm (interruptedThen interruptions last)).1 ≤
        micros timeout.tm) ↔
      ∀ elapsed ∈ interruptions, elapsed = 0) ∧
      (∀ fd1 fd2 answers, (∀ call ∈ (selectThrowStop fd1 fd2 timeout.tm true answers).1,
          call.AsDocumented) →
        totalSpent (selectThrowStop fd1 fd2 timeout.tm true answers).1 ≤ micros timeout.tm) ∧
      ∀ fd1 fds answers, (∀ call ∈ (selectThrowStopAll fd1 fds timeout.tm true answers).1,
          call.AsDocumented) →
        totalSpent (selectThrowStopAll fd1 fds timeout.tm true answers).1 ≤ micros timeout.tm :=
  ⟨_select_totalSpent_iff maxfd set timeout interruptions shorter,
    fun fd1 fd2 answers documented =>
      selectThrowStop_totalSpent fd1 fd2 timeout answers documented,
    fun fd1 fds answers documented =>
      selectThrowStopAll_totalSpent fd1 fds timeout answers documented⟩

def twoSeconds : FiniteTimeout := ⟨2, 0, Nat.succ_pos _⟩

theorem twoSeconds_kept :
    ((∀ last, (∀ call ∈ (_select 3 [3] twoSeconds.tm (interruptedThen [0] last)).1,
        call.AsDocumented) →
      totalSpent (_select 3 [3] twoSeconds.tm (interruptedThen [0] last)).1 ≤
        micros twoSeconds.tm) ↔
      ∀ elapsed ∈ [0], elapsed = 0) ∧
      (∀ fd1 fd2 answers, (∀ call ∈ (selectThrowStop fd1 fd2 twoSeconds.tm true answers).1,
          call.AsDocumented) →
        totalSpent (selectThrowStop fd1 fd2 twoSeconds.tm true answers).1 ≤
          micros twoSeconds.tm) ∧
      ∀ fd1 fds answers, (∀ call ∈ (selectThrowStopAll fd1 fds twoSeconds.tm true answers).1,
          call.AsDocumented) →
        totalSpent (selectThrowStopAll fd1 fds twoSeconds.tm true answers).1 ≤
          micros twoSeconds.tm :=
  totalSpent_le_poolTimeout twoSeconds 3 [3] [0] (by decide)

theorem twoSeconds_overrun :
    (∀ call ∈ (_select 3 [3] twoSeconds.tm [.interrupted 1000000, .timedOut]).1,
      call.AsDocumented) ∧
      totalSpent (_select 3 [3] twoSeconds.tm [.interrupted 1000000, .timedOut]).1 = 3000000 ∧
      micros twoSeconds.tm = 2000000 := by
  have last := @_select_last 3 [3] twoSeconds .timedOut (by simp)
  rw [_select_cons, last]
  refine ⟨?_, rfl, rfl⟩
  rw [List.forall_mem_cons]
  constructor
  · intro tm given
    cases given
    decide
  · intro call member
    rw [List.mem_singleton.mp member]
    exact rfl

end Socketxx.SelectStop
