import Socketxx.BasePipe
import Socketxx.PoolSteps

/-!
The wrappers of `select` that a waiting server uses: the two `_select_throw_stop`, and
`_select`.

They are one loop with different parts. `redo` is that loop, with the calls of `select`
it makes; what the system answers is given call by call.
-/

set_option autoImplicit false

namespace Socketxx.SelectStop

open BasePipe (Timeval timeoutInf)

def invalidHandle : Int := -1

/-! ### Time -/

def micros (tm : Timeval) : Nat := (tm.tvSec * 1000000 + tm.tvUsec).toNat

def ofMicros (n : Nat) : Timeval := ⟨(n / 1000000 : Nat), (n % 1000000 : Nat)⟩

/-- The last argument of `select`; no pointer for `TIMEOUT_INF`. -/
def pointer (timeout : Timeval) : Option Timeval :=
  if timeout = timeoutInf then none else some timeout

/-- Linux stores the time that is left where the pointer leads. -/
def remaining (timeout : Timeval) (elapsed : Nat) : Timeval :=
  match pointer timeout with
  | none => timeout
  | some tm => ofMicros (micros tm - elapsed)

theorem micros_ofMicros (n : Nat) : micros (ofMicros n) = n := by
  have parts := Nat.div_add_mod n 1000000
  change (((n / 1000000 : Nat) : Int) * 1000000 + ((n % 1000000 : Nat) : Int)).toNat = n
  omega

theorem ofMicros_ne_inf (n : Nat) : ofMicros n ≠ timeoutInf := by
  intro same
  have seconds := congrArg Timeval.tvSec same
  change ((n / 1000000 : Nat) : Int) = -1 at seconds
  omega

/-! ### `select` -/

/-- `ready` has the descriptors with something to read, watched or not. -/
inductive Answer where
  | ready (elapsed : Nat) (fds : List Int)
  | timedOut
  | interrupted (elapsed : Nat)
  | failed
deriving DecidableEq, Repr

structure SelectCall where
  nfds : Int
  set : FdSet
  timeout : Option Timeval
  answer : Option Answer
deriving DecidableEq, Repr

/-- The set behind a call that returned. -/
def SelectCall.result (call : SelectCall) (fds : List Int) : FdSet :=
  selectResult call.nfds call.set fds

/-- A positive result has a descriptor in the set. -/
def SelectCall.FindsReady (call : SelectCall) : Prop :=
  ∀ elapsed fds, call.answer = some (.ready elapsed fds) → call.result fds ≠ []

inductive Exit where
  | returned
  | stopEvent (fd : Int)
  | timeoutEvent
  | selectErr
  | waiting
  | outOfRange
deriving DecidableEq, Repr

/-- The parts: what is done between the label and `select`, with the variable `maxfd`,
the first argument, the timeout of the next round, and what follows a positive result. -/
structure Wrapper where
  fill : Int → Option (Int × FdSet)
  nfds : Int → Int
  rearm : Timeval → Nat → Timeval
  ignsig : Bool
  found : FdSet → Exit

/-- The loop, from the label `select_redo` on. -/
def Wrapper.redo (w : Wrapper) : List Answer → Int → Timeval → List SelectCall × Exit
  | answers, maxfd, timeout =>
      match w.fill maxfd with
      | none => ([], .outOfRange)
      | some (maxfd, set) =>
          let call : SelectCall := ⟨w.nfds maxfd, set, pointer timeout, answers.head?⟩
          match answers with
          | [] => ([call], .waiting)
          | .interrupted elapsed :: later =>
              if w.ignsig then
                let (calls, exit) := w.redo later maxfd (w.rearm timeout elapsed)
                (call :: calls, exit)
              else ([call], .selectErr)
          | .failed :: _ => ([call], .selectErr)
          | .timedOut :: _ => ([call], .timeoutEvent)
          | .ready _ fds :: _ => ([call], w.found (call.result fds))

/-! ### The wrappers -/

/-- `FD_SET` of `fd1`, and of `fd2` unless it is invalid. -/
def setBoth (fd1 fd2 : Int) : Option FdSet :=
  match fdSet fd1 [] with
  | none => none
  | some set => if fd2 ≠ invalidHandle then fdSet fd2 set else some set

def stopOn (fd2 : Int) (set : FdSet) : Exit :=
  if fd2 ≠ invalidHandle then
    match fdIsset fd2 set with
    | none => .outOfRange
    | some true => .stopEvent fd2
    | some false => .returned
  else .returned

def throwStop (fd1 fd2 : Int) (ignsig : Bool) : Wrapper where
  fill := fun maxfd => (setBoth fd1 fd2).map (fun set => (maxfd, set))
  nfds := id
  rearm := remaining
  ignsig := ignsig
  found := stopOn fd2

/-- `_select_throw_stop` with one descriptor to monitor. -/
def selectThrowStop (fd1 fd2 : Int) (timeout : Timeval) (ignsig : Bool)
    (answers : List Answer) : List SelectCall × Exit :=
  (throwStop fd1 fd2 ignsig).redo answers (if fd1 > fd2 then fd1 + 1 else fd2 + 1) timeout

/-- `FD_SET` of `fd1` and of the monitored descriptors, with the greatest one. -/
def setAll (fd1 : Int) (fds : List Int) (maxfd : Int) : Option (Int × FdSet) :=
  match fdSet fd1 [] with
  | none => none
  | some set => fillFdset fds maxfd set

def stopAt : List Int → FdSet → Exit
  | [], _ => .returned
  | fd :: later, set =>
      match fdIsset fd set with
      | none => .outOfRange
      | some true => .stopEvent fd
      | some false => stopAt later set

def throwStopAll (fd1 : Int) (fds : List Int) (ignsig : Bool) : Wrapper where
  fill := setAll fd1 fds
  nfds := (· + 1)
  rearm := remaining
  ignsig := ignsig
  found := stopAt fds

/-- `_select_throw_stop` with a vector of descriptors. -/
def selectThrowStopAll (fd1 : Int) (fds : List Int) (timeout : Timeval) (ignsig : Bool)
    (answers : List Answer) : List SelectCall × Exit :=
  (throwStopAll fd1 fds ignsig).redo answers fd1 timeout

def plain (set : FdSet) (timeout : Timeval) : Wrapper where
  fill := fun maxfd => some (maxfd, set)
  nfds := (· + 1)
  rearm := fun _ _ => timeout
  ignsig := true
  found := fun _ => .returned

/-- `_select`, whose caller fills the set and looks at it. -/
def _select (maxfd : Int) (set : FdSet) (timeout : Timeval) (answers : List Answer) :
    List SelectCall × Exit :=
  (plain set timeout).redo answers maxfd timeout

/-! ### The loop -/

inductive Wrapper.Ended (w : Wrapper) (call : SelectCall) : Exit → Prop where
  | waiting (answer : call.answer = none) : Ended w call .waiting
  | interrupted (elapsed : Nat) (answer : call.answer = some (.interrupted elapsed))
      (noticed : w.ignsig = false) : Ended w call .selectErr
  | failed (answer : call.answer = some .failed) : Ended w call .selectErr
  | timedOut (answer : call.answer = some .timedOut) : Ended w call .timeoutEvent
  | ready (elapsed : Nat) (fds : List Int) (answer : call.answer = some (.ready elapsed fds)) :
      Ended w call (w.found (call.result fds))

/-- When every round fills its set, and what holds of `maxfd` is kept, the calls are as
the filling makes them, and the last one decides. -/
theorem Wrapper.redo_run {w : Wrapper} {inv : Int → Prop} {good : Int → FdSet → Prop}
    (fills : ∀ maxfd, inv maxfd → ∃ next set, w.fill maxfd = some (next, set) ∧ inv next ∧
      good (w.nfds next) set)
    (answers : List Answer) {maxfd : Int} (start : inv maxfd) (timeout : Timeval) :
    (∀ call ∈ (w.redo answers maxfd timeout).1, good call.nfds call.set) ∧
      ∃ last, (w.redo answers maxfd timeout).1.getLast? = some last ∧
        w.Ended last (w.redo answers maxfd timeout).2 := by
  induction answers generalizing maxfd timeout with
  | nil =>
      obtain ⟨next, set, filled, kept, made⟩ := fills maxfd start
      unfold Wrapper.redo
      rw [filled]
      refine ⟨?_, _, rfl, .waiting rfl⟩
      intro call member
      rw [List.mem_singleton.mp member]
      exact made
  | cons answer later ih =>
      obtain ⟨next, set, filled, kept, made⟩ := fills maxfd start
      unfold Wrapper.redo
      rw [filled]
      have alone : ∀ call ∈ [(⟨w.nfds next, set, pointer timeout, some answer⟩ : SelectCall)],
          good call.nfds call.set := by
        intro call member
        rw [List.mem_singleton.mp member]
        exact made
      cases answer with
      | interrupted elapsed =>
          cases ignored : w.ignsig with
          | false =>
              simp only [Bool.false_eq_true, if_false]
              exact ⟨alone, _, rfl, .interrupted elapsed rfl ignored⟩
          | true =>
              obtain ⟨rest, last, isLast, ended⟩ := ih kept (w.rearm timeout elapsed)
              simp only [if_true]
              refine ⟨?_, last, ?_, ended⟩
              · intro call member
                rcases List.mem_cons.mp member with same | member
                · rw [same]
                  exact made
                · exact rest call member
              · rw [List.getLast?_cons, isLast]
                rfl
      | failed => exact ⟨alone, _, rfl, .failed rfl⟩
      | timedOut => exact ⟨alone, _, rfl, .timedOut rfl⟩
      | ready elapsed fds => exact ⟨alone, _, rfl, .ready elapsed fds rfl⟩

private theorem Wrapper.redo_congr {v w : Wrapper} (related : Int → Int → Prop)
    (fills : ∀ m n, related m n →
      (v.fill m = none ∧ w.fill n = none) ∨
        ∃ m' n' set, v.fill m = some (m', set) ∧ w.fill n = some (n', set) ∧
          v.nfds m' = w.nfds n' ∧ related m' n')
    (rearm : v.rearm = w.rearm) (ignsig : v.ignsig = w.ignsig) (found : v.found = w.found)
    (answers : List Answer) {m n : Int} (start : related m n) (timeout : Timeval) :
    v.redo answers m timeout = w.redo answers n timeout := by
  induction answers generalizing m n timeout with
  | nil =>
      unfold Wrapper.redo
      rcases fills m n start with ⟨left, right⟩ | ⟨m', n', set, left, right, same, kept⟩
      · rw [left, right]
      · rw [left, right]
        simp only [same]
  | cons answer later ih =>
      unfold Wrapper.redo
      rcases fills m n start with ⟨left, right⟩ | ⟨m', n', set, left, right, same, kept⟩
      · rw [left, right]
      · rw [left, right]
        cases answer with
        | interrupted elapsed => simp only [same, rearm, ignsig, ih kept, List.head?_cons]
        | failed => simp only [same, List.head?_cons]
        | timedOut => simp only [same, List.head?_cons]
        | ready elapsed fds => simp only [same, found, List.head?_cons]

theorem Wrapper.redo_unfilled {w : Wrapper} {maxfd : Int} (unfilled : w.fill maxfd = none)
    (answers : List Answer) (timeout : Timeval) :
    w.redo answers maxfd timeout = ([], .outOfRange) := by
  unfold Wrapper.redo
  rw [unfilled]

/-! ### One descriptor is a list of one -/

def monitored (fd2 : Int) : List Int := if fd2 ≠ invalidHandle then [fd2] else []

private theorem stopOn_eq (fd2 : Int) : stopOn fd2 = stopAt (monitored fd2) := by
  funext set
  unfold stopOn monitored
  by_cases valid : fd2 ≠ invalidHandle
  · rw [if_pos valid, if_pos valid]
    rfl
  · rw [if_neg valid, if_neg valid]
    rfl

private theorem setBoth_eq (fd1 fd2 maxfd : Int) :
    setAll fd1 (monitored fd2) maxfd =
      (setBoth fd1 fd2).map
        (fun set => (if fd2 ≠ invalidHandle ∧ fd2 > maxfd then fd2 else maxfd, set)) := by
  unfold setAll setBoth monitored
  cases fdSet fd1 [] with
  | none => rfl
  | some set =>
      by_cases valid : fd2 ≠ invalidHandle
      · simp only [valid, fillFdset, ne_eq, not_false_eq_true, if_true, true_and]
        cases fdSet fd2 set with
        | none => rfl
        | some both => rfl
      · simp only [valid, fillFdset, false_and, if_false]
        rfl

private theorem setBoth_none_of_outside {fd1 : Int} (outside : ¬ InRange fd1) (fd2 : Int) :
    setBoth fd1 fd2 = none := by
  rw [setBoth, (fdSet_none_iff fd1 []).mpr outside]

/-- Both wrappers do the same for one descriptor, and for none. -/
theorem selectThrowStop_eq (fd1 fd2 : Int) :
    selectThrowStop fd1 fd2 = selectThrowStopAll fd1 (monitored fd2) := by
  funext timeout ignsig answers
  unfold selectThrowStop selectThrowStopAll
  by_cases inside : InRange fd1
  · have nonneg : 0 ≤ fd1 := inside.1
    apply Wrapper.redo_congr (fun m n => m = (if fd1 > fd2 then fd1 + 1 else fd2 + 1) ∧
      (n = fd1 ∨ n + 1 = m))
    case fills =>
      intro m n related
      obtain ⟨first, second⟩ := related
      unfold throwStop throwStopAll
      simp only [setBoth_eq]
      cases setBoth fd1 fd2 with
      | none => exact Or.inl ⟨rfl, rfl⟩
      | some set =>
          have top : m = (if fd2 ≠ invalidHandle ∧ fd2 > n then fd2 else n) + 1 := by
            unfold invalidHandle
            split at first <;> split <;> omega
          exact Or.inr ⟨m, _, set, rfl, rfl, top, first, Or.inr top.symm⟩
    case rearm => rfl
    case ignsig => rfl
    case found => exact stopOn_eq fd2
    case start => exact ⟨rfl, Or.inl rfl⟩
  · have unfilled := setBoth_none_of_outside inside fd2
    have unfilledAll : setAll fd1 (monitored fd2) fd1 = none := by
      rw [setBoth_eq, unfilled]
      rfl
    have unfilledBoth : (throwStop fd1 fd2 ignsig).fill
        (if fd1 > fd2 then fd1 + 1 else fd2 + 1) = none := by
      unfold throwStop
      rw [unfilled]
      rfl
    rw [Wrapper.redo_unfilled unfilledBoth, Wrapper.redo_unfilled unfilledAll]

/-! ### The right event -/

def LastAnswer (calls : List SelectCall) (answer : Answer) : Prop :=
  ∃ call, calls.getLast? = some call ∧ call.answer = some answer

/-- The first of these descriptors that is ready. -/
def firstReady (fds now : List Int) : Option Int := fds.find? (fun fd => decide (fd ∈ now))

/-- What a wait for `fd1` is to report while `fds` are monitored. -/
structure ReportsRight (fd1 : Int) (fds : List Int) (ignsig : Bool) (calls : List SelectCall)
    (exit : Exit) : Prop where
  returns : exit = .returned → ∃ elapsed now, LastAnswer calls (.ready elapsed now) ∧
    fd1 ∈ now ∧ ∀ fd ∈ fds, fd ∉ now
  stops : ∀ elapsed now, LastAnswer calls (.ready elapsed now) → (∃ fd ∈ fds, fd ∈ now) →
    ∃ fd, firstReady fds now = some fd ∧ exit = .stopEvent fd
  stopped : ∀ fd, exit = .stopEvent fd →
    ∃ elapsed now, LastAnswer calls (.ready elapsed now) ∧ firstReady fds now = some fd
  timesOut : exit = .timeoutEvent → LastAnswer calls .timedOut
  fails : exit = .selectErr → LastAnswer calls .failed ∨
    ignsig = false ∧ ∃ elapsed, LastAnswer calls (.interrupted elapsed)
  watches : ∀ call ∈ calls, ∀ fd, fd ∈ call.set ↔ fd = fd1 ∨ fd ∈ fds
  below : ∀ call ∈ calls, ∀ fd ∈ call.set, fd < call.nfds
  defined : exit ≠ .outOfRange

private theorem stopAt_eq {fds : List Int} (inRange : ∀ fd ∈ fds, InRange fd) (set : FdSet) :
    stopAt fds set =
      match firstReady fds set with
      | some fd => .stopEvent fd
      | none => .returned := by
  induction fds with
  | nil => rfl
  | cons fd later ih =>
      rw [List.forall_mem_cons] at inRange
      obtain ⟨here, inRange⟩ := inRange
      have tested : fdIsset fd set = some (decide (fd ∈ set)) := if_pos here
      unfold stopAt firstReady
      rw [tested, List.find?_cons]
      by_cases isset : fd ∈ set
      · simp only [isset, decide_true]
      · simp only [isset, decide_false]
        exact ih inRange

theorem mem_result {call : SelectCall} {fd : Int} {now : List Int}
    (below : ∀ fd ∈ call.set, fd < call.nfds) :
    fd ∈ call.result now ↔ fd ∈ call.set ∧ fd ∈ now := by
  unfold SelectCall.result selectResult
  rw [List.mem_filter, Bool.and_eq_true, decide_eq_true_iff, decide_eq_true_iff]
  constructor
  · intro both
    exact ⟨both.1, both.2.2⟩
  · intro both
    exact ⟨both.1, below fd both.1, both.2⟩

private theorem firstReady_result {call : SelectCall} {fds now : List Int}
    (below : ∀ fd ∈ call.set, fd < call.nfds) (watched : ∀ fd ∈ fds, fd ∈ call.set) :
    firstReady fds (call.result now) = firstReady fds now := by
  unfold firstReady
  rw [← List.head?_filter, ← List.head?_filter]
  congr 1
  apply List.filter_congr
  intro fd member
  rw [decide_eq_decide, mem_result below]
  exact and_iff_right (watched fd member)

theorem setAll_eq {fd1 maxfd : Int} (atLeast : fd1 ≤ maxfd) (fds : List Int) :
    setAll fd1 fds maxfd = fillFdset (fd1 :: fds) maxfd [] := by
  have same : (if fd1 > maxfd then fd1 else maxfd) = maxfd := if_neg (by omega)
  cases added : fdSet fd1 [] with
  | none => simp only [setAll, fillFdset, added]
  | some set => simp only [setAll, fillFdset, added, same]

private theorem setAll_fills {fd1 : Int} {fds : List Int} (inRange : ∀ fd ∈ fd1 :: fds, InRange fd)
    (maxfd : Int) (atLeast : fd1 ≤ maxfd) :
    ∃ next set, setAll fd1 fds maxfd = some (next, set) ∧ fd1 ≤ next ∧
      (∀ fd, fd ∈ set ↔ fd = fd1 ∨ fd ∈ fds) ∧ ∀ fd ∈ set, fd < next + 1 := by
  cases filled : setAll fd1 fds maxfd with
  | none =>
      rw [setAll_eq atLeast, fillFdset_none_iff] at filled
      obtain ⟨fd, member, outside⟩ := filled
      exact absurd (inRange fd member) outside
  | some both =>
      obtain ⟨next, set⟩ := both
      rw [setAll_eq atLeast] at filled
      obtain ⟨members, bound⟩ := fillFdset_some _ filled
        (fun fd impossible => absurd impossible List.not_mem_nil)
      have watched : ∀ fd, fd ∈ set ↔ fd = fd1 ∨ fd ∈ fds := by
        intro fd
        rw [members, List.mem_cons]
        exact or_iff_right List.not_mem_nil
      refine ⟨next, set, rfl, bound fd1 ((watched fd1).mpr (Or.inl rfl)), watched, ?_⟩
      intro fd member
      exact Int.lt_add_one_of_le (bound fd member)

theorem LastAnswer.unique {calls : List SelectCall} {answer other : Answer}
    (first : LastAnswer calls answer) (second : LastAnswer calls other) : answer = other := by
  obtain ⟨call, isLast, answered⟩ := first
  obtain ⟨call', isLast', answered'⟩ := second
  rw [isLast] at isLast'
  cases isLast'
  rw [answered] at answered'
  exact Option.some.inj answered'

section

variable {fd1 : Int} {fds : List Int} {ignsig : Bool} {calls : List SelectCall}
  (watches : ∀ call ∈ calls, ∀ fd, fd ∈ call.set ↔ fd = fd1 ∨ fd ∈ fds)
  (below : ∀ call ∈ calls, ∀ fd ∈ call.set, fd < call.nfds)
include watches below

private theorem reportsRight_stopEvent {elapsed : Nat} {now : List Int} {fd : Int}
    (answered : LastAnswer calls (.ready elapsed now)) (first : firstReady fds now = some fd) :
    ReportsRight fd1 fds ignsig calls (.stopEvent fd) := by
  refine ⟨?_, ?_, ?_, ?_, ?_, watches, below, ?_⟩
  · intro impossible
    cases impossible
  · intro elapsed' now' other _some
    cases answered.unique other
    exact ⟨fd, first, rfl⟩
  · intro stopped event
    cases event
    exact ⟨elapsed, now, answered, first⟩
  · intro impossible
    cases impossible
  · intro impossible
    cases impossible
  · intro impossible
    cases impossible

private theorem reportsRight_returned {elapsed : Nat} {now : List Int}
    (answered : LastAnswer calls (.ready elapsed now)) (listening : fd1 ∈ now)
    (quiet : ∀ fd ∈ fds, fd ∉ now) : ReportsRight fd1 fds ignsig calls .returned := by
  refine ⟨?_, ?_, ?_, ?_, ?_, watches, below, ?_⟩
  · exact fun _returned => ⟨elapsed, now, answered, listening, quiet⟩
  · intro elapsed' now' other some
    obtain ⟨fd, inside, ready⟩ := some
    cases answered.unique other
    exact absurd ready (quiet fd inside)
  · intro stopped impossible
    cases impossible
  · intro impossible
    cases impossible
  · intro impossible
    cases impossible
  · intro impossible
    cases impossible

end

private theorem firstReady_none {fds now : List Int} (first : firstReady fds now = none) :
    ∀ fd ∈ fds, fd ∉ now := by
  intro fd inside
  have tested := List.find?_eq_none.mp first fd inside
  rwa [decide_eq_true_iff] at tested

private theorem reportsRight_of_ended {fd1 : Int} {fds : List Int} {ignsig : Bool}
    (inRange : ∀ fd ∈ fd1 :: fds, InRange fd) {calls : List SelectCall} {last : SelectCall}
    {exit : Exit} (watches : ∀ call ∈ calls, ∀ fd, fd ∈ call.set ↔ fd = fd1 ∨ fd ∈ fds)
    (below : ∀ call ∈ calls, ∀ fd ∈ call.set, fd < call.nfds)
    (isLast : calls.getLast? = some last) (finds : last.FindsReady)
    (ended : (throwStopAll fd1 fds ignsig).Ended last exit) :
    ReportsRight fd1 fds ignsig calls exit := by
  have member : last ∈ calls := List.mem_of_getLast? isLast
  have answered : ∀ answer, LastAnswer calls answer ↔ last.answer = some answer := by
    intro answer
    unfold LastAnswer
    rw [isLast]
    simp only [Option.some.injEq, exists_eq_left']
  cases ended with
  | waiting answer => refine ⟨?_, ?_, ?_, ?_, ?_, watches, below, ?_⟩ <;> simp [answered, answer]
  | interrupted elapsed answer noticed =>
      have noticed : ignsig = false := noticed
      refine ⟨?_, ?_, ?_, ?_, ?_, watches, below, ?_⟩ <;> simp [answered, answer, noticed]
  | failed answer => refine ⟨?_, ?_, ?_, ?_, ?_, watches, below, ?_⟩ <;> simp [answered, answer]
  | timedOut answer => refine ⟨?_, ?_, ?_, ?_, ?_, watches, below, ?_⟩ <;> simp [answered, answer]
  | ready elapsed now answer =>
      change ReportsRight fd1 fds ignsig calls (stopAt fds (last.result now))
      have isReady : LastAnswer calls (.ready elapsed now) := (answered _).mpr answer
      have watched : ∀ fd ∈ fds, fd ∈ last.set :=
        fun fd inside => (watches last member fd).mpr (Or.inr inside)
      rw [stopAt_eq (fun fd inside => inRange fd (List.mem_cons_of_mem _ inside)),
        firstReady_result (below last member) watched]
      cases first : firstReady fds now with
      | some fd => exact reportsRight_stopEvent watches below isReady first
      | none =>
          have quiet := firstReady_none first
          -- a positive result has a descriptor in the set, and it is none of the others
          obtain ⟨fd, inside⟩ := List.exists_mem_of_ne_nil _ (finds elapsed now answer)
          rw [mem_result (below last member)] at inside
          obtain ⟨watched, ready⟩ := inside
          rcases (watches last member fd).mp watched with listening | other
          · rw [listening] at ready
            exact reportsRight_returned watches below isReady ready quiet
          · exact absurd ready (quiet fd other)

private theorem selectThrowStopAll_right {fd1 : Int} {fds : List Int}
    (inRange : ∀ fd ∈ fd1 :: fds, InRange fd) (timeout : Timeval) (ignsig : Bool)
    (answers : List Answer)
    (finds : ∀ call ∈ (selectThrowStopAll fd1 fds timeout ignsig answers).1, call.FindsReady) :
    ReportsRight fd1 fds ignsig (selectThrowStopAll fd1 fds timeout ignsig answers).1
      (selectThrowStopAll fd1 fds timeout ignsig answers).2 := by
  have run := @Wrapper.redo_run (throwStopAll fd1 fds ignsig) (fun maxfd => fd1 ≤ maxfd)
    (fun nfds set => (∀ fd, fd ∈ set ↔ fd = fd1 ∨ fd ∈ fds) ∧ ∀ fd ∈ set, fd < nfds)
    (setAll_fills inRange) answers fd1 (Int.le_refl fd1) timeout
  obtain ⟨made, last, isLast, ended⟩ := run
  exact reportsRight_of_ended inRange (fun call member => (made call member).1)
    (fun call member => (made call member).2) isLast
    (finds last (List.mem_of_getLast? isLast)) ended

theorem selectThrowStopAll_outside {fd1 : Int} {fds : List Int}
    (outside : ∃ fd ∈ fd1 :: fds, ¬ InRange fd) (timeout : Timeval) (ignsig : Bool)
    (answers : List Answer) :
    selectThrowStopAll fd1 fds timeout ignsig answers = ([], .outOfRange) := by
  apply Wrapper.redo_unfilled
  change setAll fd1 fds fd1 = none
  rw [setAll_eq (Int.le_refl fd1), fillFdset_none_iff]
  exact outside

/-- A wait reports the right event, whatever `select` answers. -/
def AlwaysReportsRight (wait : Timeval → Bool → List Answer → List SelectCall × Exit)
    (fd1 : Int) (fds : List Int) : Prop :=
  ∀ (timeout : Timeval) (ignsig : Bool) (answers : List Answer),
    (∀ call ∈ (wait timeout ignsig answers).1, call.FindsReady) →
      ReportsRight fd1 fds ignsig (wait timeout ignsig answers).1 (wait timeout ignsig answers).2

theorem selectThrowStopAll_right_iff (fd1 : Int) (fds : List Int) :
    AlwaysReportsRight (selectThrowStopAll fd1 fds) fd1 fds ↔
      ∀ fd ∈ fd1 :: fds, InRange fd := by
  constructor
  · intro right
    by_contra outside
    obtain ⟨fd, member, outside⟩ := not_forall₂.mp outside
    have ended := selectThrowStopAll_outside ⟨fd, member, outside⟩ timeoutInf false []
    have reported := right timeoutInf false []
    rw [ended] at reported
    exact (reported (List.forall_mem_nil _)).defined rfl
  · intro inRange timeout ignsig answers finds
    exact selectThrowStopAll_right inRange timeout ignsig answers finds

/-- Both wrappers report the right event exactly when a set can hold the descriptors they
watch, and they are one wrapper on a list of one. -/
theorem selectThrowStop_right_iff (fd1 fd2 : Int) (fds : List Int) :
    (AlwaysReportsRight (selectThrowStop fd1 fd2) fd1 (monitored fd2) ↔
      ∀ fd ∈ fd1 :: monitored fd2, InRange fd) ∧
      (AlwaysReportsRight (selectThrowStopAll fd1 fds) fd1 fds ↔
        ∀ fd ∈ fd1 :: fds, InRange fd) ∧
      selectThrowStop fd1 fd2 = selectThrowStopAll fd1 (monitored fd2) := by
  refine ⟨?_, selectThrowStopAll_right_iff fd1 fds, selectThrowStop_eq fd1 fd2⟩
  rw [selectThrowStop_eq]
  exact selectThrowStopAll_right_iff fd1 (monitored fd2)

theorem selectThrowStop_1024 :
    selectThrowStop 1024 5 timeoutInf true [.ready 0 [1024]] = ([], .outOfRange) ∧
      ¬ AlwaysReportsRight (selectThrowStop 1024 5) 1024 (monitored 5) := by
  have outside : ∃ fd ∈ (1024 : Int) :: monitored 5, ¬ InRange fd :=
    ⟨1024, List.mem_cons_self, fun inside => Int.lt_irrefl 1024 inside.2⟩
  rw [selectThrowStop_eq]
  refine ⟨selectThrowStopAll_outside outside _ _ _, ?_⟩
  intro right
  obtain ⟨fd, member, outside⟩ := outside
  exact outside ((selectThrowStopAll_right_iff _ _).mp right fd member)

end Socketxx.SelectStop
