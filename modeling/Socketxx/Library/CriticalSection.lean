import Mathlib.Data.List.Infix
import Mathlib.Logic.Function.Basic
import Mathlib.Logic.Relation

/-!
Threads that make calls on a shared state under one lock.

A call that updates the state takes the lock, loads the state, stores what it makes of it,
gives the lock back and returns: only the lock keeps the load and the store of one call
together. A call that does not return from the section keeps the lock, and some calls do not
take it at all. A call that does something undefined ends the run.

Whatever the interleaving, the stores come in an order that explains all of it: made one
after the other in that order the calls have the results they returned, each thread's calls
are in the order the thread made them, and a call that returned before another one was made
comes before it. A call that never gets to its store ends all that.
-/

set_option autoImplicit false

namespace CriticalSection

/-- What a call makes of the state it has loaded. -/
inductive Effect (σ ρ : Type) where
  | stores (after : σ) (result : ρ)
  | stays
  | undefined

/-- What a call does, under the lock or without it; `none` is a call that does not return. -/
inductive Body (σ ρ : Type) where
  | update (f : σ → Effect σ ρ)
  | outside (result : Option ρ)

inductive Phase (σ ω ρ : Type) where
  | idle
  | waiting (op : ω)
  | inside (op : ω)
  | loaded (op : ω) (copy : σ)
  | leaving (op : ω) (result : ρ)
  | answered (op : ω) (result : ρ)

inductive Event (ι ω ρ : Type) where
  | called (thread : ι) (op : ω)
  | returned (thread : ι) (op : ω) (result : ρ)

/-- A call at the place in the order where it takes effect. -/
structure Commit (ι ω ρ : Type) where
  thread : ι
  op : ω
  result : ρ

structure State (ι σ ω ρ : Type) where
  shared : σ
  holder : Option ι
  phase : ι → Phase σ ω ρ
  history : List (Event ι ω ρ)
  order : List (Commit ι ω ρ)
  ended : Bool

variable {ι σ ω ρ : Type}

def State.start (shared : σ) : State ι σ ω ρ where
  shared := shared
  holder := none
  phase _ := .idle
  history := []
  order := []
  ended := false

variable [DecidableEq ι]

def State.enter (s : State ι σ ω ρ) (i : ι) (phase : Phase σ ω ρ) : State ι σ ω ρ :=
  { s with phase := Function.update s.phase i phase }

inductive Move (body : ω → Body σ ρ) : State ι σ ω ρ → State ι σ ω ρ → Prop where
  | call {s : State ι σ ω ρ} (i : ι) (op : ω) (idle : s.phase i = .idle) :
      Move body s
        { s.enter i (.waiting op) with history := s.history ++ [.called i op] }
  | lock {s : State ι σ ω ρ} (i : ι) {op : ω} {f : σ → Effect σ ρ}
      (waiting : s.phase i = .waiting op) (update : body op = .update f)
      (free : s.holder = none) :
      Move body s { s.enter i (.inside op) with holder := some i }
  | load {s : State ι σ ω ρ} (i : ι) {op : ω} {f : σ → Effect σ ρ}
      (inside : s.phase i = .inside op) (update : body op = .update f) :
      Move body s (s.enter i (.loaded op s.shared))
  | store {s : State ι σ ω ρ} (i : ι) {op : ω} {f : σ → Effect σ ρ} {copy after : σ}
      {result : ρ} (loaded : s.phase i = .loaded op copy) (update : body op = .update f)
      (defined : f copy = .stores after result) :
      Move body s
        { s.enter i (.leaving op result) with
          shared := after
          order := s.order ++ [⟨i, op, result⟩] }
  | unlock {s : State ι σ ω ρ} (i : ι) {op : ω} {result : ρ}
      (leaving : s.phase i = .leaving op result) :
      Move body s { s.enter i (.answered op result) with holder := none }
  | answer {s : State ι σ ω ρ} (i : ι) {op : ω} {result : ρ}
      (waiting : s.phase i = .waiting op) (outside : body op = .outside (some result)) :
      Move body s
        { s.enter i (.answered op result) with order := s.order ++ [⟨i, op, result⟩] }
  | leave {s : State ι σ ω ρ} (i : ι) {op : ω} {result : ρ}
      (answered : s.phase i = .answered op result) :
      Move body s
        { s.enter i .idle with history := s.history ++ [.returned i op result] }
  | fault {s : State ι σ ω ρ} (i : ι) {op : ω} {f : σ → Effect σ ρ} {copy : σ}
      (loaded : s.phase i = .loaded op copy) (update : body op = .update f)
      (undefined : f copy = .undefined) :
      Move body s { s with ended := true }

structure Step (body : ω → Body σ ρ) (s t : State ι σ ω ρ) : Prop where
  running : s.ended = false
  move : Move body s t

variable (body : ω → Body σ ρ)

def Reached (shared : σ) (s : State ι σ ω ρ) : Prop :=
  Relation.ReflTransGen (Step body) (State.start shared) s

/-- The calls made one after the other, without anything between them. -/
inductive Legal : σ → List (Commit ι ω ρ) → σ → Prop where
  | nil (s : σ) : Legal s [] s
  | update {s after final : σ} {commit : Commit ι ω ρ} {later : List (Commit ι ω ρ)}
      {f : σ → Effect σ ρ} (here : body commit.op = .update f)
      (defined : f s = .stores after commit.result) (rest : Legal after later final) :
      Legal s (commit :: later) final
  | outside {s final : σ} {commit : Commit ι ω ρ} {later : List (Commit ι ω ρ)}
      (here : body commit.op = .outside (some commit.result)) (rest : Legal s later final) :
      Legal s (commit :: later) final

def callsOf (i : ι) (history : List (Event ι ω ρ)) : List ω :=
  history.filterMap fun
    | .called j op => if j = i then some op else none
    | .returned _ _ _ => none

def returnsOf (i : ι) (history : List (Event ι ω ρ)) : List (ω × ρ) :=
  history.filterMap fun
    | .called _ _ => none
    | .returned j op result => if j = i then some (op, result) else none

def commitsOf (i : ι) (order : List (Commit ι ω ρ)) : List (ω × ρ) :=
  order.filterMap fun commit =>
    if commit.thread = i then some (commit.op, commit.result) else none

/-- The order has a place for each moment of the history: what had returned by then is in
front of it, and what was called later is behind. -/
def RealTime (history : List (Event ι ω ρ)) (order : List (Commit ι ω ρ)) : Prop :=
  ∀ before after, history = before ++ after →
    ∃ early late, order = early ++ late ∧ ∀ i, returnsOf i before <+: commitsOf i early ∧
      (commitsOf i early).map Prod.fst <+: callsOf i before

structure Linearizes (start : σ) (history : List (Event ι ω ρ)) (order : List (Commit ι ω ρ))
    (final : σ) : Prop where
  legal : Legal body start order final
  results : ∀ i, returnsOf i history <+: commitsOf i order
  program : ∀ i, (commitsOf i order).map Prod.fst <+: callsOf i history
  realTime : RealTime history order

variable {body} {s t : State ι σ ω ρ} {shared : σ}

/-! ### The lock -/

def Phase.Holds : Phase σ ω ρ → Prop
  | .inside _ | .loaded _ _ | .leaving _ _ => True
  | _ => False

/-- The thread that holds the lock is the one inside the section, and what it has loaded is
what is there. -/
structure Locked (s : State ι σ ω ρ) : Prop where
  holder : ∀ i, (s.phase i).Holds ↔ s.holder = some i
  copy : ∀ i op copy, s.phase i = .loaded op copy → copy = s.shared

@[simp] theorem State.enter_self (s : State ι σ ω ρ) (i : ι) (phase : Phase σ ω ρ) :
    (s.enter i phase).phase i = phase := by
  simp only [enter, Function.update_self]

theorem State.enter_of_ne (s : State ι σ ω ρ) {i j : ι} (phase : Phase σ ω ρ)
    (other : j ≠ i) : (s.enter i phase).phase j = s.phase j := by
  simp only [enter, Function.update_of_ne other]

omit [DecidableEq ι] in
theorem Locked.exclusive (locked : Locked s) {i j : ι} (here : (s.phase i).Holds)
    (there : (s.phase j).Holds) : i = j := by
  have first := (locked.holder i).mp here
  have second := (locked.holder j).mp there
  rw [first] at second
  exact Option.some.inj second

private theorem Locked.move (locked : Locked s) {i : ι} {phase : Phase σ ω ρ}
    (same : phase.Holds ↔ (s.phase i).Holds)
    (copied : ∀ op copy, phase = .loaded op copy → copy = s.shared)
    (history : List (Event ι ω ρ)) (order : List (Commit ι ω ρ)) :
    Locked { s.enter i phase with history := history, order := order } := by
  constructor
  case holder =>
    intro j
    by_cases here : j = i
    · subst here
      simp only [State.enter_self]
      exact same.trans (locked.holder j)
    · simp only [s.enter_of_ne phase here]
      exact locked.holder j
  case copy =>
    intro j op copy loaded
    by_cases here : j = i
    · subst here
      simp only [State.enter_self] at loaded
      exact copied op copy loaded
    · simp only [s.enter_of_ne phase here] at loaded
      exact locked.copy j op copy loaded

private theorem Locked.step (locked : Locked s) (step : Step body s t) : Locked t := by
  cases step.move with
  | call i op idle => exact locked.move (by rw [idle]; rfl) (by rintro _ _ ⟨⟩) _ _
  | @lock i op f waiting update free =>
      constructor
      case holder =>
        intro j
        by_cases here : j = i
        · subst here
          rw [State.enter_self]
          exact iff_of_true trivial rfl
        · have out := (locked.holder j).not.mpr (by rw [free]; nofun)
          simp only [s.enter_of_ne _ here]
          exact iff_of_false out (fun same => here (Option.some.inj same).symm)
      case copy =>
        intro j other copy loaded
        by_cases here : j = i
        · subst here
          simp only [State.enter_self] at loaded
          cases loaded
        · simp only [s.enter_of_ne _ here] at loaded
          exact locked.copy j other copy loaded
  | @load i op f inside update =>
      apply locked.move (by rw [inside]; rfl)
      intro other copy same
      cases same
      rfl
  | @store i op f copy after result loaded update defined =>
      constructor
      case holder =>
        have same : (Phase.leaving op result : Phase σ ω ρ).Holds ↔ (s.phase i).Holds := by
          rw [loaded]
          rfl
        exact (locked.move same (by rintro _ _ ⟨⟩) s.history s.order).holder
      case copy =>
        intro j other held there
        by_cases here : j = i
        · subst here
          simp only [State.enter_self] at there
          cases there
        · -- nobody else is in the section
          simp only [s.enter_of_ne _ here] at there
          have inside : (s.phase j).Holds := by
            rw [there]
            trivial
          exact absurd (locked.exclusive inside (by rw [loaded]; trivial)) here
  | @unlock i op result leaving =>
      have held := (locked.holder i).mp (by rw [leaving]; trivial)
      constructor
      case holder =>
        intro j
        by_cases here : j = i
        · subst here
          simp only [State.enter_self]
          exact iff_of_false id nofun
        · have out := (locked.holder j).not.mpr (by
            rw [held]
            exact fun same => here (Option.some.inj same).symm)
          simp only [s.enter_of_ne _ here]
          exact iff_of_false out nofun
      case copy =>
        intro j other copy loaded
        by_cases here : j = i
        · subst here
          simp only [State.enter_self] at loaded
          cases loaded
        · simp only [s.enter_of_ne _ here] at loaded
          exact locked.copy j other copy loaded
  | answer i waiting outside => exact locked.move (by rw [waiting]; rfl) (by rintro _ _ ⟨⟩) _ _
  | leave i answered => exact locked.move (by rw [answered]; rfl) (by rintro _ _ ⟨⟩) _ _
  | fault i loaded update undefined => exact ⟨locked.holder, locked.copy⟩

omit [DecidableEq ι] in
private theorem locked_start (shared : σ) : Locked (State.start shared : State ι σ ω ρ) where
  holder _ := iff_of_false id nofun
  copy _ _ _ := nofun

theorem Reached.locked (reached : Reached body shared s) : Locked s := by
  induction reached with
  | refl => exact locked_start shared
  | tail _before step ih => exact ih.step step

/-! ### The order explains the history -/

/-- What has taken effect and is not returned yet. -/
def Phase.answer : Phase σ ω ρ → List (ω × ρ)
  | .leaving op result | .answered op result => [(op, result)]
  | _ => []

/-- What is called and has not taken effect. -/
def Phase.pending : Phase σ ω ρ → List ω
  | .waiting op | .inside op | .loaded op _ => [op]
  | _ => []

variable (body) in
structure Recorded (start : σ) (s : State ι σ ω ρ) : Prop where
  legal : Legal body start s.order s.shared
  returned : ∀ i, returnsOf i s.history ++ (s.phase i).answer = commitsOf i s.order
  called : ∀ i, callsOf i s.history =
    (commitsOf i s.order).map Prod.fst ++ (s.phase i).pending
  realTime : RealTime s.history s.order

private theorem callsOf_called (i j : ι) (op : ω) (history : List (Event ι ω ρ)) :
    callsOf j (history ++ [.called i op]) =
      callsOf j history ++ if i = j then [op] else [] := by
  rw [callsOf, List.filterMap_append]
  by_cases same : i = j <;> simp [callsOf, same]

private theorem callsOf_returned (i j : ι) (op : ω) (result : ρ) (history : List (Event ι ω ρ)) :
    callsOf j (history ++ [.returned i op result]) = callsOf j history := by
  rw [callsOf, List.filterMap_append]
  exact List.append_nil _

private theorem returnsOf_called (i j : ι) (op : ω) (history : List (Event ι ω ρ)) :
    returnsOf j (history ++ [.called i op]) = returnsOf j history := by
  rw [returnsOf, List.filterMap_append]
  exact List.append_nil _

private theorem returnsOf_returned (i j : ι) (op : ω) (result : ρ) (history : List (Event ι ω ρ)) :
    returnsOf j (history ++ [.returned i op result]) =
      returnsOf j history ++ if i = j then [(op, result)] else [] := by
  rw [returnsOf, List.filterMap_append]
  by_cases same : i = j <;> simp [returnsOf, same]

private theorem commitsOf_append (i j : ι) (op : ω) (result : ρ) (order : List (Commit ι ω ρ)) :
    commitsOf j (order ++ [⟨i, op, result⟩]) =
      commitsOf j order ++ if i = j then [(op, result)] else [] := by
  rw [commitsOf, List.filterMap_append]
  by_cases same : i = j <;> simp [commitsOf, same]

omit [DecidableEq ι] in
private theorem Legal.append {first second : List (Commit ι ω ρ)} {here there final : σ}
    (early : Legal body here first there) (late : Legal body there second final) :
    Legal body here (first ++ second) final := by
  induction early with
  | nil => exact late
  | update update defined _rest ih => exact Legal.update update defined (ih late)
  | outside outside _rest ih => exact Legal.outside outside (ih late)

theorem RealTime.event {history : List (Event ι ω ρ)} {order : List (Commit ι ω ρ)}
    (realTime : RealTime history order) {event : Event ι ω ρ}
    (returned : ∀ i, returnsOf i (history ++ [event]) <+: commitsOf i order)
    (called : ∀ i, (commitsOf i order).map Prod.fst <+: callsOf i (history ++ [event])) :
    RealTime (history ++ [event]) order := by
  intro before after split
  rcases List.eq_nil_or_concat after with last | ⟨middle, final, last⟩
  · subst last
    rw [List.append_nil] at split
    subst split
    exact ⟨order, [], (List.append_nil order).symm, fun i => ⟨returned i, called i⟩⟩
  · subst last
    rw [List.concat_eq_append, ← List.append_assoc] at split
    exact realTime before middle (List.append_inj' split rfl).1

private theorem RealTime.commit {history : List (Event ι ω ρ)} {order : List (Commit ι ω ρ)}
    (realTime : RealTime history order) (commit : Commit ι ω ρ) :
    RealTime history (order ++ [commit]) := by
  intro before after split
  obtain ⟨early, late, joined, between⟩ := realTime before after split
  refine ⟨early, late ++ [commit], ?_, between⟩
  rw [joined, List.append_assoc]

private theorem Recorded.linearizes {start : σ} (recorded : Recorded body start s) :
    Linearizes body start s.history s.order s.shared where
  legal := recorded.legal
  results i := ⟨(s.phase i).answer, recorded.returned i⟩
  program i := ⟨(s.phase i).pending, (recorded.called i).symm⟩
  realTime := recorded.realTime

section

variable {start : σ} (recorded : Recorded body start s) {i : ι} {phase : Phase σ ω ρ}

include recorded

private theorem Recorded.quiet (answer : phase.answer = (s.phase i).answer)
    (pending : phase.pending = (s.phase i).pending) (holder : Option ι) :
    Recorded body start { s.enter i phase with holder := holder } := by
  have kept : ∀ j, ((s.enter i phase).phase j).answer = (s.phase j).answer ∧
      ((s.enter i phase).phase j).pending = (s.phase j).pending := by
    intro j
    by_cases here : j = i
    · subst here
      rw [State.enter_self]
      exact ⟨answer, pending⟩
    · rw [s.enter_of_ne phase here]
      exact ⟨rfl, rfl⟩
  refine ⟨recorded.legal, ?_, ?_, recorded.realTime⟩
  · intro j
    simp only [(kept j).1]
    exact recorded.returned j
  · intro j
    simp only [(kept j).2]
    exact recorded.called j

private theorem Recorded.call {op : ω} (idle : s.phase i = .idle) :
    Recorded body start
      { s.enter i (.waiting op) with history := s.history ++ [.called i op] } := by
  have returned : ∀ j, returnsOf j (s.history ++ [.called i op]) ++
      ((s.enter i (.waiting op)).phase j).answer = commitsOf j s.order := by
    intro j
    rw [returnsOf_called, ← recorded.returned j]
    by_cases here : j = i
    · subst here
      rw [State.enter_self, idle]
      rfl
    · rw [s.enter_of_ne _ here]
  have called : ∀ j, callsOf j (s.history ++ [.called i op]) =
      (commitsOf j s.order).map Prod.fst ++ ((s.enter i (.waiting op)).phase j).pending := by
    intro j
    rw [callsOf_called, recorded.called j]
    by_cases here : j = i
    · subst here
      rw [State.enter_self, idle, if_pos rfl]
      simp only [Phase.pending, List.append_nil]
    · rw [s.enter_of_ne _ here, if_neg (Ne.symm here), List.append_nil]
  refine ⟨recorded.legal, returned, called, recorded.realTime.event ?_ ?_⟩
  · exact fun j => ⟨_, returned j⟩
  · exact fun j => ⟨_, (called j).symm⟩

private theorem Recorded.leave {op : ω} {result : ρ} (answered : s.phase i = .answered op result) :
    Recorded body start
      { s.enter i .idle with history := s.history ++ [.returned i op result] } := by
  have returned : ∀ j, returnsOf j (s.history ++ [.returned i op result]) ++
      ((s.enter i .idle).phase j).answer = commitsOf j s.order := by
    intro j
    rw [returnsOf_returned, ← recorded.returned j]
    by_cases here : j = i
    · subst here
      rw [State.enter_self, answered, if_pos rfl]
      simp only [Phase.answer, List.append_nil]
    · rw [s.enter_of_ne _ here, if_neg (Ne.symm here), List.append_nil]
  have called : ∀ j, callsOf j (s.history ++ [.returned i op result]) =
      (commitsOf j s.order).map Prod.fst ++ ((s.enter i .idle).phase j).pending := by
    intro j
    rw [callsOf_returned, recorded.called j]
    by_cases here : j = i
    · subst here
      rw [State.enter_self, answered]
      rfl
    · rw [s.enter_of_ne _ here]
  refine ⟨recorded.legal, returned, called, recorded.realTime.event ?_ ?_⟩
  · exact fun j => ⟨_, returned j⟩
  · exact fun j => ⟨_, (called j).symm⟩

private theorem Recorded.commit {op : ω} {result : ρ} {after : σ}
    (pending : (s.phase i).pending = [op]) (unanswered : (s.phase i).answer = [])
    (gone : phase.pending = []) (answer : phase.answer = [(op, result)])
    (legal : Legal body s.shared [⟨i, op, result⟩] after) :
    Recorded body start
      { s.enter i phase with shared := after, order := s.order ++ [⟨i, op, result⟩] } := by
  refine ⟨recorded.legal.append legal, ?_, ?_, recorded.realTime.commit _⟩
  · intro j
    simp only [commitsOf_append, ← recorded.returned j]
    by_cases here : j = i
    · subst here
      rw [State.enter_self, answer, unanswered, if_pos rfl, List.append_nil]
      rfl
    · rw [s.enter_of_ne _ here, if_neg (Ne.symm here), List.append_nil]
      rfl
  · intro j
    simp only [commitsOf_append, List.map_append]
    by_cases here : j = i
    · subst here
      rw [State.enter_self, gone, if_pos rfl, List.append_nil]
      refine (recorded.called j).trans ?_
      rw [pending]
      rfl
    · rw [s.enter_of_ne _ here, if_neg (Ne.symm here), List.map_nil, List.append_nil]
      exact recorded.called j

private theorem Recorded.step (locked : Locked s) (step : Step body s t) :
    Recorded body start t := by
  cases step.move with
  | call i op idle => exact recorded.call idle
  | lock i waiting update free =>
      exact recorded.quiet (by rw [waiting]; rfl) (by rw [waiting]; rfl) _
  | load i inside update =>
      exact recorded.quiet (by rw [inside]; rfl) (by rw [inside]; rfl) _
  | @store i op f copy after result loaded update defined =>
      -- nobody has stored since the load
      have fresh := locked.copy i op copy loaded
      subst fresh
      apply recorded.commit (by rw [loaded]; rfl) (by rw [loaded]; rfl) rfl rfl
      exact Legal.update update defined (Legal.nil after)
  | unlock i leaving =>
      exact recorded.quiet (by rw [leaving]; rfl) (by rw [leaving]; rfl) _
  | answer i waiting outside =>
      apply recorded.commit (by rw [waiting]; rfl) (by rw [waiting]; rfl) rfl rfl
      exact Legal.outside outside (Legal.nil _)
  | leave i answered => exact recorded.leave answered
  | fault i loaded update undefined =>
      exact ⟨recorded.legal, recorded.returned, recorded.called, recorded.realTime⟩

end

private theorem recorded_start (shared : σ) :
    Recorded body shared (State.start shared : State ι σ ω ρ) where
  legal := Legal.nil shared
  returned _ := rfl
  called _ := rfl
  realTime := by
    intro before after split
    obtain ⟨rfl, rfl⟩ := List.append_eq_nil_iff.mp split.symm
    exact ⟨[], [], rfl, fun i => ⟨List.prefix_refl _, List.prefix_refl _⟩⟩

private theorem Reached.recorded (reached : Reached body shared s) : Recorded body shared s := by
  induction reached with
  | refl => exact recorded_start shared
  | @tail _ _ before step ih =>
      have locked : Locked _ := Reached.locked before
      exact ih.step locked step

/-- Whatever the interleaving, the calls are as if each were made at once. -/
theorem Reached.linearizes (reached : Reached body shared s) :
    Linearizes body shared s.history s.order s.shared := reached.recorded.linearizes

theorem mem_commitsOf {i : ι} {op : ω} {result : ρ} {order : List (Commit ι ω ρ)} :
    (op, result) ∈ commitsOf i order ↔ ⟨i, op, result⟩ ∈ order := by
  rw [commitsOf, List.mem_filterMap]
  constructor
  · rintro ⟨⟨j, other, found⟩, member, same⟩
    by_cases here : j = i
    · rw [if_pos here, Option.some.injEq, Prod.mk.injEq] at same
      obtain ⟨rfl, rfl⟩ := same
      rw [here] at member
      exact member
    · rw [if_neg here] at same
      cases same
  · intro member
    exact ⟨_, member, if_pos rfl⟩

theorem Linearizes.of_returned {start final : σ} {history : List (Event ι ω ρ)}
    {order : List (Commit ι ω ρ)} (linearizes : Linearizes body start history order final)
    {i : ι} {op : ω} {result : ρ} (returned : .returned i op result ∈ history) :
    ⟨i, op, result⟩ ∈ order := by
  apply mem_commitsOf.mp
  apply (linearizes.results i).subset
  rw [returnsOf, List.mem_filterMap]
  exact ⟨_, returned, if_pos rfl⟩

theorem Linearizes.called {start final : σ} {history : List (Event ι ω ρ)}
    {order : List (Commit ι ω ρ)} (linearizes : Linearizes body start history order final)
    {i : ι} {op : ω} {result : ρ} (commit : ⟨i, op, result⟩ ∈ order) :
    .called i op ∈ history := by
  have member : op ∈ callsOf i history := by
    apply (linearizes.program i).subset
    exact List.mem_map.mpr ⟨(op, result), mem_commitsOf.mpr commit, rfl⟩
  rw [callsOf, List.mem_filterMap] at member
  obtain ⟨event, present, found⟩ := member
  cases event with
  | returned j other result => cases found
  | called j other =>
      by_cases here : j = i
      · simp only [if_pos here, Option.some.injEq] at found
        rw [← here, ← found]
        exact present
      · simp only [if_neg here] at found
        cases found

/-! ### Calls one after the other -/

structure Quiet (s : State ι σ ω ρ) : Prop where
  running : s.ended = false
  holder : s.holder = none
  idle : ∀ i, s.phase i = .idle

def spoken (order : List (Commit ι ω ρ)) : List (Event ι ω ρ) :=
  order.flatMap fun commit =>
    [.called commit.thread commit.op, .returned commit.thread commit.op commit.result]

structure Between (s : State ι σ ω ρ) (order : List (Commit ι ω ρ)) (final : σ)
    (t : State ι σ ω ρ) : Prop where
  quiet : Quiet t
  shared : t.shared = final
  history : t.history = s.history ++ spoken order
  order : t.order = s.order ++ order

private theorem Quiet.enter (quiet : Quiet s) (i j : ι) :
    Function.update s.phase i .idle j = .idle := by
  by_cases here : j = i
  · subst here
    exact Function.update_self _ _ _
  · rw [Function.update_of_ne here]
    exact quiet.idle j

private theorem Quiet.single {commit : Commit ι ω ρ} {after : σ} (quiet : Quiet s)
    (legal : Legal body s.shared [commit] after) :
    ∃ t, Relation.ReflTransGen (Step body) s t ∧ Between s [commit] after t := by
  obtain ⟨i, op, result⟩ := commit
  have call : Step body s _ := ⟨quiet.running, .call i op (quiet.idle i)⟩
  have called := Relation.ReflTransGen.single call
  cases legal with
  | update update defined rest =>
      cases rest
      have locked := called.tail
        ⟨quiet.running, .lock i (State.enter_self _ _ _) update quiet.holder⟩
      have loaded := locked.tail ⟨quiet.running, .load i (State.enter_self _ _ _) update⟩
      have stored := loaded.tail
        ⟨quiet.running, .store i (State.enter_self _ _ _) update defined⟩
      have unlocked := stored.tail ⟨quiet.running, .unlock i (State.enter_self _ _ _)⟩
      have left := unlocked.tail ⟨quiet.running, .leave i (State.enter_self _ _ _)⟩
      refine ⟨_, left, ⟨quiet.running, rfl, ?_⟩, rfl, ?_, rfl⟩
      · intro j
        simp only [State.enter, Function.update_idem]
        exact quiet.enter i j
      · exact List.append_assoc _ _ _
  | outside outside rest =>
      cases rest
      have answered := called.tail ⟨quiet.running, .answer i (State.enter_self _ _ _) outside⟩
      have left := answered.tail ⟨quiet.running, .leave i (State.enter_self _ _ _)⟩
      refine ⟨_, left, ⟨quiet.running, quiet.holder, ?_⟩, rfl, ?_, rfl⟩
      · intro j
        simp only [State.enter, Function.update_idem]
        exact quiet.enter i j
      · exact List.append_assoc _ _ _

omit [DecidableEq ι] in
private theorem Legal.uncons {commit : Commit ι ω ρ} {later : List (Commit ι ω ρ)} {here final : σ}
    (legal : Legal body here (commit :: later) final) :
    ∃ between, Legal body here [commit] between ∧ Legal body between later final := by
  cases legal with
  | update update defined rest => exact ⟨_, .update update defined (.nil _), rest⟩
  | outside outside rest => exact ⟨_, .outside outside (.nil _), rest⟩

theorem Quiet.between {order : List (Commit ι ω ρ)} {final : σ} (quiet : Quiet s)
    (legal : Legal body s.shared order final) :
    ∃ t, Relation.ReflTransGen (Step body) s t ∧ Between s order final t := by
  induction order generalizing s with
  | nil =>
      cases legal
      refine ⟨s, .refl, quiet, rfl, ?_, ?_⟩
      · exact (List.append_nil _).symm
      · exact (List.append_nil _).symm
  | cons commit later ih =>
      obtain ⟨between, first, rest⟩ := legal.uncons
      obtain ⟨t, early, middle⟩ := quiet.single first
      rw [← middle.shared] at rest
      obtain ⟨u, late, last⟩ := ih middle.quiet rest
      refine ⟨u, early.trans late, last.quiet, last.shared, ?_, ?_⟩
      · rw [last.history, middle.history, List.append_assoc]
        rfl
      · rw [last.order, middle.order, List.append_assoc]
        rfl

/-! ### Calls that do not return from the section -/

/-- The thread has the lock, and what it does to the state that is there does not return. -/
def Stays (body : ω → Body σ ρ) (s : State ι σ ω ρ) (i : ι) : Prop :=
  ∃ op f, body op = .update f ∧ f s.shared = .stays ∧
    (s.phase i = .inside op ∨ s.phase i = .loaded op s.shared)

omit [DecidableEq ι] in
theorem Stays.holds {i : ι} (stays : Stays body s i) : (s.phase i).Holds := by
  obtain ⟨_op, _f, _update, _hangs, inside | loaded⟩ := stays
  · rw [inside]
    trivial
  · rw [loaded]
    trivial

private theorem Stays.step {i : ι} (locked : Locked s) (stays : Stays body s i)
    (step : Step body s t) :
    Stays body t i ∧ t.shared = s.shared ∧
      ∃ later, t.order = s.order ++ later ∧
        ∀ commit ∈ later, body commit.op = .outside (some commit.result) := by
  have holds := stays.holds
  have held := (locked.holder i).mp holds
  obtain ⟨op, f, update, hangs, phase⟩ := stays
  -- a step of another thread leaves the one in the section where it is
  have others : ∀ {j : ι} (next : Phase σ ω ρ), i ≠ j → (s.enter j next).phase i = .inside op ∨
      (s.enter j next).phase i = .loaded op s.shared := by
    intro j next other
    rw [s.enter_of_ne next other]
    exact phase
  cases step.move with
  | call j other idle =>
      have apart : i ≠ j := by
        rintro rfl
        rw [idle] at holds
        exact holds
      exact ⟨⟨op, f, update, hangs, others _ apart⟩, rfl, [],
        (List.append_nil _).symm, by simp⟩
  | lock j waiting _ free =>
      rw [held] at free
      cases free
  | @load j other g inside _ =>
      have same : j = i := locked.exclusive (by rw [inside]; trivial) holds
      subst same
      have equal : other = op := by
        rcases phase with here | here
        · rw [inside] at here
          cases here
          rfl
        · rw [inside] at here
          cases here
      subst equal
      exact ⟨⟨other, f, update, hangs, .inr (s.enter_self j _)⟩, rfl, [],
        (List.append_nil _).symm, by simp⟩
  | @store j other g copy after result loaded defines defined =>
      have same : j = i := locked.exclusive (by rw [loaded]; trivial) holds
      subst same
      rcases phase with here | here
      · rw [loaded] at here
        cases here
      · rw [loaded] at here
        cases here
        rw [update] at defines
        cases defines
        rw [hangs] at defined
        cases defined
  | unlock j leaving =>
      have same : j = i := locked.exclusive (by rw [leaving]; trivial) holds
      subst same
      rcases phase with here | here
      · rw [leaving] at here
        cases here
      · rw [leaving] at here
        cases here
  | @answer j other result waiting outside =>
      have apart : i ≠ j := by
        rintro rfl
        rw [waiting] at holds
        exact holds
      refine ⟨⟨op, f, update, hangs, others _ apart⟩, rfl, [⟨j, other, result⟩], rfl, ?_⟩
      intro commit member
      rw [List.mem_singleton] at member
      subst member
      exact outside
  | leave j answered =>
      have apart : i ≠ j := by
        rintro rfl
        rw [answered] at holds
        exact holds
      exact ⟨⟨op, f, update, hangs, others _ apart⟩, rfl, [],
        (List.append_nil _).symm, by simp⟩
  | fault j loaded defines undefined =>
      exact ⟨⟨op, f, update, hangs, phase⟩, rfl, [], (List.append_nil _).symm, by simp⟩

theorem State.enter_other {i j : ι} {here : Phase σ ω ρ} (now : s.phase j = here)
    (apart : s.phase i ≠ here) (phase : Phase σ ω ρ) : (s.enter i phase).phase j = here := by
  rw [s.enter_of_ne phase]
  · exact now
  · rintro rfl
    exact apart now

theorem Stays.waits {i j : ι} {op : ω} {f : σ → Effect σ ρ} (locked : Locked s)
    (stays : Stays body s i) (step : Step body s t) (waiting : s.phase j = .waiting op)
    (update : body op = .update f) : t.phase j = .waiting op := by
  have held := (locked.holder i).mp stays.holds
  cases step.move with
  | call k other idle => exact State.enter_other waiting (by rw [idle]; nofun) _
  | lock k _ _ free =>
      rw [held] at free
      cases free
  | load k inside _ => exact State.enter_other waiting (by rw [inside]; nofun) _
  | store k loaded _ _ => exact State.enter_other waiting (by rw [loaded]; nofun) _
  | unlock k leaving => exact State.enter_other waiting (by rw [leaving]; nofun) _
  | answer k asking outside =>
      apply State.enter_other waiting
      rw [asking]
      rintro ⟨⟩
      rw [update] at outside
      cases outside
  | leave k answered => exact State.enter_other waiting (by rw [answered]; nofun) _
  | fault k loaded defines undefined => exact waiting

/-- Once it has loaded the state it does not move at all. -/
theorem Stays.not_goes {i : ι} {op : ω} (stays : Stays body s i)
    (loaded : s.phase i = .loaded op s.shared) (step : Step body s t) :
    t.phase i = .loaded op s.shared := by
  obtain ⟨other, f, update, hangs, inside | loaded'⟩ := stays
  · rw [loaded] at inside
    cases inside
  rw [loaded] at loaded'
  cases loaded'
  cases step.move with
  | call j other idle => exact State.enter_other loaded (by rw [idle]; nofun) _
  | lock j waiting _ _ => exact State.enter_other loaded (by rw [waiting]; nofun) _
  | load j inside _ => exact State.enter_other loaded (by rw [inside]; nofun) _
  | @store j other g copy after result there defines defined =>
      apply State.enter_other loaded
      rintro same
      rw [there] at same
      cases same
      rw [update] at defines
      cases defines
      rw [hangs] at defined
      cases defined
  | unlock j leaving => exact State.enter_other loaded (by rw [leaving]; nofun) _
  | answer j waiting _ => exact State.enter_other loaded (by rw [waiting]; nofun) _
  | leave j answered => exact State.enter_other loaded (by rw [answered]; nofun) _
  | fault j _ _ _ => exact loaded

/-- Nothing that takes the lock takes effect any more. -/
theorem Stays.frozen {i : ι} (reached : Reached body shared s) (stays : Stays body s i)
    (later : Relation.ReflTransGen (Step body) s t) :
    Stays body t i ∧ t.shared = s.shared ∧
      (∃ calls, t.order = s.order ++ calls ∧
        ∀ commit ∈ calls, body commit.op = .outside (some commit.result)) ∧
      ∀ j op f, s.phase j = .waiting op → body op = .update f → t.phase j = .waiting op := by
  induction later with
  | refl =>
      exact ⟨stays, rfl, ⟨[], (List.append_nil _).symm, by simp⟩, fun _ _ _ same _ => same⟩
  | @tail u _ before step ih =>
      obtain ⟨inside, shared, ⟨calls, order, outside⟩, waits⟩ := ih
      have locked : Locked u := Reached.locked (Relation.ReflTransGen.trans reached before)
      obtain ⟨inside', shared', calls', order', outside'⟩ := inside.step locked step
      refine ⟨inside', shared'.trans shared, ⟨calls ++ calls', ?_, ?_⟩, ?_⟩
      · rw [order', order, List.append_assoc]
      · intro commit member
        rcases List.mem_append.mp member with early | late
        · exact outside commit early
        · exact outside' commit late
      · intro j op f waiting update
        exact inside.waits locked step (waits j op f waiting update) update

theorem outside_forever {i : ι} {op : ω} (outside : body op = .outside none)
    (waiting : s.phase i = .waiting op) (later : Relation.ReflTransGen (Step body) s t) :
    t.phase i = .waiting op := by
  induction later with
  | refl => exact waiting
  | tail _before step ih =>
      cases step.move with
      | call k other idle => exact State.enter_other ih (by rw [idle]; nofun) _
      | lock k asking update _ =>
          apply State.enter_other ih
          rw [asking]
          rintro ⟨⟩
          rw [outside] at update
          cases update
      | load k inside _ => exact State.enter_other ih (by rw [inside]; nofun) _
      | store k loaded _ _ => exact State.enter_other ih (by rw [loaded]; nofun) _
      | unlock k leaving => exact State.enter_other ih (by rw [leaving]; nofun) _
      | answer k asking answers =>
          apply State.enter_other ih
          rw [asking]
          rintro ⟨⟩
          rw [outside] at answers
          cases answers
      | leave k answered => exact State.enter_other ih (by rw [answered]; nofun) _
      | fault k loaded update undefined => exact ih

/-! ### Calls that go on -/

def Phase.Guarded (body : ω → Body σ ρ) : Phase σ ω ρ → Prop
  | .inside op | .loaded op _ => ∃ f, body op = .update f
  | _ => True

private theorem State.enter_guarded (guarded : ∀ i, (s.phase i).Guarded body) (i : ι)
    (phase : Phase σ ω ρ) (here : phase.Guarded body) (j : ι) :
    ((s.enter i phase).phase j).Guarded body := by
  by_cases same : j = i
  · subst same
    rw [State.enter_self]
    exact here
  · rw [s.enter_of_ne phase same]
    exact guarded j

theorem Reached.guarded (reached : Reached body shared s) (i : ι) :
    (s.phase i).Guarded body := by
  induction reached generalizing i with
  | refl => trivial
  | tail _before step ih =>
      cases step.move with
      | call j op idle => exact State.enter_guarded ih j (.waiting op) trivial i
      | @lock j op f waiting update free =>
          exact State.enter_guarded ih j (.inside op) ⟨f, update⟩ i
      | @load j op f inside update =>
          exact State.enter_guarded ih j (.loaded op _) ⟨f, update⟩ i
      | @store j op f copy after result loaded update defined =>
          exact State.enter_guarded ih j (.leaving op result) trivial i
      | @unlock j op result leaving =>
          exact State.enter_guarded ih j (.answered op result) trivial i
      | @answer j op result waiting outside =>
          exact State.enter_guarded ih j (.answered op result) trivial i
      | leave j answered => exact State.enter_guarded ih j .idle trivial i
      | fault j loaded update undefined => exact ih i

def Goes (body : ω → Body σ ρ) (s : State ι σ ω ρ) (i : ι) : Prop :=
  s.phase i ≠ .idle ∧ ∃ t, Step body s t ∧ t.phase i ≠ s.phase i

theorem Goes.of_step {i : ι} {here next : Phase σ ω ρ} (now : s.phase i = here)
    (step : Step body s t) (entered : t.phase i = next) (busy : here ≠ .idle)
    (other : next ≠ here) : Goes body s i := by
  rw [Goes, now]
  refine ⟨busy, t, step, ?_⟩
  rw [entered]
  exact other

def Faults (body : ω → Body σ ρ) (s : State ι σ ω ρ) (i : ι) : Prop :=
  ∃ op f, body op = .update f ∧ f s.shared = .undefined ∧ s.phase i = .loaded op s.shared

/-- It is with such a thread that a run ends. -/
private theorem Reached.ended (reached : Reached body shared s) (ended : s.ended = true) :
    ∃ i, Faults body s i := by
  cases reached with
  | refl => cases ended
  | @tail u _ before step =>
      have running := step.running
      cases step.move with
      | @fault i op f copy loaded update undefined =>
          have fresh := (Reached.locked before).copy i op copy loaded
          subst fresh
          exact ⟨i, op, f, update, undefined, loaded⟩
      | _ =>
          rw [show u.ended = true from ended] at running
          cases running

private theorem Reached.holder_goes (reached : Reached body shared s) (running : s.ended = false)
    {i : ι}
    (holds : (s.phase i).Holds) : Goes body s i ∨ Stays body s i ∨ Faults body s i := by
  have guarded := Reached.guarded reached i
  have copied := (Reached.locked reached).copy i
  cases phase : s.phase i with
  | inside op =>
      rw [phase] at guarded
      obtain ⟨f, update⟩ := guarded
      exact .inl (Goes.of_step phase ⟨running, .load i phase update⟩ (s.enter_self i _) nofun nofun)
  | loaded op copy =>
      rw [phase] at guarded
      obtain ⟨f, update⟩ := guarded
      have fresh := copied op copy phase
      subst fresh
      cases stored : f s.shared with
      | stays => exact .inr (.inl ⟨op, f, update, stored, .inr phase⟩)
      | undefined => exact .inr (.inr ⟨op, f, update, stored, phase⟩)
      | stores after result =>
          have step : Step body s _ := ⟨running, .store i phase update stored⟩
          exact .inl (Goes.of_step phase step (s.enter_self i _) nofun nofun)
  | leaving op result =>
      exact .inl (Goes.of_step phase ⟨running, .unlock i phase⟩ (s.enter_self i _) nofun nofun)
  | idle =>
      rw [phase] at holds
      exact holds.elim
  | waiting op =>
      rw [phase] at holds
      exact holds.elim
  | answered op result =>
      rw [phase] at holds
      exact holds.elim

/-- Where no thread in the section stays there or does something undefined, somebody goes on
as long as a thread is in a call that takes it or returns without it. -/
theorem Reached.goes (reached : Reached body shared s) {i : ι} (busy : s.phase i ≠ .idle) :
    (∃ j, Goes body s j) ∨ (∃ j, Stays body s j) ∨ (∃ j, Faults body s j) ∨
      ∃ op, s.phase i = .waiting op ∧ body op = .outside none := by
  by_cases ended : s.ended = true
  · exact .inr (.inr (.inl (Reached.ended reached ended)))
  have running : s.ended = false := Bool.eq_false_iff.mpr ended
  by_cases holds : (s.phase i).Holds
  · rcases Reached.holder_goes reached running holds with goes | stays | faults
    · exact .inl ⟨i, goes⟩
    · exact .inr (.inl ⟨i, stays⟩)
    · exact .inr (.inr (.inl ⟨i, faults⟩))
  cases phase : s.phase i with
  | idle => exact absurd phase busy
  | inside op =>
      rw [phase] at holds
      exact (holds trivial).elim
  | loaded op copy =>
      rw [phase] at holds
      exact (holds trivial).elim
  | leaving op result =>
      rw [phase] at holds
      exact (holds trivial).elim
  | answered op result =>
      have step : Step body s _ := ⟨running, .leave i phase⟩
      exact .inl ⟨i, Goes.of_step phase step (s.enter_self i _) nofun nofun⟩
  | waiting op =>
      cases does : body op with
      | outside result =>
          cases result with
          | none => exact .inr (.inr (.inr ⟨op, rfl, does⟩))
          | some result =>
              have step : Step body s _ := ⟨running, .answer i phase does⟩
              exact .inl ⟨i, Goes.of_step phase step (s.enter_self i _) nofun nofun⟩
      | update f =>
          cases held : s.holder with
          | none =>
              have step : Step body s _ := ⟨running, .lock i phase does held⟩
              exact .inl ⟨i, Goes.of_step phase step (s.enter_self i _) nofun nofun⟩
          | some j =>
              -- the thread that has the lock is in the way
              have there := ((Reached.locked reached).holder j).mpr held
              rcases Reached.holder_goes reached running there with goes | stays | faults
              · exact .inl ⟨j, goes⟩
              · exact .inr (.inl ⟨j, stays⟩)
              · exact .inr (.inr (.inl ⟨j, faults⟩))

end CriticalSection
