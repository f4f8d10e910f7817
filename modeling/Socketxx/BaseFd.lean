import Mathlib.Data.List.Basic
import Socketxx.Library.Runs

/-!
Objects of `base_fd` and of the classes over it that share one descriptor: their
copies, the flags they share, and their destructors, which count references.

Each object has its own copy of the descriptor's number. An object is named by its
place among those alive; constructors and destructors say which system calls they make.
-/

set_option autoImplicit false

namespace Socketxx.BaseFd

open Runs

inductive FdClass where
  | baseFd
  | baseSocket
  | baseNetsock
  | baseUnixsock
deriving DecidableEq, Repr

def FdClass.isSocket : FdClass → Bool
  | .baseFd => false
  | .baseSocket => true
  | .baseNetsock => true
  | .baseUnixsock => true

def invalidHandle : Int := -1

structure Object where
  cls : FdClass
  fd : Int
deriving DecidableEq, Repr

structure ShrdData where
  autoclose : Bool
  preserveFd : Bool
deriving DecidableEq, Repr

inductive SysCall where
  | shutdown (fd : Int)
  | close (fd : Int)
deriving DecidableEq, Repr

/-! ### Destructors -/

def Object.fdClose (shd : ShrdData) (object : Object) : List SysCall × Object :=
  if shd.autoclose ∧ object.fd ≠ invalidHandle then
    ([.close object.fd], { object with fd := invalidHandle })
  else ([], object)

def Object.socketFdClose (shd : ShrdData) (object : Object) : List SysCall × Object :=
  if shd.autoclose ∧ object.fd ≠ invalidHandle then
    ((if shd.preserveFd then [] else [.shutdown object.fd]) ++ [.close object.fd],
      { object with fd := invalidHandle })
  else ([], object)

def willDestruct (refcount : Nat) (block : Object → List SysCall × Object)
    (object : Object) : List SysCall × Object :=
  if refcount = 1 then block object else ([], object)

/-- `~base_unixsock`, the socket file apart. -/
def Object.unixsockDtor (shd : ShrdData) (refcount : Nat) (object : Object) :
    List SysCall × Object :=
  willDestruct refcount (Object.socketFdClose shd) object

def Object.socketDtor (shd : ShrdData) (refcount : Nat) (object : Object) :
    List SysCall × Object :=
  willDestruct refcount (Object.socketFdClose shd) object

/-- `~base_fd`, whose block `REFCXX_DESTRUCT` runs when the counter has come to zero. -/
def Object.fdDtor (shd : ShrdData) (refcount : Nat) (object : Object) :
    List SysCall × Object :=
  if refcount - 1 = 0 then object.fdClose shd else ([], object)

def Object.destruct (shd : ShrdData) (refcount : Nat) (object : Object) : List SysCall :=
  match object.cls with
  | .baseFd => (object.fdDtor shd refcount).1
  | .baseSocket | .baseNetsock =>
      let (socket, object) := object.socketDtor shd refcount
      let (fd, _) := object.fdDtor shd refcount
      socket ++ fd
  | .baseUnixsock =>
      let (unixsock, object) := object.unixsockDtor shd refcount
      let (socket, object) := object.socketDtor shd refcount
      let (fd, _) := object.fdDtor shd refcount
      unixsock ++ (socket ++ fd)

/-! ### Objects that share a descriptor -/

structure Family where
  refcount : Nat
  shd : ShrdData
  objects : List Object
deriving Repr

def Family.construct (cls : FdClass) (fd : Int) (autoclose : Bool) : Family :=
  { refcount := 1
    shd :=
      { autoclose := autoclose
        preserveFd := false }
    objects := [⟨cls, fd⟩] }

def FdClass.takes : FdClass → FdClass → Bool
  | .baseFd, _ => true
  | .baseSocket, _ => true
  | .baseNetsock, source => source.isSocket
  | .baseUnixsock, source => source.isSocket

/-- The constructor of `base_socket` from `base_fd` calls `check_socket`. -/
def FdClass.checks (cls source : FdClass) : Bool := cls == .baseSocket && source == .baseFd

/-- A copy construction. When `check_socket` throws, the `base_fd` made so far is
destroyed on the way out. -/
def Family.copy (family : Family) (source : Nat) (cls : FdClass) (isSocket : Bool) :
    List SysCall × Family :=
  match family.objects[source]? with
  | none => ([], family)
  | some object =>
      if !cls.takes object.cls then ([], family)
      else if cls.checks object.cls && !isSocket then
        ((Object.mk .baseFd object.fd).destruct family.shd (family.refcount + 1), family)
      else
        ([], { family with
          refcount := family.refcount + 1
          objects := family.objects ++ [⟨cls, object.fd⟩] })

def Family.setPreserved (family : Family) (index : Nat) : Family :=
  if index < family.objects.length then
    { family with shd := { family.shd with preserveFd := true } }
  else family

def Family.destroy (family : Family) (index : Nat) : List SysCall × Family :=
  match family.objects[index]? with
  | none => ([], family)
  | some object =>
      (object.destruct family.shd family.refcount,
        { family with
          refcount := family.refcount - 1
          objects := family.objects.eraseIdx index })

inductive Op where
  | copy (source : Nat) (cls : FdClass) (isSocket : Bool)
  | setPreserved (index : Nat)
  | destroy (index : Nat)
deriving DecidableEq, Repr

def Family.apply (family : Family) : Op → List SysCall × Family
  | .copy source cls isSocket => family.copy source cls isSocket
  | .setPreserved index => ([], family.setPreserved index)
  | .destroy index => family.destroy index

structure History where
  family : Family
  calls : List SysCall
deriving Repr

def History.constructed (cls : FdClass) (number : Nat) (autoclose : Bool) : History :=
  ⟨Family.construct cls number autoclose, []⟩

def History.step (history : History) (op : Op) : History :=
  let result := history.family.apply op
  ⟨result.2, history.calls ++ result.1⟩

/-! ### What a destruction does -/

def released (shd : ShrdData) (object : Object) : List SysCall :=
  if shd.autoclose then
    (if object.cls.isSocket && !shd.preserveFd then [.shutdown object.fd] else []) ++
      [.close object.fd]
  else []

theorem Object.destruct_shared (shd : ShrdData) (object : Object) {refcount : Nat}
    (shared : 1 < refcount) : object.destruct shd refcount = [] := by
  have several : refcount ≠ 1 := by omega
  have left : refcount - 1 ≠ 0 := by omega
  obtain ⟨cls, fd⟩ := object
  cases cls <;>
    simp only [destruct, unixsockDtor, socketDtor, fdDtor, willDestruct, if_neg several,
      if_neg left, List.append_nil]

theorem Object.destruct_invalid (shd : ShrdData) (cls : FdClass) (refcount : Nat) :
    (Object.mk cls invalidHandle).destruct shd refcount = [] := by
  have closed : (Object.mk cls invalidHandle).fdClose shd = ([], ⟨cls, invalidHandle⟩) := by
    rw [fdClose, if_neg (fun both => both.2 rfl)]
  have socketClosed :
      (Object.mk cls invalidHandle).socketFdClose shd = ([], ⟨cls, invalidHandle⟩) := by
    rw [socketFdClose, if_neg (fun both => both.2 rfl)]
  cases cls <;>
    simp only [destruct, unixsockDtor, socketDtor, fdDtor, willDestruct, closed, socketClosed,
      ite_self, List.append_nil]

/-- The first `fd_close` that runs resets `fd`, and those of the bases do nothing. -/
theorem Object.destruct_last (shd : ShrdData) (object : Object)
    (valid : object.fd ≠ invalidHandle) : object.destruct shd 1 = released shd object := by
  obtain ⟨cls, fd⟩ := object
  obtain ⟨autoclose, preserveFd⟩ := shd
  cases autoclose with
  | false =>
      cases cls <;>
        simp [destruct, unixsockDtor, socketDtor, fdDtor, willDestruct, fdClose, socketFdClose,
          released]
  | true =>
      cases cls <;> cases preserveFd <;>
        simp_all [destruct, unixsockDtor, socketDtor, fdDtor, willDestruct, fdClose,
          socketFdClose, released, FdClass.isSocket]

/-! ### What an operation does -/

def Family.Counted (family : Family) : Prop := family.refcount = family.objects.length

section

variable (family : Family)

inductive Family.Moves : Op → List SysCall × Family → Prop where
  | nothing (op : Op) : Moves op ([], family)
  | copied (source : Nat) (cls : FdClass) (isSocket : Bool) (object : Object)
      (found : object ∈ family.objects) :
      Moves (.copy source cls isSocket) ([], { family with
        refcount := family.refcount + 1
        objects := family.objects ++ [⟨cls, object.fd⟩] })
  | preserved (index : Nat) (alive : index < family.objects.length) :
      Moves (.setPreserved index)
        ([], { family with shd := { family.shd with preserveFd := true } })
  | destroyed (index : Nat) (object : Object) (found : family.objects[index]? = some object) :
      Moves (.destroy index) (object.destruct family.shd family.refcount, { family with
        refcount := family.refcount - 1
        objects := family.objects.eraseIdx index })

end

theorem Family.apply_moves {family : Family} (counted : family.Counted) (op : Op) :
    family.Moves op (family.apply op) := by
  cases op with
  | copy source cls isSocket =>
      rw [apply, copy]
      cases found : family.objects[source]? with
      | none => exact Moves.nothing _
      | some object =>
          have member := List.mem_of_getElem? found
          have several : 1 < family.refcount + 1 := by
            have positive := List.length_pos_of_mem member
            rw [counted]
            omega
          dsimp only
          split
          · exact Moves.nothing _
          · split
            · rw [Object.destruct_shared _ _ several]
              exact Moves.nothing _
            · exact Moves.copied source cls isSocket object member
  | setPreserved index =>
      rw [apply, setPreserved]
      split
      · rename_i alive
        exact Moves.preserved index alive
      · exact Moves.nothing _
  | destroy index =>
      rw [apply, destroy]
      cases found : family.objects[index]? with
      | none => exact Moves.nothing _
      | some object => exact Moves.destroyed index object found

theorem Family.Moves.counted {family : Family} {op : Op} {result : List SysCall × Family}
    (moves : family.Moves op result) (counted : family.Counted) : result.2.Counted := by
  cases moves with
  | nothing => exact counted
  | copied source cls isSocket object found =>
      rw [Counted, List.length_append, counted]
      rfl
  | preserved index alive => exact counted
  | destroyed index object found =>
      have bound := (List.getElem?_eq_some_iff.mp found).1
      rw [Counted, List.length_eraseIdx_of_lt bound, counted]

theorem Family.Moves.forall_objects {family : Family} {op : Op} {result : List SysCall × Family}
    (holds : Int → Prop) (moves : family.Moves op result)
    (all : ∀ object ∈ family.objects, holds object.fd) :
    ∀ object ∈ result.2.objects, holds object.fd := by
  cases moves with
  | nothing => exact all
  | copied source cls isSocket object found =>
      intro other member
      rcases List.mem_append.mp member with old | new
      · exact all other old
      · rw [List.mem_singleton.mp new]
        exact all object found
  | preserved index alive => exact all
  | destroyed index object found =>
      intro other member
      exact all other (List.mem_of_mem_eraseIdx member)

theorem Family.Moves.calls_eq_nil {family : Family} {op : Op} {result : List SysCall × Family}
    (moves : family.Moves op result) (counted : family.Counted)
    (alive : result.2.objects ≠ []) : result.1 = [] := by
  cases moves with
  | nothing => rfl
  | copied source cls isSocket object found => rfl
  | preserved index alive => rfl
  | destroyed index object found =>
      have bound := (List.getElem?_eq_some_iff.mp found).1
      have left := List.length_pos_iff.mpr alive
      rw [List.length_eraseIdx_of_lt bound] at left
      apply Object.destruct_shared
      rw [counted]
      omega

/-- No object is left: it was the only one, and its destructors release the descriptor. -/
theorem Family.Moves.last {family : Family} {op : Op} {result : List SysCall × Family}
    (moves : family.Moves op result) (counted : family.Counted)
    (alive : family.objects ≠ []) (ended : result.2.objects = []) :
    ∃ object, op = .destroy 0 ∧ family.objects = [object] ∧
      result.1 = object.destruct family.shd 1 := by
  cases moves with
  | nothing => exact absurd ended alive
  | copied source cls isSocket object found =>
      exact absurd (List.append_eq_nil_iff.mp ended).2 (List.cons_ne_nil _ _)
  | preserved index _ => exact absurd ended alive
  | destroyed index object found =>
      obtain ⟨bound, same⟩ := List.getElem?_eq_some_iff.mp found
      have length := congrArg List.length ended
      rw [List.length_eraseIdx_of_lt bound, List.length_nil] at length
      have one : family.objects.length = 1 := by omega
      obtain ⟨only, objects⟩ := List.length_eq_one_iff.mp one
      have first : index = 0 := by omega
      subst first
      simp only [objects, List.getElem_cons_zero] at same
      refine ⟨object, rfl, ?_, ?_⟩
      · rw [objects, same]
      · rw [counted, one]

theorem Family.apply_of_nil {family : Family} (ended : family.objects = []) (op : Op) :
    family.apply op = ([], family) := by
  cases op with
  | copy source cls isSocket => rw [apply, copy, ended, List.getElem?_nil]
  | setPreserved index =>
      rw [apply, setPreserved, ended, List.length_nil, if_neg (Nat.not_lt_zero index)]
  | destroy index => rw [apply, destroy, ended, List.getElem?_nil]

/-! ### The last object closes the descriptor -/

def History.Preserves (history : History) : Op → Prop
  | .copy _ _ _ => False
  | .setPreserved index => index < history.family.objects.length
  | .destroy _ => False

def NeverPreserved (cls : FdClass) (number : Nat) (autoclose : Bool) (ops : List Op) : Prop :=
  EveryStep History.step (fun history op => ¬ history.Preserves op)
    (History.constructed cls number autoclose) ops

theorem History.step_family (history : History) (op : Op) :
    (history.step op).family = (history.family.apply op).2 := rfl

theorem History.step_calls (history : History) (op : Op) :
    (history.step op).calls = history.calls ++ (history.family.apply op).1 := rfl

theorem Family.Moves.preserveFd {family : Family} {op : Op} {result : List SysCall × Family}
    (moves : family.Moves op result) (preserved : family.shd.preserveFd = true) :
    result.2.shd.preserveFd = true := by
  cases moves with
  | nothing => exact preserved
  | copied => exact preserved
  | preserved => rfl
  | destroyed => exact preserved

theorem Family.Moves.autoclose {family : Family} {op : Op} {result : List SysCall × Family}
    (moves : family.Moves op result) :
    result.2.shd.autoclose = family.shd.autoclose := by
  cases moves <;> rfl

structure History.Alive (history : History) (number : Nat) (autoclose : Bool) : Prop where
  counted : history.family.Counted
  some : history.family.objects ≠ []
  fd : ∀ object ∈ history.family.objects, object.fd = number
  autoclose : history.family.shd.autoclose = autoclose
  quiet : history.calls = []

variable {number : Nat} {autoclose : Bool}

private theorem constructed_alive (cls : FdClass) :
    (History.constructed cls number autoclose).Alive number autoclose := by
  refine ⟨rfl, List.cons_ne_nil _ _, ?_, rfl, rfl⟩
  intro object member
  rw [List.mem_singleton.mp member]

private theorem History.Alive.step {history : History} (alive : history.Alive number autoclose)
    (op : Op) (left : (history.step op).family.objects ≠ []) :
    (history.step op).Alive number autoclose := by
  have moves := Family.apply_moves alive.counted op
  constructor
  case counted => exact moves.counted alive.counted
  case some => exact left
  case fd => exact moves.forall_objects (fun fd => fd = number) alive.fd
  case autoclose => exact moves.autoclose.trans alive.autoclose
  case quiet =>
    rw [step_calls, alive.quiet, moves.calls_eq_nil alive.counted left, List.append_nil]

private theorem History.Alive.last {history : History} (alive : history.Alive number autoclose)
    (op : Op) (ended : (history.step op).family.objects = []) :
    ∃ object, op = .destroy 0 ∧ history.family.objects = [object] ∧
      (history.step op).calls = released history.family.shd object ∧
        object.fd = (number : Int) := by
  have moves := Family.apply_moves alive.counted op
  obtain ⟨object, first, only, calls⟩ := moves.last alive.counted alive.some ended
  have fd : object.fd = (number : Int) := by
    apply alive.fd object
    rw [only]
    exact List.mem_singleton_self object
  have valid : object.fd ≠ invalidHandle := by
    rw [fd, invalidHandle]
    omega
  refine ⟨object, first, only, ?_, fd⟩
  rw [step_calls, alive.quiet, List.nil_append, calls, Object.destruct_last _ _ valid]

private theorem History.step_of_ended {history : History} (ended : history.family.objects = [])
    (op : Op) : history.step op = history := by
  rw [step, Family.apply_of_nil ended op, List.append_nil]

private theorem History.foldl_of_ended {history : History} (ended : history.family.objects = [])
    (ops : List Op) : ops.foldl History.step history = history := by
  induction ops with
  | nil => rfl
  | cons op later ih => rw [List.foldl_cons, step_of_ended ended, ih]

/-- A run in which an object stays alive, or the last one is destroyed at some point. -/
private theorem History.Alive.run {history : History} (alive : history.Alive number autoclose)
    (ops : List Op) :
    (ops.foldl History.step history).Alive number autoclose ∨
      ∃ before after : List Op, ∃ object : Object, ops = before ++ .destroy 0 :: after ∧
        (before.foldl History.step history).Alive number autoclose ∧
        (before.foldl History.step history).family.objects = [object] ∧
        object.fd = (number : Int) ∧
        (ops.foldl History.step history).family.objects = [] ∧
        (ops.foldl History.step history).calls =
          released (before.foldl History.step history).family.shd object := by
  induction ops generalizing history with
  | nil => exact Or.inl alive
  | cons op later ih =>
      by_cases ended : (history.step op).family.objects = []
      · obtain ⟨object, first, only, calls, fd⟩ := alive.last op ended
        refine Or.inr ⟨[], later, object, ?_, alive, only, fd, ?_, ?_⟩
        · rw [first, List.nil_append]
        · rw [List.foldl_cons, foldl_of_ended ended]
          exact ended
        · rw [List.foldl_cons, foldl_of_ended ended]
          exact calls
      · rcases ih (alive.step op ended) with still | ⟨before, after, object, split, rest⟩
        · exact Or.inl still
        · exact Or.inr ⟨op :: before, after, object, congrArg (List.cons op) split, rest⟩

/-- The shared flag is still clear, or set for good. -/
def History.Flag (flag : Bool) (history : History) : Prop :=
  history.family.Counted ∧ history.family.shd.preserveFd = flag

private theorem History.Flag.keeps {history : History} (clear : history.Flag false) (op : Op)
    (other : ¬ history.Preserves op) : (history.step op).Flag false := by
  have moves := Family.apply_moves clear.1 op
  refine ⟨moves.counted clear.1, ?_⟩
  rw [step_family]
  generalize history.family.apply op = result at moves ⊢
  cases moves with
  | nothing => exact clear.2
  | copied => exact clear.2
  | preserved index alive => exact absurd alive other
  | destroyed => exact clear.2

private theorem History.Flag.sets {history : History} (clear : history.Flag false) (op : Op)
    (marks : ¬ ¬ history.Preserves op) : (history.step op).Flag true := by
  have moves := Family.apply_moves clear.1 op
  refine ⟨moves.counted clear.1, ?_⟩
  cases op with
  | copy source cls isSocket => exact absurd id marks
  | setPreserved index =>
      have alive : index < history.family.objects.length := not_not.mp marks
      rw [step_family, Family.apply, Family.setPreserved, if_pos alive]
  | destroy index => exact absurd id marks

private theorem History.Flag.stays {history : History} (set : history.Flag true) (op : Op) :
    (history.step op).Flag true := by
  have moves := Family.apply_moves set.1 op
  exact ⟨moves.counted set.1, moves.preserveFd set.2⟩

private theorem preserveFd_eq_false_iff (cls : FdClass) (ops : List Op) :
    (ops.foldl History.step
        (History.constructed cls number autoclose)).family.shd.preserveFd = false ↔
      NeverPreserved cls number autoclose ops := by
  have start : (History.constructed cls number autoclose).Flag false := ⟨rfl, rfl⟩
  rcases everyStep_or (fun _ op clear other => History.Flag.keeps clear op other)
    (fun _ op clear marks => History.Flag.sets clear op marks)
    (fun _ op set => History.Flag.stays set op) start ops with
    ⟨never, ends⟩ | ⟨marked, ends⟩
  · exact iff_of_true ends.2 never
  · refine iff_of_false ?_ marked
    rw [ends.2]
    exact Bool.noConfusion

/-- Nothing is called for while an object is alive. The destruction of the last one closes
the descriptor once if `autoclose` is set, and shuts it down just before if that object is
a socket and none was ever marked preserved. -/
theorem released_by_last (cls : FdClass) (number : Nat) (autoclose : Bool) (ops : List Op) :
    let history := ops.foldl History.step (History.constructed cls number autoclose)
    (history.family.objects ≠ [] → history.calls = []) ∧
    (history.family.objects = [] → ∃ before after last,
      ops = before ++ .destroy 0 :: after ∧
      (before.foldl History.step
        (History.constructed cls number autoclose)).family.objects = [last] ∧
      (autoclose = false → history.calls = []) ∧
      (autoclose = true → last.cls.isSocket = true →
        NeverPreserved cls number autoclose before →
          history.calls = [.shutdown number, .close number]) ∧
      (autoclose = true →
        ¬ (last.cls.isSocket = true ∧ NeverPreserved cls number autoclose before) →
          history.calls = [.close number])) := by
  have alive := @constructed_alive number autoclose cls
  rcases alive.run ops with still | ⟨before, after, last, split, alive, only, fd, ended, calls⟩
  · exact ⟨fun _ => still.quiet, fun ended => absurd ended still.some⟩
  · refine ⟨fun some => absurd ended some, fun _ => ⟨before, after, last, split, only, ?_⟩⟩
    rw [calls, released, alive.autoclose, fd, ← preserveFd_eq_false_iff]
    refine ⟨?_, ?_, ?_⟩
    · intro manual
      rw [manual]
      rfl
    · intro automatic socket unmarked
      rw [unmarked, socket, automatic]
      rfl
    · intro automatic not
      have kept : (last.cls.isSocket && !(before.foldl History.step
          (History.constructed cls number autoclose)).family.shd.preserveFd) = false := by
        rw [← Bool.not_eq_true]
        intro both
        rw [Bool.and_eq_true, Bool.not_eq_true'] at both
        exact not both
      rw [kept, automatic]
      rfl

end Socketxx.BaseFd
