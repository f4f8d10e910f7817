import Socketxx.SelectStop

/-!
`connect_timeout` of `socket_client`, with the operators of `fcntl_fl`.

The descriptor's status flags and `errno` are the state of a computation that may throw
and then keeps its state. What the system answers is given call by call.
-/

set_option autoImplicit false

namespace Socketxx.ConnectTimeout

open BasePipe (Timeval)
open SelectStop (micros ofMicros)

structure Sys where
  flags : BitVec 32
  errno : Int
  waits : List Timeval
deriving DecidableEq, Repr

def oNonblock : BitVec 32 := 0o4000

def eintr : Int := 4

def etimedout : Int := 110

def einprogress : Int := 115

inductive Error where
  | clientConnectError (what : String) (stdErrno : Int)
  | otherError (what : String) (stdErrno : Int)
deriving DecidableEq, Repr

def Error.stdErrno : Error → Int
  | .clientConnectError _ stdErrno => stdErrno
  | .otherError _ stdErrno => stdErrno

/-- Why a computation does not return: an exception, a `select` that does not return, or a
descriptor that an `fd_set` has no place for. -/
inductive Stop where
  | threw (error : Error)
  | waiting
  | outOfRange
deriving DecidableEq, Repr

abbrev Run := EStateM Stop Sys

/-! ### What the system answers -/

inductive Fcntl where
  | done
  | failed (errno : Int)
deriving DecidableEq, Repr

inductive Connect where
  | connected
  | failed (errno : Int)
deriving DecidableEq, Repr

/-- A failed `select` has waited for some time. -/
inductive Select where
  | writable
  | timedOut
  | failed (errno : Int) (elapsed : Nat)
deriving DecidableEq, Repr

/-- `getsockopt` of `SO_ERROR`. -/
inductive Sockopt where
  | value (error : Int)
  | failed (errno : Int)
deriving DecidableEq, Repr

structure Outcomes where
  getBefore : Fcntl
  setBefore : Fcntl
  connect : Connect
  getAfter : Fcntl
  setAfter : Fcntl
  selects : List Select
  sockopt : Sockopt
deriving DecidableEq, Repr

/-! ### The calls -/

def setErrno (errno : Int) : Run Unit := modify (fun sys => { sys with errno := errno })

/-- The exceptions take `errno` as it is when they are made. -/
def throwConnect {α : Type} (what : String) : Run α := do
  let sys ← get
  throw (.threw (.clientConnectError what sys.errno))

def throwOther {α : Type} (what : String) : Run α := do
  let sys ← get
  throw (.threw (.otherError what sys.errno))

def getFlags : Fcntl → Run (BitVec 32)
  | .done => do
      let sys ← get
      pure sys.flags
  | .failed errno => do
      setErrno errno
      throwOther "Error getting file descriptor's flags with fcntl(F_GETFL)"

def setFlags (flags : BitVec 32) : Fcntl → Run Unit
  | .done => modify (fun sys => { sys with flags := flags })
  | .failed errno => do
      setErrno errno
      throwOther "Error setting file descriptor's flags with fcntl(F_SETFL)"

def orFlags (flags : BitVec 32) (gets sets : Fcntl) : Run Unit := do
  let f ← getFlags gets
  setFlags (f ||| flags) sets

def andFlags (flags : BitVec 32) (gets sets : Fcntl) : Run Unit := do
  let f ← getFlags gets
  setFlags (f &&& flags) sets

def connect : Connect → Run Int
  | .connected => pure 0
  | .failed errno => do
      setErrno errno
      pure (-1)

def getoptSockInt : Sockopt → Run Int
  | .value error => pure error
  | .failed errno => do
      setErrno errno
      throwOther "getsockopt() error"

/-- From the label `redo` on. -/
def redo (fd : Int) (sockopt : Sockopt) : List Select → Timeval → Run Unit
  | selects, timeout => do
      if ¬ InRange fd then throw .outOfRange
      modify (fun sys => { sys with waits := sys.waits ++ [timeout] })
      match selects with
      | [] => throw .waiting
      | .timedOut :: _ => do
          setErrno etimedout
          throwConnect "Can't connect to host"
      | .writable :: _ => do
          let r ← getoptSockInt sockopt
          if r ≠ 0 then
            setErrno r
            throwConnect "Error while connecting to host"
      | .failed errno elapsed :: later => do
          setErrno errno
          let sys ← get
          if sys.errno = eintr then
            redo fd sockopt later (ofMicros (micros timeout - elapsed))
          else throwConnect "Error while connecting to host"

def connectTimeout (fd : Int) (timeout : Timeval) (outcomes : Outcomes) : Run Unit := do
  orFlags oNonblock outcomes.getBefore outcomes.setBefore
  let r ← connect outcomes.connect
  andFlags (~~~oNonblock) outcomes.getAfter outcomes.setAfter
  if r = -1 then
    let sys ← get
    if sys.errno ≠ einprogress then throwConnect "Failed to connect client to host"
    redo fd outcomes.sockopt outcomes.selects timeout

/-- `_socket_client::connect` -/
def connectBlocking (outcome : Connect) : Run Unit := do
  let r ← connect outcome
  if r = -1 then throwConnect "Failed to connect client to host"

/-- The connection that the constructor of `socket_client` makes. -/
def socketClient (fd : Int) (maxWait : Timeval) (outcomes : Outcomes) : Run Unit :=
  if maxWait = BasePipe.timeoutInf then connectBlocking outcomes.connect
  else connectTimeout fd maxWait outcomes

/-! ### What it is to come to -/

/-- The first answer of `select` that is not an interruption. -/
def settled (selects : List Select) : Option Select :=
  selects.find? (fun
    | .failed errno _ => errno ≠ eintr
    | _ => true)

def Outcomes.InProgress (outcomes : Outcomes) : Prop :=
  outcomes.connect = .failed einprogress

/-- `connect` succeeds at once, or is in progress and then succeeds. -/
def Outcomes.Connected (outcomes : Outcomes) : Prop :=
  outcomes.connect = .connected ∨
    outcomes.InProgress ∧ settled outcomes.selects = some .writable ∧
      outcomes.sockopt = .value 0

/-- The error that the exception is to have. -/
inductive Outcomes.Cause (outcomes : Outcomes) : Int → Prop where
  | connect (errno : Int) (failed : outcomes.connect = .failed errno)
      (other : errno ≠ einprogress) : Cause outcomes errno
  | soError (error : Int) (inProgress : outcomes.InProgress)
      (writable : settled outcomes.selects = some .writable)
      (value : outcomes.sockopt = .value error) (nonzero : error ≠ 0) : Cause outcomes error
  | timeout (inProgress : outcomes.InProgress)
      (timedOut : settled outcomes.selects = some .timedOut) : Cause outcomes etimedout
  | select (errno : Int) (elapsed : Nat) (inProgress : outcomes.InProgress)
      (failed : settled outcomes.selects = some (.failed errno elapsed)) : Cause outcomes errno
  | getsockopt (errno : Int) (inProgress : outcomes.InProgress)
      (writable : settled outcomes.selects = some .writable)
      (failed : outcomes.sockopt = .failed errno) : Cause outcomes errno

/-- How a run ends: `none` when it returns. -/
def stopOf {α : Type} : EStateM.Result Stop Sys α → Option Stop
  | .ok _ _ => none
  | .error stop _ => some stop

def sysOf {α : Type} : EStateM.Result Stop Sys α → Sys
  | .ok _ sys => sys
  | .error _ sys => sys

/-- The connection is made or the cause is reported, and the flags are as they were. -/
structure SoundAndRestoring (entry : Sys) (outcomes : Outcomes)
    (ended : EStateM.Result Stop Sys Unit) : Prop where
  returns : stopOf ended = none ↔ outcomes.Connected
  throws : ∀ error, stopOf ended = some (.threw error) → outcomes.Cause error.stdErrno
  otherwise : stopOf ended ≠ none → (∃ error, stopOf ended = some (.threw error)) ∨
    stopOf ended = some .waiting ∧ outcomes.InProgress ∧ settled outcomes.selects = none
  restores : (sysOf ended).flags = entry.flags

/-! ### The loop -/

inductive Settles (sockopt : Sockopt) (flags : BitVec 32) :
    Option Select → EStateM.Result Stop Sys Unit → Prop where
  | waiting (sys : Sys) (kept : sys.flags = flags) :
      Settles sockopt flags none (.error .waiting sys)
  | timedOut (sys : Sys) (kept : sys.flags = flags) :
      Settles sockopt flags (some .timedOut)
        (.error (.threw (.clientConnectError "Can't connect to host" etimedout)) sys)
  | failed (errno : Int) (elapsed : Nat) (sys : Sys) (kept : sys.flags = flags) :
      Settles sockopt flags (some (.failed errno elapsed))
        (.error (.threw (.clientConnectError "Error while connecting to host" errno)) sys)
  | connected (value : sockopt = .value 0) (sys : Sys) (kept : sys.flags = flags) :
      Settles sockopt flags (some .writable) (.ok () sys)
  | soError (error : Int) (value : sockopt = .value error) (nonzero : error ≠ 0) (sys : Sys)
      (kept : sys.flags = flags) : Settles sockopt flags (some .writable)
        (.error (.threw (.clientConnectError "Error while connecting to host" error)) sys)
  | getsockopt (errno : Int) (failed : sockopt = .failed errno) (sys : Sys)
      (kept : sys.flags = flags) : Settles sockopt flags (some .writable)
        (.error (.threw (.otherError "getsockopt() error" errno)) sys)

theorem redo_outside {fd : Int} (outside : ¬ InRange fd) (sockopt : Sockopt)
    (selects : List Select) (timeout : Timeval) (sys : Sys) :
    redo fd sockopt selects timeout sys = .error .outOfRange sys := by
  unfold redo
  rw [if_pos outside]
  rfl

private theorem redo_failed {fd : Int} (inRange : InRange fd) (sockopt : Sockopt) (errno : Int)
    (elapsed : Nat) (later : List Select) (timeout : Timeval) (sys : Sys) :
    redo fd sockopt (.failed errno elapsed :: later) timeout sys =
      (if errno = eintr then redo fd sockopt later (ofMicros (micros timeout - elapsed))
        else throwConnect "Error while connecting to host")
          ⟨sys.flags, errno, sys.waits ++ [timeout]⟩ := by
  rw [redo, if_neg (not_not_intro inRange)]
  rfl

private theorem redo_settles {fd : Int} (inRange : InRange fd) (sockopt : Sockopt)
    (selects : List Select) (timeout : Timeval) (sys : Sys) :
    Settles sockopt sys.flags (settled selects) (redo fd sockopt selects timeout sys) := by
  induction selects generalizing timeout sys with
  | nil =>
      unfold redo
      rw [if_neg (not_not_intro inRange)]
      exact .waiting _ rfl
  | cons answer later ih =>
      cases answer with
      | timedOut =>
          rw [redo, if_neg (not_not_intro inRange)]
          exact .timedOut _ rfl
      | writable =>
          rw [redo, if_neg (not_not_intro inRange)]
          cases sockopt with
          | failed errno => exact .getsockopt errno rfl _ rfl
          | value error =>
              by_cases zero : error = 0
              · subst zero
                exact .connected rfl _ rfl
              · simp only [bind, EStateM.bind, getoptSockInt, pure, EStateM.pure, if_pos zero]
                exact .soError error rfl zero _ rfl
      | failed errno elapsed =>
          rw [redo_failed inRange]
          by_cases again : errno = eintr
          · have skipped : settled (.failed errno elapsed :: later) = settled later := by
              rw [settled, List.find?_cons_of_neg]
              · rfl
              · exact fun other => of_decide_eq_true other again
            rw [if_pos again, skipped]
            exact ih _ ⟨sys.flags, errno, sys.waits ++ [timeout]⟩
          · have first : settled (.failed errno elapsed :: later) =
                some (.failed errno elapsed) := by
              rw [settled, List.find?_cons_of_pos]
              exact decide_eq_true again
            rw [if_neg again, first]
            exact .failed errno elapsed _ rfl

/-! ### The whole call -/

def Outcomes.ChangesFlags (outcomes : Outcomes) : Prop :=
  outcomes.getBefore = .done ∧ outcomes.setBefore = .done ∧ outcomes.getAfter = .done ∧
    outcomes.setAfter = .done

private theorem flags_restored {flags : BitVec 32} (clear : flags &&& oNonblock = 0) :
    (flags ||| oNonblock) &&& ~~~oNonblock = flags := by
  ext i inside
  have bit := congrArg (fun bits => bits[i]) clear
  have zero : (0 : BitVec 32)[i] = false := by simp
  rw [BitVec.getElem_and, zero] at bit
  simp only [BitVec.getElem_and, BitVec.getElem_or, BitVec.getElem_not]
  cases set : flags[i] with
  | false => cases oNonblock[i] <;> rfl
  | true =>
      rw [set, Bool.true_and] at bit
      rw [bit]
      rfl

/-- `connect` is called between the two changes, and the flags are as before behind them. -/
theorem connectTimeout_eq {outcomes : Outcomes} (changes : outcomes.ChangesFlags) {sys : Sys}
    (blocking : sys.flags &&& oNonblock = 0) (fd : Int) (timeout : Timeval) :
    connectTimeout fd timeout outcomes sys =
      match outcomes.connect with
      | .connected => .ok () sys
      | .failed errno =>
          if errno ≠ einprogress then
            .error (.threw (.clientConnectError "Failed to connect client to host" errno))
              { sys with errno := errno }
          else redo fd outcomes.sockopt outcomes.selects timeout { sys with errno := errno } := by
  obtain ⟨getBefore, setBefore, getAfter, setAfter⟩ := changes
  have restored := flags_restored blocking
  unfold connectTimeout
  rw [getBefore, setBefore, getAfter, setAfter]
  cases outcomes.connect with
  | connected =>
      change EStateM.Result.ok ()
        { sys with flags := (sys.flags ||| oNonblock) &&& ~~~oNonblock } = _
      rw [restored]
  | failed errno =>
      change ((do
        if errno ≠ einprogress then throwConnect "Failed to connect client to host"
        redo fd outcomes.sockopt outcomes.selects timeout) : Run Unit)
          ⟨(sys.flags ||| oNonblock) &&& ~~~oNonblock, errno, sys.waits⟩ = _
      rw [restored]
      by_cases failed : errno ≠ einprogress
      · rw [if_pos failed]
        simp only [if_pos failed]
        rfl
      · rw [if_neg failed]
        simp only [if_neg failed]

theorem SoundAndRestoring.of_error {entry sys : Sys} {outcomes : Outcomes} {error : Error}
    (cause : outcomes.Cause error.stdErrno) (apart : ¬ outcomes.Connected)
    (kept : sys.flags = entry.flags) :
    SoundAndRestoring entry outcomes (.error (.threw error) sys) := by
  constructor
  case returns =>
    constructor
    · intro impossible
      cases impossible
    · intro connected
      exact absurd connected apart
  case throws =>
    intro other thrown
    cases thrown
    exact cause
  case otherwise => exact fun _ => Or.inl ⟨error, rfl⟩
  case restores => exact kept

private theorem Outcomes.Connected.of_inProgress {outcomes : Outcomes}
    (connected : outcomes.Connected)
    (inProgress : outcomes.InProgress) :
    settled outcomes.selects = some .writable ∧ outcomes.sockopt = .value 0 := by
  rcases connected with atOnce | later
  · rw [Outcomes.InProgress, atOnce] at inProgress
    cases inProgress
  · exact later.2

private theorem Settles.right {entry : Sys} {outcomes : Outcomes}
    {ended : EStateM.Result Stop Sys Unit} (inProgress : outcomes.InProgress)
    (settles : Settles outcomes.sockopt entry.flags (settled outcomes.selects) ended) :
    SoundAndRestoring entry outcomes ended := by
  have writable : outcomes.Connected → settled outcomes.selects = some .writable :=
    fun connected => (connected.of_inProgress inProgress).1
  have clean : outcomes.Connected → outcomes.sockopt = .value 0 :=
    fun connected => (connected.of_inProgress inProgress).2
  generalize first : settled outcomes.selects = answer at settles
  rw [first] at writable
  cases settles with
  | waiting sys kept =>
      constructor
      case returns =>
        constructor
        · intro impossible
          cases impossible
        · intro connected
          cases writable connected
      case throws =>
        intro error impossible
        cases impossible
      case otherwise => exact fun _ => Or.inr ⟨rfl, inProgress, first⟩
      case restores => exact kept
  | timedOut sys kept =>
      exact .of_error (.timeout inProgress first) (fun connected => by cases writable connected)
        kept
  | failed errno elapsed sys kept =>
      exact .of_error (.select errno elapsed inProgress first)
        (fun connected => by cases writable connected) kept
  | connected value sys kept =>
      constructor
      case returns => exact iff_of_true rfl (Or.inr ⟨inProgress, first, value⟩)
      case throws =>
        intro error impossible
        cases impossible
      case otherwise => exact fun threw => absurd rfl threw
      case restores => exact kept
  | soError error value nonzero sys kept =>
      refine .of_error (.soError error inProgress first value nonzero) ?_ kept
      intro connected
      have zero := clean connected
      rw [value] at zero
      exact nonzero (Sockopt.value.inj zero)
  | getsockopt errno failed sys kept =>
      refine .of_error (.getsockopt errno inProgress first failed) ?_ kept
      intro connected
      have zero := clean connected
      rw [failed] at zero
      cases zero

theorem not_right_of_outOfRange (entry sys : Sys) (outcomes : Outcomes) :
    ¬ SoundAndRestoring entry outcomes (.error .outOfRange sys) := by
  intro right
  rcases right.otherwise (Option.some_ne_none _) with ⟨error, threw⟩ | ⟨waits, _, _⟩
  · cases threw
  · cases waits

theorem socketClient_inf (fd : Int) (outcomes : Outcomes) (sys : Sys) :
    socketClient fd BasePipe.timeoutInf outcomes sys =
      match outcomes.connect with
      | .connected => .ok () sys
      | .failed errno =>
          .error (.threw (.clientConnectError "Failed to connect client to host" errno))
            { sys with errno := errno } := by
  rw [socketClient, if_pos rfl, connectBlocking]
  cases outcomes.connect with
  | connected => rfl
  | failed errno => rfl

/-- `connect_timeout` is as it should be exactly when a set can hold the descriptor, or
`connect` is not in progress. -/
theorem connectTimeout_right_iff {outcomes : Outcomes} (changes : outcomes.ChangesFlags)
    {sys : Sys} (blocking : sys.flags &&& oNonblock = 0) (fd : Int) (timeout : Timeval) :
    SoundAndRestoring sys outcomes (connectTimeout fd timeout outcomes sys) ↔
      InRange fd ∨ ¬ outcomes.InProgress := by
  rw [connectTimeout_eq changes blocking]
  cases connected : outcomes.connect with
  | connected =>
      have apart : ¬ outcomes.InProgress := by
        rw [Outcomes.InProgress, connected]
        intro impossible
        cases impossible
      refine iff_of_true ?_ (Or.inr apart)
      constructor
      case returns => exact iff_of_true rfl (Or.inl connected)
      case throws =>
        intro error impossible
        cases impossible
      case otherwise => exact fun threw => absurd rfl threw
      case restores => rfl
  | failed errno =>
      by_cases failed : errno ≠ einprogress
      · have apart : ¬ outcomes.InProgress := by
          rw [Outcomes.InProgress, connected]
          exact fun same => failed (Connect.failed.inj same)
        refine iff_of_true ?_ (Or.inr apart)
        simp only [if_pos failed]
        refine .of_error (.connect errno connected failed) ?_ rfl
        intro established
        rcases established with atOnce | later
        · rw [connected] at atOnce
          cases atOnce
        · exact apart later.1
      · have inProgress : outcomes.InProgress := by
          rw [Outcomes.InProgress, connected, not_not.mp failed]
        simp only [if_neg failed]
        constructor
        · intro right
          by_contra outside
          rw [not_or] at outside
          rw [redo_outside outside.1] at right
          exact not_right_of_outOfRange _ _ _ right
        · intro holds
          have inRange := holds.resolve_right (not_not_intro inProgress)
          exact Settles.right inProgress
            (redo_settles inRange _ _ timeout { sys with errno := errno })

def interruptedOnce : Outcomes where
  getBefore := .done
  setBefore := .done
  connect := .failed einprogress
  getAfter := .done
  setAfter := .done
  selects := [.failed eintr 1000, .writable]
  sockopt := .value 0

theorem interruptedOnce_right :
    SoundAndRestoring ⟨2, 0, []⟩ interruptedOnce
        (connectTimeout 3 ⟨2, 0⟩ interruptedOnce ⟨2, 0, []⟩) ↔
      InRange 3 ∨ ¬ interruptedOnce.InProgress :=
  connectTimeout_right_iff ⟨rfl, rfl, rfl, rfl⟩ rfl 3 ⟨2, 0⟩

/-- A descriptor that a set has no place for. -/
theorem connectTimeout_1024 :
    connectTimeout 1024 ⟨2, 0⟩ interruptedOnce ⟨2, 0, []⟩ =
        .error .outOfRange ⟨2, einprogress, []⟩ ∧
      ¬ SoundAndRestoring ⟨2, 0, []⟩ interruptedOnce
        (connectTimeout 1024 ⟨2, 0⟩ interruptedOnce ⟨2, 0, []⟩) := by
  have outside : ¬ InRange 1024 := fun inside => Int.lt_irrefl 1024 inside.2
  have ended : connectTimeout 1024 ⟨2, 0⟩ interruptedOnce ⟨2, 0, []⟩ =
      .error .outOfRange ⟨2, einprogress, []⟩ := by
    rw [connectTimeout_eq ⟨rfl, rfl, rfl, rfl⟩ rfl]
    exact redo_outside outside _ _ _ _
  refine ⟨ended, ?_⟩
  rw [ended]
  exact not_right_of_outOfRange _ _ _

end Socketxx.ConnectTimeout
