import Socketxx.FdSet
import Socketxx.FixedRead
import Mathlib.Data.Nat.Bitwise

/-!
`base_pipe`: the check its constructors make, and the strict read of a pipe, whose every
`read` waits in `select` first unless the timeout is `TIMEOUT_INF`.

What the system answers is given call by call. Once the answers are used up, the call
made next does not return.
-/

set_option autoImplicit false

namespace Socketxx.BasePipe

open FixedRead (Answer Call)

structure Timeval where
  tvSec : Int
  tvUsec : Int
deriving DecidableEq, Repr

def timeoutInf : Timeval := ⟨-1, 0⟩

/-- What `select` returns, and the time it leaves in its argument. -/
inductive SelectAnswer where
  | ready (left : Timeval)
  | interrupted (left : Timeval)
  | error
  | timedOut
deriving DecidableEq, Repr

inductive Waited where
  | ready (tm : Timeval) (later : List SelectAnswer)
  | ioError (ret : Int)
  | waiting
  | outOfRange
deriving DecidableEq, Repr

/-- `_pipe_select_wait`, which goes back to `select_redo` after an `EINTR`. -/
def pipeSelectWait (fd : Int) (selects : List SelectAnswer) : Waited :=
  match fdSet fd [] with
  | none => .outOfRange
  | some _selectSet =>
      match selects with
      | [] => .waiting
      | .ready left :: later => .ready left later
      | .interrupted _ :: later => pipeSelectWait fd later
      | .error :: _ => .ioError (-1)
      | .timedOut :: _ => .ioError (-1)

inductive Ending where
  | returned
  | ioError (ret : Int)
  | waiting
  | outOfRange
deriving DecidableEq, Repr

structure PipeRead where
  calls : List Call
  stored : List UInt8
  ending : Ending
  left : FixedRead.Incoming
deriving DecidableEq, Repr

def PipeRead.after (call : Call) (read : PipeRead) : PipeRead :=
  { read with calls := call :: read.calls }

/-- The loop of `_ifix_pipe`, `len` bytes being still missing behind those stored. -/
def ifixPipe (fd : Int) (len : UInt64) (tm : Timeval) (stored stream : List UInt8)
    (selects : List SelectAnswer) (reads : List Answer) : PipeRead :=
  if len = 0 then ⟨[], stored, .returned, ⟨stream, reads⟩⟩
  else
    match if tm ≠ timeoutInf then pipeSelectWait fd selects else .ready tm selects with
    | .waiting => ⟨[], stored, .waiting, ⟨stream, reads⟩⟩
    | .outOfRange => ⟨[], stored, .outOfRange, ⟨stream, reads⟩⟩
    | .ioError ret => ⟨[], stored, .ioError ret, ⟨stream, reads⟩⟩
    | .ready tm selects =>
        match reads with
        | [] => ⟨[⟨stored.length, len, len.toNat, 0⟩], stored, .waiting, ⟨stream, []⟩⟩
        | answer :: later =>
            let data := answer.data len.toNat stream
            let r := answer.result len.toNat stream
            let call : Call := ⟨stored.length, len, len.toNat, data.length⟩
            if r ≤ 0 then
              ⟨[call], stored ++ data, .ioError r, ⟨stream.drop data.length, later⟩⟩
            else
              (ifixPipe fd (len - UInt64.ofNat data.length) tm (stored ++ data)
                (stream.drop data.length) selects later).after call

structure Incoming where
  stream : List UInt8
  selects : List SelectAnswer
  reads : List Answer

/-- What the answers of `select` come to, whatever the descriptor. -/
def await (tm : Timeval) (selects : List SelectAnswer) : Waited :=
  if tm ≠ timeoutInf then waited selects else .ready tm selects
where
  waited : List SelectAnswer → Waited
    | [] => .waiting
    | .ready left :: later => .ready left later
    | .interrupted _ :: later => waited later
    | .error :: _ => .ioError (-1)
    | .timedOut :: _ => .ioError (-1)

/-- What a `read` that asks for enough gets. -/
def offered (stream : List UInt8) : Answer → Nat
  | .ready size => min size stream.length
  | .closed => 0
  | .error => 0

/-- How many bytes can be obtained before an end of stream, an error or a timeout. -/
def obtainable (tm : Timeval) (stream : List UInt8) (selects : List SelectAnswer) :
    List Answer → Nat
  | [] => 0
  | answer :: later =>
      match await tm selects with
      | .waiting | .outOfRange | .ioError _ => 0
      | .ready tm selects =>
          if offered stream answer = 0 then 0
          else
            offered stream answer +
              obtainable tm (stream.drop (offered stream answer)) selects later

/-- Whether the bytes end by a failure, and not by a call that does not return. -/
def fails (tm : Timeval) (stream : List UInt8) (selects : List SelectAnswer)
    (reads : List Answer) : Bool :=
  match await tm selects with
  | .waiting | .outOfRange => false
  | .ioError _ => true
  | .ready tm selects =>
      match reads with
      | [] => false
      | answer :: later =>
          if offered stream answer = 0 then true
          else fails tm (stream.drop (offered stream answer)) selects later

/-! ### One round of the loop -/

theorem data_eq_take (len : Nat) (stream : List UInt8) (answer : Answer) :
    answer.data len stream = stream.take (min len (offered stream answer)) := by
  cases answer with
  | ready size =>
      rw [Answer.data, offered, Int.toNat_natCast, List.take_eq_take_iff]
      omega
  | closed => simp [Answer.data, offered]
  | error => simp [Answer.data, offered]

theorem offered_le (stream : List UInt8) (answer : Answer) :
    offered stream answer ≤ stream.length := by
  cases answer with
  | ready size => exact Nat.min_le_right size stream.length
  | closed => exact Nat.zero_le _
  | error => exact Nat.zero_le _

theorem data_length (len : Nat) (stream : List UInt8) (answer : Answer) :
    (answer.data len stream).length = min len (offered stream answer) := by
  have within := offered_le stream answer
  rw [data_eq_take, List.length_take]
  omega

theorem result_le_zero_iff {len : Nat} (missing : len ≠ 0) (stream : List UInt8)
    (answer : Answer) : answer.result len stream ≤ 0 ↔ offered stream answer = 0 := by
  have nothing := Answer.result_lt_one_iff len stream answer
  rw [data_length] at nothing
  constructor
  · intro failed
    have zero := nothing.mp (by omega)
    omega
  · intro zero
    have failed := nothing.mpr (by omega)
    omega

variable {fd : Int} {len : UInt64} {tm tm' : Timeval} {stored stream : List UInt8}
  {selects selects' : List SelectAnswer} {answer : Answer} {later : List Answer}

/-- No `select` is called, or with a set that has a bit for the descriptor. -/
def Served (fd : Int) (tm : Timeval) : Prop := tm = timeoutInf ∨ InRange fd

private theorem pipeSelectWait_eq (inRange : InRange fd) (selects : List SelectAnswer) :
    pipeSelectWait fd selects = await.waited selects := by
  induction selects with
  | nil =>
      rw [pipeSelectWait.eq_def, fdSet_inRange inRange]
      rfl
  | cons answer later ih =>
      rw [pipeSelectWait.eq_def, fdSet_inRange inRange]
      cases answer with
      | interrupted left => exact ih
      | ready left => rfl
      | error => rfl
      | timedOut => rfl

private theorem pipeSelectWait_outside (outside : ¬ InRange fd) (selects : List SelectAnswer) :
    pipeSelectWait fd selects = .outOfRange := by
  rw [pipeSelectWait.eq_def, (fdSet_none_iff fd []).mpr outside]

theorem Served.wait_eq (served : Served fd tm) (selects : List SelectAnswer) :
    (if tm ≠ timeoutInf then pipeSelectWait fd selects else .ready tm selects) =
      await tm selects := by
  rw [await]
  by_cases finite : tm ≠ timeoutInf
  · rw [if_pos finite, if_pos finite]
    exact pipeSelectWait_eq (served.resolve_left finite) selects
  · rw [if_neg finite, if_neg finite]

private theorem Served.next (served : Served fd tm)
    (waited : await tm selects = .ready tm' selects') :
    Served fd tm' := by
  rcases served with inf | inRange
  · rw [await, if_neg (not_not_intro inf)] at waited
    cases waited
    exact Or.inl inf
  · exact Or.inr inRange

theorem toNat_ne_zero (missing : len ≠ 0) : len.toNat ≠ 0 := by
  intro zero
  exact missing (UInt64.toNat_inj.mp zero)

private theorem ifixPipe_failed (served : Served fd tm) (missing : len ≠ 0)
    (waited : await tm selects = .ready tm' selects')
    (nothing : offered stream answer = 0) :
    ∃ ret, ifixPipe fd len tm stored stream selects (answer :: later) =
      ⟨[⟨stored.length, len, len.toNat, 0⟩], stored, .ioError ret, ⟨stream, later⟩⟩ := by
  have failed := (result_le_zero_iff (toNat_ne_zero missing) stream answer).mpr nothing
  have data := data_eq_take len.toNat stream answer
  rw [nothing, Nat.min_zero, List.take_zero] at data
  rw [ifixPipe, if_neg missing, served.wait_eq, waited]
  simp only [if_pos failed, data, List.append_nil, List.length_nil, List.drop_zero]
  exact ⟨_, rfl⟩

private theorem ifixPipe_round (served : Served fd tm) (missing : len ≠ 0)
    (waited : await tm selects = .ready tm' selects') (some : offered stream answer ≠ 0) :
    ifixPipe fd len tm stored stream selects (answer :: later) =
      (ifixPipe fd (len - UInt64.ofNat (min len.toNat (offered stream answer))) tm'
        (stored ++ stream.take (min len.toNat (offered stream answer)))
        (stream.drop (min len.toNat (offered stream answer))) selects' later).after
          ⟨stored.length, len, len.toNat, min len.toNat (offered stream answer)⟩ := by
  have passed := (result_le_zero_iff (toNat_ne_zero missing) stream answer).not.mpr some
  rw [ifixPipe, if_neg missing, served.wait_eq, waited]
  simp only [if_neg passed, data_length]
  rw [data_eq_take]

private theorem toNat_sub_count {count : Nat} (fits : count ≤ len.toNat) :
    (len - UInt64.ofNat count).toNat = len.toNat - count := by
  have bound := len.toNat_lt
  have number : (UInt64.ofNat count).toNat = count := by
    rw [UInt64.toNat_ofNat']
    omega
  rw [UInt64.toNat_sub_of_le _ _ (by rw [UInt64.le_iff_toNat_le, number]; exact fits), number]

/-! ### Whole runs -/

structure Exactly (len : Nat) (available : Nat) (failed : Bool) (stored stream : List UInt8)
    (read : PipeRead) : Prop where
  returned : read.ending = .returned ↔ len ≤ available
  ioError : (∃ ret, read.ending = .ioError ret) ↔ available < len ∧ failed = true
  whole : read.ending = .returned → read.stored.length = stored.length + len
  bytes : read.stored ++ read.left.stream = stored ++ stream
  calls : ∀ call ∈ read.calls, call.request ≤ (stored.length + len : Nat) - call.offset ∧
    call.offset + call.got ≤ stored.length + len ∧ call.got ≤ call.rest.toNat

private theorem Exactly.after {available more : Nat} {failed : Bool} {count : Nat} {call : Call}
    {read : PipeRead} {rest : Nat}
    (inner : Exactly rest more failed (stored ++ stream.take count) (stream.drop count) read)
    (length : (stream.take count).length = count) (split : len.toNat = rest + count)
    (most : len.toNat ≤ available ↔ rest ≤ more)
    (isCall : call = ⟨stored.length, len, len.toNat, count⟩) :
    Exactly len.toNat available failed stored stream (read.after call) := by
  have total : (stored ++ stream.take count).length + rest = stored.length + len.toNat := by
    rw [List.length_append, length]
    omega
  constructor
  case returned => exact inner.returned.trans most.symm
  case ioError =>
    apply inner.ioError.trans
    have opposite : more < rest ↔ available < len.toNat := by
      rw [← Nat.not_le, ← Nat.not_le]
      exact not_congr most.symm
    rw [opposite]
  case whole =>
    intro done
    exact (inner.whole done).trans total
  case bytes =>
    apply inner.bytes.trans
    rw [List.append_assoc, List.take_append_drop]
  case calls =>
    intro other member
    rcases List.mem_cons.mp member with rfl | earlier
    · subst isCall
      refine ⟨?_, ?_, ?_⟩
      · simp only
        omega
      · simp only
        omega
      · simp only
        omega
    · have within := inner.calls other earlier
      rwa [total] at within

private theorem Exactly.stopped {failed : Bool} {calls : List Call} {ending : Ending}
    {left : FixedRead.Incoming} (missing : len ≠ 0) (stopped : ending ≠ .returned)
    (kind : (∃ ret, ending = .ioError ret) ↔ failed = true)
    (calls_eq : ∀ call ∈ calls, call = ⟨stored.length, len, len.toNat, 0⟩)
    (left_eq : left.stream = stream) :
    Exactly len.toNat 0 failed stored stream ⟨calls, stored, ending, left⟩ := by
  have positive : 0 < len.toNat := Nat.pos_of_ne_zero (toNat_ne_zero missing)
  constructor
  case returned => exact iff_of_false stopped (Nat.not_le_of_lt positive)
  case ioError => exact kind.trans (and_iff_right positive).symm
  case whole =>
    intro done
    exact absurd done stopped
  case bytes => rw [left_eq]
  case calls =>
    intro call member
    rw [calls_eq call member]
    refine ⟨?_, ?_, ?_⟩
    · simp only
      omega
    · exact Nat.le_add_right stored.length len.toNat
    · exact Nat.zero_le _

theorem Exactly.nothing {available : Nat} {failed : Bool} {left : FixedRead.Incoming}
    (left_eq : left.stream = stream) :
    Exactly 0 available failed stored stream ⟨[], stored, .returned, left⟩ := by
  constructor
  case returned => exact iff_of_true rfl (Nat.zero_le _)
  case ioError =>
    apply iff_of_false
    · intro thrown
      obtain ⟨ret, impossible⟩ := thrown
      cases impossible
    · intro less
      exact Nat.not_lt_zero _ less.1
  case whole =>
    intro _done
    rfl
  case bytes => rw [left_eq]
  case calls =>
    intro call member
    cases member

/-- By induction on the answers of `read`: the round that gets something leaves the same
question about the rest, every other one ends the call. -/
private theorem ifixPipe_exactly (served : Served fd tm) (len : UInt64) (stored stream : List UInt8)
    (selects : List SelectAnswer) (reads : List Answer) :
    Exactly len.toNat (obtainable tm stream selects reads) (fails tm stream selects reads)
      stored stream (ifixPipe fd len tm stored stream selects reads) := by
  induction reads generalizing len tm stored stream selects with
  | nil =>
      by_cases missing : len = 0
      · rw [ifixPipe, if_pos missing, missing]
        exact Exactly.nothing rfl
      · rw [ifixPipe, if_neg missing, served.wait_eq, fails, obtainable]
        cases await tm selects with
        | waiting => exact Exactly.stopped missing (by simp) (by simp) (by simp) rfl
        | outOfRange => exact Exactly.stopped missing (by simp) (by simp) (by simp) rfl
        | ioError ret => exact Exactly.stopped missing (by simp) (by simp) (by simp) rfl
        | ready tm selects => exact Exactly.stopped missing (by simp) (by simp) (by simp) rfl
  | cons answer later ih =>
      by_cases missing : len = 0
      · rw [ifixPipe, if_pos missing, missing]
        exact Exactly.nothing rfl
      · cases waited : await tm selects with
        | waiting =>
            rw [ifixPipe, if_neg missing, served.wait_eq, fails, obtainable, waited]
            exact Exactly.stopped missing (by simp) (by simp) (by simp) rfl
        | outOfRange =>
            rw [ifixPipe, if_neg missing, served.wait_eq, fails, obtainable, waited]
            exact Exactly.stopped missing (by simp) (by simp) (by simp) rfl
        | ioError ret =>
            rw [ifixPipe, if_neg missing, served.wait_eq, fails, obtainable, waited]
            exact Exactly.stopped missing (by simp) (by simp) (by simp) rfl
        | ready tm' selects' =>
            rw [fails, obtainable, waited]
            by_cases nothing : offered stream answer = 0
            · obtain ⟨ret, failed⟩ := @ifixPipe_failed fd len tm tm' stored stream selects
                selects' answer later served missing waited nothing
              rw [failed]
              simp only [if_pos nothing]
              exact Exactly.stopped missing (by simp) (by simp) (by simp) rfl
            · rw [ifixPipe_round served missing waited nothing]
              simp only [if_neg nothing]
              by_cases enough : len.toNat ≤ offered stream answer
              · have zero : len - UInt64.ofNat len.toNat = 0 := by
                  rw [UInt64.ofNat_toNat, UInt64.sub_self]
                have rest : Exactly 0 0 (fails tm' (stream.drop (offered stream answer)) selects'
                    later) (stored ++ stream.take len.toNat) (stream.drop len.toNat)
                    ⟨[], stored ++ stream.take len.toNat, .returned,
                      ⟨stream.drop len.toNat, later⟩⟩ := Exactly.nothing rfl
                rw [Nat.min_eq_left enough, zero, ifixPipe, if_pos rfl]
                apply rest.after _ (Nat.zero_add _).symm _ rfl
                · exact List.length_take_of_le (Nat.le_trans enough (offered_le stream answer))
                · omega
              · have less := Nat.le_of_not_le enough
                have rest := ih (served.next waited)
                  (len - UInt64.ofNat (offered stream answer))
                  (stored ++ stream.take (offered stream answer))
                  (stream.drop (offered stream answer)) selects'
                rw [Nat.min_eq_right less]
                rw [toNat_sub_count less] at rest
                apply rest.after _ _ _ rfl
                · exact List.length_take_of_le (offered_le stream answer)
                · omega
                · omega

/-- What a strict read of a pipe comes to: it returns exactly when `len` bytes can be had before
a failure, with the first `len` bytes of the stream; no `read` asks for more than is missing, and
what has been taken off the stream is what is stored, however the call ends. -/
def ReadsExactly (fd : Int) (len : UInt64) (tm : Timeval) (incoming : Incoming) : Prop :=
  let available := obtainable tm incoming.stream incoming.selects incoming.reads
  let read := ifixPipe fd len tm [] incoming.stream incoming.selects incoming.reads
  (read.ending = .returned ↔ len.toNat ≤ available) ∧
    ((∃ ret, read.ending = .ioError ret) ↔ available < len.toNat ∧
      fails tm incoming.stream incoming.selects incoming.reads = true) ∧
    (read.ending = .returned → read.stored = incoming.stream.take len.toNat ∧
      read.stored.length = len.toNat ∧ read.left.stream = incoming.stream.drop len.toNat) ∧
    read.stored ++ read.left.stream = incoming.stream ∧
    FixedRead.Exact len read.calls

private theorem readsExactly (len : UInt64) (incoming : Incoming)
    (exactly : Exactly len.toNat (obtainable tm incoming.stream incoming.selects incoming.reads)
      (fails tm incoming.stream incoming.selects incoming.reads) [] incoming.stream
      (ifixPipe fd len tm [] incoming.stream incoming.selects incoming.reads)) :
    ReadsExactly fd len tm incoming := by
  refine ⟨exactly.returned, exactly.ioError, ?_, exactly.bytes, ?_⟩
  · intro done
    have size := exactly.whole done
    rw [List.length_nil, Nat.zero_add] at size
    have split := exactly.bytes
    rw [List.nil_append] at split
    have first := congrArg (List.take len.toNat) split
    have left := congrArg (List.drop len.toNat) split
    rw [List.take_left' size] at first
    rw [List.drop_left' size] at left
    exact ⟨first, size, left⟩
  · intro call member
    have within := exactly.calls call member
    rwa [List.length_nil, Nat.zero_add] at within

def wholeAtOnce (len : UInt64) : Incoming :=
  ⟨List.replicate len.toNat 0, [.ready timeoutInf], [.ready len.toNat]⟩

theorem not_readsExactly (finite : tm ≠ timeoutInf) (missing : len ≠ 0) (outside : ¬ InRange fd) :
    ¬ ReadsExactly fd len tm (wholeAtOnce len) := by
  have positive : 0 < len.toNat := Nat.pos_of_ne_zero (toNat_ne_zero missing)
  have all : offered (wholeAtOnce len).stream (.ready len.toNat) = len.toNat := by
    rw [offered, wholeAtOnce, List.length_replicate, Nat.min_self]
  have available : len.toNat ≤ obtainable tm (wholeAtOnce len).stream (wholeAtOnce len).selects
      (wholeAtOnce len).reads := by
    change len.toNat ≤ obtainable tm _ [.ready timeoutInf] [.ready len.toNat]
    rw [obtainable, await, if_pos finite, await.waited]
    simp only [all, if_neg (Nat.ne_of_gt positive)]
    exact Nat.le_add_right _ _
  intro exactly
  have returned := exactly.1.mpr available
  rw [ifixPipe, if_neg missing, if_pos finite, pipeSelectWait_outside outside] at returned
  cases returned

/-- `_ifix_pipe` is exact whatever comes in, if and only if nothing is asked for, or there is no
timeout, or an `fd_set` has a bit for the descriptor. -/
theorem ifixPipe_exact_iff (fd : Int) (len : UInt64) (tm : Timeval) :
    (∀ incoming, ReadsExactly fd len tm incoming) ↔
      len = 0 ∨ tm = timeoutInf ∨ InRange fd := by
  constructor
  · intro exactly
    by_contra not
    obtain ⟨missing, not⟩ := not_or.mp not
    obtain ⟨finite, outside⟩ := not_or.mp not
    exact not_readsExactly finite missing outside (exactly (wholeAtOnce len))
  · intro fine incoming
    apply readsExactly
    rcases fine with zero | served
    · rw [ifixPipe, if_pos zero, zero]
      exact Exactly.nothing rfl
    · exact ifixPipe_exactly served len [] incoming.stream incoming.selects incoming.reads

/-- The byte is there, and the call does not return. -/
theorem ifixPipe_1024 :
    (ifixPipe 1024 1 ⟨2, 0⟩ [] (wholeAtOnce 1).stream (wholeAtOnce 1).selects
        (wholeAtOnce 1).reads).ending = .outOfRange ∧
      ¬ ReadsExactly 1024 1 ⟨2, 0⟩ (wholeAtOnce 1) :=
  ⟨by decide, not_readsExactly (by decide) (by decide) (by decide)⟩

/-! ### The ends of a pipe -/

inductive Rw where
  | read
  | write
deriving DecidableEq, Repr

inductive Exception where
  | otherError (what : String)
  | error (what : String)
  | logicError (what : String)
deriving DecidableEq, Repr

def sIsfifo (mode : UInt32) : Bool := mode &&& 0o170000 == 0o010000

def sIrusr : UInt32 := 0o400

/-- `_check_pipe`, with what `fstat` finds out about a descriptor. The truth value of
`rw == rw_t::READ` is compared as a number. -/
def checkPipe (fstat : Int → Option UInt32) (fd : Int) (rw : Rw) : Except Exception Unit :=
  match fstat fd with
  | none => .error (.otherError "Error querying file descriptor type with fstat()")
  | some fdMode =>
      if !sIsfifo fdMode then .error (.error "File descriptor is not a pipe")
      else if fdMode &&& sIrusr ≠ (if rw = .read then 1 else 0) then
        .error (.error "Pipe end mode incompatible with specified rw_t")
      else .ok ()

structure Pipe (rw : Rw) where
  fd : Int
  timeout : Timeval

def Pipe.ofHandle (fstat : Int → Option UInt32) (rw : Rw) (handle : Int) :
    Except Exception (Pipe rw) := do
  checkPipe fstat handle rw
  pure ⟨handle, timeoutInf⟩

def Pipe.ofBaseFd (fstat : Int → Option UInt32) (rw : Rw) (base : Int) :
    Except Exception (Pipe rw) := do
  checkPipe fstat base rw
  pure ⟨base, timeoutInf⟩

def Pipe.iFixsize {rw : Rw} (pipe : Pipe rw) (len : UInt64) (incoming : Incoming) :
    Except Exception PipeRead :=
  if rw ≠ .read then .error (.logicError "pipe end not readable")
  else .ok (ifixPipe pipe.fd len pipe.timeout [] incoming.stream incoming.selects incoming.reads)

structure Fifo where
  fstat : Int → Option UInt32
  fd : Int
  mode : UInt32
  reported : fstat fd = some mode
  isFifo : sIsfifo mode = true

def Fifo.Constructs (fifo : Fifo) (rw : Rw) : Prop :=
  Pipe.ofHandle fifo.fstat rw fifo.fd = .ok ⟨fifo.fd, timeoutInf⟩ ∧
    Pipe.ofBaseFd fifo.fstat rw fifo.fd = .ok ⟨fifo.fd, timeoutInf⟩

def Fifo.Refuses (fifo : Fifo) (rw : Rw) : Prop :=
  Pipe.ofHandle fifo.fstat rw fifo.fd =
      .error (.error "Pipe end mode incompatible with specified rw_t") ∧
    Pipe.ofBaseFd fifo.fstat rw fifo.fd =
      .error (.error "Pipe end mode incompatible with specified rw_t")

structure Fifo.OneDirection (fifo : Fifo) : Prop where
  readable : fifo.mode &&& sIrusr ≠ 0 → fifo.Constructs .read ∧ fifo.Refuses .write
  writable : fifo.mode &&& sIrusr = 0 → fifo.Constructs .write ∧ fifo.Refuses .read

private theorem and_sIrusr_ne_one (mode : UInt32) : mode &&& sIrusr ≠ 1 := by
  intro same
  have numbers := congrArg UInt32.toNat same
  rw [UInt32.toNat_and] at numbers
  change mode.toNat &&& 2 ^ 8 = 1 at numbers
  rw [Nat.and_two_pow] at numbers
  omega

theorem Fifo.checkPipe_eq (fifo : Fifo) (rw : Rw) :
    checkPipe fifo.fstat fifo.fd rw =
      if fifo.mode &&& sIrusr ≠ (if rw = .read then 1 else 0) then
        .error (.error "Pipe end mode incompatible with specified rw_t")
      else .ok () := by
  rw [checkPipe, fifo.reported]
  simp only [fifo.isFifo, Bool.not_true, Bool.false_eq_true, if_false]

theorem Fifo.refuses_of_ne (fifo : Fifo) {rw : Rw}
    (other : fifo.mode &&& sIrusr ≠ (if rw = .read then 1 else 0)) : fifo.Refuses rw := by
  have check := fifo.checkPipe_eq rw
  rw [if_pos other] at check
  constructor
  · rw [Pipe.ofHandle, check]
    rfl
  · rw [Pipe.ofBaseFd, check]
    rfl

theorem Fifo.refuses_read (fifo : Fifo) : fifo.Refuses .read :=
  fifo.refuses_of_ne (and_sIrusr_ne_one fifo.mode)

private theorem Fifo.constructs_write (fifo : Fifo) (clear : fifo.mode &&& sIrusr = 0) :
    fifo.Constructs .write := by
  have check := fifo.checkPipe_eq .write
  rw [clear] at check
  constructor
  · rw [Pipe.ofHandle, check]
    rfl
  · rw [Pipe.ofBaseFd, check]
    rfl

/-- A pipe is usable in the direction its mode tells exactly when the owner cannot read
it; a readable end is never made, and `_i_fixsize` of the other kind throws. -/
theorem Fifo.oneDirection_iff (fifo : Fifo) :
    (fifo.OneDirection ↔ fifo.mode &&& sIrusr = 0) ∧ fifo.Refuses .read ∧
      ∀ (pipe : Pipe .write) (len : UInt64) (incoming : Incoming),
        pipe.iFixsize len incoming = .error (.logicError "pipe end not readable") := by
  refine ⟨?_, fifo.refuses_read, ?_⟩
  · constructor
    · intro direction
      by_contra readable
      have made := (direction.readable readable).1.1
      rw [fifo.refuses_read.1] at made
      cases made
    · intro clear
      constructor
      case readable =>
        intro readable
        exact absurd clear readable
      case writable =>
        intro _clear
        exact ⟨fifo.constructs_write clear, fifo.refuses_read⟩
  · intro pipe len incoming
    rfl

def ownPipe : Fifo where
  fstat := fun _ => some 0o010600
  fd := 3
  mode := 0o010600
  reported := rfl
  isFifo := by decide

theorem ownPipe_unusable :
    ¬ ownPipe.OneDirection ∧ ownPipe.Refuses .read ∧ ownPipe.Refuses .write := by
  refine ⟨?_, ownPipe.refuses_read, ownPipe.refuses_of_ne (by decide)⟩
  intro direction
  have made := (direction.readable (by decide)).1.1
  rw [ownPipe.refuses_read.1] at made
  cases made

end Socketxx.BasePipe
