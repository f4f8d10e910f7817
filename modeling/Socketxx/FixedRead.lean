import Socketxx.SimpleSocket

/-!
The strict reads `_i_fixsize` of `base_fd`, `base_socket` and `base_ssl`.

The three copies of the loop differ in the count they hand to the system and in the
results they take for a failure. Each keeps a trace of its calls, with the place its
data pointer has reached, so that what a call asks for can be compared with what is
still missing.
-/

set_option autoImplicit false

namespace Socketxx.FixedRead

inductive Answer where
  | ready (size : Nat)
  | closed
  | error
deriving DecidableEq, Repr

structure Incoming where
  stream : List UInt8
  answers : List Answer
deriving DecidableEq, Repr

/-- What a call that asks for `request` bytes stores. -/
def Answer.data (request : Int) (stream : List UInt8) : Answer → List UInt8
  | .ready size => stream.take (min size request.toNat)
  | .closed => []
  | .error => []

/-- What it returns: `SSL_read` refuses a negative count. -/
def Answer.result (request : Int) (stream : List UInt8) : Answer → Int
  | .ready size =>
      if request < 0 then -1 else ((Answer.ready size).data request stream).length
  | .closed => 0
  | .error => -1

/-- One call: where `data` points, the bytes still missing, the count asked for and the
number of bytes stored. -/
structure Call where
  offset : Nat
  rest : UInt64
  request : Int
  got : Nat
deriving DecidableEq, Repr

inductive Ending where
  | returned
  | ioError (ret : Int)
  | waiting
deriving DecidableEq, Repr

structure StrictRead where
  calls : List Call
  stored : List UInt8
  ending : Ending
  left : Incoming
deriving DecidableEq, Repr

def StrictRead.after (call : Call) (read : StrictRead) : StrictRead :=
  { read with calls := call :: read.calls }

def readLoop (request : Int) (failed : Int → Bool) (rest : UInt64)
    (stored stream : List UInt8) : List Answer → StrictRead
  | [] =>
      if rest = 0 then ⟨[], stored, .returned, ⟨stream, []⟩⟩
      else ⟨[⟨stored.length, rest, request, 0⟩], stored, .waiting, ⟨stream, []⟩⟩
  | answer :: later =>
      if rest = 0 then ⟨[], stored, .returned, ⟨stream, answer :: later⟩⟩
      else
        let data := answer.data request stream
        let r := answer.result request stream
        let call : Call := ⟨stored.length, rest, request, data.length⟩
        if failed r then
          ⟨[call], stored ++ data, .ioError r, ⟨stream.drop data.length, later⟩⟩
        else
          (readLoop request failed (rest - UInt64.ofNat data.length) (stored ++ data)
            (stream.drop data.length) later).after call

/-- The body the three copies share. -/
def strictRead (request : Int) (failed failedAgain : Int → Bool) (len : UInt64)
    (incoming : Incoming) : StrictRead :=
  match incoming.answers with
  | [] => ⟨[⟨0, len, request, 0⟩], [], .waiting, incoming⟩
  | answer :: later =>
      let data := answer.data request incoming.stream
      let r := answer.result request incoming.stream
      let call : Call := ⟨0, len, request, data.length⟩
      let left := incoming.stream.drop data.length
      if failed r then ⟨[call], data, .ioError r, ⟨left, later⟩⟩
      else if data.length < len.toNat then
        (readLoop request failedAgain (len - UInt64.ofNat data.length) data left later).after
          call
      else ⟨[call], data, .returned, ⟨left, later⟩⟩

def fdFixsize (len : UInt64) (incoming : Incoming) : StrictRead :=
  strictRead len.toNat (fun r => r ≤ 0) (fun r => r ≤ 1) len incoming

/-- `base_socket::_i_fixsize` where there is no `MSG_WAITALL`. -/
def socketFixsize (len : UInt64) (incoming : Incoming) : StrictRead :=
  strictRead len.toNat (fun r => r < 1) (fun r => r < 1) len incoming

def cInt (len : UInt64) : Int := (BitVec.ofNat 32 len.toNat).toInt

/-- `base_ssl::_i_fixsize_ssl`, whose reads go through `_i_ssl`. -/
def sslFixsize (len : UInt64) (incoming : Incoming) : StrictRead :=
  strictRead (cInt len) (fun r => r < 1) (fun r => r < 1) len incoming

/-- `base_socket::_i_fixsize` with `MSG_WAITALL`: one call, and no loop. -/
def socketFixsizeWaitall (len : UInt64) (incoming : Incoming) : StrictRead :=
  match incoming.answers with
  | [] => ⟨[⟨0, len, len.toNat, 0⟩], [], .waiting, incoming⟩
  | answer :: later =>
      let data := answer.data len.toNat incoming.stream
      let r := answer.result len.toNat incoming.stream
      let left : Incoming := ⟨incoming.stream.drop data.length, later⟩
      if r < len.toNat then ⟨[⟨0, len, len.toNat, data.length⟩], data, .ioError r, left⟩
      else ⟨[⟨0, len, len.toNat, data.length⟩], data, .returned, left⟩

/-- No call asks for more than is missing, stores behind the end of the buffer or takes
more off `rest` than it holds. -/
def Exact (len : UInt64) (calls : List Call) : Prop :=
  ∀ call ∈ calls, call.request ≤ len.toNat - call.offset ∧
    call.offset + call.got ≤ len.toNat ∧ call.got ≤ call.rest.toNat

instance (len : UInt64) (calls : List Call) : Decidable (Exact len calls) :=
  inferInstanceAs (Decidable (∀ call ∈ calls, _))

/-- The size of the first delivery, zero when the first call fails. -/
def firstDelivery (len : Nat) (incoming : Incoming) : Nat :=
  match incoming.answers with
  | .ready size :: _ => min size (min len incoming.stream.length)
  | _ => 0

def FirstShort (len : UInt64) (incoming : Incoming) : Prop :=
  0 < firstDelivery len.toNat incoming ∧ firstDelivery len.toNat incoming < len.toNat

/-- The places the stream is cut at when every call asks for `request` bytes. -/
def places (request : Int) (place : Nat) (stream : List UInt8) : List Answer → List Nat
  | [] => []
  | answer :: later =>
      let data := answer.data request stream
      if answer.result request stream < 1 then []
      else (place + data.length) ::
        places request (place + data.length) (stream.drop data.length) later

/-- Inside the last `request` bytes of the message. -/
def Near (len : Nat) (request : Int) (place : Nat) : Prop :=
  place < len ∧ len < place + request

/-- The stream is cut inside the last `(int)len` bytes of the message. -/
def CutNearEnd (len : UInt64) (incoming : Incoming) : Prop :=
  ∃ place ∈ places (cInt len) 0 incoming.stream incoming.answers,
    Near len.toNat (cInt len) place

/-! ### One call -/

theorem Answer.data_length_le (request : Int) (stream : List UInt8) (answer : Answer) :
    (answer.data request stream).length ≤ request.toNat := by
  cases answer with
  | ready size =>
      rw [data, List.length_take]
      omega
  | closed => exact Nat.zero_le _
  | error => exact Nat.zero_le _

theorem Answer.result_lt_one_iff (request : Nat) (stream : List UInt8) (answer : Answer) :
    answer.result request stream < 1 ↔ (answer.data request stream).length = 0 := by
  cases answer with
  | ready size =>
      rw [result, if_neg (by omega)]
      omega
  | closed => exact iff_of_true Int.zero_lt_one rfl
  | error => exact iff_of_true (by rw [result]; omega) rfl

private theorem firstDelivery_cons (len : Nat) (stream : List UInt8) (answer : Answer)
    (later : List Answer) :
    firstDelivery len ⟨stream, answer :: later⟩ = (answer.data len stream).length := by
  cases answer with
  | ready size =>
      rw [Answer.data, List.length_take, Int.toNat_natCast]
      exact (Nat.min_assoc ..).symm
  | closed => rfl
  | error => rfl

theorem exact_cons {len : UInt64} {call : Call} {calls : List Call} :
    Exact len (call :: calls) ↔
      (call.request ≤ len.toNat - call.offset ∧ call.offset + call.got ≤ len.toNat ∧
        call.got ≤ call.rest.toNat) ∧ Exact len calls :=
  List.forall_mem_cons

theorem exact_nil (len : UInt64) : Exact len [] := by
  intro call member
  cases member

private theorem readLoop_done (request : Int) (failed : Int → Bool) (stored stream : List UInt8)
    (answers : List Answer) : (readLoop request failed 0 stored stream answers).calls = [] := by
  cases answers <;> rfl

theorem readLoop_nil (request : Int) (failed : Int → Bool) {rest : UInt64}
    (missing : rest ≠ 0) (stored stream : List UInt8) :
    (readLoop request failed rest stored stream []).calls =
      [⟨stored.length, rest, request, 0⟩] := by
  rw [readLoop, if_neg missing]

theorem readLoop_cons (request : Int) (failed : Int → Bool) {rest : UInt64}
    (missing : rest ≠ 0) (stored stream : List UInt8) (answer : Answer)
    (later : List Answer) :
    (readLoop request failed rest stored stream (answer :: later)).calls =
      ⟨stored.length, rest, request, (answer.data request stream).length⟩ ::
        if failed (answer.result request stream) then []
        else (readLoop request failed
          (rest - UInt64.ofNat (answer.data request stream).length)
          (stored ++ answer.data request stream)
          (stream.drop (answer.data request stream).length) later).calls := by
  rw [readLoop, if_neg missing]
  by_cases fails : failed (answer.result request stream)
  · simp only [fails, if_true]
  · simp only [fails, Bool.false_eq_true, if_false, StrictRead.after]

theorem strictRead_cons (request : Int) (failed failedAgain : Int → Bool) (len : UInt64)
    (stream : List UInt8) (answer : Answer) (later : List Answer) :
    (strictRead request failed failedAgain len ⟨stream, answer :: later⟩).calls =
      ⟨0, len, request, (answer.data request stream).length⟩ ::
        if failed (answer.result request stream) then []
        else if (answer.data request stream).length < len.toNat then
          (readLoop request failedAgain
            (len - UInt64.ofNat (answer.data request stream).length)
            (answer.data request stream)
            (stream.drop (answer.data request stream).length) later).calls
        else [] := by
  unfold strictRead
  by_cases fails : failed (answer.result request stream)
  · simp only [fails, if_true]
  · by_cases short : (answer.data request stream).length < len.toNat
    · simp only [fails, short, Bool.false_eq_true, if_false, if_true, StrictRead.after]
    · simp only [fails, short, Bool.false_eq_true, if_false]

theorem rest_after (rest : UInt64) {got : Nat} (inside : got ≤ rest.toNat) :
    (rest - UInt64.ofNat got).toNat = rest.toNat - got := by
  have small := rest.toNat_lt
  have same : (UInt64.ofNat got).toNat = got := by
    rw [UInt64.toNat_ofNat', Nat.mod_eq_of_lt (by omega)]
  rw [UInt64.toNat_sub_of_le _ _ (by rw [UInt64.le_iff_toNat_le]; omega), same]

theorem rest_ne_zero {rest : UInt64} : rest ≠ 0 ↔ 0 < rest.toNat := by
  rw [Nat.pos_iff_ne_zero, ne_eq, ne_eq, ← UInt64.toNat_inj]
  rfl

/-! ### A copy that asks for all of it again -/

private theorem readLoop_asks_again (failed : Int → Bool) (len : UInt64) {rest : UInt64}
    (missing : rest ≠ 0) {stored : List UInt8} (some : stored ≠ []) (stream : List UInt8)
    (answers : List Answer) :
    ¬ Exact len (readLoop len.toNat failed rest stored stream answers).calls := by
  have positive := List.length_pos_iff.mpr some
  cases answers with
  | nil =>
      rw [readLoop_nil _ _ missing, exact_cons]
      intro exact_here
      obtain ⟨⟨asked, _⟩, _⟩ := exact_here
      simp only at asked
      omega
  | cons answer later =>
      rw [readLoop_cons _ _ missing, exact_cons]
      intro exact_here
      obtain ⟨⟨asked, _⟩, _⟩ := exact_here
      simp only at asked
      omega

theorem strictRead_exact_iff (failed failedAgain : Int → Bool)
    (fails : ∀ r, failed r = true ↔ r < 1) (len : UInt64) (incoming : Incoming) :
    Exact len (strictRead len.toNat failed failedAgain len incoming).calls ↔
      ¬ FirstShort len incoming := by
  obtain ⟨stream, answers⟩ := incoming
  cases answers with
  | nil =>
      refine iff_of_true ?_ (fun short => Nat.lt_irrefl 0 short.1)
      rw [strictRead, exact_cons]
      refine ⟨⟨?_, Nat.zero_le _, Nat.zero_le _⟩, exact_nil len⟩
      rw [Nat.cast_zero, Int.sub_zero]
  | cons answer later =>
      have bound := answer.data_length_le len.toNat stream
      rw [Int.toNat_natCast] at bound
      have first : ∀ calls, Exact len
          (⟨0, len, len.toNat, (answer.data len.toNat stream).length⟩ :: calls) ↔
            Exact len calls := by
        intro calls
        rw [exact_cons]
        refine and_iff_right ⟨?_, ?_, bound⟩
        · rw [Nat.cast_zero, Int.sub_zero]
        · rwa [Nat.zero_add]
      rw [strictRead_cons, first, FirstShort, firstDelivery_cons]
      by_cases empty : (answer.data len.toNat stream).length = 0
      · rw [if_pos ((fails _).mpr ((answer.result_lt_one_iff _ _).mpr empty)), empty]
        exact iff_of_true (exact_nil len) (fun short => Nat.lt_irrefl 0 short.1)
      · rw [if_neg (fun failure =>
          empty ((answer.result_lt_one_iff _ _).mp ((fails _).mp failure)))]
        by_cases short : (answer.data len.toNat stream).length < len.toNat
        · rw [if_pos short]
          have left := rest_after len bound
          refine iff_of_false (readLoop_asks_again failedAgain len ?_ ?_ _ later) ?_
          · rw [rest_ne_zero, left]
            omega
          · exact fun none => empty (by rw [none]; rfl)
          · exact not_not_intro ⟨Nat.pos_of_ne_zero empty, short⟩
        · rw [if_neg short]
          exact iff_of_true (exact_nil len) (fun first => short first.2)

/-! ### A copy that asks for less, again and again -/

theorem places_ge (request : Int) (place : Nat) (stream : List UInt8)
    (answers : List Answer) : ∀ other ∈ places request place stream answers, place ≤ other := by
  induction answers generalizing place stream with
  | nil =>
      intro other member
      cases member
  | cons answer later ih =>
      intro other member
      rw [places] at member
      split at member
      · cases member
      · rcases List.mem_cons.mp member with rfl | behind
        · exact Nat.le_add_right ..
        · exact Nat.le_trans (Nat.le_add_right ..) (ih _ _ other behind)

private theorem call_exact_iff {len rest offset got : Nat} {request : Int}
    (missing : rest + offset = len) (open' : 0 < rest) (bound : got ≤ request.toNat) :
    (request ≤ len - offset ∧ offset + got ≤ len ∧ got ≤ rest) ↔
      ¬ Near len request offset := by
  unfold Near
  constructor
  · intro placed
    obtain ⟨asked, inside, held⟩ := placed
    omega
  · intro far
    have asked : request ≤ len - offset := by
      by_contra more
      exact far ⟨by omega, by omega⟩
    exact ⟨asked, by omega, by omega⟩

private theorem readLoop_exact_done {request : Int} (len : UInt64)
    (stored stream : List UInt8) (answers : List Answer)
    (reached : stored.length = len.toNat) :
    Exact len (readLoop request (fun r => r < 1) 0 stored stream answers).calls ↔
      ¬ Near len.toNat request stored.length ∧
        ∀ place ∈ places request stored.length stream answers,
          ¬ Near len.toNat request place := by
  rw [readLoop_done]
  refine iff_of_true (exact_nil len) ⟨fun near => ?_, fun place member near => ?_⟩
  · exact absurd near.1 (by omega)
  · have behind := places_ge request stored.length stream answers place member
    exact absurd near.1 (by omega)

private theorem readLoop_exact_iff {request : Int} (len rest : UInt64)
    (stored stream : List UInt8) (answers : List Answer)
    (missing : rest.toNat + stored.length = len.toNat) :
    Exact len (readLoop request (fun r => r < 1) rest stored stream answers).calls ↔
      ¬ Near len.toNat request stored.length ∧
        ∀ place ∈ places request stored.length stream answers,
          ¬ Near len.toNat request place := by
  induction answers generalizing rest stored stream with
  | nil =>
      by_cases done : rest = 0
      · subst done
        exact readLoop_exact_done len stored stream [] (by rw [← missing]; simp)
      · have some := rest_ne_zero.mp done
        rw [readLoop_nil _ _ done, exact_cons, and_iff_left (exact_nil len),
          call_exact_iff missing some (Nat.zero_le _)]
        refine (and_iff_left ?_).symm
        intro place member
        cases member
  | cons answer later ih =>
      by_cases done : rest = 0
      · subst done
        exact readLoop_exact_done len stored stream (answer :: later)
          (by rw [← missing]; simp)
      · have some := rest_ne_zero.mp done
        have bound := answer.data_length_le request stream
        rw [readLoop_cons _ _ done, exact_cons, call_exact_iff missing some bound]
        apply and_congr_right
        intro far
        unfold places
        by_cases failed : answer.result request stream < 1
        · simp only [failed, decide_true, if_true]
          apply iff_of_true (exact_nil len)
          intro place member
          cases member
        · have inside := ((call_exact_iff missing some bound).mpr far).2.2
          have left := rest_after rest inside
          have next := ih (rest - UInt64.ofNat (answer.data request stream).length)
            (stored ++ answer.data request stream)
            (stream.drop (answer.data request stream).length)
            (by rw [left, List.length_append]; omega)
          simp only [failed, decide_false, Bool.false_eq_true, if_false]
          rw [next, List.length_append, List.forall_mem_cons]

private theorem cInt_le (len : UInt64) : cInt len ≤ len.toNat := by
  rw [cInt, BitVec.toInt_eq_toNat_cond, BitVec.toNat_ofNat]
  split <;> omega

theorem sslFixsize_exact_iff (len : UInt64) (incoming : Incoming) :
    Exact len (sslFixsize len incoming).calls ↔ ¬ CutNearEnd len incoming := by
  obtain ⟨stream, answers⟩ := incoming
  have bounded := cInt_le len
  cases answers with
  | nil =>
      refine iff_of_true ?_ ?_
      · rw [sslFixsize, strictRead, exact_cons]
        refine ⟨⟨?_, Nat.zero_le _, Nat.zero_le _⟩, exact_nil len⟩
        rwa [Nat.cast_zero, Int.sub_zero]
      · intro outside
        obtain ⟨place, member, _⟩ := outside
        cases member
  | cons answer later =>
      have bound := answer.data_length_le (cInt len) stream
      have within : (answer.data (cInt len) stream).length ≤ len.toNat := by omega
      rw [sslFixsize, strictRead_cons, exact_cons, and_iff_right (by
        refine ⟨?_, by rwa [Nat.zero_add], within⟩
        rwa [Nat.cast_zero, Int.sub_zero]), CutNearEnd, places]
      simp only [not_exists, not_and, Nat.zero_add]
      by_cases failed : answer.result (cInt len) stream < 1
      · simp only [failed, decide_true, if_true]
        apply iff_of_true (exact_nil len)
        intro place member
        cases member
      · simp only [failed, decide_false, Bool.false_eq_true, if_false]
        rw [List.forall_mem_cons]
        by_cases short : (answer.data (cInt len) stream).length < len.toNat
        · rw [if_pos short]
          apply readLoop_exact_iff len _ _ _ later
          rw [rest_after len within]
          omega
        · rw [if_neg short]
          refine iff_of_true (exact_nil len) ⟨fun near => short near.1, ?_⟩
          intro place member near
          have behind := places_ge _ _ _ later place member
          exact short (Nat.lt_of_le_of_lt behind near.1)

/-- A strict read over-reads if and only if its message comes in fragments: for
`base_fd` and `base_socket` when the first call gets a part of it only, for `base_ssl`
when the stream is cut inside the last `(int)len` bytes. -/
theorem iFixsize_exact_iff (len : UInt64) (incoming : Incoming) :
    (Exact len (fdFixsize len incoming).calls ↔ ¬ FirstShort len incoming) ∧
      (Exact len (socketFixsize len incoming).calls ↔ ¬ FirstShort len incoming) ∧
      (Exact len (sslFixsize len incoming).calls ↔ ¬ CutNearEnd len incoming) := by
  refine ⟨?_, ?_, sslFixsize_exact_iff len incoming⟩
  · refine strictRead_exact_iff _ _ (fun r => ?_) len incoming
    rw [decide_eq_true_iff]
    omega
  · refine strictRead_exact_iff _ _ (fun r => ?_) len incoming
    rw [decide_eq_true_iff]

theorem iFixsize_overreads :
    ¬ Exact 2 (fdFixsize 2 ⟨[1, 2, 3], [.ready 1, .ready 2]⟩).calls ∧
      ¬ Exact 2 (socketFixsize 2 ⟨[1, 2, 3], [.ready 1, .ready 2]⟩).calls ∧
      ¬ Exact 2 (sslFixsize 2 ⟨[1, 2, 3], [.ready 1, .ready 2]⟩).calls := by
  decide

/-- Below 2 GiB `base_ssl` fails where the other copies do. -/
theorem cutNearEnd_iff_firstShort {len : UInt64} (small : len.toNat < 2 ^ 31)
    (incoming : Incoming) : CutNearEnd len incoming ↔ FirstShort len incoming := by
  have same : cInt len = len.toNat := by
    rw [cInt, BitVec.toInt_eq_toNat_cond, BitVec.toNat_ofNat]
    split <;> omega
  rw [← not_iff_not, ← sslFixsize_exact_iff, sslFixsize, same]
  exact strictRead_exact_iff _ _ (fun r => decide_eq_true_iff) len incoming

/-! ### The strict read of the typed fields -/

/-- A system that waits for all the bytes gives `MSG_WAITALL` the documented meaning,
on which the typed fields rest. -/
theorem iFixsize_eq_socketFixsizeWaitall (len : UInt64) (stream : List UInt8) {size : Nat}
    (all : len.toNat ≤ size) (later : List Answer) :
    SimpleSocket.iFixsize len.toNat stream =
      if (socketFixsizeWaitall len ⟨stream, .ready size :: later⟩).ending = .returned then
        .ok ((socketFixsizeWaitall len ⟨stream, .ready size :: later⟩).stored,
          (socketFixsizeWaitall len ⟨stream, .ready size :: later⟩).left.stream)
      else .throw .ioError := by
  have data : (Answer.ready size).data len.toNat stream = stream.take len.toNat := by
    rw [Answer.data, Int.toNat_natCast, Nat.min_eq_right all]
  have result : (Answer.ready size).result len.toNat stream =
      (stream.take len.toNat).length := by
    rw [Answer.result, if_neg (by omega), data]
  rw [SimpleSocket.iFixsize, StreamReader.Reader.take]
  by_cases enough : len.toNat ≤ stream.length
  · have size' : (stream.take len.toNat).length = len.toNat :=
      List.length_take_of_le enough
    simp only [socketFixsizeWaitall, data, result, size', Int.lt_irrefl, if_false, if_true,
      enough]
  · have short : ((stream.take len.toNat).length : Int) < len.toNat := by
      rw [List.length_take]
      omega
    simp only [socketFixsizeWaitall, data, result, short, if_true, enough, if_false,
      reduceCtorEq]

end Socketxx.FixedRead
