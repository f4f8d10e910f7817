import Socketxx.Tunnel
import Socketxx.SimpleSocket

/-!
`_o_ssl` at every length, and the fields of `simple_socket` that are written through it.

The length goes to `SSL_write` as an `int`, and the result is compared with that `int`. A
field is the list of its calls of `_o`; the first one that throws is the last.
-/

set_option autoImplicit false

namespace Socketxx.SslWrite

open Tunnel SimpleSocket

/-- A write that returns has sent all of its data. -/
def Complete (data : List UInt8) (answer : Answer) : Prop :=
  (sslWrite data answer).1 = true → (sslWrite data answer).2.2 = data

/-- Whether a sequence of writes returns, and the bytes that have gone out. -/
def sslWrites : List (List UInt8) → (Nat → Answer) → Bool × List UInt8
  | [], _ => (true, [])
  | data :: later, answers =>
      let (returns, _, out) := sslWrite data (answers 0)
      if returns then
        let (finished, more) := sslWrites later (fun call => answers (call + 1))
        (finished, out ++ more)
      else (false, out)

/-- Whatever `SSL_write` answers, a field that returns has been sent in full. -/
def CompleteField (writes : List (List UInt8)) : Prop :=
  ∀ answers, (sslWrites writes answers).1 = true →
    (sslWrites writes answers).2 = writes.flatten

/-! ### Fields -/

def oStrWrites (host : Host) (str : CxxString) : List (List UInt8) :=
  let strLen64 := str.bytes.length
  (if strLen64 > 254 then [[255], oInt host (BitVec.ofNat (8 * 8) strLen64)]
    else [[UInt8.ofNat strLen64]]) ++
  (if strLen64 ≠ 0 then [str.bytes] else [])

def oBufWrites (buf : List UInt8) : List (List UInt8) := [buf]

def oBinWrites (host : Host) (p : Option (List UInt8)) : List (List UInt8) :=
  let len := (p.getD []).length
  oInt host (BitVec.ofNat (8 * 4) len) :: (if len ≠ 0 then [p.getD []] else [])

theorem oStrWrites_flatten (host : Host) (str : CxxString) :
    (oStrWrites host str).flatten = oStr host str := by
  unfold oStrWrites oStr
  rw [List.flatten_append]
  congr 1
  · by_cases long : str.bytes.length > 254
    · simp only [long, if_true, List.flatten_cons, List.flatten_nil, List.append_nil,
        List.singleton_append]
    · simp only [long, if_false, List.flatten_singleton]
  · by_cases some : str.bytes.length ≠ 0
    · simp only [some, ne_eq, not_false_eq_true, if_true, List.flatten_singleton]
    · rw [if_neg some, if_neg some]
      rfl

theorem oBinWrites_flatten (host : Host) (p : Option (List UInt8)) :
    (oBinWrites host p).flatten = oBin host p := by
  unfold oBinWrites oBin
  rw [List.flatten_cons]
  congr 1
  by_cases some : (p.getD []).length ≠ 0
  · simp only [some, ne_eq, not_false_eq_true, if_true, List.flatten_singleton]
  · rw [if_neg some, if_neg some]
    rfl

/-! ### One write -/

/-- What a write that returns has sent: as much as the `int` says. -/
def accepted (data : List UInt8) : List UInt8 := data.take (toInt data.length).toNat

private theorem le_toInt_iff (len : Nat) : len ≤ (toInt len).toNat ↔ len < 2 ^ 31 := by
  rw [toInt, BitVec.toInt_eq_toNat_cond, BitVec.toNat_ofNat]
  split <;> omega

theorem accepted_eq_iff (data : List UInt8) :
    accepted data = data ↔ data.length < 2 ^ 31 := by
  rw [accepted, List.take_eq_self_iff, le_toInt_iff]

theorem accepted_length_le (data : List UInt8) : (accepted data).length ≤ data.length :=
  List.length_take_le' ..

theorem sslWrite_returns_iff (data : List UInt8) (answer : Answer) :
    (sslWrite data answer).1 = true ↔
      toInt data.length < 0 ∨ toInt data.length ≤ answer.written := by
  unfold sslWrite
  rw [Bool.not_eq_true', decide_eq_false_iff_not]
  by_cases negative : toInt data.length < 0
  · rw [if_pos negative]
    omega
  · rw [if_neg negative]
    omega

theorem sslWrite_accepted {data : List UInt8} {answer : Answer}
    (returns : (sslWrite data answer).1 = true) :
    (sslWrite data answer).2.2 = accepted data := by
  rcases (sslWrite_returns_iff data answer).mp returns with negative | full
  · rw [sslWrite_huge answer negative, accepted, Int.toNat_of_nonpos (by omega)]
    rfl
  · by_cases negative : toInt data.length < 0
    · rw [sslWrite_huge answer negative, accepted, Int.toNat_of_nonpos (by omega)]
      rfl
    · simp only [sslWrite, accepted, negative, if_false, Int.min_eq_right full]
      congr 1
      split <;> omega

/-- The test in `_o_ssl` tells whether all was sent for lengths that fit an `int`. For
others it throws when `SSL_write` falls short of the `int`, and only then. -/
theorem complete_iff (data : List UInt8) (answer : Answer) :
    Complete data answer ↔
      data.length < 2 ^ 31 ∨
        0 ≤ toInt data.length ∧ answer.written < toInt data.length := by
  unfold Complete
  constructor
  · intro complete
    by_cases returns : (sslWrite data answer).1 = true
    · have all := complete returns
      rw [sslWrite_accepted returns, accepted_eq_iff] at all
      exact Or.inl all
    · rw [sslWrite_returns_iff, not_or, Int.not_lt, Int.not_le] at returns
      exact Or.inr returns
  · intro condition returns
    rw [sslWrite_accepted returns, accepted_eq_iff]
    rcases condition with fits | ⟨positive, short⟩
    · exact fits
    · rcases (sslWrite_returns_iff data answer).mp returns with negative | full
      · omega
      · omega

/-! ### Writes one after another -/

private theorem sslWrites_accepted {writes : List (List UInt8)} {answers : Nat → Answer}
    (finished : (sslWrites writes answers).1 = true) :
    (sslWrites writes answers).2 = writes.flatMap accepted := by
  induction writes generalizing answers with
  | nil => rfl
  | cons data later ih =>
      unfold sslWrites at finished ⊢
      by_cases returns : (sslWrite data (answers 0)).1 = true
      · simp only [returns, if_true] at finished ⊢
        rw [sslWrite_accepted returns, ih finished, List.flatMap_cons]
      · simp only [returns, Bool.false_eq_true, if_false] at finished

private theorem sslWrites_finished {writes : List (List UInt8)} {answers : Nat → Answer}
    (full : ∀ data ∈ writes, ∀ call, toInt data.length ≤ (answers call).written) :
    (sslWrites writes answers).1 = true := by
  induction writes generalizing answers with
  | nil => rfl
  | cons data later ih =>
      rw [List.forall_mem_cons] at full
      have returns := (sslWrite_returns_iff data (answers 0)).mpr (Or.inr (full.1 0))
      unfold sslWrites
      simp only [returns, if_true]
      apply ih
      intro other member call
      exact full.2 other member (call + 1)

private theorem flatMap_accepted_length_le (writes : List (List UInt8)) :
    (writes.flatMap accepted).length ≤ writes.flatten.length := by
  induction writes with
  | nil => exact Nat.le_refl 0
  | cons data later ih =>
      have here := accepted_length_le data
      rw [List.flatMap_cons, List.flatten_cons, List.length_append, List.length_append]
      omega

private theorem flatMap_accepted_eq_iff (writes : List (List UInt8)) :
    writes.flatMap accepted = writes.flatten ↔ ∀ data ∈ writes, data.length < 2 ^ 31 := by
  induction writes with
  | nil =>
      apply iff_of_true rfl
      intro data member
      cases member
  | cons data later ih =>
      rw [List.forall_mem_cons, ← accepted_eq_iff, ← ih, List.flatMap_cons, List.flatten_cons]
      constructor
      · intro same
        -- neither part is longer than it should be, so that neither is shorter
        have here := accepted_length_le data
        have there := flatMap_accepted_length_le later
        have size := congrArg List.length same
        rw [List.length_append, List.length_append] at size
        exact List.append_inj same (by omega)
      · intro both
        rw [both.1, both.2]

theorem completeField_iff (writes : List (List UInt8)) :
    CompleteField writes ↔ ∀ data ∈ writes, data.length < 2 ^ 31 := by
  rw [← flatMap_accepted_eq_iff]
  constructor
  · intro complete
    let answer : Answer := ⟨.interrupted, [], 0, [], writes.flatten.length, 0⟩
    have finished : (sslWrites writes (fun _ => answer)).1 = true := by
      apply sslWrites_finished
      intro data member call
      have bound := toInt_le data.length
      have inside := (List.sublist_flatten_of_mem member).length_le
      change toInt data.length ≤ (writes.flatten.length : Int)
      omega
    rw [← sslWrites_accepted finished]
    exact complete _ finished
  · intro same answers finished
    rw [sslWrites_accepted finished, same]

private theorem completeField_oStr_iff (host : Host) (str : CxxString) :
    CompleteField (oStrWrites host str) ↔ str.bytes.length < 2 ^ 31 := by
  rw [completeField_iff]
  unfold oStrWrites
  constructor
  · intro fits
    by_cases some : str.bytes.length ≠ 0
    · apply fits
      apply List.mem_append_right
      rw [if_pos some]
      exact List.mem_cons_self
    · omega
  · intro fits data member
    rcases List.mem_append.mp member with header | body
    · by_cases long : str.bytes.length > 254
      · rw [if_pos long] at header
        have small : data.length = 1 ∨ data.length = 8 := by
          rcases List.mem_cons.mp header with first | second
          · exact Or.inl (by rw [first]; rfl)
          · exact Or.inr (by rw [List.mem_singleton.mp second, oInt_length])
        omega
      · rw [if_neg long, List.mem_singleton] at header
        rw [header]
        exact Nat.lt_of_lt_of_le Nat.one_lt_two (by omega)
    · by_cases some : str.bytes.length ≠ 0
      · rw [if_pos some, List.mem_singleton] at body
        rwa [body]
      · rw [if_neg some] at body
        cases body

private theorem completeField_oBuf_iff (buf : List UInt8) :
    CompleteField (oBufWrites buf) ↔ buf.length < 2 ^ 31 := by
  rw [completeField_iff, oBufWrites, List.forall_mem_singleton]

private theorem completeField_oBin_iff (host : Host) (p : Option (List UInt8)) :
    CompleteField (oBinWrites host p) ↔ (p.getD []).length < 2 ^ 31 := by
  rw [completeField_iff]
  unfold oBinWrites
  rw [List.forall_mem_cons, oInt_length]
  have header : 4 < 2 ^ 31 := by omega
  by_cases some : (p.getD []).length ≠ 0
  · rw [if_pos some, List.forall_mem_singleton]
    exact and_iff_right header
  · rw [if_neg some]
    refine iff_of_true ⟨header, ?_⟩ (by omega)
    intro data member
    cases member

/-- Exactly the lengths below 2 GiB are sent in full or raise an error; a longer block does
so only when its length as an `int` is not negative and `SSL_write` falls short of it. -/
theorem oSsl_complete_iff (host : Host) :
    (∀ (data : List UInt8) (answer : Answer), Complete data answer ↔
      data.length < 2 ^ 31 ∨
        0 ≤ toInt data.length ∧ answer.written < toInt data.length) ∧
    (∀ str : CxxString, CompleteField (oStrWrites host str) ↔ str.bytes.length < 2 ^ 31) ∧
    (∀ buf : List UInt8, CompleteField (oBufWrites buf) ↔ buf.length < 2 ^ 31) ∧
    (∀ p : Option (List UInt8),
      CompleteField (oBinWrites host p) ↔ (p.getD []).length < 2 ^ 31) :=
  ⟨complete_iff, completeField_oStr_iff host, completeField_oBuf_iff,
    completeField_oBin_iff host⟩

theorem oSsl_drops :
    ¬ ∀ (data : List UInt8) (answer : Answer), data.length < 2 ^ 64 →
      Complete data answer := by
  intro complete
  have size : (List.replicate (2 ^ 31) (0 : UInt8)).length = 2 ^ 31 := List.length_replicate
  generalize List.replicate (2 ^ 31) (0 : UInt8) = data at size
  have huge : toInt data.length < 0 := by
    rw [size]
    decide
  have dropped := sslWrite_huge ⟨.interrupted, [], 0, [], 0, 0⟩ huge
  have sent := complete data ⟨.interrupted, [], 0, [], 0, 0⟩ (by omega)
  rw [Complete, dropped] at sent
  rw [← sent rfl] at size
  exact absurd size (by decide)

end Socketxx.SslWrite
