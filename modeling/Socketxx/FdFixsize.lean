import Socketxx.FixedRead

/-!
What `base_fd::_i_fixsize` makes of a fragmented stream.

Every call asks for all `len` bytes, and the loop takes a delivery of one byte for a
failure. `cuts` are the places in the stream between the pieces such calls deliver.
-/

set_option autoImplicit false

namespace Socketxx.FixedRead

/-- It returns, with exactly the first `len` bytes of the stream in the buffer. -/
def Delivers (len : UInt64) (incoming : Incoming) : Prop :=
  (fdFixsize len incoming).ending = .returned ∧
    (fdFixsize len incoming).stored = incoming.stream.take len.toNat

/-- It throws only what a failed `read` returned. -/
def HonestError (len : UInt64) (incoming : Incoming) : Prop :=
  ∀ ret, (fdFixsize len incoming).ending = .ioError ret → ret = 0 ∨ ret = -1

def cuts (len : UInt64) (incoming : Incoming) : List Nat :=
  places len.toNat 0 incoming.stream incoming.answers

/-- A piece ends with the message, and no piece of it behind the first is a single byte. -/
structure CleanCut (len : UInt64) (cuts : List Nat) : Prop where
  ends : len.toNat ∈ cuts
  noSingle : ∀ place ∈ cuts, place < len.toNat → place + 1 ∉ cuts

/-- A single byte comes behind the first piece, and no piece before it has ended with the
message. -/
def SingleByte (len : UInt64) (cuts : List Nat) : Prop :=
  ∃ place ∈ cuts, place + 1 ∈ cuts ∧
    ∀ earlier ∈ cuts, earlier ≤ place → UInt64.ofNat earlier ≠ len

/-! ### Places -/

section

variable {len : UInt64} {place next : Nat} {later : List Nat}

private theorem CleanCut.done (reached : place = len.toNat)
    (behind : ∀ other ∈ later, place < other) :
    CleanCut len (place :: later) := by
  constructor
  case ends =>
    rw [reached]
    exact List.mem_cons_self
  case noSingle =>
    intro other member before
    rcases List.mem_cons.mp member with rfl | member
    · omega
    · have further := behind other member
      omega

private theorem not_cleanCut_single (inside : place < len.toNat) :
    ¬ CleanCut len (place :: (place + 1) :: later) := by
  intro clean
  apply clean.noSingle place List.mem_cons_self inside
  exact List.mem_cons_of_mem _ List.mem_cons_self

private theorem not_cleanCut_past (past : len.toNat < place)
    (behind : ∀ other ∈ later, place < other) :
    ¬ CleanCut len (place :: later) := by
  intro clean
  rcases List.mem_cons.mp clean.ends with here | member
  · omega
  · have further := behind _ member
    omega

private theorem cleanCut_piece_iff (inside : place < len.toNat) (jump : place + 2 ≤ next)
    (behind : ∀ other ∈ later, next < other) :
    CleanCut len (place :: next :: later) ↔ CleanCut len (next :: later) := by
  constructor
  · intro clean
    constructor
    case ends => exact List.mem_of_ne_of_mem (by omega) clean.ends
    case noSingle =>
      intro other member before single
      apply clean.noSingle other (List.mem_cons_of_mem _ member) before
      exact List.mem_cons_of_mem _ single
  · intro clean
    have least : ∀ other ∈ next :: later, next ≤ other := by
      intro other member
      rcases List.mem_cons.mp member with rfl | member
      · exact Nat.le_refl _
      · exact Nat.le_of_lt (behind other member)
    constructor
    case ends => exact List.mem_cons_of_mem _ clean.ends
    case noSingle =>
      intro other member before single
      rcases List.mem_cons.mp single with same | single
      · rcases List.mem_cons.mp member with here | member
        · omega
        · have bound := least other member
          omega
      · rcases List.mem_cons.mp member with here | member
        · have bound := least _ single
          omega
        · exact clean.noSingle other member before single

private theorem not_singleByte_done (reached : UInt64.ofNat place = len)
    (behind : ∀ other ∈ later, place < other) : ¬ SingleByte len (place :: later) := by
  intro single
  obtain ⟨other, member, _next, before⟩ := single
  apply before place List.mem_cons_self _ reached
  rcases List.mem_cons.mp member with rfl | member
  · exact Nat.le_refl _
  · exact Nat.le_of_lt (behind other member)

private theorem not_singleByte_singleton (len : UInt64) (place : Nat) :
    ¬ SingleByte len [place] := by
  intro single
  obtain ⟨other, member, next, _before⟩ := single
  rw [List.mem_singleton] at member next
  omega

private theorem SingleByte.here (missing : UInt64.ofNat place ≠ len)
    (behind : ∀ other ∈ later, place + 1 < other) :
    SingleByte len (place :: (place + 1) :: later) := by
  refine ⟨place, List.mem_cons_self, List.mem_cons_of_mem _ List.mem_cons_self, ?_⟩
  intro earlier member before
  rcases List.mem_cons.mp member with rfl | member
  · exact missing
  · rcases List.mem_cons.mp member with here | member
    · omega
    · have further := behind earlier member
      omega

private theorem singleByte_piece_iff (missing : UInt64.ofNat place ≠ len) (jump : place + 2 ≤ next)
    (behind : ∀ other ∈ later, next < other) :
    SingleByte len (place :: next :: later) ↔ SingleByte len (next :: later) := by
  have least : ∀ other ∈ next :: later, next ≤ other := by
    intro other member
    rcases List.mem_cons.mp member with rfl | member
    · exact Nat.le_refl _
    · exact Nat.le_of_lt (behind other member)
  constructor
  · intro single
    obtain ⟨other, member, after, before⟩ := single
    have kept : other ∈ next :: later := by
      rcases List.mem_cons.mp member with rfl | member
      · rcases List.mem_cons.mp after with same | after
        · omega
        · have bound := least _ after
          omega
      · exact member
    have bound := least other kept
    refine ⟨other, kept, List.mem_of_ne_of_mem (by omega) after, ?_⟩
    intro earlier inside
    exact before earlier (List.mem_cons_of_mem _ inside)
  · intro single
    obtain ⟨other, member, after, before⟩ := single
    refine ⟨other, List.mem_cons_of_mem _ member, List.mem_cons_of_mem _ after, ?_⟩
    intro earlier inside
    rcases List.mem_cons.mp inside with rfl | inside
    · intro _
      exact missing
    · exact before earlier inside

end

/-! ### One delivery -/

theorem Answer.result_cases (request : Nat) (stream : List UInt8) (answer : Answer) :
    (answer.data request stream).length = 0 ∧
        (answer.result request stream = 0 ∨ answer.result request stream = -1) ∨
      0 < (answer.data request stream).length ∧
        answer.result request stream = (answer.data request stream).length := by
  cases answer with
  | ready size =>
      have result : (Answer.ready size).result request stream =
          ((Answer.ready size).data request stream).length := by
        rw [Answer.result, if_neg (by omega)]
      rcases Nat.eq_zero_or_pos ((Answer.ready size).data request stream).length with
        empty | some
      · rw [result, empty]
        exact Or.inl ⟨rfl, Or.inl rfl⟩
      · exact Or.inr ⟨some, result⟩
  | closed => exact Or.inl ⟨rfl, Or.inl rfl⟩
  | error => exact Or.inl ⟨rfl, Or.inr rfl⟩

theorem places_failed {request : Int} {stream : List UInt8} {answer : Answer}
    (failed : answer.result request stream < 1) (place : Nat) (later : List Answer) :
    places request place stream (answer :: later) = [] :=
  if_pos failed

theorem places_delivered {request : Int} {stream : List UInt8} {answer : Answer}
    (delivered : ¬ answer.result request stream < 1) (place : Nat) (later : List Answer) :
    places request place stream (answer :: later) =
      (place + (answer.data request stream).length) ::
        places request (place + (answer.data request stream).length)
          (stream.drop (answer.data request stream).length) later :=
  if_neg delivered

private theorem readLoop_fails {request : Int} {failed : Int → Bool} {rest : UInt64}
    (missing : rest ≠ 0) {stored stream : List UInt8} {answer : Answer}
    (fails : failed (answer.result request stream) = true) (later : List Answer) :
    (readLoop request failed rest stored stream (answer :: later)).ending =
        .ioError (answer.result request stream) ∧
      (readLoop request failed rest stored stream (answer :: later)).stored =
        stored ++ answer.data request stream := by
  rw [readLoop, if_neg missing]
  simp only [fails, if_true, and_self]

theorem readLoop_goes_on {request : Int} {failed : Int → Bool} {rest : UInt64}
    (missing : rest ≠ 0) {stored stream : List UInt8} {answer : Answer}
    (delivered : failed (answer.result request stream) = false) (later : List Answer) :
    readLoop request failed rest stored stream (answer :: later) =
      (readLoop request failed (rest - UInt64.ofNat (answer.data request stream).length)
        (stored ++ answer.data request stream)
        (stream.drop (answer.data request stream).length) later).after
        ⟨stored.length, rest, request, (answer.data request stream).length⟩ := by
  rw [readLoop, if_neg missing]
  simp only [delivered, Bool.false_eq_true, if_false]

private theorem readLoop_zero (request : Int) (failed : Int → Bool) (stored stream : List UInt8)
    (answers : List Answer) :
    (readLoop request failed 0 stored stream answers).ending = .returned ∧
      (readLoop request failed 0 stored stream answers).stored = stored := by
  cases answers <;> exact ⟨rfl, rfl⟩

private theorem readLoop_waits (request : Int) (failed : Int → Bool) {rest : UInt64}
    (missing : rest ≠ 0) (stored stream : List UInt8) :
    (readLoop request failed rest stored stream []).ending = .waiting := by
  rw [readLoop, if_neg missing]

/-! ### The loop -/

section

variable {len : UInt64}

/-- The loop of `base_fd`, entered with `stored` read so far. -/
def fdLoop (len : UInt64) (stored stream : List UInt8) (answers : List Answer) : StrictRead :=
  readLoop len.toNat (fun r => r ≤ 1) (len - UInt64.ofNat stored.length) stored stream answers

theorem rest_eq_zero_iff (len : UInt64) (count : Nat) :
    len - UInt64.ofNat count = 0 ↔ UInt64.ofNat count = len := by
  rw [UInt64.sub_eq_iff_eq_add, UInt64.zero_add, eq_comm]

inductive Round (len : UInt64) (stored stream : List UInt8) (answer : Answer)
    (later : List Answer) : Prop where
  | failed (ret : Int) (reason : ret = 0 ∨ ret = -1)
      (none : places len.toNat stored.length stream (answer :: later) = [])
      (ending : (fdLoop len stored stream (answer :: later)).ending = .ioError ret)
  | single (left : List UInt8)
      (cut : places len.toNat stored.length stream (answer :: later) =
        (stored.length + 1) :: places len.toNat (stored.length + 1) left later)
      (ending : (fdLoop len stored stream (answer :: later)).ending = .ioError 1)
  | piece (data left : List UInt8) (size : 2 ≤ data.length)
      (bytes : stream = data ++ left)
      (cut : places len.toNat stored.length stream (answer :: later) =
        (stored ++ data).length :: places len.toNat (stored ++ data).length left later)
      (ending : (fdLoop len stored stream (answer :: later)).ending =
        (fdLoop len (stored ++ data) left later).ending)
      (kept : (fdLoop len stored stream (answer :: later)).stored =
        (fdLoop len (stored ++ data) left later).stored)

theorem Answer.data_prefix (request : Int) (stream : List UInt8) (answer : Answer) :
    answer.data request stream <+: stream := by
  cases answer with
  | ready size => exact List.take_prefix ..
  | closed => exact List.nil_prefix
  | error => exact List.nil_prefix

private theorem rest_append (len : UInt64) (stored data : List UInt8) :
    len - UInt64.ofNat stored.length - UInt64.ofNat data.length =
      len - UInt64.ofNat (stored ++ data).length := by
  rw [List.length_append, UInt64.ofNat_add]
  grind

theorem fdLoop_round {stored : List UInt8} (missing : UInt64.ofNat stored.length ≠ len)
    (stream : List UInt8) (answer : Answer) (later : List Answer) :
    Round len stored stream answer later := by
  have open' : len - UInt64.ofNat stored.length ≠ 0 := by
    rwa [ne_eq, rest_eq_zero_iff]
  rcases answer.result_cases len.toNat stream with ⟨empty, reason⟩ | ⟨some, result⟩
  · have fails : answer.result len.toNat stream < 1 := by omega
    apply Round.failed _ reason (places_failed fails _ _)
    exact (readLoop_fails open' (decide_eq_true (by omega)) later).1
  · have delivered : ¬ answer.result len.toNat stream < 1 := by omega
    have cut := places_delivered delivered stored.length later
    by_cases one : (answer.data len.toNat stream).length = 1
    · rw [one] at cut result
      apply Round.single _ cut
      have ending := (@readLoop_fails len.toNat (fun r => r ≤ 1) _ open' stored stream answer
        (decide_eq_true (by omega)) later).1
      rw [result] at ending
      exact ending
    · have next := @readLoop_goes_on len.toNat (fun r => r ≤ 1) _ open' stored stream answer
        (decide_eq_false (by omega)) later
      have bytes := List.prefix_iff_eq_append.mp (answer.data_prefix len.toNat stream)
      rw [rest_append] at next
      rw [← List.length_append] at cut
      apply Round.piece (answer.data len.toNat stream) _ (by omega) bytes.symm cut
      · rw [fdLoop, next]
        rfl
      · rw [fdLoop, next]
        rfl

theorem fdLoop_done {stored : List UInt8} (done : UInt64.ofNat stored.length = len)
    (stream : List UInt8) (answers : List Answer) :
    (fdLoop len stored stream answers).ending = .returned ∧
      (fdLoop len stored stream answers).stored = stored := by
  rw [fdLoop, (rest_eq_zero_iff len stored.length).mpr done]
  exact readLoop_zero ..

theorem fdLoop_waits {stored : List UInt8} (missing : UInt64.ofNat stored.length ≠ len)
    (stream : List UInt8) : (fdLoop len stored stream []).ending = .waiting := by
  apply readLoop_waits
  rwa [ne_eq, rest_eq_zero_iff]

/-- A loop that returns has stored bytes of the stream in order, and as many as it should
have when they are counted by a `size_t`. -/
theorem fdLoop_returned (stored stream : List UInt8) (answers : List Answer)
    (returned : (fdLoop len stored stream answers).ending = .returned) :
    ∃ data, (fdLoop len stored stream answers).stored = stored ++ data ∧ data <+: stream ∧
      UInt64.ofNat (stored ++ data).length = len := by
  induction answers generalizing stored stream with
  | nil =>
      by_cases done : UInt64.ofNat stored.length = len
      · refine ⟨[], ?_, List.nil_prefix, ?_⟩
        · rw [(fdLoop_done done stream []).2, List.append_nil]
        · rwa [List.append_nil]
      · rw [fdLoop_waits done] at returned
        cases returned
  | cons answer later ih =>
      by_cases done : UInt64.ofNat stored.length = len
      · refine ⟨[], ?_, List.nil_prefix, ?_⟩
        · rw [(fdLoop_done done stream _).2, List.append_nil]
        · rwa [List.append_nil]
      · cases fdLoop_round done stream answer later with
        | failed ret reason none ending =>
            rw [ending] at returned
            cases returned
        | single left cut ending =>
            rw [ending] at returned
            cases returned
        | piece data left size bytes cut ending kept =>
            rw [ending] at returned
            obtain ⟨more, all, inside, count⟩ := ih (stored ++ data) left returned
            rw [List.append_assoc] at all count
            refine ⟨data ++ more, kept.trans all, ?_, count⟩
            rw [bytes]
            exact (List.prefix_append_right_inj data).mpr inside

theorem ofNat_eq_iff {count : Nat} (inside : count ≤ len.toNat) :
    UInt64.ofNat count = len ↔ count = len.toNat := by
  have small := len.toNat_lt
  rw [← UInt64.toNat_inj, UInt64.toNat_ofNat', Nat.mod_eq_of_lt (by omega)]

theorem places_gt (request place : Nat) (stream : List UInt8) (answers : List Answer) :
    ∀ other ∈ places request place stream answers, place < other := by
  cases answers with
  | nil =>
      intro other member
      cases member
  | cons answer later =>
      intro other member
      by_cases failed : answer.result request stream < 1
      · rw [places_failed failed] at member
        cases member
      · have some := (answer.result_lt_one_iff request stream).not.mp failed
        rw [places_delivered failed] at member
        rcases List.mem_cons.mp member with rfl | member
        · omega
        · have behind := places_ge _ _ _ later other member
          omega

private theorem fdLoop_delivers_iff (stored stream : List UInt8) (answers : List Answer)
    (inside : stored.length ≤ len.toNat) :
    (fdLoop len stored stream answers).ending = .returned ∧
        (fdLoop len stored stream answers).stored.length = len.toNat ↔
      CleanCut len (stored.length :: places len.toNat stored.length stream answers) := by
  induction answers generalizing stored stream with
  | nil =>
      by_cases done : stored.length = len.toNat
      · have whole := fdLoop_done ((ofNat_eq_iff inside).mpr done) stream []
        rw [whole.1, whole.2]
        exact iff_of_true ⟨rfl, done⟩ (CleanCut.done done (places_gt _ _ _ _))
      · rw [fdLoop_waits ((ofNat_eq_iff inside).not.mpr done)]
        apply iff_of_false
        · intro both
          cases both.1
        · intro clean
          rcases List.mem_cons.mp clean.ends with here | member
          · exact done here.symm
          · cases member
  | cons answer later ih =>
      by_cases done : stored.length = len.toNat
      · have whole := fdLoop_done ((ofNat_eq_iff inside).mpr done) stream (answer :: later)
        rw [whole.1, whole.2]
        exact iff_of_true ⟨rfl, done⟩ (CleanCut.done done (places_gt _ _ _ _))
      · cases fdLoop_round ((ofNat_eq_iff inside).not.mpr done) stream answer later with
        | failed ret reason none ending =>
            rw [ending, none]
            apply iff_of_false
            · intro both
              cases both.1
            · intro clean
              exact done (List.mem_singleton.mp clean.ends).symm
        | single left cut ending =>
            rw [ending, cut]
            apply iff_of_false
            · intro both
              cases both.1
            · exact not_cleanCut_single (by omega)
        | piece data left size bytes cut ending kept =>
            have behind := places_gt len.toNat (stored ++ data).length left later
            rw [ending, kept, cut, cleanCut_piece_iff (by omega)
              (by rw [List.length_append]; omega) behind]
            by_cases past : len.toNat < (stored ++ data).length
            · apply iff_of_false
              · intro both
                obtain ⟨more, all, _, _⟩ := fdLoop_returned _ _ _ both.1
                have total := both.2
                rw [all, List.length_append] at total
                omega
              · exact not_cleanCut_past past behind
            · exact ih (stored ++ data) left (by omega)

private theorem fdLoop_single_iff (stored stream : List UInt8) (answers : List Answer) :
    (∀ ret, (fdLoop len stored stream answers).ending = .ioError ret → ret = 0 ∨ ret = -1) ↔
      ¬ SingleByte len (stored.length :: places len.toNat stored.length stream answers) := by
  induction answers generalizing stored stream with
  | nil =>
      have silent : ∀ ret, (fdLoop len stored stream []).ending ≠ .ioError ret := by
        intro ret
        by_cases done : UInt64.ofNat stored.length = len
        · rw [(fdLoop_done done stream []).1]
          exact Ending.noConfusion
        · rw [fdLoop_waits done]
          exact Ending.noConfusion
      apply iff_of_true
      · intro ret thrown
        exact absurd thrown (silent ret)
      · exact not_singleByte_singleton len stored.length
  | cons answer later ih =>
      have after := places_gt len.toNat stored.length stream (answer :: later)
      by_cases done : UInt64.ofNat stored.length = len
      · rw [(fdLoop_done done stream (answer :: later)).1]
        apply iff_of_true
        · intro ret thrown
          cases thrown
        · exact not_singleByte_done done after
      · cases fdLoop_round done stream answer later with
        | failed ret reason none ending =>
            rw [ending, none]
            apply iff_of_true
            · intro other thrown
              cases thrown
              exact reason
            · exact not_singleByte_singleton len stored.length
        | single left cut ending =>
            have behind := places_gt len.toNat (stored.length + 1) left later
            rw [ending, cut]
            apply iff_of_false
            · intro honest
              rcases honest 1 rfl with zero | minus
              · cases zero
              · cases minus
            · exact not_not_intro (SingleByte.here done behind)
        | piece data left size bytes cut ending kept =>
            have behind := places_gt len.toNat (stored ++ data).length left later
            rw [ending, cut, singleByte_piece_iff done (by rw [List.length_append]; omega) behind]
            exact ih (stored ++ data) left

/-! ### The whole read -/

inductive FirstRound (len : UInt64) (stream : List UInt8) (answer : Answer)
    (later : List Answer) : Prop where
  | failed (ret : Int) (reason : ret = 0 ∨ ret = -1)
      (none : cuts len ⟨stream, answer :: later⟩ = [])
      (ending : (fdFixsize len ⟨stream, answer :: later⟩).ending = .ioError ret)
  | piece (data left : List UInt8) (some : 0 < data.length) (inside : data.length ≤ len.toNat)
      (bytes : stream = data ++ left)
      (cut : cuts len ⟨stream, answer :: later⟩ =
        data.length :: places len.toNat data.length left later)
      (ending : (fdFixsize len ⟨stream, answer :: later⟩).ending =
        (fdLoop len data left later).ending)
      (kept : (fdFixsize len ⟨stream, answer :: later⟩).stored =
        (fdLoop len data left later).stored)

theorem fdFixsize_firstRound (len : UInt64) (stream : List UInt8) (answer : Answer)
    (later : List Answer) : FirstRound len stream answer later := by
  have bound := answer.data_length_le len.toNat stream
  rw [Int.toNat_natCast] at bound
  rcases answer.result_cases len.toNat stream with ⟨empty, reason⟩ | ⟨some, result⟩
  · have fails : answer.result len.toNat stream ≤ 0 := by omega
    have fewer : answer.result len.toNat stream < 1 := by omega
    apply FirstRound.failed _ reason (places_failed fewer 0 later)
    simp only [fdFixsize, strictRead, fails, decide_true, if_true]
  · have bytes := List.prefix_iff_eq_append.mp (answer.data_prefix len.toNat stream)
    have delivered : ¬ answer.result len.toNat stream ≤ 0 := by omega
    have more : ¬ answer.result len.toNat stream < 1 := by omega
    have cut := places_delivered more 0 later
    rw [Nat.zero_add] at cut
    by_cases short : (answer.data len.toNat stream).length < len.toNat
    · apply FirstRound.piece _ _ some bound bytes.symm cut
      · simp only [fdFixsize, strictRead, delivered, short, decide_false, Bool.false_eq_true,
          if_false, if_true]
        rfl
      · simp only [fdFixsize, strictRead, delivered, short, decide_false, Bool.false_eq_true,
          if_false, if_true]
        rfl
    · have whole := @fdLoop_done len _ ((ofNat_eq_iff bound).mpr (by omega))
        (stream.drop (answer.data len.toNat stream).length) later
      apply FirstRound.piece _ _ some bound bytes.symm cut
      · rw [whole.1]
        simp only [fdFixsize, strictRead, delivered, short, decide_false, Bool.false_eq_true,
          if_false]
      · rw [whole.2]
        simp only [fdFixsize, strictRead, delivered, short, decide_false, Bool.false_eq_true,
          if_false]

private theorem fdFixsize_delivers_iff (len : UInt64) (incoming : Incoming) :
    Delivers len incoming ↔ CleanCut len (cuts len incoming) := by
  obtain ⟨stream, answers⟩ := incoming
  unfold Delivers
  cases answers with
  | nil =>
      apply iff_of_false
      · intro both
        cases both.1
      · intro clean
        cases clean.ends
  | cons answer later =>
      cases fdFixsize_firstRound len stream answer later with
      | failed ret reason none ending =>
          rw [ending, none]
          apply iff_of_false
          · intro both
            cases both.1
          · intro clean
            cases clean.ends
      | piece data left some inside bytes cut ending kept =>
          rw [ending, kept, cut, ← fdLoop_delivers_iff data left later inside]
          apply and_congr_right
          intro returned
          obtain ⟨more, all, behind, count⟩ := fdLoop_returned data left later returned
          rw [all]
          change data ++ more = stream.take len.toNat ↔ _
          have front : data ++ more <+: stream := by
            rw [bytes]
            exact (List.prefix_append_right_inj data).mpr behind
          constructor
          · intro same
            rw [← ofNat_eq_iff (by rw [same]; exact List.length_take_le ..)]
            exact count
          · intro size
            rw [← size]
            exact List.prefix_iff_eq_take.mp front

private theorem fdFixsize_honestError_iff (len : UInt64) (incoming : Incoming) :
    HonestError len incoming ↔ ¬ SingleByte len (cuts len incoming) := by
  obtain ⟨stream, answers⟩ := incoming
  unfold HonestError
  cases answers with
  | nil =>
      apply iff_of_true
      · intro ret thrown
        cases thrown
      · intro single
        obtain ⟨place, member, _⟩ := single
        cases member
  | cons answer later =>
      cases fdFixsize_firstRound len stream answer later with
      | failed ret reason none ending =>
          rw [ending, none]
          apply iff_of_true
          · intro other thrown
            cases thrown
            exact reason
          · intro single
            obtain ⟨place, member, _⟩ := single
            cases member
      | piece data left some inside bytes cut ending kept =>
          rw [ending, cut]
          exact fdLoop_single_iff data left later

/-- Which fragmentations `base_fd::_i_fixsize` is insensitive to. -/
theorem fdFixsize_insensitive_iff (len : UInt64) (incoming : Incoming) :
    (Delivers len incoming ↔ CleanCut len (cuts len incoming)) ∧
      (HonestError len incoming ↔ ¬ SingleByte len (cuts len incoming)) :=
  ⟨fdFixsize_delivers_iff len incoming, fdFixsize_honestError_iff len incoming⟩

theorem fdFixsize_two_singles :
    ¬ ∀ (len : UInt64) (incoming : Incoming), 1 ≤ len.toNat →
      len.toNat ≤ incoming.stream.length → len.toNat ≤ incoming.answers.length →
      (∀ answer ∈ incoming.answers, ∃ size, 1 ≤ size ∧ answer = .ready size) →
      Delivers len incoming ∧ HonestError len incoming := by
  intro insensitive
  have singles : ∀ answer ∈ [Answer.ready 1, .ready 1],
      ∃ size, 1 ≤ size ∧ answer = .ready size := by
    intro answer member
    refine ⟨1, Nat.le_refl 1, ?_⟩
    simpa using member
  have both := insensitive 2 ⟨[1, 2], [.ready 1, .ready 1]⟩ (Nat.succ_pos 1) (Nat.le_refl 2)
    (Nat.le_refl 2) singles
  have returned := both.1.1
  revert returned
  decide

end

end Socketxx.FixedRead
