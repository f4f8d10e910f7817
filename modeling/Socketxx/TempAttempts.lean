import Socketxx.TempFile

/-!
How often `create_temp_file` tries.

The counter of its loop is not initialised, and the `i` of the loop over the random string
is another variable. `createLoop` is the function with the variable `file_name` it is given,
and with the number of its attempts.
-/

set_option autoImplicit false

namespace Socketxx.FileWire

open CString (cStr)

/-- What a call leaves: the variable `file_name`, the files, and how often it has tried. -/
structure CreateRun where
  outcome : Creation Nat
  fileName : List UInt8
  system : FileSystem
  attempts : Nat

/-- The body of the loop, where `none` is its `continue`. -/
def Answers.createRound (answers : Answers) (system : FileSystem) (fileName : List UInt8)
    (attempt : Nat) : Option (Creation Nat × List UInt8 × FileSystem) :=
  if answers.rand attempt ≤ 0 then none
  else
    match answers.tempfileName attempt fileName with
    | none => some (.crashed, fileName, system)
    | some tempfileName =>
        match answers.number attempt system.inUse with
        | none => some (.threw (.failed tempfileName), fileName, system)
        | some filefd =>
            if (system.files (cStr tempfileName)).isSome then none
            else some (.returned filefd, tempfileName, system.create filefd tempfileName)

def Answers.createLoop (answers : Answers) (system : FileSystem) (fileName : List UInt8)
    (attempt : Nat) (i : UInt16) : CreateRun :=
  match answers.createRound system fileName attempt with
  | some (outcome, name, files) => ⟨outcome, name, files, attempt + 1⟩
  | none =>
      if i + 1 < 65535 then answers.createLoop system fileName (attempt + 1) (i + 1)
      else ⟨.threw .tooManyAttempts, fileName, system, attempt + 1⟩
termination_by (65534 - i).toNat
decreasing_by exact next_attempt_lt ‹_›

/-- An attempt that draws no positive number, or meets an existing file. -/
def Answers.Vain (answers : Answers) (system : FileSystem) (fileName : List UInt8)
    (attempt : Nat) : Prop :=
  answers.rand attempt ≤ 0 ∨
    ∃ tempfileName filefd, answers.tempfileName attempt fileName = some tempfileName ∧
      answers.number attempt system.inUse = some filefd ∧
      (system.files (cStr tempfileName)).isSome

/-- An attempt whose random string has less than six characters of memory. -/
def Answers.Strays (answers : Answers) (attempt : Nat) : Prop :=
  0 < answers.rand attempt ∧ (answers.l64a attempt).length < 6

/-! ### The loop -/

def CreateRun.result (run : CreateRun) : Creation (Nat × List UInt8) × FileSystem :=
  (run.outcome.map (fun fd => (fd, run.fileName)), run.system)

section

variable (answers : Answers) (system : FileSystem) (fileName : List UInt8)

theorem Answers.tempfileName_eq_none (attempt : Nat) :
    answers.tempfileName attempt fileName = none ↔ (answers.l64a attempt).length < 6 := by
  rw [tempfileName, Option.map_eq_none_iff, sanitise_eq_none]

private theorem Answers.tryTempFile_eq (attempt : Nat) :
    answers.tryTempFile system fileName attempt =
      (answers.createRound system fileName attempt).map
        (fun (outcome, name, files) => (outcome.map (fun fd => (fd, name)), files)) := by
  unfold Answers.tryTempFile Answers.createRound
  by_cases negative : answers.rand attempt ≤ 0
  · rw [if_pos negative, if_pos negative]
    rfl
  · rw [if_neg negative, if_neg negative]
    cases answers.tempfileName attempt fileName with
    | none => rfl
    | some tempfileName =>
        cases answers.number attempt system.inUse with
        | none => rfl
        | some filefd =>
            by_cases met : (system.files (cStr tempfileName)).isSome = true
            · simp only [if_pos met]
              rfl
            · simp only [if_neg met]
              rfl

/-- The function of the transfers is this one. -/
theorem Answers.createTempFile_eq (attempt : Nat) (i : UInt16) :
    answers.createTempFile system fileName attempt i =
      (answers.createLoop system fileName attempt i).result := by
  induction attempt, i using Answers.createLoop.induct answers system fileName with
  | case1 attempt i outcome name files once =>
      rw [Answers.createTempFile, Answers.createLoop, Answers.tryTempFile_eq, once]
      rfl
  | case2 attempt i again more ih =>
      rw [Answers.createTempFile, Answers.createLoop, Answers.tryTempFile_eq, again]
      simp only [Option.map_none, more, if_true]
      exact ih
  | case3 attempt i again last =>
      rw [Answers.createTempFile, Answers.createLoop, Answers.tryTempFile_eq, again]
      simp only [Option.map_none, last, if_false]
      rfl

private theorem Answers.createRound_none_iff (attempt : Nat) :
    answers.createRound system fileName attempt = none ↔
      answers.Vain system fileName attempt := by
  unfold Answers.createRound Answers.Vain
  by_cases negative : answers.rand attempt ≤ 0
  · rw [if_pos negative]
    exact iff_of_true rfl (Or.inl negative)
  · rw [if_neg negative, or_iff_right negative]
    cases answers.tempfileName attempt fileName with
    | none => simp
    | some tempfileName =>
        cases answers.number attempt system.inUse with
        | none => simp
        | some filefd => simp [Option.isSome_iff_ne_none]

theorem Answers.createRound_crashed_iff (attempt : Nat) :
    (∃ name files, answers.createRound system fileName attempt =
        some (.crashed, name, files)) ↔ answers.Strays attempt := by
  unfold Answers.createRound Answers.Strays
  rw [← answers.tempfileName_eq_none fileName attempt]
  by_cases negative : answers.rand attempt ≤ 0
  · rw [if_pos negative]
    refine iff_of_false ?_ (fun strays => Int.not_le.mpr strays.1 negative)
    rintro ⟨name, files, impossible⟩
    cases impossible
  · rw [if_neg negative, and_iff_right (Int.not_le.mp negative)]
    cases answers.tempfileName attempt fileName with
    | none => exact iff_of_true ⟨fileName, system, rfl⟩ rfl
    | some tempfileName =>
        refine iff_of_false ?_ (Option.some_ne_none _)
        rintro ⟨name, files, crashed⟩
        simp only at crashed
        split at crashed
        · cases crashed
        · split at crashed <;> cases crashed

/-! ### Until an attempt is not in vain -/

def roundsLeft (i : UInt16) : Nat := (65534 - i).toNat + 1

private theorem roundsLeft_eq (i : UInt16) :
    roundsLeft i = if i = 65535 then 65536 else 65535 - i.toNat := by
  have bound := i.toNat_lt
  rw [roundsLeft, UInt16.toNat_sub]
  change (2 ^ 16 - i.toNat + 65534) % 2 ^ 16 + 1 = _
  by_cases top : i = 65535
  · rw [if_pos top, top]
    rfl
  · have less : i.toNat ≠ 65535 := fun same => top (UInt16.toNat_inj.mp same)
    rw [if_neg top]
    omega

private theorem roundsLeft_le (i : UInt16) : roundsLeft i ≤ 65536 := by
  have bound := (65534 - i).toNat_lt
  rw [roundsLeft]
  omega

/-- The condition of the loop, in which the increment wraps. -/
theorem next_attempt_iff (i : UInt16) : i + 1 < 65535 ↔ (i.toNat + 1) % 2 ^ 16 < 65535 := by
  rw [UInt16.lt_iff_toNat_lt, UInt16.toNat_add]
  exact Iff.rfl

private theorem roundsLeft_succ {i : UInt16} (more : i + 1 < 65535) :
    roundsLeft i = roundsLeft (i + 1) + 1 := by
  have bound := i.toNat_lt
  have next : (i + 1).toNat = (i.toNat + 1) % 2 ^ 16 := UInt16.toNat_add i 1
  rw [next_attempt_iff] at more
  rw [roundsLeft, roundsLeft, UInt16.toNat_sub, UInt16.toNat_sub, next]
  change (2 ^ 16 - i.toNat + 65534) % 2 ^ 16 + 1 =
    (2 ^ 16 - (i.toNat + 1) % 2 ^ 16 + 65534) % 2 ^ 16 + 1 + 1
  omega

private theorem roundsLeft_last {i : UInt16} (last : ¬ i + 1 < 65535) : roundsLeft i = 1 := by
  have bound := i.toNat_lt
  rw [next_attempt_iff] at last
  rw [roundsLeft, UInt16.toNat_sub]
  change (2 ^ 16 - i.toNat + 65534) % 2 ^ 16 + 1 = 1
  omega

private theorem Answers.createLoop_cases (attempt : Nat) (i : UInt16) :
    (∃ k outcome name files, k < roundsLeft i ∧
        (∀ earlier < k, answers.createRound system fileName (attempt + earlier) = none) ∧
        answers.createRound system fileName (attempt + k) = some (outcome, name, files) ∧
        answers.createLoop system fileName attempt i =
          ⟨outcome, name, files, attempt + k + 1⟩) ∨
      (∀ k < roundsLeft i, answers.createRound system fileName (attempt + k) = none) ∧
        answers.createLoop system fileName attempt i =
          ⟨.threw .tooManyAttempts, fileName, system, attempt + roundsLeft i⟩ := by
  induction attempt, i using Answers.createLoop.induct answers system fileName with
  | case1 attempt i outcome name files once =>
      refine Or.inl ⟨0, outcome, name, files, Nat.succ_pos _, nofun, once, ?_⟩
      rw [Answers.createLoop, once]
  | case2 attempt i again more ih =>
      have later : ∀ {k}, (∀ j < k, answers.createRound system fileName (attempt + 1 + j) =
          none) → ∀ j < k + 1, answers.createRound system fileName (attempt + j) = none := by
        intro k vain j less
        cases j with
        | zero => exact again
        | succ j =>
            have before := vain j (Nat.lt_of_succ_lt_succ less)
            rwa [Nat.add_assoc, Nat.add_comm 1 j] at before
      rw [Answers.createLoop, again]
      simp only [more, if_true]
      rw [roundsLeft_succ more]
      rcases ih with ⟨k, outcome, name, files, less, vain, once, run⟩ | ⟨vain, run⟩
      · refine Or.inl ⟨k + 1, outcome, name, files, Nat.succ_lt_succ less, later vain, ?_, ?_⟩
        · rwa [Nat.add_assoc, Nat.add_comm 1 k] at once
        · rwa [Nat.add_assoc attempt 1 k, Nat.add_comm 1 k] at run
      · refine Or.inr ⟨later vain, ?_⟩
        rwa [Nat.add_assoc, Nat.add_comm 1] at run
  | case3 attempt i again last =>
      rw [Answers.createLoop, again, roundsLeft_last last]
      simp only [last, if_false]
      refine Or.inr ⟨?_, trivial⟩
      intro k less
      rw [Nat.lt_one_iff.mp less]
      exact again

theorem Answers.Vain.not_strays {attempt : Nat} (vain : answers.Vain system fileName attempt) :
    ¬ answers.Strays attempt := by
  intro strays
  rcases vain with negative | ⟨tempfileName, filefd, named, _⟩
  · exact Int.not_le.mpr strays.1 negative
  · rw [(answers.tempfileName_eq_none fileName attempt).mpr strays.2] at named
    cases named

end

/-! ### Giving up -/

/-- A call gives up after `UINT16_MAX` attempts in vain or more; else it has made a new file
under the name it stores, or leaves everything as it was. It never runs on, nor out of the
memory of a random string. -/
structure GivesUpLate (answers : Answers) (system : FileSystem) (fileName : List UInt8)
    (run : CreateRun) : Prop where
  tooMany : run.outcome = .threw .tooManyAttempts →
    65535 ≤ run.attempts ∧ ∀ attempt < run.attempts, answers.Vain system fileName attempt
  bounded : run.attempts ≤ 65536
  ends : run.outcome ≠ .crashed
  created : ∀ fd, run.outcome = .returned fd →
    (∃ attempt, answers.tempfileName attempt fileName = some run.fileName) ∧
      system.files (cStr run.fileName) = none ∧ system.inUse fd = false ∧
      run.system = system.create fd run.fileName
  unchanged : ∀ error, run.outcome = .threw error →
    run.fileName = fileName ∧ run.system = system

inductive RoundEnds (answers : Answers) (system : FileSystem) (fileName : List UInt8)
    (attempt : Nat) : Creation Nat × List UInt8 × FileSystem → Prop where
  | crashed (strays : answers.Strays attempt) :
      RoundEnds answers system fileName attempt (.crashed, fileName, system)
  | failed (tempfileName : List UInt8) : RoundEnds answers system fileName attempt
      (.threw (.failed tempfileName), fileName, system)
  | created (fd : Nat) (tempfileName : List UInt8)
      (named : answers.tempfileName attempt fileName = some tempfileName)
      (new : system.files (cStr tempfileName) = none)
      (free : system.inUse fd = false) : RoundEnds answers system fileName attempt
        (.returned fd, tempfileName, system.create fd tempfileName)

section

variable {answers : Answers} {system : FileSystem} {fileName : List UInt8}

private theorem Answers.createRound_ends {attempt : Nat}
    {ended : Creation Nat × List UInt8 × FileSystem}
    (once : answers.createRound system fileName attempt = some ended) :
    RoundEnds answers system fileName attempt ended := by
  have crash := answers.createRound_crashed_iff system fileName attempt
  rw [once] at crash
  unfold Answers.createRound at once
  by_cases negative : answers.rand attempt ≤ 0
  · rw [if_pos negative] at once
    cases once
  · rw [if_neg negative] at once
    cases named : answers.tempfileName attempt fileName with
    | none =>
        simp only [named] at once
        cases once
        exact .crashed (crash.mp ⟨fileName, system, rfl⟩)
    | some tempfileName =>
        cases found : answers.number attempt system.inUse with
        | none =>
            simp only [named, found] at once
            cases once
            exact .failed tempfileName
        | some fd =>
            simp only [named, found] at once
            by_cases met : (system.files (cStr tempfileName)).isSome = true
            · rw [if_pos met] at once
              cases once
            · rw [if_neg met] at once
              cases once
              exact .created fd tempfileName named (Option.not_isSome_iff_eq_none.mp met)
                (answers.number_free attempt system.inUse fd found)

private theorem GivesUpLate.of_round {k : Nat} (few : k + 1 ≤ 65536)
    (stays : ¬ answers.Strays k) {ended : Creation Nat × List UInt8 × FileSystem}
    (ends : RoundEnds answers system fileName k ended) :
    GivesUpLate answers system fileName ⟨ended.1, ended.2.1, ended.2.2, k + 1⟩ := by
  cases ends with
  | crashed strays => exact absurd strays stays
  | failed tempfileName =>
      constructor
      case tooMany =>
        intro impossible
        cases impossible
      case bounded => exact few
      case ends => exact nofun
      case created =>
        intro fd impossible
        cases impossible
      case unchanged => exact fun _ _ => ⟨rfl, rfl⟩
  | created fd tempfileName named new free =>
      constructor
      case tooMany =>
        intro impossible
        cases impossible
      case bounded => exact few
      case ends => exact nofun
      case created =>
        intro fd' same
        cases same
        exact ⟨⟨k, named⟩, new, free, rfl⟩
      case unchanged =>
        intro error impossible
        cases impossible

private theorem GivesUpLate.of_vain {attempts : Nat} (enough : 65535 ≤ attempts)
    (few : attempts ≤ 65536) (vain : ∀ attempt < attempts, answers.Vain system fileName attempt) :
    GivesUpLate answers system fileName
      ⟨.threw .tooManyAttempts, fileName, system, attempts⟩ := by
  constructor
  case tooMany => exact fun _ => ⟨enough, vain⟩
  case bounded => exact few
  case ends => exact nofun
  case created =>
    intro fd impossible
    cases impossible
  case unchanged => exact fun _ _ => ⟨rfl, rfl⟩

end

/-- No attempt that is made leaves the memory of its random string. -/
def Answers.StaysInMemory (answers : Answers) (system : FileSystem) (fileName : List UInt8) :
    Prop :=
  ∀ attempt < roundsLeft answers.counter,
    (∀ earlier < attempt, answers.Vain system fileName earlier) → ¬ answers.Strays attempt

private theorem Answers.staysInMemory_iff {answers : Answers} {system : FileSystem}
    {fileName : List UInt8} {k : Nat} (less : k < roundsLeft answers.counter)
    (vain : ∀ earlier < k, answers.Vain system fileName earlier)
    (useful : ¬ answers.Vain system fileName k) :
    answers.StaysInMemory system fileName ↔ ¬ answers.Strays k := by
  constructor
  · exact fun stays => stays k less vain
  · intro stays attempt _less allVain strays
    rcases Nat.lt_trichotomy attempt k with before | same | behind
    · exact (vain attempt before).not_strays answers system fileName strays
    · rw [same] at strays
      exact stays strays
    · exact useful (allVain k behind)

private theorem GivesUpLate.vain_iff {answers : Answers} {system : FileSystem}
    {fileName : List UInt8}
    (vain : ∀ attempt < roundsLeft answers.counter, answers.Vain system fileName attempt) :
    GivesUpLate answers system fileName
        ⟨.threw .tooManyAttempts, fileName, system, roundsLeft answers.counter⟩ ↔
      answers.counter = 0 ∨ answers.counter = 65535 ∨
        ∃ attempt < 65535 - answers.counter.toNat,
          ¬ answers.Vain system fileName attempt := by
  have rounds := roundsLeft_eq answers.counter
  constructor
  · intro late
    have enough : 65535 ≤ roundsLeft answers.counter := (late.tooMany rfl).1
    by_cases top : answers.counter = 65535
    · exact Or.inr (Or.inl top)
    · rw [if_neg top] at rounds
      exact Or.inl (UInt16.toNat_inj.mp (by change _ = 0; omega))
  · intro started
    have enough : 65535 ≤ roundsLeft answers.counter := by
      rcases started with zero | top | ⟨attempt, less, useful⟩
      · rw [rounds, zero]
        decide
      · rw [rounds, if_pos top]
        decide
      · exfalso
        apply useful
        apply vain
        split at rounds <;> omega
    exact .of_vain enough (roundsLeft_le answers.counter) vain

/-- A call gives up late exactly when the attempts it makes stay in memory, and its counter
starts at 0 or at its last value, or one of the attempts that are left is not in vain. -/
theorem givesUpLate_iff (answers : Answers) (system : FileSystem) (fileName : List UInt8) :
    GivesUpLate answers system fileName
        (answers.createLoop system fileName 0 answers.counter) ↔
      answers.StaysInMemory system fileName ∧
        (answers.counter = 0 ∨ answers.counter = 65535 ∨
          ∃ attempt < 65535 - answers.counter.toNat,
            ¬ answers.Vain system fileName attempt) := by
  rcases answers.createLoop_cases system fileName 0 answers.counter with
    ⟨k, outcome, name, files, less, before, once, run⟩ | ⟨vain, run⟩
  · rw [Nat.zero_add] at once run
    have useful : ¬ answers.Vain system fileName k := by
      rw [← Answers.createRound_none_iff, once]
      exact Option.some_ne_none _
    have vain : ∀ earlier < k, answers.Vain system fileName earlier := by
      intro earlier sooner
      have round := before earlier sooner
      rwa [Nat.zero_add, Answers.createRound_none_iff] at round
    have few : k + 1 ≤ 65536 := Nat.le_trans less (roundsLeft_le answers.counter)
    have reached : answers.counter = 0 ∨ answers.counter = 65535 ∨
        ∃ attempt < 65535 - answers.counter.toNat,
          ¬ answers.Vain system fileName attempt := by
      have rounds := roundsLeft_eq answers.counter
      by_cases top : answers.counter = 65535
      · exact Or.inr (Or.inl top)
      · rw [if_neg top] at rounds
        exact Or.inr (Or.inr ⟨k, by omega, useful⟩)
    have crash := answers.createRound_crashed_iff system fileName k
    rw [once] at crash
    rw [run, and_iff_left reached, Answers.staysInMemory_iff less vain useful]
    constructor
    · intro late strays
      obtain ⟨_name, _files, same⟩ := crash.mpr strays
      cases same
      exact late.ends rfl
    · exact fun stays => GivesUpLate.of_round few stays (Answers.createRound_ends once)
  · have allVain : ∀ attempt < roundsLeft answers.counter,
        answers.Vain system fileName attempt := by
      intro attempt less
      have round := vain attempt less
      rwa [Nat.zero_add, Answers.createRound_none_iff] at round
    have stays : answers.StaysInMemory system fileName :=
      fun attempt less _ => (allVain attempt less).not_strays answers system fileName
    rw [run, Nat.zero_add, and_iff_right stays]
    exact GivesUpLate.vain_iff allVain

/-- The stack holds 65534 where the counter is, and no random number is positive. -/
def lateCounter : Answers where
  counter := 65534
  rand := fun _ => 0
  l64a := fun _ => [0]
  number := fun _ _ => none
  number_free := by
    intro attempt inUse fd impossible
    cases impossible

def noFiles : FileSystem := ⟨fun _ => none, fun _ => false⟩

theorem lateCounter_one_attempt :
    lateCounter.createLoop noFiles [120] 0 lateCounter.counter =
        ⟨.threw .tooManyAttempts, [120], noFiles, 1⟩ ∧
      ¬ GivesUpLate lateCounter noFiles [120]
        (lateCounter.createLoop noFiles [120] 0 lateCounter.counter) := by
  have round : lateCounter.createRound noFiles [120] 0 = none := if_pos (Int.le_refl 0)
  have run : lateCounter.createLoop noFiles [120] 0 lateCounter.counter =
      ⟨.threw .tooManyAttempts, [120], noFiles, 1⟩ := by
    rw [Answers.createLoop, round]
    rfl
  refine ⟨run, ?_⟩
  rw [run]
  intro late
  have attempts := (late.tooMany rfl).1
  contradiction

end Socketxx.FileWire
