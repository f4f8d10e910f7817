import Socketxx.Library.ExclusiveFiles
import Socketxx.TempFile

/-!
Threads that receive files under one directory at the same time, each in `i_file` with a
prefix, system call by system call.

A name is tried until `open` finds nothing of that name; from then on the file is the
thread's own, until it is closed and unlinked again or its name is returned.
-/

set_option autoImplicit false

namespace Socketxx.TempThreads

open CString (cStr)
open ExclusiveFiles (Disk Holding Move Isolated)

/-- Where a thread is in `i_file`, with what it has written to its file. -/
inductive Phase where
  | idle
  | size (fileName : List UInt8)
  | creating (fileName : List UInt8) (i : UInt16)
  | receiving (tempfd : Nat) (fileName written : List UInt8)
  | catching (tempfd : Nat) (fileName written : List UInt8)
  | unlinking (fileName written : List UInt8)
  | returning (tempfd : Nat) (fileName written : List UInt8)

/-- The names that calls have returned stand with what their files were given. -/
structure State (ι : Type) where
  disk : Disk (List UInt8) UInt8
  phase : ι → Phase
  returned : List (List UInt8 × List UInt8)

variable {ι : Type}

def State.initial (disk : Disk (List UInt8) UInt8) : State ι := ⟨disk, fun _ => .idle, []⟩

/-- Behind an attempt in vain: `while (++i < UINT16_MAX)`, or the exception. -/
def Phase.again (fileName : List UInt8) (i : UInt16) : Phase :=
  if i + 1 < 65535 then .creating fileName (i + 1) else .idle

def tempName (fileName randstr : List UInt8) : List UInt8 := fileName ++ 45 :: randstr

variable [DecidableEq ι]

def State.enter (s : State ι) (i : ι) (phase : Phase) : State ι :=
  { s with phase := Function.update s.phase i phase }

/-- One step of one thread. Whatever throws in the `try` block leads to the `catch` block,
which has nothing to do before there is a descriptor. -/
inductive Step : State ι → State ι → Prop where
  | call {s : State ι} (i : ι) (fileName : List UInt8) (idle : s.phase i = .idle) :
      Step s (s.enter i (.size fileName))
  | sizeThrows {s : State ι} (i : ι) {fileName : List UInt8}
      (here : s.phase i = .size fileName) : Step s (s.enter i .idle)
  | sizeRead {s : State ι} (i : ι) {fileName : List UInt8} (counter : UInt16)
      (here : s.phase i = .size fileName) : Step s (s.enter i (.creating fileName counter))
  | notPositive {s : State ι} (i : ι) {fileName : List UInt8} {counter : UInt16}
      (here : s.phase i = .creating fileName counter) :
      Step s (s.enter i (.again fileName counter))
  | fileExists {s : State ι} (i : ι) {fileName : List UInt8} {counter : UInt16}
      (randstr : List UInt8) (here : s.phase i = .creating fileName counter)
      (present : s.disk.entries (cStr (tempName fileName randstr)) ≠ none) :
      Step s (s.enter i (.again fileName counter))
  | openFails {s : State ι} (i : ι) {fileName : List UInt8} {counter : UInt16}
      (here : s.phase i = .creating fileName counter) : Step s (s.enter i .idle)
  | opened {s : State ι} (i : ι) {fileName : List UInt8} {counter : UInt16}
      (randstr : List UInt8) (tempfd : Nat) (here : s.phase i = .creating fileName counter)
      (absent : s.disk.entries (cStr (tempName fileName randstr)) = none)
      (free : s.disk.opened tempfd = none) :
      Step s { s.enter i (.receiving tempfd (tempName fileName randstr) []) with
        disk := s.disk.create tempfd (cStr (tempName fileName randstr)) }
  | wrote {s : State ι} (i : ι) {tempfd : Nat} {fileName written : List UInt8}
      (data : List UInt8) (here : s.phase i = .receiving tempfd fileName written) :
      Step s { s.enter i (.receiving tempfd fileName (written ++ data)) with
        disk := s.disk.write tempfd data }
  | throws {s : State ι} (i : ι) {tempfd : Nat} {fileName written : List UInt8}
      (here : s.phase i = .receiving tempfd fileName written) :
      Step s (s.enter i (.catching tempfd fileName written))
  | received {s : State ι} (i : ι) {tempfd : Nat} {fileName written : List UInt8}
      (here : s.phase i = .receiving tempfd fileName written) :
      Step s (s.enter i (.returning tempfd fileName written))
  | closed {s : State ι} (i : ι) {tempfd : Nat} {fileName written : List UInt8}
      (here : s.phase i = .catching tempfd fileName written) :
      Step s { s.enter i (.unlinking fileName written) with disk := s.disk.close tempfd }
  | unlinked {s : State ι} (i : ι) {fileName written : List UInt8}
      (here : s.phase i = .unlinking fileName written) :
      Step s { s.enter i .idle with disk := s.disk.unlink (cStr fileName) }
  | returns {s : State ι} (i : ι) {tempfd : Nat} {fileName written : List UInt8}
      (here : s.phase i = .returning tempfd fileName written) :
      Step s { s.enter i .idle with
        disk := s.disk.close tempfd
        returned := s.returned ++ [(fileName, written)] }

def Reached (disk : Disk (List UInt8) UInt8) (s : State ι) : Prop :=
  Relation.ReflTransGen Step (State.initial disk) s

/-! ### The file of a thread -/

def Phase.holding : Phase → Option (Holding (List UInt8) UInt8)
  | .idle => none
  | .size _ => none
  | .creating _ _ => none
  | .receiving tempfd fileName written => some ⟨cStr fileName, some tempfd, written⟩
  | .catching tempfd fileName written => some ⟨cStr fileName, some tempfd, written⟩
  | .unlinking fileName written => some ⟨cStr fileName, none, written⟩
  | .returning tempfd fileName written => some ⟨cStr fileName, some tempfd, written⟩

omit [DecidableEq ι] in
/-- The threads as owners of their files. -/
def State.files (s : State ι) : ExclusiveFiles.State ι (List UInt8) UInt8 where
  disk := s.disk
  holding i := (s.phase i).holding
  kept := s.returned.map (fun (fileName, written) => (cStr fileName, written))

@[simp] theorem Phase.again_holding (fileName : List UInt8) (i : UInt16) :
    (Phase.again fileName i).holding = none := by
  unfold Phase.again
  split <;> rfl

theorem enter_files (s : State ι) (i : ι) (phase : Phase) :
    (s.enter i phase).files = s.files.give i phase.holding := by
  have holdings : (fun j => (Function.update s.phase i phase j).holding) =
      Function.update (fun j => (s.phase j).holding) i phase.holding :=
    Function.comp_update Phase.holding s.phase i phase
  simp only [State.enter, State.files, ExclusiveFiles.State.give, holdings]

private theorem enter_files_same {s : State ι} {i : ι} {phase : Phase}
    (same : phase.holding = (s.phase i).holding) : (s.enter i phase).files = s.files := by
  have holding : phase.holding = s.files.holding i := same
  rw [enter_files, holding, ExclusiveFiles.State.give, Function.update_eq_self]

private theorem enter_disk_files (s : State ι) (i : ι) (phase : Phase)
    (disk : Disk (List UInt8) UInt8) :
    State.files { s.enter i phase with disk := disk } =
      { s.files.give i phase.holding with disk := disk } := by
  rw [← enter_files]
  rfl

/-- A step of a thread is what owners do with files, or nothing of that. -/
private theorem Step.moves {s after : State ι} (step : Step s after) :
    Relation.ReflTransGen Move s.files after.files := by
  have still : ∀ i phase, phase.holding = (s.phase i).holding →
      Relation.ReflTransGen Move s.files (s.enter i phase).files := by
    intro i phase same
    rw [enter_files_same same]
  have held : ∀ {i phase}, s.phase i = phase → s.files.holding i = phase.holding :=
    fun here => congrArg Phase.holding here
  cases step with
  | call i fileName idle => exact still i _ (by rw [idle]; rfl)
  | sizeThrows i here => exact still i _ (by rw [here]; rfl)
  | sizeRead i counter here => exact still i _ (by rw [here]; rfl)
  | notPositive i here => exact still i _ (by rw [here, Phase.again_holding]; rfl)
  | fileExists i randstr here present =>
      exact still i _ (by rw [here, Phase.again_holding]; rfl)
  | openFails i here => exact still i _ (by rw [here]; rfl)
  | opened i randstr tempfd here absent free =>
      rw [enter_disk_files]
      exact Relation.ReflTransGen.single (Move.create i tempfd _ (held here) absent free)
  | wrote i data here =>
      rw [enter_disk_files]
      exact Relation.ReflTransGen.single (Move.write i data (held here))
  | throws i here => exact still i _ (by rw [here]; rfl)
  | received i here => exact still i _ (by rw [here]; rfl)
  | closed i here =>
      rw [enter_disk_files]
      exact Relation.ReflTransGen.single (Move.close i (held here))
  | unlinked i here =>
      rw [enter_disk_files]
      exact Relation.ReflTransGen.single (Move.unlink i (held here))
  | @returns i tempfd fileName written here =>
      have close := Move.close i (held here)
      have given := ExclusiveFiles.give_self s.files i (some ⟨cStr fileName, none, written⟩)
      have keep := (Relation.ReflTransGen.single close).tail (Move.keep i given)
      have holding := congrArg ExclusiveFiles.State.holding (enter_files s i .idle)
      simp only [ExclusiveFiles.State.give, Function.update_idem] at keep holding
      simp only [State.files, List.map_append, List.map_singleton] at keep holding ⊢
      rw [holding]
      exact keep

private theorem Reached.moves {disk : Disk (List UInt8) UInt8} {s : State ι}
    (reached : Reached disk s) :
    Relation.ReflTransGen Move (ExclusiveFiles.State.initial disk) s.files := by
  induction reached with
  | refl => exact Relation.ReflTransGen.refl
  | tail _ step ih => exact ih.trans step.moves

def emptyDisk : Disk (List UInt8) UInt8 where
  entries _ := none
  contents _ := []
  next := 0
  opened _ := none
  entries_lt := nofun

open FileWire (FileSystem Answers Md5 Receiver CreateError Creation)

structure Shows (disk : Disk (List UInt8) UInt8) (system : FileSystem) : Prop where
  files : ∀ path, disk.file path = (system.files path).map FileTransfer.File.bytes
  opened : ∀ fd, (disk.opened fd).isSome = system.inUse fd

section Alone

variable {disk : Disk (List UInt8) UInt8} {system : FileSystem}

private theorem Shows.absent (shows : Shows disk system) {path : List UInt8} :
    disk.entries path = none ↔ system.files path = none := by
  have file := shows.files path
  rw [Disk.file] at file
  rw [← Option.map_eq_none_iff, file, Option.map_eq_none_iff]

private theorem Shows.free (shows : Shows disk system) {fd : Nat} :
    disk.opened fd = none ↔ system.inUse fd = false := by
  rw [← shows.opened fd, Option.isSome_eq_false_iff, Option.isNone_iff_eq_none]

theorem Shows.files_update (shows : Shows disk system) {after : Disk (List UInt8) UInt8}
    {name : List UInt8} {file : Option FileTransfer.File}
    (named : after.file name = file.map FileTransfer.File.bytes)
    (others : ∀ other, other ≠ name → after.file other = disk.file other)
    (path : List UInt8) :
    after.file path =
      (Function.update system.files name file path).map FileTransfer.File.bytes := by
  by_cases same : path = name
  · rw [same, Function.update_self, named]
  · rw [Function.update_of_ne same, others path same, shows.files]

theorem Shows.opened_update (shows : Shows disk system) {after : Disk (List UInt8) UInt8}
    {fd : Nat} {inUse : Bool} (here : (after.opened fd).isSome = inUse)
    (others : ∀ other, other ≠ fd → after.opened other = disk.opened other) (other : Nat) :
    (after.opened other).isSome = Function.update system.inUse fd inUse other := by
  by_cases same : other = fd
  · rw [same, Function.update_self, here]
  · rw [Function.update_of_ne same, others other same, shows.opened]

theorem Shows.create (shows : Shows disk system) (fd : Nat) (fileName : List UInt8) :
    Shows (disk.create fd (cStr fileName)) (system.create fd fileName) where
  files := shows.files_update (ExclusiveFiles.create_file disk fd _)
    (fun _ apart => ExclusiveFiles.create_files disk fd _ apart)
  opened := shows.opened_update (by rw [ExclusiveFiles.create_fd, Option.isSome_some])
    (fun _ apart => ExclusiveFiles.create_opened disk fd _ apart)

private theorem Shows.write (shows : Shows disk system) (fd : Nat) (fileName : List UInt8)
    (file : FileTransfer.File) :
    Shows ((disk.create fd (cStr fileName)).write fd file.bytes)
      ((system.create fd fileName).store fileName file) where
  files := by
    apply (shows.create fd fileName).files_update
    · rw [ExclusiveFiles.create_write_file, Option.map_some]
    · intro other apart
      rw [ExclusiveFiles.create_write_files disk fd _ _ apart,
        ExclusiveFiles.create_files disk fd _ apart]
  opened := by
    rw [ExclusiveFiles.write_opened]
    exact (shows.create fd fileName).opened

private theorem Shows.close (shows : Shows disk system) (fd : Nat) :
    Shows (disk.close fd) (system.close fd) where
  files := shows.files
  opened := shows.opened_update (by rw [ExclusiveFiles.close_fd, Option.isSome_none])
    (fun _ apart => ExclusiveFiles.close_opened disk fd apart)

private theorem Shows.unlink (shows : Shows disk system) (fileName : List UInt8) :
    Shows (disk.unlink (cStr fileName)) (system.unlink fileName) where
  files := shows.files_update (ExclusiveFiles.unlink_file disk _)
    (fun _ apart => ExclusiveFiles.unlink_files disk _ apart)
  opened := shows.opened

variable {s : State ι}

theorem enter_enter (s : State ι) (i : ι) (first second : Phase) :
    (s.enter i first).enter i second = s.enter i second := by
  rw [State.enter, State.enter, State.enter, Function.update_idem]

theorem enter_here (s : State ι) (i : ι) (phase : Phase) : (s.enter i phase).phase i = phase :=
  Function.update_self ..

def State.withFile (s : State ι) (i : ι) (tempfd : Nat) (name : List UInt8) : State ι :=
  { s.enter i (.receiving tempfd name []) with disk := s.disk.create tempfd (cStr name) }

theorem enter_withFile (s : State ι) (i : ι) (phase : Phase) (tempfd : Nat)
    (name : List UInt8) : (s.enter i phase).withFile i tempfd name = s.withFile i tempfd name := by
  rw [State.withFile, enter_enter]
  rfl

inductive Tried (system : FileSystem) (s : State ι) (i : ι) (fileName : List UInt8)
    (counter : UInt16) : Option (Creation (Nat × List UInt8) × FileSystem) → Prop where
  | again (step : Step s (s.enter i (.again fileName counter))) :
      Tried system s i fileName counter none
  | failed (error : CreateError) (step : Step s (s.enter i .idle)) :
      Tried system s i fileName counter (some (.threw error, system))
  /-- The process ends where the thread is. -/
  | crashed : Tried system s i fileName counter (some (.crashed, system))
  | made (tempfd : Nat) (name : List UInt8) (step : Step s (s.withFile i tempfd name)) :
      Tried system s i fileName counter
        (some (.returned (tempfd, name), system.create tempfd name))

private theorem tryTempFile_step (answers : Answers) {fileName : List UInt8} (attempt : Nat)
    {counter : UInt16} {i : ι} (here : s.phase i = .creating fileName counter)
    (shows : Shows s.disk system) :
    Tried system s i fileName counter (answers.tryTempFile system fileName attempt) := by
  unfold Answers.tryTempFile
  by_cases negative : answers.rand attempt ≤ 0
  · rw [if_pos negative]
    exact .again (Step.notPositive i here)
  · rw [if_neg negative]
    cases named : answers.tempfileName attempt fileName with
    | none => exact .crashed
    | some name =>
        obtain ⟨randstr, _ran, same⟩ := Option.map_eq_some_iff.mp named
        subst same
        cases found : answers.number attempt system.inUse with
        | none => exact .failed _ (Step.openFails i here)
        | some tempfd =>
            have unused := answers.number_free attempt system.inUse tempfd found
            have name : fileName ++ 45 :: cStr randstr = tempName fileName (cStr randstr) := rfl
            simp only [name]
            by_cases met : (system.files (cStr (tempName fileName (cStr randstr)))).isSome
            · rw [if_pos met]
              have present := mt shows.absent.mp (Option.isSome_iff_ne_none.mp met)
              exact .again (Step.fileExists i _ here present)
            · rw [if_neg met]
              have absent := shows.absent.mpr (Option.not_isSome_iff_eq_none.mp met)
              exact .made tempfd _ (Step.opened i _ tempfd here absent (shows.free.mpr unused))

inductive Created (system : FileSystem) (s : State ι) (i : ι) :
    Creation (Nat × List UInt8) × FileSystem → Prop where
  | failed (error : CreateError) (steps : Relation.ReflTransGen Step s (s.enter i .idle)) :
      Created system s i (.threw error, system)
  | crashed (fileName : List UInt8) (counter : UInt16)
      (steps : Relation.ReflTransGen Step s (s.enter i (.creating fileName counter))) :
      Created system s i (.crashed, system)
  | made (tempfd : Nat) (name : List UInt8)
      (steps : Relation.ReflTransGen Step s (s.withFile i tempfd name)) :
      Created system s i (.returned (tempfd, name), system.create tempfd name)

private theorem Created.head {i : ι} {phase : Phase}
    {ended : Creation (Nat × List UInt8) × FileSystem} (step : Step s (s.enter i phase))
    (created : Created system (s.enter i phase) i ended) : Created system s i ended := by
  cases created with
  | failed error steps =>
      rw [enter_enter] at steps
      exact .failed error (steps.head step)
  | crashed fileName counter steps =>
      rw [enter_enter] at steps
      exact .crashed fileName counter (steps.head step)
  | made tempfd name steps =>
      rw [enter_withFile] at steps
      exact .made tempfd name (steps.head step)

/-- `create_temp_file` of one thread with the files to itself. -/
private theorem createTempFile_steps (answers : Answers) (fileName : List UInt8) (attempt : Nat)
    (counter : UInt16) (i : ι) (s : State ι) (here : s.phase i = .creating fileName counter)
    (shows : Shows s.disk system) :
    Created system s i (answers.createTempFile system fileName attempt counter) := by
  have stays : s.enter i (.creating fileName counter) = s := by
    rw [State.enter, ← here, Function.update_eq_self]
  induction attempt, counter
    using Socketxx.FileWire.Answers.createTempFile.induct answers system fileName
    generalizing s with
  | case1 attempt counter ended once =>
      have tried := tryTempFile_step answers attempt here shows
      rw [once] at tried
      rw [Answers.createTempFile, once]
      cases tried with
      | failed error step => exact .failed error (Relation.ReflTransGen.single step)
      | crashed => exact .crashed fileName counter (by rw [stays])
      | made tempfd name step => exact .made tempfd name (Relation.ReflTransGen.single step)
  | case2 attempt counter again more ih =>
      have tried := tryTempFile_step answers attempt here shows
      rw [again] at tried
      cases tried with
      | again step =>
          rw [Phase.again, if_pos more] at step
          rw [Answers.createTempFile, again]
          simp only [more, if_true]
          exact Created.head step (ih _ (enter_here s i _) shows (enter_enter s i _ _))
  | case3 attempt counter again last =>
      have tried := tryTempFile_step answers attempt here shows
      rw [again] at tried
      cases tried with
      | again step =>
          rw [Phase.again, if_neg last] at step
          rw [Answers.createTempFile, again]
          simp only [last, if_false]
          exact .failed _ (Relation.ReflTransGen.single step)

def Agrees (s after : State ι) :
    StreamReader.Outcome FileWire.TempError FileWire.TempFault
      ((List UInt8 × FileWire.Reception) × List UInt8) × FileSystem → Prop
  | (.ok ((fileName, reception), _), system) =>
      Shows after.disk system ∧ after.phase = s.phase ∧
        after.returned = s.returned ++ [(fileName, reception.done.file.bytes)]
  | (.throw _, system) =>
      Shows after.disk system ∧ after.phase = s.phase ∧ after.returned = s.returned
  | (.undefined fault, system) =>
      fault = .outsideMemory ∧ Shows after.disk system ∧ after.returned = s.returned
  | (.running, _) => False

private theorem enter_back {i : ι} (idle : s.phase i = .idle) (phase : Phase) :
    (s.enter i phase).enter i .idle = s := by
  rw [enter_enter, State.enter, ← idle, Function.update_eq_self]

private theorem phases_back {i : ι} (idle : s.phase i = .idle) {first second third : Phase} :
    Function.update (Function.update (Function.update (Function.update s.phase i first) i second)
      i third) i .idle = s.phase := by
  rw [Function.update_idem, Function.update_idem, Function.update_idem, ← idle,
    Function.update_eq_self]

/-- A thread that has the files to itself does what `i_file` with a prefix was taken to do
in one go. -/
theorem iFileTemp_steps (md5 : Md5) (receiver : Receiver) (whole : receiver.WholeOrFails)
    (answers : Answers) (fileName stream : List UInt8) (i : ι) (idle : s.phase i = .idle)
    (shows : Shows s.disk system) :
    ∃ after, Relation.ReflTransGen Step s after ∧
      Agrees s after (receiver.iFileTemp md5 answers system fileName stream) := by
  have called := Relation.ReflTransGen.single (Step.call i fileName idle)
  have ends := createTempFile_steps answers fileName 0 answers.counter i _
    (enter_here s i (.creating fileName answers.counter)) shows
  unfold Receiver.iFileTemp
  -- As in the sequential proof, the loop is named before anything reduces.
  generalize answers.createTempFile system fileName 0 answers.counter = ended at ends ⊢
  rcases receiver.iSize_settles stream with ⟨⟨sz, behind⟩, size⟩ | ⟨error, thrown, _⟩
  · have counted := called.tail (Step.sizeRead i answers.counter (enter_here s i _))
    rw [enter_enter] at counted
    rw [size]
    cases ends with
    | failed error steps =>
        rw [enter_back idle] at steps
        exact ⟨s, counted.trans steps, shows, rfl, rfl⟩
    | crashed name counter steps =>
        rw [enter_enter] at steps
        exact ⟨_, counted.trans steps, rfl, shows, rfl⟩
    | made tempfd name steps =>
        rw [enter_withFile] at steps
        simp only
        rcases whole.receiveFile md5 ⟨[], 0⟩ sz behind with
          ⟨⟨reception, rest⟩, received⟩ | ⟨error, thrown, _⟩
        · rw [received]
          have wrote := (counted.trans steps).tail
            (Step.wrote i reception.done.file.bytes (enter_here s i _))
          have returns := (wrote.tail (Step.received i (enter_here _ i _))).tail
            (Step.returns i (enter_here _ i _))
          refine ⟨_, returns, (shows.write tempfd name reception.done.file).close tempfd, ?_, rfl⟩
          exact phases_back idle
        · rw [thrown]
          have catching := (counted.trans steps).tail (Step.throws i (enter_here s i _))
          have unlinked := (catching.tail (Step.closed i (enter_here _ i _))).tail
            (Step.unlinked i (enter_here _ i _))
          refine ⟨_, unlinked, ((shows.create tempfd name).close tempfd).unlink name, ?_, rfl⟩
          exact phases_back idle
  · have ended := called.tail (Step.sizeThrows i (enter_here s i _))
    rw [enter_back idle] at ended
    rw [thrown]
    exact ⟨s, ended, shows, rfl, rfl⟩

end Alone

end Socketxx.TempThreads
