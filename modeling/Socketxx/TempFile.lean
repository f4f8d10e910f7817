import Mathlib.Logic.Function.Basic
import Socketxx.FileWire
import Socketxx.TempName

/-!
`i_file` with a prefix: the file goes to a temporary file of a new name, which is
closed and unlinked again when the reception fails.

The part of a file that is written before a failure is not kept track of, as the file
is gone afterwards.
-/

set_option autoImplicit false

namespace Socketxx.FileWire

open StreamReader
open CString (cStr)
open SimpleSocket (Fault iInt iBin)
open FileTransfer (File Ending Progress)

/-- Files by the path that names them, and the descriptors in use. -/
structure FileSystem where
  files : List UInt8 → Option File
  inUse : Nat → Bool

def FileSystem.store (system : FileSystem) (fileName : List UInt8) (file : File) :
    FileSystem :=
  { system with files := Function.update system.files (cStr fileName) (some file) }

def FileSystem.close (system : FileSystem) (fd : Nat) : FileSystem :=
  { system with inUse := Function.update system.inUse fd false }

def FileSystem.unlink (system : FileSystem) (fileName : List UInt8) : FileSystem :=
  { system with files := Function.update system.files (cStr fileName) none }

def FileSystem.create (system : FileSystem) (fd : Nat) (fileName : List UInt8) :
    FileSystem :=
  { files := Function.update system.files (cStr fileName) (some ⟨[], 0⟩)
    inUse := Function.update system.inUse fd true }

/-- What the system answers at each attempt to create the file. `l64a` gives the memory
from the pointer on, and `number` is what `open` finds, unless it fails for another
reason than a file of that name. -/
structure Answers where
  /-- The counter `i`, which `create_temp_file` does not initialise. -/
  counter : UInt16
  rand : Nat → Int
  l64a : Nat → List UInt8
  number : Nat → (Nat → Bool) → Option Nat
  number_free : ∀ attempt inUse fd, number attempt inUse = some fd → inUse fd = false

/-- A failed `open`, with the name it was for, or `UINT16_MAX` files that exist. -/
inductive CreateError where
  | failed (tempfileName : List UInt8)
  | tooManyAttempts
deriving DecidableEq, Repr

inductive Creation (α : Type) where
  | returned (value : α)
  | threw (error : CreateError)
  /-- A character is written outside of the memory that `l64a` gave. -/
  | crashed
deriving DecidableEq, Repr

def Creation.map {α γ : Type} (f : α → γ) : Creation α → Creation γ
  | .returned value => .returned (f value)
  | .threw error => .threw error
  | .crashed => .crashed

/-- `file_name+"-"+randstr`, when the loop over six characters stays in memory. -/
def Answers.tempfileName (answers : Answers) (attempt : Nat) (fileName : List UInt8) :
    Option (List UInt8) :=
  (sanitise (answers.l64a attempt)).map (fun randstr => fileName ++ 45 :: cStr randstr)

/-- The body of the loop, where `none` is its `continue`. -/
def Answers.tryTempFile (answers : Answers) (system : FileSystem) (fileName : List UInt8)
    (attempt : Nat) : Option (Creation (Nat × List UInt8) × FileSystem) :=
  if answers.rand attempt ≤ 0 then none
  else
    match answers.tempfileName attempt fileName with
    | none => some (.crashed, system)
    | some tempfileName =>
        match answers.number attempt system.inUse with
        | none => some (.threw (.failed tempfileName), system)
        | some filefd =>
            if (system.files (cStr tempfileName)).isSome then none
            else some (.returned (filefd, tempfileName), system.create filefd tempfileName)

theorem next_attempt_lt {i : UInt16} (more : i + 1 < 65535) :
    (65534 - (i + 1)).toNat < (65534 - i).toNat := by
  have bound := i.toNat_lt
  have next : (i + 1).toNat = (i.toNat + 1) % 2 ^ 16 := UInt16.toNat_add i 1
  rw [UInt16.lt_iff_toNat_lt] at more
  change (i + 1).toNat < 65535 at more
  rw [UInt16.toNat_sub, UInt16.toNat_sub, next]
  rw [next] at more
  change (2 ^ 16 - (i.toNat + 1) % 2 ^ 16 + 65534) % 2 ^ 16 <
    (2 ^ 16 - i.toNat + 65534) % 2 ^ 16
  omega

/-- `create_temp_file`: the descriptor, and the name that replaces the prefix. -/
def Answers.createTempFile (answers : Answers) (system : FileSystem)
    (fileName : List UInt8) (attempt : Nat) (i : UInt16) :
    Creation (Nat × List UInt8) × FileSystem :=
  match answers.tryTempFile system fileName attempt with
  | some ended => ended
  | none =>
      if i + 1 < 65535 then answers.createTempFile system fileName (attempt + 1) (i + 1)
      else (.threw .tooManyAttempts, system)
termination_by (65534 - i).toNat
decreasing_by exact next_attempt_lt ‹_›

variable (md5 : Md5)

/-- What both overloads of `i_file` do behind the size. -/
def Receiver.receiveFile (receiver : Receiver) (file : File) (sz : Nat) :
    ReceiveFile Reception := do
  let (hash, done) ← receiver.readToFile md5 file sz
  let sHash ← (iBin receiver.host).mapError FileError.socket
  match receiver.sameHash hash sHash with
  | none => Reader.throw .hashLength
  | some false => Reader.throw .hashMismatch
  | some true => pure ⟨sz, done, sHash⟩

theorem Receiver.iFile_eq_bind (receiver : Receiver) (file : File) :
    receiver.iFile md5 file =
      (BitVec.toNat <$> (iInt receiver.host 8).mapError FileError.socket) >>=
        receiver.receiveFile md5 file := rfl

inductive TempError where
  | create (error : CreateError)
  | file (error : FileError)
deriving DecidableEq, Repr

inductive TempFault where
  | reader (fault : Fault)
  | outsideMemory
deriving DecidableEq, Repr

/-- The `catch` block, which asks whether there is a descriptor. -/
def FileSystem.cleanUp (system : FileSystem) (tempfd : Option Nat)
    (fileName : List UInt8) : FileSystem :=
  match tempfd with
  | none => system
  | some fd => (system.close fd).unlink fileName

def Receiver.iFileTemp (receiver : Receiver) (answers : Answers) (system : FileSystem)
    (fileName : List UInt8) (stream : List UInt8) :
    Outcome TempError TempFault ((List UInt8 × Reception) × List UInt8) × FileSystem :=
  match (BitVec.toNat <$> (iInt receiver.host 8).mapError FileError.socket) stream with
  | .throw error => (.throw (.file error), system.cleanUp none fileName)
  | .undefined fault => (.undefined (.reader fault), system)
  | .running => (.running, system)
  | .ok (sz, behind) =>
      match answers.createTempFile system fileName 0 answers.counter with
      | (.crashed, system) => (.undefined .outsideMemory, system)
      | (.threw error, system) => (.throw (.create error), system.cleanUp none fileName)
      | (.returned (tempfd, fileName), system) =>
          match receiver.receiveFile md5 ⟨[], 0⟩ sz behind with
          | .throw error => (.throw (.file error), system.cleanUp (some tempfd) fileName)
          | .undefined fault => (.undefined (.reader fault), system)
          | .running => (.running, system)
          | .ok (reception, rest) =>
              (.ok ((fileName, reception), rest),
                (system.store fileName reception.done.file).close tempfd)

/-! ### A file is created, or nothing is changed -/

def CreateEnds (system : FileSystem)
    (ended : Creation (Nat × List UInt8) × FileSystem) : Prop :=
  (∃ error, ended = (.threw error, system)) ∨ ended = (.crashed, system) ∨
    ∃ fd fileName, ended = (.returned (fd, fileName), system.create fd fileName) ∧
      system.files (cStr fileName) = none ∧ system.inUse fd = false

private theorem Answers.tryTempFile_ends (answers : Answers) (system : FileSystem)
    (fileName : List UInt8) (attempt : Nat)
    {ended : Creation (Nat × List UInt8) × FileSystem}
    (once : answers.tryTempFile system fileName attempt = some ended) :
    CreateEnds system ended := by
  unfold Answers.tryTempFile at once
  by_cases negative : answers.rand attempt ≤ 0
  · rw [if_pos negative] at once
    cases once
  · rw [if_neg negative] at once
    cases name : answers.tempfileName attempt fileName with
    | none =>
        simp only [name] at once
        cases once
        exact Or.inr (Or.inl rfl)
    | some tempfileName =>
        cases found : answers.number attempt system.inUse with
        | none =>
            simp only [name, found] at once
            cases once
            exact Or.inl ⟨_, rfl⟩
        | some fd =>
            simp only [name, found] at once
            split at once
            · cases once
            · rename_i new
              cases once
              refine Or.inr (Or.inr ⟨fd, _, rfl, ?_,
                answers.number_free attempt system.inUse fd found⟩)
              rwa [Option.not_isSome_iff_eq_none] at new

private theorem Answers.createTempFile_ends (answers : Answers) (system : FileSystem)
    (fileName : List UInt8) (attempt : Nat) (i : UInt16) :
    CreateEnds system (answers.createTempFile system fileName attempt i) := by
  induction attempt, i using Answers.createTempFile.induct answers system fileName with
  | case1 attempt i ended once =>
      rw [Answers.createTempFile, once]
      exact answers.tryTempFile_ends system fileName attempt once
  | case2 attempt i again more ih =>
      rw [Answers.createTempFile, again]
      simp only [more, if_true]
      exact ih
  | case3 attempt i again last =>
      rw [Answers.createTempFile, again]
      simp only [last, if_false]
      exact Or.inl ⟨.tooManyAttempts, rfl⟩

private theorem FileSystem.cleanUp_create {system : FileSystem} {fd : Nat} {fileName : List UInt8}
    (new : system.files (cStr fileName) = none) (free : system.inUse fd = false) :
    (system.create fd fileName).cleanUp (some fd) fileName = system := by
  have files : Function.update system.files (cStr fileName) none = system.files := by
    rw [← new, Function.update_eq_self]
  have inUse : Function.update system.inUse fd false = system.inUse := by
    rw [← free, Function.update_eq_self]
  unfold FileSystem.cleanUp FileSystem.create FileSystem.unlink FileSystem.close
  simp only [Function.update_idem, files, inUse]

/-! ### The reception returns or throws -/

def FileError.Thrown : FileError → Prop
  | .file ending => ending.Thrown
  | .socket _ | .hashLength | .hashMismatch => True

def TempError.Thrown : TempError → Prop
  | .create _ => True
  | .file error => error.Thrown

/-- No `write` to the file is short: each is complete, or fails. -/
def Receiver.WholeOrFails (receiver : Receiver) : Prop :=
  ∀ call count : Nat, receiver.write call count = count ∨ receiver.write call count < 1

private theorem Receiver.WholeOrFails.readToFile {receiver : Receiver}
    (whole : receiver.WholeOrFails) (file : File) (sz : Nat) :
    Reader.Settles FileError.Thrown (receiver.readToFile md5 file sz) := by
  intro stream
  have writes : (receiver.world md5 stream).WholeOrFails := whole
  have ends := writes.readToFile file sz
  unfold Receiver.readToFile
  generalize (receiver.world md5 stream).readToFile file sz = run at *
  obtain ⟨ending, done⟩ := run
  cases ending with
  | returned hash => exact Or.inl ⟨_, rfl⟩
  | ioError => exact Or.inr ⟨_, rfl, trivial⟩
  | otherError => exact Or.inr ⟨_, rfl, trivial⟩
  | callback => exact Or.inr ⟨_, rfl, trivial⟩
  | outOfBounds =>
      rcases ends with ⟨hash, impossible⟩ | impossible
      · cases impossible
      · cases impossible
  | running =>
      rcases ends with ⟨hash, impossible⟩ | impossible
      · cases impossible
      · cases impossible

theorem Receiver.WholeOrFails.receiveFile {receiver : Receiver}
    (whole : receiver.WholeOrFails) (file : File) (sz : Nat) :
    Reader.Settles FileError.Thrown (receiver.receiveFile md5 file sz) := by
  apply (whole.readToFile md5 file sz).bind
  intro received
  apply ((SimpleSocket.iBin_settles receiver.host).mapError (fun _ _ => trivial)).bind
  intro sHash
  split
  · exact Reader.Settles.throw trivial
  · exact Reader.Settles.throw trivial
  · exact Reader.Settles.pure _

theorem Receiver.iSize_settles (receiver : Receiver) :
    Reader.Settles FileError.Thrown
      (BitVec.toNat <$> (iInt receiver.host 8).mapError FileError.socket) :=
  ((SimpleSocket.iInt_settles receiver.host 8).mapError (fun _ _ => trivial)).map _

/-! ### A failed reception leaves nothing behind -/

/-- One file is new, under the name, and no descriptor is left open. -/
structure FileSystem.Gained (before after : FileSystem) (fileName : List UInt8)
    (file : File) : Prop where
  new : before.files (cStr fileName) = none
  files : after.files = Function.update before.files (cStr fileName) (some file)
  inUse : after.inUse = before.inUse

private theorem FileSystem.gained_create {system : FileSystem} {fd : Nat} {fileName : List UInt8}
    (new : system.files (cStr fileName) = none) (free : system.inUse fd = false)
    (file : File) :
    system.Gained (((system.create fd fileName).store fileName file).close fd) fileName
      file := by
  constructor
  case new => exact new
  case files =>
    unfold FileSystem.close FileSystem.store FileSystem.create
    simp only [Function.update_idem]
  case inUse =>
    unfold FileSystem.close FileSystem.store FileSystem.create
    simp only [Function.update_idem]
    rw [← free, Function.update_eq_self]

/-- What `i_file` with a prefix may leave behind. -/
def FileSystem.AfterFile (before : FileSystem) :
    Outcome TempError TempFault ((List UInt8 × Reception) × List UInt8) × FileSystem → Prop
  | (.ok ((fileName, reception), _), after) =>
      before.Gained after fileName reception.done.file
  | (.throw error, after) => error.Thrown ∧ after = before
  -- A stray write ends the process before there is a file.
  | (.undefined fault, after) => fault = .outsideMemory ∧ after = before
  | (.running, _) => False

/-- Whatever the prefix, the stream and the place where it fails: where `i_file` throws,
the files and the open descriptors are those from before, and where it returns, one file
is new, under the name it returns. -/
theorem iFile_leavesNoTempFile (receiver : Receiver) (whole : receiver.WholeOrFails)
    (answers : Answers) (system : FileSystem) (fileName stream : List UInt8) :
    system.AfterFile (receiver.iFileTemp md5 answers system fileName stream) := by
  have ends := answers.createTempFile_ends system fileName 0 answers.counter
  unfold Receiver.iFileTemp
  -- The loop goes by well-founded recursion, so its result is named before anything reduces.
  generalize answers.createTempFile system fileName 0 answers.counter = ended at ends ⊢
  rcases receiver.iSize_settles stream with ⟨⟨sz, behind⟩, size⟩ | ⟨error, thrown, fine⟩
  · rw [size]
    rcases ends with ⟨error, rfl⟩ | rfl | ⟨fd, tempfileName, rfl, new, free⟩
    · exact ⟨trivial, rfl⟩
    · exact ⟨rfl, rfl⟩
    · simp only
      rcases whole.receiveFile md5 ⟨[], 0⟩ sz behind with
        ⟨⟨reception, rest⟩, received⟩ | ⟨error, thrown, fine⟩
      · rw [received]
        exact FileSystem.gained_create new free reception.done.file
      · rw [thrown]
        exact ⟨fine, FileSystem.cleanUp_create new free⟩
  · rw [thrown]
    exact ⟨fine, rfl⟩

def startedProcess : FileSystem :=
  { files := fun path =>
      if path = [97, 45, 48, 43, 43, 43, 43, 43] then some ⟨[7], 0⟩ else none
    inUse := fun fd => fd < 3 }

def secondAttempt : Answers :=
  { counter := 0
    rand := fun _ => 1
    l64a := fun attempt => [UInt8.ofNat (48 + attempt), 46, 46, 46, 46, 46, 0]
    number := fun _ inUse => (List.range 8).find? (fun fd => !inUse fd)
    number_free := by
      intro attempt inUse fd found
      have free := List.find?_some found
      simpa using free }

def secondName : List UInt8 := [97, 45, 49, 43, 43, 43, 43, 43]

private theorem secondAttempt_creates :
    secondAttempt.createTempFile startedProcess [97] 0 secondAttempt.counter =
      (.returned (3, secondName), startedProcess.create 3 secondName) := by
  have first : secondAttempt.tryTempFile startedProcess [97] 0 = none := rfl
  have second : secondAttempt.tryTempFile startedProcess [97] 1 =
      some (.returned (3, secondName), startedProcess.create 3 secondName) := rfl
  have more : secondAttempt.counter + 1 < 65535 := by decide
  rw [Answers.createTempFile, first]
  simp only [more, if_true]
  rw [Answers.createTempFile, second]

def cutStream : List UInt8 := (abcSender.oFile abcMd5 abcFile).2.dropLast

/-- The whole stream, and the cut one, on which the reception fails when the file is there. -/
theorem secondAttempt_leavesNoTempFile :
    startedProcess.AfterFile (abcReceiver.iFileTemp abcMd5 secondAttempt startedProcess [97]
        (abcSender.oFile abcMd5 abcFile).2) ∧
      startedProcess.AfterFile (abcReceiver.iFileTemp abcMd5 secondAttempt startedProcess [97]
        cutStream) ∧
      abcReceiver.iFileTemp abcMd5 secondAttempt startedProcess [97] cutStream =
        (.throw (.file (.socket .ioError)),
          (startedProcess.create 3 secondName).cleanUp (some 3) secondName) := by
  have leaves := iFile_leavesNoTempFile abcMd5 abcReceiver (fun _ _ => Or.inl rfl) secondAttempt
    startedProcess [97]
  refine ⟨leaves _, leaves _, ?_⟩
  unfold Receiver.iFileTemp
  rw [secondAttempt_creates]
  rfl

end Socketxx.FileWire
