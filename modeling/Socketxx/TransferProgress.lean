import Socketxx.TempFile

/-!
What the four file functions tell `info_f`: after each chunk, how many bytes are done.
`write_from_file` adds up the sizes of its chunks, `read_to_file` subtracts what is
left, and `o_file` with a path does not pass `info_f` on.
-/

set_option autoImplicit false

namespace Socketxx.FileWire

open StreamReader
open FileTransfer (File Ending Progress World)
open SimpleSocket (Fault iInt)

/-- What a completed transfer has come to: the size of the file, the chunks it went in,
and the calls of `info_f`. -/
structure Completed where
  sz : Nat
  chunks : List Nat
  reports : List (Nat × Nat)
deriving DecidableEq, Repr

/-- `info_f` is called, each time with the size and with the bytes done so far, which
grow up to the size. -/
structure Completed.Faithful (done : Completed) : Prop where
  called : done.reports ≠ []
  total : ∀ report ∈ done.reports, report.2 = done.sz
  increasing : done.reports.Pairwise (fun earlier later => earlier.1 < later.1)
  soFar : ∀ index report, done.reports[index]? = some report →
    report.1 = (done.chunks.take (index + 1)).sum
  last : ∀ report ∈ done.reports.getLast?, report.1 = done.sz

/-! ### The entry points -/

variable (md5 : Md5)

def Sender.completed (sender : Sender) (file : SentFile) : Option Completed :=
  match sender.writeFromFile md5 file with
  | (.returned _, sent) => some ⟨file.sz, sent.windows.map Window.length, sent.reports⟩
  | _ => none

theorem Sender.completed_isSome_iff (sender : Sender) (file : SentFile) :
    (sender.completed md5 file).isSome = true ↔
      ∃ hash, (sender.oFile md5 file).1 = .returned hash := by
  unfold Sender.completed Sender.oFile
  rcases sender.writeFromFile md5 file with ⟨ending, sent⟩
  cases ending <;> simp

/-- What a path leads to, and which of the calls for it fail. -/
structure PathFile where
  statFails : Bool
  regular : Bool
  openFails : Bool
  file : SentFile

inductive PathError where
  | stat
  | notRegular
  | opening
deriving DecidableEq, Repr

def PathFile.openFileRead (path : PathFile) : Except PathError SentFile :=
  if path.statFails then .error .stat
  else if !path.regular then .error .notRegular
  else if path.openFails then .error .opening
  else .ok path.file

/-- `o_file` with a path calls the one with a descriptor without `info_f`. -/
def Sender.oFilePath (sender : Sender) (path : PathFile) : Except PathError (Option Completed) :=
  ({ sender with infoThrows := none }.completed md5) <$> path.openFileRead

def Receiver.chunks (receiver : Receiver) (sz : Nat) : List Nat :=
  (receiver.world md5 []).splits (sz + 1) 0 sz (receiver.pageSize * 16)

/-- A call of one of the four functions; `info_f` is that of the sender or receiver. -/
inductive Transfer where
  | oFile (sender : Sender) (file : SentFile)
  | oFilePath (sender : Sender) (path : PathFile)
  | iFile (receiver : Receiver) (file : File) (stream : List UInt8)
  | iFileTemp (receiver : Receiver) (answers : Answers) (system : FileSystem)
      (fileName stream : List UInt8)

def Transfer.infoF : Transfer → Option (Nat → Nat → Bool)
  | .oFile sender _ | .oFilePath sender _ => sender.infoThrows
  | .iFile receiver _ _ | .iFileTemp receiver _ _ _ _ => receiver.infoThrows

def Transfer.byPath : Transfer → Bool
  | .oFilePath _ _ => true
  | .oFile _ _ | .iFile _ _ _ | .iFileTemp _ _ _ _ _ => false

def Transfer.completed : Transfer → Option Completed
  | .oFile sender file => sender.completed md5 file
  | .oFilePath sender path =>
      match sender.oFilePath md5 path with
      | .ok completed => completed
      | .error _ => none
  | .iFile receiver file stream =>
      match receiver.iFile md5 file stream with
      | .ok (reception, _) =>
          some ⟨reception.sz, receiver.chunks md5 reception.sz, reception.done.reports⟩
      | _ => none
  | .iFileTemp receiver answers system fileName stream =>
      match (receiver.iFileTemp md5 answers system fileName stream).1 with
      | .ok ((_, reception), _) =>
          some ⟨reception.sz, receiver.chunks md5 reception.sz, reception.done.reports⟩
      | _ => none

/-! ### Counting chunks up -/

/-- Chunks of at least one byte that make up a size. -/
structure Tiles (chunks : List Nat) (sz : Nat) : Prop where
  positive : ∀ chunk ∈ chunks, 0 < chunk
  sum : chunks.sum = sz

theorem Tiles.nil : Tiles [] 0 := ⟨List.forall_mem_nil _, rfl⟩

theorem Tiles.cons {chunk rest : Nat} {later : List Nat} (some : 0 < chunk)
    (tiles : Tiles later rest) : Tiles (chunk :: later) (chunk + rest) := by
  constructor
  case positive => exact List.forall_mem_cons.mpr ⟨some, tiles.positive⟩
  case sum => rw [List.sum_cons, tiles.sum]

/-- A report for each chunk, from what is done before the first one. -/
def tally (total : Nat) : Nat → List Nat → List (Nat × Nat)
  | _, [] => []
  | done, chunk :: later => (done + chunk, total) :: tally total (done + chunk) later

private theorem tally_total (total done : Nat) (chunks : List Nat) :
    ∀ report ∈ tally total done chunks, report.2 = total := by
  induction chunks generalizing done with
  | nil => exact List.forall_mem_nil _
  | cons chunk later ih => exact List.forall_mem_cons.mpr ⟨rfl, ih (done + chunk)⟩

private theorem tally_soFar (total done : Nat) (chunks : List Nat) (index : Nat)
    (report : Nat × Nat) (reported : (tally total done chunks)[index]? = some report) :
    report.1 = done + (chunks.take (index + 1)).sum := by
  induction chunks generalizing done index with
  | nil => cases reported
  | cons chunk later ih =>
      rw [List.take_succ_cons, List.sum_cons]
      cases index with
      | zero =>
          cases reported
          rfl
      | succ index =>
          rw [ih (done + chunk) index reported, Nat.add_assoc]

private theorem lt_of_mem_tally {total done : Nat} {chunks : List Nat}
    (positive : ∀ chunk ∈ chunks, 0 < chunk) :
    ∀ report ∈ tally total done chunks, done < report.1 := by
  induction chunks generalizing done with
  | nil => exact List.forall_mem_nil _
  | cons chunk later ih =>
      obtain ⟨here, after⟩ := List.forall_mem_cons.mp positive
      rw [tally, List.forall_mem_cons]
      constructor
      · exact Nat.lt_add_of_pos_right here
      · intro report member
        have above := ih after report member
        omega

private theorem tally_increasing {total done : Nat} {chunks : List Nat}
    (positive : ∀ chunk ∈ chunks, 0 < chunk) :
    (tally total done chunks).Pairwise (fun earlier later => earlier.1 < later.1) := by
  induction chunks generalizing done with
  | nil => exact List.Pairwise.nil
  | cons chunk later ih =>
      have after := (List.forall_mem_cons.mp positive).2
      exact List.Pairwise.cons (lt_of_mem_tally after) (ih after)

private theorem tally_last (total done : Nat) (chunks : List Nat) :
    ∀ report ∈ (tally total done chunks).getLast?, report.1 = done + chunks.sum := by
  induction chunks generalizing done with
  | nil =>
      intro report impossible
      cases impossible
  | cons chunk later ih =>
      intro report last
      rw [List.sum_cons, ← Nat.add_assoc]
      cases later with
      | nil =>
          cases last
          rfl
      | cons next later =>
          apply ih (done + chunk) report
          rwa [tally, tally, List.getLast?_cons_cons] at last

theorem Tiles.faithful {chunks : List Nat} {sz : Nat} (tiles : Tiles chunks sz)
    (positive : 0 < sz) : Completed.Faithful ⟨sz, chunks, tally sz 0 chunks⟩ := by
  constructor
  case called =>
    intro empty
    cases chunks with
    | nil => exact absurd tiles.sum (Nat.ne_of_lt positive)
    | cons chunk later => cases empty
  case total => exact tally_total sz 0 chunks
  case increasing => exact tally_increasing tiles.positive
  case soFar =>
    intro index report reported
    rw [tally_soFar sz 0 chunks index report reported, Nat.zero_add]
  case last =>
    intro report last
    rw [tally_last sz 0 chunks report last, tiles.sum, Nat.zero_add]

/-! ### The sender adds the chunks up -/

theorem Sender.sendWindow_eq_none {sender : Sender} {file : SentFile} {window : Window}
    {sent after : Sent} (sends : sender.sendWindow file window sent = (none, after)) :
    after = (sender.report window.length file.sz (sent.add window (file.mapped window))).2 := by
  unfold Sender.sendWindow at sends
  by_cases failed : sender.mmapFails window = true
  · rw [if_pos failed] at sends
    cases sends
  · rw [if_neg failed] at sends
    exact (congrArg Prod.snd sends).symm

structure Sent.Tallied (sent after : Sent) (total rest : Nat) (later : List Window) : Prop where
  windows : after.windows = sent.windows ++ later
  tiles : Tiles (later.map Window.length) rest
  reports : after.reports =
    sent.reports ++ tally total sent.bytesDone (later.map Window.length)

private theorem Sender.sendWindow_tallied {sender : Sender} {throws : Nat → Nat → Bool}
    (told : sender.infoThrows = some throws) {file : SentFile} {window : Window}
    (positive : 0 < window.length) {sent after : Sent}
    (sends : sender.sendWindow file window sent = (none, after)) :
    sent.Tallied after file.sz window.length [window] ∧
      after.bytesDone = sent.bytesDone + window.length := by
  have left := Sender.sendWindow_eq_none sends
  rw [Sender.report, told] at left
  subst left
  constructor
  · constructor
    case windows => rfl
    case tiles => exact Tiles.cons positive Tiles.nil
    case reports => rfl
  · rfl

private theorem Sender.sendChunks_tallied {sender : Sender} {throws : Nat → Nat → Bool}
    (told : sender.infoThrows = some throws) {file : SentFile} (chunkRest offF : Nat)
    {sent after : Sent} (sends : sender.sendChunks file chunkRest offF sent = (none, after)) :
    ∃ later, sent.Tallied after file.sz
      (chunkRest * (sender.pageSize * 16) + file.sz % (sender.pageSize * 16)) later := by
  induction chunkRest generalizing offF sent with
  | zero =>
      rw [Sender.sendChunks] at sends
      rw [Nat.zero_mul, Nat.zero_add]
      by_cases remainder : file.sz % (sender.pageSize * 16) = 0
      · simp only [ne_eq, remainder, not_true_eq_false, if_false] at sends
        cases sends
        rw [remainder]
        refine ⟨[], ?_, Tiles.nil, ?_⟩
        · exact (List.append_nil _).symm
        · exact (List.append_nil _).symm
      · simp only [ne_eq, remainder, not_false_eq_true, if_true] at sends
        exact ⟨_, (Sender.sendWindow_tallied told (Nat.pos_of_ne_zero remainder) sends).1⟩
  | succ chunkRest ih =>
      have room : 0 < sender.pageSize * 16 := Nat.mul_pos sender.pageSize_pos (Nat.succ_pos 15)
      rw [Sender.sendChunks] at sends
      rcases first : sender.sendWindow file ⟨offF, sender.pageSize * 16⟩ sent with
        ⟨_ | ending, middle⟩
      · simp only [first] at sends
        obtain ⟨now, done⟩ := Sender.sendWindow_tallied told room first
        obtain ⟨later, rest⟩ := ih (offF + sender.pageSize * 16) sends
        refine ⟨⟨offF, sender.pageSize * 16⟩ :: later, ?_⟩
        constructor
        case windows => rw [rest.windows, now.windows, List.append_assoc, List.singleton_append]
        case tiles =>
          have tiles := Tiles.cons room rest.tiles
          rwa [← Nat.add_assoc, Nat.add_comm (sender.pageSize * 16),
            ← Nat.succ_mul] at tiles
        case reports =>
          rw [rest.reports, now.reports, done, List.append_assoc]
          rfl
      · simp only [first] at sends
        cases sends

private theorem Sender.sendChunks_ne_returned (sender : Sender) (file : SentFile)
    (chunkRest offF : Nat) (sent : Sent) (hash : Option (List UInt8)) :
    (sender.sendChunks file chunkRest offF sent).1 ≠ some (.returned hash) := by
  have once : ∀ window before,
      (sender.sendWindow file window before).1 ≠ some (.returned hash) := by
    intro window before
    unfold Sender.sendWindow
    by_cases failed : sender.mmapFails window = true
    · simp [failed]
    · rw [if_neg failed]
      simp only
      split <;> simp
  induction chunkRest generalizing offF sent with
  | zero =>
      rw [Sender.sendChunks]
      split
      · exact once _ sent
      · intro impossible
        cases impossible
  | succ chunkRest ih =>
      rw [Sender.sendChunks]
      rcases first : sender.sendWindow file ⟨offF, sender.pageSize * 16⟩ sent with
        ⟨_ | ending, middle⟩
      · exact ih _ middle
      · have ended := once ⟨offF, sender.pageSize * 16⟩ sent
        rwa [first] at ended

theorem Sender.completed_eq_some {sender : Sender} {file : SentFile} {done : Completed}
    (completes : sender.completed md5 file = some done) (positive : 0 < done.sz) :
    ∃ sent, sender.sendChunks file (file.sz / (sender.pageSize * 16)) 0 ⟨[], [], 0, []⟩ =
        (none, sent) ∧
      done = ⟨file.sz, sent.windows.map Window.length, sent.reports⟩ := by
  unfold Sender.completed Sender.writeFromFile at completes
  by_cases empty : file.sz = 0
  · rw [if_pos empty] at completes
    cases completes
    exact absurd empty (Nat.ne_of_gt positive)
  · rw [if_neg empty] at completes
    have ends := sender.sendChunks_ne_returned file (file.sz / (sender.pageSize * 16)) 0
      ⟨[], [], 0, []⟩
    rcases loop : sender.sendChunks file (file.sz / (sender.pageSize * 16)) 0 ⟨[], [], 0, []⟩
      with ⟨_ | ending, sent⟩
    · simp only [loop] at completes
      cases completes
      exact ⟨sent, rfl, rfl⟩
    · simp only [loop] at completes ends
      cases ending with
      | returned hash => exact absurd rfl (ends hash)
      | mmapError => cases completes
      | callback => cases completes

private theorem Sender.completed_faithful {sender : Sender} (told : sender.infoThrows ≠ none)
    {file : SentFile} {done : Completed} (completes : sender.completed md5 file = some done)
    (positive : 0 < done.sz) : done.Faithful := by
  obtain ⟨throws, info⟩ := Option.ne_none_iff_exists'.mp told
  obtain ⟨sent, loop, rfl⟩ := Sender.completed_eq_some md5 completes positive
  obtain ⟨later, tallied⟩ := Sender.sendChunks_tallied info _ 0 loop
  have tiles := tallied.tiles
  have windows : sent.windows = later := tallied.windows
  have reports : sent.reports = tally file.sz 0 (later.map Window.length) := tallied.reports
  rw [Nat.div_add_mod'] at tiles
  rw [windows, reports]
  exact tiles.faithful positive

private theorem Sender.sendChunks_untold {sender : Sender} (untold : sender.infoThrows = none)
    {file : SentFile} (chunkRest offF : Nat) {sent after : Sent}
    (sends : sender.sendChunks file chunkRest offF sent = (none, after)) :
    after.reports = sent.reports := by
  have once : ∀ {window before middle},
      sender.sendWindow file window before = (none, middle) →
        middle.reports = before.reports := by
    intro window before middle first
    have left := Sender.sendWindow_eq_none first
    rw [Sender.report, untold] at left
    subst left
    rfl
  induction chunkRest generalizing offF sent with
  | zero =>
      rw [Sender.sendChunks] at sends
      split at sends
      · exact once sends
      · cases sends
        rfl
  | succ chunkRest ih =>
      rw [Sender.sendChunks] at sends
      rcases first : sender.sendWindow file ⟨offF, sender.pageSize * 16⟩ sent with
        ⟨_ | ending, middle⟩
      · simp only [first] at sends
        rw [ih _ sends, once first]
      · simp only [first] at sends
        cases sends

private theorem Sender.oFilePath_untold {sender : Sender} {path : PathFile} {done : Completed}
    (completes : sender.oFilePath md5 path = .ok (some done)) (positive : 0 < done.sz) :
    done.reports = [] := by
  unfold Sender.oFilePath at completes
  cases found : path.openFileRead with
  | error error =>
      rw [found] at completes
      cases completes
  | ok file =>
      rw [found] at completes
      have returned := Except.ok.inj completes
      obtain ⟨sent, loop, rfl⟩ := Sender.completed_eq_some md5 returned positive
      exact Sender.sendChunks_untold rfl _ 0 loop

/-! ### The receiver subtracts what is left -/

private theorem transfer_tallied {world : World} {throws : Nat → Nat → Bool}
    (told : world.infoThrows = some throws) {sz : Nat} (fuel : Nat) {bytesRest : Nat}
    (chunksz : Nat) (within : bytesRest ≤ sz) {done final : Progress}
    (inside : world.Holds done.received.length 0) {hash : Option (List UInt8)}
    (returned : world.transfer sz fuel bytesRest chunksz done = (.returned hash, final)) :
    Tiles (world.splits fuel done.reads bytesRest chunksz) bytesRest ∧
      final.reports = done.reports ++
        tally sz (sz - bytesRest) (world.splits fuel done.reads bytesRest chunksz) := by
  induction fuel generalizing bytesRest chunksz done with
  | zero => cases returned
  | succ fuel ih =>
      by_cases drained : bytesRest = 0
      · subst drained
        rw [World.transfer, if_pos rfl] at returned
        rw [World.splits, if_pos rfl]
        cases returned
        exact ⟨Tiles.nil, (List.append_nil _).symm⟩
      · obtain ⟨recsz, read, some, later⟩ :=
          World.transfer_succ_returned drained inside returned
        have holds := world.transfer_holds sz _ _ _ inside returned
        have most := world.read_le done.reads (min bytesRest chunksz)
        have reads := (world.next_frame sz bytesRest recsz done).1
        have reports : (world.next sz bytesRest recsz done).reports =
            done.reports ++ [(sz - (bytesRest - recsz), sz)] := by
          unfold World.next World.report
          simp only [told]
          rfl
        have next : world.Holds (world.next sz bytesRest recsz done).received.length 0 := by
          rw [(world.next_frame sz bytesRest recsz done).2.2.2, List.length_append,
            World.bytes_length]
          intro length ends
          have bound := holds length ends
          omega
        obtain ⟨tiles, rest⟩ := ih _ (by omega) next later
        rw [reads] at tiles rest
        rw [World.splits, if_neg drained]
        simp only [World.chunksz_eq_min, read, Int.toNat_natCast]
        have before : recsz + (bytesRest - recsz) = bytesRest := by omega
        have counted : sz - bytesRest + recsz = sz - (bytesRest - recsz) := by omega
        constructor
        · have all := Tiles.cons some tiles
          rwa [before] at all
        · rw [rest, reports, tally, counted, List.append_assoc, List.singleton_append]

private theorem splits_congr {world other : World} (same : world.read = other.read)
    (fuel call bytesRest chunksz : Nat) :
    world.splits fuel call bytesRest chunksz = other.splits fuel call bytesRest chunksz := by
  induction fuel generalizing call bytesRest chunksz with
  | zero => rfl
  | succ fuel ih =>
      rw [World.splits, World.splits, same]
      simp only [ih]

private theorem Receiver.iFile_faithful {receiver : Receiver} (told : receiver.infoThrows ≠ none)
    {file : File} {stream rest : List UInt8} {reception : Reception}
    (accepted : receiver.iFile md5 file stream = .ok (reception, rest))
    (positive : 0 < reception.sz) :
    Completed.Faithful ⟨reception.sz, receiver.chunks md5 reception.sz,
      reception.done.reports⟩ := by
  obtain ⟨throws, info⟩ := Option.ne_none_iff_exists'.mp told
  obtain ⟨num, between, hash, behind, _size, _same, read, _bin, _passed⟩ :=
    (receiver.iFile_eq_ok md5 file stream rest reception).mp accepted
  rw [Receiver.readToFile, World.readToFile, if_neg (Nat.ne_of_gt positive)] at read
  split at read
  · rename_i own done ran
    cases read
    have shown : (receiver.world md5 between).infoThrows = some throws := info
    obtain ⟨tiles, reports⟩ := transfer_tallied shown (reception.sz + 1) _ (Nat.le_refl _)
      (fun _ _ => Nat.zero_le _) ran
    rw [Nat.sub_self] at reports
    have chunks : receiver.chunks md5 reception.sz =
        (receiver.world md5 between).splits (reception.sz + 1) 0 reception.sz
          (receiver.pageSize * 16) := by
      apply splits_congr
      rfl
    rw [chunks, reports]
    exact tiles.faithful positive
  · cases read

private theorem Receiver.iFileTemp_eq_ok {receiver : Receiver} {answers : Answers}
    {system : FileSystem} {fileName stream rest tempfileName : List UInt8}
    {reception : Reception}
    (accepted : (receiver.iFileTemp md5 answers system fileName stream).1 =
      .ok ((tempfileName, reception), rest)) :
    receiver.iFile md5 ⟨[], 0⟩ stream = .ok (reception, rest) := by
  unfold Receiver.iFileTemp at accepted
  generalize answers.createTempFile system fileName 0 answers.counter = ended at accepted
  rw [Receiver.iFile_eq_bind]
  cases size : (BitVec.toNat <$> (iInt receiver.host 8).mapError FileError.socket) stream with
  | throw error =>
      rw [size] at accepted
      cases accepted
  | undefined fault =>
      rw [size] at accepted
      cases accepted
  | running =>
      rw [size] at accepted
      cases accepted
  | ok sized =>
      obtain ⟨sz, behind⟩ := sized
      rw [size] at accepted
      rw [Reader.bind_ok size]
      obtain ⟨creation, created⟩ := ended
      cases creation with
      | crashed => cases accepted
      | threw error => cases accepted
      | returned file =>
          simp only at accepted
          cases received : receiver.receiveFile md5 ⟨[], 0⟩ sz behind with
          | throw error =>
              rw [received] at accepted
              cases accepted
          | undefined fault =>
              rw [received] at accepted
              cases accepted
          | running =>
              rw [received] at accepted
              cases accepted
          | ok result =>
              rw [received] at accepted
              cases accepted
              rfl

/-! ### The four together -/

/-- Of the four functions all but `o_file` with a path report faithfully. -/
theorem transfer_faithful_iff (transfer : Transfer) (told : transfer.infoF ≠ none)
    {done : Completed} (completes : transfer.completed md5 = some done)
    (positive : 0 < done.sz) : done.Faithful ↔ transfer.byPath = false := by
  cases transfer with
  | oFile sender file =>
      have faithful := Sender.completed_faithful md5 told completes positive
      exact iff_of_true faithful rfl
  | oFilePath sender path =>
      simp only [Transfer.completed] at completes
      have untold : done.reports = [] := by
        cases sent : sender.oFilePath md5 path with
        | error error =>
            rw [sent] at completes
            cases completes
        | ok completed =>
            rw [sent] at completes
            cases (show completed = some done from completes)
            exact Sender.oFilePath_untold md5 sent positive
      apply iff_of_false
      · intro faithful
        exact faithful.called untold
      · exact Bool.noConfusion
  | iFile receiver file stream =>
      simp only [Transfer.completed] at completes
      split at completes
      · rename_i reception rest accepted
        cases completes
        exact iff_of_true (Receiver.iFile_faithful md5 told accepted positive) rfl
      · cases completes
  | iFileTemp receiver answers system fileName stream =>
      simp only [Transfer.completed] at completes
      split at completes
      · rename_i name reception rest accepted
        cases completes
        have received := Receiver.iFileTemp_eq_ok md5 accepted
        exact iff_of_true (Receiver.iFile_faithful md5 told received positive) rfl
      · cases completes

def shownSender : Sender :=
  { abcSender with infoThrows := some (fun _ _ => false) }

def abcPath : PathFile :=
  { statFails := false
    regular := true
    openFails := false
    file := abcFile }

theorem abcPath_unshown :
    (Transfer.oFilePath shownSender abcPath).infoF ≠ none ∧
      ∃ done, (Transfer.oFilePath shownSender abcPath).completed abcMd5 = some done ∧
        0 < done.sz ∧ ¬ done.Faithful := by
  refine ⟨Option.some_ne_none _, ⟨3, [3], []⟩, rfl, Nat.succ_pos _, ?_⟩
  intro faithful
  exact faithful.called rfl

theorem abcFile_shown :
    (Transfer.oFile shownSender abcFile).completed abcMd5 = some ⟨3, [3], [(3, 3)]⟩ ∧
      (Completed.Faithful ⟨3, [3], [(3, 3)]⟩ ↔
        (Transfer.oFile shownSender abcFile).byPath = false) := by
  have completes : (Transfer.oFile shownSender abcFile).completed abcMd5 =
      some ⟨3, [3], [(3, 3)]⟩ := rfl
  exact ⟨completes, transfer_faithful_iff abcMd5 (.oFile shownSender abcFile)
    (Option.some_ne_none _) completes (Nat.succ_pos _)⟩

end Socketxx.FileWire
