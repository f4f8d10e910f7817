import Mathlib.Data.List.Nodup
import Mathlib.Logic.Function.Basic
import Mathlib.Logic.Relation

/-!
Files that are created under new names by several owners at once.

A directory gives names to files, and descriptors stand for the files themselves. An owner
creates a file where nothing has the name, writes to its descriptor, closes it, and then
takes the name away again or leaves the file for good.

Whatever the interleaving, each owner has its file to itself, the files from before are as
they were, and what is left for good is there under its name with what was written.
-/

set_option autoImplicit false

namespace ExclusiveFiles

/-- Names of files by number, their contents, and the descriptors that are open. Numbers
from `next` on have not been used. -/
structure Disk (π β : Type) where
  entries : π → Option Nat
  contents : Nat → List β
  next : Nat
  opened : Nat → Option Nat
  entries_lt : ∀ path number, entries path = some number → number < next

variable {ι π β : Type}

def Disk.file (disk : Disk π β) (path : π) : Option (List β) :=
  (disk.entries path).map disk.contents

def Disk.write (disk : Disk π β) (fd : Nat) (data : List β) : Disk π β :=
  match disk.opened fd with
  | none => disk
  | some number =>
      { disk with contents := Function.update disk.contents number (disk.contents number ++ data) }

def Disk.close (disk : Disk π β) (fd : Nat) : Disk π β :=
  { disk with opened := Function.update disk.opened fd none }

theorem write_entries (disk : Disk π β) (fd : Nat) (data : List β) :
    (disk.write fd data).entries = disk.entries := by
  unfold Disk.write
  split <;> rfl

theorem write_opened (disk : Disk π β) (fd : Nat) (data : List β) :
    (disk.write fd data).opened = disk.opened := by
  unfold Disk.write
  split <;> rfl

private theorem write_next (disk : Disk π β) (fd : Nat) (data : List β) :
    (disk.write fd data).next = disk.next := by
  unfold Disk.write
  split <;> rfl

theorem write_content {disk : Disk π β} {fd number : Nat} (opened : disk.opened fd = some number)
    (data : List β) :
    (disk.write fd data).contents number = disk.contents number ++ data := by
  rw [Disk.write, opened]
  exact Function.update_self ..

theorem write_contents {disk : Disk π β} {fd number other : Nat}
    (opened : disk.opened fd = some number) (apart : other ≠ number) (data : List β) :
    (disk.write fd data).contents other = disk.contents other := by
  rw [Disk.write, opened]
  exact Function.update_of_ne apart ..

theorem close_fd (disk : Disk π β) (fd : Nat) : (disk.close fd).opened fd = none :=
  Function.update_self ..

theorem close_opened (disk : Disk π β) (fd : Nat) {other : Nat} (apart : other ≠ fd) :
    (disk.close fd).opened other = disk.opened other := Function.update_of_ne apart ..

/-- What an owner has: its file, open until the descriptor is given back. -/
structure Holding (π β : Type) where
  path : π
  fd : Option Nat
  written : List β

structure State (ι π β : Type) where
  disk : Disk π β
  holding : ι → Option (Holding π β)
  kept : List (π × List β)

/-! ### The invariant -/

/-- The path names a file made since the start, which holds just what was written. -/
def New (start disk : Disk π β) (path : π) (written : List β) (number : Nat) : Prop :=
  start.entries path = none ∧ disk.entries path = some number ∧ start.next ≤ number ∧
    disk.contents number = written

structure Sound (start : Disk π β) (s : State ι π β) : Prop where
  next_le : start.next ≤ s.disk.next
  once : ∀ path other number, start.next ≤ number → s.disk.entries path = some number →
    s.disk.entries other = some number → path = other
  old : ∀ number < start.next, s.disk.contents number = start.contents number
  held : ∀ i h, s.holding i = some h → ∃ number, New start s.disk h.path h.written number ∧
    ∀ fd, h.fd = some fd → start.opened fd = none ∧ s.disk.opened fd = some number
  alone : ∀ i j h k, s.holding i = some h → s.holding j = some k → h.path = k.path → i = j
  kept : ∀ path written, (path, written) ∈ s.kept →
    (∃ number, New start s.disk path written number) ∧
      ∀ i h, s.holding i = some h → h.path ≠ path
  kept_once : (s.kept.map Prod.fst).Nodup
  rest : ∀ path, (∀ i h, s.holding i = some h → h.path ≠ path) →
    path ∉ s.kept.map Prod.fst → s.disk.entries path = start.entries path
  descriptors : ∀ fd, (∀ i h, s.holding i = some h → h.fd ≠ some fd) →
    s.disk.opened fd = start.opened fd

variable {start disk : Disk π β}

private theorem New.write {path : π} {written : List β} {number target fd : Nat} (data : List β)
    (new : New start disk path written number) (opened : disk.opened fd = some target) :
    New start (disk.write fd data) path (if number = target then written ++ data else written)
      number := by
  obtain ⟨fresh, entry, made, holds⟩ := new
  refine ⟨fresh, ?_, made, ?_⟩
  · rw [write_entries, entry]
  · by_cases same : number = target
    · subst same
      rw [if_pos rfl, ← holds, write_content opened]
    · rw [if_neg same, ← holds, write_contents opened same]

variable {s : State ι π β}

private theorem Sound.absent (sound : Sound start s) {path : π}
    (absent : s.disk.entries path = none) :
    start.entries path = none := by
  rw [← sound.rest path, absent]
  · intro i h holds same
    obtain ⟨number, new, _⟩ := sound.held i h holds
    rw [same, New, absent] at new
    cases new.2.1
  · intro kept
    obtain ⟨⟨_, written⟩, member, rfl⟩ := List.mem_map.mp kept
    obtain ⟨⟨number, new⟩, _⟩ := sound.kept _ _ member
    rw [New, absent] at new
    cases new.2.1

private theorem Sound.closed (sound : Sound start s) {fd : Nat} (closed : s.disk.opened fd = none) :
    start.opened fd = none := by
  rw [← sound.descriptors fd, closed]
  intro i h holds same
  obtain ⟨number, _, opened⟩ := sound.held i h holds
  have here := (opened fd same).2
  rw [closed] at here
  cases here

/-! ### What it comes to -/

def State.initial (disk : Disk π β) : State ι π β := ⟨disk, fun _ => none, []⟩

private theorem Sound.started (disk : Disk π β) : Sound disk
    (State.initial disk : State ι π β) where
  next_le := Nat.le_refl _
  once := by
    intro path other number made entry _
    have used := disk.entries_lt path number entry
    exact absurd made (Nat.not_le.mpr used)
  old := fun _ _ => rfl
  held := fun _ _ holds => nomatch holds
  alone := fun _ _ _ _ holds => nomatch holds
  kept := fun _ _ member => nomatch member
  kept_once := List.nodup_nil
  rest := fun _ _ _ => rfl
  descriptors := fun _ _ => rfl

/-- Nobody sees anything of the others: the files from before and those that were left are
as they were, and each owner's file holds what that owner has written. When nobody has a
file, the descriptors are those from before. -/
structure Isolated (start : Disk π β) (s : State ι π β) : Prop where
  before : ∀ path, start.entries path ≠ none → s.disk.file path = start.file path
  kept : ∀ path written, (path, written) ∈ s.kept →
    start.file path = none ∧ s.disk.file path = some written
  kept_once : (s.kept.map Prod.fst).Nodup
  held : ∀ i h, s.holding i = some h →
    start.file h.path = none ∧ s.disk.file h.path = some h.written
  apart : ∀ i j h g, s.holding i = some h → s.holding j = some g → i ≠ j →
    h.path ≠ g.path ∧ ∀ fd, h.fd = some fd → g.fd ≠ some fd
  rest : ∀ path, (∀ i h, s.holding i = some h → h.path ≠ path) →
    path ∉ s.kept.map Prod.fst → s.disk.file path = start.file path
  quiet : (∀ i, s.holding i = none) → s.disk.opened = start.opened

private theorem New.file {path : π} {written : List β} {number : Nat}
    (new : New start disk path written number) :
    start.file path = none ∧ disk.file path = some written := by
  obtain ⟨fresh, entry, _, holds⟩ := new
  constructor
  · rw [Disk.file, fresh]
    rfl
  · rw [Disk.file, entry, ← holds]
    rfl

private theorem Sound.same_file (sound : Sound start s) {path : π}
    (same : s.disk.entries path = start.entries path) : s.disk.file path = start.file path := by
  rw [Disk.file, Disk.file, same]
  cases entry : start.entries path with
  | none => rfl
  | some number =>
      rw [Option.map_some, Option.map_some, sound.old number (start.entries_lt path number entry)]

theorem Sound.isolated (sound : Sound start s) : Isolated start s where
  before := by
    intro path present
    apply sound.same_file
    apply sound.rest
    · intro i h holds same
      obtain ⟨number, new, _⟩ := sound.held i h holds
      exact present (same ▸ new.1)
    · intro kept
      obtain ⟨⟨_, written⟩, member, rfl⟩ := List.mem_map.mp kept
      obtain ⟨⟨number, new⟩, _⟩ := sound.kept _ _ member
      exact present new.1
  kept := by
    intro path written member
    obtain ⟨⟨number, new⟩, _⟩ := sound.kept path written member
    exact new.file
  kept_once := sound.kept_once
  held := by
    intro i h holds
    obtain ⟨number, new, _⟩ := sound.held i h holds
    exact new.file
  apart := by
    intro i j h g first second other
    have paths : h.path ≠ g.path := fun same => other (sound.alone i j h g first second same)
    refine ⟨paths, ?_⟩
    intro fd mine theirs
    obtain ⟨number, new, opened⟩ := sound.held i h first
    obtain ⟨number', new', opened'⟩ := sound.held j g second
    have joint := Option.some.inj ((opened fd mine).2.symm.trans (opened' fd theirs).2)
    exact paths (sound.once h.path g.path number new.2.2.1 new.2.1 (joint ▸ new'.2.1))
  rest := fun path unheld unkept => sound.same_file (sound.rest path unheld unkept)
  quiet := by
    intro none
    funext fd
    apply sound.descriptors
    intro i h holds
    rw [none i] at holds
    cases holds

/-! ### The moves of the owners -/

variable [DecidableEq ι]

def State.give (s : State ι π β) (i : ι) (holding : Option (Holding π β)) : State ι π β :=
  { s with holding := Function.update s.holding i holding }

theorem give_holding {i j : ι} {given : Option (Holding π β)}
    {h : Holding π β} (holds : (s.give i given).holding j = some h) :
    (j = i ∧ given = some h) ∨ (j ≠ i ∧ s.holding j = some h) := by
  by_cases same : j = i
  · subst same
    exact Or.inl ⟨rfl, by simpa [State.give] using holds⟩
  · exact Or.inr ⟨same, by simpa [State.give, same] using holds⟩

theorem give_self (s : State ι π β) (i : ι) (given : Option (Holding π β)) :
    (s.give i given).holding i = given := Function.update_self ..

private theorem give_other (s : State ι π β) {i j : ι} (other : j ≠ i)
    (given : Option (Holding π β)) : (s.give i given).holding j = s.holding j :=
  Function.update_of_ne other ..

theorem before_give {i : ι} {given : Option (Holding π β)} {p : Holding π β → Prop}
    (all : ∀ j g, (s.give i given).holding j = some g → p g)
    (own : ∀ g, s.holding i = some g → p g) (j : ι) (g : Holding π β)
    (early : s.holding j = some g) : p g := by
  by_cases same : j = i
  · exact own g (same ▸ early)
  · exact all j g ((give_other s same _).trans early)

theorem give_path {i j : ι} {h after g : Holding π β} (holds : s.holding i = some h)
    (now : (s.give i (some after)).holding j = some g) (same : after.path = h.path) :
    ∃ before, s.holding j = some before ∧ before.path = g.path := by
  rcases give_holding now with ⟨rfl, mine⟩ | ⟨_, early⟩
  · cases mine
    exact ⟨h, holds, same.symm⟩
  · exact ⟨g, early, rfl⟩

theorem give_apart {i : ι} {h : Holding π β} (holds : s.holding i = some h)
    (after : Holding π β) (same : after.path = h.path) {path : π} :
    (∀ j g, (s.give i (some after)).holding j = some g → g.path ≠ path) ↔
      ∀ j g, s.holding j = some g → g.path ≠ path := by
  constructor
  · intro apart
    refine before_give apart ?_
    intro g mine
    rw [holds] at mine
    cases mine
    exact same ▸ apart i after (give_self s i _)
  · intro apart j g now
    obtain ⟨before, early, path⟩ := give_path holds now same
    exact path ▸ apart j before early

theorem Sound.alone_give (sound : Sound start s) {i : ι} {h : Holding π β}
    (holds : s.holding i = some h) (after : Holding π β) (same : after.path = h.path)
    {j k : ι} {g g' : Holding π β}
    (first : (s.give i (some after)).holding j = some g)
    (second : (s.give i (some after)).holding k = some g') (paths : g.path = g'.path) :
    j = k := by
  obtain ⟨early, firstHeld, firstPath⟩ := give_path holds first same
  obtain ⟨late, secondHeld, secondPath⟩ := give_path holds second same
  exact sound.alone j k early late firstHeld secondHeld
    (firstPath.trans (paths.trans secondPath.symm))

theorem give_none {i j : ι} {g : Holding π β} (now : (s.give i none).holding j = some g) :
    j ≠ i ∧ s.holding j = some g := by
  rcases give_holding now with ⟨_, mine⟩ | early
  · cases mine
  · exact early

variable [DecidableEq π]

def Disk.create (disk : Disk π β) (fd : Nat) (path : π) : Disk π β where
  entries := Function.update disk.entries path (some disk.next)
  contents := Function.update disk.contents disk.next []
  next := disk.next + 1
  opened := Function.update disk.opened fd (some disk.next)
  entries_lt := by
    intro other number entry
    by_cases same : other = path
    · rw [same, Function.update_self] at entry
      cases entry
      exact Nat.lt_succ_self _
    · rw [Function.update_of_ne same] at entry
      exact Nat.lt_succ_of_lt (disk.entries_lt other number entry)

def Disk.unlink (disk : Disk π β) (path : π) : Disk π β where
  entries := Function.update disk.entries path none
  contents := disk.contents
  next := disk.next
  opened := disk.opened
  entries_lt := by
    intro other number entry
    by_cases same : other = path
    · rw [same, Function.update_self] at entry
      cases entry
    · rw [Function.update_of_ne same] at entry
      exact disk.entries_lt other number entry

section Fields

variable (disk : Disk π β) (fd : Nat) (path : π)

theorem create_entry : (disk.create fd path).entries path = some disk.next :=
  Function.update_self ..

theorem create_entries {other : π} (apart : other ≠ path) :
    (disk.create fd path).entries other = disk.entries other := Function.update_of_ne apart ..

theorem create_content : (disk.create fd path).contents disk.next = [] :=
  Function.update_self ..

theorem create_contents {number : Nat} (used : number < disk.next) :
    (disk.create fd path).contents number = disk.contents number :=
  Function.update_of_ne (Nat.ne_of_lt used) ..

theorem create_fd : (disk.create fd path).opened fd = some disk.next :=
  Function.update_self ..

theorem create_opened {other : Nat} (apart : other ≠ fd) :
    (disk.create fd path).opened other = disk.opened other := Function.update_of_ne apart ..

theorem create_file : (disk.create fd path).file path = some [] := by
  rw [Disk.file, create_entry, Option.map_some, create_content]

theorem create_files {other : π} (apart : other ≠ path) :
    (disk.create fd path).file other = disk.file other := by
  rw [Disk.file, Disk.file, create_entries disk fd path apart]
  cases entry : disk.entries other with
  | none => rfl
  | some number =>
      have used := disk.entries_lt other number entry
      rw [Option.map_some, Option.map_some, create_contents disk fd path used]

theorem create_write_file (data : List β) :
    ((disk.create fd path).write fd data).file path = some data := by
  rw [Disk.file, write_entries, create_entry, Option.map_some,
    write_content (create_fd disk fd path), create_content, List.nil_append]

theorem create_write_files (data : List β) {other : π} (apart : other ≠ path) :
    ((disk.create fd path).write fd data).file other = disk.file other := by
  rw [Disk.file, Disk.file, write_entries, create_entries disk fd path apart]
  cases entry : disk.entries other with
  | none => rfl
  | some number =>
      have used := disk.entries_lt other number entry
      rw [Option.map_some, Option.map_some,
        write_contents (create_fd disk fd path) (Nat.ne_of_lt used),
        create_contents disk fd path used]

theorem unlink_entry : (disk.unlink path).entries path = none := Function.update_self ..

theorem unlink_entries {other : π} (apart : other ≠ path) :
    (disk.unlink path).entries other = disk.entries other := Function.update_of_ne apart ..

theorem unlink_file : (disk.unlink path).file path = none := by
  rw [Disk.file, unlink_entry, Option.map_none]

theorem unlink_files {other : π} (apart : other ≠ path) :
    (disk.unlink path).file other = disk.file other := by
  rw [Disk.file, Disk.file, unlink_entries disk path apart]
  rfl

end Fields

private theorem New.create {path other : π} {written : List β} {number : Nat} (fd : Nat)
    (new : New start disk other written number) (absent : disk.entries path = none) :
    New start (disk.create fd path) other written number := by
  obtain ⟨fresh, entry, made, holds⟩ := new
  have apart : other ≠ path := by
    intro same
    rw [same, absent] at entry
    cases entry
  have used := disk.entries_lt other number entry
  exact ⟨fresh, (create_entries disk fd path apart).trans entry, made,
    (create_contents disk fd path used).trans holds⟩

private theorem New.unlink {path other : π} {written : List β} {number : Nat} (apart : other ≠ path)
    (new : New start disk other written number) :
    New start (disk.unlink path) other written number := by
  obtain ⟨fresh, entry, made, holds⟩ := new
  exact ⟨fresh, (unlink_entries disk path apart).trans entry, made, holds⟩

inductive Move : State ι π β → State ι π β → Prop where
  | create {s : State ι π β} (i : ι) (fd : Nat) (path : π) (nothing : s.holding i = none)
      (new : s.disk.entries path = none) (free : s.disk.opened fd = none) :
      Move s { s.give i (some ⟨path, some fd, []⟩) with disk := s.disk.create fd path }
  | write {s : State ι π β} (i : ι) {path : π} {fd : Nat} {written : List β} (data : List β)
      (holds : s.holding i = some ⟨path, some fd, written⟩) :
      Move s
        { s.give i (some ⟨path, some fd, written ++ data⟩) with disk := s.disk.write fd data }
  | close {s : State ι π β} (i : ι) {path : π} {fd : Nat} {written : List β}
      (holds : s.holding i = some ⟨path, some fd, written⟩) :
      Move s { s.give i (some ⟨path, none, written⟩) with disk := s.disk.close fd }
  | unlink {s : State ι π β} (i : ι) {path : π} {written : List β}
      (holds : s.holding i = some ⟨path, none, written⟩) :
      Move s { s.give i none with disk := s.disk.unlink path }
  | keep {s : State ι π β} (i : ι) {path : π} {written : List β}
      (holds : s.holding i = some ⟨path, none, written⟩) :
      Move s { s.give i none with kept := s.kept ++ [(path, written)] }

/-! ### Every move keeps it -/

private theorem Sound.create (sound : Sound start s) (i : ι) (fd : Nat) (path : π)
    (nothing : s.holding i = none) (absent : s.disk.entries path = none)
    (free : s.disk.opened fd = none) :
    Sound start
      { s.give i (some ⟨path, some fd, []⟩) with disk := s.disk.create fd path } where
  next_le := Nat.le_succ_of_le sound.next_le
  once := by
    have only : ∀ other number, other ≠ path →
        (s.disk.create fd path).entries other = some number → number ≠ s.disk.next := by
      intro other number apart entry
      rw [create_entries _ _ _ apart] at entry
      exact Nat.ne_of_lt (s.disk.entries_lt other number entry)
    intro one other number made first second
    by_cases here : one = path
    · by_cases there : other = path
      · rw [here, there]
      · rw [here] at first
        have next := (create_entry s.disk fd path).symm.trans first
        cases next
        exact absurd rfl (only other _ there second)
    · by_cases there : other = path
      · rw [there] at second
        have next := (create_entry s.disk fd path).symm.trans second
        cases next
        exact absurd rfl (only one _ here first)
      · rw [create_entries _ _ _ here] at first
        rw [create_entries _ _ _ there] at second
        exact sound.once one other number made first second
  old := by
    intro number early
    have used := Nat.lt_of_lt_of_le early sound.next_le
    exact (create_contents s.disk fd path used).trans (sound.old number early)
  held := by
    intro j h holds
    rcases give_holding holds with ⟨rfl, same⟩ | ⟨other, holds⟩
    · cases same
      refine ⟨s.disk.next, ⟨sound.absent absent, create_entry .., sound.next_le,
        create_content ..⟩, ?_⟩
      intro opened same
      cases same
      exact ⟨sound.closed free, create_fd ..⟩
    · obtain ⟨number, new, opened⟩ := sound.held j h holds
      refine ⟨number, new.create fd absent, ?_⟩
      intro other same
      obtain ⟨before, now⟩ := opened other same
      have apart : other ≠ fd := by
        intro same
        rw [same, free] at now
        cases now
      exact ⟨before, (create_opened s.disk fd path apart).trans now⟩
  alone := by
    have taken : ∀ j h, s.holding j = some h → h.path ≠ path := by
      intro j h holds same
      obtain ⟨number, new, _⟩ := sound.held j h holds
      rw [same, New, absent] at new
      cases new.2.1
    intro j k h g first second same
    rcases give_holding first with ⟨here, mine⟩ | ⟨_, early⟩
    · rcases give_holding second with ⟨there, _⟩ | ⟨_, late⟩
      · rw [here, there]
      · cases mine
        exact absurd same.symm (taken k g late)
    · rcases give_holding second with ⟨_, mine⟩ | ⟨_, late⟩
      · cases mine
        exact absurd same (taken j h early)
      · exact sound.alone j k h g early late same
  kept := by
    intro other written member
    obtain ⟨⟨number, new⟩, apart⟩ := sound.kept other written member
    refine ⟨⟨number, new.create fd absent⟩, ?_⟩
    intro j h holds
    rcases give_holding holds with ⟨rfl, same⟩ | ⟨_, holds⟩
    · cases same
      intro same
      rw [New, ← same, absent] at new
      cases new.2.1
    · exact apart j h holds
  kept_once := sound.kept_once
  rest := by
    intro other unheld unkept
    have apart : other ≠ path := (unheld i _ (give_self s i _)).symm
    refine (create_entries s.disk fd path apart).trans
      (sound.rest other (before_give unheld ?_) unkept)
    intro h holds
    rw [nothing] at holds
    cases holds
  descriptors := by
    intro other unheld
    have apart : other ≠ fd := by
      intro same
      exact unheld i _ (give_self s i _) (congrArg some same.symm)
    refine (create_opened s.disk fd path apart).trans
      (sound.descriptors other (before_give unheld ?_))
    intro h holds
    rw [nothing] at holds
    cases holds

omit [DecidableEq π] in
private theorem Sound.write (sound : Sound start s) (i : ι) {path : π} {fd : Nat} {written : List β}
    (data : List β) (holds : s.holding i = some ⟨path, some fd, written⟩) :
    Sound start { s.give i (some ⟨path, some fd, written ++ data⟩) with
      disk := s.disk.write fd data } := by
  obtain ⟨target, mine, opened⟩ := sound.held i _ holds
  obtain ⟨before, here⟩ := opened fd rfl
  constructor
  case next_le =>
    rw [write_next]
    exact sound.next_le
  case once =>
    rw [write_entries]
    exact sound.once
  case old =>
    intro number early
    have apart : number ≠ target := fun same => absurd mine.2.2.1 (Nat.not_le.mpr (same ▸ early))
    exact (write_contents here apart data).trans (sound.old number early)
  case held =>
    intro j h now
    rcases give_holding now with ⟨rfl, same⟩ | ⟨other, early⟩
    · cases same
      have new := mine.write data here
      rw [if_pos rfl] at new
      refine ⟨target, new, ?_⟩
      intro other same
      cases same
      rw [write_opened]
      exact ⟨before, here⟩
    · obtain ⟨number, new, descriptor⟩ := sound.held j h early
      have apart : number ≠ target := by
        intro same
        subst same
        have paths := sound.once h.path path number new.2.2.1 new.2.1 mine.2.1
        exact other (sound.alone j i h _ early holds paths)
      have kept := new.write data here
      rw [if_neg apart] at kept
      refine ⟨number, kept, ?_⟩
      rw [write_opened]
      exact descriptor
  case alone =>
    intro j k g g' first second paths
    exact sound.alone_give holds ⟨path, some fd, written ++ data⟩ rfl first second paths
  case kept =>
    intro other kept member
    obtain ⟨⟨number, new⟩, apart⟩ := sound.kept other kept member
    have different : number ≠ target := by
      intro same
      subst same
      exact apart i _ holds (sound.once path other number new.2.2.1 mine.2.1 new.2.1)
    have still := new.write data here
    rw [if_neg different] at still
    exact ⟨⟨number, still⟩, (give_apart holds ⟨path, some fd, written ++ data⟩ rfl).mpr apart⟩
  case kept_once => exact sound.kept_once
  case rest =>
    intro other unheld unkept
    rw [write_entries]
    have before := (give_apart holds ⟨path, some fd, written ++ data⟩ rfl).mp unheld
    exact sound.rest other before unkept
  case descriptors =>
    intro other unheld
    rw [write_opened]
    refine sound.descriptors other (before_give unheld ?_)
    intro h early
    rw [holds] at early
    cases early
    exact unheld i ⟨path, some fd, written ++ data⟩ (give_self s i _)

omit [DecidableEq π] in
private theorem Sound.close (sound : Sound start s) (i : ι) {path : π} {fd : Nat} {written : List β}
    (holds : s.holding i = some ⟨path, some fd, written⟩) :
    Sound start { s.give i (some ⟨path, none, written⟩) with disk := s.disk.close fd } where
  next_le := sound.next_le
  once := sound.once
  old := sound.old
  held := by
    obtain ⟨target, mine, opened⟩ := sound.held i _ holds
    intro j h now
    rcases give_holding now with ⟨rfl, same⟩ | ⟨other, early⟩
    · cases same
      exact ⟨target, mine, fun open_ same => nomatch same⟩
    · obtain ⟨number, new, descriptor⟩ := sound.held j h early
      refine ⟨number, new, ?_⟩
      intro open_ same
      obtain ⟨before, there⟩ := descriptor open_ same
      have apart : open_ ≠ fd := by
        intro same
        rw [same, (opened fd rfl).2] at there
        have joint := Option.some.inj there
        have paths := sound.once h.path path number new.2.2.1 new.2.1 (joint ▸ mine.2.1)
        exact other (sound.alone j i h _ early holds paths)
      exact ⟨before, (close_opened s.disk fd apart).trans there⟩
  alone := by
    intro j k g g' first second paths
    exact sound.alone_give holds ⟨path, none, written⟩ rfl first second paths
  kept := by
    intro other kept member
    obtain ⟨new, apart⟩ := sound.kept other kept member
    exact ⟨new, (give_apart holds ⟨path, none, written⟩ rfl).mpr apart⟩
  kept_once := sound.kept_once
  rest := by
    intro other unheld unkept
    exact sound.rest other ((give_apart holds ⟨path, none, written⟩ rfl).mp unheld) unkept
  descriptors := by
    obtain ⟨target, mine, opened⟩ := sound.held i _ holds
    intro other unheld
    by_cases same : other = fd
    · rw [same]
      exact (close_fd s.disk fd).trans (opened fd rfl).1.symm
    · refine (close_opened s.disk fd same).trans
        (sound.descriptors other (before_give unheld ?_))
      intro h early
      rw [holds] at early
      cases early
      exact fun mine => same (Option.some.inj mine).symm

private theorem Sound.unlink (sound : Sound start s) (i : ι) {path : π} {written : List β}
    (holds : s.holding i = some ⟨path, none, written⟩) :
    Sound start { s.give i none with disk := s.disk.unlink path } where
  next_le := sound.next_le
  once := by
    have early : ∀ other number, (s.disk.unlink path).entries other = some number →
        s.disk.entries other = some number := by
      intro other number entry
      by_cases same : other = path
      · rw [same, unlink_entry] at entry
        cases entry
      · rwa [unlink_entries s.disk path same] at entry
    intro one other number made first second
    exact sound.once one other number made (early one number first) (early other number second)
  old := sound.old
  held := by
    intro j h now
    obtain ⟨other, early⟩ := give_none now
    obtain ⟨number, new, descriptor⟩ := sound.held j h early
    have apart : h.path ≠ path := fun same => other (sound.alone j i h _ early holds same)
    exact ⟨number, new.unlink apart, descriptor⟩
  alone := by
    intro j k g g' first second paths
    exact sound.alone j k g g' (give_none first).2 (give_none second).2 paths
  kept := by
    intro other kept member
    obtain ⟨⟨number, new⟩, apart⟩ := sound.kept other kept member
    exact ⟨⟨number, new.unlink (apart i _ holds).symm⟩,
      fun j h now => apart j h (give_none now).2⟩
  kept_once := sound.kept_once
  rest := by
    intro other unheld unkept
    by_cases same : other = path
    · obtain ⟨number, mine, _⟩ := sound.held i _ holds
      rw [same]
      exact (unlink_entry s.disk path).trans mine.1.symm
    · refine (unlink_entries s.disk path same).trans
        (sound.rest other (before_give unheld ?_) unkept)
      intro h early
      rw [holds] at early
      cases early
      exact Ne.symm same
  descriptors := by
    intro fd unheld
    refine sound.descriptors fd (before_give unheld ?_)
    intro h early
    rw [holds] at early
    cases early
    exact fun mine => nomatch mine

omit [DecidableEq π] in
private theorem Sound.keep (sound : Sound start s) (i : ι) {path : π} {written : List β}
    (holds : s.holding i = some ⟨path, none, written⟩) :
    Sound start { s.give i none with kept := s.kept ++ [(path, written)] } where
  next_le := sound.next_le
  once := sound.once
  old := sound.old
  held := fun j h now => sound.held j h (give_none now).2
  alone := by
    intro j k g g' first second paths
    exact sound.alone j k g g' (give_none first).2 (give_none second).2 paths
  kept := by
    intro other kept member
    rcases List.mem_append.mp member with early | last
    · obtain ⟨new, apart⟩ := sound.kept other kept early
      exact ⟨new, fun j h now => apart j h (give_none now).2⟩
    · cases List.mem_singleton.mp last
      obtain ⟨number, new, _⟩ := sound.held i _ holds
      refine ⟨⟨number, new⟩, ?_⟩
      intro j h now same
      obtain ⟨other, early⟩ := give_none now
      exact other (sound.alone j i h _ early holds same)
  kept_once := by
    rw [List.map_append, List.nodup_append]
    refine ⟨sound.kept_once, List.nodup_singleton _, ?_⟩
    intro other member last single same
    obtain ⟨⟨_, kept⟩, listed, rfl⟩ := List.mem_map.mp member
    rw [List.map_singleton, List.mem_singleton] at single
    exact (sound.kept _ _ listed).2 i _ holds (single.symm.trans same.symm)
  rest := by
    intro other unheld unkept
    rw [List.map_append, List.mem_append, not_or] at unkept
    refine sound.rest other (before_give unheld ?_) unkept.1
    intro h early
    rw [holds] at early
    cases early
    exact fun same => unkept.2 (List.mem_singleton.mpr same.symm)
  descriptors := by
    intro fd unheld
    refine sound.descriptors fd (before_give unheld ?_)
    intro h early
    rw [holds] at early
    cases early
    exact fun mine => nomatch mine

private theorem Sound.move (sound : Sound start s) {after : State ι π β} (move : Move s after) :
    Sound start after := by
  cases move with
  | create i fd path nothing new free => exact sound.create i fd path nothing new free
  | write i data holds => exact sound.write i data holds
  | close i holds => exact sound.close i holds
  | unlink i holds => exact sound.unlink i holds
  | keep i holds => exact sound.keep i holds

theorem Sound.moves {disk : Disk π β} {s : State ι π β}
    (moves : Relation.ReflTransGen Move (State.initial disk) s) : Sound disk s := by
  induction moves with
  | refl => exact Sound.started disk
  | tail _ move ih => exact ih.move move

end ExclusiveFiles
