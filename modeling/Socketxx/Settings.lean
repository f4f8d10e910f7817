import Socketxx.BasePipe
import Socketxx.Library.Runs

/-!
The settings of `text_socket` and `base_pipe`, from the constructors on.

`line_sep` and `timeout` are members without a default. A constructor that does not name
one leaves it without a value, which `none` stands for here.
-/

set_option autoImplicit false

namespace Socketxx.Settings

open BasePipe (Timeval timeoutInf Rw Pipe)
open Runs

inductive Setting where
  | lineSep
  | timeout
deriving DecidableEq, Repr

/-- The two members; an object has those of its class. -/
structure Members where
  lineSep : Option (List UInt8)
  timeout : Option Timeval
deriving DecidableEq, Repr

def Members.Holds (members : Members) : Setting → Prop
  | .lineSep => members.lineSep.isSome
  | .timeout => members.timeout.isSome

/-- The operations that store or use a setting. `i_line` makes so many calls of `_i`, and
`o_line` comes to the line ending when `o_str` did not throw. -/
inductive Op where
  | setLineSep (sep : List UInt8)
  | setReadTimeout (tm : Timeval)
  | iLine (calls : Nat)
  | oLineEnding
  | oLine (written : Bool)
  | oTxt
  | i
  | iFixsize
deriving DecidableEq, Repr

def step (members : Members) : Op → Members
  | .setLineSep sep => { members with lineSep := some sep }
  | .setReadTimeout tm => { members with timeout := some tm }
  | _ => members

/-! ### The constructors -/

/-- The constructors of `base_pipe`. A pipe is copied after some operations on it. -/
inductive PipeBuilt where
  | relay
  | handle
  | fromBaseFd
  | copied (other : PipeBuilt) (before : List Op)
deriving Repr

def PipeBuilt.timeout : PipeBuilt → Option Timeval
  | .relay => none
  | .handle => some timeoutInf
  | .fromBaseFd => some timeoutInf
  | .copied other before => (before.foldl step ⟨none, other.timeout⟩).timeout

private theorem PipeBuilt.timeout_handle {fstat : Int → Option UInt32} {rw : Rw} {handle : Int}
    {pipe : Pipe rw} (made : Pipe.ofHandle fstat rw handle = .ok pipe) :
    PipeBuilt.handle.timeout = some pipe.timeout := by
  unfold Pipe.ofHandle at made
  cases checked : BasePipe.checkPipe fstat handle rw with
  | error error =>
      rw [checked] at made
      cases made
  | ok passed =>
      rw [checked] at made
      cases made
      rfl

theorem PipeBuilt.timeout_fromBaseFd {fstat : Int → Option UInt32} {rw : Rw} {base : Int}
    {pipe : Pipe rw} (made : Pipe.ofBaseFd fstat rw base = .ok pipe) :
    PipeBuilt.fromBaseFd.timeout = some pipe.timeout :=
  PipeBuilt.timeout_handle made

/-- What a `text_socket` is made from: a socket, or a pipe after some operations on it. -/
inductive IoBase where
  | socket
  | pipe (rw : Rw) (other : PipeBuilt) (before : List Op)
deriving Repr

/-- The objects, by the constructor that builds them. A `text_socket` is not copied, and
its default constructor needs that of `io_base`, which `base_pipe` does not have. -/
inductive Object where
  | basePipe (rw : Rw) (built : PipeBuilt)
  | textDefault
  | textRelay (pipe : Option Rw)
  | textFrom (iob : IoBase)
deriving Repr

def socketClient : Object := .textDefault

def serverClient : Object := .textRelay none

def Object.members : Object → Members
  | .basePipe _ built => ⟨none, built.timeout⟩
  | .textDefault => ⟨some [13, 10], none⟩
  | .textRelay _ => ⟨none, PipeBuilt.relay.timeout⟩
  | .textFrom .socket => ⟨none, none⟩
  | .textFrom (.pipe _ other before) => ⟨none, (PipeBuilt.copied other before).timeout⟩

def Object.isText : Object → Bool
  | .basePipe .. => false
  | _ => true

def Object.pipeEnd : Object → Option Rw
  | .basePipe rw _ => some rw
  | .textDefault => none
  | .textRelay pipe => pipe
  | .textFrom .socket => none
  | .textFrom (.pipe rw _ _) => some rw

/-- A call of `_i`, which for a pipe that is not readable throws before anything else. -/
def Object.readUses (object : Object) : List Setting :=
  if object.pipeEnd = some .read then [.timeout] else []

def Object.uses (object : Object) : Op → List Setting
  | .setLineSep _ => []
  | .setReadTimeout _ => []
  | .iLine calls =>
      if object.isText then .lineSep :: (List.replicate calls object.readUses).flatten else []
  | .oLineEnding => if object.isText then [.lineSep] else []
  | .oLine written => if object.isText && written then [.lineSep] else []
  | .oTxt => if object.isText then [.lineSep] else []
  | .i => object.readUses
  | .iFixsize => object.readUses

/-- In a run of operations on the object, whatever setting is used has a value. -/
def Object.ReadsInitialised (object : Object) (ops : List Op) : Prop :=
  EveryStep step (fun members op => ∀ setting ∈ object.uses op, members.Holds setting)
    object.members ops

/-! ### Which constructors and operations give a setting a value -/

def Op.Sets : Op → Setting → Prop
  | .setLineSep _, .lineSep => True
  | .setReadTimeout _, .timeout => True
  | _, _ => False

def PipeBuilt.Initialises : PipeBuilt → Prop
  | .relay => False
  | .handle => True
  | .fromBaseFd => True
  | .copied other before => other.Initialises ∨ ∃ op ∈ before, op.Sets .timeout

def Object.Initialises : Object → Setting → Prop
  | .textDefault, .lineSep => True
  | _, .lineSep => False
  | .basePipe _ built, .timeout => built.Initialises
  | .textFrom (.pipe _ other before), .timeout => (PipeBuilt.copied other before).Initialises
  | _, .timeout => False

/-- Every use of a setting comes after a call of its setter. -/
def Object.SetBeforeUse (object : Object) (setting : Setting) (ops : List Op) : Prop :=
  ∀ before op after, ops = before ++ op :: after → setting ∈ object.uses op →
    ∃ setter ∈ before, Op.Sets setter setting

private theorem step_holds_iff (members : Members) (op : Op) (setting : Setting) :
    (step members op).Holds setting ↔ members.Holds setting ∨ op.Sets setting := by
  cases op <;> cases setting <;> simp [step, Members.Holds, Op.Sets]

theorem foldl_holds_iff (ops : List Op) (members : Members) (setting : Setting) :
    (ops.foldl step members).Holds setting ↔
      members.Holds setting ∨ ∃ op ∈ ops, op.Sets setting := by
  induction ops generalizing members with
  | nil => simp
  | cons op later ih =>
      rw [List.foldl_cons, ih, step_holds_iff, or_assoc]
      simp only [List.mem_cons, exists_eq_or_imp]

private theorem PipeBuilt.timeout_iff (built : PipeBuilt) :
    built.timeout.isSome ↔ built.Initialises := by
  induction built with
  | relay => exact iff_of_false Bool.false_ne_true id
  | handle => exact iff_of_true rfl trivial
  | fromBaseFd => exact iff_of_true rfl trivial
  | copied other before ih =>
      have stored := foldl_holds_iff before ⟨none, other.timeout⟩ .timeout
      change _ ↔ other.timeout.isSome ∨ _ at stored
      rw [ih] at stored
      exact stored

private theorem Object.members_iff (object : Object) (setting : Setting) :
    object.members.Holds setting ↔ object.Initialises setting := by
  cases setting with
  | lineSep =>
      cases object with
      | basePipe rw built => exact iff_of_false Bool.false_ne_true id
      | textDefault => exact iff_of_true rfl trivial
      | textRelay pipe => exact iff_of_false Bool.false_ne_true id
      | textFrom iob => cases iob <;> exact iff_of_false Bool.false_ne_true id
  | timeout =>
      cases object with
      | basePipe rw built => exact built.timeout_iff
      | textDefault => exact iff_of_false Bool.false_ne_true id
      | textRelay pipe => exact iff_of_false Bool.false_ne_true id
      | textFrom iob =>
          cases iob with
          | socket => exact iff_of_false Bool.false_ne_true id
          | pipe rw other before => exact (PipeBuilt.copied other before).timeout_iff

/-- A run reads no setting without a value when every setting it uses has been given one,
by the constructor or by a setter called before. -/
theorem Object.readsInitialised_iff (object : Object) (ops : List Op) :
    object.ReadsInitialised ops ↔
      ∀ setting, object.Initialises setting ∨ object.SetBeforeUse setting ops := by
  rw [Object.ReadsInitialised, everyStep_iff_split]
  constructor
  · intro reads setting
    by_cases initial : object.Initialises setting
    · exact Or.inl initial
    · apply Or.inr
      intro before op after split used
      have holds := reads before op after split setting used
      rw [foldl_holds_iff, object.members_iff] at holds
      exact holds.resolve_left initial
  · intro given before op after split setting used
    rw [foldl_holds_iff, object.members_iff]
    rcases given setting with initial | set
    · exact Or.inl initial
    · exact Or.inr (set before op after split used)

theorem uninitialised_reads :
    ¬ (Object.textFrom .socket).ReadsInitialised [.iLine 1] ∧
      ¬ serverClient.ReadsInitialised [.oTxt] ∧
      ¬ (Object.basePipe .read .relay).ReadsInitialised [.i] := by
  refine ⟨?_, ?_, ?_⟩
  · intro reads
    exact Bool.false_ne_true (reads.1 .lineSep (List.mem_cons_self ..))
  · intro reads
    exact Bool.false_ne_true (reads.1 .lineSep (List.mem_cons_self ..))
  · intro reads
    exact Bool.false_ne_true (reads.1 .timeout (List.mem_cons_self ..))

end Socketxx.Settings
