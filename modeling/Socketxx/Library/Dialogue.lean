import Mathlib.Logic.Function.Basic
import Mathlib.Logic.Relation
import Socketxx.Library.MessageCodec

/-!
Two parties that write messages to each other and read them, over one byte queue in each
direction.

The parties follow the two halves of one conversation. A message is written byte by byte
while there is room in the queue, and read byte by byte for as long as its reader ends
short; the steps of the two parties interleave in any order. In every reachable state each
party has received exactly what the other sent it in the part of the conversation it has
been through, no reader has failed, and as long as something is left to do a step can be
made. Every step pays one unit of the work the conversation is worth.
-/

set_option autoImplicit false

namespace Dialogue

open StreamReader MessageCodec

inductive Side where
  | left
  | right
deriving DecidableEq, Repr

def Side.other : Side → Side
  | .left => .right
  | .right => .left

@[simp] theorem Side.other_other (side : Side) : side.other.other = side := by
  cases side <;> rfl

@[simp] theorem Side.other_ne (side : Side) : side.other ≠ side := by
  cases side <;> decide

theorem Side.eq_or_other (side lead : Side) : side = lead ∨ side = lead.other := by
  cases side <;> cases lead <;> simp [Side.other]

inductive Act (μ κ : Type) where
  | send (m : μ)
  | receive (k : κ)

/-- A party at some point of its script: what it still has to write of the message it
sends, what it has read of the one it receives, and the values it has received. -/
structure Party (β μ κ ν : Type) where
  script : List (Act μ κ)
  unsent : List β
  held : List β
  log : List ν

/-- `wire side` is what `side` has written and the other one has not read. -/
structure State (β μ κ ν : Type) where
  party : Side → Party β μ κ ν
  wire : Side → List β

abbrev Conversation (μ : Type) := List (Side × μ)

variable {β ε υ μ κ ν : Type} (c : Codec β ε υ μ κ ν)

def act (side : Side) (turn : Side × μ) : Act μ κ :=
  if turn.1 = side then .send turn.2 else .receive (c.kind turn.2)

def script (side : Side) (conversation : Conversation μ) : List (Act μ κ) :=
  conversation.map (act c side)

def heard (side : Side) (conversation : Conversation μ) : List ν :=
  (conversation.filter (fun turn => turn.1 ≠ side)).map (fun turn => c.value turn.2)

def start (conversation : Conversation μ) : State β μ κ ν where
  party side := { script := script c side conversation, unsent := [], held := [], log := [] }
  wire _ := []

def State.set (s : State β μ κ ν) (side : Side) (p : Party β μ κ ν) : State β μ κ ν :=
  { s with party := Function.update s.party side p }

def State.carry (s : State β μ κ ν) (side : Side) (bytes : List β) : State β μ κ ν :=
  { s with wire := Function.update s.wire side bytes }

/-- One step of one of the two parties; the queue a side writes to has room for `room side`
bytes. -/
inductive Step (room : Side → Nat) : State β μ κ ν → State β μ κ ν → Prop where
  | call {s : State β μ κ ν} (side : Side) {m : μ} {later : List (Act μ κ)}
      (idle : (s.party side).unsent = []) (next : (s.party side).script = .send m :: later) :
      Step room s
        (s.set side { s.party side with script := later, unsent := c.encode m })
  | push {s : State β μ κ ν} (side : Side) {byte : β} {rest : List β}
      (ready : (s.party side).unsent = byte :: rest) (free : (s.wire side).length < room side) :
      Step room s
        ((s.set side { s.party side with unsent := rest }).carry side (s.wire side ++ [byte]))
  | pull {s : State β μ κ ν} (side : Side) {k : κ} {later : List (Act μ κ)} {byte : β}
      {rest : List β} (idle : (s.party side).unsent = [])
      (next : (s.party side).script = .receive k :: later)
      (blocked : c.reader k (s.party side).held = .throw c.short)
      (ready : s.wire side.other = byte :: rest) :
      Step room s
        ((s.set side { s.party side with held := (s.party side).held ++ [byte] }).carry
          side.other rest)
  | deliver {s : State β μ κ ν} (side : Side) {k : κ} {later : List (Act μ κ)} {value : ν}
      {rest : List β} (idle : (s.party side).unsent = [])
      (next : (s.party side).script = .receive k :: later)
      (read : c.reader k (s.party side).held = .ok (value, rest)) :
      Step room s
        (s.set side { s.party side with
          script := later, held := rest, log := (s.party side).log ++ [value] })

/-- The reader of the message a side receives neither returns nor waits for more. -/
def Fails (s : State β μ κ ν) (side : Side) : Prop :=
  ∃ k later, (s.party side).unsent = [] ∧ (s.party side).script = .receive k :: later ∧
    c.reader k (s.party side).held ≠ .throw c.short ∧
    ∀ result, c.reader k (s.party side).held ≠ .ok result

def Finished (conversation : Conversation μ) (s : State β μ κ ν) : Prop :=
  ∀ side, s.party side =
      { script := [], unsent := [], held := [], log := heard c side conversation } ∧
    s.wire side = []

def Reached (room : Side → Nat) (conversation : Conversation μ) (s : State β μ κ ν) : Prop :=
  Relation.ReflTransGen (Step c room) (start c conversation) s

/-! ### Projections of a conversation -/

@[simp] theorem State.set_party_self (s : State β μ κ ν) (side : Side) (p : Party β μ κ ν) :
    (s.set side p).party side = p := by
  simp only [State.set, Function.update_self]

@[simp] theorem State.set_party_other (s : State β μ κ ν) (side : Side) (p : Party β μ κ ν) :
    (s.set side p).party side.other = s.party side.other := by
  simp only [State.set, Function.update_of_ne side.other_ne]

@[simp] theorem State.set_other_party (s : State β μ κ ν) (side : Side) (p : Party β μ κ ν) :
    (s.set side.other p).party side = s.party side := by
  simp only [State.set, Function.update_of_ne side.other_ne.symm]

@[simp] theorem State.set_wire (s : State β μ κ ν) (side : Side) (p : Party β μ κ ν) :
    (s.set side p).wire = s.wire := rfl

@[simp] theorem State.carry_party (s : State β μ κ ν) (side : Side) (bytes : List β) :
    (s.carry side bytes).party = s.party := rfl

@[simp] theorem State.carry_wire_self (s : State β μ κ ν) (side : Side) (bytes : List β) :
    (s.carry side bytes).wire side = bytes := by
  simp only [State.carry, Function.update_self]

@[simp] theorem State.carry_wire_other (s : State β μ κ ν) (side : Side) (bytes : List β) :
    (s.carry side bytes).wire side.other = s.wire side.other := by
  simp only [State.carry, Function.update_of_ne side.other_ne]

@[simp] theorem State.carry_other_wire (s : State β μ κ ν) (side : Side) (bytes : List β) :
    (s.carry side.other bytes).wire side = s.wire side := by
  simp only [State.carry, Function.update_of_ne side.other_ne.symm]

@[simp] theorem act_self (side : Side) (m : μ) : act c side (side, m) = .send m := if_pos rfl

@[simp] theorem act_other (side : Side) (m : μ) :
    act c side.other (side, m) = .receive (c.kind m) := if_neg side.other_ne.symm

@[simp] theorem act_of_other (side : Side) (m : μ) :
    act c side (side.other, m) = .receive (c.kind m) := if_neg side.other_ne

private theorem script_eq_send {side : Side} {conversation : Conversation μ} {m : μ}
    {later : List (Act μ κ)} (first : script c side conversation = .send m :: later) :
    ∃ rest, conversation = (side, m) :: rest ∧ later = script c side rest := by
  cases conversation with
  | nil => cases first
  | cons turn rest =>
      obtain ⟨speaker, said⟩ := turn
      rw [script, List.map_cons] at first
      obtain ⟨now, after⟩ := List.cons.inj first
      rcases speaker.eq_or_other side with same | other
      · subst same
        rw [act_self] at now
        cases now
        exact ⟨rest, rfl, after.symm⟩
      · subst other
        rw [act_of_other] at now
        cases now

theorem script_eq_receive {side : Side} {conversation : Conversation μ} {k : κ}
    {later : List (Act μ κ)} (first : script c side conversation = .receive k :: later) :
    ∃ m rest, conversation = (side.other, m) :: rest ∧ k = c.kind m ∧
      later = script c side rest := by
  cases conversation with
  | nil => cases first
  | cons turn rest =>
      obtain ⟨speaker, said⟩ := turn
      rw [script, List.map_cons] at first
      obtain ⟨now, after⟩ := List.cons.inj first
      rcases speaker.eq_or_other side with same | other
      · subst same
        rw [act_self] at now
        cases now
      · subst other
        rw [act_of_other] at now
        cases now
        exact ⟨said, rest, rfl, rfl, after.symm⟩

theorem heard_append (side : Side) (first later : Conversation μ) :
    heard c side (first ++ later) = heard c side first ++ heard c side later := by
  rw [heard, List.filter_append, List.map_append]
  rfl

theorem heard_own (side : Side) (said : List μ) :
    heard c side (said.map (fun m => (side, m))) = [] := by
  rw [heard, List.map_eq_nil_iff, List.filter_eq_nil_iff]
  intro turn member
  obtain ⟨m, _present, rfl⟩ := List.mem_map.mp member
  simp

private theorem heard_turn (side : Side) (m : μ) :
    heard c side.other [(side, m)] = [c.value m] := by
  cases side <;> rfl

/-! ### What is on its way -/

/-- The first message of those that are on their way. -/
def firstWord (gap : List μ) : List β := (gap.take 1).flatMap c.encode

/-- Side `lead` is ahead of the other one by the messages `gap`, all of them its own. -/
structure Ahead (conversation : Conversation μ) (lead : Side) (past : Conversation μ)
    (gap : List μ) (rest : Conversation μ) (s : State β μ κ ν) : Prop where
  whole : conversation = past ++ (gap.map (fun m => (lead, m)) ++ rest)
  leadScript : (s.party lead).script = script c lead rest
  followScript : (s.party lead.other).script =
    script c lead.other (gap.map (fun m => (lead, m)) ++ rest)
  stream : (s.party lead.other).held ++ (s.wire lead ++ (s.party lead).unsent) =
    gap.flatMap c.encode
  inside : (s.party lead.other).held <+: firstWord c gap
  leadHeld : (s.party lead).held = []
  backWire : s.wire lead.other = []
  followUnsent : (s.party lead.other).unsent = []
  leadLog : (s.party lead).log = heard c lead past
  followLog : (s.party lead.other).log = heard c lead.other past

variable {c} {conversation past rest : Conversation μ} {lead : Side} {gap : List μ}
  {s t : State β μ κ ν} {room : Side → Nat}

private theorem Ahead.begin (conversation : Conversation μ) (lead : Side) :
    Ahead c conversation lead [] [] conversation (start c conversation) where
  whole := rfl
  leadScript := rfl
  followScript := rfl
  stream := rfl
  inside := List.nil_prefix
  leadHeld := rfl
  backWire := rfl
  followUnsent := rfl
  leadLog := rfl
  followLog := rfl

theorem Ahead.level (at_ : Ahead c conversation lead past [] rest s) :
    (s.party lead.other).held = [] ∧ s.wire lead = [] ∧ (s.party lead).unsent = [] := by
  have stream := at_.stream
  rw [List.flatMap_nil, List.append_eq_nil_iff, List.append_eq_nil_iff] at stream
  exact stream

theorem Ahead.swap (at_ : Ahead c conversation lead past [] rest s) :
    Ahead c conversation lead.other past [] rest s := by
  obtain ⟨held, wire, unsent⟩ := at_.level
  constructor
  case whole => exact at_.whole
  case leadScript => exact at_.followScript
  case followScript => rw [lead.other_other]; exact at_.leadScript
  case stream => rw [lead.other_other, at_.leadHeld, at_.backWire, at_.followUnsent]; rfl
  case inside => rw [lead.other_other, at_.leadHeld]; exact List.nil_prefix
  case leadHeld => exact held
  case backWire => rw [lead.other_other]; exact wire
  case followUnsent => rw [lead.other_other]; exact unsent
  case leadLog => exact at_.followLog
  case followLog => rw [lead.other_other]; exact at_.leadLog

private theorem Ahead.call {m : μ} (at_ : Ahead c conversation lead past gap ((lead, m) :: rest) s)
    (idle : (s.party lead).unsent = []) :
    Ahead c conversation lead past (gap ++ [m]) rest
      (s.set lead { s.party lead with script := script c lead rest, unsent := c.encode m }) := by
  have turns : (gap ++ [m]).map (fun m => (lead, m)) ++ rest =
      gap.map (fun m => (lead, m)) ++ (lead, m) :: rest := by simp
  constructor
  case whole => rw [turns]; exact at_.whole
  case leadScript => simp only [State.set_party_self]
  case followScript => rw [State.set_party_other, turns]; exact at_.followScript
  case stream =>
    have stream := at_.stream
    rw [idle, List.append_nil] at stream
    simp only [State.set_party_other, State.set_party_self, State.set_wire,
      List.flatMap_append, List.flatMap_cons, List.flatMap_nil, List.append_nil]
    rw [← stream, List.append_assoc]
  case inside =>
    rw [State.set_party_other]
    have inside := at_.inside
    cases gap with
    | nil => exact (List.prefix_nil.mp inside) ▸ List.nil_prefix
    | cons first others => exact inside
  case leadHeld => simp only [State.set_party_self, at_.leadHeld]
  case backWire => exact at_.backWire
  case followUnsent => rw [State.set_party_other]; exact at_.followUnsent
  case leadLog => simp only [State.set_party_self, at_.leadLog]
  case followLog => rw [State.set_party_other]; exact at_.followLog

private theorem Ahead.push {byte : β} {bytes : List β}
    (at_ : Ahead c conversation lead past gap rest s)
    (ready : (s.party lead).unsent = byte :: bytes) :
    Ahead c conversation lead past gap rest
      ((s.set lead { s.party lead with unsent := bytes }).carry lead (s.wire lead ++ [byte])) where
  whole := at_.whole
  leadScript := by simp only [State.carry_party, State.set_party_self, at_.leadScript]
  followScript := by simp only [State.carry_party, State.set_party_other, at_.followScript]
  stream := by
    have stream := at_.stream
    rw [ready] at stream
    simp only [State.carry_party, State.set_party_other, State.set_party_self,
      State.carry_wire_self, List.append_assoc, List.singleton_append, stream]
  inside := by simp only [State.carry_party, State.set_party_other, at_.inside]
  leadHeld := by simp only [State.carry_party, State.set_party_self, at_.leadHeld]
  backWire := by rw [State.carry_wire_other]; exact at_.backWire
  followUnsent := by simp only [State.carry_party, State.set_party_other, at_.followUnsent]
  leadLog := by simp only [State.carry_party, State.set_party_self, at_.leadLog]
  followLog := by simp only [State.carry_party, State.set_party_other, at_.followLog]

theorem Ahead.inside_first {m : μ} (at_ : Ahead c conversation lead past (m :: gap) rest s) :
    (s.party lead.other).held <+: c.encode m := by
  have inside := at_.inside
  rwa [firstWord, List.take_succ_cons, List.take_zero, List.flatMap_cons,
    List.flatMap_nil, List.append_nil] at inside

private theorem Ahead.pull {m : μ} {byte : β} {bytes : List β}
    (at_ : Ahead c conversation lead past (m :: gap) rest s)
    (blocked : c.reader (c.kind m) (s.party lead.other).held = .throw c.short)
    (ready : s.wire lead = byte :: bytes) :
    Ahead c conversation lead past (m :: gap) rest
      ((s.set lead.other { s.party lead.other with
        held := (s.party lead.other).held ++ [byte] }).carry lead bytes) := by
  have stream := at_.stream
  rw [ready] at stream
  have grown : (s.party lead.other).held ++ [byte] <+: c.encode m := by
    rcases c.held_cases at_.inside_first with whole | ⟨⟨missing, nonempty, word⟩, _short⟩
    · rw [whole, c.whole_read] at blocked
      cases blocked
    · rw [List.flatMap_cons, word, List.append_assoc] at stream
      have after := List.append_cancel_left stream
      obtain ⟨next, missing, rfl⟩ := List.exists_cons_of_ne_nil nonempty
      rw [List.cons_append, List.cons_append] at after
      obtain ⟨rfl, _same⟩ := List.cons.inj after
      exact ⟨missing, by rw [word, List.append_assoc]; rfl⟩
  constructor
  case whole => exact at_.whole
  case leadScript => simp only [State.carry_party, State.set_other_party, at_.leadScript]
  case followScript => simp only [State.carry_party, State.set_party_self, at_.followScript]
  case stream =>
    simp only [State.carry_party, State.set_other_party, State.set_party_self,
      State.carry_wire_self, List.append_assoc, List.singleton_append]
    exact stream
  case inside =>
    simp only [State.carry_party, State.set_party_self, firstWord, List.take_succ_cons,
      List.take_zero, List.flatMap_cons, List.flatMap_nil, List.append_nil]
    exact grown
  case leadHeld => simp only [State.carry_party, State.set_other_party, at_.leadHeld]
  case backWire => rw [State.carry_wire_other]; exact at_.backWire
  case followUnsent => simp only [State.carry_party, State.set_party_self, at_.followUnsent]
  case leadLog => simp only [State.carry_party, State.set_other_party, at_.leadLog]
  case followLog => simp only [State.carry_party, State.set_party_self, at_.followLog]

private theorem Ahead.deliver {m : μ} {value : ν} {left : List β}
    (at_ : Ahead c conversation lead past (m :: gap) rest s)
    (read : c.reader (c.kind m) (s.party lead.other).held = .ok (value, left)) :
    Ahead c conversation lead (past ++ [(lead, m)]) gap rest
      (s.set lead.other { s.party lead.other with
        script := script c lead.other (gap.map (fun m => (lead, m)) ++ rest)
        held := left
        log := (s.party lead.other).log ++ [value] }) := by
  rcases c.held_cases at_.inside_first with whole | ⟨_missing, short⟩
  case inr =>
    rw [short] at read
    cases read
  have stream := at_.stream
  rw [whole, c.whole_read] at read
  rw [whole, List.flatMap_cons] at stream
  cases read
  constructor
  case whole =>
    have split := at_.whole
    rw [List.map_cons, List.cons_append] at split
    rw [split, List.append_assoc]
    rfl
  case leadScript => rw [State.set_other_party]; exact at_.leadScript
  case followScript => rw [State.set_party_self]
  case stream =>
    simp only [State.set_other_party, State.set_party_self, State.set_wire, List.nil_append]
    exact List.append_cancel_left stream
  case inside => simp only [State.set_party_self, List.nil_prefix]
  case leadHeld => rw [State.set_other_party]; exact at_.leadHeld
  case backWire => exact at_.backWire
  case followUnsent => simp only [State.set_party_self, at_.followUnsent]
  case leadLog =>
    have own := heard_own (c := c) lead [m]
    rw [State.set_other_party, at_.leadLog, heard_append]
    rw [List.map_singleton] at own
    rw [own, List.append_nil]
  case followLog => simp only [State.set_party_self, at_.followLog, heard_append, heard_turn]

/-- One step of either side keeps one of them ahead of the other. -/
private theorem Ahead.step (at_ : Ahead c conversation lead past gap rest s)
    (step : Step c room s t) :
    ∃ lead past gap rest, Ahead c conversation lead past gap rest t := by
  cases step with
  | @call side m later idle next =>
      rcases side.eq_or_other lead with same | other
      · subst same
        rw [at_.leadScript] at next
        obtain ⟨rest, rfl, rfl⟩ := script_eq_send c next
        exact ⟨_, _, _, _, at_.call idle⟩
      · subst other
        cases gap with
        | nil =>
            have swapped := at_.swap
            rw [swapped.leadScript] at next
            obtain ⟨rest, rfl, rfl⟩ := script_eq_send c next
            exact ⟨_, _, _, _, swapped.call idle⟩
        | cons first others =>
            rw [at_.followScript] at next
            obtain ⟨_rest, impossible, _same⟩ := script_eq_send c next
            exact absurd (congrArg Prod.fst (List.cons.inj impossible).1) lead.other_ne.symm
  | @push side byte bytes ready free =>
      rcases side.eq_or_other lead with same | other
      · subst same
        exact ⟨_, _, _, _, at_.push ready⟩
      · subst other
        rw [at_.followUnsent] at ready
        cases ready
  | @pull side k later byte bytes idle next blocked ready =>
      rcases side.eq_or_other lead with same | other
      · subst same
        rw [at_.backWire] at ready
        cases ready
      · subst other
        rw [lead.other_other] at ready ⊢
        cases gap with
        | nil =>
            rw [at_.level.2.1] at ready
            cases ready
        | cons first others =>
            rw [at_.followScript] at next
            obtain ⟨m, _rest, turns, rfl, _same⟩ := script_eq_receive c next
            obtain rfl : first = m := (Prod.mk.inj (List.cons.inj turns).1).2
            exact ⟨_, _, _, _, at_.pull blocked ready⟩
  | @deliver side k later value left idle next read =>
      rcases side.eq_or_other lead with same | other
      · subst same
        rw [at_.leadScript] at next
        obtain ⟨m, _rest, _turns, rfl, _same⟩ := script_eq_receive c next
        rw [at_.leadHeld, c.empty_short] at read
        cases read
      · subst other
        cases gap with
        | nil =>
            rw [at_.swap.leadScript] at next
            obtain ⟨m, _rest, _turns, rfl, _same⟩ := script_eq_receive c next
            rw [at_.level.1, c.empty_short] at read
            cases read
        | cons first others =>
            rw [at_.followScript] at next
            obtain ⟨m, _rest, turns, rfl, rfl⟩ := script_eq_receive c next
            obtain ⟨same, tail⟩ := List.cons.inj turns
            obtain rfl : first = m := (Prod.mk.inj same).2
            rw [← tail]
            exact ⟨_, _, _, _, at_.deliver read⟩

theorem Reached.ahead (reached : Reached c room conversation s) :
    ∃ lead past gap rest, Ahead c conversation lead past gap rest s := by
  induction reached with
  | refl => exact ⟨.left, [], [], conversation, Ahead.begin conversation .left⟩
  | tail _before step ih =>
      obtain ⟨lead, past, gap, rest, at_⟩ := ih
      exact at_.step step

/-! ### Agreement -/

/-- A side has been through the first part of the conversation, has received exactly what
the other one says in it, and has the second part ahead. -/
def Agrees (c : Codec β ε υ μ κ ν) (conversation : Conversation μ) (s : State β μ κ ν)
    (side : Side) : Prop :=
  ∃ past rest, conversation = past ++ rest ∧ (s.party side).log = heard c side past ∧
    (s.party side).script = script c side rest

private theorem Ahead.agrees (at_ : Ahead c conversation lead past gap rest s) (side : Side) :
    Agrees c conversation s side := by
  rcases side.eq_or_other lead with same | other
  · subst same
    refine ⟨past ++ gap.map (fun m => (side, m)), rest, ?_, ?_, at_.leadScript⟩
    · rw [List.append_assoc]
      exact at_.whole
    · rw [heard_append, heard_own, List.append_nil]
      exact at_.leadLog
  · subst other
    exact ⟨past, _, at_.whole, at_.followLog, at_.followScript⟩

private theorem Ahead.not_fails (at_ : Ahead c conversation lead past gap rest s) (side : Side) :
    ¬ Fails c s side := by
  intro failed
  obtain ⟨k, later, _idle, next, notShort, notOk⟩ := failed
  rcases side.eq_or_other lead with same | other
  · subst same
    rw [at_.leadScript] at next
    obtain ⟨m, _rest, _turns, rfl, _same⟩ := script_eq_receive c next
    rw [at_.leadHeld] at notShort
    exact notShort (c.empty_short m)
  · subst other
    cases gap with
    | nil =>
        rw [at_.swap.leadScript] at next
        obtain ⟨m, _rest, _turns, rfl, _same⟩ := script_eq_receive c next
        rw [at_.level.1] at notShort
        exact notShort (c.empty_short m)
    | cons first others =>
        rw [at_.followScript] at next
        obtain ⟨m, _rest, turns, rfl, _same⟩ := script_eq_receive c next
        obtain rfl : first = m := (Prod.mk.inj (List.cons.inj turns).1).2
        rcases c.held_cases at_.inside_first with whole | ⟨_missing, short⟩
        · rw [whole] at notOk
          exact notOk _ (c.whole_read first)
        · exact notShort short

theorem Reached.agrees (reached : Reached c room conversation s) (side : Side) :
    Agrees c conversation s side ∧ ¬ Fails c s side := by
  obtain ⟨lead, past, gap, rest, at_⟩ := reached.ahead
  exact ⟨at_.agrees side, at_.not_fails side⟩

/-! ### Progress -/

private theorem Ahead.moves_gap {m : μ} (at_ : Ahead c conversation lead past (m :: gap) rest s)
    (positive : ∀ side, 0 < room side) : ∃ t, Step c room s t := by
  have next := at_.followScript
  rw [List.map_cons, List.cons_append, script, List.map_cons, act_other] at next
  rcases c.held_cases at_.inside_first with whole | ⟨⟨missing, nonempty, word⟩, short⟩
  · have read : c.reader (c.kind m) (s.party lead.other).held = .ok (c.value m, []) := by
      rw [whole]
      exact c.whole_read m
    exact ⟨_, Step.deliver lead.other at_.followUnsent next read⟩
  · cases wireAt : s.wire lead with
    | cons byte bytes =>
        have ready : s.wire lead.other.other = byte :: bytes := by
          rw [lead.other_other]
          exact wireAt
        exact ⟨_, Step.pull lead.other at_.followUnsent next short ready⟩
    | nil =>
        -- What the word misses is still with the sender.
        cases unsentAt : (s.party lead).unsent with
        | cons byte bytes =>
            have free : (s.wire lead).length < room lead := by
              rw [wireAt]
              exact positive lead
            exact ⟨_, Step.push lead unsentAt free⟩
        | nil =>
            have stream := at_.stream
            rw [wireAt, unsentAt, List.flatMap_cons, word, List.append_assoc] at stream
            have nothing := (List.append_eq_nil_iff.mp (List.append_cancel_left stream).symm).1
            exact absurd nothing nonempty

private theorem Ahead.moves_level {turn : Side × μ}
    (at_ : Ahead c conversation lead past [] (turn :: rest) s) : ∃ t, Step c room s t := by
  obtain ⟨speaker, said⟩ := turn
  rcases speaker.eq_or_other lead with same | other
  · subst same
    have next := at_.leadScript
    rw [script, List.map_cons, act_self] at next
    exact ⟨_, Step.call speaker at_.level.2.2 next⟩
  · subst other
    have next := at_.swap.leadScript
    rw [script, List.map_cons, act_self] at next
    exact ⟨_, Step.call lead.other at_.followUnsent next⟩

private theorem Ahead.finished (at_ : Ahead c conversation lead past [] [] s) :
    Finished c conversation s := by
  have whole := at_.whole
  rw [List.map_nil, List.nil_append, List.append_nil] at whole
  intro side
  -- The side that is not ahead is so after a swap.
  have both : ∀ {lead : Side}, Ahead c conversation lead past [] [] s →
      s.party lead =
          { script := [], unsent := [], held := [], log := heard c lead conversation } ∧
        s.wire lead = [] := by
    intro lead at_
    obtain ⟨_held, wire, unsent⟩ := at_.level
    have ends := at_.leadScript
    have held := at_.leadHeld
    have log := at_.leadLog
    rw [← whole] at log
    cases partyAt : s.party lead with
    | mk scriptNow unsentNow heldNow logNow =>
        rw [partyAt] at ends unsent held log
        subst ends unsent held log
        exact ⟨rfl, wire⟩
  rcases side.eq_or_other lead with same | other
  · subst same
    exact both at_
  · subst other
    exact both at_.swap

/-- A step can be made until both sides are through. -/
theorem Reached.progress (positive : ∀ side, 0 < room side)
    (reached : Reached c room conversation s) :
    (∃ t, Step c room s t) ∨ Finished c conversation s := by
  obtain ⟨lead, past, gap, rest, at_⟩ := reached.ahead
  cases gap with
  | cons first others => exact Or.inl (at_.moves_gap positive)
  | nil =>
      cases rest with
      | cons turn later => exact Or.inl at_.moves_level
      | nil => exact Or.inr at_.finished

/-! ### The work of a conversation -/

def Act.bytes (c : Codec β ε υ μ κ ν) : Act μ κ → List β
  | .send m => c.encode m
  | .receive _ => []

/-- Starting a message takes a step, and so does delivering one; each of its bytes is
pushed and pulled. -/
def Party.work (c : Codec β ε υ μ κ ν) (p : Party β μ κ ν) : Nat :=
  p.script.length + 2 * (p.script.flatMap (Act.bytes c)).length + 2 * p.unsent.length

def State.work (c : Codec β ε υ μ κ ν) (s : State β μ κ ν) (side : Side) : Nat :=
  (s.party side).work c + (s.wire side).length

def State.total (c : Codec β ε υ μ κ ν) (s : State β μ κ ν) : Nat :=
  s.work c .left + s.work c .right

def Conversation.work (c : Codec β ε υ μ κ ν) (conversation : Conversation μ) : Nat :=
  2 * conversation.length + 2 * (conversation.flatMap (fun turn => c.encode turn.2)).length

theorem State.total_eq (s : State β μ κ ν) (side : Side) :
    s.total c = s.work c side + s.work c side.other := by
  cases side with
  | left => rfl
  | right => exact Nat.add_comm _ _

theorem Step.total (step : Step c room s t) : t.total c + 1 = s.total c := by
  cases step with
  | @call side m later idle next =>
      rw [State.total_eq _ side, State.total_eq _ side]
      simp only [State.work, State.set_party_self, State.set_party_other, State.set_wire,
        Party.work, next, idle, List.flatMap_cons, List.length_append, List.length_cons,
        Act.bytes, List.length_nil]
      omega
  | @push side byte bytes ready free =>
      rw [State.total_eq _ side, State.total_eq _ side]
      simp only [State.work, State.carry_party, State.set_party_self, State.set_party_other,
        State.carry_wire_self, State.carry_wire_other, State.set_wire, Party.work, ready,
        List.length_append, List.length_cons, List.length_nil]
      omega
  | @pull side k later byte bytes idle next blocked ready =>
      rw [State.total_eq _ side, State.total_eq _ side]
      simp only [State.work, State.carry_party, State.set_party_self, State.set_party_other,
        State.carry_wire_self, State.carry_other_wire, State.set_wire, Party.work, ready,
        List.length_cons]
      omega
  | @deliver side k later value left idle next read =>
      rw [State.total_eq _ side, State.total_eq _ side]
      simp only [State.work, State.set_party_self, State.set_party_other, State.set_wire,
        Party.work, next, List.flatMap_cons, List.length_append, List.length_cons, Act.bytes,
        List.length_nil]
      omega

private theorem start_total (conversation : Conversation μ) :
    (start c conversation).total c = conversation.work c := by
  induction conversation with
  | nil => rfl
  | cons turn rest ih =>
      obtain ⟨speaker, said⟩ := turn
      rw [State.total_eq _ speaker] at ih ⊢
      simp only [State.work, start, Party.work, script, List.length_nil] at ih
      simp only [State.work, start, Party.work, script, List.length_nil, List.map_cons,
        act_self, act_other, List.flatMap_cons, List.length_append, List.length_cons,
        Act.bytes, Conversation.work]
      rw [Conversation.work] at ih
      omega

/-- A schedule of the two sides: in each state some step that can be made, as long as there
is one. -/
structure Schedule (c : Codec β ε υ μ κ ν) (room : Side → Nat) (conversation : Conversation μ) where
  state : Nat → State β μ κ ν
  begins : state 0 = start c conversation
  goes : ∀ n, Step c room (state n) (state (n + 1)) ∨
    state (n + 1) = state n ∧ ∀ t, ¬ Step c room (state n) t

open Classical in
noncomputable def advance (c : Codec β ε υ μ κ ν) (room : Side → Nat) (s : State β μ κ ν) :
    State β μ κ ν :=
  if step : ∃ t, Step c room s t then step.choose else s

theorem advance_goes (c : Codec β ε υ μ κ ν) (room : Side → Nat) (s : State β μ κ ν) :
    Step c room s (advance c room s) ∨ advance c room s = s ∧ ∀ t, ¬ Step c room s t := by
  rw [advance]
  split
  · rename_i step
    exact Or.inl step.choose_spec
  · rename_i stuck
    exact Or.inr ⟨rfl, not_exists.mp stuck⟩

noncomputable def Schedule.any (c : Codec β ε υ μ κ ν) (room : Side → Nat)
    (conversation : Conversation μ) : Schedule c room conversation where
  state n := Nat.rec (start c conversation) (fun _ s => advance c room s) n
  begins := rfl
  goes _ := advance_goes c room _

theorem Schedule.reached (run : Schedule c room conversation) (n : Nat) :
    Reached c room conversation (run.state n) := by
  induction n with
  | zero =>
      rw [run.begins]
      exact Relation.ReflTransGen.refl
  | succ n ih =>
      rcases run.goes n with step | ⟨same, _stuck⟩
      · exact ih.tail step
      · rw [same]
        exact ih

theorem Finished.total (finished : Finished c conversation s) : s.total c = 0 := by
  have each : ∀ side, s.work c side = 0 := by
    intro side
    rw [State.work, (finished side).1, (finished side).2]
    rfl
  rw [State.total, each, each]

private theorem Schedule.total (positive : ∀ side, 0 < room side)
    (run : Schedule c room conversation) (n : Nat) :
    (run.state n).total c = conversation.work c - n := by
  induction n with
  | zero => rw [run.begins, start_total, Nat.sub_zero]
  | succ n ih =>
      rcases run.goes n with step | ⟨same, stuck⟩
      · have paid := step.total
        omega
      · rcases (run.reached n).progress positive with ⟨t, step⟩ | finished
        · exact absurd step (stuck t)
        · have nothing := finished.total
          rw [same]
          omega

/-- Every schedule is through after exactly as many steps as the conversation is worth. -/
theorem Schedule.finished_iff (positive : ∀ side, 0 < room side)
    (run : Schedule c room conversation)
    (n : Nat) : Finished c conversation (run.state n) ↔ conversation.work c ≤ n := by
  have total := run.total positive n
  constructor
  · intro finished
    rw [finished.total] at total
    omega
  · intro enough
    rcases (run.reached n).progress positive with ⟨t, step⟩ | finished
    · have paid := step.total
      omega
    · exact finished

end Dialogue
