import Mathlib.Logic.Function.Iterate
import Socketxx.Library.StreamReader
import Socketxx.Library.WholeWords

/-!
Messages that are written to a stream of bytes and read from it again, each by the reader
of its kind.

A receiver that calls the readers one after the other on a stream that was cut anywhere
gets the values of the messages that are there as a whole, and then an error. A sender
whose messages go out in several writes, of which any may fail, leaves a stream cut in the
message whose call did not return: each side learns the same number of messages.
-/

set_option autoImplicit false

namespace MessageCodec

open StreamReader WholeWords

/-- How messages are written and read. Every message has at least one byte, and its
reader ends short on every proper prefix of them. -/
structure Codec (β ε υ μ κ ν : Type) where
  encode : μ → List β
  kind : μ → κ
  value : μ → ν
  reader : κ → Reader β ε υ ν
  short : ε
  nonempty : ∀ m, encode m ≠ []
  framed : ∀ m, Reader.Framed short (reader (kind m)) (encode m) (value m)

variable {β ε υ μ κ ν α : Type} (c : Codec β ε υ μ κ ν)

theorem Codec.empty_short (m : μ) : c.reader (c.kind m) [] = .throw c.short :=
  (c.framed m).truncated [] (c.encode m) rfl (c.nonempty m)

theorem Codec.whole_read (m : μ) :
    c.reader (c.kind m) (c.encode m) = .ok (c.value m, []) := by
  have read := (c.framed m).decodes []
  rwa [List.append_nil] at read

theorem Codec.held_cases {m : μ} {held : List β} (inside : held <+: c.encode m) :
    held = c.encode m ∨
      (∃ missing, missing ≠ [] ∧ c.encode m = held ++ missing) ∧
        c.reader (c.kind m) held = .throw c.short := by
  obtain ⟨missing, whole⟩ := inside
  by_cases none : missing = []
  · subst none
    rw [List.append_nil] at whole
    exact Or.inl whole
  · exact Or.inr ⟨⟨missing, none, whole.symm⟩,
      (c.framed m).truncated held missing whole.symm none⟩

def Codec.encodeAll (messages : List μ) : List β := messages.flatMap c.encode

/-! ### A stream that is cut -/

/-- The readers of these kinds called one after the other: the values they return, and the
rest of the stream or what ended the calls. -/
def Codec.calls : List κ → List β → List ν × Outcome ε υ (List β)
  | [], stream => ([], .ok stream)
  | kind :: later, stream =>
      match c.reader kind stream with
      | .ok (value, rest) =>
          let (values, ending) := calls later rest
          (value :: values, ending)
      | .throw error => ([], .throw error)
      | .undefined fault => ([], .undefined fault)
      | .running => ([], .running)

def Codec.complete (messages : List μ) (size : Nat) : Nat :=
  wholeWords (messages.map c.encode) size

theorem Codec.calls_ok {kind : κ} {later : List κ} {stream rest : List β} {value : ν}
    (read : c.reader kind stream = .ok (value, rest)) :
    c.calls (kind :: later) stream = (value :: (c.calls later rest).1, (c.calls later rest).2) := by
  rw [calls, read]

theorem Codec.calls_throw {kind : κ} (later : List κ) {stream : List β} {error : ε}
    (thrown : c.reader kind stream = .throw error) :
    c.calls (kind :: later) stream = ([], .throw error) := by
  rw [calls, thrown]

theorem Codec.calls_cases (kind : κ) (later : List κ) (stream : List β) :
    (∃ value rest, c.reader kind stream = .ok (value, rest)) ∨
      (c.calls (kind :: later) stream).1 = [] := by
  cases read : c.reader kind stream with
  | ok result => exact Or.inl ⟨result.1, result.2, rfl⟩
  | throw error => exact Or.inr (by rw [calls, read])
  | undefined fault => exact Or.inr (by rw [calls, read])
  | running => exact Or.inr (by rw [calls, read])

theorem Codec.calls_forall {holds : ν → Prop}
    (each : ∀ kind stream value rest, c.reader kind stream = .ok (value, rest) → holds value)
    (kinds : List κ) (stream : List β) : ∀ value ∈ (c.calls kinds stream).1, holds value := by
  induction kinds generalizing stream with
  | nil => exact nofun
  | cons kind later ih =>
      rcases Codec.calls_cases c kind later stream with ⟨value, rest, read⟩ | none
      · rw [Codec.calls_ok c read]
        exact List.forall_mem_cons.mpr ⟨each kind stream value rest read, ih rest⟩
      · rw [none]
        exact nofun

theorem Codec.complete_cons {m : μ} {size : Nat} (later : List μ)
    (fits : (c.encode m).length ≤ size) :
    c.complete (m :: later) size = c.complete later (size - (c.encode m).length) + 1 :=
  wholeWords_fits _ fits

theorem Codec.complete_short {m : μ} {size : Nat} (later : List μ)
    (short : size < (c.encode m).length) : c.complete (m :: later) size = 0 :=
  wholeWords_short _ short

theorem Codec.encodeAll_cons (m : μ) (later : List μ) :
    c.encodeAll (m :: later) = c.encode m ++ c.encodeAll later := List.flatMap_cons

/-- On the first `size` bytes of a session the calls return the messages that are there as
a whole, and the next one ends short. -/
theorem Codec.calls_take (messages : List μ) (size : Nat) :
    c.calls (messages.map c.kind) ((c.encodeAll messages).take size) =
      ((messages.take (c.complete messages size)).map c.value,
        if (c.encodeAll messages).length ≤ size then .ok [] else .throw c.short) := by
  induction messages generalizing size with
  | nil =>
      rw [encodeAll, List.flatMap_nil, List.take_nil, List.length_nil,
        if_pos (Nat.zero_le size)]
      rfl
  | cons m later ih =>
      rw [List.map_cons, encodeAll_cons, List.length_append]
      by_cases fits : (c.encode m).length ≤ size
      · have read := (c.framed m).decodes
          ((c.encodeAll later).take (size - (c.encode m).length))
        rw [List.take_append, List.take_of_length_le fits, c.calls_ok read, ih,
          c.complete_cons later fits, List.take_succ_cons, List.map_cons]
        congr 1
        by_cases all : (c.encodeAll later).length ≤ size - (c.encode m).length
        · rw [if_pos all, if_pos (by omega)]
        · rw [if_neg all, if_neg (by omega)]
      · rw [Nat.not_le] at fits
        have split := List.take_append_drop size (c.encode m)
        have missing : (c.encode m).drop size ≠ [] := by
          intro nothing
          have size := List.drop_eq_nil_iff.mp nothing
          omega
        have thrown := (c.framed m).truncated _ _ split.symm missing
        rw [List.take_append_of_le_length (Nat.le_of_lt fits), c.calls_throw _ thrown,
          c.complete_short later fits, if_neg (by omega)]
        rfl

theorem Codec.complete_eq_length_iff (messages : List μ) (size : Nat) :
    c.complete messages size = messages.length ↔ (c.encodeAll messages).length ≤ size := by
  have words := wholeWords_eq_length_iff (messages.map c.encode) size
  rwa [List.length_map, ← List.flatMap_def] at words

/-! ### A receiver that calls again -/

/-- Reading the value of a message takes at least as many bytes as were written for it. -/
def Codec.Thrifty : Prop :=
  ∀ m stream rest, c.reader (c.kind m) stream = .ok (c.value m, rest) →
    (c.encode m).length + rest.length ≤ stream.length

/-- The bytes come in bursts, and a read that comes to the end of one ends short, with the
bytes of the burst gone. The receiver then makes the same call on the next burst. -/
def Codec.retry [DecidableEq ε] (kinds : List κ) : List (List β) → List ν
  | [] => []
  | burst :: later =>
      let (values, ending) := c.calls kinds burst
      match ending with
      | .throw error =>
          if error = c.short then values ++ retry (kinds.drop values.length) later else values
      | _ => values

private theorem Codec.calls_append (messages : List μ) (kinds : List κ) (stream : List β) :
    c.calls (messages.map c.kind ++ kinds) (c.encodeAll messages ++ stream) =
      (messages.map c.value ++ (c.calls kinds stream).1, (c.calls kinds stream).2) := by
  induction messages with
  | nil => rfl
  | cons m later ih =>
      rw [encodeAll_cons, List.append_assoc, List.map_cons, List.cons_append,
        c.calls_ok ((c.framed m).decodes _), ih]
      rfl

private theorem Codec.calls_length (thrifty : c.Thrifty) {messages : List μ} {stream : List β} :
    (c.calls (messages.map c.kind) stream).1 <+: messages.map c.value →
      (c.encodeAll (messages.take (c.calls (messages.map c.kind) stream).1.length)).length ≤
        stream.length := by
  induction messages generalizing stream with
  | nil =>
      intro _
      exact Nat.zero_le _
  | cons m later ih =>
      intro inside
      rw [List.map_cons] at inside ⊢
      rcases c.calls_cases (c.kind m) (later.map c.kind) stream with ⟨value, rest, read⟩ | nothing
      · rw [c.calls_ok read, List.map_cons, List.cons_prefix_cons] at inside
        obtain ⟨rfl, inside⟩ := inside
        have here := thrifty m stream rest read
        have there := ih inside
        rw [c.calls_ok read, List.length_cons, List.take_succ_cons, encodeAll_cons,
          List.length_append]
        omega
      · rw [nothing]
        exact Nat.zero_le _

section Retry

variable [DecidableEq ε]

theorem Codec.retry_no_kinds (bursts : List (List β)) : c.retry [] bursts = [] := by
  cases bursts <;> rfl

theorem Codec.retry_short {kinds : List κ} {burst : List β} (later : List (List β))
    (short : (c.calls kinds burst).2 = .throw c.short) :
    c.retry kinds (burst :: later) =
      (c.calls kinds burst).1 ++ c.retry (kinds.drop (c.calls kinds burst).1.length) later := by
  simp only [retry, short, if_true]

theorem Codec.retry_over {kinds : List κ} {burst : List β} (later : List (List β))
    (ended : (c.calls kinds burst).2 ≠ .throw c.short) :
    c.retry kinds (burst :: later) = (c.calls kinds burst).1 := by
  rw [retry]
  cases ending : (c.calls kinds burst).2 with
  | ok rest => simp only [ending]
  | throw error =>
      have other : error ≠ c.short := fun same => ended (by rw [ending, same])
      simp only [ending, if_neg other]
  | undefined fault => simp only [ending]
  | running => simp only [ending]

theorem Codec.retry_split (thrifty : c.Thrifty) {messages : List μ} {burst : List β}
    {later : List (List β)}
    (all : c.retry (messages.map c.kind) (burst :: later) = messages.map c.value) :
    ∃ first rest, first ++ rest = messages ∧ (c.encodeAll first).length ≤ burst.length ∧
      c.retry (rest.map c.kind) later = rest.map c.value := by
  by_cases short : (c.calls (messages.map c.kind) burst).2 = .throw c.short
  · rw [c.retry_short later short] at all
    obtain ⟨first, rest, rfl, here, there⟩ := List.append_eq_map_iff.mp all
    have size := congrArg List.length here
    rw [List.length_map] at size
    have inside : (c.calls ((first ++ rest).map c.kind) burst).1 <+:
        (first ++ rest).map c.value := by
      rw [← here, List.map_append]
      exact List.prefix_append _ _
    have taken := c.calls_length thrifty inside
    rw [← size, List.take_left] at taken
    rw [← size, List.map_append, ← List.length_map c.kind, List.drop_left] at there
    exact ⟨first, rest, rfl, taken, there.symm⟩
  · rw [c.retry_over later short] at all
    have inside : (c.calls (messages.map c.kind) burst).1 <+: messages.map c.value :=
      ⟨[], by rw [List.append_nil, all]⟩
    have taken := c.calls_length thrifty inside
    rw [all, List.length_map, List.take_length] at taken
    exact ⟨messages, [], List.append_nil messages, taken, c.retry_no_kinds later⟩

private theorem Codec.retry_length (thrifty : c.Thrifty) {messages : List μ}
    {bursts : List (List β)}
    (all : c.retry (messages.map c.kind) bursts = messages.map c.value) :
    (c.encodeAll messages).length ≤ bursts.flatten.length := by
  induction bursts generalizing messages with
  | nil =>
      rw [List.map_eq_nil_iff.mp all.symm]
      exact Nat.zero_le _
  | cons burst later ih =>
      obtain ⟨first, rest, rfl, here, others⟩ := c.retry_split thrifty all
      have there := ih others
      rw [encodeAll, List.flatMap_append, List.length_append, List.flatten_cons,
        List.length_append]
      exact Nat.add_le_add here there

private theorem Codec.retry_nothing (messages : List μ) (later : List (List β)) :
    c.retry (messages.map c.kind) ([] :: later) = c.retry (messages.map c.kind) later := by
  cases messages with
  | nil => rw [List.map_nil, retry_no_kinds, retry_no_kinds]
  | cons m others =>
      have nothing := c.calls_throw (others.map c.kind) (c.empty_short m)
      rw [List.map_cons, c.retry_short later (by rw [nothing]), nothing]
      rfl

private theorem Codec.retry_whole (group : List μ) (kinds : List κ) (later : List (List β)) :
    c.retry (group.map c.kind ++ kinds) (c.encodeAll group :: later) =
      group.map c.value ++ c.retry kinds ([] :: later) := by
  have whole := c.calls_append group kinds []
  rw [List.append_nil] at whole
  by_cases short : (c.calls kinds []).2 = .throw c.short
  · rw [c.retry_short later short, c.retry_short later (by rw [whole]; exact short), whole,
      List.length_append, List.length_map, ← List.length_map c.kind, List.drop_append,
      List.append_assoc, List.drop_of_length_le (Nat.le_add_right _ _),
      Nat.add_sub_cancel_left, List.nil_append]
  · rw [c.retry_over later short, c.retry_over later (by rw [whole]; exact short), whole]

private theorem Codec.retry_groups (groups : List (List μ)) :
    c.retry (groups.flatten.map c.kind) (groups.map c.encodeAll) =
      groups.flatten.map c.value := by
  induction groups with
  | nil => rfl
  | cons group later ih =>
      rw [List.flatten_cons, List.map_append, List.map_append, List.map_cons, c.retry_whole,
        c.retry_nothing, ih]

/-- The receiver that calls again gets all the values exactly when no message is cut by
the end of a burst. -/
theorem Codec.retry_iff (thrifty : c.Thrifty) (messages : List μ) (bursts : List (List β))
    (sent : bursts.flatten = c.encodeAll messages) :
    c.retry (messages.map c.kind) bursts = messages.map c.value ↔
      ∃ groups : List (List μ), groups.flatten = messages ∧ groups.map c.encodeAll = bursts := by
  constructor
  · intro all
    induction bursts generalizing messages with
    | nil =>
        refine ⟨[], ?_, rfl⟩
        rw [List.map_eq_nil_iff.mp all.symm]
        rfl
    | cons burst later ih =>
        obtain ⟨first, rest, rfl, here, others⟩ := c.retry_split thrifty all
        have there := c.retry_length thrifty others
        rw [encodeAll, List.flatMap_append, List.flatten_cons] at sent
        have size := congrArg List.length sent
        rw [List.length_append, List.length_append] at size
        have same : burst.length = (c.encodeAll first).length := by
          simp only [encodeAll] at here there ⊢
          omega
        obtain ⟨rfl, rest_sent⟩ := List.append_inj sent same
        obtain ⟨groups, rfl, rfl⟩ := ih rest rest_sent others
        exact ⟨first :: groups, List.flatten_cons, List.map_cons⟩
  · rintro ⟨groups, rfl, rfl⟩
    exact c.retry_groups groups

end Retry

/-! ### Values that are sent on -/

/-- What is sent on for a value that was read is read as that value again, and is never
longer than the bytes the value was read from. -/
def Codec.Forwards (forward : ν → List β) : Prop :=
  ∀ kind stream value rest, c.reader kind stream = .ok (value, rest) →
    Reader.Decodes (c.reader kind) (forward value) value ∧
      (forward value).length + rest.length ≤ stream.length

def Codec.forwarded (forward : ν → List β) (kinds : List κ) (stream : List β) : List β :=
  (c.calls kinds stream).1.flatMap forward

section Forward

variable {forward : ν → List β} (forwards : c.Forwards forward)

include forwards

theorem Codec.forwarded_read (kinds : List κ) (stream rest : List β) :
    c.calls (kinds.take (c.calls kinds stream).1.length)
        (c.forwarded forward kinds stream ++ rest) =
      ((c.calls kinds stream).1, .ok rest) := by
  unfold forwarded
  induction kinds generalizing stream with
  | nil => rfl
  | cons kind later ih =>
      rcases c.calls_cases kind later stream with ⟨value, behind, read⟩ | nothing
      · have copied := (forwards kind stream value behind read).1
        rw [c.calls_ok read, List.length_cons, List.take_succ_cons, List.flatMap_cons,
          List.append_assoc, c.calls_ok (copied _), ih behind]
      · rw [nothing]
        rfl

theorem Codec.forwarded_length (kinds : List κ) (stream : List β) :
    (c.forwarded forward kinds stream).length ≤ stream.length := by
  unfold forwarded
  induction kinds generalizing stream with
  | nil => exact Nat.zero_le _
  | cons kind later ih =>
      rcases c.calls_cases kind later stream with ⟨value, behind, read⟩ | nothing
      · have short := (forwards kind stream value behind read).2
        have others := ih behind
        rw [c.calls_ok read, List.flatMap_cons, List.length_append]
        omega
      · rw [nothing]
        exact Nat.zero_le _

private theorem Codec.forwarded_nil (kinds : List κ) : c.forwarded forward kinds [] = [] := by
  have none := c.forwarded_length forwards kinds []
  exact List.eq_nil_of_length_eq_zero (Nat.le_zero.mp none)

private theorem Codec.forwarded_forwarded (kinds : List κ) (stream : List β) :
    c.forwarded forward kinds (c.forwarded forward kinds stream) =
      c.forwarded forward kinds stream := by
  induction kinds generalizing stream with
  | nil => rfl
  | cons kind later ih =>
      rcases c.calls_cases kind later stream with ⟨value, behind, read⟩ | nothing
      · have copied := (forwards kind stream value behind read).1
          (c.forwarded forward later behind)
        have sent : c.forwarded forward (kind :: later) stream =
            forward value ++ c.forwarded forward later behind := by
          rw [forwarded, c.calls_ok read, List.flatMap_cons]
          rfl
        rw [sent, forwarded, c.calls_ok copied, List.flatMap_cons]
        exact congrArg (forward value ++ ·) (ih behind)
      · have none : c.forwarded forward (kind :: later) stream = [] := by
          rw [forwarded, nothing]
          rfl
        rw [none, c.forwarded_nil forwards]

/-- Behind any number of stations that send on what they read come the bytes of the first
one. -/
theorem Codec.forwarded_iterate (kinds : List κ) (stream : List β) (hops : Nat) :
    (c.forwarded forward kinds)^[hops + 1] stream = c.forwarded forward kinds stream := by
  induction hops with
  | zero => rfl
  | succ hops ih => rw [Function.iterate_succ_apply', ih, c.forwarded_forwarded forwards]

end Forward

/-! ### A sender whose writes may fail -/

abbrev Write (β α : Type) := List β → α → Bool × List β

/-- What goes out is a beginning of the data, and the write returns when that is all. -/
structure Honest (write : Write β α) (data : List β) : Prop where
  beginning : ∀ answer, (write data answer).2 <+: data
  returns_iff : ∀ answer, (write data answer).1 = true ↔ (write data answer).2 = data

structure Spells (buffers : List (List β)) (word : List β) : Prop where
  whole : buffers.flatten = word
  nonempty : ∀ buffer ∈ buffers, buffer ≠ []

theorem Spells.nil : Spells ([] : List (List β)) [] where
  whole := rfl
  nonempty := by simp

theorem Spells.cons {word : List β} {later : List (List β)} {rest : List β}
    (nonempty : word ≠ []) (tail : Spells later rest) :
    Spells (word :: later) (word ++ rest) where
  whole := by rw [List.flatten_cons, tail.whole]
  nonempty := by
    rw [List.forall_mem_cons]
    exact ⟨nonempty, tail.nonempty⟩

theorem Spells.single {word : List β} (nonempty : word ≠ []) : Spells [word] word := by
  have alone := Spells.cons nonempty Spells.nil
  rwa [List.append_nil] at alone

theorem Spells.append {first later : List (List β)} {word rest : List β}
    (head : Spells first word) (tail : Spells later rest) :
    Spells (first ++ later) (word ++ rest) where
  whole := by rw [List.flatten_append, head.whole, tail.whole]
  nonempty := by
    intro buffer member
    rcases List.mem_append.mp member with early | late
    · exact head.nonempty buffer early
    · exact tail.nonempty buffer late

/-- Writes one after the other, the first that does not return being the last one. -/
def writes (write : Write β α) : List (List β) → (Nat → α) → Bool × List β
  | [], _ => (true, [])
  | data :: later, answers =>
      let (returns, out) := write data (answers 0)
      if returns then
        let (finished, more) := writes write later (fun call => answers (call + 1))
        (finished, out ++ more)
      else (false, out)

def sends (write : Write β α) (buffers : μ → List (List β)) :
    List μ → (Nat → α) → Nat × List β
  | [], _ => (0, [])
  | m :: later, answers =>
      let (returns, out) := writes write (buffers m) answers
      if returns then
        let (count, more) :=
          sends write buffers later (fun call => answers (call + (buffers m).length))
        (count + 1, out ++ more)
      else (0, out)

variable {write : Write β α} {buffers : μ → List (List β)}

private theorem writes_returned {data : List β} {answers : Nat → α}
    (returned : (write data (answers 0)).1 = true) (later : List (List β)) :
    writes write (data :: later) answers =
      ((writes write later (fun call => answers (call + 1))).1,
        (write data (answers 0)).2 ++
          (writes write later (fun call => answers (call + 1))).2) := by
  simp only [writes, returned, if_true]

private theorem writes_failed {data : List β} {answers : Nat → α}
    (failed : (write data (answers 0)).1 = false) (later : List (List β)) :
    writes write (data :: later) answers = (false, (write data (answers 0)).2) := by
  simp only [writes, failed, Bool.false_eq_true, if_false]

private theorem sends_returned {m : μ} {answers : Nat → α}
    (returned : (writes write (buffers m) answers).1 = true) (later : List μ) :
    sends write buffers (m :: later) answers =
      ((sends write buffers later (fun call => answers (call + (buffers m).length))).1 + 1,
        (writes write (buffers m) answers).2 ++
          (sends write buffers later
            (fun call => answers (call + (buffers m).length))).2) := by
  simp only [sends, returned, if_true]

private theorem sends_failed {m : μ} {answers : Nat → α}
    (failed : (writes write (buffers m) answers).1 = false) (later : List μ) :
    sends write buffers (m :: later) answers = (0, (writes write (buffers m) answers).2) := by
  simp only [sends, failed, Bool.false_eq_true, if_false]

variable (honest : ∀ data, data ≠ [] → Honest write data)

include honest

private theorem Spells.writes {data : List (List β)} {word : List β} (spelled : Spells data word)
    (answers : Nat → α) :
    (writes write data answers).2 <+: word ∧
      ((writes write data answers).1 = true ↔ (writes write data answers).2 = word) := by
  obtain ⟨rfl, nonempty⟩ := spelled
  induction data generalizing answers with
  | nil => exact ⟨List.nil_prefix, iff_of_true rfl rfl⟩
  | cons buffer later ih =>
      rw [List.forall_mem_cons] at nonempty
      obtain ⟨prefixes, returns⟩ := ih (fun call => answers (call + 1)) nonempty.2
      have beginning := (honest buffer nonempty.1).beginning (answers 0)
      have here := (honest buffer nonempty.1).returns_iff (answers 0)
      rw [List.flatten_cons]
      cases returned : (write buffer (answers 0)).1 with
      | true =>
          rw [writes_returned returned, here.mp returned]
          refine ⟨(List.prefix_append_right_inj buffer).mpr prefixes, ?_⟩
          rw [returns, List.append_cancel_left_eq]
      | false =>
          rw [writes_failed returned]
          refine ⟨beginning.trans (List.prefix_append buffer _),
            iff_of_false Bool.false_ne_true ?_⟩
          intro all
          have size : (write buffer (answers 0)).2.length = (buffer ++ later.flatten).length :=
            congrArg List.length all
          rw [List.length_append] at size
          have le := beginning.length_le
          have whole := beginning.eq_of_length_le (by omega)
          rw [here.mpr whole] at returned
          cases returned

variable (spelled : ∀ m, Spells (buffers m) (c.encode m))

include spelled

private theorem Codec.sends_complete (messages : List μ) (answers : Nat → α) :
    (sends write buffers messages answers).2 <+: c.encodeAll messages ∧
      c.complete messages (sends write buffers messages answers).2.length =
        (sends write buffers messages answers).1 := by
  induction messages generalizing answers with
  | nil => exact ⟨List.nil_prefix, rfl⟩
  | cons m later ih =>
      obtain ⟨prefixes, counted⟩ := ih (fun call => answers (call + (buffers m).length))
      obtain ⟨beginning, returns⟩ := (spelled m).writes honest answers
      rw [c.encodeAll_cons]
      cases returned : (writes write (buffers m) answers).1 with
      | true =>
          rw [sends_returned returned, returns.mp returned]
          refine ⟨(List.prefix_append_right_inj _).mpr prefixes, ?_⟩
          rw [List.length_append, c.complete_cons later (Nat.le_add_right _ _),
            Nat.add_sub_cancel_left, counted]
      | false =>
          rw [sends_failed returned]
          refine ⟨beginning.trans (List.prefix_append _ _), ?_⟩
          apply c.complete_short later
          have le := beginning.length_le
          rcases Nat.lt_or_eq_of_le le with less | same
          · exact less
          · rw [returns.mpr (beginning.eq_of_length same)] at returned
            cases returned

/-- The receiver gets the values of exactly the messages whose calls returned on the
sender's side. -/
theorem Codec.calls_sends (messages : List μ) (answers : Nat → α) :
    c.calls (messages.map c.kind) (sends write buffers messages answers).2 =
      ((messages.take (sends write buffers messages answers).1).map c.value,
        if (sends write buffers messages answers).1 = messages.length then .ok []
        else .throw c.short) := by
  obtain ⟨prefixes, counted⟩ := c.sends_complete honest spelled messages answers
  have cut := c.calls_take messages (sends write buffers messages answers).2.length
  rw [← List.prefix_iff_eq_take.mp prefixes, counted] at cut
  rw [cut]
  have all := c.complete_eq_length_iff messages (sends write buffers messages answers).2.length
  rw [counted] at all
  simp only [all]

end MessageCodec
