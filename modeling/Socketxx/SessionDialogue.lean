import Socketxx.Library.Crossing
import Socketxx.SessionCut

/-!
Two programs that talk through `simple_socket` over a stream of each direction: where one
calls an `o_*` method, the other calls the `i_*` method of that kind. `_o` blocks while the
queue of the kernel is full, and a strict read while there are bytes missing.

Programs that take turns never block each other. Programs that both write first do, as soon
as what each of them writes is more than the kernel keeps.
-/

set_option autoImplicit false

namespace Socketxx.SimpleSocket

open Dialogue

/-- Both ends are little-endian builds that read the key of a pair first. -/
abbrev dialogueCodec (codes : TypeCodes) :=
  typedCodec (Host.little .keyFirst) codes

/-- Whatever the schedule of the two programs and the sizes of the queues, each of them has
received exactly the values the other sent in the part of the conversation it has been
through, is at that point of its own script, and has no method fail. -/
theorem dialogue_agrees (codes : TypeCodes) (conversation : Conversation SizedMessage)
    (room : Side → Nat) {s : State UInt8 SizedMessage Kind Received}
    (reached : Reached (dialogueCodec codes) room conversation s) (side : Side) :
    (∃ past rest, conversation = past ++ rest ∧
      (s.party side).log =
        (past.filter (fun turn => turn.1 ≠ side)).map (fun turn => turn.2.1.received) ∧
      (s.party side).script = script (dialogueCodec codes) side rest) ∧
    ¬ Fails (dialogueCodec codes) s side :=
  reached.agrees side

/-- Queues that hold a byte each. -/
def oneByte : Side → Nat := fun _ => 1

def questionAnswer : Conversation SizedMessage :=
  [(.left, ⟨.bool true, trivial⟩), (.right, ⟨.char 7, trivial⟩)]

theorem questionAnswer_agrees :
    let s := (Schedule.any (dialogueCodec TypeCodes.consecutive) oneByte questionAnswer).state 3
    (∃ past rest, questionAnswer = past ++ rest ∧
      (s.party .right).log =
        (past.filter (fun turn => turn.1 ≠ .right)).map (fun turn => turn.2.1.received) ∧
      (s.party .right).script = script (dialogueCodec TypeCodes.consecutive) .right rest) ∧
    ¬ Fails (dialogueCodec TypeCodes.consecutive) s .right :=
  dialogue_agrees TypeCodes.consecutive questionAnswer oneByte (Schedule.reached _ 3) .right

/-- With room for a single byte in each direction no schedule blocks the two programs, and
each of them ends after two steps for every byte and two for every message, all values
received. -/
theorem dialogue_finishes (codes : TypeCodes) (conversation : Conversation SizedMessage)
    {room : Side → Nat} (positive : ∀ side, 0 < room side)
    (run : Schedule (dialogueCodec codes) room conversation) (n : Nat) :
    Finished (dialogueCodec codes) conversation (run.state n) ↔
      2 * conversation.length + 2 * (conversation.flatMap (fun turn =>
        send (Host.little .keyFirst) codes turn.2.1)).length ≤ n :=
  run.finished_iff positive n

theorem questionAnswer_finished :
    Finished (dialogueCodec TypeCodes.consecutive) questionAnswer
      ((Schedule.any (dialogueCodec TypeCodes.consecutive) oneByte questionAnswer).state 8) :=
  (dialogue_finishes TypeCodes.consecutive questionAnswer (fun _ => Nat.one_pos) _ 8).mpr
    (by decide)

/-- Two programs that both write some values before they read those of the other one. Every
run comes to rest, and the programs are through then just if the bytes of one of them fit
into its queue; otherwise both are in an `_o` for good and have received nothing. -/
theorem bursts_through_iff (codes : TypeCodes) (bursts : Side → List SizedMessage)
    {room : Side → Nat} (positive : ∀ side, 0 < room side)
    (run : CrossedRun (dialogueCodec codes) room bursts) {n : Nat}
    (late : crossedWork (dialogueCodec codes) bursts ≤ n) :
    let s := run.state n
    let bytes := fun side =>
      sendAll (Host.little .keyFirst) codes ((bursts side).map Subtype.val)
    (∀ t, ¬ Step (dialogueCodec codes) room s t) ∧
      (BothThrough (dialogueCodec codes) bursts s ↔ ∃ side, (bytes side).length ≤ room side) ∧
      ((∀ side, room side < (bytes side).length) →
        ∀ side, (s.party side).unsent ≠ [] ∧ (s.party side).log = []) := by
  intro s bytes
  have encoded : ∀ side, bytes side = (dialogueCodec codes).encodeAll (bursts side) := by
    intro side
    exact List.flatMap_map ..
  refine ⟨run.rests late, (run.through_iff positive late).trans ?_, ?_⟩
  · exact exists_congr (fun side => by rw [encoded])
  · intro long
    exact run.blocked (fun side => by rw [← encoded]; exact long side) late

def twoTruths : Side → List SizedMessage :=
  fun _ => [⟨.bool true, trivial⟩, ⟨.bool false, trivial⟩]

theorem twoTruths_block :
    (((CrossedRun.any (dialogueCodec TypeCodes.consecutive) oneByte twoTruths).state 16).party
      .left).unsent ≠ [] := by
  have long : ∀ side, oneByte side < (sendAll (Host.little .keyFirst) TypeCodes.consecutive
      ((twoTruths side).map Subtype.val)).length := by
    intro side
    cases side <;> decide
  exact ((bursts_through_iff TypeCodes.consecutive twoTruths (fun _ => Nat.one_pos) _
    (by decide)).2.2 long .left).1

end Socketxx.SimpleSocket
