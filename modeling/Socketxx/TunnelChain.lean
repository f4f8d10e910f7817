import Socketxx.SessionCut
import Socketxx.TextSession
import Socketxx.TunnelClosing
import Socketxx.TunnelPending

/-!
Sessions through any number of tunnels one behind the other.

Each tunnel is somewhere in a run of its own; of the connections between them no more is
used than that they are streams. What has come out at the far end is at every moment a
beginning of what was sent, and all of it once the tunnels are quiet.
-/

set_option autoImplicit false

namespace Socketxx.Tunnel

open Runs

/-! ### One tunnel without a callback -/

structure Setup.Steady (setup : Setup) (state : State) : Prop where
  inOrder : setup.InOrder state
  pageSize : state.buf.length = setup.pageSize

section

variable {setup : Setup} {state : State}

private theorem Setup.Steady.step (direct : setup.intercept = false) (steady : setup.Steady state)
    (answer : Answer) : setup.Steady (setup.step state answer) where
  inOrder := steady.inOrder.step answer (steady.inOrder.fits steady.pageSize)
  pageSize := by rw [Setup.step_buf direct steady.inOrder, steady.pageSize]

private theorem Setup.start_steady (setup : Setup) (pending : Side → List UInt8) :
    setup.Steady (setup.start pending) where
  inOrder := setup.start_inOrder pending
  pageSize := List.length_replicate

theorem Setup.Steady.taken_eq (direct : setup.intercept = false) (steady : setup.Steady state)
    (side : Side) :
    (state.flow side).taken =
      (state.flow side).outputs.flatten ++ (state.flow side).pending := by
  rw [steady.inOrder.uncut direct side]
  exact steady.inOrder.taken side

private theorem Setup.Steady.forwarded_prefix (direct : setup.intercept = false)
    (steady : setup.Steady state) (side : Side) :
    (state.flow side).forwarded <+: (state.flow side).taken := by
  rw [steady.taken_eq direct side]
  exact (steady.inOrder.forwards.inOrder side).trans (List.prefix_append _ _)

/-- And all of it at `select`, when nothing is pending. -/
private theorem Setup.Steady.forwarded_eq (direct : setup.intercept = false)
    (steady : setup.Steady state) (selecting : state.phase = .select) {side : Side}
    (empty : (state.flow side).pending = []) :
    (state.flow side).forwarded = (state.flow side).taken := by
  rw [steady.taken_eq direct side, empty, List.append_nil]
  exact steady.inOrder.forwards.settled selecting side

end

/-! ### Tunnels one behind the other -/

/-- A tunnel without a callback, and what it has met so far. -/
structure Hop where
  setup : Setup
  direct : setup.intercept = false
  pending : Side → List UInt8
  answers : List Answer

def Hop.state (hop : Hop) : State :=
  hop.answers.foldl hop.setup.step (hop.setup.start hop.pending)

theorem Hop.steady (hop : Hop) : hop.setup.Steady hop.state :=
  run_invariant (fun _ answer steady => steady.step hop.direct answer)
    (hop.setup.start_steady hop.pending) hop.answers

/-- The bytes sent, the tunnels in the order the bytes reach them, each of which takes them
from its side `side`, and the bytes that have come out: what a tunnel has taken, or the
receiver has got, is a beginning of what was written on that connection. -/
def Carries (side : Side) : List UInt8 → List Hop → List UInt8 → Prop
  | sent, [], delivered => delivered <+: sent
  | sent, hop :: later, delivered =>
      (hop.state.flow side).taken <+: sent ∧
        Carries side (hop.state.flow side).forwarded later delivered

/-- Everything that was written has been taken, and every tunnel is at `select` with nothing
pending. -/
def Quiet (side : Side) : List UInt8 → List Hop → List UInt8 → Prop
  | sent, [], delivered => delivered = sent
  | sent, hop :: later, delivered =>
      (hop.state.flow side).taken = sent ∧ hop.state.phase = .select ∧
        (hop.state.flow side).pending = [] ∧
        Quiet side (hop.state.flow side).forwarded later delivered

section

variable {side : Side} {sent delivered : List UInt8} {hops : List Hop}

theorem Carries.delivered_prefix (carries : Carries side sent hops delivered) :
    delivered <+: sent := by
  induction hops generalizing sent with
  | nil => exact carries
  | cons hop later ih =>
      obtain ⟨taken, further⟩ := carries
      calc delivered
          <+: (hop.state.flow side).forwarded := ih further
        _ <+: (hop.state.flow side).taken := hop.steady.forwarded_prefix hop.direct side
        _ <+: sent := taken

theorem Quiet.delivered_eq (quiet : Quiet side sent hops delivered) : delivered = sent := by
  induction hops generalizing sent with
  | nil => exact quiet
  | cons hop later ih =>
      obtain ⟨taken, selecting, empty, further⟩ := quiet
      calc delivered
          = (hop.state.flow side).forwarded := ih further
        _ = (hop.state.flow side).taken :=
            hop.steady.forwarded_eq hop.direct selecting empty
        _ = sent := taken

end

/-! ### Sessions -/

def Hop.chunk (bytes : List UInt8) : Hop where
  setup := plainTunnel
  direct := rfl
  pending := fun _ => []
  answers :=
    [⟨.ready true false, [], 0, [], 0, 0⟩, ⟨.interrupted, bytes, 0, [], 0, 0⟩,
      ⟨.interrupted, [], 0, [], bytes.length, 0⟩, ⟨.interrupted, [], 0, [], 0, 0⟩]

open SimpleSocket in
/-- A typed session through a chain of tunnels: at every moment the receiver gets from what
has come out the values of whole messages, the first that were sent, and after them an
`io_error`; all of them when the chain is quiet. -/
theorem typedSession_tunneled (sender : Host) (codes : TypeCodes)
    (messages : List SizedMessage) (side : Side) (hops : List Hop) (delivered : List UInt8)
    (carries : Carries side (sendAll sender codes (messages.map Subtype.val)) hops delivered) :
    (typedCodec sender codes).calls (messages.map (fun message => message.1.kind)) delivered =
        ((messages.take ((typedCodec sender codes).complete messages delivered.length)).map
            (fun message => message.1.received),
          if delivered = sendAll sender codes (messages.map Subtype.val) then .ok []
          else .throw .ioError) ∧
      (Quiet side (sendAll sender codes (messages.map Subtype.val)) hops delivered →
        (typedCodec sender codes).calls (messages.map (fun message => message.1.kind))
            delivered = (messages.map (fun message => message.1.received), .ok [])) := by
  have whole : sendAll sender codes (messages.map Subtype.val) =
      (typedCodec sender codes).encodeAll messages := List.flatMap_map ..
  rw [whole] at carries ⊢
  have beginning := carries.delivered_prefix
  have cut := (typedCodec sender codes).calls_take messages delivered.length
  have all : ((typedCodec sender codes).encodeAll messages).length ≤ delivered.length ↔
      delivered = (typedCodec sender codes).encodeAll messages :=
    ⟨beginning.eq_of_length_le, fun same => by rw [same]⟩
  rw [← List.prefix_iff_eq_take.mp beginning] at cut
  simp only [all] at cut
  refine ⟨cut, fun quiet => ?_⟩
  have same := quiet.delivered_eq
  have count := ((typedCodec sender codes).complete_eq_length_iff messages
    delivered.length).mpr (all.mpr same)
  rw [if_pos same, count, List.take_length] at cut
  exact cut

open SimpleSocket in
theorem typedSession_tunneled_bool :
    let codec := typedCodec (Host.little .keyFirst) TypeCodes.consecutive
    codec.calls [.bool] [1] = ([.bool true], .ok []) :=
  (typedSession_tunneled (Host.little .keyFirst) TypeCodes.consecutive
    [⟨.bool true, trivial⟩] .first [Hop.chunk [1], Hop.chunk [1]] [1]
    ⟨List.prefix_refl [1], List.prefix_refl [1], List.prefix_refl [1]⟩).2
      ⟨rfl, rfl, rfl, rfl, rfl, rfl, rfl⟩

open TextSocket LeftmostCut in
/-- A text session through a chain of tunnels: whatever chunks the reader gets, it reads the
first lines that were sent, exactly those that have come out as a whole, and all of them
when the chain is quiet. -/
theorem textSession_tunneled (sep : LineSep) (lines : List (List UInt8))
    (clean : ∀ line ∈ lines, Clean sep.chars line) (side : Side) (hops : List Hop)
    (arrivals : List Arrival)
    (carries : Carries side (oLines sep.chars lines) hops (received arrivals)) (calls : Nat)
    (enough : lines.length + failures arrivals < calls) :
    linesOf (iLines sep.chars calls ⟨[], arrivals⟩).1 =
        lines.take (completeLines sep.chars lines (received arrivals).length) ∧
      (Quiet side (oLines sep.chars lines) hops (received arrivals) →
        linesOf (iLines sep.chars calls ⟨[], arrivals⟩).1 = lines) := by
  have beginning := carries.delivered_prefix
  have stream := List.prefix_iff_eq_take.mp beginning
  obtain ⟨part, cut⟩ := Clean.cut_take sep.nonempty clean (received arrivals).length
  rw [← stream] at cut
  have fewer : (lines.take (completeLines sep.chars lines
      (received arrivals).length)).length ≤ lines.length := List.length_take_le' ..
  have more : (lines.take (completeLines sep.chars lines
      (received arrivals).length)).length + failures arrivals < calls := by omega
  have read := ((sep.iLines_pieces calls ⟨[], arrivals⟩ cut).2 more).1
  refine ⟨read, fun quiet => ?_⟩
  have count := (WholeWords.wholeWords_eq_length_iff (lines.map (oLine sep.chars))
    (received arrivals).length).mpr (by rw [quiet.delivered_eq, oLines_eq_flatten])
  rw [read, completeLines, count, List.length_map, List.take_length]

open TextSocket in
theorem textSession_tunneled_part :
    linesOf (iLines LineSep.crlf.chars 2 ⟨[], [.chunk [97], .chunk [13]]⟩).1 = [] :=
  (textSession_tunneled LineSep.crlf [[97]]
    (fun line member => Clean.of_newline (by decide) LineSep.crlf_unbordered
      (by rw [List.mem_singleton.mp member]; decide))
    .first [Hop.chunk [97, 13]] [.chunk [97], .chunk [13]]
    ⟨by decide, List.prefix_refl [97, 13]⟩ 2 (by decide)).1

end Socketxx.Tunnel
