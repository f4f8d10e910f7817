import Socketxx.TextBuffered

/-!
A `text_socket` over `base_ssl`, which begins in clear text and goes on in TLS.

Every read of `base_ssl` goes to the socket or to `SSL_read` by the mode it finds;
the line buffer above it is the same in both modes.
-/

set_option autoImplicit false

namespace Socketxx.TextSocket

open LeftmostCut

/-- The line buffer, whether `ssl_sock` is set, and what `base_socket::_i` and
`_i_ssl` have still to bring. -/
structure SslReading where
  buffer : List UInt8
  sslSock : Bool
  plain : List Arrival
  secure : List Arrival

/-- The calls of `base_ssl::_i`, which is what `_get_io_fncts` hands to `read_line`. -/
def SslReading.arrivals (sock : SslReading) : List Arrival :=
  if sock.sslSock then sock.secure else sock.plain

def SslReading.reading (sock : SslReading) : Reading := ⟨sock.buffer, sock.arrivals⟩

def SslReading.update (sock : SslReading) (after : Reading) : SslReading :=
  if sock.sslSock then { sock with buffer := after.buffer, secure := after.arrivals }
  else { sock with buffer := after.buffer, plain := after.arrivals }

def iLineSsl (sep : List UInt8) (sock : SslReading) : Ending × SslReading :=
  let (ending, after) := readLine sep sock.buffer sock.arrivals
  (ending, sock.update after)

def iLinesSsl (sep : List UInt8) : Nat → SslReading → List Ending × SslReading
  | 0, sock => ([], sock)
  | calls + 1, sock =>
      let (ending, after) := iLineSsl sep sock
      if ending.returned then
        let (endings, last) := iLinesSsl sep calls after
        (ending :: endings, last)
      else ([ending], after)

def startSsl (sock : SslReading) : SslReading := { sock with sslSock := true }

def upgraded (sep : List UInt8) (plain secure : List Arrival) (before after : Nat) :
    List Ending × List Ending :=
  let (cleartext, sock) := iLinesSsl sep before ⟨[], false, plain, secure⟩
  (cleartext, (iLinesSsl sep after (startSsl sock)).1)

/-- What comes before a switch: calls that have all returned, and no arrival but those
they asked for. -/
structure ClearPhase (sep : LineSep) where
  arrivals : List Arrival
  calls : Nat
  returned : ∀ ending ∈ (iLines sep.chars calls ⟨[], arrivals⟩).1, ending.returned
  used : (iLines sep.chars calls ⟨[], arrivals⟩).2.arrivals = []

variable {sep : LineSep}

def ClearPhase.lines (phase : ClearPhase sep) : List (List UInt8) :=
  linesOf (iLines sep.chars phase.calls ⟨[], phase.arrivals⟩).1

/-- What is left in the buffer at the switch. -/
def ClearPhase.leftover (phase : ClearPhase sep) : List UInt8 :=
  (iLines sep.chars phase.calls ⟨[], phase.arrivals⟩).2.buffer

def ClearPhase.sslEndings (phase : ClearPhase sep) (secure : List Arrival) (calls : Nat) :
    List Ending :=
  (upgraded sep.chars phase.arrivals secure phase.calls calls).2

/-! ### Either mode is a plain session -/

private theorem SslReading.update_reading (sock : SslReading) (after : Reading) :
    (sock.update after).reading = after ∧ (sock.update after).sslSock = sock.sslSock := by
  obtain ⟨buffer, sslSock, plain, secure⟩ := sock
  cases sslSock <;> exact ⟨rfl, rfl⟩

private theorem SslReading.update_update (sock : SslReading) (first second : Reading) :
    (sock.update first).update second = sock.update second := by
  obtain ⟨buffer, sslSock, plain, secure⟩ := sock
  cases sslSock <;> rfl

private theorem SslReading.update_self (sock : SslReading) : sock.update sock.reading = sock := by
  obtain ⟨buffer, sslSock, plain, secure⟩ := sock
  cases sslSock <;> rfl

private theorem iLinesSsl_eq (sep : List UInt8) (calls : Nat) (sock : SslReading) :
    iLinesSsl sep calls sock =
      ((iLines sep calls sock.reading).1, sock.update (iLines sep calls sock.reading).2) := by
  induction calls generalizing sock with
  | zero => exact congrArg (Prod.mk []) sock.update_self.symm
  | succ calls ih =>
      have next := ih (sock.update (iLine sep sock.reading).2)
      rw [(sock.update_reading _).1, SslReading.update_update] at next
      have call : iLineSsl sep sock =
          ((iLine sep sock.reading).1, sock.update (iLine sep sock.reading).2) := rfl
      rw [iLinesSsl, iLines, call]
      by_cases returned : (iLine sep sock.reading).1.returned
      · simp only [returned, if_true, next]
      · simp only [returned, Bool.false_eq_true, if_false]

theorem ClearPhase.sslEndings_eq (phase : ClearPhase sep) (secure : List Arrival)
    (calls : Nat) :
    phase.sslEndings secure calls = (iLines sep.chars calls ⟨phase.leftover, secure⟩).1 := by
  rw [sslEndings, upgraded, iLinesSsl_eq]
  simp only [iLinesSsl_eq]
  rfl

private theorem ClearPhase.lossless (phase : ClearPhase sep) :
    phase.lines.flatMap (fun line => line ++ sep.chars) ++ phase.leftover =
      received phase.arrivals := by
  obtain ⟨consumed, session⟩ := sep.iLines_session phase.calls ⟨[], phase.arrivals⟩
  have order := session.order
  rw [phase.used, List.append_nil] at order
  have bytes := session.lossless
  rw [← order] at bytes
  exact bytes

/-! ### What is left at the switch can be told from the lines after it -/

private theorem linesOf_marked (sep : LineSep) (buffer : List UInt8) :
    ∃ enough, ∀ calls, enough < calls →
      (linesOf (iLines sep.chars calls ⟨buffer, [.chunk (0 :: sep.chars)]⟩).1).flatMap
        (fun line => line ++ sep.chars) = buffer ++ 0 :: sep.chars := by
  obtain ⟨lines, rest, cut⟩ := Cut.exists sep.nonempty buffer
  have whole := cut.append sep.nonempty (Cut.mark sep.nonempty sep.noNul cut.absent)
  refine ⟨(lines ++ [rest ++ [0]]).length, ?_⟩
  intro calls more
  have all : buffer ++ received [.chunk (0 :: sep.chars)] = buffer ++ 0 :: sep.chars := by
    rw [received, List.flatMap_cons, List.flatMap_nil, List.append_nil]
    rfl
  rw [← all] at whole
  have pieces := (sep.iLines_pieces calls ⟨buffer, [.chunk (0 :: sep.chars)]⟩ whole).2 more
  rw [pieces.1, ← all, ← whole.stream_eq, List.append_nil]

private theorem iLines_eq_iff_buffer_eq (sep : LineSep) (left right : List UInt8) :
    (∀ arrivals calls, (iLines sep.chars calls ⟨left, arrivals⟩).1 =
        (iLines sep.chars calls ⟨right, arrivals⟩).1) ↔ left = right := by
  constructor
  · intro same
    obtain ⟨enough, leftAll⟩ := linesOf_marked sep left
    obtain ⟨plenty, rightAll⟩ := linesOf_marked sep right
    have leftLines := leftAll (enough + plenty + 1) (by omega)
    have rightLines := rightAll (enough + plenty + 1) (by omega)
    rw [same, rightLines] at leftLines
    exact (List.append_cancel_right leftLines).symm
  · rintro rfl arrivals calls
    rfl

/-- Two sessions that have returned the same clear-text lines go on alike in TLS if and
only if the clear text they had received by the switch is the same; and one goes on as
if it had begun there if and only if nothing was received behind its last line. -/
theorem sslEndings_eq_iff (sep : LineSep) (first second : ClearPhase sep)
    (same : first.lines = second.lines) :
    ((∀ secure calls, first.sslEndings secure calls = second.sslEndings secure calls) ↔
      received first.arrivals = received second.arrivals) ∧
    ((∀ secure calls, first.sslEndings secure calls =
        (iLines sep.chars calls ⟨[], secure⟩).1) ↔
      received first.arrivals = first.lines.flatMap (fun line => line ++ sep.chars)) := by
  simp only [ClearPhase.sslEndings_eq]
  rw [iLines_eq_iff_buffer_eq, iLines_eq_iff_buffer_eq, ← first.lossless, ← second.lossless,
    same]
  constructor
  · exact (List.append_right_inj _).symm
  · exact List.append_right_eq_self.symm

def quietPhase : ClearPhase LineSep.crlf :=
  ⟨[.chunk [65, 13, 10]], 1, by decide, by decide⟩

def injectedPhase : ClearPhase LineSep.crlf :=
  ⟨[.chunk [65, 13, 10, 88, 13, 10]], 1, by decide, by decide⟩

theorem sslEndings_quiet_injected :
    quietPhase.lines = injectedPhase.lines ∧
    ((∀ secure calls,
        quietPhase.sslEndings secure calls = injectedPhase.sslEndings secure calls) ↔
      received quietPhase.arrivals = received injectedPhase.arrivals) ∧
    ((∀ secure calls, quietPhase.sslEndings secure calls =
        (iLines LineSep.crlf.chars calls ⟨[], secure⟩).1) ↔
      received quietPhase.arrivals =
        quietPhase.lines.flatMap (fun line => line ++ LineSep.crlf.chars)) := by
  have same : quietPhase.lines = injectedPhase.lines := rfl
  exact ⟨same, sslEndings_eq_iff LineSep.crlf quietPhase injectedPhase same⟩

theorem injected_line_crosses :
    quietPhase.lines = injectedPhase.lines ∧
      ¬ ∀ secure calls,
        quietPhase.sslEndings secure calls = injectedPhase.sslEndings secure calls := by
  refine ⟨rfl, ?_⟩
  intro same
  have lines := same [.chunk [66, 13, 10]] 1
  revert lines
  decide

end Socketxx.TextSocket
