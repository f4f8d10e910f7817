import Socketxx.FdFixsize
import Socketxx.Template

/-!
A typed session over `base_ssl`.

The loop of `_i_fixsize_ssl` asks for all of its length again and again, which is too much
when a message comes in fragments. `SSL_read` returns what is in one record at most, and
each `_o` of the sender goes out in records of its own. A receiver that asks for the fields
as they were sent is then never given more than it misses, however long the fields are.

SSL mode may begin in the middle of a session. The fields before it are read with
`MSG_WAITALL`, which leaves all that belongs to the handshake on the socket.
-/

set_option autoImplicit false

namespace Socketxx.SslSession

open FixedRead (Answer StrictRead readLoop strictRead sslFixsize cInt)
open SimpleSocket (Host TypeCodes Exception Kind SizedMessage)
open Socketxx.SimpleSocket
open MessageCodec ReadProgram

abbrev Record := List UInt8

/-! ### `SSL_read` -/

/-- What calls of `SSL_read` that ask for `request` bytes return of one record: none of them
goes over its end. -/
def recordAnswers (request : Nat) (record : Record) : List Answer :=
  List.replicate (record.length / request) (.ready request) ++
    if record.length % request = 0 then [] else [.ready (record.length % request)]

/-- The records without the bytes that were read. -/
def dropRead : Nat → List Record → List Record
  | _, [] => []
  | count, record :: later =>
      if record.length ≤ count then dropRead (count - record.length) later
      else record.drop count :: later

/-- `_i_fixsize_ssl` on a connection that brings some records and is closed behind them. What
it stores behind its buffer is not seen here. -/
def iFixsizeSsl : Strict UInt8 Exception (List Record) := fun len records =>
  let read := sslFixsize (UInt64.ofNat len)
    ⟨records.flatten, records.flatMap (recordAnswers len)⟩
  let left := dropRead (records.flatten.length - read.left.stream.length) records
  match read.ending with
  | .returned => (.ok read.stored, left)
  | _ => (.error .ioError, left)

def Records (writes : List (List UInt8)) (records : List Record) : Prop :=
  ∃ groups, List.Forall₂ (fun write group => Spells group write) writes groups ∧
    records = groups.flatten

private theorem recordAnswers_small {request : Nat} {record : Record} (some : record ≠ [])
    (fits : record.length ≤ request) :
    recordAnswers request record = [.ready record.length] := by
  have positive := List.length_pos_iff.mpr some
  rw [recordAnswers]
  rcases Nat.lt_or_eq_of_le fits with less | same
  · rw [Nat.div_eq_of_lt less, Nat.mod_eq_of_lt less, if_neg (by omega)]
    rfl
  · rw [same, Nat.div_self (by omega), Nat.mod_self, if_pos rfl]
    rfl

private theorem dropRead_flatten (records later : List Record)
    (some : ∀ record ∈ later, record ≠ []) :
    dropRead records.flatten.length (records ++ later) = later := by
  induction records with
  | nil =>
      cases later with
      | nil => rfl
      | cons record later =>
          have positive := List.length_pos_iff.mpr (some record List.mem_cons_self)
          change dropRead 0 (record :: later) = _
          rw [dropRead, if_neg (by omega), List.drop_zero]
  | cons record records ih =>
      rw [List.flatten_cons, List.length_append, List.cons_append, dropRead,
        if_pos (Nat.le_add_right _ _), Nat.add_sub_cancel_left]
      exact ih

/-! ### A strict read of one write -/

theorem ready_data {request : Nat} {record rest : List UInt8}
    (fits : record.length ≤ request) :
    (Answer.ready record.length).data request (record ++ rest) = record := by
  rw [Answer.data, Int.toNat_natCast, Nat.min_eq_left fits, List.take_left]

private theorem readLoop_records {request : Nat} (records : List Record)
    (some : ∀ record ∈ records, record ≠ [])
    (fit : ∀ record ∈ records, record.length ≤ request) {rest : UInt64}
    (missing : rest.toNat = records.flatten.length) (stored stream : List UInt8)
    (answers : List Answer) :
    let read := readLoop request (fun r => r < 1) rest stored (records.flatten ++ stream)
      (records.map (fun record => .ready record.length) ++ answers)
    read.ending = .returned ∧ read.stored = stored ++ records.flatten ∧
      read.left.stream = stream := by
  induction records generalizing rest stored with
  | nil =>
      have none : rest = 0 := UInt64.toNat_inj.mp missing
      subst none
      cases answers <;> exact ⟨rfl, (List.append_nil _).symm, rfl⟩
  | cons record records ih =>
      have positive := List.length_pos_iff.mpr (some record List.mem_cons_self)
      have fits := fit record List.mem_cons_self
      rw [List.flatten_cons, List.length_append] at missing
      have more : rest ≠ 0 := FixedRead.rest_ne_zero.mpr (by omega)
      have data : (Answer.ready record.length).data request
          (record ++ (records.flatten ++ stream)) = record := ready_data fits
      have result : (Answer.ready record.length).result request
          (record ++ (records.flatten ++ stream)) = record.length := by
        rw [Answer.result, if_neg (by omega), data]
      have delivered : decide ((Answer.ready record.length).result request
          (record ++ (records.flatten ++ stream)) < 1) = false := by
        rw [result]
        exact decide_eq_false (by omega)
      have left := FixedRead.rest_after rest (show record.length ≤ rest.toNat by omega)
      have next := ih (fun other member => some other (List.mem_cons_of_mem _ member))
        (fun other member => fit other (List.mem_cons_of_mem _ member))
        (left.trans (by omega)) (stored ++ record)
      rw [List.flatten_cons, List.map_cons, List.cons_append, List.append_assoc,
        FixedRead.readLoop_goes_on more delivered, data, List.drop_left]
      obtain ⟨ending, kept, rest⟩ := next
      refine ⟨ending, kept.trans (List.append_assoc _ _ _), rest⟩

private theorem sslFixsize_records {write : List UInt8} {records : List Record}
    (cut : Spells records write)
    (some : write ≠ []) (small : write.length < 2 ^ 31) (stream : List UInt8)
    (answers : List Answer) :
    let read := sslFixsize (UInt64.ofNat write.length) ⟨write ++ stream,
      records.map (fun record => .ready record.length) ++ answers⟩
    read.ending = .returned ∧ read.stored = write ∧ read.left.stream = stream := by
  have len : (UInt64.ofNat write.length).toNat = write.length := by
    rw [UInt64.toNat_ofNat', Nat.mod_eq_of_lt (by omega)]
  have request : cInt (UInt64.ofNat write.length) = write.length := by
    rw [cInt, len, BitVec.toInt_eq_toNat_cond, BitVec.toNat_ofNat]
    split <;> omega
  have whole := cut.whole
  cases records with
  | nil => exact absurd whole.symm some
  | cons record records =>
      have positive := List.length_pos_iff.mpr (cut.nonempty record List.mem_cons_self)
      rw [List.flatten_cons] at whole
      have sizes := congrArg List.length whole
      rw [List.length_append] at sizes
      have data : (Answer.ready record.length).data write.length
          (record ++ (records.flatten ++ stream)) = record := ready_data (by omega)
      have result : (Answer.ready record.length).result write.length
          (record ++ (records.flatten ++ stream)) = record.length := by
        rw [Answer.result, if_neg (by omega), data]
      have delivered : ¬ (record.length : Int) < 1 := by omega
      have bytes : write ++ stream = record ++ (records.flatten ++ stream) := by
        rw [← whole, List.append_assoc]
      rw [sslFixsize, request, bytes, List.map_cons, List.cons_append, strictRead]
      simp only [data, result, delivered, decide_false, Bool.false_eq_true, if_false, len,
        List.drop_left]
      by_cases short : record.length < write.length
      · simp only [short, if_true]
        have left := FixedRead.rest_after (UInt64.ofNat write.length)
          (show record.length ≤ (UInt64.ofNat write.length).toNat by omega)
        have fit : ∀ other ∈ records, other.length ≤ write.length := by
          intro other member
          have inside := (List.sublist_flatten_of_mem member).length_le
          omega
        obtain ⟨ending, kept, rest⟩ := readLoop_records records
          (fun other member => cut.nonempty other (List.mem_cons_of_mem _ member)) fit
          (left.trans (by omega)) record stream answers
        refine ⟨ending, kept.trans whole, rest⟩
      · simp only [short, if_false]
        have none : records.flatten = [] := List.length_eq_zero_iff.mp (by omega)
        rw [none, List.append_nil] at whole
        rw [none]
        exact ⟨trivial, whole, rfl⟩

private theorem iFixsizeSsl_cut {write : List UInt8} {records later : List Record}
    (cut : Spells records write) (some : write ≠ []) (small : write.length < 2 ^ 31)
    (behind : ∀ record ∈ later, record ≠ []) :
    iFixsizeSsl write.length (records ++ later) = (.ok write, later) := by
  have fit : ∀ record ∈ records, record.length ≤ write.length := by
    intro record member
    rw [← cut.whole]
    exact (List.sublist_flatten_of_mem member).length_le
  have answers : (records ++ later).flatMap (recordAnswers write.length) =
      records.map (fun record => .ready record.length) ++
        later.flatMap (recordAnswers write.length) := by
    rw [List.flatMap_append]
    congr 1
    rw [List.map_eq_flatMap]
    apply List.flatMap_congr
    intro record member
    exact recordAnswers_small (cut.nonempty record member) (fit record member)
  have bytes : (records ++ later).flatten = write ++ later.flatten := by
    rw [List.flatten_append, cut.whole]
  obtain ⟨ending, stored, left⟩ := sslFixsize_records cut some small later.flatten
    (later.flatMap (recordAnswers write.length))
  rw [iFixsizeSsl, answers, bytes]
  simp only [ending, stored, left]
  rw [List.length_append, Nat.add_sub_cancel, ← cut.whole, dropRead_flatten records later behind]

theorem iFixsizeSsl_honest : Honest .ioError iFixsizeSsl := by
  intro len records error thrown
  rw [iFixsizeSsl] at thrown
  split at thrown
  · cases thrown
  · cases thrown
    rfl

/-! ### Sessions -/

def receiveAll (host : Host) (codes : TypeCodes) (fuel : Nat) :
    List Kind → Template.Method (List Template.Given)
  | [] => pure []
  | kind :: later => do
      let head ← Template.receive host codes fuel kind
      let tail ← receiveAll host codes fuel later
      pure (head :: tail)

def writesOf (host : Host) (codes : TypeCodes) (messages : List SizedMessage) :
    List (List UInt8) :=
  messages.flatMap fun message => message.1.writes host codes

private theorem records_nonempty {writes : List (List UInt8)} {records : List Record}
    (sent : Records writes records) : ∀ record ∈ records, record ≠ [] := by
  obtain ⟨groups, cuts, rfl⟩ := sent
  induction cuts with
  | nil => simp
  | @cons write group writes groups cut _cuts ih =>
      intro record member
      rw [List.flatten_cons] at member
      rcases List.mem_append.mp member with here | later
      · exact cut.nonempty record here
      · exact ih record later

/-- What a connection holds when some writes are on their way, with other records behind. -/
def Holds (later : List Record) (records : List Record) (writes : List (List UInt8)) : Prop :=
  (∀ write ∈ writes, write ≠ [] ∧ write.length < 2 ^ 31) ∧
    ∃ own, Records writes own ∧ records = own ++ later

theorem holds_delivers {later : List Record} (behind : ∀ record ∈ later, record ≠ [])
    {write : List UInt8} {writes : List (List UInt8)} {records : List Record}
    (held : Holds later records (write :: writes)) :
    ∃ after, iFixsizeSsl write.length records = (.ok write, after) ∧
      Holds later after writes := by
  obtain ⟨sizes, own, ⟨groups, cuts, rfl⟩, rfl⟩ := held
  cases cuts with
  | @cons _ group _ groups cut cuts =>
      obtain ⟨some, small⟩ := sizes write List.mem_cons_self
      have others : Records writes groups.flatten := ⟨groups, cuts, rfl⟩
      refine ⟨groups.flatten ++ later, ?_, ?_, groups.flatten, others, rfl⟩
      · rw [List.flatten_cons, List.append_assoc]
        apply iFixsizeSsl_cut cut some small
        intro record member
        rcases List.mem_append.mp member with early | late
        · exact records_nonempty others record early
        · exact behind record late
      · exact fun other member => sizes other (List.mem_cons_of_mem _ member)

theorem holds_nil {later records : List Record} (held : Holds later records []) :
    records = later := by
  obtain ⟨_, own, ⟨groups, cuts, rfl⟩, rfl⟩ := held
  cases cuts
  rfl

private theorem receiveAll_proper (host : Host) (codes : TypeCodes) (fuel : Nat)
    (kinds : List Kind) :
    Proper .ioError (receiveAll host codes fuel kinds) := by
  induction kinds with
  | nil => exact fun _ _ _ _ => nofun
  | cons kind later ih =>
      apply (Template.receive_tidy host codes fuel kind).proper.bind
      exact fun head => ih.bind (fun tail _ _ _ _ => nofun)

section Session

variable (sender receiver : Host) (little : receiver.endianness = .littleEndian)
  (keyFirst : receiver.pairOrder = .keyFirst) (codes : TypeCodes)

include little keyFirst

private theorem receiveAll_spelled (messages : List SizedMessage) {fuel : Nat}
    (enough : ∀ message ∈ messages, (SimpleSocket.send sender codes message.1).length < fuel) :
    Spelled (fun given => given.map Template.Given.value =
        messages.map (fun message => message.1.received))
      (receiveAll receiver codes fuel (messages.map (fun message => message.1.kind)))
      (writesOf sender codes messages) := by
  induction messages with
  | nil => exact .done rfl
  | cons message later ih =>
      have here := Template.receive_spelled sender receiver little keyFirst codes message.1
        (enough message List.mem_cons_self)
      have rest := ih (fun other member => enough other (List.mem_cons_of_mem _ member))
      apply here.bind
      intro head received
      apply rest.bind_nil
      intro tail values
      apply Spelled.done
      rw [List.map_cons, received, values, List.map_cons]

/-- Over a connection that delivers each write to a strict read of its size, the values are
those that were sent. -/
theorem receiveAll_exec {σ : Type} {connection : Strict UInt8 Exception σ}
    (honest : Honest .ioError connection) {holds : σ → List (List UInt8) → Prop}
    (delivers : ∀ write writes state, holds state (write :: writes) →
      ∃ after, connection write.length state = (.ok write, after) ∧ holds after writes)
    (messages : List SizedMessage) {fuel : Nat}
    (enough : ∀ message ∈ messages, (SimpleSocket.send sender codes message.1).length < fuel)
    (world : World σ) (ready : holds world.connection (writesOf sender codes messages))
    (ample : world.heap.Ample) :
    ∃ given after, (receiveAll receiver codes fuel
          (messages.map (fun message => message.1.kind))).exec connection world =
        (.returned given, after) ∧
      given.map Template.Given.value = messages.map (fun message => message.1.received) ∧
      holds after.connection [] ∧ after.heap.Ample := by
  have spelled := receiveAll_spelled sender receiver little keyFirst codes messages enough
  rw [← List.append_nil (writesOf sender codes messages)] at ready
  exact spelled.exec delivers world ready ample
    (receiveAll_proper receiver codes fuel _ _ _ _ honest)

omit little keyFirst in
theorem holds_records (messages : List SizedMessage)
    (small : ∀ write ∈ writesOf sender codes messages, write.length < 2 ^ 31)
    {records : List Record} (sent : Records (writesOf sender codes messages) records)
    (later : List Record) :
    Holds later (records ++ later) (writesOf sender codes messages) := by
  refine ⟨?_, records, sent, rfl⟩
  intro write member
  obtain ⟨message, _, inside⟩ := List.mem_flatMap.mp member
  exact ⟨(writes_spells sender codes message).nonempty write inside, small write member⟩

/-- A typed session goes through TLS unharmed, for all that the strict read asks for too
much: the values are those that were sent, and no record behind them is touched. -/
theorem typedSession_ssl (messages : List SizedMessage) {fuel : Nat}
    (enough : ∀ message ∈ messages, (SimpleSocket.send sender codes message.1).length < fuel)
    (small : ∀ write ∈ writesOf sender codes messages, write.length < 2 ^ 31)
    {records later : List Record} (sent : Records (writesOf sender codes messages) records)
    (behind : ∀ record ∈ later, record ≠ []) {heap : Heap} (ample : heap.Ample) :
    ∃ given after, (receiveAll receiver codes fuel
          (messages.map (fun message => message.1.kind))).exec iFixsizeSsl
          ⟨records ++ later, heap⟩ = (.returned given, after) ∧
      given.map Template.Given.value = messages.map (fun message => message.1.received) ∧
      after.connection = later := by
  obtain ⟨given, after, ran, values, held, _⟩ := receiveAll_exec sender receiver little keyFirst
    codes iFixsizeSsl_honest (fun write writes state => holds_delivers behind) messages enough
    ⟨records ++ later, heap⟩ (holds_records sender codes messages small sent later) ample
  exact ⟨given, after, ran, values, holds_nil held⟩

end Session

theorem typedSession_ssl_pieces :
    ∃ given after, (receiveAll (Host.little .keyFirst) TypeCodes.consecutive 4
          [.bool, .str]).exec iFixsizeSsl ⟨[[1], [2], [97], [98], [7]],
          ⟨[], 0, 0, fun _ => true⟩⟩ = (.returned given, after) ∧
      given.map Template.Given.value = [.bool true, .str ⟨[97, 98], by decide⟩] ∧
      after.connection = [[7]] :=
  typedSession_ssl (Host.little .keyFirst) (Host.little .keyFirst) rfl rfl
    TypeCodes.consecutive [⟨.bool true, trivial⟩, ⟨.str ⟨[97, 98], by decide⟩, trivial⟩]
    (by decide) (by decide)
    ⟨[[[1]], [[2]], [[97], [98]]],
      .cons (Spells.single (by decide)) (.cons (Spells.single (by decide))
        (.cons ⟨rfl, by decide⟩ .nil)), rfl⟩
    (by decide) (fun _ => rfl)

/-! ### SSL mode in the middle of a session -/

/-- `base_socket::_i_fixsize` with `MSG_WAITALL`, for which the system waits until all is
there or the connection is closed. -/
def iFixsizeClear : Strict UInt8 Exception (List UInt8) := fun len stream =>
  let read := FixedRead.socketFixsizeWaitall (UInt64.ofNat len) ⟨stream, [.ready len]⟩
  match read.ending with
  | .returned => (.ok read.stored, read.left.stream)
  | _ => (.error .ioError, read.left.stream)

private theorem iFixsizeClear_append {write : List UInt8} (small : write.length < 2 ^ 31)
    (rest : List UInt8) : iFixsizeClear write.length (write ++ rest) = (.ok write, rest) := by
  have len : (UInt64.ofNat write.length).toNat = write.length := by
    rw [UInt64.toNat_ofNat', Nat.mod_eq_of_lt (by omega)]
  have data : (Answer.ready write.length).data write.length (write ++ rest) = write :=
    ready_data (Nat.le_refl _)
  have result : (Answer.ready write.length).result write.length (write ++ rest) =
      write.length := by
    rw [Answer.result, if_neg (by omega), data]
  rw [iFixsizeClear, FixedRead.socketFixsizeWaitall]
  simp only [len, data, result, Int.lt_irrefl, if_false, List.drop_left]

private theorem iFixsizeClear_honest : Honest .ioError iFixsizeClear := by
  intro len stream error thrown
  rw [iFixsizeClear] at thrown
  split at thrown
  · cases thrown
  · cases thrown
    rfl

def HoldsClear (behind stream : List UInt8) (writes : List (List UInt8)) : Prop :=
  (∀ write ∈ writes, write.length < 2 ^ 31) ∧ stream = writes.flatten ++ behind

private theorem holdsClear_delivers {behind write stream : List UInt8} {writes : List (List UInt8)}
    (held : HoldsClear behind stream (write :: writes)) :
    ∃ after, iFixsizeClear write.length stream = (.ok write, after) ∧
      HoldsClear behind after writes := by
  obtain ⟨sizes, rfl⟩ := held
  refine ⟨writes.flatten ++ behind, ?_, ?_, rfl⟩
  · rw [List.flatten_cons, List.append_assoc]
    exact iFixsizeClear_append (sizes write List.mem_cons_self) _
  · exact fun other member => sizes other (List.mem_cons_of_mem _ member)

/-- Some calls, then `start_ssl` or `wait_for_ssl`, then other calls. `openssl` is what the
handshake makes of the bytes on the socket: the records of the other end, or no session. -/
def switched (host : Host) (codes : TypeCodes) (fuel : Nat)
    (openssl : List UInt8 → Option (List Record)) (before behind : List Kind)
    (world : World (List UInt8)) : Ending Exception Fault (List Template.Given) ×
      Option (Ending Exception Fault (List Template.Given) × World (List Record)) :=
  match (receiveAll host codes fuel before).exec iFixsizeClear world with
  | (.returned given, after) =>
      (.returned given, (openssl after.connection).map fun records =>
        (receiveAll host codes fuel behind).exec iFixsizeSsl ⟨records, after.heap⟩)
  | (ending, _) => (ending, none)

/-- A session that goes over to TLS somewhere, as both ends do at the same message: the
handshake finds exactly the bytes that are its own, whatever they are, and the values of both
parts are those that were sent. -/
theorem switched_exact (sender receiver : Host) (little : receiver.endianness = .littleEndian)
    (keyFirst : receiver.pairOrder = .keyFirst) (codes : TypeCodes)
    (clear secret : List SizedMessage) {fuel : Nat}
    (enough : ∀ message ∈ clear ++ secret,
      (SimpleSocket.send sender codes message.1).length < fuel)
    (small : ∀ write ∈ writesOf sender codes (clear ++ secret), write.length < 2 ^ 31)
    (openssl : List UInt8 → Option (List Record)) (handshake : List UInt8)
    {records later : List Record} (opens : openssl handshake = some (records ++ later))
    (sent : Records (writesOf sender codes secret) records)
    (behind : ∀ record ∈ later, record ≠ []) {heap : Heap} (ample : heap.Ample) :
    ∃ first second after,
      switched receiver codes fuel openssl (clear.map (fun message => message.1.kind))
          (secret.map (fun message => message.1.kind))
          ⟨sendAll sender codes (clear.map Subtype.val) ++ handshake, heap⟩ =
        (.returned first, some (.returned second, after)) ∧
      first.map Template.Given.value = clear.map (fun message => message.1.received) ∧
      second.map Template.Given.value = secret.map (fun message => message.1.received) ∧
      after.connection = later := by
  have both : writesOf sender codes (clear ++ secret) =
      writesOf sender codes clear ++ writesOf sender codes secret := List.flatMap_append ..
  rw [both] at small
  have bytes : (writesOf sender codes clear).flatten =
      sendAll sender codes (clear.map Subtype.val) := by
    rw [writesOf, List.flatten_eq_flatMap, List.flatMap_assoc, sendAll, List.flatMap_map]
    apply List.flatMap_congr
    intro message _member
    rw [← List.flatten_eq_flatMap]
    exact (writes_spells sender codes message).whole
  have ready : HoldsClear handshake (sendAll sender codes (clear.map Subtype.val) ++ handshake)
      (writesOf sender codes clear) := by
    rw [HoldsClear, bytes]
    exact ⟨fun write member => small write (List.mem_append_left _ member), rfl⟩
  obtain ⟨first, between, ran, values, held, kept⟩ := receiveAll_exec sender receiver little
    keyFirst codes iFixsizeClear_honest (fun write writes state => holdsClear_delivers) clear
    (fun message member => enough message (List.mem_append_left _ member)) ⟨_, heap⟩ ready ample
  obtain ⟨second, after, secured, secrets, last, _⟩ := receiveAll_exec sender receiver little
    keyFirst codes iFixsizeSsl_honest (fun write writes state => holds_delivers behind) secret
    (fun message member => enough message (List.mem_append_right _ member))
    ⟨records ++ later, between.heap⟩
    (holds_records sender codes secret
      (fun write member => small write (List.mem_append_right _ member)) sent later) kept
  refine ⟨first, second, after, ?_, values, secrets, holds_nil last⟩
  rw [switched, ran]
  simp only [show between.connection = handshake from held.2, opens, Option.map_some, secured]

theorem switched_exact_bool :
    ∃ first second after,
      switched (Host.little .keyFirst) TypeCodes.consecutive 2
          (fun raw => if raw = [22, 3] then some [[1]] else none) [.char] [.bool]
          ⟨[65, 22, 3], ⟨[], 0, 0, fun _ => true⟩⟩ =
        (.returned first, some (.returned second, after)) ∧
      first.map Template.Given.value = [.char 65] ∧
      second.map Template.Given.value = [.bool true] ∧ after.connection = [] :=
  switched_exact (Host.little .keyFirst) (Host.little .keyFirst) rfl rfl TypeCodes.consecutive
    [⟨.char 65, trivial⟩] [⟨.bool true, trivial⟩] (by decide) (by decide) _ [22, 3] rfl
    ⟨[[[1]]], .cons (Spells.single (by decide)) .nil, rfl⟩ (by simp) (fun _ => rfl)

end Socketxx.SslSession
