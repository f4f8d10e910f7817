import Socketxx.MixedEndianness
import Socketxx.SslWrite

/-!
`o_bin` for every pointer and every `size_t` length, over the `_o` of any `io_base`. The
header holds the low 32 bits of the length while all of the bytes are given to `_o` behind
it, so that from 2^32 bytes on `i_bin` takes the block for a shorter one.

`_o` is called twice and may send a part of what it is given: a `write()` or a `send()` that
falls short makes it throw behind the header, and `SSL_write` is asked for a negative number
of bytes from 2^31 on and `_o` returns.
-/

set_option autoImplicit false

namespace Socketxx.SimpleSocket

open StreamReader Tunnel

/-- The arguments of `o_bin`: `none` is `NULL`, any other pointer is to `len` bytes. -/
structure BinArguments where
  p : Option (List UInt8)
  len : Nat
  len_lt : len < 2 ^ 64
  points : ∀ bytes, p = some bytes → bytes.length = len

/-- `o_bin(p, len)`; with `NULL` the length is taken for zero. -/
def BinArguments.write (host : Host) (arguments : BinArguments) : List UInt8 :=
  let len := if arguments.p = none then 0 else arguments.len
  oInt host (BitVec.ofNat (8 * 4) len) ++ (if len ≠ 0 then arguments.p.getD [] else [])

/-- What `i_bin` is to return for them. -/
def BinArguments.block (arguments : BinArguments) : Option (List UInt8) :=
  if arguments.p.getD [] = [] then none else arguments.p

private theorem BinArguments.write_eq_oBin (host : Host) (arguments : BinArguments) :
    arguments.write host = oBin host arguments.p := by
  cases pointer : arguments.p with
  | none =>
      rw [write, pointer, if_pos rfl]
      rfl
  | some bytes =>
      have size := arguments.points bytes pointer
      rw [write, oBin, pointer, if_neg (Option.some_ne_none bytes), ← size]
      rfl

theorem iBin_length_lt {host : Host} {stream rest : List UInt8} {block : List UInt8}
    (read : iBin host stream = .ok (some block, rest)) : block.length < 2 ^ 32 := by
  obtain ⟨len, between, lenRead, bodyRead⟩ := Reader.bind_eq_ok.mp read
  obtain ⟨num, _numRead, rfl⟩ := Reader.map_eq_ok.mp lenRead
  split at bodyRead
  · cases bodyRead
  · obtain ⟨_unit, after, _arrayRead, bytesRead⟩ := Reader.bind_eq_ok.mp bodyRead
    obtain ⟨bytes, taken, same⟩ := Reader.map_eq_ok.mp bytesRead
    obtain ⟨_split, size⟩ := Reader.take_eq_ok.mp taken
    cases same
    rw [size]
    exact num.isLt

theorem not_read_of_le {receiver : Host} {stream rest bytes : List UInt8}
    (arguments : BinArguments) (pointer : arguments.p = some bytes)
    (long : 2 ^ 32 ≤ arguments.len) :
    iBin receiver stream ≠ .ok (arguments.block, rest) := by
  intro read
  have size := arguments.points bytes pointer
  have nonempty : bytes ≠ [] := by
    intro empty
    rw [empty, List.length_nil] at size
    omega
  rw [BinArguments.block, pointer, Option.getD_some, if_neg nonempty] at read
  have short := iBin_length_lt read
  omega

private theorem ReadsStraight.zero (receiver : Host) :
    ReadsStraight receiver (BitVec.ofNat (8 * 4) 0) :=
  Or.inr rfl

/-- A block comes out as it went in exactly when its length fits the header and the
header is read as the number it stands for; `NULL` always does. -/
private theorem iBin_whole_iff (endianness : Endianness) (senderOrder receiverOrder : PairOrder)
    (arguments : BinArguments) :
    (∀ rest, iBin (Host.ample endianness receiverOrder)
        (arguments.write (Host.ample endianness senderOrder) ++ rest) =
          .ok (arguments.block, rest)) ↔
      arguments.p = none ∨
        (arguments.len < 2 ^ 32 ∧ ReadsStraight (Host.ample endianness receiverOrder)
          (BitVec.ofNat (8 * 4) arguments.len)) := by
  rw [BinArguments.write_eq_oBin, BinArguments.block]
  cases pointer : arguments.p with
  | none =>
      have empty := fun rest => (iBin_oBin_iff (Host.ample endianness senderOrder) endianness
        receiverOrder ⟨[], Nat.two_pow_pos 32⟩ rest).mpr (ReadsStraight.zero _)
      constructor
      · intro _read
        exact Or.inl rfl
      · intro _null
        exact empty
  | some bytes =>
      have size := arguments.points bytes pointer
      constructor
      · intro read
        right
        have fits : arguments.len < 2 ^ 32 := by
          by_contra long
          have whole := read []
          rw [← pointer] at whole
          exact not_read_of_le arguments pointer (Nat.le_of_not_lt long) whole
        constructor
        · exact fits
        · have straight := (iBin_oBin_iff (Host.ample endianness senderOrder) endianness
            receiverOrder ⟨bytes, by rw [size]; exact fits⟩ []).mp (read [])
          rwa [size] at straight
      · intro either
        rcases either with impossible | ⟨fits, straight⟩
        · cases impossible
        · intro rest
          exact (iBin_oBin_iff (Host.ample endianness senderOrder) endianness
            receiverOrder ⟨bytes, by rw [size]; exact fits⟩ rest).mpr (by rwa [size])

theorem iBin_oBin_part (sender receiver : Host) (little : receiver.endianness = .littleEndian)
    (ample : ∀ size, receiver.alloc size = true) (bytes rest : List UInt8) :
    iBin receiver (oBin sender (some bytes) ++ rest) =
      .ok (if bytes.length % 2 ^ 32 = 0 then none
          else some (bytes.take (bytes.length % 2 ^ 32)),
        bytes.drop (bytes.length % 2 ^ 32) ++ rest) := by
  have header := ((iInt_oInt_decodes sender receiver little
    (BitVec.ofNat (8 * 4) bytes.length)).map BitVec.toNat) (bytes ++ rest)
  have written : oBin sender (some bytes) =
      oInt sender (BitVec.ofNat (8 * 4) bytes.length) ++ bytes := by
    rw [oBin, Option.getD_some]
    by_cases empty : bytes.length = 0
    · rw [List.length_eq_zero_iff.mp empty]
      rfl
    · rw [if_pos empty]
  rw [BitVec.toNat_ofNat] at header
  rw [written, List.append_assoc, iBin, Reader.bind_ok header]
  generalize counted : bytes.length % 2 ^ (8 * 4) = count at *
  have inside : count ≤ bytes.length := by
    rw [← counted]
    exact Nat.mod_le _ _
  by_cases zero : count = 0
  · subst zero
    rw [if_pos rfl, if_pos rfl]
    rfl
  · rw [if_neg zero, if_neg zero]
    apply (Reader.bind_ok (newArray_decodes receiver count (ample count) (bytes ++ rest))).trans
    have part := (iFixsize_decodes (bytes.take count)).map some (bytes.drop count ++ rest)
    rw [List.length_take_of_le inside, ← List.append_assoc, List.take_append_drop] at part
    exact part

/-! ### Over an `io_base` -/

/-- `_o` of an `io_base`: whether it returns, and what has gone out. One that returns has sent
all of a short buffer. -/
structure IoBase where
  o : List UInt8 → Answer → Bool × List UInt8
  part : ∀ d answer, (o d answer).2 <+: d
  short : ∀ d answer, d.length < 2 ^ 31 → (o d answer).1 = true → (o d answer).2 = d

def toSsize (len : Nat) : Int := (BitVec.ofNat 64 len).toInt

theorem toSsize_of_lt {len : Nat} (fits : len < 2 ^ 31) : toSsize len = len := by
  rw [toSsize, BitVec.toInt_eq_toNat_cond, BitVec.toNat_ofNat]
  split <;> omega

theorem take_min_of_le {d : List UInt8} {written : Int}
    (all : (d.length : Int) ≤ min written d.length) :
    d.take (min written d.length).toNat = d := by
  apply List.take_of_length_le
  omega

/-- One `write()`, which takes no more than it is given. -/
def baseFd : IoBase where
  o d answer :=
    let r := min answer.written d.length
    (decide (r = toSsize d.length), d.take r.toNat)
  part d _ := d.take_prefix _
  short d answer fits returns := by
    have all := of_decide_eq_true returns
    rw [toSsize_of_lt fits] at all
    exact take_min_of_le (Int.le_of_eq all.symm)

def baseSocket : IoBase where
  o d answer :=
    let r := min answer.written d.length
    (!decide (r < toSsize d.length), d.take r.toNat)
  part d _ := d.take_prefix _
  short d answer fits returns := by
    have all := of_decide_eq_false (Bool.not_eq_true' _ |>.mp returns)
    rw [toSsize_of_lt fits] at all
    exact take_min_of_le (Int.not_lt.mp all)

def baseSsl : IoBase where
  o d answer :=
    let (returns, _, out) := sslWrite d answer
    (returns, out)
  part d _ := d.take_prefix _
  short d _ fits returns :=
    (SslWrite.sslWrite_accepted returns).trans ((SslWrite.accepted_eq_iff d).mpr fits)

/-- `o_bin(p, len)`: the second call is made when the first one has returned. -/
def BinArguments.send (base : IoBase) (host : Host) (arguments : BinArguments)
    (answers : Nat → Answer) : Bool × List UInt8 :=
  let len := if arguments.p = none then 0 else arguments.len
  let (returns, header) := base.o (oInt host (BitVec.ofNat (8 * 4) len)) (answers 0)
  if returns = true ∧ len ≠ 0 then
    let (returns, body) := base.o (arguments.p.getD []) (answers 1)
    (returns, header ++ body)
  else (returns, header)

/-- The stream is in step behind a call: it threw before a byte went out, or what went out
is read as the block, whatever follows. -/
def InStep (receiver : Host) (block : Option (List UInt8)) (sent : Bool × List UInt8) : Prop :=
  sent.1 = false ∧ sent.2 = [] ∨
    ∀ rest, iBin receiver (sent.2 ++ rest) = .ok (block, rest)

def BinArguments.header (host : Host) (arguments : BinArguments) : List UInt8 :=
  oInt host (BitVec.ofNat (8 * 4) (if arguments.p = none then 0 else arguments.len))

/-- `_o` has sent the header, and behind it the block if there is one. -/
def BinArguments.Whole (base : IoBase) (host : Host) (arguments : BinArguments)
    (answers : Nat → Answer) : Prop :=
  (base.o (arguments.header host) (answers 0)).2 = arguments.header host ∧
    (arguments.p.getD [] = [] ∨ (base.o (arguments.header host) (answers 0)).1 = true ∧
      (base.o (arguments.p.getD []) (answers 1)).2 = arguments.p.getD [])

theorem BinArguments.len_eq_zero_iff (arguments : BinArguments) :
    (if arguments.p = none then 0 else arguments.len) = 0 ↔ arguments.p.getD [] = [] := by
  cases pointer : arguments.p with
  | none => exact iff_of_true (if_pos rfl) rfl
  | some bytes =>
      rw [if_neg (Option.some_ne_none bytes), ← arguments.points bytes pointer]
      exact List.length_eq_zero_iff

private theorem BinArguments.write_eq (host : Host) (arguments : BinArguments) :
    arguments.write host = arguments.header host ++ arguments.p.getD [] := by
  have zero := arguments.len_eq_zero_iff
  rw [write, header]
  generalize (if arguments.p = none then 0 else arguments.len) = len at zero ⊢
  by_cases empty : len = 0
  · rw [zero.mp empty, empty]
    rfl
  · rw [if_pos empty]

theorem BinArguments.send_empty (base : IoBase) (host : Host) (arguments : BinArguments)
    (answers : Nat → Answer)
    (stops : (base.o (arguments.header host) (answers 0)).1 = false ∨
      arguments.p.getD [] = []) :
    arguments.send base host answers = base.o (arguments.header host) (answers 0) := by
  rw [← arguments.len_eq_zero_iff] at stops
  rw [send]
  apply if_neg
  intro goesOn
  rcases stops with threw | empty
  · exact Bool.false_ne_true (threw.symm.trans goesOn.1)
  · exact goesOn.2 empty

theorem BinArguments.send_block (base : IoBase) (host : Host) (arguments : BinArguments)
    (answers : Nat → Answer)
    (returns : (base.o (arguments.header host) (answers 0)).1 = true)
    (some : arguments.p.getD [] ≠ []) :
    arguments.send base host answers =
      ((base.o (arguments.p.getD []) (answers 1)).1,
        (base.o (arguments.header host) (answers 0)).2 ++
          (base.o (arguments.p.getD []) (answers 1)).2) := by
  rw [ne_eq, ← arguments.len_eq_zero_iff] at some
  rw [send]
  exact if_pos ⟨returns, some⟩

private theorem BinArguments.send_whole {base : IoBase} {host : Host} {arguments : BinArguments}
    {answers : Nat → Answer} (whole : arguments.Whole base host answers) :
    (arguments.send base host answers).2 = arguments.write host := by
  obtain ⟨header, empty | ⟨returns, block⟩⟩ := whole
  · rw [arguments.send_empty base host answers (Or.inr empty), header, write_eq, empty,
      List.append_nil]
  · by_cases empty : arguments.p.getD [] = []
    · rw [arguments.send_empty base host answers (Or.inr empty), header, write_eq, empty,
        List.append_nil]
    · rw [arguments.send_block base host answers returns empty, header, block, write_eq]

theorem BinArguments.send_nothing_iff (base : IoBase) (host : Host) (arguments : BinArguments)
    (answers : Nat → Answer) :
    (arguments.send base host answers).1 = false ∧ (arguments.send base host answers).2 = [] ↔
      base.o (arguments.header host) (answers 0) = (false, []) := by
  cases returns : (base.o (arguments.header host) (answers 0)).1 with
  | false =>
      rw [arguments.send_empty base host answers (Or.inl returns), Prod.ext_iff]
  | true =>
      have size : (arguments.header host).length = 4 := oInt_length host _
      have sent := base.short _ (answers 0) (by omega) returns
      apply iff_of_false
      · intro nothing
        by_cases empty : arguments.p.getD [] = []
        · rw [arguments.send_empty base host answers (Or.inr empty), sent] at nothing
          rw [nothing.2] at size
          cases size
        · rw [arguments.send_block base host answers returns empty, sent] at nothing
          rw [(List.append_eq_nil_iff.mp nothing.2).1] at size
          cases size
      · intro threw
        rw [threw] at returns
        cases returns

private theorem BinArguments.whole_of_length {base : IoBase} {host : Host}
    {arguments : BinArguments}
    {answers : Nat → Answer}
    (size : (arguments.send base host answers).2.length =
      4 + (arguments.p.getD []).length) : arguments.Whole base host answers := by
  have headerPart := base.part (arguments.header host) (answers 0)
  have headerSize : (arguments.header host).length = 4 := oInt_length host _
  have headerLength := headerPart.length_le
  by_cases empty : arguments.p.getD [] = []
  · rw [arguments.send_empty base host answers (Or.inr empty), empty, List.length_nil] at size
    exact ⟨headerPart.eq_of_length (by omega), Or.inl empty⟩
  · have positive := List.length_pos_iff.mpr empty
    cases returns : (base.o (arguments.header host) (answers 0)).1 with
    | false =>
        rw [arguments.send_empty base host answers (Or.inl returns)] at size
        omega
    | true =>
        have blockPart := base.part (arguments.p.getD []) (answers 1)
        have blockLength := blockPart.length_le
        rw [arguments.send_block base host answers returns empty, List.length_append] at size
        exact ⟨headerPart.eq_of_length (by omega),
          Or.inr ⟨returns, blockPart.eq_of_length (by omega)⟩⟩

private theorem iBin_takes {host : Host} {stream rest : List UInt8} {p : Option (List UInt8)}
    (read : iBin host stream = .ok (p, rest)) :
    stream.length = 4 + (p.getD []).length + rest.length := by
  obtain ⟨len, between, lenRead, bodyRead⟩ := Reader.bind_eq_ok.mp read
  obtain ⟨num, numRead, _value⟩ := Reader.map_eq_ok.mp lenRead
  obtain ⟨header, headerTaken, _num⟩ := Reader.map_eq_ok.mp numRead
  obtain ⟨rfl, headerSize⟩ := Reader.take_eq_ok.mp headerTaken
  rw [List.length_append, headerSize]
  split at bodyRead
  · cases bodyRead
    rfl
  · obtain ⟨_unit, after, made, bytesRead⟩ := Reader.bind_eq_ok.mp bodyRead
    obtain ⟨bytes, taken, rfl⟩ := Reader.map_eq_ok.mp bytesRead
    obtain ⟨_room, rfl⟩ := newArray_eq_ok made
    obtain ⟨rfl, _size⟩ := Reader.take_eq_ok.mp taken
    rw [List.length_append, Option.getD_some, Nat.add_assoc]

private theorem BinArguments.block_getD (arguments : BinArguments) :
    arguments.block.getD [] = arguments.p.getD [] := by
  rw [block]
  split
  · rename_i empty
    exact empty.symm
  · rfl

/-- Behind `o_bin` the stream is in step exactly when the header failed before a byte went
out, or when `_o` sent all it was given, the length fits the header and the header is read
as the number it stands for. -/
theorem iBin_write_iff (base : IoBase) (endianness : Endianness)
    (senderOrder receiverOrder : PairOrder) (arguments : BinArguments)
    (answers : Nat → Answer) :
    InStep (Host.ample endianness receiverOrder) arguments.block
        (arguments.send base (Host.ample endianness senderOrder) answers) ↔
      base.o (arguments.header (Host.ample endianness senderOrder)) (answers 0) = (false, []) ∨
        arguments.Whole base (Host.ample endianness senderOrder) answers ∧
          (arguments.p = none ∨
            (arguments.len < 2 ^ 32 ∧ ReadsStraight (Host.ample endianness receiverOrder)
              (BitVec.ofNat (8 * 4) arguments.len))) := by
  rw [← iBin_whole_iff endianness senderOrder receiverOrder arguments]
  generalize Host.ample endianness senderOrder = sender
  apply or_congr
  · exact arguments.send_nothing_iff base sender answers
  · constructor
    · intro read
      have size := iBin_takes (read [])
      rw [List.append_nil, List.length_nil, Nat.add_zero, arguments.block_getD] at size
      have whole := BinArguments.whole_of_length size
      rw [BinArguments.send_whole whole] at read
      exact ⟨whole, read⟩
    · intro sent
      obtain ⟨whole, read⟩ := sent
      rw [BinArguments.send_whole whole]
      exact read

/-- A `base_ssl` that sends the header drops a block of 2^31 to 2^32 bytes and returns: the
next bytes on the stream are taken for the block. -/
theorem BinArguments.send_ssl_drops {host : Host} {arguments : BinArguments}
    {answers : Nat → Answer} {bytes : List UInt8} (pointer : arguments.p = some bytes)
    (long : 2 ^ 31 ≤ arguments.len) (fits : arguments.len < 2 ^ 32)
    (sent : (baseSsl.o (arguments.header host) (answers 0)).1 = true) :
    arguments.send baseSsl host answers = (true, arguments.header host) := by
  have size := arguments.points bytes pointer
  have headerSize : (arguments.header host).length = 4 := oInt_length host _
  have header := baseSsl.short _ (answers 0) (by omega) sent
  have huge : toInt bytes.length < 0 := by
    rw [size, toInt, BitVec.toInt_eq_toNat_cond, BitVec.toNat_ofNat]
    split <;> omega
  have nonempty : bytes ≠ [] := by
    intro empty
    rw [empty, List.length_nil] at size
    omega
  have dropped : baseSsl.o bytes (answers 1) = (true, []) := by
    simp only [baseSsl, sslWrite_huge (answers 1) huge]
  rw [arguments.send_block baseSsl host answers sent (by rwa [pointer]), header, pointer,
    Option.getD_some, dropped, List.append_nil]

def zeroBlock (len : Nat) (len_lt : len < 2 ^ 64) : BinArguments :=
  { p := some (List.replicate len 0)
    len := len
    len_lt := len_lt
    points := by
      intro bytes same
      cases same
      exact List.length_replicate }

def written (count : Int) : Answer := ⟨.interrupted, [], 0, [], count, 0⟩

/-- A block of 2^32 bytes over a `base_fd`: behind a header for an empty block goes what one
`write()` takes at most, and then the exception comes. -/
theorem iBin_desynchronised :
    ¬ InStep (Host.little .keyFirst) (zeroBlock (2 ^ 32) (by decide)).block
      ((zeroBlock (2 ^ 32) (by decide)).send baseFd (Host.little .keyFirst)
        (fun _ => written (2 ^ 31 - 4096))) := by
  generalize hostIs : Host.little .keyFirst = host
  rintro (nothing | read)
  · have threw := (BinArguments.send_nothing_iff baseFd host _ _).mp nothing
    have size : ((zeroBlock (2 ^ 32) (by decide)).header host).length = 4 := oInt_length host _
    have returns := congrArg Prod.fst threw
    simp only [baseFd, size] at returns
    revert returns
    decide
  · exact not_read_of_le (zeroBlock (2 ^ 32) (by decide)) rfl (Nat.le_refl _) (read [])

end Socketxx.SimpleSocket
