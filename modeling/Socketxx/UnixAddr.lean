import Socketxx.Library.CString

/-!
`addr_info` of `base_unixsock`: its length is that of `sockaddr_un` without the bytes of
`sun_path` that are not used, and `get_path` gets the length of the path back from it.

The constructor leaves the terminator of the path out of that length, and Linux does not
when it fills in the address of a client.
-/

set_option autoImplicit false

namespace Socketxx.UnixAddr

open CString (cStr)

structure SunPath where
  bytes : List UInt8
  size : bytes.length = 108
deriving DecidableEq, Repr

def pathOffset : Nat := 2

def sizeofSockaddrUn : UInt64 := 110

def sizeofSunPath : UInt64 := 108

structure AddrInfo where
  addr : SunPath
  addrlen : UInt32
deriving DecidableEq, Repr

structure CPath where
  chars : List UInt8
  noNul : 0 ∉ chars
deriving DecidableEq, Repr

/-- Memory that a string and its terminator are written to, as far as there is room. -/
def SunPath.write (memory : SunPath) (chars : List UInt8) : SunPath where
  bytes := (chars ++ 0 :: memory.bytes.drop (chars.length + 1)).take 108
  size := by
    have size := memory.size
    rw [List.length_take, List.length_append, List.length_cons, List.length_drop]
    omega

/-- `_build_unixsock_addr`, with the memory its `sockaddr_un` begins with. -/
def buildUnixsockAddr (memory : SunPath) (path : CPath) : Except String SunPath :=
  if sizeofSunPath.toNat - 1 ≤ path.chars.length then
    .error "Path is too long for UNIX socket !"
  else .ok (memory.write path.chars)

def addrInfo (memory : SunPath) (path : CPath) : Except String AddrInfo := do
  let addr ← buildUnixsockAddr memory path
  pure ⟨addr, UInt32.ofNat (pathOffset + (cStr addr.bytes).length)⟩

/-- How many bytes `get_path` reads. -/
def AddrInfo.pathLength (info : AddrInfo) : UInt64 :=
  sizeofSunPath - (sizeofSockaddrUn - info.addrlen.toUInt64)

/-- `get_path`; `none` when it reads bytes behind `sun_path`. -/
def AddrInfo.getPath (info : AddrInfo) : Option (List UInt8) :=
  if info.pathLength.toNat ≤ info.addr.bytes.length then
    some (info.addr.bytes.take info.pathLength.toNat)
  else none

/-! ### Clients -/

/-- A path that `bind` takes: it fits, if need be without its terminator. -/
structure BoundPath extends CPath where
  nonempty : chars ≠ []
  fits : chars.length ≤ 108
deriving DecidableEq, Repr

/-- What the socket of a client is bound to. -/
inductive Peer where
  | unnamed
  | pathname (path : BoundPath)
deriving DecidableEq, Repr

/-- The address and its length as `accept` leaves them. -/
def accept (memory : SunPath) : Peer → SunPath × UInt32
  | .unnamed => (memory, UInt32.ofNat pathOffset)
  | .pathname path =>
      (memory.write path.chars, UInt32.ofNat (pathOffset + path.chars.length + 1))

/-- The member `addr` of the client that `wait_new_client` returns. -/
def waitNewClient (memory : SunPath) (peer : Peer) : AddrInfo :=
  ⟨(accept memory peer).1, (accept memory peer).2⟩

/-! ### The length of the path -/

theorem pathLength_eq {info : AddrInfo} {len : Nat} (bound : len ≤ 109)
    (addrlen : info.addrlen = UInt32.ofNat (pathOffset + len)) :
    info.pathLength.toNat = len := by
  have number : info.addrlen.toUInt64.toNat = pathOffset + len := by
    rw [addrlen, UInt32.toNat_toUInt64, UInt32.toNat_ofNat']
    unfold pathOffset
    omega
  unfold AddrInfo.pathLength
  rw [UInt64.toNat_sub, UInt64.toNat_sub, number]
  change (2 ^ 64 - (2 ^ 64 - (2 + len) + 110) % 2 ^ 64 + 108) % 2 ^ 64 = len
  omega

theorem write_take {memory : SunPath} {chars : List UInt8} (short : chars.length ≤ 107) :
    (memory.write chars).bytes.take (chars.length + 1) = chars ++ [0] := by
  change ((chars ++ 0 :: memory.bytes.drop (chars.length + 1)).take 108).take
    (chars.length + 1) = _
  rw [List.take_take, Nat.min_eq_left (by omega), List.take_append,
    List.take_of_length_le (by omega), Nat.add_sub_cancel_left]
  rfl

private theorem write_take_path {memory : SunPath} {chars : List UInt8}
    (short : chars.length ≤ 107) :
    (memory.write chars).bytes.take chars.length = chars := by
  have whole := congrArg (List.take chars.length) (@write_take memory chars short)
  rw [List.take_take, Nat.min_eq_left (by omega), List.take_left] at whole
  exact whole

private theorem cStr_write {memory : SunPath} {path : CPath} (short : path.chars.length ≤ 107) :
    cStr (memory.write path.chars).bytes = path.chars := by
  have split : (memory.write path.chars).bytes =
      path.chars ++ 0 :: (memory.write path.chars).bytes.drop (path.chars.length + 1) := by
    nth_rewrite 1 [← List.take_append_drop (path.chars.length + 1)
      (memory.write path.chars).bytes]
    rw [write_take short, List.append_assoc]
    rfl
  rw [split, CString.cStr_append_nul path.noNul]

/-! ### The two sources of an address -/

private theorem addrInfo_getPath {memory : SunPath} {path : CPath} {info : AddrInfo}
    (made : addrInfo memory path = .ok info) : info.getPath = some path.chars := by
  unfold addrInfo buildUnixsockAddr at made
  by_cases long : sizeofSunPath.toNat - 1 ≤ path.chars.length
  · rw [if_pos long] at made
    cases made
  · rw [if_neg long] at made
    have short : path.chars.length ≤ 106 := by
      change ¬ 107 ≤ path.chars.length at long
      omega
    cases made
    have length := @cStr_write memory path (by omega)
    have read : (AddrInfo.mk (memory.write path.chars) (UInt32.ofNat
        (pathOffset + (cStr (memory.write path.chars).bytes).length))).pathLength.toNat =
          path.chars.length := by
      apply pathLength_eq (by omega)
      rw [length]
    have size : (memory.write path.chars).bytes.length = 108 := (memory.write path.chars).size
    have inside : path.chars.length ≤ (memory.write path.chars).bytes.length := by omega
    rw [AddrInfo.getPath, read]
    exact (if_pos inside).trans (congrArg some (write_take_path (by omega)))

/-- The address of a client has one byte more, which is the terminator or lies behind
`sun_path`. -/
theorem waitNewClient_getPath (memory : SunPath) (path : BoundPath) :
    (waitNewClient memory (.pathname path)).getPath =
      if path.chars.length ≤ 107 then some (path.chars ++ [0]) else none := by
  have fits := path.fits
  have read : (waitNewClient memory (.pathname path)).pathLength.toNat =
      path.chars.length + 1 := pathLength_eq (by omega) rfl
  have size : (waitNewClient memory (.pathname path)).addr.bytes.length = 108 :=
    (waitNewClient memory (.pathname path)).addr.size
  rw [AddrInfo.getPath, read, size]
  by_cases short : path.chars.length ≤ 107
  · rw [if_pos short, if_pos (by omega)]
    exact congrArg some (write_take short)
  · rw [if_neg short, if_neg (by omega)]

theorem waitNewClient_unnamed (memory : SunPath) :
    (waitNewClient memory .unnamed).getPath = some [] := by
  have read : (waitNewClient memory .unnamed).pathLength.toNat = 0 :=
    pathLength_eq (Nat.zero_le _) rfl
  rw [AddrInfo.getPath, read, if_pos (Nat.zero_le _), List.take_zero]

inductive Origin where
  | constructed (memory : SunPath) (path : CPath)
  | accepted (memory : SunPath) (path : BoundPath)
deriving DecidableEq, Repr

def Origin.path : Origin → List UInt8
  | .constructed _ path => path.chars
  | .accepted _ path => path.chars

def Origin.addr : Origin → Option AddrInfo
  | .constructed memory path => (addrInfo memory path).toOption
  | .accepted memory path => some (waitNewClient memory (.pathname path))

def Origin.isConstructed : Origin → Bool
  | .constructed _ _ => true
  | .accepted _ _ => false

/-- `get_path` reads inside `sun_path`, and returns the path. -/
def Origin.GivesBack (origin : Origin) : Prop :=
  ∀ info, origin.addr = some info → info.getPath = some origin.path

theorem Origin.givesBack_iff (origin : Origin) :
    origin.GivesBack ↔ origin.isConstructed = true := by
  cases origin with
  | constructed memory path =>
      refine iff_of_true ?_ rfl
      intro info made
      change (addrInfo memory path).toOption = some info at made
      cases result : addrInfo memory path with
      | error what =>
          rw [result] at made
          cases made
      | ok built =>
          rw [result] at made
          cases made
          exact addrInfo_getPath result
  | accepted memory path =>
      refine iff_of_false ?_ Bool.false_ne_true
      intro givesBack
      have read := givesBack _ rfl
      rw [waitNewClient_getPath] at read
      by_cases short : path.chars.length ≤ 107
      · rw [if_pos short] at read
        have lengths := congrArg List.length (Option.some.inj read)
        rw [List.length_append] at lengths
        change path.chars.length + 1 = path.chars.length at lengths
        omega
      · rw [if_neg short] at read
        cases read

def zeroed : SunPath := ⟨List.replicate 108 0, List.length_replicate⟩

def shortPath : BoundPath := ⟨⟨[97], by decide⟩, List.cons_ne_nil _ _, by decide⟩

def fullPath : BoundPath where
  chars := List.replicate 108 97
  noNul := fun inside => absurd (List.eq_of_mem_replicate inside) (by decide)
  nonempty := List.cons_ne_nil _ _
  fits := List.length_replicate.le

theorem accepted_not_givenBack :
    (waitNewClient zeroed (.pathname shortPath)).getPath = some [97, 0] ∧
      (waitNewClient zeroed (.pathname fullPath)).getPath = none ∧
      ¬ (Origin.accepted zeroed shortPath).GivesBack := by
  have short := waitNewClient_getPath zeroed shortPath
  have full := waitNewClient_getPath zeroed fullPath
  have room : shortPath.chars.length ≤ 107 := by
    change 1 ≤ 107
    omega
  have noRoom : ¬ fullPath.chars.length ≤ 107 := by
    change ¬ (List.replicate 108 (97 : UInt8)).length ≤ 107
    rw [List.length_replicate]
    omega
  rw [if_pos room] at short
  rw [if_neg noRoom] at full
  refine ⟨short, full, ?_⟩
  intro givesBack
  have read := givesBack _ rfl
  rw [short] at read
  cases read

end Socketxx.UnixAddr
