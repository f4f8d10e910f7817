import Socketxx.Library.CString
import Socketxx.Defs

/-!
`base_netsock::addr_info`: addresses read from text of the form `(HOSTNAME|IPADDR)[:PORT]`
and written back.

`inet_pton` and the resolver belong to the system. The port is what stands behind the last
colon when the text ends in a digit, and is read by `atoi`, whatever else it holds.
-/

set_option autoImplicit false

namespace Socketxx.InetAddr

open CString

/-- An address as it lies in memory, in network order. -/
structure Octets where
  a : UInt8
  b : UInt8
  c : UInt8
  d : UInt8
deriving DecidableEq, Repr

def Octets.bytes (octets : Octets) : List UInt8 := [octets.a, octets.b, octets.c, octets.d]

/-- `inet_pton(AF_INET, ...)`, which takes dotted numbers only, and `gethostbyname`, whose
`none` is `NULL`. -/
structure Resolver where
  inetPton : List UInt8 → Option Octets
  inetPton_noColon : ∀ text octets, inetPton text = some octets → 58 ∉ text
  gethostbyname : List UInt8 → Option (List Octets)

structure SockaddrIn where
  sinAddr : BitVec (8 * 4)
  sinPort : BitVec (8 * 2)
deriving DecidableEq, Repr

inductive Error where
  | badAddr (what : String)
  | dnsResolve (failedHostname : List UInt8)
deriving DecidableEq, Repr

/-- An exception, or a character outside the string is read. -/
inductive Failure where
  | thrown (error : Error)
  | outOfRange
deriving DecidableEq, Repr

abbrev Parse (α : Type) := Except Failure α

def htons (host : Endianness) (port : BitVec (8 * 2)) : BitVec (8 * 2) :=
  host.ofMemory 2 (FixedWidth.bytesOf port).reverse

def ntohs (host : Endianness) (net : BitVec (8 * 2)) : BitVec (8 * 2) :=
  FixedWidth.patternOf 2 (host.toMemory net).reverse

/-- `str[index]`; a negative index is a `size_t` beyond every string. -/
def charAt (str : List UInt8) (index : Int) : Parse UInt8 :=
  if index < 0 ∨ str.length < index then .error .outOfRange
  else .ok (str.getD index.toNat 0)

def scanPort (addrStr : List UInt8) : Nat → Parse (Option Nat)
  | 0 => pure none
  | i + 1 => do
      let c ← charAt addrStr i
      if c = 58 then pure (some (i + 1)) else scanPort addrStr i

/-- Only a text that ends in a digit is searched. -/
def findPort (addrStr : List UInt8) (last : UInt8) : Parse (Option Nat) :=
  if isdigit last then scanPort addrStr (addrStr.length - 1) else pure none

def hostnameChar (c : UInt8) : Bool := isalnum c || c == 45 || c == 46

def resolveHostname (resolver : Resolver) (hostname : List UInt8) : Parse Octets :=
  match resolver.gethostbyname hostname with
  | none => .error (.thrown (.dnsResolve hostname))
  | some [] => .error (.thrown (.dnsResolve hostname))
  | some (ip :: _) => pure ip

/-- From the label `port_ok` on. -/
def portOk (host : Endianness) (resolver : Resolver) (addrStr : List UInt8)
    (sinPort : BitVec (8 * 2)) : Parse SockaddrIn :=
  if addrStr = [] then .error (.thrown (.badAddr "Bad addr : empty hostname"))
  else
    match resolver.inetPton (cStr addrStr) with
    | some ip => pure ⟨host.ofMemory 4 ip.bytes, sinPort⟩
    | none =>
        if addrStr.all hostnameChar then do
          let ip ← resolveHostname resolver (cStr addrStr)
          pure ⟨host.ofMemory 4 ip.bytes, sinPort⟩
        else .error (.thrown (.badAddr "Bad addr : bad hostname"))

/-- The port behind the colon the loop has found, or the default one. -/
def usePort (host : Endianness) (resolver : Resolver) (defaultPort : BitVec (8 * 2))
    (addrStr : List UInt8) : Option Nat → Parse SockaddrIn
  | none => portOk host resolver addrStr (htons host defaultPort)
  | some i =>
      let port := atoi (addrStr.drop i)
      if port < 0 ∨ 65535 < port then
        .error (.thrown (.badAddr "Bad addr : port number out of range"))
      else portOk host resolver (addrStr.take (i - 1)) (htons host (BitVec.ofInt (8 * 2) port))

def buildIpsockAddrFromStr (host : Endianness) (resolver : Resolver)
    (defaultPort : BitVec (8 * 2)) (addrStr : List UInt8) : Parse SockaddrIn := do
  let last ← charAt addrStr (addrStr.length - 1)
  let found ← findPort addrStr last
  usePort host resolver defaultPort addrStr found

def addrInfo (host : Endianness) (resolver : Resolver) (defaultPort : BitVec (8 * 2))
    (addrStr : List UInt8) : Parse SockaddrIn :=
  buildIpsockAddrFromStr host resolver defaultPort addrStr

def SockaddrIn.getIpAddr (addr : SockaddrIn) : BitVec (8 * 4) := addr.sinAddr

def SockaddrIn.getPort (host : Endianness) (addr : SockaddrIn) : BitVec (8 * 2) :=
  ntohs host addr.sinPort

/-- `addr2str`, which takes the octets as they lie in memory. -/
def addr2str (host : Endianness) (ixtoa : UInt8 → List UInt8) (addr : BitVec (8 * 4)) :
    List UInt8 :=
  let b := host.toMemory addr
  ixtoa (b.getD 0 0) ++ 46 :: (ixtoa (b.getD 1 0) ++ 46 ::
    (ixtoa (b.getD 2 0) ++ 46 :: ixtoa (b.getD 3 0)))

/-! ### Ports -/

theorem ntohs_htons (host : Endianness) (port : BitVec (8 * 2)) :
    ntohs host (htons host port) = port := by
  have size : (FixedWidth.bytesOf port).reverse.length = 2 := by
    rw [List.length_reverse, FixedWidth.bytesOf_length]
  cases host with
  | littleEndian =>
      rw [ntohs, htons]
      simp only [Endianness.toMemory, Endianness.ofMemory]
      rw [FixedWidth.bytesOf_patternOf _ size, List.reverse_reverse,
        FixedWidth.patternOf_bytesOf]
  | bigEndian =>
      rw [ntohs, htons]
      simp only [Endianness.toMemory, Endianness.ofMemory, List.reverse_reverse,
        FixedWidth.patternOf_bytesOf]

/-! ### Where the port is looked for -/

/-- The text is cut at its last colon, and ends in a digit. -/
structure PortAt (str front tail : List UInt8) : Prop where
  whole : str = front ++ 58 :: tail
  lastColon : 58 ∉ tail
  digit : ∃ c ∈ tail.getLast?, isdigit c = true

theorem charAt_of_lt {str : List UInt8} {index : Nat} (inside : index < str.length) :
    charAt str index = .ok str[index] := by
  rw [charAt, if_neg (by omega)]
  simp [inside]

private theorem scanPort_of_noColon {str : List UInt8} (noColon : 58 ∉ str) (i : Nat)
    (inside : i ≤ str.length) : scanPort str i = .ok none := by
  induction i with
  | zero => rfl
  | succ i ih =>
      have other : str[i] ≠ 58 := by
        intro colon
        rw [← colon] at noColon
        exact noColon (List.getElem_mem _)
      rw [scanPort, charAt_of_lt inside]
      change (if str[i] = 58 then _ else _) = _
      rw [if_neg other]
      exact ih (by omega)

private theorem scanPort_append (front : List UInt8) {tail : List UInt8} (lastColon : 58 ∉ tail)
    (k : Nat) (inside : k ≤ tail.length) :
    scanPort (front ++ 58 :: tail) (front.length + k + 1) = .ok (some (front.length + 1)) := by
  induction k with
  | zero =>
      rw [scanPort, charAt_of_lt (by simp)]
      simp only [List.getElem_append_right (Nat.le_refl _), Nat.sub_self,
        List.getElem_cons_zero]
      rfl
  | succ k ih =>
      have within : front.length + (k + 1) < (front ++ 58 :: tail).length := by
        simp
        omega
      have other : (front ++ 58 :: tail)[front.length + (k + 1)] ≠ 58 := by
        intro colon
        rw [List.getElem_append_right (by omega)] at colon
        simp only [Nat.add_sub_cancel_left, List.getElem_cons_succ] at colon
        rw [← colon] at lastColon
        exact lastColon (List.getElem_mem _)
      rw [scanPort, charAt_of_lt within]
      change (if (front ++ 58 :: tail)[front.length + (k + 1)] = 58 then _ else _) = _
      rw [if_neg other]
      exact ih (by omega)

private theorem exists_last_colon (str : List UInt8) :
    58 ∉ str ∨ ∃ front tail, str = front ++ 58 :: tail ∧ 58 ∉ tail := by
  induction str with
  | nil => exact Or.inl List.not_mem_nil
  | cons c later ih =>
      rcases ih with none | ⟨front, tail, rfl, lastColon⟩
      · by_cases colon : c = 58
        · rw [colon]
          exact Or.inr ⟨[], later, rfl, none⟩
        · left
          intro member
          rcases List.mem_cons.mp member with same | present
          · exact colon same.symm
          · exact none present
      · exact Or.inr ⟨c :: front, tail, rfl, lastColon⟩

private theorem charAt_last {str : List UInt8} (nonempty : str ≠ []) :
    charAt str (str.length - 1) = .ok (str.getLast nonempty) := by
  have positive := List.length_pos_iff.mpr nonempty
  have index : (str.length : Int) - 1 = (str.length - 1 : Nat) := by omega
  rw [index, charAt_of_lt (by omega), List.getLast_eq_getElem]

variable (host : Endianness) (resolver : Resolver) (defaultPort : BitVec (8 * 2))

theorem build_nil :
    buildIpsockAddrFromStr host resolver defaultPort [] = .error .outOfRange := rfl

theorem build_of_scan {str : List UInt8} (whole : str ≠ []) {found : Option Nat}
    (scanned : findPort str (str.getLast whole) = .ok found) :
    buildIpsockAddrFromStr host resolver defaultPort str =
      usePort host resolver defaultPort str found := by
  rw [buildIpsockAddrFromStr, charAt_last whole]
  simp only [bind, Except.bind, scanned]

theorem build_of_portAt {str front tail : List UInt8} (port : PortAt str front tail) :
    buildIpsockAddrFromStr host resolver defaultPort str =
      if atoi tail < 0 ∨ 65535 < atoi tail then
        .error (.thrown (.badAddr "Bad addr : port number out of range"))
      else portOk host resolver front (htons host (BitVec.ofInt (8 * 2) (atoi tail))) := by
  obtain ⟨c, last, digit⟩ := port.digit
  obtain ⟨nonempty, lastIs⟩ := List.mem_getLast?_eq_getLast last
  have whole : str ≠ [] := by
    rw [port.whole]
    exact List.append_ne_nil_of_right_ne_nil _ (List.cons_ne_nil _ _)
  have lastOf : str.getLast whole = c := by
    simp only [port.whole, List.getLast_append_of_ne_nil _ (List.cons_ne_nil 58 tail),
      List.getLast_cons nonempty, lastIs]
  have positive := List.length_pos_iff.mpr nonempty
  have start : str.length - 1 = front.length + (tail.length - 1) + 1 := by
    rw [port.whole, List.length_append, List.length_cons]
    omega
  have found := scanPort_append front port.lastColon (tail.length - 1) (Nat.sub_le _ _)
  rw [← port.whole, ← start] at found
  rw [build_of_scan host resolver defaultPort whole (by rw [lastOf, findPort, if_pos digit, found]),
    usePort, port.whole]
  simp

theorem build_of_plain {str : List UInt8} (whole : str ≠ [])
    (plain : ∀ front tail, ¬ PortAt str front tail) :
    buildIpsockAddrFromStr host resolver defaultPort str =
      portOk host resolver str (htons host defaultPort) := by
  by_cases digit : isdigit (str.getLast whole) = true
  · have noColon : 58 ∉ str := by
      rcases exists_last_colon str with none | ⟨front, tail, split, lastColon⟩
      · exact none
      · exfalso
        have nonempty : tail ≠ [] := by
          intro empty
          subst empty
          simp only [split, List.getLast_concat] at digit
          revert digit
          decide
        refine plain front tail ⟨split, lastColon, str.getLast whole, ?_, digit⟩
        simp only [split, List.getLast_append_of_ne_nil _ (List.cons_ne_nil 58 tail),
          List.getLast_cons nonempty]
        exact List.getLast?_eq_getLast_of_ne_nil nonempty
    exact build_of_scan host resolver defaultPort whole
      (by rw [findPort, if_pos digit, scanPort_of_noColon noColon _ (Nat.sub_le _ _)])
  · exact build_of_scan host resolver defaultPort whole (by rw [findPort, if_neg digit]; rfl)

end Socketxx.InetAddr
