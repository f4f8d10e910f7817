import Socketxx.InetAddr

/-!
What `addr_info(default_port, str)` accepts, against the form `(HOSTNAME|IPADDR)[:PORT]`
its comment gives, and addresses that go through `addr2str` and back.
-/

set_option autoImplicit false

namespace Socketxx.InetAddr

open CString

/-- The documented `HOSTNAME|IPADDR`. -/
def Resolver.Names (resolver : Resolver) (h : List UInt8) (ip : Octets) : Prop :=
  h ≠ [] ∧ ((0 ∉ h ∧ resolver.inetPton h = some ip) ∨
    (resolver.inetPton h = none ∧ h.all hostnameChar = true ∧
      (resolver.gethostbyname h).bind List.head? = some ip))

structure IsPort (p : List UInt8) (port : Nat) : Prop where
  nonempty : p ≠ []
  digits : ∀ c ∈ p, isdigit c = true
  number : value p = port
  inRange : port ≤ 65535

/-- The documented form, with the address and the port it stands for. -/
def Resolver.Reads (resolver : Resolver) (defaultPort : BitVec (8 * 2)) (str : List UInt8)
    (ip : Octets) (port : BitVec (8 * 2)) : Prop :=
  (resolver.Names str ip ∧ port = defaultPort) ∨
    ∃ h p, str = h ++ 58 :: p ∧ resolver.Names h ip ∧ IsPort p port.toNat

/-- Nothing outside the string is read, a text of the documented form gives the address
and port it stands for, and every other text an exception. -/
structure AcceptsExactly (host : Endianness) (resolver : Resolver)
    (defaultPort : BitVec (8 * 2)) (str : List UInt8) : Prop where
  inside : addrInfo host resolver defaultPort str ≠ .error .outOfRange
  accepted : ∀ ip port, resolver.Reads defaultPort str ip port →
    ∃ info, addrInfo host resolver defaultPort str = .ok info ∧
      info.getIpAddr = host.ofMemory 4 ip.bytes ∧ info.getPort host = port
  rejected : (∀ ip port, ¬ resolver.Reads defaultPort str ip port) →
    ∃ error, addrInfo host resolver defaultPort str = .error (.thrown error)

/-- The host the code finds for a text: `inet_pton` sees what is in front of a `NUL`. -/
def Resolver.find (resolver : Resolver) (h : List UInt8) : Option Octets :=
  if h = [] then none
  else
    match resolver.inetPton (cStr h) with
    | some ip => some ip
    | none =>
        if h.all hostnameChar then (resolver.gethostbyname (cStr h)).bind List.head? else none

/-- The string is not empty, what is taken for a port is one where a host stands in front
of it and `atoi` finds a number in range, and no host has a `NUL` behind an address. -/
structure Careful (resolver : Resolver) (str : List UInt8) : Prop where
  nonempty : str ≠ []
  port : ∀ front tail, PortAt str front tail → resolver.find front ≠ none →
    0 ≤ atoi tail → atoi tail ≤ 65535 → 0 ∉ front ∧ IsPort tail (value tail)
  plain : (∀ front tail, ¬ PortAt str front tail) → resolver.find str ≠ none → 0 ∉ str

/-! ### Hosts -/

private theorem hostnameChar_zero : hostnameChar 0 = false := rfl

private theorem hostnameChar_colon : hostnameChar 58 = false := rfl

theorem not_mem_of_all {h : List UInt8} {c : UInt8} (chars : h.all hostnameChar = true)
    (other : hostnameChar c = false) : c ∉ h := by
  intro member
  have holds := List.all_eq_true.mp chars c member
  rw [other] at holds
  cases holds

theorem Resolver.Names.noNul {resolver : Resolver} {h : List UInt8} {ip : Octets}
    (names : resolver.Names h ip) : 0 ∉ h := by
  rcases names.2 with ⟨noNul, _accepted⟩ | ⟨_refused, chars, _resolved⟩
  · exact noNul
  · exact not_mem_of_all chars hostnameChar_zero

private theorem Resolver.Names.noColon {resolver : Resolver} {h : List UInt8} {ip : Octets}
    (names : resolver.Names h ip) : 58 ∉ h := by
  rcases names.2 with ⟨_noNul, accepted⟩ | ⟨_refused, chars, _resolved⟩
  · exact resolver.inetPton_noColon h ip accepted
  · exact not_mem_of_all chars hostnameChar_colon

theorem Resolver.find_eq_some_iff {resolver : Resolver} {h : List UInt8} (noNul : 0 ∉ h)
    (ip : Octets) : resolver.find h = some ip ↔ resolver.Names h ip := by
  unfold find Names
  rw [cStr_of_noNul noNul]
  by_cases empty : h = []
  · simp [empty]
  · rw [if_neg empty]
    cases pton : resolver.inetPton h with
    | some other => simp [empty, noNul]
    | none =>
        by_cases chars : h.all hostnameChar = true
        · simp [empty, chars]
        · simp [empty, chars]

variable (host : Endianness) (resolver : Resolver) (defaultPort : BitVec (8 * 2))

theorem portOk_of_find {h : List UInt8} {ip : Octets} (sinPort : BitVec (8 * 2))
    (found : resolver.find h = some ip) :
    portOk host resolver h sinPort = .ok ⟨host.ofMemory 4 ip.bytes, sinPort⟩ := by
  unfold Resolver.find at found
  unfold portOk
  by_cases empty : h = []
  · rw [if_pos empty] at found
    cases found
  · rw [if_neg empty] at found ⊢
    cases pton : resolver.inetPton (cStr h) with
    | some other =>
        rw [pton] at found
        cases found
        rfl
    | none =>
        rw [pton] at found
        simp only at found ⊢
        by_cases chars : h.all hostnameChar = true
        · rw [if_pos chars] at found ⊢
          obtain ⟨list, resolved, first⟩ := Option.bind_eq_some_iff.mp found
          obtain ⟨later, rfl⟩ := List.head?_eq_some_iff.mp first
          rw [resolveHostname, resolved]
          rfl
        · rw [if_neg chars] at found
          cases found

theorem portOk_of_find_none {h : List UInt8} (sinPort : BitVec (8 * 2))
    (missing : resolver.find h = none) :
    ∃ error, portOk host resolver h sinPort = .error (.thrown error) := by
  unfold Resolver.find at missing
  unfold portOk
  by_cases empty : h = []
  · rw [if_pos empty]
    exact ⟨_, rfl⟩
  · rw [if_neg empty] at missing ⊢
    cases pton : resolver.inetPton (cStr h) with
    | some other =>
        rw [pton] at missing
        cases missing
    | none =>
        rw [pton] at missing
        simp only at missing ⊢
        by_cases chars : h.all hostnameChar = true
        · rw [if_pos chars] at missing ⊢
          rw [resolveHostname]
          cases resolved : resolver.gethostbyname (cStr h) with
          | none => exact ⟨_, rfl⟩
          | some list =>
              cases list with
              | nil => exact ⟨_, rfl⟩
              | cons ip later =>
                  rw [resolved] at missing
                  cases missing
        · rw [if_neg chars]
          exact ⟨_, rfl⟩

/-! ### Which texts are read -/

private theorem lastColon_unique {front tail front' tail' : List UInt8}
    (same : front ++ 58 :: tail = front' ++ 58 :: tail') (last : 58 ∉ tail)
    (last' : 58 ∉ tail') : front = front' ∧ tail = tail' := by
  rcases List.append_eq_append_iff.mp same with ⟨more, rfl, split⟩ | ⟨more, rfl, split⟩
  · cases more with
    | nil =>
        rw [List.nil_append] at split
        exact ⟨(List.append_nil _).symm, (List.cons.inj split).2⟩
    | cons c later =>
        rw [List.cons_append] at split
        rw [(List.cons.inj split).2] at last
        simp at last
  · cases more with
    | nil =>
        rw [List.nil_append] at split
        exact ⟨List.append_nil _, (List.cons.inj split).2.symm⟩
    | cons c later =>
        rw [List.cons_append] at split
        rw [(List.cons.inj split).2] at last'
        simp at last'

theorem IsPort.noColon {p : List UInt8} {port : Nat} (isPort : IsPort p port) : 58 ∉ p := by
  intro member
  have digit := isPort.digits 58 member
  revert digit
  decide

private theorem IsPort.portAt {h p : List UInt8} {port : Nat} (isPort : IsPort p port) :
    PortAt (h ++ 58 :: p) h p := by
  constructor
  case whole => rfl
  case lastColon => exact isPort.noColon
  case digit =>
    have last := List.getLast_mem_getLast? isPort.nonempty
    exact ⟨_, last, isPort.digits _ (List.mem_of_mem_getLast? last)⟩

private theorem IsPort.atoi {p : List UInt8} {port : Nat} (isPort : IsPort p port) :
    CString.atoi p = port := by
  have small := isPort.inRange
  have number := isPort.number
  rw [atoi_of_isdigit isPort.digits (by omega), number]

private theorem PortAt.mem {str front tail : List UInt8} (port : PortAt str front tail) :
    58 ∈ str := by
  rw [port.whole]
  exact List.mem_append_right front List.mem_cons_self

theorem Resolver.Reads.of_portAt {resolver : Resolver} {defaultPort port : BitVec (8 * 2)}
    {str front tail : List UInt8} {ip : Octets} (at_ : PortAt str front tail)
    (reads : resolver.Reads defaultPort str ip port) :
    resolver.Names front ip ∧ IsPort tail port.toNat := by
  rcases reads with ⟨names, _same⟩ | ⟨h, p, split, names, isPort⟩
  · exact absurd at_.mem names.noColon
  · obtain ⟨rfl, rfl⟩ := lastColon_unique (at_.whole.symm.trans split) at_.lastColon
      isPort.noColon
    exact ⟨names, isPort⟩

theorem Resolver.Reads.of_plain {resolver : Resolver} {defaultPort port : BitVec (8 * 2)}
    {str : List UInt8} {ip : Octets} (plain : ∀ front tail, ¬ PortAt str front tail)
    (reads : resolver.Reads defaultPort str ip port) :
    resolver.Names str ip ∧ port = defaultPort := by
  rcases reads with named | ⟨h, p, rfl, _names, isPort⟩
  · exact named
  · exact absurd isPort.portAt (plain h p)

theorem addrInfo_of_portAt {str front tail : List UInt8} (at_ : PortAt str front tail) :
    (∃ ip, resolver.find front = some ip ∧ 0 ≤ atoi tail ∧ atoi tail ≤ 65535 ∧
      addrInfo host resolver defaultPort str = .ok
        ⟨host.ofMemory 4 ip.bytes, htons host (BitVec.ofInt (8 * 2) (atoi tail))⟩) ∨
    ((resolver.find front = none ∨ atoi tail < 0 ∨ 65535 < atoi tail) ∧
      ∃ error, addrInfo host resolver defaultPort str = .error (.thrown error)) := by
  rw [addrInfo, build_of_portAt host resolver defaultPort at_]
  by_cases range : atoi tail < 0 ∨ 65535 < atoi tail
  · rw [if_pos range]
    exact Or.inr ⟨Or.inr range, _, rfl⟩
  · rw [if_neg range]
    have bounds := not_or.mp range
    cases found : resolver.find front with
    | some ip =>
        left
        exact ⟨ip, rfl, by omega, by omega, portOk_of_find host resolver _ found⟩
    | none =>
        right
        exact ⟨Or.inl rfl, portOk_of_find_none host resolver _ found⟩

theorem addrInfo_of_plain {str : List UInt8} (whole : str ≠ [])
    (plain : ∀ front tail, ¬ PortAt str front tail) :
    (∃ ip, resolver.find str = some ip ∧ addrInfo host resolver defaultPort str = .ok
        ⟨host.ofMemory 4 ip.bytes, htons host defaultPort⟩) ∨
    (resolver.find str = none ∧
      ∃ error, addrInfo host resolver defaultPort str = .error (.thrown error)) := by
  rw [addrInfo, build_of_plain host resolver defaultPort whole plain]
  cases found : resolver.find str with
  | some ip => exact Or.inl ⟨ip, rfl, portOk_of_find host resolver _ found⟩
  | none => exact Or.inr ⟨rfl, portOk_of_find_none host resolver _ found⟩

private theorem addrInfo_inside {str : List UInt8} (whole : str ≠ []) :
    addrInfo host resolver defaultPort str ≠ .error .outOfRange := by
  by_cases some : ∃ front tail, PortAt str front tail
  · obtain ⟨front, tail, at_⟩ := some
    rcases addrInfo_of_portAt host resolver defaultPort at_ with ⟨ip, _, _, _, read⟩ |
      ⟨_, error, read⟩
    · simp [read]
    · simp [read]
  · have plain : ∀ front tail, ¬ PortAt str front tail :=
      fun front tail at_ => some ⟨front, tail, at_⟩
    rcases addrInfo_of_plain host resolver defaultPort whole plain with ⟨ip, _, read⟩ |
      ⟨_, error, read⟩
    · simp [read]
    · simp [read]

theorem addrInfo_of_reads {str : List UInt8} {ip : Octets} {port : BitVec (8 * 2)}
    (reads : resolver.Reads defaultPort str ip port) :
    ∃ info, addrInfo host resolver defaultPort str = .ok info ∧
      info.getIpAddr = host.ofMemory 4 ip.bytes ∧ info.getPort host = port := by
  by_cases some : ∃ front tail, PortAt str front tail
  · obtain ⟨front, tail, at_⟩ := some
    obtain ⟨names, isPort⟩ := reads.of_portAt at_
    have found := (Resolver.find_eq_some_iff names.noNul ip).mpr names
    have number := isPort.atoi
    have range := isPort.inRange
    rcases addrInfo_of_portAt host resolver defaultPort at_ with ⟨other, foundOther, _, _, read⟩ |
      ⟨refused, _⟩
    · rw [found] at foundOther
      cases foundOther
      refine ⟨_, read, rfl, ?_⟩
      rw [SockaddrIn.getPort, ntohs_htons, number]
      simp
    · rw [found] at refused
      rcases refused with impossible | outside
      · cases impossible
      · omega
  · have plain : ∀ front tail, ¬ PortAt str front tail :=
      fun front tail at_ => some ⟨front, tail, at_⟩
    obtain ⟨names, rfl⟩ := reads.of_plain plain
    have found := (Resolver.find_eq_some_iff names.noNul ip).mpr names
    rcases addrInfo_of_plain host resolver port names.1 plain with ⟨other, foundOther, read⟩ |
      ⟨missing, _⟩
    · rw [found] at foundOther
      cases foundOther
      exact ⟨_, read, rfl, ntohs_htons host port⟩
    · rw [found] at missing
      cases missing

private theorem Careful.reads {resolver : Resolver} {str : List UInt8}
    (careful : Careful resolver str)
    (undocumented : ∀ ip port, ¬ resolver.Reads defaultPort str ip port) :
    ∃ error, addrInfo host resolver defaultPort str = .error (.thrown error) := by
  by_cases some : ∃ front tail, PortAt str front tail
  · obtain ⟨front, tail, at_⟩ := some
    rcases addrInfo_of_portAt host resolver defaultPort at_ with ⟨ip, found, low, high, _⟩ |
      ⟨_, thrown⟩
    · obtain ⟨noNul, isPort⟩ := careful.port front tail at_ (by rw [found]; simp) low high
      have names := (Resolver.find_eq_some_iff noNul ip).mp found
      have fits : (BitVec.ofNat (8 * 2) (value tail)).toNat = value tail := by
        have range := isPort.inRange
        rw [BitVec.toNat_ofNat]
        omega
      exact absurd (Or.inr ⟨front, tail, at_.whole, names, by rwa [fits]⟩)
        (undocumented ip (BitVec.ofNat (8 * 2) (value tail)))
    · exact thrown
  · have plain : ∀ front tail, ¬ PortAt str front tail :=
      fun front tail at_ => some ⟨front, tail, at_⟩
    rcases addrInfo_of_plain host resolver defaultPort careful.nonempty plain with
      ⟨ip, found, _⟩ | ⟨_, thrown⟩
    · have noNul := careful.plain plain (by rw [found]; simp)
      have names := (Resolver.find_eq_some_iff noNul ip).mp found
      exact absurd (Or.inl ⟨names, rfl⟩) (undocumented ip defaultPort)
    · exact thrown

theorem AcceptsExactly.careful {host : Endianness} {resolver : Resolver}
    {defaultPort : BitVec (8 * 2)} {str : List UInt8}
    (exactly : AcceptsExactly host resolver defaultPort str) : Careful resolver str := by
  have documented : ∀ info, addrInfo host resolver defaultPort str = .ok info →
      ∃ ip port, resolver.Reads defaultPort str ip port := by
    intro info read
    by_contra undocumented
    push Not at undocumented
    obtain ⟨error, thrown⟩ := exactly.rejected undocumented
    rw [read] at thrown
    cases thrown
  have whole : str ≠ [] := by
    intro empty
    subst empty
    exact exactly.inside (build_nil host resolver defaultPort)
  constructor
  case nonempty => exact whole
  case port =>
    intro front tail at_ found low high
    rcases addrInfo_of_portAt host resolver defaultPort at_ with ⟨ip, _, _, _, read⟩ |
      ⟨refused, _⟩
    · obtain ⟨other, port, reads⟩ := documented _ read
      obtain ⟨names, isPort⟩ := reads.of_portAt at_
      exact ⟨names.noNul, by rwa [isPort.number]⟩
    · rcases refused with missing | outside
      · exact absurd missing found
      · omega
  case plain =>
    intro plain found
    rcases addrInfo_of_plain host resolver defaultPort whole plain with ⟨ip, _, read⟩ |
      ⟨missing, _⟩
    · obtain ⟨other, port, reads⟩ := documented _ read
      exact (reads.of_plain plain).1.noNul
    · exact absurd missing found

/-- Exactly when the parser does with a string what its comment says. -/
theorem addrInfo_acceptsExactly_iff (str : List UInt8) :
    AcceptsExactly host resolver defaultPort str ↔ Careful resolver str := by
  constructor
  · intro exactly
    exact exactly.careful
  · intro careful
    constructor
    case inside => exact addrInfo_inside host resolver defaultPort careful.nonempty
    case accepted =>
      intro ip port reads
      exact addrInfo_of_reads host resolver defaultPort reads
    case rejected => exact careful.reads host defaultPort

def localResolver : Resolver where
  inetPton := fun _ => none
  inetPton_noColon := by
    intro text octets accepted
    cases accepted
  gethostbyname := fun _ => some [⟨127, 0, 0, 1⟩]

/-- `"a:1b2"` is read as the host `a` with the port 1. -/
theorem addrInfo_junkPort :
    ¬ AcceptsExactly .littleEndian localResolver (BitVec.ofNat (8 * 2) 80)
      [97, 58, 49, 98, 50] := by
  intro exactly
  have at_ : PortAt [97, 58, 49, 98, 50] [97] [49, 98, 50] :=
    ⟨rfl, by decide, 50, rfl, rfl⟩
  have port := exactly.careful.port [97] [49, 98, 50] at_ (by decide) (by decide) (by decide)
  have digit := port.2.digits 98 (by decide)
  revert digit
  decide

/-! ### Through text and back -/

def dotted (octets : Octets) : List UInt8 :=
  decimal octets.a.toNat ++ 46 :: (decimal octets.b.toNat ++ 46 ::
    (decimal octets.c.toNat ++ 46 :: decimal octets.d.toNat))

theorem mem_dotted {octets : Octets} {c : UInt8} (member : c ∈ dotted octets) :
    c = 46 ∨ isdigit c = true := by
  simp only [dotted, List.mem_append, List.mem_cons] at member
  rcases member with digit | point | digit | point | digit | point | digit
  · exact Or.inr (isdigit_decimal _ c digit)
  · exact Or.inl point
  · exact Or.inr (isdigit_decimal _ c digit)
  · exact Or.inl point
  · exact Or.inr (isdigit_decimal _ c digit)
  · exact Or.inl point
  · exact Or.inr (isdigit_decimal _ c digit)

private theorem dotted_noNul (octets : Octets) : 0 ∉ dotted octets := by
  intro member
  have holds := mem_dotted member
  revert holds
  decide

private theorem dotted_ne_nil (octets : Octets) : dotted octets ≠ [] :=
  List.append_ne_nil_of_right_ne_nil _ (List.cons_ne_nil _ _)

private theorem addr2str_eq_dotted {ixtoa : UInt8 → List UInt8}
    (unpadded : ∀ b, ixtoa b = decimal b.toNat) (ip : BitVec (8 * 4)) :
    ∃ octets : Octets, addr2str host ixtoa ip = dotted octets ∧
      host.ofMemory 4 octets.bytes = ip := by
  have inverse := host.ofMemory_toMemory ip
  have size := host.toMemory_length ip
  rw [addr2str]
  generalize host.toMemory ip = memory at *
  match memory, size with
  | [a, b, c, d], _ =>
      refine ⟨⟨a, b, c, d⟩, ?_, inverse⟩
      simp [unpadded, dotted]

private theorem isPort_decimal (p : BitVec (8 * 2)) : IsPort (decimal p.toNat) p.toNat := by
  constructor
  case nonempty => exact decimal_ne_nil p.toNat
  case digits => exact isdigit_decimal p.toNat
  case number => exact value_decimal p.toNat
  case inRange => exact Nat.le_of_lt_succ p.isLt

/-- An address goes through text with its port, and alone with the default port. -/
theorem addrInfo_addr2str (ixtoa : UInt8 → List UInt8)
    (unpadded : ∀ b, ixtoa b = decimal b.toNat)
    (inverts : ∀ octets, resolver.inetPton (dotted octets) = some octets)
    (ip : BitVec (8 * 4)) (p q : BitVec (8 * 2)) :
    (∃ info, addrInfo host resolver q (addr2str host ixtoa ip ++ 58 :: decimal p.toNat) =
        .ok info ∧ info.getIpAddr = ip ∧ info.getPort host = p) ∧
      ∃ info, addrInfo host resolver q (addr2str host ixtoa ip) = .ok info ∧
        info.getIpAddr = ip ∧ info.getPort host = q := by
  obtain ⟨octets, text, rfl⟩ := addr2str_eq_dotted host unpadded ip
  have names : resolver.Names (dotted octets) octets :=
    ⟨dotted_ne_nil octets, Or.inl ⟨dotted_noNul octets, inverts octets⟩⟩
  rw [text]
  constructor
  · exact addrInfo_of_reads host resolver q
      (Or.inr ⟨dotted octets, decimal p.toNat, rfl, names, isPort_decimal p⟩)
  · exact addrInfo_of_reads host resolver q (Or.inl ⟨names, rfl⟩)

def octetOf (field : List UInt8) : Option UInt8 :=
  if field ≠ [] ∧ value field ≤ 255 then some (UInt8.ofNat (value field)) else none

def dottedPton (text : List UInt8) : Option Octets :=
  if text.all (fun c => c == 46 || isdigit c) then
    match (text.splitOn 46).map octetOf with
    | [some a, some b, some c, some d] => some ⟨a, b, c, d⟩
    | _ => none
  else none

private theorem octetOf_decimal (b : UInt8) : octetOf (decimal b.toNat) = some b := by
  have small : b.toNat ≤ 255 := Nat.le_of_lt_succ b.toNat_lt
  rw [octetOf, if_pos, value_decimal, UInt8.ofNat_toNat]
  exact ⟨decimal_ne_nil _, by rwa [value_decimal]⟩

private theorem dottedPton_dotted (octets : Octets) : dottedPton (dotted octets) = some octets := by
  have chars : (dotted octets).all (fun c => c == 46 || isdigit c) = true := by
    apply List.all_eq_true.mpr
    intro c member
    rcases mem_dotted member with point | digit
    · simp [point]
    · simp [digit]
  have pointless : ∀ number, (46 : UInt8) ∉ decimal number := by
    intro number member
    have digit := isdigit_decimal number 46 member
    revert digit
    decide
  have fields : dotted octets = [46].intercalate [decimal octets.a.toNat,
      decimal octets.b.toNat, decimal octets.c.toNat, decimal octets.d.toNat] := by
    simp [dotted, List.intercalate, List.intersperse]
  have split : (dotted octets).splitOn 46 = [decimal octets.a.toNat,
      decimal octets.b.toNat, decimal octets.c.toNat, decimal octets.d.toNat] := by
    rw [fields]
    exact List.splitOn_intercalate 46 (by simp [pointless]) (List.cons_ne_nil _ _)
  rw [dottedPton, if_pos chars, split]
  simp [octetOf_decimal]

def dottedResolver : Resolver where
  inetPton := dottedPton
  inetPton_noColon := by
    intro text octets accepted member
    rw [dottedPton, if_neg] at accepted
    · cases accepted
    · intro chars
      have colon := List.all_eq_true.mp chars 58 member
      revert colon
      decide
  gethostbyname := fun _ => none

theorem addrInfo_addr2str_ten :
    (∃ info, addrInfo .littleEndian dottedResolver (BitVec.ofNat (8 * 2) 21)
        (addr2str .littleEndian (fun b => decimal b.toNat) 0xff00000a#32 ++
          58 :: decimal (BitVec.ofNat (8 * 2) 80).toNat) = .ok info ∧
      info.getIpAddr = 0xff00000a#32 ∧
      info.getPort .littleEndian = BitVec.ofNat (8 * 2) 80) ∧
      ∃ info, addrInfo .littleEndian dottedResolver (BitVec.ofNat (8 * 2) 21)
          (addr2str .littleEndian (fun b => decimal b.toNat) 0xff00000a#32) = .ok info ∧
        info.getIpAddr = 0xff00000a#32 ∧
        info.getPort .littleEndian = BitVec.ofNat (8 * 2) 21 :=
  addrInfo_addr2str .littleEndian dottedResolver (fun b => decimal b.toNat) (fun _ => rfl)
    dottedPton_dotted 0xff00000a#32 (BitVec.ofNat (8 * 2) 80) (BitVec.ofNat (8 * 2) 21)

end Socketxx.InetAddr
