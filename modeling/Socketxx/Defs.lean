import Socketxx.Library.FixedWidth

/-!
Byte order of a build: `XIF_SOCKETXX_ENDIANNESS`, the priority every build puts on
the wire, and the object representation of an integer in the host's memory.
-/

set_option autoImplicit false

namespace Socketxx

inductive Endianness where
  | bigEndian
  | littleEndian
deriving DecidableEq, Repr

/-- `XIF_SOCKETXX_ENDIANNESS_PRIORITY`. -/
def endiannessPriority : Endianness := .littleEndian

/-- `XIF_SOCKETXX_ENDIANNESS_SAME`, for a build whose own byte order is `host`. -/
def endiannessSame (host : Endianness) : Bool := endiannessPriority == host

/-- The bytes of an integer variable, from its lowest address. -/
def Endianness.toMemory (host : Endianness) {width : Nat}
    (num : BitVec (8 * width)) : List UInt8 :=
  match host with
  | .littleEndian => FixedWidth.bytesOf num
  | .bigEndian => (FixedWidth.bytesOf num).reverse

/-- The integer a host finds in a variable whose bytes were overwritten. -/
def Endianness.ofMemory (host : Endianness) (width : Nat) (bytes : List UInt8) :
    BitVec (8 * width) :=
  match host with
  | .littleEndian => FixedWidth.patternOf width bytes
  | .bigEndian => FixedWidth.patternOf width bytes.reverse

@[simp] theorem Endianness.toMemory_length (host : Endianness) {width : Nat}
    (num : BitVec (8 * width)) : (host.toMemory num).length = width := by
  cases host <;> simp [Endianness.toMemory]

theorem Endianness.ofMemory_toMemory (host : Endianness) {width : Nat}
    (num : BitVec (8 * width)) : host.ofMemory width (host.toMemory num) = num := by
  cases host with
  | littleEndian => exact FixedWidth.patternOf_bytesOf num
  | bigEndian =>
      simp only [Endianness.ofMemory, Endianness.toMemory, List.reverse_reverse]
      exact FixedWidth.patternOf_bytesOf num

end Socketxx
