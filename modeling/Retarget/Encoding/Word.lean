import Retarget.Fault

/-!
# Numbers of a given width

The low bits of an integer, read as a natural or as a signed number, the bytes of a number, lowest
first, and the fields of an instruction word. Shifts and masks are division by a power of two and
its remainder.
-/

namespace Retarget.Enc

def span (width : Nat) : Nat := 1 <<< width

theorem span_pos (width : Nat) : 0 < span width := by
  rw [span, Nat.shiftLeft_eq, Nat.one_mul]
  exact Nat.two_pow_pos width

def lowBits (n : Int) (width : Nat) : Int := n % span width
def dropBits (n : Int) (width : Nat) : Int := n / span width

def signedOf (n : Int) (width : Nat) : Int :=
  let low := lowBits n width
  if span (width - 1) ≤ low then low - span width else low

def bitCount (n : Nat) : Nat := (List.range (n.log2 + 1)).countP n.testBit

def leBytes : Nat → Int → List UInt8
  | 0, _ => []
  | count + 1, n => UInt8.ofNat (n % 256).toNat :: leBytes count (n / 256)

def ofLeBytes : List UInt8 → Nat
  | [] => 0
  | b :: bs => b.toNat + 256 * ofLeBytes bs

/-! ## Bit fields of instruction words

An operand is spread over one or more ranges of bits, the most significant one first. -/

structure BitRange where
  width : Nat
  pos : Nat

namespace BitRange
variable (r : BitRange)

def get (w : Nat) : Nat := (w >>> r.pos) % span r.width
def put (v : Int) : Nat := (lowBits v r.width).toNat <<< r.pos
def mask : Nat := (span r.width - 1) <<< r.pos
theorem get_lt (w : Nat) : r.get w < span r.width := Nat.mod_lt _ (span_pos _)

end BitRange

variable (rs : List BitRange)

def totalWidth : Nat := (rs.map BitRange.width).foldl (· + ·) 0
def extract (w : Nat) : Nat := rs.foldl (fun v r => v <<< r.width ||| r.get w) 0

def insertLow : List BitRange → Int → Nat
  | [], _ => 0
  | r :: rs, v => r.put v ||| insertLow rs (dropBits v r.width)

def insert (v : Int) : Nat := insertLow rs.reverse v

/-- A value at a position, and which bits there are fixed. -/
structure FixedBits where
  mask : Nat
  value : Nat
  pos : Nat

structure Pat where
  mask : Nat
  value : Nat

def Pat.ofBits (bs : List FixedBits) : Pat where
  mask := bs.foldl (fun m b => m ||| b.mask <<< b.pos) 0
  value := bs.foldl (fun v b => v ||| b.value <<< b.pos) 0

def Pat.fits (p : Pat) (w : Nat) : Bool := w &&& p.mask == p.value

end Retarget.Enc

namespace Retarget

export Enc (span span_pos lowBits dropBits signedOf bitCount leBytes ofLeBytes totalWidth)

end Retarget

/-!
## Numbers in groups of seven bits

A number of any size is written in bytes of seven bits each, lowest first; all but the last have the
top bit set. The last byte of a signed number tells the sign, in its bit of value 64.
-/

namespace Retarget.Enc.Leb128

def writeU (n : Nat) : List UInt8 :=
  if n < 128 then [UInt8.ofNat n]
  else UInt8.ofNat (128 + n % 128) :: writeU (n / 128)
termination_by n
decreasing_by omega

def writeS (n : Int) : List UInt8 :=
  if -64 ≤ n ∧ n < 64 then [UInt8.ofNat (n % 128).toNat]
  else UInt8.ofNat (128 + (n % 128).toNat) :: writeS (n / 128)
termination_by n.natAbs
decreasing_by omega

def readU : List UInt8 → Res (Nat × List UInt8)
  | [] => .error .wrongSort
  | b :: r =>
    if b < 128 then .ok (b.toNat, r)
    else (readU r).map fun (n, rest) => (b.toNat % 128 + 128 * n, rest)

def readSigned : List UInt8 → Res (Int × List UInt8)
  | [] => .error .wrongSort
  | b :: r =>
    if b < 64 then .ok (b.toNat, r)
    else if b < 128 then .ok ((b.toNat : Int) - 128, r)
    else (readSigned r).map fun (n, rest) => ((b.toNat % 128 : Nat) + 128 * n, rest)

end Retarget.Enc.Leb128
