import Retarget.Assembly.Unit
import Retarget.Decimal.Double

/-!
# A64 instructions

A `Field` says which bits of the instruction word an operand takes and how they are read. Values
are 64 bit words; signed operands are in two's complement, floats are their bits.
-/

namespace Retarget.A64

/-! ## Immediates

Logical immediates are a rotated run of ones, repeated. -/

def rotateRight (x size amount : Nat) : Nat :=
  (x >>> amount) ||| ((x % span amount) <<< (size - amount))

/-- The binary logarithm of the size of the pattern that the length field `s` of a logical immediate
announces: the place of its first zero bit below bit `k`. -/
def patLog (s : Nat) : Nat → Nat
  | 0 => 0
  | k + 1 => if s.testBit k then patLog s k else k

/-- Double a pattern of `size` bits so many times. -/
def spread (pattern size : Nat) : Nat → Nat
  | 0 => pattern
  | n + 1 => spread (pattern ||| pattern <<< size) (size * 2) n

inductive LogicalFault where
  /-- The pattern would consist of ones only, or is too small. -/
  | badPat
  /-- The rotation is larger than the word. -/
  | badRotation

/-- The value of a logical immediate of 13 bits for a register of `2 ^ k` bits. -/
def decodeLogical (k code : Nat) : Except LogicalFault Nat :=
  let r := code / 64 % 64
  let s := code % 64
  let j := if code / 4096 = 1 then 6 else patLog s 6
  let ones := s % span j + 1
  if code / 4096 ≠ 1 && ones = span j then .error .badPat
  else if span k < r then .error .badRotation
  else .ok (rotateRight (spread (span ones - 1) (span j) (k - j)) (span k) r)

/-- The smallest pattern that `x` repeats in `2 ^ k` bits, if it has more than one bit. -/
def smallestPat (x : Nat) : Nat → Option (Nat × Nat)
  | 0 => none
  | k + 1 =>
    let low := x % span (span k)
    if low = x >>> span k then smallestPat low k else some (k + 1, x)

/-- The code of a value as a logical immediate for a register of `2 ^ k` bits. -/
def encodeLogical? (k x : Nat) : Option Nat :=
  (smallestPat x k).bind fun (j, y) =>
    let ones := bitCount y
    let rotation := (List.range (span j)).find? fun r => y == rotateRight (span ones - 1) (span j) r
    rotation.map fun r =>
      (if j = 6 then 1 else 0) <<< 12 ||| (r <<< 6 ||| (64 - 2 * span j ||| (ones - 1)))

def decodeShifted (width code : Nat) : Nat := (code % span width) <<< (width * (code >>> width))

/-- The code with the fewest of at most `n` shifts, after `i` shifts. -/
def encodeShiftedFrom (width : Nat) : Nat → Nat → Nat → Option Nat
  | 0, _, _ => none
  | n + 1, i, x =>
    if x < span width then some (x ||| (i <<< width))
    else if x % span width ≠ 0 then none
    else encodeShiftedFrom width n (i + 1) (x >>> width)

def encodeShifted? (width n x : Nat) : Option Nat := encodeShiftedFrom width n 0 x

def decodeFloat8 (code : Nat) : Nat :=
  let exponent := (code >>> 4) % 8 ^^^ 4
  ((code >>> 7) <<< 63) ||| ((exponent + 1020) <<< 52) ||| ((code % 16) <<< 48)

def encodeFloat8? (bits : Nat) : Option Nat :=
  let mantissa := bits % span 52
  let exponent := (bits >>> 52) % span 11
  if 1020 ≤ exponent && exponent ≤ 1027 && mantissa % span 48 = 0 then
    some (((bits >>> 63) <<< 7) ||| (((exponent - 1020) ^^^ 4) <<< 4) ||| (mantissa >>> 48))
  else none

def decodeByteMask (code : Nat) : Nat :=
  ((List.range 8).map fun i => if code.testBit i then 0xff <<< (8 * i) else 0).foldl (· ||| ·) 0

def encodeMaskByte (x i : Nat) : Option Nat :=
  let b := (x >>> (8 * i)) % 256
  if b = 0 then some 0 else if b = 255 then some (span i) else none

def encodeByteMask? (x : Nat) : Option Nat := do
  return ((← (List.range 8).mapM (encodeMaskByte x)).foldl (· ||| ·) 0)

open Enc (BitRange)

/-- Register files. Number 31 of the integer files is the zero register, or the stack pointer in
the last two. -/
inductive RegClass where
  | w | x | s | d | b | h | q | v | wsp | xsp
  deriving DecidableEq

namespace RegClass

def letter : RegClass → String
  | w | wsp => "w"
  | x | xsp => "x"
  | s => "s"
  | d => "d"
  | b => "b"
  | h => "h"
  | q => "q"
  | v => "v"

def last : RegClass → String
  | w => "wzr"
  | x => "xzr"
  | wsp | xsp => "sp"
  | c => c.letter ++ "31"

def names (c : RegClass) : List String :=
  (List.range 31).map (fun (n : Nat) => c.letter ++ decimal n) ++ [c.last]

end RegClass

/-- The operands of A64 instructions. Numbers in names are widths; `scale` is the unit of a scaled
operand. -/
inductive Field where
  | reg (c : RegClass) (pos : Nat)
  | shift
  | shiftNoRor
  | extendW
  | extendX
  | pcrel26
  | pcrel19
  | pcrel14
  | pcrel21
  | simm9
  | simm7 (scale : Nat)
  | imm3
  | imm6
  | logical32
  | logical64
  | imm12 (scale : Nat)
  | shifted12
  | maybeShift (scale : Nat)
  | imm5
  | rotate6
  | bitNum
  | imm16
  | nzcv
  | floatZero
  | shifted16
  | moveShift
  | float8
  | byteMask
  deriving DecidableEq

inductive Reading where
  | names (ns : List String)
  | number (scale : Nat)
  | hex
  | signed (scale : Nat)
  | coded
  | float

namespace Field

def ranges : Field → List BitRange
  | reg _ pos => [⟨5, pos⟩]
  | shift | shiftNoRor => [⟨2, 22⟩]
  | extendW | extendX => [⟨1, 15⟩]
  | pcrel26 => [⟨26, 0⟩]
  | pcrel19 => [⟨19, 5⟩]
  | pcrel14 => [⟨14, 5⟩]
  | pcrel21 => [⟨19, 5⟩, ⟨2, 29⟩]
  | simm9 => [⟨9, 12⟩]
  | simm7 _ => [⟨7, 15⟩]
  | imm3 => [⟨3, 10⟩]
  | imm6 => [⟨6, 10⟩]
  | logical32 | logical64 | shifted12 => [⟨13, 10⟩]
  | imm12 _ => [⟨12, 10⟩]
  | maybeShift _ => [⟨1, 12⟩]
  | imm5 => [⟨5, 16⟩]
  | rotate6 => [⟨6, 16⟩]
  | bitNum => [⟨1, 31⟩, ⟨5, 19⟩]
  | imm16 => [⟨16, 5⟩]
  | nzcv => [⟨4, 0⟩]
  | floatZero => []
  | shifted16 => [⟨18, 5⟩]
  | moveShift => [⟨2, 21⟩]
  | float8 => [⟨8, 13⟩]
  | byteMask => [⟨3, 16⟩, ⟨5, 5⟩]

def reading : Field → Reading
  | reg c _ => .names c.names
  | shift => .names ["lsl", "lsr", "asr", "ror"]
  | shiftNoRor => .names ["lsl", "lsr", "asr"]
  | extendW => .names ["uxtw", "sxtw"]
  | extendX => .names ["lsl", "sxtx"]
  | pcrel26 | pcrel19 | pcrel14 | pcrel21 | simm9 => .signed 1
  | simm7 scale => .signed scale
  | imm3 | imm6 | rotate6 | bitNum => .number 1
  | imm12 scale | maybeShift scale => .number scale
  | moveShift => .number 16
  | imm16 | nzcv | imm5 => .hex
  | logical32 | logical64 | shifted12 | shifted16 | byteMask => .coded
  | floatZero | float8 => .float

variable (f : Field)

def width : Nat := totalWidth f.ranges

def encodeSpecial? (v : Nat) : Option Nat :=
  match f with
  | logical32 => if v < span 32 then encodeLogical? 5 v else none
  | logical64 => encodeLogical? 6 v
  | shifted12 => encodeShifted? 12 2 v
  | shifted16 => encodeShifted? 16 4 v
  | byteMask => encodeByteMask? v
  | float8 => encodeFloat8? v
  | floatZero => if v = 0 then some 0 else none
  | _ => some v

def decodeSpecial (code : Nat) : Res Nat :=
  match f with
  | logical32 => (decodeLogical 5 code).mapError logicalFault
  | logical64 => (decodeLogical 6 code).mapError logicalFault
  | shifted12 => .ok (decodeShifted 12 code)
  | shifted16 => .ok (decodeShifted 16 code)
  | byteMask => .ok (decodeByteMask code)
  | float8 => .ok (decodeFloat8 code)
  | floatZero => do
    ensure (code == 0) "not zero"
    return 0
  | _ => .ok code
where
  logicalFault : LogicalFault → Fault
    | .badPat => .broken "no logical immediate"
    | .badRotation => .malformed "negative shift"

def unscale? (scale : Nat) (v : Int) : Option Int :=
  if scale ≤ 1 then some v else if v % scale = 0 then some (v / scale) else none

def bounded? (v : Int) : Option Int := if dropBits v f.width = 0 then some v else none

def encode? (v : Int) : Option Int :=
  match f.reading with
  | .names ns => if v < ns.length then f.bounded? v else none
  | .number scale => do f.bounded? (← unscale? scale v)
  | .hex => f.bounded? v
  | .signed scale => do
    let v ← unscale? scale v
    let v := if v < 0 then v + span 64 else v
    let rest := dropBits v (f.width - 1)
    if rest = 0 || rest + 1 = span (64 - f.width + 1) then some (lowBits v f.width) else none
  | .coded | .float =>
    if f = .byteMask then (encodeByteMask? (lowBits v 64).toNat).map Int.ofNat
    else if v < 0 then none
    else (f.encodeSpecial? v.toNat).bind fun n => f.bounded? n

def encode (v : Int) : Res Int := need "no encoding" (f.encode? v)

def decode (raw : Int) : Res Int :=
  match f.reading with
  | .names _ | .hex => .ok (lowBits raw 64)
  | .number scale => .ok (lowBits (raw * scale) 64)
  | .signed scale => .ok (lowBits (signedOf raw f.width * scale) 64)
  | .coded | .float => do return Int.ofNat (← f.decodeSpecial raw.toNat)

def render (raw : Int) : Res String := do
  let v ← f.decode raw
  match f.reading with
  | .names ns => orFault .pastEnd ns[v.toNat]?
  | .float => return (Double.renderGeneral ⟨v.toNat.toUInt64⟩)
  | .signed _ => return decimal (signedOf v 64)
  | .hex | .coded => return "0x" ++ hex 1 v.toNat
  | .number _ => return decimal v

def parse (s : String) : Res Int := do
  match f.reading with
  | .names ns => f.encode (Int.ofNat (← orFault (.malformed s) (ns.findIdx? (· == s))))
  | .float =>
    f.encode (Int.ofNat (← Double.read s).bits.toNat)
  | _ => f.encode (← readInt s)

end Field

/-! ## The table

Formats are grouped by the three bits that divide the instruction space. -/

open Enc (FixedBits Pat)

structure Op where
  name : String
  pattern : Pat
  fields : List Field

namespace Op

def fits (o : Op) (w : Nat) : Bool := o.pattern.fits w

variable (o : Op)

/-- Formats are listed under the top bytes that words may have which fit them: bits of the byte that
are not fixed take all values. -/
def isListed (top : Nat) : Bool :=
  (List.range 256).any fun x =>
    o.pattern.value >>> 24 ||| x &&& (255 ^^^ o.pattern.mask >>> 24) == top

def asm (opnds : List Int) : Res Nat := do
  ensure (opnds.length == o.fields.length) "number of operands"
  return (o.fields.zip opnds).foldl (fun w (f, v) => w ||| Enc.insert f.ranges v)
    o.pattern.value

def opndsOf (w : Nat) : List Nat := o.fields.map fun f => Enc.extract f.ranges w

def patch (w : Nat) (pos : Nat) (v : Int) : Res Nat := do
  ensure (o.fits w) "word of another format"
  let ops := (o.opndsOf w).map Int.ofNat
  if ops.length ≤ pos then throw .pastEnd
  o.asm (ops.set pos v)

end Op

def form (name : String) (bits : List FixedBits) (fields : List Field) : Op :=
  ⟨name, Pat.ofBits bits, fields⟩

def conds : List String :=
  ["eq", "ne", "cs", "cc", "mi", "pl", "vs", "vc", "hi", "ls", "ge", "lt", "gt", "le"]

def root010 : FixedBits := ⟨7, 2, 26⟩
def root011 : FixedBits := ⟨7, 3, 26⟩
def root100 : FixedBits := ⟨7, 4, 26⟩
def root101 : FixedBits := ⟨7, 5, 26⟩
def root110 : FixedBits := ⟨7, 6, 26⟩
def root111 : FixedBits := ⟨7, 7, 26⟩

/-- The two integer widths: name, width bit at 31, registers. -/
structure Size where
  name : String
  bit : Nat
  reg : RegClass
  regSp : RegClass

def sizes : List Size := [⟨"w", 0, .w, .wsp⟩, ⟨"x", 1, .x, .xsp⟩]

section
variable (s : Size)

def Size.top : FixedBits := ⟨1, s.bit, 31⟩

variable (c : RegClass)

def dst : Field := .reg c 0
def src1 : Field := .reg c 5
def src2 : Field := .reg c 16
def src3 : Field := .reg c 10
def base : Field := .reg .xsp 5

def shiftedReg : List Op :=
  let mk sh row :=
    let (name, a, b, c) := row
    form s!"{name}_{s.name}_reg" [root010, s.top, ⟨3, a, 29⟩, ⟨3, b, 24⟩, ⟨1, c, 21⟩]
      [dst s.reg, src1 s.reg, src2 s.reg, sh, .imm6]
  [("add", 0, 3, 0), ("and", 0, 2, 0), ("bic", 0, 2, 1), ("sub", 2, 3, 0), ("orr", 1, 2, 0),
      ("orn", 1, 2, 1), ("eor", 2, 2, 0), ("eon", 2, 2, 1), ("ands", 3, 2, 0),
      ("bics", 3, 2, 1)].map (mk .shift) ++
    [("adds", 1, 3, 0), ("subs", 3, 3, 0)].map (mk .shiftNoRor)

def extendedReg : List Op :=
  [("uxtb", 0, RegClass.w), ("uxth", 1, .w), ("uxtw", 2, .w), ("uxtx", 3, .x), ("sxtb", 4, .w),
    ("sxth", 5, .w), ("sxtw", 6, .w), ("sxtx", 7, .x)].flatMap fun (ext, n, c) =>
    let mk tgt row :=
      form s!"{row.1}_{s.name}_reg_{ext}"
        [root010, s.top, ⟨7, n, 13⟩, ⟨3, row.2, 29⟩, ⟨0x1f, 0x19, 21⟩]
        [dst tgt, src1 s.regSp, src2 c, .imm3]
    [("add", 0), ("sub", 2)].map (mk s.regSp) ++
      [("adds", 1), ("subs", 3)].map (mk s.reg)

def exclusives : List Op :=
  [("x", 6, RegClass.x), ("w", 4, .w), ("h", 2, .w), ("b", 0, .w)].flatMap fun (ext, n, c) =>
    let width := ⟨7, n, 29⟩
    let addr := src1 .x
    let load name bits :=
      form s!"{name}_{ext}" [width, root010, ⟨0xffff, bits, 10⟩] [dst c, addr]
    let store name bits :=
      form s!"{name}_{ext}" [width, root010, ⟨0x1f, 0, 21⟩, ⟨0x3f, bits, 10⟩] [src2 .w, addr, dst c]
    [load "ldxr" 0x17df, load "ldaxr" 0x17ff, load "ldar" 0x37ff, store "stxr" 0x1f,
      store "stlxr" 0x3f,
      form ("stlr_" ++ ext) [width, root010, ⟨0xffff, 0x27ff, 10⟩] [addr, dst c]]

variable (name ext : String)

def pairModes (width root : FixedBits) (load : Nat) (fields : List Field) : List Op :=
  [("_imm_post", 2), ("_imm_pre", 6), ("_imm", 4)].map fun (mode, n) =>
    form s!"{name}_{ext}{mode}" [width, root, ⟨0xf, n + load, 22⟩] fields

def pairs : List Op :=
  ([("x", 5, 8, RegClass.x), ("w", 1, 4, .w), ("sw", 3, 4, .x)].flatMap fun (ext, n, scale, c) =>
      pairModes "ldp" ext ⟨7, n, 29⟩ root010 1 [dst c, src3 c, base, .simm7 scale]) ++
    [("x", 5, 8, RegClass.x), ("w", 1, 4, .w)].flatMap fun (ext, n, scale, c) =>
      pairModes "stp" ext ⟨7, n, 29⟩ root010 0 [base, .simm7 scale, dst c, src3 c]

def floatPairs : List Op :=
  [("s", RegClass.s, 4, 1), ("d", .d, 8, 3), ("q", .q, 16, 5)].flatMap fun (ext, c, scale, n) =>
    pairModes "fstp" ext ⟨7, n, 29⟩ root011 0 [base, .simm7 scale, dst c, src3 c] ++
      pairModes "fldp" ext ⟨7, n, 29⟩ root011 1 [dst c, src3 c, base, .simm7 scale]

def vector (q u : Nat) (bits : List FixedBits) (fields : List Field) : Op :=
  form s!"{name}_{ext}" ([root011, ⟨7, 2 * q + u, 29⟩] ++ bits) (dst .v :: fields)

def vectorFloats : List Op :=
  [("2s", 0, 0), ("4s", 1, 0), ("2d", 1, 1)].flatMap fun (ext, q, size) =>
    let binary name u n :=
      vector name ext q u [⟨1, size, 22⟩, ⟨7, 4, 23⟩, ⟨1, 1, 21⟩, ⟨0x3f, n, 10⟩] [src1 .v, src2 .v]
    [vector "fneg" ext q 1 [⟨1, size, 22⟩, ⟨7, 5, 23⟩, ⟨0xfff, 0x83e, 10⟩] [src1 .v],
      binary "fadd" 0 0x35, binary "fmaxnm" 0 0x31, binary "fmax" 0 0x3d, binary "faddp" 1 0x35,
      binary "fmaxp" 1 0x3d]

def vectorUnary (name : String) (u n : Nat) : List Op :=
  [("8b", 0, 0), ("16b", 1, 0), ("4h", 0, 1), ("8h", 1, 1), ("4s", 1, 2)].map fun (ext, q, size) =>
    vector name ext q u [⟨3, 2, 24⟩, ⟨0xfff, n, 10⟩, ⟨3, size, 22⟩] [src1 .v]

def polynomial (q size : Nat) : Op :=
  vector name ext q 0 [⟨3, 2, 24⟩, ⟨1, 1, 21⟩, ⟨0x3f, 0x38, 10⟩, ⟨3, size, 22⟩] [src1 .v, src2 .v]

def vectorLogic : List Op :=
  [("8b", 0), ("16b", 1)].flatMap fun (ext, q) =>
    [("bit", 1, 0x15), ("eor", 1, 0x11), ("and", 0, 0x11), ("bic", 0, 0x13), ("orr", 0, 0x15),
      ("orn", 0, 0x17)].map fun (name, u, n) =>
      vector name ext q u [⟨0x1f, n, 21⟩, ⟨0x3f, 0x7, 10⟩] [src1 .v, src2 .v]

def vectors : List Op :=
  vectorFloats ++ vectorUnary "uaddlv" 1 0xc0e ++ vectorUnary "cnt" 0 0x816 ++
    [polynomial "pmull2" "2d" 1 3, polynomial "pmull2" "16b" 1 0, polynomial "pmull" "1d" 0 3,
      polynomial "pmull" "8b" 0 0] ++ vectorLogic ++
    [vector "movi" "2d" 1 1 [⟨0x7f, 0x60, 19⟩, ⟨0x3f, 0x39, 10⟩] [.byteMask]]

def immediates : List Op :=
  let mk suffix fields bits name n :=
    form s!"{name}_{s.name}{suffix}" ([root100, s.top, ⟨3, n, 29⟩] ++ bits) fields
  let logical := if s.bit == 1 then .logical64 else .logical32
  let arith fields := mk "_imm" fields [⟨7, 2, 23⟩]
  let logic tgt := mk "_imm" [dst tgt, src1 s.reg, logical] [⟨7, 4, 23⟩]
  let field := mk "" [dst s.reg, src1 s.reg, .rotate6, .imm6] [⟨7, 6, 23⟩, ⟨1, s.bit, 22⟩]
  let move fields := mk "_imm" fields [⟨7, 5, 23⟩]
  let toSp := [dst s.regSp, src1 s.regSp, .shifted12]
  let toReg := [dst s.reg, src1 s.reg, .shifted12]
  [arith toSp "add" 0, arith toSp "sub" 2, arith toReg "adds" 1, arith toReg "subs" 3,
    logic s.regSp "and" 0, logic s.regSp "eor" 2, logic s.regSp "orr" 1, logic s.reg "ands" 3,
    field "bfm" 1, field "ubfm" 2, field "sbfm" 0,
    mk "" [dst s.reg, src1 s.reg, src2 s.reg, .imm6] [⟨7, 7, 23⟩, ⟨1, s.bit, 22⟩, ⟨1, 0, 21⟩]
      "extr" 0,
    move [dst s.reg, .imm16, .moveShift] "movk" 3, move [dst s.reg, .shifted16] "movz" 2,
    move [dst s.reg, .shifted16] "movn" 0]

def addresses : List Op :=
  [form "adr" [root100, ⟨1, 0, 31⟩, ⟨3, 0, 24⟩] [dst .x, .pcrel21],
    form "adrp" [root100, ⟨1, 1, 31⟩, ⟨3, 0, 24⟩] [dst .x, .pcrel21]]

def branches : List Op :=
  let indirect name n := form name [root101, ⟨7, 6, 29⟩, ⟨0xffff, n, 10⟩, ⟨0x1f, 0, 0⟩] [src1 .x]
  [form "b" [root101, ⟨7, 0, 29⟩] [.pcrel26],
      form "bl" [root101, ⟨7, 4, 29⟩] [.pcrel26],
      indirect "ret" 0x97c0, indirect "br" 0x87c0, indirect "blr" 0x8fc0] ++
    conds.zipIdx.map (fun (c, n) =>
      form ("b_" ++ c) [root101, ⟨7, 2, 29⟩, ⟨3, 0, 24⟩, ⟨0x1f, n, 0⟩] [.pcrel19]) ++
    sizes.flatMap (fun s => [("cbnz_", 1), ("cbz_", 0)].map fun (name, n) =>
      form (name ++ s.name) [s.top, root101, ⟨3, 1, 29⟩, ⟨3, n, 24⟩] [dst s.reg, .pcrel19]) ++
    [form "tbz" [root101, ⟨3, 1, 29⟩, ⟨3, 2, 24⟩] [dst .x, .bitNum, .pcrel14],
      form "tbnz" [root101, ⟨3, 1, 29⟩, ⟨3, 3, 24⟩] [dst .x, .bitNum, .pcrel14]]

def systems : List Op :=
  let trap name n low := form name [root101, ⟨7, 6, 29⟩, ⟨0x1f, n, 21⟩, ⟨0x1f, low, 0⟩] [.imm16]
  let plain name n := form name [root101, ⟨7, 6, 29⟩, ⟨0x3ffffff, n, 0⟩] []
  [trap "hlt" 2 0, trap "brk" 1 0, trap "svc" 0 1, plain "yield" 0x103203f,
    plain "nop" 0x103201f, plain "eret" 0x29f03e0, plain "isb" 0x1033fdf, plain "clrex" 0x1033f5f,
    plain "dmb_ish" 0x1033bbf, plain "dmb_ishld" 0x10339bf, plain "dmb_ishst" 0x1033abf,
    plain "dsb_ish" 0x1033b9f, plain "dsb_ishld" 0x103399f, plain "dsb_ishst" 0x1033a9f]

def regArithmetic : List Op :=
  let three := [dst s.reg, src1 s.reg, src2 s.reg]
  let mk name a b c :=
    form s!"{name}_{s.name}" [root110, s.top, ⟨3, a, 29⟩, ⟨0x1f, b, 21⟩, ⟨0x3f, c, 10⟩] three
  let acc name n :=
    form s!"{name}_{s.name}" [root110, s.top, ⟨3, 3, 24⟩, ⟨7, 0, 21⟩, ⟨3, 0, 29⟩, ⟨1, n, 15⟩]
      (three ++ [src3 s.reg])
  [acc "madd" 0, acc "msub" 1, mk "udiv" 0 0x16 2, mk "sdiv" 0 0x16 3,
    mk "lslv" 0 0x16 8, mk "lsrv" 0 0x16 9, mk "asrv" 0 0x16 0xa, mk "rorv" 0 0x16 0xb,
    mk "adc" 0 0x10 0, mk "sbc" 2 0x10 0, mk "adcs" 1 0x10 0, mk "sbcs" 3 0x10 0]

def longMultiplies : List Op :=
  [("smaddl", 1, 0), ("smsubl", 1, 1), ("umaddl", 5, 0), ("umsubl", 5, 1)].map (fun (name, a, b) =>
      form name [root110, ⟨1, 1, 31⟩, ⟨3, 3, 24⟩, ⟨3, 0, 29⟩, ⟨7, a, 21⟩, ⟨1, b, 15⟩]
        [dst .x, src1 .w, src2 .w, src3 .x]) ++
    [("smulh", 2), ("umulh", 6)].map fun (name, n) =>
      form name
        [root110, ⟨1, 1, 31⟩, ⟨3, 3, 24⟩, ⟨0x1f, 0x1f, 10⟩, ⟨3, 0, 29⟩, ⟨7, n, 21⟩, ⟨1, 0, 15⟩]
        [dst .x, src1 .x, src2 .x]

/-- Accesses to `span shift` bytes of memory. -/
structure Access where
  name : String
  reg : RegClass
  shift : Nat

/-- All ways to give the address. -/
def Access.forms (a : Access) (root : FixedBits) (kind : Nat) (start middle : String)
  (opnds : List Field → List Field) : List Op :=
  let mk stem mode bits addr :=
    form (start ++ stem ++ middle ++ mode) ([root, ⟨7, 2 * (a.shift % 4) + 1, 29⟩] ++ bits)
      (opnds (base :: addr))
  let off stem mode n := mk stem mode [⟨0xf, kind, 22⟩, ⟨1, 0, 21⟩, ⟨3, n, 10⟩] [.simm9]
  let idx mode n c ext :=
    mk "r" mode [⟨0xf, kind, 22⟩, ⟨1, 1, 21⟩, ⟨3, n, 13⟩, ⟨3, 2, 10⟩]
      [src2 c, ext, .maybeShift a.shift]
  [mk "r" "_imm" [⟨0xf, kind + 4, 22⟩] [.imm12 (span a.shift)], off "r" "_imm_pre" 3,
    off "r" "_imm_post" 1, off "ur" "_imm" 0, idx "_reg_w" 2 .w .extendW,
    idx "_reg_x" 3 .x .extendX]

/-- Loads of words with a sign. Two of the forms are not like those of other loads. -/
def signedWordLoads (a : Access) : List Op :=
  (a.forms root110 2 "ld" "sw" (dst .x :: ·)).map fun o =>
    match o.name with
    | "ldursw_imm" => { o with name := "ldursw_imm_post" }
    | "ldrsw_reg_w" => { o with fields := o.fields.set 1 (src1 .x) }
    | _ => o

def signedLoads (a : Access) : List Op :=
  [("_w", 3, RegClass.w), ("_x", 2, .x)].flatMap fun (ext, n, c) =>
    a.forms root110 n "ld" s!"s{a.name}{ext}" (dst c :: ·)

def accesses : List Op :=
  [⟨"x", .x, 3⟩, ⟨"w", .w, 2⟩, ⟨"h", .w, 1⟩, ⟨"b", .w, 0⟩].flatMap fun a : Access =>
    a.forms root110 1 "ld" ("_" ++ a.name) (dst a.reg :: ·) ++
      a.forms root110 0 "st" ("_" ++ a.name) (· ++ [dst a.reg]) ++
      if a.shift = 2 then signedWordLoads a else if a.shift < 2 then signedLoads a else []

def conditionals : List Op :=
  conds.zipIdx.flatMap fun (c, n) =>
    let select name a b :=
      form s!"{name}_{s.name}_{c}"
        [s.top, root110, ⟨0x1f, 0x14, 21⟩, ⟨0xf, n, 12⟩, ⟨3, a, 29⟩, ⟨3, b, 10⟩]
        [dst s.reg, src1 s.reg, src2 s.reg]
    let compare name kind a b second :=
      form s!"{name}_{s.name}_{kind}_{c}"
        [s.top, root110, ⟨0x1f, 0x12, 21⟩, ⟨0xf, n, 12⟩, ⟨1, 0, 4⟩, ⟨3, a, 29⟩, ⟨3, b, 10⟩]
        [src1 s.reg, second, .nzcv]
    [select "csel" 0 0, select "csneg" 2 1, select "csinc" 0 1, select "csinv" 2 0,
      compare "ccmp" "reg" 3 0 (src2 s.reg), compare "ccmp" "imm" 3 2 .imm5,
      compare "ccmn" "reg" 1 0 (src2 s.reg), compare "ccmn" "imm" 1 2 .imm5]

def bitOrders : List Op :=
  [("rbit_x", 6, 0, RegClass.x), ("rbit_w", 2, 0, .w), ("clz_x", 6, 4, .x), ("clz_w", 2, 4, .w),
    ("cls_x", 6, 5, .x), ("cls_w", 2, 5, .w), ("rev_x", 6, 3, .x), ("rev_w", 2, 2, .w),
    ("rev32", 6, 2, .x), ("rev16_x", 6, 1, .x), ("rev16_w", 2, 1, .w)].map fun (name, a, b, c) =>
    form name [root110, ⟨0x1fff, 0x1600, 13⟩, ⟨7, a, 29⟩, ⟨7, b, 10⟩] [dst c, src1 c]

def floatScalars (ext : String) (bit : Nat) (c : RegClass) : List Op :=
  let mk name suffix bits := form s!"{name}_{ext}{suffix}" ([root111, ⟨1, bit, 22⟩] ++ bits)
  let plain name suffix bits := mk name suffix ([⟨7, 0, 29⟩, ⟨7, 4, 23⟩, ⟨1, 1, 21⟩] ++ bits)
  let two := [dst c, src1 c]
  let three := [dst c, src1 c, src2 c]
  let binary name n := plain name "" [⟨0x3f, n, 10⟩] three
  let fused name a b :=
    mk name "" [⟨7, 0, 29⟩, ⟨7, 6, 23⟩, ⟨1, a, 21⟩, ⟨1, b, 15⟩] (three ++ [src3 c])
  let mask name a b := mk name "" [⟨7, 3, 29⟩, ⟨1, 1, 21⟩, ⟨7, a, 23⟩, ⟨0x3f, b, 10⟩] three
  let compare name n :=
    [plain name "_zero" [⟨0x1f, 0, 16⟩, ⟨0x3f, 8, 10⟩, ⟨0x1f, n + 8, 0⟩] [src1 c, .floatZero],
      plain name "" [⟨0x3f, 8, 10⟩, ⟨0x1f, n, 0⟩] [src1 c, src2 c]]
  [plain "fmov" "_imm" [⟨0xff, 0x80, 5⟩] [dst c, .float8],
      plain "fmov" "_reg" [⟨0x7ff, 0x10, 10⟩] two,
      binary "fmul" 2, binary "fdiv" 6, binary "fadd" 0xa, binary "fsub" 0xe, binary "fmax" 0x12,
      binary "fmaxnm" 0x1a, binary "fmin" 0x16, binary "fminnm" 0x1e, binary "fnmul" 0x22,
      fused "fmadd" 0 0, fused "fmsub" 0 1, fused "fnmadd" 1 0, fused "fnmsub" 1 1,
      mask "fabd" 5 0x35, mask "fcmge" 4 0x39, mask "fcmgt" 5 0x39] ++
    compare "fcmp" 0 ++ compare "fcmpe" 16 ++
    [("fabs", 0x30), ("fneg", 0x50), ("fsqrt", 0x70), ("frinta", 0x190), ("frinti", 0x1f0),
      ("frintm", 0x150), ("frintn", 0x110), ("frintp", 0x130), ("frintx", 0x1d0),
      ("frintz", 0x170)].map (fun (name, n) => plain name "" [⟨0x7ff, n, 10⟩] two) ++
    conds.zipIdx.flatMap fun (cond, n) =>
      [plain "fcsel" ("_" ++ cond) [⟨0xf, n, 12⟩, ⟨3, 3, 10⟩] three,
        plain "fccmp" ("_" ++ cond) [⟨0xf, n, 12⟩, ⟨3, 1, 10⟩, ⟨1, 0, 4⟩] [src1 c, src2 c, .nzcv]]

def floatTransfers : List Op :=
  [("s_from_w", RegClass.s, RegClass.w, 0, 1), ("w_from_s", .w, .s, 0, 0),
    ("d_from_x", .d, .x, 1, 1), ("x_from_d", .x, .d, 1, 0)].map fun (ext, tgt, source, wide, dir) =>
    form ("fmov_" ++ ext)
      [⟨3, 0, 29⟩, root111, ⟨3, 2, 24⟩, ⟨3, 2, 20⟩, ⟨3, 3, 17⟩, ⟨0x3f, 0, 10⟩, ⟨1, wide, 31⟩,
        ⟨3, wide, 22⟩, ⟨1, 0, 19⟩, ⟨1, dir, 16⟩]
      [dst tgt, src1 source]

def floatAccesses : List Op :=
  [⟨"b", .b, 0⟩, ⟨"h", .h, 1⟩, ⟨"s", .s, 2⟩, ⟨"d", .d, 3⟩, ⟨"q", .q, 4⟩].flatMap fun a : Access =>
    let kind := 2 * (a.shift / 4)
    a.forms root111 (kind + 1) "fld" ("_" ++ a.name) (dst a.reg :: ·) ++
      a.forms root111 kind "fst" ("_" ++ a.name) (· ++ [dst a.reg])

def floatConversions : List Op :=
  let precisions : List (String × RegClass × Nat) := [("h", .h, 3), ("s", .s, 0), ("d", .d, 1)]
  (precisions.flatMap fun (de, dc, dn) =>
    (precisions.filter fun (se, _, _) => se != de).map fun (se, sc, sn) =>
      form s!"fcvt_{de}_{se}"
        [⟨7, 0, 29⟩, root111, ⟨3, 2, 24⟩, ⟨3, sn, 22⟩, ⟨0x1f, 0x11, 17⟩, ⟨3, dn, 15⟩, ⟨0x1f, 0x10, 10⟩]
        [dst dc, src1 sc]) ++
    sizes.flatMap fun z =>
      [("s", RegClass.s, 0), ("d", .d, 1)].flatMap fun (ext, c, bit) =>
        let mk name n :=
          form name [z.top, ⟨3, 0, 29⟩, root111, ⟨7, 4, 23⟩, ⟨1, bit, 22⟩, ⟨0xfff, n, 10⟩]
        [("as", 0x900), ("au", 0x940), ("ms", 0xc00), ("mu", 0xc40), ("ns", 0x800), ("nu", 0x840),
          ("ps", 0xa00), ("pu", 0xa40), ("zs", 0xe00), ("zu", 0xe40)].map (fun (mode, n) =>
          mk s!"fcvt{mode}_{z.name}_{ext}" n [dst z.reg, src1 c]) ++
        [("scvtf", 0x880), ("ucvtf", 0x8c0)].map fun (name, n) =>
          mk s!"{name}_{ext}_from_{z.name}" n [dst c, src1 z.reg]

def opcodes : List Op :=
  (sizes.flatMap fun s => shiftedReg s ++ extendedReg s) ++ exclusives ++ pairs ++
    floatPairs ++ vectors ++ sizes.flatMap immediates ++ addresses ++ branches ++ systems ++
    sizes.flatMap regArithmetic ++ longMultiplies ++ accesses ++ sizes.flatMap conditionals ++
    bitOrders ++ floatScalars "s" 0 .s ++ floatScalars "d" 1 .d ++ floatTransfers ++
    floatAccesses ++ floatConversions

def findOp? (name : String) : Option Op := opcodes.find? (·.name == name)
def bucket (top : Nat) : List Op := opcodes.filter (·.isListed top)
def decodeOp? (w : Nat) : Option Op := (bucket (w >>> 24)).find? (·.fits w)

end

/-! ## Instructions and their text -/

inductive RelocKind where
  | abs64 | abs32 | adrPrelPgHi21 | addAbsLo12Nc | condBr19 | jump26 | call26

namespace RelocKind

def code : RelocKind → Nat
  | abs64 => 257
  | abs32 => 258
  | adrPrelPgHi21 => 275
  | addAbsLo12Nc => 277
  | condBr19 => 280
  | jump26 => 282
  | call26 => 283

def word : RelocKind → String
  | abs64 => "abs64"
  | abs32 => "abs32"
  | adrPrelPgHi21 => "adr_prel_pg_hi21"
  | addAbsLo12Nc => "add_abs_lo12_nc"
  | condBr19 => "condbr19"
  | jump26 => "jump26"
  | call26 => "call26"

def name (k : RelocKind) : String := k.word.toUpper

def parse? : String → Option (RelocKind × Bool) :=
  Asm.Reloc.kindOf? word [jump26, condBr19] [call26, abs32, abs64, adrPrelPgHi21, addAbsLo12Nc]

end RelocKind

abbrev Reloc := Asm.Reloc RelocKind

structure Ins where
  opcode : Op
  opnds : List Int
  reloc : Option Reloc := none

namespace Ins

/-- The instruction that a word stands for; a word has 32 bits. -/
def decode (w : Nat) : Res (Option Ins) :=
  if w < span 32 then .ok ((decodeOp? w).map fun o => ⟨o, (o.opndsOf w).map Int.ofNat, none⟩)
  else .error .pastEnd

def asm (i : Ins) : Res Nat := do
  ensure i.reloc.isNone "open reference"
  i.opcode.asm i.opnds

def renderReloc (r : Reloc) (addend : Int) : Res String := do
  match r.kind with
  | .jump26 | .condBr19 =>
    ensure r.isLocal "local symbol"
    return s!"expr:{r.kind.word}:{r.symbol}"
  | .adrPrelPgHi21 | .addAbsLo12Nc => return r.text r.kind.word addend
  | .call26 => return "expr:call26:" ++ r.symbol
  | .abs32 | .abs64 => broken "kind of reference"

def mayRefer (f : Field) : Bool :=
  f == .pcrel26 || f == .pcrel19 || f == .pcrel21 || f == .shifted12

def renderOpnd (reloc : Option Reloc) (pos : Nat) (f : Field) (v : Int) : Res String := do
  match reloc.filter fun r => r.pos == pos with
  | some r =>
    ensure (mayRefer f) "no reference"
    renderReloc r v
  | none => f.render v

def renderOpnds (reloc : Option Reloc) : Nat → List Field → List Int → Texts
  | pos, f :: fs, v :: vs => do
    return (← renderOpnd reloc pos f v) :: (← renderOpnds reloc (pos + 1) fs vs)
  | _, _, _ => .ok []

def render (i : Ins) : Texts := renderOpnds i.reloc 0 i.opcode.fields i.opnds

def parseKind (s : String) : Res (RelocKind × Bool) :=
  need "unknown reference" (RelocKind.parse? s)

/-- Read an instruction. Words beyond the operands of the format are ignored. -/
def parse (mnemonic : String) (words : List String) : Res Ins := do
  let o ← defined mnemonic (findOp? mnemonic)
  let (opnds, reloc) ← Asm.Reloc.parseOpnds parseKind Field.parse id 0 o.fields words none
  return ⟨o, opnds, reloc⟩

end Ins

/-! ## Assembling -/

open RelocKind
open Asm (Dialect Linker)
open Elf (Image)

def nop : List UInt8 := [0x1f, 0x20, 0x03, 0xd5]

def Ins.emit (i : Ins) (u : Asm.Unit) : Res Asm.Unit := do
  let u ← match i.reloc with
    | none => pure u
    | some r =>
      let (n, u) := u.reference r.symbol r.isLocal
      pure (u.refer r.kind.code .text n (← orFault .pastEnd i.opnds[r.pos]?) 0)
  return u.append .text (leBytes 4 (← { i with reloc := none }.asm)).toArray

/-- Addresses in memory carry the code of a 32 bit reference of the other family, which linking
refuses. -/
def dialect : Dialect where
  filler := Asm.repeated nop
  addrKind := 2
  instruction := fun m ws u => do (← Ins.parse m ws).emit u

def patchNamed (name : String) (w pos : Nat) (v : Int) : Res Int := do
  let o ← defined name (findOp? name)
  return Int.ofNat (← o.patch w pos v)

def branchDist (place tgt : Int) : Int := dropBits (tgt - place) 2
def pageDist (place tgt : Int) : Int := dropBits tgt 12 - dropBits place 12

def resolveWord (kind : Nat) (place tgt : Int) (w : Nat) : Res Int := do
  if kind == code .adrPrelPgHi21 then patchNamed "adrp" w 1 (pageDist place tgt)
  else if kind == code .addAbsLo12Nc then patchNamed "add_x_imm" w 2 (lowBits tgt 12)
  else if kind == code .condBr19 then
    patchNamed s!"b_{← orFault .pastEnd conds[w % 16]?}" w 0 (branchDist place tgt)
  else if kind == code .jump26 then patchNamed "b" w 0 (branchDist place tgt)
  else if kind == code .call26 then patchNamed "bl" w 0 (branchDist place tgt)
  else if kind == code .abs32 || kind == code .abs64 then return tgt
  else broken "kind of reference"

def resolve (kind off : Nat) (place tgt : Int) : Image → Res Image :=
  Asm.replaceWord (if kind == code .abs64 then 8 else 4) off (resolveWord kind place tgt)

def linker : Linker where
  cls := .c64
  machine := 183
  flags := 0
  start := 0x400000
  attributes := none
  resolve := resolve

end Retarget.A64
