import Retarget.Assembly.Unit
import Retarget.Decimal.Double

/-!
# A32 instructions

A `Field` says where an operand stands in the instruction word and how its bits are read: as one of
a list of names, as a number that may be scaled or signed, as a rotated byte, or as zero, which takes
no bits.
-/

namespace Retarget.A32
open Enc (BitRange)

/-- Where an operand stands; numbers are bit positions. -/
inductive Field where
  | reg0 | reg8 | reg12 | reg16 | pair12
  | dreg0 | dreg12 | dreg16
  | sreg0 | sreg12 | sreg16
  | shift
  | regList | regRange0 | regRange1
  | pred
  | times4 | imm12 | immSplit | imm7 | times8 | imm24 | rotated | floatZero | imm16 | simm24
  deriving DecidableEq

inductive Reading where
  | names (ns : List String)
  | number (scale : Nat) (tag : String)
  | hex (tag : String)
  | signed
  | rotatedByte
  | zero

def predNames : List String :=
  ["eq", "ne", "cs", "cc", "mi", "pl", "vs", "vc", "hi", "ls", "ge", "lt", "gt", "le", "al",
    "invalid_pred"]

def regNames : List String :=
  ["r0", "r1", "r2", "r3", "r4", "r5", "r6", "r7", "r8", "r9", "sl", "fp", "ip", "sp", "lr", "pc"]

def shiftNames : List String := ["lsl", "lsr", "asr", "ror"]
def sregNames : List String := (List.range 32).map fun (n : Nat) => s!"s{n}"
def dregNames : List String := (List.range 16).map fun (n : Nat) => s!"d{n}"

namespace Field

def ranges : Field → List BitRange
  | reg0 => [⟨4, 0⟩]
  | reg8 => [⟨4, 8⟩]
  | reg12 | pair12 => [⟨4, 12⟩]
  | reg16 => [⟨4, 16⟩]
  | dreg0 => [⟨1, 5⟩, ⟨4, 0⟩]
  | dreg12 => [⟨1, 22⟩, ⟨4, 12⟩]
  | dreg16 => [⟨1, 7⟩, ⟨4, 16⟩]
  | sreg0 => [⟨4, 0⟩, ⟨1, 5⟩]
  | sreg12 => [⟨4, 12⟩, ⟨1, 22⟩]
  | sreg16 => [⟨4, 16⟩, ⟨1, 7⟩]
  | shift => [⟨2, 5⟩]
  | regList => [⟨16, 0⟩]
  | regRange0 => [⟨8, 0⟩]
  | regRange1 => [⟨7, 1⟩]
  | pred => [⟨4, 28⟩]
  | times4 => [⟨8, 0⟩]
  | imm12 | rotated => [⟨12, 0⟩]
  | immSplit => [⟨4, 8⟩, ⟨4, 0⟩]
  | imm7 => [⟨5, 7⟩]
  | times8 => [⟨2, 10⟩]
  | imm24 | simm24 => [⟨24, 0⟩]
  | floatZero => []
  | imm16 => [⟨4, 16⟩, ⟨12, 0⟩]

def reading : Field → Reading
  | reg0 | reg8 | reg12 | reg16 | pair12 => .names regNames
  | dreg0 | dreg12 | dreg16 => .names dregNames
  | sreg0 | sreg12 | sreg16 => .names sregNames
  | shift => .names shiftNames
  | pred => .names predNames
  | regList => .hex "reglist:"
  | regRange0 | regRange1 => .number 1 "regrange:"
  | times4 => .number 4 ""
  | times8 => .number 8 ""
  | imm12 | immSplit | imm7 | imm24 | imm16 => .number 1 ""
  | simm24 => .signed
  | rotated => .rotatedByte
  | floatZero => .zero

def width (f : Field) : Nat := totalWidth f.ranges

end Field

/-- The word that a rotated byte stands for: the low eight bits, rotated right by twice the upper
four. -/
def decodeRotated (code : Nat) : Nat :=
  let x := code % 256
  ((x + x <<< 32) >>> (code / 256 % 16 * 2)) % span 32

def rotatedAt (x r : Nat) : Option Nat :=
  let y := ((x + x <<< 32) >>> (32 - 2 * r)) % span 32
  if y < 256 then some (r * 256 + y) else none

def encodeRotated? (x : Nat) : Option Nat := (List.range 16).findSome? (rotatedAt x)

/-- An operand as it stands in the word; `none` for a value that cannot be expressed. -/
abbrev RawOpnd := Option Int

namespace Field
variable (f : Field)

/-- The bits for a value, which is taken as an unsigned word. -/
def encode (v : Int) : Res RawOpnd := do
  ensure (0 ≤ v) "negative operand"
  let scaled scale := do
    ensure (v % scale == 0) "no multiple"
    let v := v / scale
    ensure (dropBits v f.width == 0) "operand too large"
    return some v
  match f.reading with
  | .rotatedByte => return (encodeRotated? v.toNat).map Int.ofNat
  | .zero => return if v = 0 then some 0 else none
  | .names ns =>
    ensure (v < ns.length) "no such name"
    return some v
  | .signed =>
    let rest := dropBits v (f.width - 1)
    ensure (rest == 0 || rest + 1 == span (32 - f.width + 1)) "operand too large"
    return some (lowBits v f.width)
  | .number scale _ => scaled scale
  | .hex _ => scaled 1

/-- The value of an operand, as an unsigned word where it is signed. -/
def decode (raw : RawOpnd) : Res Int :=
  match f.reading, raw with
  | .zero, raw => do
    ensure (raw == some 0) "not zero"
    return 0
  | _, none => .error .wrongSort
  | .rotatedByte, some v => .ok (decodeRotated (v % 4096).toNat)
  | .signed, some v => .ok (lowBits (signedOf v f.width) 32)
  | .number scale _, some v => .ok (v * scale)
  | _, some v => .ok v

def render (raw : RawOpnd) : Res String := do
  let v ← f.decode raw
  ensure (0 ≤ v) "negative operand"
  match f.reading with
  | .names ns => orFault .pastEnd ns[v.toNat]?
  | .zero => return Double.zero.render
  | .rotatedByte | .signed => return decimal (if span 31 ≤ v then v - span 32 else v)
  | .hex tag => return s!"{tag}0x{hex 1 v.toNat}"
  | .number _ tag => return tag ++ decimal v

def parse (s : String) : Res RawOpnd := do
  let v ← match f.reading with
    | .names ns => do
      let s := ([("r10", "sl"), ("r11", "fp"), ("r12", "ip"), ("r14", "lr")].lookup s).getD s
      pure (Int.ofNat (← orFault (.malformed s) (ns.findIdx? (· == s))))
    | .zero => do
      let x ← Double.read s
      pure (Int.ofNat (← orFault .overflow x.toSingleBits?).toNat)
    | .rotatedByte | .signed => do
      let v ← readInt s
      pure (if v < 0 then v + span 32 else v)
    | .number _ tag | .hex tag =>
      readInt (if tag ≠ "" && s.startsWith tag then (s.drop tag.length).toString else s)
  f.encode v

end Field

/-! ## The table

Formats are grouped as the architecture groups them. The table is searched from its start, both by
name and by word. -/

open Enc (Pat)

/-- What tells formats apart that overlap. -/
inductive Trait where
  | vfp | multiple | addrPre | addrUpdate
  deriving DecidableEq

/-! ## Formats

A word is decoded by the first opcode of the table that fits, so a format that is a special case of
another one has to come first. -/

structure Op where
  name : String
  pattern : Pat
  fields : List Field
  traits : List Trait

namespace Op
variable (o : Op)

def fits (o : Op) (w : Nat) : Bool := o.pattern.fits w

def placeOpnds : List Field → List RawOpnd → Res Nat
  | f :: fs, some v :: vs => do return Enc.insert f.ranges v ||| (← placeOpnds fs vs)
  | f :: fs, none :: vs => do if f.ranges.isEmpty then placeOpnds fs vs else throw .wrongSort
  | _, _ => .ok 0

def asm (opnds : List RawOpnd) : Res Nat := do
  ensure (opnds.length == o.fields.length) "number of operands"
  return o.pattern.value ||| (← placeOpnds o.fields opnds)

def opndsOf (w : Nat) : List Nat := o.fields.map fun f => Enc.extract f.ranges w

def patch (w : Nat) (pos : Nat) (v : Int) : Res Nat := do
  ensure (o.fits w) "word of another format"
  let ops := (o.opndsOf w).map fun n => some (Int.ofNat n)
  if ops.length ≤ pos then throw .pastEnd
  o.asm (ops.set pos (some v))

end Op

open Enc (FixedBits Pat)

section
variable (name : String)
variable (bits : List FixedBits)
variable (fields : List Field)

def always : Op := ⟨name, Pat.ofBits bits, fields, []⟩
def cond : Op := always name bits (.pred :: fields)
def float : Op := { cond name bits fields with traits := [.vfp] }

/-- Ways to step the address of a memory access. -/
def standardModes : List (String × List FixedBits) :=
  [("sub_post", [⟨3, 0, 23⟩, ⟨1, 0, 21⟩]), ("add_post", [⟨3, 1, 23⟩, ⟨1, 0, 21⟩]),
    ("sub", [⟨3, 2, 23⟩, ⟨1, 0, 21⟩]), ("add", [⟨3, 3, 23⟩, ⟨1, 0, 21⟩]),
    ("sub_pre", [⟨3, 2, 23⟩, ⟨1, 1, 21⟩]), ("add_pre", [⟨3, 3, 23⟩, ⟨1, 1, 21⟩])]

/-- A way to step the address of a multiple access; some update the base. -/
structure MultiMode where
  name : String
  ext : String
  bits : List FixedBits
  traits : List Trait

def multiModes : List MultiMode :=
  [("", 0, []), ("_update", 1, [.addrUpdate])].flatMap fun (ext, update, traits) =>
    [("da", 0, []), ("ia", 1, []), ("db", 2, [.addrPre]), ("ib", 3, [.addrPre])].map
      fun (name, n, pre) => ⟨name, ext, [⟨3, n, 23⟩, ⟨1, update, 21⟩], .multiple :: pre ++ traits⟩

def root00 : FixedBits := ⟨3, 0, 26⟩
def root01 : FixedBits := ⟨3, 1, 26⟩
def root10 : FixedBits := ⟨3, 2, 26⟩
def root11 : FixedBits := ⟨3, 3, 26⟩
def flagForms : List (String × FixedBits) := [("", ⟨1, 0, 20⟩), ("s", ⟨1, 1, 20⟩)]

def multiplies : List Op :=
  flagForms.flatMap fun (ext, s) =>
    let form name bits := cond (name ++ ext) ([root00, s, ⟨1, 0, 25⟩, ⟨0xf, 0x9, 4⟩] ++ bits)
    [form "mul" [⟨0xf, 0x0, 21⟩, ⟨0xf, 0x0, 12⟩] [.reg16, .reg0, .reg8],
      form "mla" [⟨0xf, 0x1, 21⟩] [.reg16, .reg0, .reg8, .reg12],
      form "umull" [⟨0xf, 0x4, 21⟩] [.reg12, .reg16, .reg0, .reg8],
      form "umlal" [⟨0xf, 0x5, 21⟩] [.reg16, .reg12, .reg0, .reg8],
      form "smull" [⟨0xf, 0x6, 21⟩] [.reg12, .reg16, .reg0, .reg8],
      form "smlal" [⟨0xf, 0x7, 21⟩] [.reg12, .reg16, .reg0, .reg8]]

def halfMultiplies : List Op :=
  cond "mls" [root00, ⟨0xf, 0x3, 21⟩, ⟨1, 0, 20⟩, ⟨1, 0, 25⟩, ⟨0xf, 0x9, 4⟩]
      [.reg16, .reg0, .reg8, .reg12] ::
    [("bb", 8), ("tb", 10), ("bt", 12), ("tt", 14)].flatMap fun (ext, n) =>
      [cond ("smla" ++ ext) [root00, ⟨0x3f, 0x10, 20⟩, ⟨0xf, n, 4⟩] [.reg16, .reg0, .reg8, .reg12],
        cond ("smul" ++ ext) [root00, ⟨0x3f, 0x16, 20⟩, ⟨0xf, 0, 12⟩, ⟨0xf, n, 4⟩]
          [.reg16, .reg0, .reg8]]

def exclusives : List Op :=
  [("", 0x18), ("h", 0x1e), ("b", 0x1c)].map (fun (ext, n) =>
      cond ("strex" ++ ext) [root00, ⟨0x3f, n, 20⟩, ⟨0xf, 0xf, 8⟩, ⟨0xf, 0x9, 4⟩]
        [.reg12, .reg16, .reg0]) ++
    [("", 0x19), ("h", 0x1f), ("b", 0x1d)].map fun (ext, n) =>
      cond ("ldrex" ++ ext) [root00, ⟨0x3f, n, 20⟩, ⟨0xf, 0xf, 8⟩, ⟨0xf, 0x9, 4⟩, ⟨0xf, 0xf, 0⟩]
        [.reg12, .reg16]

def extraAccesses : List Op :=
  standardModes.flatMap fun (mode, step) =>
    [("_imm_" ++ mode, ⟨1, 1, 22⟩ :: step, [Field.reg16, .immSplit]),
      ("_reg_" ++ mode, [⟨1, 0, 22⟩, ⟨0xf, 0, 8⟩] ++ step, [.reg16, .reg0])].flatMap
    fun (variant, bits, fields) =>
      let form name load n :=
        cond (name ++ variant) (bits ++ [root00, ⟨1, 0, 25⟩, ⟨1, load, 20⟩, ⟨0xf, n, 4⟩])
      [form "ldrh" 1 0xb (.reg12 :: fields),
        form "ldrsb" 1 0xd (.reg12 :: fields),
        form "ldrsh" 1 0xf (.reg12 :: fields),
        form "strh" 0 0xb (fields ++ [.reg12]),
        form "ldrd" 0 0xd (.pair12 :: fields),
        form "strd" 0 0xf (fields ++ [.pair12])]

/-- The three shapes of the last operand of a data processing instruction. -/
def flexible : List Op :=
  [cond (name ++ "_regreg") (bits ++ [⟨1, 0, 25⟩, ⟨1, 0, 7⟩, ⟨1, 1, 4⟩])
      (fields ++ [.reg0, .shift, .reg8]),
    cond (name ++ "_regimm") (bits ++ [⟨1, 0, 25⟩, ⟨1, 0, 4⟩]) (fields ++ [.reg0, .shift, .imm7]),
    cond (name ++ "_imm") (bits ++ [⟨1, 1, 25⟩]) (fields ++ [.rotated])]

def arithmetic : List Op :=
  [("and", 0), ("eor", 1), ("sub", 2), ("rsb", 3), ("add", 4), ("adc", 5), ("sbc", 6), ("rsc", 7),
    ("orr", 12), ("bic", 14)].flatMap fun (name, n) =>
    flagForms.flatMap fun (ext, s) =>
      flexible (name ++ ext) [root00, s, ⟨0xf, n, 21⟩] [.reg12, .reg16]

def swapsAndJumps : List Op :=
  let form name n bits := cond name ([root00, ⟨0xf, n, 21⟩, ⟨1, 0, 25⟩, ⟨1, 0, 20⟩] ++ bits)
  [form "swp" 8 [⟨0xff, 9, 4⟩] [.reg12, .reg0, .reg16],
    form "swpb" 0xa [⟨0xff, 9, 4⟩] [.reg12, .reg0, .reg16],
    form "bx" 9 [⟨0xffff, 0xfff1, 4⟩] [.reg0],
    form "blx_reg" 9 [⟨0xffff, 0xfff3, 4⟩] [.reg0],
    form "clz" 0xb [⟨0xff, 0xf1, 4⟩, ⟨0xf, 0xf, 16⟩] [.reg12, .reg0]]

def comparisons : List Op :=
  [("tst", 8), ("teq", 9), ("cmp", 10), ("cmn", 11)].flatMap fun (name, n) =>
    flexible name [root00, ⟨0xf, n, 21⟩, ⟨1, 1, 20⟩, ⟨0xf, 0, 12⟩] [.reg16]

def moves : List Op :=
  ([("mov", 0xd), ("mvn", 0xf)].flatMap fun (name, n) =>
    flagForms.flatMap fun (ext, s) =>
      flexible (name ++ ext) [root00, s, ⟨0xf, n, 21⟩, ⟨0xf, 0, 16⟩] [.reg12]) ++
    [cond "movw" [root00, ⟨0x3f, 0x30, 20⟩] [.reg12, .imm16],
      cond "movt" [root00, ⟨0x3f, 0x34, 20⟩] [.reg12, .imm16]]

def divisions : List Op :=
  [("sdiv", 0x31), ("udiv", 0x33)].map fun (name, n) =>
    cond name [root01, ⟨0x3f, n, 20⟩, ⟨0xf, 0xf, 12⟩, ⟨0xf, 1, 4⟩] [.reg16, .reg0, .reg8]

def extensions : List Op :=
  [("b", 2), ("b16", 0), ("h", 3)].flatMap fun (ext, n) =>
    [("u", 0xb), ("s", 0xa)].flatMap fun (sign, a) =>
      let bits := [root01, ⟨0x3f, 0x7, 4⟩, ⟨0x3, n, 20⟩, ⟨0xf, a, 22⟩]
      [cond s!"{sign}xt{ext}" (⟨0xf, 0xf, 16⟩ :: bits) [.reg12, .reg0, .times8],
        cond s!"{sign}xta{ext}" bits [.reg12, .reg16, .reg0, .times8]]

def reversals : List Op :=
  [("rbit", 0x2ff, 3), ("rev", 0x2bf, 3), ("rev16", 0x2bf, 11)].map fun (name, a, b) =>
    cond name [root01, ⟨0x3ff, a, 16⟩, ⟨0xf, 0xf, 8⟩, ⟨0xf, b, 4⟩] [.reg12, .reg0]

def accesses : List Op :=
  standardModes.flatMap fun (mode, step) =>
    [("_reg_" ++ mode, [⟨1, 1, 25⟩, ⟨1, 0, 4⟩] ++ step, [Field.reg16, .reg0, .shift, .imm7]),
      ("_imm_" ++ mode, ⟨1, 0, 25⟩ :: step, [.reg16, .imm12])].flatMap
    fun (variant, bits, fields) =>
      let form name byte load :=
        cond (name ++ variant) (bits ++ [root01, ⟨1, byte, 22⟩, ⟨1, load, 20⟩])
      [always ("ldp" ++ variant)
          (bits ++ [root01, ⟨1, 1, 22⟩, ⟨1, 1, 20⟩, ⟨0xf, 0xf, 12⟩, ⟨0xf, 0xf, 28⟩]) fields,
        form "ldr" 0 1 (.reg12 :: fields),
        form "str" 0 0 (fields ++ [.reg12]),
        form "ldrb" 1 1 (.reg12 :: fields),
        form "strb" 1 0 (fields ++ [.reg12])]

def multiAccesses : List Op :=
  multiModes.flatMap fun m =>
    let form name load fields :=
      { cond (name ++ m.name ++ m.ext)
          ([root10, ⟨1, 0, 25⟩, ⟨1, load, 20⟩, ⟨1, 0, 22⟩] ++ m.bits) fields with
        traits := m.traits }
    [form "stm" 0 [.reg16, .regList], form "ldm" 1 [.regList, .reg16]]

def branches : List Op :=
  [cond "ud2" [root01, ⟨0x3ffffff, 0x3f000f0, 0⟩] []] ++ multiAccesses ++
    [cond "b" [root10, ⟨1, 1, 25⟩, ⟨1, 0, 24⟩] [.simm24],
      cond "bl" [root10, ⟨1, 1, 25⟩, ⟨1, 1, 24⟩] [.simm24],
      cond "svc" [root11, ⟨3, 3, 24⟩] [.imm24]]

def floatAccesses : List Op :=
  [("_sub", 0), ("_add", 1)].flatMap fun (mode, n) =>
    let form name load size :=
      float (name ++ mode) [root11, ⟨0x3, 1, 24⟩, ⟨0x3, load, 20⟩, ⟨0xf, size, 8⟩, ⟨1, n, 23⟩]
    [form "vldr_f32" 1 0xa [.sreg12, .reg16, .times4],
      form "vldr_f64" 1 0xb [.dreg12, .reg16, .times4],
      form "vstr_f32" 0 0xa [.reg16, .times4, .sreg12],
      form "vstr_f64" 0 0xb [.reg16, .times4, .dreg12]]

def floatTransfers : List Op :=
  [float "vmov_atof" [root11, ⟨0x3f, 4, 20⟩, ⟨0xfd, 0xb1, 4⟩] [.dreg0, .reg12, .reg16],
    float "vmov_ftoa" [root11, ⟨0x3f, 5, 20⟩, ⟨0xfd, 0xb1, 4⟩] [.reg12, .reg16, .dreg0],
    float "vmov_atos" [root11, ⟨0x3f, 0x20, 20⟩, ⟨0xf, 0xa, 8⟩, ⟨0x7f, 0x10, 0⟩] [.sreg16, .reg12],
    float "vmov_stoa" [root11, ⟨0x3f, 0x21, 20⟩, ⟨0xf, 0xa, 8⟩, ⟨0x7f, 0x10, 0⟩] [.reg12, .sreg16]]

def floatConversions : List Op :=
  [("f32_f64", Field.sreg12, Field.dreg0, 0x37, 0xbc), ("f64_f32", .dreg12, .sreg0, 0x37, 0xac),
    ("s32_f64", .sreg12, .dreg0, 0x3d, 0xbc), ("s32_f32", .sreg12, .sreg0, 0x3d, 0xac),
    ("u32_f64", .sreg12, .dreg0, 0x3c, 0xbc), ("u32_f32", .sreg12, .sreg0, 0x3c, 0xac),
    ("f64_s32", .dreg12, .sreg0, 0x38, 0xbc), ("f32_s32", .sreg12, .sreg0, 0x38, 0xac),
    ("f64_u32", .dreg12, .sreg0, 0x38, 0xb4), ("f32_u32", .sreg12, .sreg0, 0x38, 0xa4)].map
    fun (name, dst, src, a, b) =>
      float ("vcvt_" ++ name) [root11, ⟨7, 5, 23⟩, ⟨0x3f, a, 16⟩, ⟨0xfd, b, 4⟩] [dst, src]

/-- The same instruction on single and on double registers. -/
def bothSizes (name suffix : String) (bits : List FixedBits) (single double : List Field) :
  List Op :=
  [float s!"{name}_f32{suffix}" (⟨0xf, 0xa, 8⟩ :: bits) single,
    float s!"{name}_f64{suffix}" (⟨0xf, 0xb, 8⟩ :: bits) double]

def floatComparisons : List Op :=
  [("vcmp", 4), ("vcmpe", 0xc)].flatMap fun (name, c) =>
    let bits := [root11, ⟨3, 3, 20⟩, ⟨7, 5, 23⟩, ⟨0xd, c, 4⟩]
    bothSizes name "" (⟨0xf, 4, 16⟩ :: bits) [.sreg12, .sreg0] [.dreg12, .dreg0] ++
      bothSizes name "_zero" ([⟨0xf, 5, 16⟩, ⟨0x2f, 0, 0⟩] ++ bits) [.sreg12, .floatZero]
        [.dreg12, .floatZero]

def floatUnary : List Op :=
  [("vabs", 0, 0xc), ("vmov", 0, 4), ("vsqrt", 1, 0xc), ("vneg", 1, 4)].flatMap fun (name, b, c) =>
    bothSizes name "" [root11, ⟨7, 5, 23⟩, ⟨0xf, b, 16⟩, ⟨0xd, c, 4⟩, ⟨3, 3, 20⟩] [.sreg12, .sreg0]
      [.dreg12, .dreg0]

def floatBinary : List Op :=
  [("vdiv", 5, 0, 0), ("vmul", 4, 2, 0), ("vadd", 4, 3, 0), ("vsub", 4, 3, 4), ("vnmul", 4, 2, 4),
    ("vnmls", 4, 1, 0), ("vnmla", 4, 1, 4), ("vmls", 4, 0, 4), ("vmla", 4, 0, 0)].flatMap
    fun (name, a, b, c) =>
      bothSizes name "" [root11, ⟨7, a, 23⟩, ⟨3, b, 20⟩, ⟨5, c, 4⟩] [.sreg12, .sreg16, .sreg0]
        [.dreg12, .dreg16, .dreg0]

def floatMulti : List Op :=
  multiModes.flatMap fun m =>
    let form name size load bits fields :=
      { cond s!"{name}{m.name}_{size}{m.ext}"
          ([root11, ⟨1, 0, 25⟩, ⟨1, load, 20⟩] ++ bits ++ m.bits) fields with
        traits := .vfp :: m.traits }
    let single := [⟨0xf, 0xa, 8⟩]
    let double := [⟨0xf, 0xb, 8⟩, ⟨1, 0, 0⟩]
    [form "vldm" "s" 1 single [.sreg12, .regRange0, .reg16],
      form "vldm" "f" 1 double [.dreg12, .regRange1, .reg16],
      form "vstm" "s" 0 single [.reg16, .sreg12, .regRange0],
      form "vstm" "f" 0 double [.reg16, .dreg12, .regRange1]]

def opcodes : List Op :=
  multiplies ++ halfMultiplies ++ exclusives ++ extraAccesses ++ arithmetic ++ swapsAndJumps ++
    comparisons ++ moves ++ divisions ++ extensions ++ reversals ++ accesses ++ branches ++
    floatAccesses ++ floatTransfers ++ floatConversions ++ floatComparisons ++ floatUnary ++
    floatBinary ++ floatMulti ++
    [float "vmrs_APSR_nzcv_fpscr" [root11, ⟨0x3ffffff, 0x2f1fa10, 0⟩] []]

def findOp? : Option Op := opcodes.find? (·.name == name)
def decodeOp? (w : Nat) : Option Op := opcodes.find? (·.fits w)

end

/-! ## Instructions and their text -/

inductive RelocKind where
  | abs32 | call | jump24 | movwAbsNc | movtAbs

namespace RelocKind

def code : RelocKind → Nat
  | abs32 => 2
  | call => 28
  | jump24 => 29
  | movwAbsNc => 43
  | movtAbs => 44

def word : RelocKind → String
  | abs32 => "abs32"
  | call => "call"
  | jump24 => "jump24"
  | movwAbsNc => "movw_abs_nc"
  | movtAbs => "movt_abs"

def name (k : RelocKind) : String := k.word.toUpper

def parse? : String → Option (RelocKind × Bool) :=
  Asm.Reloc.kindOf? word [jump24] [abs32, call, movwAbsNc, movtAbs]

end RelocKind

abbrev Reloc := Asm.Reloc RelocKind

structure Ins where
  opcode : Op
  opnds : List RawOpnd
  reloc : Option Reloc := none

namespace Ins

def decode? (w : Nat) : Option Ins :=
  (decodeOp? w).map fun o => ⟨o, (o.opndsOf w).map fun n => some (Int.ofNat n), none⟩

def asm (i : Ins) : Res Nat := do
  ensure i.reloc.isNone "open reference"
  i.opcode.asm i.opnds

def renderReloc (r : Reloc) (addend : Int) : Res String := do
  match r.kind with
  | .jump24 =>
    ensure r.isLocal "local symbol"
    return "expr:jump24:" ++ r.symbol
  | .movtAbs | .movwAbsNc => return r.text r.kind.word addend
  | .call => return "expr:call:" ++ r.symbol
  | .abs32 => broken "kind of reference"

def mayRefer (f : Field) : Bool := f == .simm24 || f == .imm16

def renderOpnds (reloc : Option Reloc) : Nat → List Field → List RawOpnd → Texts
  | pos, f :: fs, v :: vs => do
    let s ← match reloc with
      | some r => if mayRefer f && r.pos == pos then renderReloc r (v.getD 0) else f.render v
      | none => f.render v
    return s :: (← renderOpnds reloc (pos + 1) fs vs)
  | _, _, _ => .ok []

def render (i : Ins) : Texts := renderOpnds i.reloc 0 i.opcode.fields i.opnds
def parseKind (s : String) : Res (RelocKind × Bool) := defined "relocation" (RelocKind.parse? s)

/-- Read an instruction; a condition that is left out is `al`. -/
def parse (mnemonic : String) (words : List String) : Res Ins := do
  let o ← defined mnemonic (findOp? mnemonic)
  let words := if o.fields.head? == some .pred && words.length + 1 == o.fields.length then
    "al" :: words else words
  ensure (words.length == o.fields.length) "number of operands"
  let (opnds, reloc) ← Asm.Reloc.parseOpnds parseKind Field.parse some 0 o.fields words none
  return ⟨o, opnds, reloc⟩

end Ins

/-! ## Assembling -/

open RelocKind
open Asm (Dialect Linker)
open Elf (Image)

def nop : List UInt8 := [0x00, 0xf0, 0x20, 0xe3]

/-- Append an instruction to the code; its addend stays in the reference. -/
def Ins.emit (i : Ins) (u : Asm.Unit) : Res Asm.Unit := do
  let u ← match i.reloc with
    | none => pure u
    | some r =>
      let (n, u) := u.reference r.symbol r.isLocal
      pure (u.refer r.kind.code .text n (← orFault .wrongSort ((i.opnds[r.pos]?).getD none)) 0)
  return u.append .text (leBytes 4 (← { i with reloc := none }.asm)).toArray

def dialect : Dialect where
  filler := Asm.repeated nop
  addrKind := code .abs32
  instruction := fun m ws u => do (← Ins.parse m ws).emit u

def patchNamed (name : String) (w pos : Nat) (v : Int) : Res Nat := do
  (← defined name (findOp? name)).patch w pos v

def branchDist (place tgt : Int) : Int := dropBits (tgt - place - 8) 2

def resolveWord (kind : Nat) (place tgt : Int) (w : Nat) : Res Int := do
  if kind == code .movwAbsNc then return Int.ofNat (← patchNamed "movw" w 2 (lowBits tgt 16))
  else if kind == code .movtAbs then
    return Int.ofNat (← patchNamed "movt" w 2 (lowBits (dropBits tgt 16) 16))
  else if kind == code .jump24 then
    return Int.ofNat (← patchNamed "b" w 1 (branchDist place tgt))
  else if kind == code .call then
    return Int.ofNat (← patchNamed "bl" w 1 (branchDist place tgt))
  else if kind == code .abs32 then return tgt
  else broken "kind of reference"

def resolve (kind off : Nat) (place tgt : Int) : Image → Res Image :=
  Asm.replaceWord 4 off (resolveWord kind place tgt)

def linker : Linker where
  cls := .c32
  machine := 40
  flags := 0x5000000
  start := 0x20000
  attributes := some [0x41, 0x11, 0, 0, 0, 0x61, 0x65, 0x61, 0x62, 0x69, 0, 1, 7, 0, 0, 0, 8, 1]
  resolve := resolve

end Retarget.A32
