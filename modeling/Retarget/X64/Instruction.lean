import Retarget.Assembly.Unit

/-!
# X64 instructions

A `Slot` is an operand as manuals describe it. A `Field` is an operand of an instruction format, where
a memory operand is split into its base, index, scale and offset. Widths are in bits.
-/

namespace Retarget.X64

inductive Implicit where
  | al | ax | eax | rax | dx | edx | rdx | cl | one
  deriving DecidableEq

def Implicit.name : Implicit → String
  | al => "al"
  | ax => "ax"
  | eax => "eax"
  | rax => "rax"
  | dx => "dx"
  | edx => "edx"
  | rdx => "rdx"
  | cl => "cl"
  | one => "1"

def Implicit.width : Implicit → Nat
  | al | cl | one => 8
  | ax | dx => 16
  | eax | edx => 32
  | rax | rdx => 64

inductive Signs where
  | signed | unsigned | either
  deriving DecidableEq

/-- The operands of an instruction as a manual lists them. -/
inductive Slot where
  /-- A general register in the register bits of the ModRM byte. -/
  | reg (width : Nat)
  /-- A floating point register in the register bits of the ModRM byte. -/
  | xreg (width : Nat)
  | rm (width : Nat)
  | xrm (width : Nat)
  /-- Memory of 32 bits; the format has a register form all the same. -/
  | mem32
  /-- An address that is not accessed. -/
  | addr
  /-- A general register in the low bits of the last opcode byte. -/
  | inOp (width : Nat)
  /-- An immediate that takes `stored` bits and is extended to `shown` bits. -/
  | imm (stored shown : Nat) (signs : Signs)
  | rel (width : Nat)
  | implicit (r : Implicit)
  deriving DecidableEq

namespace Slot

/-- Whether the slot is encoded in the mode and memory bits of the ModRM byte. -/
def isMemory : Slot → Bool
  | rm _ | xrm _ | mem32 | addr => true
  | _ => false

def isXmm : Slot → Bool
  | xreg _ | xrm _ => true
  | _ => false

def width : Slot → Nat
  | reg w | xreg w | rm w | xrm w | inOp w | rel w => w
  | mem32 => 32
  | addr => 0
  | imm stored _ _ => stored
  | implicit r => r.width

def letter : Slot → String
  | reg _ | xreg _ => "R"
  | rm _ | xrm _ | mem32 | addr => "M"
  | inOp _ => "O"
  | imm .. => "I"
  | rel _ => "D"
  | implicit _ => "x"

end Slot

inductive Field where
  | ripBase
  | rmBase
  | off (width : Nat)
  | sibScale
  | sibIdx
  | sibBase
  | sibIdxAsBase
  | imm (stored shown : Nat)
  | dist (width : Nat)
  | regInOp (width : Nat)
  | rmReg (width : Nat)
  | rmXreg (width : Nat)
  | reg (width : Nat)
  | xreg (width : Nat)
  | implicit (r : Implicit)
  deriving DecidableEq

def Field.isBase : Field → Bool
  | ripBase | rmBase | sibBase | sibIdxAsBase => true
  | _ => false

def stems : List String := ["ax", "cx", "dx", "bx", "sp", "bp", "si", "di"]

def upperNames (suffix : String) : List String :=
  (List.range 8).map fun n => s!"r{(n + 8 : Nat)}{suffix}"

def regNames8 : List String :=
  ["al", "cl", "dl", "bl", "spl", "bpl", "sil", "dil"] ++ upperNames "b"

def regNames16 : List String := stems ++ upperNames "w"
def regNames32 : List String := stems.map ("e" ++ ·) ++ upperNames "d"
def regNames64 : List String := stems.map ("r" ++ ·) ++ upperNames ""
def xregNames : List String := (List.range 16).map fun (n : Nat) => s!"xmm{n}"

def regNames (width : Nat) : List String :=
  if width == 8 then regNames8 else if width == 16 then regNames16
  else if width == 32 then regNames32 else regNames64

def regNum? (s : String) : Option Nat :=
  if s == "nobase" || s == "noindex" then some 4
  else if s == "rip" then some 0
  else [regNames8, regNames16, regNames32, regNames64, xregNames].findSome? fun ns =>
    ns.findIdx? (· == s)

/-! ## The X64 instruction table

A `Row` describes an instruction as a manual does. Each way to write its memory operand, a `Form`,
gives one `Op`: the bytes apart from the REX prefix, which of their bits are fixed, and where the
operands go. -/

open Enc (Pat)

/-- How a memory operand is written. Offsets have zero, one or four bytes. -/
inductive Form where
  | plain
  | register
  | idxOnly
  | pcRelative
  | baseIdx (off : Nat)
  | base (off : Nat)
  deriving DecidableEq

namespace Form

def memoryForms : List Form :=
  [idxOnly, pcRelative, baseIdx 0, base 0, baseIdx 1, base 1, baseIdx 4, base 4]

def offBytes : Form → Nat
  | plain | register => 0
  | idxOnly | pcRelative => 4
  | baseIdx n | base n => n

def mode : Form → Nat
  | register => 3
  | plain | idxOnly | pcRelative => 0
  | baseIdx n | base n => if n == 0 then 0 else if n == 1 then 1 else 2

def fixedRm? : Form → Option Nat
  | idxOnly | baseIdx _ => some 4
  | pcRelative => some 5
  | _ => none

def offField (n : Nat) : List Field := if n == 0 then [] else [.off (8 * n)]

def fields (f : Form) : Slot → List Field
  | .xrm w => if f == register then [.rmXreg w] else memory f
  | .rm w => if f == register then [.rmReg w] else memory f
  | .mem32 => if f == register then [.rmReg 32] else memory f
  | _ => memory f
where
  memory : Form → List Field
    | plain | register => []
    | idxOnly => [.sibIdxAsBase, .sibScale, .off 32]
    | pcRelative => [.ripBase, .off 32]
    | baseIdx n => [.sibBase, .sibIdx, .sibScale] ++ offField n
    | base n => .rmBase :: offField n

def suffix (f : Form) (s : Slot) : String :=
  match f with
  | plain => ""
  | register => if s.isXmm then "_mx" else "_mr"
  | idxOnly => "_mi32"
  | pcRelative => "_mpc32"
  | baseIdx n => "_mbis" ++ offName n
  | base n => "_mB" ++ offName n
where
  offName (n : Nat) : String := if n == 0 then "" else decimal (8 * n : Nat)

end Form

structure Row where
  name : String
  slots : List Slot
  rexw : Bool
  code : List UInt8
  /-- What the register bits of the ModRM byte hold in place of a register. -/
  ext : Option Nat

structure CodeByte where
  value : UInt8
  mask : UInt8

structure Op where
  mnemonic : String
  variant : String
  fields : List Field
  rexw : Bool
  bytes : List CodeByte
  modrmPos : Option Nat
  sibPos : Option Nat
  offPos : Option Nat
  immPos : Option Nat
  regPos : Option Nat
  /-- How many bits the memory operand has; zero if memory is not accessed. -/
  memWidth : Nat
  /-- The fixed bits of the first six bytes, the first byte lowest. -/
  pattern : Pat

namespace Row
variable (r : Row)

def forms : List Form :=
  if r.slots.any Slot.isMemory then
    (if r.slots.contains .addr then [] else [.register]) ++ Form.memoryForms
  else [.plain]

variable (f : Form)

def slotFields : Slot → List Field
  | .reg w => [.reg w]
  | .xreg w => [.xreg w]
  | .inOp w => [.regInOp w]
  | .imm stored shown _ => [.imm stored shown]
  | .rel w => [.dist w]
  | .implicit r => [.implicit r]
  | s => f.fields s

def slotSuffix : Slot → String
  | .reg _ | .inOp _ => "_r"
  | .xreg _ => "_x"
  | .imm stored _ _ => s!"_imm{stored}"
  | .rel _ => ""
  | .implicit r => "_" ++ r.name
  | s => f.suffix s

def namesSource (name : String) : Bool :=
  name == "movsx" || name == "movzx" || name == "cvtsi2sd" || name == "cvtsi2ss"

def widthTag : String :=
  let source := if namesSource r.name then s!"_{(r.slots[1]?.map Slot.width).getD 0}" else ""
  match r.slots.head? with
  | none => ""
  | some (.imm _ shown _) => if r.name == "push" then decimal shown else source
  | some s => (if s.isXmm then "" else decimal s.width) ++ source

def variant : String :=
  let alternative := if r.name == "movq" && r.slots[1]? == some (.xrm 64) then "_alt" else ""
  let s := r.widthTag ++ String.join (r.slots.map (slotSuffix f)) ++ alternative
  if s.startsWith "_" then (s.drop 1).toString else s

def codeBytes : List CodeByte :=
  let inOp := r.slots.any fun s => s.letter == "O"
  r.code.zipIdx.map fun (b, i) => ⟨b, if inOp && i + 1 == r.code.length then 0xf8 else 0xff⟩

def modrmByte : CodeByte :=
  let value := f.mode * 64 + (r.ext.getD 0) * 8 + f.fixedRm?.getD 0
  let mask := 0xc0 + (if r.ext.isSome then 0x38 else 0) + (if f.fixedRm?.isSome then 7 else 0)
  ⟨UInt8.ofNat value, UInt8.ofNat mask⟩

def openBytes (n : Nat) : List CodeByte := List.replicate n ⟨0, 0⟩

def immBytes : Nat :=
  (r.slots.findSome? fun
    | .imm stored _ _ => some (stored / 8)
    | _ => none).getD 0

def relBytes : Nat :=
  (r.slots.findSome? fun
    | .rel w => some (w / 8)
    | _ => none).getD 0

def opcode : Op :=
  let code := r.codeBytes
  let modrm := if f == .plain then [] else [r.modrmByte f]
  let sib := match f with
    | .idxOnly => [⟨5, 7⟩]
    | .baseIdx _ => [⟨0, 0⟩]
    | _ => []
  let off := openBytes (f.offBytes + r.relBytes)
  let imm := openBytes r.immBytes
  let sibAt := code.length + modrm.length
  let offAt := sibAt + sib.length
  let bytes := code ++ modrm ++ sib ++ off ++ imm
  let mask := ofLeBytes ((bytes.take 6).map CodeByte.mask)
  { mnemonic := r.name
    variant := r.variant f
    fields := r.slots.flatMap (slotFields f)
    rexw := r.rexw
    bytes
    modrmPos := if modrm.isEmpty then none else some code.length
    sibPos := if sib.isEmpty then none else some sibAt
    offPos := if off.isEmpty then none else some offAt
    immPos := if imm.isEmpty then none else some (offAt + off.length)
    regPos := if r.slots.any fun s => s.letter == "O" then some (code.length - 1) else none
    memWidth := if f == .plain || f == .register then 0 else
      ((r.slots.find? Slot.isMemory).map Slot.width).getD 0
    pattern := ⟨mask, ofLeBytes ((bytes.take 6).map CodeByte.value) &&& mask⟩ }

def opcodes : List Op := r.forms.map r.opcode

end Row

def Op.name (o : Op) : String :=
  if o.variant == "" then o.mnemonic else s!"{o.mnemonic}_{o.variant}"

open Slot

section
variable (name : String)

/-- An instruction on operands of `w` bits: 16 bits need a prefix, 64 bits the REX bit. -/
def sized (w : Nat) (code : List UInt8) (slots : List Slot) (ext : Option Nat := none) : Row :=
  ⟨name, slots, w == 64, if w == 16 then 0x66 :: code else code, ext⟩

def exact (code : List UInt8) (slots : List Slot) (ext : Option Nat := none) : Row :=
  ⟨name, slots, false, code, ext⟩

def acc (w : Nat) : Implicit :=
  if w == 8 then .al else if w == 16 then .ax else if w == 32 then .eax else .rax

/-- The largest immediate for operands of `w` bits: at most 32 bits are stored. -/
def fullImm (w : Nat) : Slot := imm (min w 32) w (if w == 64 then .signed else .either)

variable (b : UInt8)

def byWidth (w : Nat) : List UInt8 := [if w == 8 then b else b + 1]
def allWidths : List Nat := [8, 16, 32, 64]
def wideWidths : List Nat := [16, 32, 64]

def bothWays : List Row :=
  allWidths.map (fun w => sized name w (byWidth b w) [rm w, reg w]) ++
    allWidths.map fun w => sized name w (byWidth (b + 2) w) [reg w, rm w]

def immediates (accCode code : UInt8) (ext : Nat) : List Row :=
  allWidths.map (fun w => sized name w (byWidth accCode w) [implicit (acc w), fullImm w]) ++
    allWidths.map fun w => sized name w (byWidth code w) [rm w, fullImm w] (some ext)

variable (ext : Nat)

def arith (signs : Signs) : List Row :=
  immediates name (b + 4) 0x80 ext ++
    wideWidths.map (fun w => sized name w [0x83] [rm w, imm 8 w signs] (some ext)) ++
    bothWays name b

def shift : List Row :=
  allWidths.flatMap fun w =>
    [sized name w (byWidth 0xd0 w) [rm w, implicit .one] (some ext),
      sized name w (byWidth 0xd2 w) [rm w, implicit .cl] (some ext),
      sized name w (byWidth 0xc0 w) [rm w, imm 8 8 .either] (some ext)]

def accumulate : List Row :=
  sized name 8 [0xf6] [implicit .ax, rm 8] (some ext) :: wideWidths.map fun w =>
      let high := if w == 16 then .dx else if w == 32 then .edx else .rdx
      sized name w [0xf7] [implicit high, implicit (acc w), rm w] (some ext)

def unary : List Row := allWidths.map fun w => sized name w (byWidth b w) [rm w] (some ext)
def toReg (code : List UInt8) : List Row := wideWidths.map fun w => sized name w code [reg w, rm w]

def conds : List (String × UInt8) :=
  [("o", 0), ("no", 1), ("b", 2), ("ae", 3), ("e", 4), ("ne", 5), ("be", 6), ("a", 7), ("s", 8),
    ("ns", 9), ("p", 10), ("np", 11), ("l", 12), ("ge", 13), ("le", 14), ("g", 15)]

def cmovs : List Row := conds.flatMap fun (c, n) => toReg ("cmov" ++ c) [0x0f, 0x40 + n]

def sets : List Row :=
  conds.map fun (c, n) => exact ("set" ++ c) [0x0f, 0x90 + n] [rm 8] (some 0)

def jumps : List Row :=
  (conds.drop 2).flatMap fun (c, n) =>
    [exact ("j" ++ c) [0x70 + n] [rel 8], exact ("j" ++ c) [0x0f, 0x80 + n] [rel 32]]

def exchanges : List Row :=
  allWidths.flatMap fun w =>
    let code := 0x0f :: byWidth 0xb0 w
    let row := sized "cmpxchg" w code [rm w, reg w, implicit (acc w)]
    [row, { row with name := "lockcmpxchg", code := 0xf0 :: row.code }]

def multiplies : List Row :=
  accumulate "imul" 5 ++ toReg "imul" [0x0f, 0xaf] ++
    wideWidths.map (fun w => sized "imul" w [0x6b] [reg w, rm w, imm 8 w .signed]) ++
    wideWidths.map fun w => sized "imul" w [0x69] [reg w, rm w, fullImm w]

def addresses : List Row :=
  [exact "lea" [0x67, 0x8d] [reg 16, addr], exact "lea" [0x8d] [reg 32, addr],
    sized "lea" 64 [0x8d] [reg 64, addr]]

def moves : List Row :=
  allWidths.map (fun w => sized "mov" w (byWidth 0x88 w) [rm w, reg w]) ++
    allWidths.map (fun w => sized "mov" w (byWidth 0xc6 w) [rm w, fullImm w] (some 0)) ++
    allWidths.map (fun w =>
      sized "mov" w [if w == 8 then 0xb0 else 0xb8] [inOp w, imm w w .either]) ++
    allWidths.map fun w => sized "mov" w (byWidth 0x8a w) [reg w, rm w]

def extending : List Row :=
  wideWidths.map (fun w => sized name w [0x0f, b] [reg w, rm 8]) ++
    [32, 64].map fun w => sized name w [0x0f, b + 1] [reg w, rm 16]

def wordExtending : List Row :=
  [(16, 16), (32, 32), (64, 32)].map fun (w, s) => sized "movsxd" w [0x63] [reg w, rm s]

def pushPops : List Row :=
  [exact "pop" [0x66, 0x8f] [rm 16] (some 0), exact "pop" [0x8f] [rm 64] (some 0),
    exact "pop" [0x66, 0x58] [inOp 16], exact "pop" [0x58] [inOp 64],
    exact "push" [0x66, 0xff] [rm 16] (some 6), exact "push" [0xff] [rm 64] (some 6),
    exact "push" [0x66, 0x50] [inOp 16], exact "push" [0x50] [inOp 64],
    exact "push" [0x6a] [imm 8 64 .signed], exact "push" [0x66, 0x68] [imm 16 16 .signed],
    exact "push" [0x68] [imm 32 64 .signed]]

def swaps : List Row :=
  wideWidths.map (fun w => sized "xchg" w [0x90] [inOp w, implicit (acc w)]) ++
    allWidths.map fun w => sized "xchg" w (byWidth 0x86 w) [rm w, reg w]

def counts : List Row := (toReg name [0x0f, b]).map fun r => { r with code := 0xf3 :: r.code }

def fences : List Row :=
  [exact "ldmxcsr" [0x0f, 0xae] [mem32] (some 2), exact "stmxcsr" [0x0f, 0xae] [mem32] (some 3),
    exact "lfence" [0x0f, 0xae, 0xe8] [], exact "mfence" [0x0f, 0xae, 0xf0] [],
    exact "int3" [0xcc] [], exact "syscall" [0x0f, 0x05] [],
    exact "endbr64" [0xf3, 0x0f, 0x1e, 0xfa] []]

def scalars (stem : String) (b : UInt8) : List Row :=
  [exact (stem ++ "sd") [0xf2, 0x0f, b] [xreg 64, xrm 64],
    exact (stem ++ "ss") [0xf3, 0x0f, b] [xreg 32, xrm 32]]

def compares (stem : String) (b : UInt8) : List Row :=
  [exact (stem ++ "sd") [0x66, 0x0f, b] [xreg 64, xrm 64],
    exact (stem ++ "ss") [0x0f, b] [xreg 32, xrm 32]]

def toInt (mark b : UInt8) (w : Nat) : List Row :=
  [32, 64].map fun n => sized name n [mark, 0x0f, b] [reg n, xrm w]

def fromInt (mark : UInt8) (w : Nat) : List Row :=
  [32, 64].map fun n => sized name n [mark, 0x0f, 0x2a] [xreg w, rm n]

def conversions : List Row :=
  toInt "cvtsd2si" 0xf2 0x2d 64 ++ [exact "cvtsd2ss" [0xf2, 0x0f, 0x5a] [xreg 32, xrm 64]] ++
    fromInt "cvtsi2sd" 0xf2 64 ++ fromInt "cvtsi2ss" 0xf3 32 ++
    [exact "cvtss2sd" [0xf3, 0x0f, 0x5a] [xreg 64, xrm 32]] ++
    toInt "cvtss2si" 0xf3 0x2d 32 ++ toInt "cvttsd2si" 0xf2 0x2c 64 ++
    toInt "cvttss2si" 0xf3 0x2c 32

def floatMove (mark : List UInt8) (b back : UInt8) (w : Nat) : List Row :=
  [exact name (mark ++ [0x0f, b]) [xreg w, xrm w],
    exact name (mark ++ [0x0f, back]) [xrm w, xreg w]]

def floatMoves : List Row :=
  floatMove "movapd" [0x66] 0x28 0x29 128 ++ floatMove "movaps" [] 0x28 0x29 128 ++
    [exact "movd" [0x66, 0x0f, 0x7e] [rm 32, xreg 32],
      exact "movd" [0x66, 0x0f, 0x6e] [xreg 32, rm 32]] ++
    floatMove "movdqa" [0x66] 0x6f 0x7f 128 ++ floatMove "movdqu" [0xf3] 0x6f 0x7f 128 ++
    [sized "movq" 64 [0x66, 0x0f, 0x7e] [rm 64, xreg 64],
      sized "movq" 64 [0x66, 0x0f, 0x6e] [xreg 64, rm 64],
      exact "movq" [0xf3, 0x0f, 0x7e] [xreg 64, xrm 64],
      exact "movq" [0x66, 0x0f, 0xd6] [xrm 64, xreg 64]] ++
    floatMove "movsd" [0xf2] 0x10 0x11 64 ++ floatMove "movss" [0xf3] 0x10 0x11 32 ++
    floatMove "movupd" [0x66] 0x10 0x11 128 ++ floatMove "movups" [] 0x10 0x11 128

def packed : List Row :=
  [("pand", 0xdb), ("por", 0xeb), ("pxor", 0xef)].map fun (name, b) =>
    exact name [0x66, 0x0f, b] [xreg 128, xrm 128]

def intRows : List Row :=
  arith "add" 0x00 0 .signed ++ arith "and" 0x20 4 .either ++
    [exact "call" [0xe8] [rel 32], exact "call" [0xff] [rm 64] (some 2),
      sized "cwd" 16 [0x99] [implicit .dx, implicit .ax],
      sized "cdq" 32 [0x99] [implicit .edx, implicit .eax],
      sized "cqo" 64 [0x99] [implicit .rdx, implicit .rax]] ++
    cmovs ++ arith "cmp" 0x38 7 .signed ++ exchanges ++ accumulate "div" 6 ++
    accumulate "idiv" 7 ++ multiplies ++ unary "inc" 0xfe 0 ++ jumps ++
    [exact "jmp" [0xeb] [rel 8], exact "jmp" [0xe9] [rel 32],
      exact "jmp" [0xff] [rm 64] (some 4)] ++
    addresses ++ moves ++ extending "movsx" 0xbe ++ wordExtending ++ extending "movzx" 0xb6 ++
    unary "neg" 0xf6 3 ++ unary "not" 0xf6 2 ++ arith "or" 0x08 1 .signed ++ pushPops ++
    [exact "ret" [0xc3] [], exact "ret" [0xc2] [imm 16 16 .unsigned]] ++
    shift "rol" 0 ++ shift "ror" 1 ++ shift "sar" 7 ++ sets ++ shift "shl" 4 ++ shift "shr" 5 ++
    arith "sub" 0x28 5 .signed ++ immediates "test" 0xa8 0xf6 0 ++
    allWidths.map (fun w => sized "test" w (byWidth 0x84 w) [rm w, reg w]) ++ swaps ++
    arith "xor" 0x30 6 .signed ++ counts "lzcnt" 0xbd ++ counts "popcnt" 0xb8 ++
    counts "tzcnt" 0xbc ++ fences

def floatRows : List Row :=
  scalars "add" 0x58 ++ compares "comi" 0x2f ++ conversions ++ scalars "div" 0x5e ++
    scalars "max" 0x5f ++ scalars "min" 0x5d ++ floatMoves ++ scalars "mul" 0x59 ++ packed ++
    scalars "sqrt" 0x51 ++ scalars "sub" 0x5c ++ compares "ucomi" 0x2e

def rows : List Row := intRows ++ floatRows
def opcodes : List Op := rows.flatMap Row.opcodes

/-- The format with the given name. Mnemonics have no `_` in them, so most formats can be passed over
without making up their name. -/
def findOp? : Option Op :=
  let mnemonic := (name.takeWhile (· != '_')).toString
  opcodes.find? fun o => o.mnemonic == mnemonic && o.name == name

/-- The format of an instruction without its REX prefix. -/
def decodeOp? (rexw : Bool) (data : List UInt8) : Option Op :=
  let w := ofLeBytes (data.take 6)
  opcodes.find? fun o => o.rexw == rexw && o.pattern.fits w

end

/-! ## Bytes and text

The REX prefix, which holds the upper bits of register numbers, is not part of a format: it is
removed before decoding and inserted after encoding. -/

def isLegacyPrefix (b : UInt8) : Bool := b == 0x66 || b == 0xf0 || b == 0xf2 || b == 0xf3
def isRex (b : UInt8) : Bool := b &&& 0xf0 == 0x40

def splitRex : List UInt8 → Nat × List UInt8
  | [] => (0, [])
  | b :: bs =>
    if isLegacyPrefix b then
      let (rex, rest) := splitRex bs
      (rex, b :: rest)
    else if isRex b then (b.toNat, bs)
    else (0, b :: bs)

/-- An instruction has an opcode after its prefixes, and an opcode that starts with `0f` has a
second byte. -/
def checkOp (data : List UInt8) : Res Unit :=
  match data.dropWhile fun b => isLegacyPrefix b || isRex b with
  | [] => broken "no opcode"
  | [b] => if b == 0x0f then .error .pastEnd else .ok ()
  | _ => .ok ()

namespace Op

def regBits (rex : Nat) (data : List UInt8) (pos : Option Nat) (shift rexBit : Nat) : Res Int := do
  let b ← orFault .pastEnd data[pos.getD 0]?
  return Int.ofNat ((b.toNat >>> shift) % 8 + 8 * ((rex >>> rexBit) % 2))

def signedAt (data : List UInt8) (pos : Option Nat) (width : Nat) : Int :=
  let bs := (data.drop (pos.getD 0)).take (width / 8)
  signedOf (ofLeBytes bs) (8 * bs.length)

def checkByteReg (rex width : Nat) (r : Int) : Res Int := do
  ensure (width != 8 || r < 4 || 7 < r || rex != 0) "high byte register"
  return r

variable (o : Op)

def opndOf (rex : Nat) (data : List UInt8) : Field → Res Int
  | .implicit _ | .ripBase => .ok 0
  | .rmReg w => do checkByteReg rex w (← regBits rex data o.modrmPos 0 0)
  | .reg w => do checkByteReg rex w (← regBits rex data o.modrmPos 3 2)
  | .regInOp w => do checkByteReg rex w (← regBits rex data o.regPos 0 0)
  | .rmXreg _ | .rmBase => regBits rex data o.modrmPos 0 0
  | .xreg _ => regBits rex data o.modrmPos 3 2
  | .sibBase => regBits rex data o.sibPos 0 0
  | .sibIdx => regBits rex data o.sibPos 3 1
  | .sibIdxAsBase => do
    let r ← regBits rex data o.sibPos 3 1
    ensure (r != 4) "no index"
    return r
  | .sibScale => return Int.ofNat ((← orFault .pastEnd data[o.sibPos.getD 0]?).toNat >>> 6)
  | .imm stored shown =>
    let v := signedAt data o.immPos stored
    .ok (if shown == 64 then v else lowBits v shown)
  | .off w | .dist w => .ok (signedAt data o.offPos w)

/-- Bytes under construction and the bits of their REX prefix. -/
structure Draft where
  rex : Nat
  bytes : List UInt8

variable (d : Draft)

def Draft.setReg (pos : Option Nat) (shift rexBit : Nat) (v : Int) : Draft where
  rex := d.rex ||| ((v / 8 % 2).toNat <<< rexBit)
  bytes := d.bytes.modify (pos.getD 0) fun b => b ||| UInt8.ofNat ((v % 8).toNat <<< shift)

/-- Place a register number of the given width; `spl` to `dil` force a REX prefix. -/
def Draft.setSizedReg (width : Nat) (pos : Option Nat) (shift rexBit : Nat) (v : Int) : Draft :=
  let d := if width == 8 && 4 ≤ v && v ≤ 7 then { d with rex := d.rex ||| 0x40 } else d
  d.setReg pos shift rexBit v

def Draft.setInt (pos : Option Nat) (width : Nat) (v : Int) : Draft :=
  let p := pos.getD 0
  { d with bytes := d.bytes.take p ++ leBytes (width / 8) v ++ d.bytes.drop (p + width / 8) }

def place : Field → Int → Res Draft
  | .implicit _, _ | .ripBase, _ => .ok d
  | .rmReg w, v => .ok (d.setSizedReg w o.modrmPos 0 0 v)
  | .reg w, v => .ok (d.setSizedReg w o.modrmPos 3 2 v)
  | .regInOp w, v => .ok (d.setSizedReg w o.regPos 0 0 v)
  | .rmXreg _, v | .rmBase, v => .ok (d.setReg o.modrmPos 0 0 v)
  | .xreg _, v => .ok (d.setReg o.modrmPos 3 2 v)
  | .sibBase, v => .ok (d.setReg o.sibPos 0 0 v)
  | .sibIdx, v => .ok (d.setReg o.sibPos 3 1 v)
  | .sibIdxAsBase, v => do
    ensure (v != 4) "no index"
    return d.setReg o.sibPos 3 1 v
  | .sibScale, v => do
    ensure (0 ≤ v && v ≤ 3) "scale"
    return { d with
      bytes := d.bytes.modify (o.sibPos.getD 0) fun b => b ||| UInt8.ofNat (v.toNat <<< 6) }
  | .imm stored _, v => .ok (d.setInt o.immPos stored v)
  | .off w, v | .dist w, v => .ok (d.setInt o.offPos w v)

def Draft.finish : List UInt8 :=
  if d.rex == 0 then d.bytes
  else d.bytes.takeWhile isLegacyPrefix ++ UInt8.ofNat (d.rex ||| 0x40) ::
    d.bytes.dropWhile isLegacyPrefix

def asm (opnds : List Int) : Res (List UInt8) := do
  ensure (opnds.length == o.fields.length) "number of operands"
  let start := ⟨if o.rexw then 8 else 0, o.bytes.map CodeByte.value⟩
  let d ← (o.fields.zip opnds).foldlM (fun d (f, v) => o.place d f v) start
  return d.finish

def fieldNeedsRex : Field → Int → Bool
  | .rmReg w, v | .reg w, v | .regInOp w, v => (w == 8 && 4 ≤ v && v ≤ 7) || v / 8 != 0
  | .rmXreg _, v | .rmBase, v | .xreg _, v | .sibBase, v | .sibIdx, v | .sibIdxAsBase, v =>
    v / 8 != 0
  | _, _ => false

def needsRex (opnds : List Int) : Res Bool := do
  ensure (opnds.length == o.fields.length) "number of operands"
  return o.rexw || (o.fields.zip opnds).any fun (f, v) => fieldNeedsRex f v

end Op

inductive RelocKind where
  | abs64 | pc32 | abs32 | pc8
  deriving DecidableEq

namespace RelocKind

def code : RelocKind → Nat
  | abs64 => 1
  | pc32 => 2
  | abs32 => 10
  | pc8 => 15

def name : RelocKind → String
  | abs64 => "X_64"
  | pc32 => "PC32"
  | abs32 => "X_32"
  | pc8 => "PC8"

def parse? : String → Option (RelocKind × Bool)
  | "pcrel8" => some (pc8, false)
  | "pcrel32" => some (pc32, false)
  | "loc_pcrel8" => some (pc8, true)
  | "loc_pcrel32" => some (pc32, true)
  | "abs32" => some (abs32, false)
  | "abs64" => some (abs64, false)
  | _ => none

end RelocKind

abbrev Reloc := Asm.Reloc RelocKind

structure Ins where
  opcode : Op
  opnds : List Int
  reloc : Option Reloc := none

namespace Ins

def decode (data : List UInt8) : Res (Option Ins) := do
  checkOp data
  let (rex, data) := splitRex data
  match decodeOp? ((rex >>> 3) % 2 == 1) data with
  | none => return none
  | some o => return some ⟨o, ← o.fields.mapM (o.opndOf rex data), none⟩

def asm (i : Ins) : Res (List UInt8) := do
  ensure i.reloc.isNone "open reference"
  i.opcode.asm i.opnds

def length (i : Ins) : Res Nat := do
  return i.opcode.bytes.length + if ← i.opcode.needsRex i.opnds then 1 else 0

def renderReloc (r : Reloc) (addend : Int) : Res String :=
  match r.kind with
  | .pc32 => .ok (r.text "pcrel32" addend)
  | .abs64 => .ok (r.text "abs64" addend)
  | _ => broken "kind of reference"

def signedHex (v : Int) : String := (if v < 0 then "-" else "") ++ "0x" ++ hex 1 v.natAbs
def regName (names : List String) (v : Int) : Res String := orFault .pastEnd names[v.toNat]?

def renderOpnd (listing : Bool) : Field → Int → Res String
  | .implicit r, _ => .ok r.name
  | .rmReg w, v | .reg w, v | .regInOp w, v => regName (regNames w) v
  | .rmXreg _, v | .xreg _, v => regName xregNames v
  | .rmBase, v | .sibBase, v => regName regNames64 v
  | .ripBase, _ => .ok "rip"
  | .sibIdxAsBase, v => if v = 4 then .ok "nobase" else regName regNames64 v
  | .sibIdx, v => if v = 4 then .ok "noindex" else regName regNames64 v
  | .sibScale, v => .ok (decimal (if listing then Int.ofNat (1 <<< v.toNat) else v))
  | .imm .., v => .ok (signedHex (if span 63 ≤ v then v - span 64 else v))
  | .off _, v | .dist _, v => .ok (if listing then signedHex v else decimal v)

def render (i : Ins) : Texts := do
  ensure (i.opnds.length == i.opcode.fields.length) "number of operands"
  (i.opcode.fields.zip i.opnds).zipIdx.mapM fun ((f, v), pos) =>
    match i.reloc.filter fun r => r.pos == pos with
    | some r => renderReloc r v
    | none => renderOpnd false f v

/-- The operands in a disassembly listing: the width of a memory operand stands before its base,
an index that is not there is left out together with its scale, and so are implicit operands. -/
def listingWords (i : Ins) : Nat → List (Field × Int) → Texts
  | pos, (f, v) :: rest =>
    if f == .sibIdx && v == 4 then listingWords i (pos + 2) (rest.drop 1)
    else do
      let width :=
        if f.isBase && i.opcode.memWidth != 0 then [s!"MEM{i.opcode.memWidth}"]
        else []
      let word ← match i.reloc.filter fun r => r.pos == pos with
        | some r => do pure [← renderReloc r v]
        | none => match f with
          | .implicit _ => pure []
          | f => do pure [← renderOpnd true f v]
      return width ++ word ++ (← listingWords i (pos + 1) rest)
  | _, [] => .ok []
termination_by _ l => l.length
decreasing_by all_goals simp; try omega

def renderListing (i : Ins) : Texts := do
  ensure (i.opnds.length == i.opcode.fields.length) "number of operands"
  listingWords i 0 (i.opcode.fields.zip i.opnds)

def parseOpnd (f : Field) (s : String) : Res Int :=
  match f with
  | .implicit _ => .ok 0
  | .imm .. | .off _ | .dist _ | .sibScale => readInt s
  | _ => (defined s (regNum? s)).map Int.ofNat

def parseKind (s : String) : Res (RelocKind × Bool) :=
  need "unknown reference" (RelocKind.parse? s)

def parse (mnemonic : String) (words : List String) : Res Ins := do
  let o ← defined mnemonic (findOp? mnemonic)
  let (opnds, reloc) ← Asm.Reloc.parseOpnds parseKind parseOpnd id 0 o.fields words none
  return ⟨o, opnds, reloc⟩

end Ins

/-! ## Assembling -/

open Asm (Dialect Linker Padding splice)
open Elf (Image)

def nops : List (List UInt8) :=
  [[], [0x90], [0x66, 0x90], [0x0f, 0x1f, 0x00], [0x0f, 0x1f, 0x40, 0x00],
    [0x0f, 0x1f, 0x44, 0x00, 0x00], [0x66, 0x0f, 0x1f, 0x44, 0x00, 0x00],
    [0x0f, 0x1f, 0x08, 0x00, 0x00, 0x00, 0x00], [0x0f, 0x1f, 0x84, 0x00, 0x00, 0x00, 0x00, 0x00],
    [0x66, 0x0f, 0x1f, 0x84, 0x00, 0x00, 0x00, 0x00, 0x00]]

def longestNop : List UInt8 := [0x66, 0x0f, 0x1f, 0x84, 0x00, 0x00, 0x00, 0x00, 0x00]

def textFiller (n : Nat) : List UInt8 :=
  if 9 < n then longestNop ++ textFiller (n - 9) else nops.getD n []

def Op.distToEnd (o : Op) : Res Nat := do
  match o.offPos, o.immPos with
  | some p, _ | none, some p => return o.bytes.length - p
  | none, none => broken "no place for a reference"

/-- Append an instruction to the code. A distance is counted from the end of the instruction. -/
def Ins.emit (i : Ins) (u : Asm.Unit) : Res Asm.Unit := do
  match i.reloc with
  | none => return u.append .text (← i.asm).toArray
  | some r =>
    let (n, u) := u.reference r.symbol r.isLocal
    let addend ← orFault .pastEnd i.opnds[r.pos]?
    let bytes ← { i with reloc := none }.asm
    let dist ← i.opcode.distToEnd
    let addend := if r.kind = .pc32 then addend - dist else addend
    let u := u.refer r.kind.code .text n addend ((bytes.length : Int) - dist)
    return u.append .text bytes.toArray

def dialect : Dialect where
  filler := fun _ _ gap => .ok (textFiller gap)
  addrKind := RelocKind.code .abs64
  instruction := fun m ws u => do (← Ins.parse m ws).emit u

def resolve (kind off : Nat) (place tgt : Int) (bytes : Image) : Res Image := do
  if kind == RelocKind.code .pc32 then
    ensure (off + 4 ≤ bytes.size) "reference at the end"
    let v := tgt - place
    ensure (-(span 31 : Int) ≤ v && v < span 31) "reference out of range"
    return splice bytes off 4 (leBytes 4 v)
  else if kind == RelocKind.code .abs64 then
    if tgt < 0 || span 64 ≤ tgt then throw .overflow
    return splice bytes off 8 (leBytes 8 tgt)
  else broken "kind of reference"

def linker : Linker where
  cls := .c64
  machine := 62
  flags := 0
  start := 0x400000
  attributes := none
  resolve := resolve

end Retarget.X64
