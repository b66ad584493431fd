import Retarget.Backend.Target
import Retarget.A32.Instruction

/-!
# Compiling for A32

A template is an opcode with a *slot* for each operand: a fixed number, or how the number is found
in the instruction that is compiled, in the stack frame, or in the context of the function.
-/

namespace Retarget.A32
open IR (CpuReg Kind CallConv)

/-! ## Registers

The floating point file is seen as 32 single or 16 double registers. -/

def gprFam : Nat := 1
def fltFam : Nat := 2
def dblFam : Nat := 4

def gprNames : List String :=
  ["r0", "r1", "r2", "r3", "r4", "r5", "r6", "r7", "r8", "r9", "r10", "r11", "r12", "sp", "lr",
    "pc"]

section
variable (n : Nat)

def gpr : CpuReg := ⟨gprNames.getD n "", n, gprFam⟩
def flt : CpuReg := ⟨s!"s{n}", n, fltFam⟩
def dbl : CpuReg := ⟨s!"d{n}", n, dblFam⟩

def registers : List CpuReg :=
  (List.range 16).map gpr ++ (List.range 32).map flt ++ (List.range 16).map dbl

/-- Registers for values of the given kinds: the next general register, or the next single one, or
the next double one at an even position; `g` and `s` count what is taken. -/
def argRegs : List Kind → Nat → Nat → Res (List CpuReg)
  | [], _, _ => .ok []
  | k :: ks, g, s => do
    if k = .f32 then
      ensure (s < 16) "too many arguments"
      return flt s :: (← argRegs ks g (s + 1))
    else if k = .f64 then
      let s := if s % 2 = 1 then s + 1 else s
      ensure (s / 2 < 8) "too many arguments"
      return dbl (s / 2) :: (← argRegs ks g (s + 2))
    else
      ensure (k == .c32 || k == .s32 || k == .a32 || k == .u32) "kind of argument"
      ensure (g ≤ 6) "too many arguments"
      if g = 6 then throw .pastEnd
      return gpr g :: (← argRegs ks (g + 1) s)

def convention : CallConv := ⟨(argRegs · 0 0), (argRegs · 0 0)⟩

open IR (Fn Prog)
open Backend

/-- What a pattern asks of an operand: nothing, or a literal of a certain shape. The shapes named
`stack` speak about the sum of a literal and the offset of a stack area. -/
inductive Curb where
  | free
  | rotated | negRotated | notRotated
  | bits (width : Nat) | neg (width : Nat) | bits8x4 | neg8x4 | any32
  | stackRotated | stackBits (width : Nat) | stack8x4
  | zero
  deriving DecidableEq

namespace Curb

def name : Curb → String
  | free => "invalid"
  | rotated => "pos_8_bits_shifted"
  | negRotated => "neg_8_bits_shifted"
  | notRotated => "not_8_bits_shifted"
  | bits w => s!"pos_{w}_bits"
  | neg w => s!"neg_{w}_bits"
  | bits8x4 => "pos_8_bits_times_4"
  | neg8x4 => "neg_8_bits_times_4"
  | any32 => "any_32_bits"
  | stackRotated => "pos_stk_combo_8_bits_shifted"
  | stackBits w => s!"pos_stk_combo_{w}_bits"
  | stack8x4 => "pos_stk_combo_8_bits_times_4"
  | zero => "zero"

def isRotated (n : Int) : Bool := (encodeRotated? (lowBits n 32).toNat).isSome
def toWord (n : Int) : Int := if n < 0 then n + span 32 else n

def admitsInt (n : Int) : Curb → Bool
  | free => false
  | rotated => isRotated n
  | stackRotated => (encodeRotated? (toWord n).toNat).isSome
  | negRotated => isRotated (-n)
  | notRotated => isRotated (-n - 1)
  | bits w | stackBits w => 0 ≤ n && n < span w
  | neg w => -(span w : Int) < n && n ≤ 0
  | bits8x4 => 0 ≤ n / 4 && n / 4 < span 8 && n % 4 == 0
  | neg8x4 => -(span 8 : Int) < n / 4 && n / 4 ≤ 0 && n % 4 == 0
  | stack8x4 => 0 ≤ n / 4 && n / 4 < span 8
  | any32 => true
  | zero => n == 0

def rules : CurbRules Curb where
  isFree c := c == free
  onStack
    | stackRotated | stackBits _ | stack8x4 => true
    | _ => false
  admits
    | c, .int n => c.admitsInt n
    | c, .real _ => c == any32

end Curb

/-- How an operand of an instruction is found. Numbers are positions of operands of the instruction
that is being compiled. -/
inductive Slot where
  | fixed (n : Int)
  | reg (n : Nat)
  | num (n : Nat)
  | numNeg (n : Nat)
  | numNot (n : Nat)
  | numHalf (n : Nat) (high : Bool)
  /-- Halves of the address of a region plus a literal. -/
  | mem (high : Bool)
  | fn (high : Bool)
  | table (high : Bool)
  | blk (n : Nat)
  | callee
  | tempFlt | tempGpr
  | savedGpr | restoredGpr
  | savedFltFirst | savedFltCount | restoredFltFirst | restoredFltCount
  /-- The offset of a stack area plus the literal after it. -/
  | stack (n : Nat)
  | stackHalf (n : Nat) (high : Bool)
  | frameSize

structure Tmpl where
  opcode : String
  slots : List Slot

/-- What the code of a function depends on: registers to restore and to save, as bit sets, and the
size of the stack frame below them. -/
structure Ctx where
  restoredGpr : Nat := 0
  restoredFlt : Nat := 0
  savedGpr : Nat := 0
  savedFlt : Nat := 0
  stack : Int := 0
  temp : Temp := none

def Ctx.frameSize (c : Ctx) : Int :=
  8 * bitCount c.restoredFlt + 4 * bitCount c.restoredGpr + c.stack

def bitSpan : Nat × Nat :=
  let first := ((List.range (n.log2 + 1)).find? n.testBit).getD 0
  (first, n.log2 + 1 - first)

def noReg : Int := -2

def Ctx.tempFlt (c : Ctx) : Res Int := do
  match ← c.temp.cpuReg? with
  | some r =>
    ensure (r.fam != gprFam) "scratch register"
    return r.no
  | none => return noReg

def half (high : Bool) (v : Int) : Int := lowBits (if high then dropBits v 16 else v) 16

/-- The number for a slot. References to symbols start from zero. -/
def Slot.value (f : Fn) (c : Ctx) (i : IR.Ins) : Slot → Res Int
  | fixed n => .ok n
  | reg n => regNum f i n
  | num n => litNum f i n
  | numNeg n => do return lowBits (-(← litNum f i n)) 32
  | numNot n => do return lowBits (-(← litNum f i n) - 1) 32
  | numHalf n high => do return half high (← litNum f i n)
  | mem _ | fn _ | table _ | blk _ | callee => .ok 0
  | tempFlt => c.tempFlt
  | tempGpr => c.temp.number gprFam
  | savedGpr => .ok c.savedGpr
  | restoredGpr => .ok c.restoredGpr
  | savedFltFirst => .ok (bitSpan c.savedFlt).1
  | savedFltCount => .ok (bitSpan c.savedFlt).2
  | restoredFltFirst => .ok (bitSpan c.restoredFlt).1
  | restoredFltCount => .ok (bitSpan c.restoredFlt).2
  | stack n => stackOff f i n
  | stackHalf n high => do return half high (← stackOff f i n)
  | frameSize => .ok c.frameSize

def Field.scale (f : Field) (v : Int) : Res Int :=
  match f with
  | .rotated => do
    return (← need "no rotated byte" (encodeRotated? (Curb.toWord v).toNat) : Nat)
  | .simm24 => .ok (lowBits v 24)
  | .times8 => .ok (v / 8)
  | .times4 => .ok (v / 4)
  | _ => .ok v

def Slot.reference (p : Prog) (f : Fn) (i : IR.Ins) (pos : Nat) : Slot → Res (Option (Int × Reloc))
  | mem high => memRef p f i 1 (kind high) pos
  | fn high => do return some (0, ⟨kind high, false, pos, ← fnName p i 1⟩)
  | table high => do return some (0, ⟨kind high, true, pos, ← tableName f i 1⟩)
  | blk n => do return some (0, ⟨.jump24, true, pos, ← blkName f i n⟩)
  | callee => do return some (0, ⟨.call, false, pos, ← definedFn p i 0⟩)
  | _ => .ok none
where
  kind (high : Bool) : RelocKind := if high then .movtAbs else .movwAbsNc

def Tmpl.make (p : Prog) (f : Fn) (c : Ctx) (i : IR.Ins) (t : Tmpl) : Res Ins := do
  let o ← defined t.opcode (findOp? t.opcode)
  let (opnds, reloc) ← Asm.Reloc.fill (fun (fld, s) => do some <$> fld.scale (← s.value f c i))
    (fun pos (_, s) => s.reference p f i pos) some 0 (o.fields.zip t.slots)
  return ⟨o, opnds, reloc⟩

/-!
## Patterns for A32

The patterns of each opcode, in order of preference. Narrow integers only occur in loads, stores,
moves and conversions; everything else works on 32 bits.
-/

abbrev CodePat := Pat Curb Tmpl
abbrev Pats := List CodePat

def pat (kinds : List Kind) (curbs : List (Nat × Curb)) (emit : List Tmpl) : CodePat :=
  ⟨kinds, (List.range kinds.length).map fun n => (curbs.lookup n).getD .free, emit⟩

inductive Cond where
  | eq | ne | cs | cc | mi | pl | vs | vc | hi | ls | ge | lt | gt | le | al

variable (c : Cond)

def onCond (opcode : String) (slots : List Slot) : Tmpl := ⟨opcode, .fixed c.ctorIdx :: slots⟩
def tmpl (opcode : String) (slots : List Slot) : Tmpl := onCond .al opcode slots

def row (kinds : List Kind) (curbs : List (Nat × Curb)) (opcode : String) (slots : List Slot) :
  CodePat := pat kinds curbs [tmpl opcode slots]

def sp : Slot := .fixed 13
def pc : Slot := .fixed 15
def r7 : Slot := .fixed 7
def lsl : Slot := .fixed 0
def lsr : Slot := .fixed 1
def asr : Slot := .fixed 2
def zero : Slot := .fixed 0
def rg : Slot := .reg n
def numberKinds : List Kind := [.u32, .s32]
def wordKinds : List Kind := [.u32, .s32, .a32, .c32]

/-- A move to the first operand; a literal of 16 bits needs another opcode. -/
def moveOn (src : Nat) (curb : Curb) : Tmpl :=
  if curb = .bits 16 then onCond c "movw" [rg 0, .num src]
  else onCond c "mov_regimm" [rg 0, rg src, lsl, zero]

def moveHalves (dst : Slot) (part : Bool → Slot) : List Tmpl :=
  [tmpl "movw" [dst, part false], tmpl "movt" [dst, part true]]

def addSp : Tmpl := tmpl "add_regimm" [rg 0, sp, rg 0, lsl, zero]

/-! ## Loads -/

/-- The name of a load with the shift operands of a register offset, if it takes any. -/
structure Access where
  name : String
  shift : List Slot

variable (name : String)

def wordAccess : Access := ⟨name, [lsl, zero]⟩
def halfAccess : Access := ⟨name, []⟩

def loads : List (Kind × Access) :=
  wordKinds.map (·, wordAccess "ldr") ++ [(.u8, wordAccess "ldrb")]

def halfLoads : List (Kind × Access) :=
  [(.s8, halfAccess "ldrsb"), (.u16, halfAccess "ldrh"), (.s16, halfAccess "ldrsh")]

def floatLoads : List (Kind × String) := [(.f32, "vldr_f32"), (.f64, "vldr_f64")]

/-- Patterns for each kind of the table and each kind of offsets. -/
def overOffs {α : Type} (table : List (Kind × α)) (make : α → Kind → Kind → Pats) : Pats :=
  table.flatMap fun (k, a) => numberKinds.flatMap (make a k)

def loadPats : Pats :=
  (overOffs loads fun a k off =>
    [row [k, .a32, off] [] (a.name ++ "_reg_add") ([rg 0, rg 1, rg 2] ++ a.shift),
      row [k, .a32, off] [(2, .bits 12)] (a.name ++ "_imm_add") [rg 0, rg 1, .num 2],
      row [k, .a32, off] [(2, .neg 12)] (a.name ++ "_imm_sub") [rg 0, rg 1, .numNeg 2]]) ++
  (overOffs floatLoads fun name k off =>
    [row [k, .a32, off] [(2, .bits8x4)] (name ++ "_add") [rg 0, rg 1, .num 2],
      row [k, .a32, off] [(2, .neg8x4)] (name ++ "_sub") [rg 0, rg 1, .numNeg 2]]) ++
  overOffs halfLoads fun a k off =>
    [row [k, .a32, off] [] (a.name ++ "_reg_add") [rg 0, rg 1, rg 2],
      row [k, .a32, off] [(2, .neg 8)] (a.name ++ "_imm_sub") [rg 0, rg 1, .numNeg 2],
      row [k, .a32, off] [(2, .bits 8)] (a.name ++ "_imm_add") [rg 0, rg 1, .num 2]]

def stackLoad (near : Curb) (a : Access) (k off : Kind) : Pats :=
  let indexed := tmpl (a.name ++ "_reg_add") ([rg 0, sp, rg 0] ++ a.shift)
  [row [k, .invalid, off] [(2, near)] (a.name ++ "_imm_add") [rg 0, sp, .stack 1],
    pat [k, .invalid, off] [(2, .stackBits 16)] [tmpl "movw" [rg 0, .stack 1], indexed],
    pat [k, .invalid, off] [(2, .any32)] (moveHalves (rg 0) (.stackHalf 1) ++ [indexed])]

variable (k off : Kind)

def floatStackLoad : Pats :=
  [row [k, .invalid, off] [(2, .stack8x4)] (name ++ "_add") [rg 0, sp, .stack 1],
    pat [k, .invalid, off] [(2, .stackBits 16)] [tmpl "movw" [.tempGpr, .stackHalf 1 false],
        tmpl "add_regimm" [.tempGpr, sp, .tempGpr, lsl, zero],
        tmpl (name ++ "_add") [.tempGpr, .tempGpr, zero]]]

/-! ## Stores -/

def stores : List (Kind × Access) :=
  wordKinds.map (·, wordAccess "str") ++ [(.u8, wordAccess "strb"), (.s8, wordAccess "strb")]

def halfStores : List (Kind × Access) := [(.u16, halfAccess "strh"), (.s16, halfAccess "strh")]
def floatStores : List (Kind × String) := [(.f32, "vstr_f32"), (.f64, "vstr_f64")]

def storeTo (small negative : Curb) (a : Access) (k off : Kind) : Pats :=
  [row [.a32, off, k] [] (a.name ++ "_reg_add") ([rg 0, rg 1] ++ a.shift ++ [rg 2]),
    row [.a32, off, k] [(1, small)] (a.name ++ "_imm_add") [rg 0, .num 1, rg 2],
    row [.a32, off, k] [(1, negative)] (a.name ++ "_imm_sub") [rg 0, .numNeg 1, rg 2]]

def floatStoreTo : Pats :=
  [row [.a32, off, k] [(1, .bits8x4)] (name ++ "_add") [rg 0, .num 1, rg 2],
    row [.a32, off, k] [(1, .neg8x4)] (name ++ "_sub") [rg 0, .numNeg 1, rg 2]]

/-- Stores to the stack; an offset that the store cannot hold is built in a scratch register. -/
def stackStore (near : Curb) (a : Access) (k off : Kind) : Pats :=
  let indexed := tmpl (a.name ++ "_reg_add") ([sp, .tempGpr] ++ a.shift ++ [rg 2])
  [row [.invalid, off, k] [(1, near)] (a.name ++ "_imm_add") [sp, .stack 0, rg 2],
    pat [.invalid, off, k] [(1, .stackBits 16)] [tmpl "movw" [.tempGpr, .stackHalf 0 false], indexed],
    pat [.invalid, off, k] [(1, .any32)] (moveHalves .tempGpr (.stackHalf 0) ++ [indexed])]

/-- The second pattern bounds the stored value where its offset is meant, so it never applies. -/
def floatStackStore : Pats :=
  [row [.invalid, off, k] [(1, .stack8x4)] (name ++ "_add") [sp, .stack 0, rg 2],
    pat [.invalid, off, k] [(2, .stackBits 16)] [tmpl "movw" [.tempGpr, .stackHalf 0 false],
        tmpl "add_regimm" [.tempGpr, sp, .tempGpr, lsl, zero],
        tmpl (name ++ "_add") [.tempGpr, zero, rg 2]]]

/-! ## Compare and swap -/

/-- A loop: load, leave if the value differs, store, and start again if that failed. -/
def casWord : CodePat :=
  pat [k, k, k, .a32, off] [(4, .zero)] [tmpl "ldrex" [.tempGpr, rg 3],
      tmpl "eors_regimm" [.tempGpr, .tempGpr, rg 1, lsl, zero],
      onCond .ne "eor_regimm" [rg 0, .tempGpr, rg 1, lsl, zero],
      onCond .ne "b" [.fixed 3],
      tmpl "strex" [.tempGpr, rg 3, rg 2],
      tmpl "cmp_imm" [.tempGpr, zero],
      onCond .ne "b" [.fixed (-8)],
      tmpl "mov_regimm" [rg 0, rg 1, lsl, zero]]

/-- As `casWord`; the comparison is limited to the low bits by a shift. -/
def casNarrow (suffix : String) (shift : Int) (k off : Kind) : CodePat :=
  pat [k, k, k, .a32, off] [(4, .zero)] [tmpl ("ldrex" ++ suffix) [.tempGpr, rg 3],
      tmpl "eor_regimm" [.tempGpr, .tempGpr, rg 1, lsl, zero],
      tmpl "movs_regimm" [.tempGpr, .tempGpr, lsl, .fixed shift],
      onCond .ne "eor_regimm" [.tempGpr, .tempGpr, rg 1, lsl, .fixed shift],
      onCond .ne "movs_regimm" [rg 0, .tempGpr, lsr, .fixed shift],
      onCond .ne "b" [.fixed 3],
      tmpl ("strex" ++ suffix) [.tempGpr, rg 3, rg 2],
      tmpl "cmp_imm" [.tempGpr, zero],
      onCond .ne "b" [.fixed (-10)],
      tmpl "mov_regimm" [rg 0, rg 1, lsl, zero]]

/-! ## Arithmetic -/

def floatKinds : List (Kind × String) := [(.f32, "_f32"), (.f64, "_f64")]

def floatAlu : Pats :=
  floatKinds.map fun (k, suffix) => row [k, k, k] [] (name ++ suffix) [rg 0, rg 1, rg 2]

def wordAlu (k : Kind) : Pats :=
  [row [k, k, k] [] (name ++ "_regimm") [rg 0, rg 1, rg 2, lsl, zero],
    row [k, k, k] [(2, .rotated)] (name ++ "_imm") [rg 0, rg 1, .num 2]]

def regAlu (k : Kind) : CodePat := row [k, k, k] [] name [rg 0, rg 1, rg 2]

def shiftBy (mode : Slot) (k : Kind) : Pats :=
  [row [k, k, k] [] "mov_regreg" [rg 0, rg 1, mode, rg 2],
    row [k, k, k] [(2, .bits 5)] "mov_regimm" [rg 0, rg 1, mode, .num 2]]

def leaPats : Pats :=
  numberKinds.flatMap fun k =>
    [row [.a32, .a32, k] [] "add_regimm" [rg 0, rg 1, rg 2, lsl, zero],
      row [.a32, .a32, k] [(2, .rotated)] "add_imm" [rg 0, rg 1, .num 2],
      row [.a32, .a32, k] [(2, .negRotated)] "sub_imm" [rg 0, rg 1, .numNeg 2]]

def leaStackPats : Pats :=
  numberKinds.flatMap fun k =>
    [row [.a32, .invalid, k] [(2, .stackRotated)] "add_imm" [rg 0, sp, .stack 1],
      pat [.a32, .invalid, k] [(2, .stackBits 16)] [tmpl "movw" [rg 0, .stack 1], addSp],
      pat [.a32, .invalid, k] [(2, .any32)] (moveHalves (rg 0) (.stackHalf 1) ++ [addSp])]

/-! ## Moves and conversions -/

def movePats : Pats :=
  ([Kind.u32, .s32, .a32, .c32, .u16, .s16, .u8, .s8].flatMap fun k =>
    [row [k, k] [(1, .rotated)] "mov_imm" [rg 0, .num 1],
      row [k, k] [(1, .notRotated)] "mvn_imm" [rg 0, .numNot 1],
      row [k, k] [(1, .bits 16)] "movw" [rg 0, .num 1],
      pat [k, k] [] [moveOn .al 1 .free],
      pat [k, k] [(1, .any32)] (moveHalves (rg 0) (.numHalf 1))]) ++
  floatKinds.map fun (k, suffix) => row [k, k] [] ("vmov" ++ suffix) [rg 0, rg 1]

def retype (dst src : List Kind) : Pats :=
  dst.flatMap fun k => src.map fun l => pat [k, l] [] [moveOn .al 1 .free]

def convertPats : Pats :=
  retype [.u32, .s32, .u16, .s16, .u8, .s8] [.u32, .s32] ++
  retype [.u16, .s16, .u8, .s8] [.u16, .s16] ++
  retype [.u8, .s8] [.u8, .s8] ++
  (numberKinds.flatMap fun k =>
    [(Kind.u8, "uxtb"), (.u16, "uxth"), (.s8, "sxtb"), (.s16, "sxth")].map fun (l, name) =>
      row [k, l] [] name [rg 0, rg 1, zero]) ++
  [(Kind.s32, "s32"), (.u32, "u32")].flatMap fun (l, name) =>
    (floatKinds.map fun (k, suffix) =>
      pat [l, k] [] [tmpl s!"vcvt_{name}{suffix}" [.tempFlt, rg 1],
        tmpl "vmov_stoa" [rg 0, .tempFlt]]) ++
    [(Kind.f32, rg 0), (.f64, .tempFlt)].map fun (k, via) =>
      pat [k, l] [] [tmpl "vmov_atos" [via, rg 1], tmpl s!"vcvt_{k.name.toLower}_{name}" [rg 0, via]]

/-! ## Branches -/

def branchOn : Tmpl := onCond c "b" [.blk 2]
def compareRegs (a b : Nat) : Tmpl := tmpl "cmp_regimm" [rg a, rg b, lsl, zero]
def compareLit (a b : Nat) : Tmpl := tmpl "cmp_imm" [rg a, .num b]

def compareFloats (a b : Nat) : List Tmpl :=
  [tmpl name [rg a, rg b], tmpl "vmrs_APSR_nzcv_fpscr" []]

def floatBranch : Pats :=
  floatKinds.map fun (k, suffix) =>
    pat [k, k, .invalid] [] (compareFloats ("vcmp" ++ suffix) 0 1 ++ [branchOn c])

def branchIfEqual : Pats :=
  (wordKinds.flatMap fun k =>
    [pat [k, k, .invalid] [] [compareRegs 0 1, branchOn c],
      pat [k, k, .invalid] [(1, .rotated)] [compareLit 0 1, branchOn c]]) ++ floatBranch c

/-- Branches on an order: conditions for signed and unsigned words, each also with the sources
exchanged, and for floating point numbers. -/
def branchIfLess (signed unsigned signedSwapped unsignedSwapped float : Cond) : Pats :=
  ([Kind.u32, .a32, .c32, .s32].flatMap fun k =>
    let c := if k = .s32 then signed else unsigned
    let swapped := if k = .s32 then signedSwapped else unsignedSwapped
    [pat [k, k, .invalid] [] [compareRegs 0 1, branchOn c],
      pat [k, k, .invalid] [(1, .rotated)] [compareLit 0 1, branchOn c],
      pat [k, k, .invalid] [(0, .rotated)] [compareLit 1 0, branchOn swapped]]) ++
  floatBranch float

/-! ## Conditional moves -/

def choiceCurbs : List (Curb × Curb) :=
  [(.free, .free), (.free, .bits 16), (.bits 16, .free), (.bits 16, .bits 16)]

variable (c inverse : Cond)

def choose (first second : Curb) : List Tmpl := [moveOn c 1 first, moveOn inverse 2 second]

def choosePat (k l : Kind) (first second : Curb) (extra : List (Nat × Curb))
  (emit : List Tmpl) : CodePat :=
  pat [k, k, k, l, l] ([(1, first), (2, second)] ++ extra) emit

def chooseBy (k l : Kind) : Pats :=
  choiceCurbs.flatMap fun (x, y) =>
    [choosePat k l x y [] (compareRegs 3 4 :: choose c inverse x y),
      choosePat k l x y [(4, .rotated)] (compareLit 3 4 :: choose c inverse x y)]

def chooseSwapped (k l : Kind) : Pats :=
  choiceCurbs.map fun (x, y) =>
    choosePat k l x y [(3, .rotated)] (compareLit 4 3 :: choose c inverse x y)

def chooseByFloats (k : Kind) : Pats :=
  floatKinds.map fun (l, suffix) =>
    choosePat k l .free .free []
      (compareFloats ("vcmpe" ++ suffix) 3 4 ++ choose c inverse .free .free)

def cmpLessPats : Pats :=
  (wordKinds.flatMap fun k => [Kind.u32, .s32, .a32].flatMap fun l =>
    if l = .s32 then chooseBy .lt .ge k l else chooseBy .cc .cs k l) ++
  (wordKinds.flatMap fun k => [Kind.u32, .s32, .a32].flatMap fun l =>
    if l = .s32 then chooseSwapped .gt .le k l else chooseSwapped .hi .ls k l) ++
  wordKinds.flatMap (chooseByFloats .lt .pl)

/-! ## Other instructions -/

/-- The number of the call goes to `r7`, which is saved twice to keep the stack aligned. -/
def syscallPats : Pats :=
  let push := tmpl "str_imm_sub_pre" [sp, .fixed 4, r7]
  let pop := tmpl "ldr_imm_add_post" [r7, sp, .fixed 4]
  [pat [.invalid, .u32] [(1, .bits 16)]
    [push, push, tmpl "movw" [r7, .num 1], tmpl "svc" [zero], pop, pop]]

def pats : IR.Op → Pats
  | .ld => loadPats
  | .ldStk => overOffs loads (stackLoad (.stackBits 12)) ++ overOffs floatLoads floatStackLoad ++
    overOffs halfLoads (stackLoad (.stackBits 8))
  | .st => overOffs stores (storeTo (.bits 12) (.neg 12)) ++ overOffs floatStores floatStoreTo ++
    overOffs halfStores (storeTo (.bits 8) (.neg 8))
  | .stStk => overOffs stores (stackStore (.stackBits 12)) ++ overOffs floatStores floatStackStore ++
    overOffs halfStores (stackStore (.stackBits 8))
  | .cas => (wordKinds.flatMap fun k => numberKinds.map (casWord k)) ++
    ([Kind.u16, .s16].flatMap fun k => numberKinds.map (casNarrow "h" 16 k)) ++
    ([Kind.u8, .s8].flatMap fun k => numberKinds.map (casNarrow "b" 24 k))
  | .and => numberKinds.flatMap fun k => wordAlu "and" k ++
    [row [k, k, k] [(2, .notRotated)] "bic_imm" [rg 0, rg 1, .numNot 2]]
  | .or => numberKinds.flatMap (wordAlu "orr")
  | .xor => numberKinds.flatMap (wordAlu "eor")
  | .add => numberKinds.flatMap (wordAlu "add") ++ floatAlu "vadd"
  | .sub => (numberKinds.flatMap fun k => wordAlu "sub" k ++
    [row [k, k, k] [(1, .rotated)] "rsb_imm" [rg 0, rg 2, .num 1]]) ++ floatAlu "vsub"
  | .mul => numberKinds.map (regAlu "mul") ++ floatAlu "vmul"
  | .div => [regAlu "udiv" .u32, regAlu "sdiv" .s32] ++ floatAlu "vdiv"
  | .cntlz => numberKinds.map fun k => row [k, k] [] "clz" [rg 0, rg 1]
  | .cnttz => numberKinds.map fun k =>
    pat [k, k] [] [tmpl "rbit" [rg 0, rg 1], tmpl "clz" [rg 0, rg 0]]
  | .shl => numberKinds.flatMap (shiftBy lsl)
  | .shr => shiftBy lsr .u32 ++ shiftBy asr .s32
  | .leaFun => [pat [.c32, .invalid] [] (moveHalves (rg 0) .fn)]
  | .lea => leaPats
  | .leaMem => numberKinds.map fun k =>
    pat [.a32, .invalid, k] [(2, .any32)] (moveHalves (rg 0) .mem)
  | .leaStk => leaStackPats
  | .mov => movePats
  | .getfp => [pat [.a32] [] [tmpl "movw" [rg 0, .frameSize], addSp]]
  | .getsp => [row [.a32] [] "mov_regimm" [rg 0, sp, lsl, zero]]
  | .beq => branchIfEqual .eq
  | .bne => branchIfEqual .ne
  | .blt => branchIfLess .lt .cc .gt .hi .mi
  | .ble => branchIfLess .le .ls .ge .cs .ls
  | .cmpeq => (wordKinds.flatMap fun k => wordKinds.flatMap (chooseBy .eq .ne k)) ++
    wordKinds.flatMap (chooseByFloats .eq .ne)
  | .cmplt => cmpLessPats
  | .bra => [row [.invalid] [] "b" [.blk 0]]
  | .bsr => [row [.invalid] [] "bl" [.callee]]
  | .jsr => [row [.c32, .invalid] [] "blx_reg" [rg 0]]
  | .trap => [row [] [] "ud2" []]
  | .syscall => syscallPats
  | .switch => [pat [.u32, .invalid] []
    (moveHalves .tempGpr .table ++ [tmpl "ldr_reg_add" [pc, .tempGpr, rg 0, lsl, .fixed 2]])]
  | .conv => convertPats
  | .bitcast => retype wordKinds wordKinds
  | _ => []

end

/-! ## Stages

All registers have 32 bits, so narrow values are widened first. Shifts by more than 31 bits have to
be avoided. -/

open IR (Fn CpuReg)
open Backend (usedRegs)

/-- The units of its file that a register occupies: a double register takes two. -/
def units (c : CpuReg) : List Nat :=
  if c.fam = dblFam then [2 * c.no, 2 * c.no + 1] else [c.no]

/-! ## Stack frames

On exit everything is undone in the opposite order. Stack adjustments are split into rotated bytes. -/

def isGpr (c : CpuReg) : Bool := c.fam == gprFam
def gprSurvives (n : Nat) : Bool := 6 ≤ n && n ≤ 11
def fltSurvives (n : Nat) : Bool := 16 ≤ n && n ≤ 31
def linkUnit : Nat := 14
def counterUnit : Nat := 15
def bitSet (units : List Nat) : Nat := units.foldl (fun m n => m ||| span n) 0

def ctx (f : Fn) : Res Ctx := do
  let regs ← usedRegs f
  let gpr := (regs.filter isGpr).flatMap units
  let flt := (regs.filter fun c => !isGpr c).flatMap units
  let savesLink := !f.isLeaf || gpr.contains linkUnit
  let gprSet := gpr.filter gprSurvives
  let fltSet := bitSet (flt.filter fltSurvives)
  let saved := bitSet (if savesLink then linkUnit :: gprSet else gprSet)
  let restored := bitSet (if savesLink then counterUnit :: gprSet else gprSet)
  let bytes : Int := 4 * (bitCount restored + bitCount fltSet)
  return { restoredGpr := restored, restoredFlt := fltSet, savedGpr := saved, savedFlt := fltSet,
           stack := (f.frameSize + bytes + 15) / 16 * 16 - bytes }

def highByte (n : Nat) : Nat := if n < 256 then n else 4 * highByte (n / 4)

theorem highByte_pos {n : Nat} (h : 0 < n) : 0 < highByte n := by
  fun_induction highByte n with
  | case1 => exact h
  | case2 n _ ih => have := ih (by omega); omega

def highBytes (n : Nat) : List Nat :=
  if h : n = 0 then []
  else
    have := highByte_pos (Nat.pos_of_ne_zero h)
    highByte n :: highBytes (n - highByte n)
termination_by n

def adjustStack (opcode : String) (bytes : Int) : List Tmpl :=
  (highBytes bytes.toNat).map fun (n : Nat) => tmpl opcode [sp, sp, .fixed n]

def prolog (c : Ctx) : List Tmpl :=
  (if c.savedGpr = 0 then [] else [tmpl "stmdb_update" [sp, .savedGpr]]) ++
  (if c.savedFlt = 0 then [] else [tmpl "vstmdb_s_update" [sp, .savedFltFirst, .savedFltCount]]) ++
  adjustStack "sub_imm" c.stack

def epilog (c : Ctx) : List Tmpl :=
  adjustStack "add_imm" c.stack ++
  (if c.restoredFlt = 0 then [] else
    [tmpl "vldmia_s_update" [.restoredFltFirst, .restoredFltCount, sp]]) ++
  (if c.restoredGpr = 0 then [] else [tmpl "ldmia_update" [.restoredGpr, sp]]) ++
  (if c.restoredGpr.testBit counterUnit then [] else [tmpl "bx" [.fixed linkUnit]])

open IR List
open Backend

def kindMap : KindMap
  | .s8 | .s16 | .s32 | .u8 | .u16 | .u32 | .a32 | .c32 => some .s32
  | .f32 => some .f32
  | .f64 => some .f64
  | _ => none

def candidates (k : Kind) : List CpuReg :=
  if k = .f64 then (range 16).map dbl
  else if k = .f32 then (range 32).map flt
  else (range 16).map gpr

def gprFile : RegFile := ⟨range 13 ++ [linkUnit], gprSurvives⟩
def fltFile : RegFile := ⟨range 32, fltSurvives⟩

def regFiles : Registers where
  gpr := gprFile
  flt := fltFile
  candidates := candidates
  holds _ := true
  units := units
  isGpr := isGpr

/-- The first position from which two units in a row are free, and how far the search for single
units has to start then. -/
def findPair (free : List Nat) : List Nat → Nat → Option Nat × Nat
  | [], pos => (none, pos)
  | d :: ds, pos =>
    if free.contains d && free.contains (d + 1) then (some d, pos)
    else if !free.contains d && !free.contains (d + 1) && pos == d then findPair free ds (pos + 2)
    else findPair free ds pos

/-- Give units to registers in turn. `later` is used once `free` is empty; a double register for
which there is no pair stays without a register and is not returned either. -/
def assignUnits : List RegId → List Nat → List Nat → Nat → Pass (List RegId)
  | [], _, _, _ => pure []
  | r :: rs, free, later, pos => do
    let (free, later, pos) := if free.isEmpty then (later, [], 0) else (free, later, pos)
    if free.isEmpty then return r :: (← assignUnits rs [] [] pos)
    let k := ((← get).reg r).kind
    if k = .f64 then
      let start := pos / 2
      let (found, pos) := findPair free ((range ((33 - start) / 2)).map fun n => start + 2 * n) pos
      match found with
      | some d =>
        setHome r (.cpu (dbl (d / 2)))
        assignUnits rs (free.filter fun u => u != d && u != d + 1) later pos
      | none => assignUnits rs free later pos
    else
      match free.find? fun u => pos ≤ u with
      | some u =>
        Pass.require (((← get).reg r).home == .free) "register has a home"
        setHome r (.cpu (if k = .f32 then flt u else gpr u))
        assignUnits rs (free.filter fun v => v != u) later (u + 1)
      | none => return r :: (← assignUnits rs free later pos)

def globalPlan : GlobalPlan where
  kinds := kindMap
  files :=
    [.of gprFile [(.s32, 1)] isGpr (assignUnits · · · 0),
     .of fltFile [(.f32, 1), (.f64, 2)] (!isGpr ·) (assignUnits · · · 0)]
  inPlace := false

/-- Switches and swaps compute an address or a difference; conversions between integers and floating
point numbers pass through a single register. -/
def tempNeed (f : Fn) (i : IR.Ins) : Option (Kind × String) :=
  match i.op with
  | .switch => some (.c32, "switch")
  | .cas => some (.u32, "cas")
  | .conv =>
    let dst := f.kindOf (i.arg 0)
    let src := f.kindOf (i.arg 1)
    if dst.isInt && src.isFloat then some (.f32, "ftoi")
    else if src.isInt && dst = .f64 then some (.f32, "itof")
    else none
  | _ => none

def localPlan : LocalPlan := ⟨regFiles, true, tempNeed, false⟩

def legalize (p : Prog) : Res Prog := do
  overFns (fun p f => do
    let p ← runAll p f ((fun _ => discard <| limitShifts 32) :: widenNarrow)
    legalizeFn convention Curb.rules pats .a32 expandCntpops p f) (← prepare p)

def insText (i : Ins) : Res String := do
  return i.opcode.name ++ " " ++ " ".intercalate (← i.render)

def codeRules : CodeRules Ctx Tmpl Ins where
  ctx := ctx
  prolog c := .ok (prolog c)
  epilog c := .ok (epilog c)
  withTemp c h := { c with temp := some h }
  select f i := do return (← Pat.find Curb.rules f i (pats i.op)).map Pat.emit
  make := Tmpl.make
  refusesExternal := true
  addrSize := 4

def tgt : Tgt where
  legalize := legalize
  globals := globalPlan
  locals := localPlan
  reports := true
  text := assemblyText codeRules insText
  unit := assemblyUnit codeRules ⟨dialect.filler, dialect.addrKind, 4, Ins.emit, Ins.parse⟩
  linker := linker

def reportCtx (name : String) : Ctx :=
  { restoredGpr := 0xfc0, restoredFlt := 0xfc0, savedGpr := 0xffff0000, savedFlt := 0xffff0000,
    stack := 66
    temp := if mentions name "gpr_scratch" then some (.cpu (gpr 6)) else none }

def selectionReport (p : Prog) : List String × Option Fault :=
  (reportProg p (reportIns ⟨Curb.rules, Curb.name, pats, reportCtx, Tmpl.make, insText⟩)).pieces

end Retarget.A32
