import Retarget.Backend.Target
import Retarget.A64.Instruction

/-!
# Compiling for A64

A template is an opcode with a *slot* for each operand. Numbers in slots are encoded for the field
of the operand, so a template is only completed with numbers that fit.
-/

namespace Retarget.A64
open IR (CpuReg Kind CallConv)

def gprFam : Nat := 1
def fltFam : Nat := 2
def gpr (n : Nat) : CpuReg := ⟨if n = 31 then "sp" else s!"x{n}", n, gprFam⟩
def flt (n : Nat) : CpuReg := ⟨s!"d{n}", n, fltFam⟩
def registers : List CpuReg := (List.range 32).map gpr ++ (List.range 32).map flt
def fltArgs : List Nat := List.range 8 ++ (List.range 16).map (· + 16)

/-- Registers for values of the given kinds; `g` and `s` count what is taken of each file. -/
def argRegs : List Kind → Nat → Nat → Res (List CpuReg)
  | [], _, _ => .ok []
  | k :: ks, g, s => do
    if k = .f32 || k = .f64 then
      match fltArgs[s]? with
      | some n => return flt n :: (← argRegs ks g (s + 1))
      | none => broken "too many arguments"
    else
      ensure (k == .s32 || k == .u32 || k == .c64 || k == .s64 || k == .a64 || k == .u64)
        "kind of argument"
      ensure (g ≤ 16) "too many arguments"
      if g = 16 then throw .pastEnd
      return gpr g :: (← argRegs ks (g + 1) s)

def convention : CallConv := ⟨(argRegs · 0 0), (argRegs · 0 0)⟩

open IR (Fn Prog)
open Backend Field

inductive Curb where
  | free | zero | any
  | shifted12 | logical32 | logical64 | shifted16 | notShifted16
  | stackShifted12 | stack16 | stack32 | stack12 (scale : Nat)
  | bits32
  deriving DecidableEq

namespace Curb

def name : Curb → String
  | free => "INVALID"
  | zero => "ZERO"
  | any => "ANY"
  | shifted12 => "IMM_SHIFTED_10_21_22"
  | logical32 => "IMM_10_15_16_22_W"
  | logical64 => "IMM_10_15_16_22_X"
  | shifted16 => "IMM_SHIFTED_5_20_21_22"
  | notShifted16 => "IMM_SHIFTED_5_20_21_22_NOT"
  | stackShifted12 => "pos_stk_combo_shifted_10_21_22"
  | stack16 => "pos_stk_combo_16_bits"
  | stack32 => "pos_stk_combo_32_bits"
  | stack12 scale => "pos_stk_combo_10_21" ++ if scale = 1 then "" else s!"_times_{scale}"
  | bits32 => "IMM_POS_32"

def admitsInt (n : Int) : Curb → Bool
  | free => false
  | zero => n == 0
  | any => true
  | shifted12 | stackShifted12 => (encode? .shifted12 n).isSome
  | logical32 => (encode? .logical32 n).isSome
  | logical64 => (encode? .logical64 n).isSome
  | shifted16 => (encode? .shifted16 n).isSome
  | notShifted16 => (encode? .shifted16 (-n - 1)).isSome
  | stack12 scale => (encode? (.imm12 scale) n).isSome
  | stack16 => 0 ≤ n && n < span 16
  | stack32 | bits32 => 0 ≤ n && n < span 32

def rules : CurbRules Curb where
  isFree c := c == free
  onStack
    | stackShifted12 | stack16 | stack32 | stack12 _ => true
    | _ => false
  admits
    | c, .int n => c.admitsInt n
    | zero, .real x => x.isZero
    | c, .real _ => c == any

end Curb

inductive Slot where
  | fixed (n : Int)
  | reg (n : Nat)
  | num (n : Nat)
  /-- The complement of a literal within the width of its kind. -/
  | numNot (n : Nat)
  /-- Sixteen bits of the second operand; `n` counts from the lowest ones. -/
  | numPart (n : Nat)
  /-- The width of the third operand less its value, and less one more. -/
  | widthLess | widthLessOne
  | blk (n : Nat)
  | callee
  | tempGpr | tempFlt
  /-- The page of an address relative to this one, and the rest within the page. -/
  | mem (page : Bool)
  | fn (page : Bool)
  | table (page : Bool)
  | stack (n : Nat)
  | frameSize

structure Tmpl where
  opcode : String
  slots : List Slot

/-- What the code of a function depends on: the registers to save, in ascending order, and the size
of the stack frame below them. -/
structure Ctx where
  gpr : List Nat := []
  flt : List Nat := []
  stack : Int := 0
  temp : Temp := none

def evenUp (n : Nat) : Nat := (n + 1) / 2 * 2

def Ctx.frameSize (c : Ctx) : Int :=
  8 * (evenUp c.flt.length + evenUp c.gpr.length) + c.stack

def helperReg : Nat := 16

def widthLess (f : Fn) (i : IR.Ins) : Res Int := do
  let width := (← litAt f i 2).kind.bits
  let v ← litNum f i 2
  ensure (1 ≤ v && v ≤ width) "shift amount"
  return width - v

def Slot.value (f : Fn) (c : Ctx) (i : IR.Ins) : Slot → Res Int
  | fixed n => .ok n
  | reg n => regNum f i n
  | num n => litNum f i n
  | numNot n => do
    let width := (← litAt f i n).kind.bits
    return lowBits (-(← litNum f i n) - 1) width
  | numPart n => do return lowBits (dropBits (← litNum f i 1) (16 * n)) 16
  | widthLess => A64.widthLess f i
  | widthLessOne => do return (← A64.widthLess f i) - 1
  | blk _ | callee | mem _ | fn _ | table _ => .ok 0
  | tempGpr => .ok helperReg
  | tempFlt => c.temp.number fltFam
  | stack n => stackOff f i n
  | frameSize => .ok c.frameSize

def Slot.reference (p : Prog) (f : Fn) (i : IR.Ins) (pos : Nat) : Slot → Res (Option (Int × Reloc))
  | blk n => do
    let kind := if n = 0 then .jump26 else .condBr19
    return some (0, ⟨kind, true, pos, ← blkName f i n⟩)
  | callee => do return some (0, ⟨.call26, false, pos, ← definedFn p i 0⟩)
  | mem page => memRef p f i 1 (kind page) pos
  | fn page => do return some (0, ⟨kind page, false, pos, ← definedFn p i 1⟩)
  | table page => do return some (0, ⟨kind page, true, pos, ← tableName f i 1⟩)
  | _ => .ok none
where
  kind (page : Bool) : RelocKind := if page then .adrPrelPgHi21 else .addAbsLo12Nc

def Tmpl.make (p : Prog) (f : Fn) (c : Ctx) (i : IR.Ins) (t : Tmpl) : Res Ins := do
  let o ← defined t.opcode (findOp? t.opcode)
  let (opnds, reloc) ← Asm.Reloc.fill (fun (fld, s) => do fld.encode (← s.value f c i))
    (fun pos (_, s) => s.reference p f i pos) id 0 (o.fields.zip t.slots)
  return ⟨o, opnds, reloc⟩

/-!
## Patterns for A64

The patterns of each opcode, in order of preference. Opcodes have a form `w` for 32 bits and a form
`x` for 64 bits; floating point opcodes have forms `s` and `d`.
-/

abbrev CodePat := Pat Curb Tmpl
abbrev Pats := List CodePat

def pat (kinds : List Kind) (curbs : List (Nat × Curb)) (emit : List Tmpl) : CodePat :=
  ⟨kinds, (List.range kinds.length).map fun n => (curbs.lookup n).getD .free, emit⟩

def tmpl (opcode : String) (slots : List Slot) : Tmpl := ⟨opcode, slots⟩

def row (kinds : List Kind) (curbs : List (Nat × Curb)) (opcode : String) (slots : List Slot) :
  CodePat := pat kinds curbs [tmpl opcode slots]

def rg (n : Nat) : Slot := .reg n

/-- Number 31 is the zero register or the stack pointer, depending on the field. -/
def zr : Slot := .fixed 31
def sp : Slot := .fixed 31
def linkReg : Slot := .fixed 30
def zero : Slot := .fixed 0
def lsl : Slot := .fixed 0
def uxtw : Slot := .fixed 0
def sxtw : Slot := .fixed 1
def wKinds : List Kind := [.u32, .s32]
def xKinds : List Kind := [.u64, .s64, .a64, .c64]
def xNums : List Kind := [.u64, .s64]
def marked : List (Kind × String) := [(.u32, "w"), (.s32, "w"), (.u64, "x"), (.s64, "x")]
def markedWords : List (Kind × String) := wKinds.map (·, "w") ++ xKinds.map (·, "x")
def floats : List (Kind × String) := [(.f32, "s"), (.f64, "d")]
def offKinds : List Kind := [.s64, .u64, .s32, .u32]
def copyReg : Tmpl := tmpl "orr_x_reg" [rg 0, zr, rg 1, lsl, zero]
def addSp : Tmpl := tmpl "add_x_reg_uxtx" [rg 0, sp, rg 0, zero]

/-! ## Loads and stores -/

def loads : List (Kind × String) :=
  xKinds.map (·, "ldr_x") ++ [(.u32, "ldr_w"), (.s32, "ldrsw"), (.u16, "ldr_h"), (.s16, "ldrsh_x"),
    (.u8, "ldr_b"), (.s8, "ldrsb_x"), (.f32, "fldr_s"), (.f64, "fldr_d")]

def loadPats : Pats :=
  loads.flatMap fun (k, name) =>
    ([Kind.s64, .u64].map fun o =>
      row [k, .a64, o] [] (name ++ "_reg_x") [rg 0, rg 1, rg 2, lsl, zero]) ++
    ([(Kind.s32, sxtw), (.u32, uxtw)].map fun (o, extend) =>
      row [k, .a64, o] [] (name ++ "_reg_w") [rg 0, rg 1, rg 2, extend, zero]) ++
    offKinds.map fun o =>
      row [k, .a64, o] [(2, .zero)] (name ++ "_imm") [rg 0, rg 1, .num 2]

/-- Loads from the stack; those of 16 bits extend the sign of unsigned numbers and do not extend
that of signed ones. -/
def stackLoads : List (Kind × String) :=
  loads.map fun (k, name) => (k, if k = .u16 then "ldrsh_x" else if k = .s16 then "ldr_h" else name)

def stackLoadPats : Pats :=
  (stackLoads.flatMap fun (k, name) => offKinds.map fun o =>
    row [k, .invalid, o] [(2, .stack12 (k.bits / 8))] (name ++ "_imm") [rg 0, sp, .stack 1]) ++
  stackLoads.flatMap fun (k, name) => offKinds.map fun o =>
    pat [k, .invalid, o] [(2, .stack16)] [tmpl "movz_x_imm" [.tempGpr, .stack 1],
        tmpl (name ++ "_reg_w") [rg 0, sp, .tempGpr, uxtw, zero]]

def stores : List (Kind × String) :=
  xKinds.map (·, "str_x") ++ [(.u32, "str_w"), (.s32, "str_w"), (.u16, "str_h"), (.s16, "str_h"),
    (.u8, "str_b"), (.s8, "str_b"), (.f32, "fstr_s"), (.f64, "fstr_d")]

def storePats : Pats :=
  stores.flatMap fun (k, name) =>
    ([Kind.s64, .u64].map fun o =>
      row [.a64, o, k] [] (name ++ "_reg_x") [rg 0, rg 1, lsl, zero, rg 2]) ++
    [(Kind.s32, sxtw), (.u32, uxtw)].map fun (o, extend) =>
      row [.a64, o, k] [] (name ++ "_reg_w") [rg 0, rg 1, extend, zero, rg 2]

def stackStorePats : Pats :=
  (stores.flatMap fun (k, name) => offKinds.map fun o =>
    row [.invalid, o, k] [(1, .stack12 (k.bits / 8))] (name ++ "_imm") [sp, .stack 0, rg 2]) ++
  stores.flatMap fun (k, name) => offKinds.map fun o =>
    pat [.invalid, o, k] [(1, .stack16)] [tmpl "movz_x_imm" [.tempGpr, .stack 0],
        tmpl (name ++ "_reg_w") [sp, .tempGpr, uxtw, zero, rg 2]]

/-! ## Compare and swap -/

/-- Clear the upper bits of the scratch register; `flags` sets the condition. -/
def zeroExtend (bits : Nat) (flags : String) : Tmpl :=
  let s := Slot.tempGpr
  if bits = 8 then tmpl s!"and{flags}_x_imm" [s, s, .fixed 0xff]
  else if bits = 16 then tmpl s!"and{flags}_x_imm" [s, s, .fixed 0xffff]
  else if bits = 32 then tmpl s!"add{flags}_w_imm" [s, s, zero]
  else tmpl s!"add{flags}_x_imm" [s, s, zero]

def swapLoop (k : Kind) (width : String) : List Tmpl :=
  let s := Slot.tempGpr
  let flip := tmpl "eor_x_reg" [s, s, rg 1, lsl, zero]
  [tmpl ("ldaxr_" ++ width) [s, rg 3], flip, zeroExtend k.bits "s", flip, zeroExtend k.bits "",
    tmpl "b_ne" [.fixed 4],
    tmpl ("stlxr_" ++ width) [s, rg 3, rg 2],
    tmpl "cbnz_w" [s, .fixed (-7)],
    tmpl "orr_x_reg" [s, zr, rg 1, lsl, zero],
    tmpl "orr_x_reg" [rg 0, zr, s, lsl, zero]]

def casPats : Pats :=
  (markedWords ++ [(Kind.u16, "h"), (.s16, "h"), (.u8, "b"), (.s8, "b")]).flatMap fun (k, width) =>
    offKinds.map fun o => pat [k, k, k, .a64, o] [(4, .zero)] (swapLoop k width)

/-! ## Arithmetic -/

section
variable (name : String)

def regAlu : Pats :=
  marked.map fun (k, w) =>
    row [k, k, k] [] s!"{name}_{w}_reg" [rg 0, rg 1, rg 2, lsl, zero]

def floatAlu : Pats :=
  floats.map fun (k, w) => row [k, k, k] [] s!"{name}_{w}" [rg 0, rg 1, rg 2]

def floatAlu1 : Pats :=
  floats.map fun (k, w) => row [k, k] [] s!"{name}_{w}" [rg 0, rg 1]

def bitwise : Pats :=
  regAlu name ++ marked.map fun (k, w) =>
    row [k, k, k] [(2, if w = "w" then .logical32 else .logical64)] s!"{name}_{w}_imm"
      [rg 0, rg 1, .num 2]

/-- A sum or difference; the second source may be a shifted immediate. -/
def additive : Pats :=
  regAlu name ++ marked.map fun (k, w) =>
    row [k, k, k] [(2, .shifted12)] s!"{name}_{w}_imm" [rg 0, rg 1, .num 2]

def subPats : Pats :=
  additive "sub" ++
  (marked.map fun (k, w) =>
    row [k, k, k] [(1, .zero)] s!"sub_{w}_reg" [rg 0, zr, rg 2, lsl, zero]) ++
  floatAlu "fsub"

def signs : List (Kind × String × String) :=
  [(.u32, "u", "w"), (.s32, "s", "w"), (.u64, "u", "x"), (.s64, "s", "x")]

def shrPats : Pats :=
  (signs.map fun (k, s, w) =>
    row [k, k, k] [] ((if s = "u" then "lsrv_" else "asrv_") ++ w) [rg 0, rg 1, rg 2]) ++
  signs.map fun (k, s, w) =>
    row [k, k, k] [(2, .any)] s!"{s}bfm_{w}"
      [rg 0, rg 1, .num 2, .fixed (if w = "w" then 31 else 63)]

def cntpopPats : Pats :=
  let s := Slot.tempFlt
  let count := [tmpl "cnt_8b" [s, s], tmpl "uaddlv_8b" [s, s], tmpl "fmov_w_from_s" [rg 0, s]]
  marked.map fun (k, w) =>
    pat [k, k] [] ((if w = "w" then
          [tmpl "orr_w_reg" [rg 0, zr, rg 1, lsl, zero], tmpl "fmov_d_from_x" [s, rg 0]]
        else [tmpl "fmov_d_from_x" [s, rg 1]]) ++ count)

/-- The sign of the third operand is tested in a general register, and a branch skips the negation.
The distance of the branch for doubles is zero. -/
def copysignPats : Pats :=
  (floats.map fun (k, w) => row [k, k, k] [(2, .zero)] ("fabs_" ++ w) [rg 0, rg 1]) ++
  [pat [.f32, .f32, .f32] [] [tmpl "fmov_w_from_s" [.tempGpr, rg 2], tmpl "fabs_s" [rg 0, rg 1],
      tmpl "tbz" [.tempGpr, .fixed 31, .fixed 2], tmpl "fneg_s" [rg 0, rg 0]],
    pat [.f64, .f64, .f64] []
    [tmpl "fmov_x_from_d" [.tempGpr, rg 2], tmpl "fabs_d" [rg 0, rg 1],
      tmpl "tbz" [.tempGpr, .fixed 63, zero], tmpl "fneg_d" [rg 0, rg 0]]]

/-! ## Addresses -/

def leaPats : Pats :=
  (xNums.map fun k => row [.a64, .a64, k] [] "add_x_reg" [rg 0, rg 1, rg 2, lsl, zero]) ++
  ([(Kind.u32, "add_x_reg_uxtw"), (.s32, "add_x_reg_sxtw")].map fun (k, name) =>
    row [.a64, .a64, k] [] name [rg 0, rg 1, rg 2, zero]) ++
  offKinds.map fun k =>
    row [.a64, .a64, k] [(2, .shifted12)] "add_x_imm" [rg 0, rg 1, .num 2]

/-- The last pattern builds the offset of both halves, though each slot holds the whole of it. -/
def leaStackPats : Pats :=
  offKinds.flatMap fun k =>
    [row [.a64, .invalid, k] [(2, .stackShifted12)] "add_x_imm" [rg 0, sp, .stack 1],
      pat [.a64, .invalid, k] [(2, .stack16)] [tmpl "movz_x_imm" [rg 0, .stack 1], addSp],
      pat [.a64, .invalid, k] [(2, .stack32)]
        [tmpl "movz_x_imm" [rg 0, .stack 1], tmpl "movk_x_imm" [rg 0, .stack 1, .fixed 16],
          addSp]]

/-! ## Moves and conversions -/

def moveKeep (n : Nat) : Tmpl := tmpl "movk_x_imm" [rg 0, .numPart n, .fixed (16 * n)]

def movePats : Pats :=
  (([Kind.a64, .c64, .u64, .s64, .u32, .s32, .u16, .s16, .u8, .s8]).flatMap fun k =>
    [pat [k, k] [] [copyReg],
      row [k, k] [(1, .shifted16)] "movz_x_imm" [rg 0, .num 1],
      row [k, k] [(1, .notShifted16)] "movn_x_imm" [rg 0, .numNot 1],
      pat [k, k] [(1, .bits32)] [tmpl "movz_x_imm" [rg 0, .numPart 0], moveKeep 1],
      pat [k, k] [(1, .any)]
        [tmpl "movz_x_imm" [rg 0, .numPart 0], moveKeep 1, moveKeep 2, moveKeep 3]]) ++
  floats.map fun (k, w) => row [k, k] [] s!"fmov_{w}_reg" [rg 0, rg 1]

def retype (dst src : List Kind) : Pats :=
  dst.flatMap fun k => src.map fun l => pat [k, l] [] [copyReg]

def byOp (table : List (Kind × Kind × String)) : Pats :=
  table.map fun (k, l, name) => row [k, l] [] name [rg 0, rg 1]

def signExtended (k l : Kind) : CodePat :=
  row [k, l] [] "sbfm_x" [rg 0, rg 1, zero, .fixed (l.bits - 1)]

def masked (k l : Kind) : CodePat :=
  row [k, l] [] "and_x_imm" [rg 0, rg 1, .fixed (span l.bits - 1)]

def convertPats : Pats :=
  retype [.u64, .s64, .u32, .s32, .u16, .s16, .u8, .s8] [.u64, .s64] ++
  retype [.u32, .s32, .u16, .s16, .u8, .s8] [.u32, .s32] ++
  retype [.u16, .s16, .u8, .s8] [.u16, .s16] ++
  retype [.u8, .s8] [.u8, .s8] ++
  [signExtended .u64 .s32] ++
  ([Kind.s64, .s32, .u64, .u32].flatMap fun k =>
    [signExtended k .s8, signExtended k .s16, masked k .u8, masked k .u16]) ++
  (xNums.map fun k => row [k, .u32] [] "orr_w_reg" [rg 0, zr, rg 1, lsl, zero]) ++
  [signExtended .s64 .s32] ++
  byOp [(.f64, .f32, "fcvt_d_s"), (.f32, .f64, "fcvt_s_d")] ++
  floats.flatMap fun (k, v) => signs.flatMap fun (l, s, w) =>
    byOp [(k, l, s!"{s}cvtf_{v}_from_{w}"), (l, k, s!"fcvtz{s}_{w}_{v}")]

def bitcastPats : Pats :=
  retype xKinds xKinds ++ retype wKinds wKinds ++
  marked.flatMap fun (l, w) =>
    let (k, v) := if w = "w" then (Kind.f32, "s") else (.f64, "d")
    byOp [(k, l, s!"fmov_{v}_from_{w}"), (l, k, s!"fmov_{w}_from_{v}")]

/-! ## Branches -/

variable (cond : String)

def branchOn : Tmpl := tmpl ("b_" ++ cond) [.blk 2]

def compareRegs (w : String) (a b : Nat) : Tmpl :=
  tmpl s!"subs_{w}_reg" [zr, rg a, rg b, lsl, zero]
def compareLit (w : String) (a b : Nat) : Tmpl := tmpl s!"subs_{w}_imm" [zr, rg a, .num b]

def floatBranch : Pats :=
  floats.flatMap fun (k, w) =>
    [pat [k, k, .invalid] [] [tmpl ("fcmpe_" ++ w) [rg 0, rg 1], branchOn cond],
      pat [k, k, .invalid] [(1, .zero)] [tmpl s!"fcmpe_{w}_zero" [rg 0, zero], branchOn cond]]

def branchIfEqual : Pats :=
  (markedWords.flatMap fun (k, w) =>
    [pat [k, k, .invalid] [] [compareRegs w 0 1, branchOn cond],
      pat [k, k, .invalid] [(1, .shifted12)] [compareLit w 0 1, branchOn cond]]) ++
  floatBranch cond

def isSigned (k : Kind) : Bool := k == .s32 || k == .s64

def branchIfLess (signed unsigned signedSwapped unsignedSwapped float : String) : Pats :=
  (markedWords.flatMap fun (k, w) =>
    let cond := if isSigned k then signed else unsigned
    let swapped := if isSigned k then signedSwapped else unsignedSwapped
    [pat [k, k, .invalid] [] [compareRegs w 0 1, branchOn cond],
      pat [k, k, .invalid] [(1, .shifted12)] [compareLit w 0 1, branchOn cond],
      pat [k, k, .invalid] [(0, .shifted12)] [compareLit w 1 0, branchOn swapped]]) ++
  floatBranch float

/-! ## Conditional moves -/

def select (w cond : String) : Tmpl := tmpl s!"csel_{w}_{cond}" [rg 0, rg 1, rg 2]
def choiceKinds (k l : Kind) : List Kind := [k, k, k, l, l]

def chooseIfEqual (k : Kind) (v : String) (l : Kind) (w : String) : Pats :=
  pat (choiceKinds k l) [] [compareRegs w 3 4, select v "eq"] ::
    if v = "w" && w = "w" && k != l then []
    else [pat (choiceKinds k l) [(4, .shifted12)] [compareLit w 3 4, select v "eq"]]

/-- Patterns with literals for the test of an order. They stand with those for equality, where the
first is never reached if `chooseIfEqual` has one for the same kinds; the second has register and
literal in each other's place. -/
def chooseOrdered (k : Kind) (v : String) (l : Kind) (w : String) : Pats :=
  if l = .c64 then []
  else
    let (cond, inverse) := if isSigned l then ("lt", "ge") else ("cc", "cs")
    [pat (choiceKinds k l) [(4, .shifted12)] [compareLit w 3 4, select v cond],
      pat (choiceKinds k l) [(3, .shifted12)]
        [tmpl s!"subs_{w}_imm" [zr, .num 3, rg 4], select v inverse]]

def chooseByFloats : Pats :=
  (markedWords.flatMap fun (k, v) => floats.map fun (l, w) =>
    pat (choiceKinds k l) [] [tmpl ("fcmp_" ++ w) [rg 3, rg 4], select v cond]) ++
  floats.flatMap fun (k, v) => floats.map fun (l, w) =>
    pat (choiceKinds k l) [] [tmpl ("fcmp_" ++ w) [rg 3, rg 4],
      tmpl s!"fcsel_{v}_{cond}" [rg 0, rg 1, rg 2]]

def overPairs (make : Kind → String → Kind → String → Pats) : Pats :=
  markedWords.flatMap fun (k, v) => markedWords.flatMap fun (l, w) => make k v l w

def cmpLessPats : Pats :=
  (overPairs fun k v l w =>
    if l = .c64 then []
    else [pat (choiceKinds k l) [] [compareRegs w 3 4,
      select v (if isSigned l then "lt" else "cc")]]) ++
  chooseByFloats "mi"

/-! ## Other instructions -/

def addrIn (dst : Slot) (part : Bool → Slot) : List Tmpl :=
  [tmpl "adrp" [dst, part true], tmpl "add_x_imm" [dst, dst, part false]]

def switchPats : Pats :=
  let s := Slot.tempGpr
  [pat [.u32, .invalid] [] (addrIn s .table ++
      [tmpl "ldr_x_reg_w" [s, s, rg 0, uxtw, .fixed 3], tmpl "br" [s]])]

def pats : IR.Op → Pats
  | .ld => loadPats
  | .ldStk => stackLoadPats
  | .st => storePats
  | .stStk => stackStorePats
  | .cas => casPats
  | .and => bitwise "and"
  | .or => bitwise "orr"
  | .xor => bitwise "eor"
  | .add => additive "add" ++ floatAlu "fadd"
  | .sub => subPats
  | .mul =>
    (marked.map fun (k, w) => row [k, k, k] [] ("madd_" ++ w) [rg 0, rg 1, rg 2, zr]) ++
    floatAlu "fmul"
  | .div =>
    (signs.map fun (k, s, w) => row [k, k, k] [] s!"{s}div_{w}" [rg 0, rg 1, rg 2]) ++
    floatAlu "fdiv"
  | .shl => (marked.map fun (k, w) => row [k, k, k] [] ("lslv_" ++ w) [rg 0, rg 1, rg 2]) ++
    marked.map fun (k, w) =>
      row [k, k, k] [(2, .any)] ("ubfm_" ++ w) [rg 0, rg 1, .widthLess, .widthLessOne]
  | .shr => shrPats
  | .cntlz => marked.map fun (k, w) => row [k, k] [] ("clz_" ++ w) [rg 0, rg 1]
  | .cnttz => marked.map fun (k, w) =>
    pat [k, k] [] [tmpl ("rbit_" ++ w) [rg 0, rg 1], tmpl ("clz_" ++ w) [rg 0, rg 0]]
  | .cntpop => cntpopPats
  | .copysign => copysignPats
  | .floor => floatAlu1 "frintm"
  | .ceil => floatAlu1 "frintp"
  | .round => floatAlu1 "frinta"
  | .trunc => floatAlu1 "frintz"
  | .sqrt => floatAlu1 "fsqrt"
  | .leaFun => [pat [.c64, .invalid] [] (addrIn (rg 0) .fn)]
  | .lea => leaPats
  | .leaMem => offKinds.map fun k =>
    pat [.a64, .invalid, k] [(2, .any)] (addrIn (rg 0) .mem)
  | .leaStk => leaStackPats
  | .mov => movePats
  | .getfp => [pat [.a64] [] [tmpl "movz_x_imm" [rg 0, .frameSize], addSp]]
  | .getsp => [row [.a64] [] "add_x_imm" [rg 0, sp, zero]]
  | .beq => branchIfEqual "eq"
  | .bne => branchIfEqual "ne"
  | .blt => branchIfLess "lt" "cc" "gt" "hi" "mi"
  | .ble => branchIfLess "le" "ls" "ge" "cs" "ls"
  | .cmpeq => overPairs chooseIfEqual ++ overPairs chooseOrdered ++ chooseByFloats "eq"
  | .cmplt => cmpLessPats
  | .bra => [row [.invalid] [] "b" [.blk 0]]
  | .bsr => [row [.invalid] [] "bl" [.callee]]
  | .jsr => [row [.c64, .invalid] [] "blr" [rg 0]]
  | .trap => [row [] [] "brk" [zero]]
  | .syscall => [pat [.invalid, .u32] [(1, .shifted16)]
    [tmpl "movz_x_imm" [.fixed 8, .num 1], tmpl "svc" [zero]]]
  | .switch => switchPats
  | .conv => convertPats
  | .bitcast => bitcastPats
  | _ => []

end

/-! ## Stages

Values of less than 32 bits are widened in all functions before arguments are passed. -/

open IR (Fn CpuReg)
open Backend (usedRegs)

/-! ## Stack frames

Saved registers are stored two at a time, so that the stack pointer stays a multiple of 16. -/

def isGpr (c : CpuReg) : Bool := c.fam == gprFam
def gprSurvives (n : Nat) : Bool := 17 ≤ n && n ≤ 29
def fltSurvives (n : Nat) : Bool := 8 ≤ n && n ≤ 15
def linkNum : Nat := 30

def ctx (f : Fn) : Res Ctx := do
  let regs ← usedRegs f
  let used gpr := (regs.filter fun c => isGpr c == gpr).map CpuReg.no
  let gpr := used true
  let flt := used false
  let isSaved n :=
    (gprSurvives n || n = linkNum) && gpr.contains n || n = linkNum && !f.isLeaf
  return { gpr := (List.range 32).filter isSaved
           flt := (List.range 32).filter fun n => fltSurvives n && flt.contains n
           stack := (f.frameSize + 15) / 16 * 16 }

def byPairs (pair : Nat → Nat → Tmpl) (single : Nat → Tmpl) : List Nat → List Tmpl
  | a :: b :: r => pair a b :: byPairs pair single r
  | [a] => [single a]
  | [] => []

def adjustStack (opcode : String) (bytes : Int) : Res (List Tmpl) := do
  ensure (dropBits bytes 24 == 0) "large frame"
  let low := lowBits bytes 12
  return [bytes - low, low].filterMap fun n =>
    if n = 0 then none else some (tmpl opcode [sp, sp, .fixed n])

def prolog (c : Ctx) : Res (List Tmpl) := do
  let down := Slot.fixed (-16)
  let reg n := .fixed n
  let gpr := byPairs (fun a b => tmpl "stp_x_imm_pre" [sp, down, reg b, reg a])
    (fun a => tmpl "str_x_imm_pre" [sp, down, reg a]) c.gpr.reverse
  let flt := byPairs (fun a b => tmpl "fstp_d_imm_pre" [sp, down, reg b, reg a])
    (fun a => tmpl "fstr_d_imm_pre" [sp, down, reg a]) c.flt.reverse
  return gpr ++ flt ++ (← adjustStack "sub_x_imm" c.stack)

def epilog (c : Ctx) : Res (List Tmpl) := do
  let up := Slot.fixed 16
  let reg n := .fixed n
  let gpr := byPairs (fun a b => tmpl "ldp_x_imm_post" [reg b, reg a, sp, up])
    (fun a => tmpl "ldr_x_imm_post" [reg a, sp, up]) c.gpr.reverse
  let flt := byPairs (fun a b => tmpl "fldp_d_imm_post" [reg b, reg a, sp, up])
    (fun a => tmpl "fldr_d_imm_post" [reg a, sp, up]) c.flt.reverse
  return (← adjustStack "add_x_imm" c.stack).reverse ++ flt.reverse ++ gpr.reverse ++
    [tmpl "ret" [linkReg]]

open IR
open Backend

def gprFile : RegFile := ⟨(List.range 31).filter (· != helperReg), gprSurvives⟩
def fltFile : RegFile := ⟨List.range 32, fltSurvives⟩

def regFiles : Registers where
  gpr := gprFile
  flt := fltFile
  candidates k := (List.range 32).map (if k.isFloat then flt else gpr)
  holds k := (wideKinds k).isSome
  units c := [c.no]
  isGpr := isGpr

def globalPlan : GlobalPlan where
  kinds := wideKinds
  files :=
    [.of gprFile [(.s64, 1)] isGpr (inTurn gpr), .of fltFile [(.f64, 1)] (!isGpr ·) (inTurn flt)]
  inPlace := false

/-- Counting bits passes through a floating point register. -/
def tempNeed (_ : Fn) (i : IR.Ins) : Option (Kind × String) :=
  if i.op = .cntpop then some (.f64, "popcnt") else none

def localPlan : LocalPlan := ⟨regFiles, true, tempNeed, false⟩

def legalize (p : Prog) : Res Prog := do
  let p ← overFns (fun p f => runAll p f widenNarrow) (← prepare p)
  overFns (legalizeFn convention Curb.rules pats .a64 (pure ⟨⟩)) p

def insText (i : Ins) : Res String := do
  return i.opcode.name ++ " " ++ " ".intercalate (← i.render)

def codeRules : CodeRules Ctx Tmpl Ins where
  ctx := ctx
  prolog := prolog
  epilog := epilog
  withTemp c h := { c with temp := some h }
  select f i := do return (← Pat.find Curb.rules f i (pats i.op)).map Pat.emit
  make := Tmpl.make
  addrSize := 8

def tgt : Tgt where
  legalize := legalize
  globals := globalPlan
  locals := localPlan
  reports := true
  text := assemblyText codeRules insText
  unit := assemblyUnit codeRules ⟨dialect.filler, RelocKind.code .abs64, 4, Ins.emit, Ins.parse⟩
  linker := linker

def reportCtx (name : String) : Ctx :=
  { temp := if mentions name "gpr_scratch" then some (.cpu (gpr 8)) else none }

def selectionReport (p : Prog) : List String × Option Fault :=
  (reportProg p (reportIns ⟨Curb.rules, Curb.name, pats, reportCtx, Tmpl.make, insText⟩)).pieces

end Retarget.A64
