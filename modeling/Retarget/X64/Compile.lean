import Retarget.Backend.Target
import Retarget.X64.Instruction

/-!
# Compiling for X64

A value is either in a register or in a slot of the stack frame, and a pattern says for each operand
where it has to be. Most instructions overwrite their first source. Registers `rax` and `xmm0` are
left for values on their way between slots.
-/

namespace Retarget.X64
open IR (CpuReg Kind CallConv)

def gprFam : Nat := 1
def fltFam : Nat := 2

def gprNames : List String :=
  ["rax", "rcx", "rdx", "rbx", "sp", "rbp", "rsi", "rdi", "r8", "r9", "r10", "r11", "r12", "r13",
    "r14", "r15"]

def gpr (n : Nat) : CpuReg := ⟨gprNames.getD n "", n, gprFam⟩
def flt (n : Nat) : CpuReg := ⟨s!"xmm{n}", n, fltFam⟩
def registers : List CpuReg := (List.range 16).map gpr ++ (List.range 16).map flt
def gprIn : List Nat := [7, 6, 2, 1, 8, 9, 10, 11, 0]
def gprOut : List Nat := [0, 2, 7, 6, 1, 8, 9, 10, 11]
def fltInOut : List Nat := [1, 2, 3, 4, 5, 6, 7]

def argRegs : List Kind → List Nat → List Nat → Res (List CpuReg)
  | [], _, _ => .ok []
  | k :: ks, gs, ss => do
    if k = .f32 || k = .f64 then
      match ss with
      | s :: ss => return flt s :: (← argRegs ks gs ss)
      | [] => broken "too many arguments"
    else
      match gs with
      | g :: gs => return gpr g :: (← argRegs ks gs ss)
      | [] => broken "too many arguments"

def convention : CallConv := ⟨(argRegs · gprIn fltInOut), (argRegs · gprOut fltInOut)⟩

open IR (Fn Prog Opnd)
open Backend

inductive Curb where
  | other
  | reg
  | slot
  /-- A literal that fits into a signed or unsigned number of some width. -/
  | signed (bits : Nat)
  | unsigned (bits : Nat)
  | fixed (n : Nat)

namespace Curb

def name : Curb → String
  | other => "INVALID"
  | reg => "REG"
  | slot => "SP_REG"
  | signed bits => s!"SIMM{bits}"
  | unsigned bits => s!"UIMM{bits}"
  | fixed n => "REG_" ++ (gprNames.getD n "").toUpper

def admitsInt (n : Int) : Curb → Bool
  | signed bits => -(span (bits - 1) : Int) ≤ n && n < span (bits - 1)
  | unsigned bits => 0 ≤ n && n < span bits
  | _ => false

/-- Does an operand satisfy a curb? A register can be compared with a given processor register only
if it is in one. -/
def admits (f : Fn) (c : Curb) (x : Opnd) : Res Bool :=
  match c, x with
  | other, x => do
    ensure (!x.isReg && !x.isLit) "operand kind"
    return true
  | reg, .reg r => .ok (!(f.reg r).isSpilled)
  | slot, .reg r => .ok (f.reg r).isSpilled
  | fixed n, .reg r => return (← orFault .missingPart (f.reg r).cpuReg?).no == n
  | c, .lit n =>
    match (f.lit n).value with
    | .int v => .ok (c.admitsInt v)
    | .real _ => .ok false
  | _, _ => .ok false

end Curb

inductive Hole where
  | fixed (n : Int)
  | reg (n : Nat)
  /-- The register that is both the first and the second operand. -/
  | regBoth
  | num (n : Nat)
  | spill (n : Nat)
  /-- The offset of the register that is both the first and the second operand. -/
  | spillBoth
  | stack (n : Nat)
  | area (n : Nat)
  | temp
  | frameSize
  | blk (n : Nat)
  | callee
  /-- The distance to a region plus the literal after it, to a function, to a jump table. -/
  | mem (n : Nat)
  | fn
  | table

structure Tmpl where
  opcode : String
  holes : List Hole

/-- What the code of a function depends on: the registers to save, in ascending order, the size of
the stack areas and slots, and whether it calls nothing. -/
structure Ctx where
  gpr : List Nat := []
  flt : List Nat := []
  stack : Int := 0
  isLeaf : Bool := false
  temp : Temp := none

/-- The distance from the stack pointer to the frame of the caller. Functions that call others or
have more than general registers in their frame keep it a multiple of 16. -/
def Ctx.frameSize (c : Ctx) : Int :=
  let size := c.stack + 8 * c.flt.length + 8 * c.gpr.length + 8
  if !c.isLeaf || c.stack != 0 || !c.flt.isEmpty then (size + 15) / 16 * 16 else size

def checkOverwrites (f : Fn) (i : IR.Ins) : Res Unit :=
  ensure (f.sameOpnd (i.arg 0) (i.arg 1)) "operands differ"

def spillOff (f : Fn) (i : IR.Ins) (n : Nat) : Res Int :=
  match i.arg n with
  | .reg r =>
    match (f.reg r).home with
    | .stack off => .ok off
    | _ => broken "not in the frame"
  | _ => broken "no register"

/-- The number for a hole. References to symbols start from zero. -/
def Hole.value (f : Fn) (c : Ctx) (i : IR.Ins) : Hole → Res Int
  | fixed n => .ok n
  | reg n => regNum f i n
  | regBoth => do
    checkOverwrites f i
    regNum f i 0
  | num n => litNum f i n
  | spill n => spillOff f i n
  | spillBoth => do
    checkOverwrites f i
    spillOff f i 0
  | stack n => stackOff f i n
  | area n => areaOff f (i.arg n)
  | temp => c.temp.number gprFam
  | frameSize => .ok c.frameSize
  | blk _ | callee | mem _ | fn | table => .ok 0

def Hole.reference (p : Prog) (f : Fn) (i : IR.Ins) (pos : Nat) : Hole → Res (Option (Int × Reloc))
  | blk n => do return some (0, ⟨.pc32, true, pos, ← blkName f i n⟩)
  | callee => do return some (0, ⟨.pc32, false, pos, ← fnName p i 0⟩)
  | fn => do return some (0, ⟨.pc32, false, pos, ← definedFn p i 1⟩)
  | mem n => memRef p f i n .pc32 pos
  | table => do return some (0, ⟨.pc32, true, pos, ← tableName f i 1⟩)
  | _ => .ok none

def Tmpl.make (p : Prog) (f : Fn) (c : Ctx) (i : IR.Ins) (t : Tmpl) : Res Ins := do
  let o ← defined t.opcode (findOp? t.opcode)
  let (opnds, reloc) ← Asm.Reloc.fill (fun h => h.value f c i)
    (fun pos h => h.reference p f i pos) id 0 t.holes
  return ⟨o, opnds, reloc⟩

abbrev CodePat := Pat Curb Tmpl
abbrev Pats := List CodePat

def curbsFit (f : Fn) : List Curb → List Opnd → Res Bool
  | c :: cs, x :: xs => do if ← c.admits f x then curbsFit f cs xs else return false
  | _, _ => .ok true

def findPat (f : Fn) (i : IR.Ins) : Pats → Res (Option CodePat)
  | [] => .ok none
  | t :: ts => do
    if ← kindsFit f t.kinds i.args then if ← curbsFit f t.curbs i.args then return some t
    findPat f i ts

/-! ## Patterns

The name of an opcode tells where its operands are: `r` and `x` are registers, `mr` and `mx`
registers where memory could be, `mbis` is memory at a base and an index, and `mpc` is memory
relative to the instruction. -/

open IR (Kind)

def tmpl (opcode : String) (holes : List Hole) : Tmpl := ⟨opcode, holes⟩

def row (kinds : List Kind) (curbs : List Curb) (opcode : String) (holes : List Hole) :
  CodePat := ⟨kinds, curbs, [tmpl opcode holes]⟩

def rg (n : Nat) : Hole := .reg n
def tmp : Hole := .fixed 0
def rax : Hole := .fixed 0
def rcx : Hole := .fixed 1
def rdx : Hole := .fixed 2
def rsp : Hole := .fixed 4
def r10 : Hole := .fixed 10
def r11 : Hole := .fixed 11
def rip : Hole := .fixed 0
def noIdx : Hole := .fixed 4
def scale1 : Hole := .fixed 0
def scale8 : Hole := .fixed 3
def zero : Hole := .fixed 0
def inRax : Curb := .fixed 0
def inRcx : Curb := .fixed 1
def inRdx : Curb := .fixed 2
def based (base off : Hole) : List Hole := [base, noIdx, scale1, off]
def framed (off : Hole) : List Hole := based rsp off
def spilled (n : Nat) : List Hole := framed (.spill n)
def indexed (base idx : Hole) : List Hole := [base, idx, scale1, zero]
def ints : List Kind := [.u8, .s8, .u16, .s16, .u32, .s32, .u64, .s64]
def wideInts : List Kind := [.u16, .s16, .u32, .s32, .u64, .s64]
def words : List Kind := ints ++ [.a64, .c64]
def floats : List Kind := [.f32, .f64]
def values : List Kind := words ++ floats

section
variable (k : Kind)

def width : String := decimal k.bits
def litWidth : String := if k.bits = 64 then "32" else width k
def letter : String := if k = .f32 then "s" else "d"

def litCurb : Curb :=
  if k.bits = 64 then .signed 32
  else if k.flavor == .unsigned then .unsigned k.bits else .signed k.bits

def moveCurb : Curb :=
  if k = .u64 then .unsigned 64 else if k.bits = 64 then .signed 64 else litCurb k

def moveName (forms : String) : String :=
  if k.isFloat then s!"movs{letter k}_{forms}" else s!"mov_{width k}_{forms}"

def fileLetter : String := if k.isFloat then "x" else "r"
def loadName (form : String) : String := moveName k s!"{fileLetter k}_{form}"
def storeName (form : String) : String := moveName k s!"{form}_{fileLetter k}"
def loadFrame (dst off : Hole) : Tmpl := tmpl (loadName k "mbis32") (dst :: framed off)

def storeFrame (off src : Hole) : Tmpl :=
  tmpl (storeName k "mbis32") (framed off ++ [src])

variable (bits : Nat)

def extendName? (k : Kind) : Option String :=
  let name stem :=
    if k.bits < bits then some s!"{stem}_{bits}_{width k}_" else none
  match k with
  | .u8 | .u16 => name "movzx"
  | .s8 | .s16 => name "movsx"
  | .u32 => if bits = 64 then some "mov_32_" else none
  | .s32 => if bits = 64 then some "movsxd_64_" else none
  | _ => none

def extendReg (k : Kind) (dst src : Hole) : List Tmpl :=
  ((extendName? bits k).map fun name => tmpl (name ++ "r_mr") [dst, src]).toList

def extendFrame (k : Kind) (dst off : Hole) : List Tmpl :=
  let name := (extendName? bits k).getD s!"mov_{bits}_"
  [tmpl (name ++ "r_mbis32") (dst :: framed off)]

section
variable (kinds : List Kind) (curbs : List Curb)

/-- The result is in a register or in the frame. -/
def loadTo (code : Hole → List Tmpl) : Pats :=
  [⟨kinds, .reg :: curbs, code (rg 0)⟩,
    ⟨kinds, .slot :: curbs, code tmp ++ [storeFrame k (.spill 0) tmp]⟩]

def storeFrom (code : Hole → Tmpl) : Pats :=
  [⟨kinds, curbs ++ [.reg], [code (rg 2)]⟩,
    ⟨kinds, curbs ++ [.slot], [loadFrame k tmp (.spill 2), code tmp]⟩]

end

/-! ## Arithmetic -/

variable (name : String)

/-- Instructions that take their second source from anywhere and overwrite the first one. -/
def aluOn (k : Kind) : Pats :=
  let op forms := s!"{name}_{width k}_{forms}"
  [row [k, k, k] [.reg, .reg, .reg] (op "r_mr") [.regBoth, rg 2],
    row [k, k, k] [.slot, .slot, .reg] (op "mbis32_r") (framed .spillBoth ++ [rg 2]),
    row [k, k, k] [.reg, .reg, .slot] (op "r_mbis32") (.regBoth :: spilled 2),
    ⟨[k, k, k], [.slot, .slot, .slot],
      [loadFrame k tmp (.spill 2), tmpl (op "mbis32_r") (framed .spillBoth ++ [tmp])]⟩,
    row [k, k, k] [.reg, .reg, litCurb k] (op "mr_imm" ++ litWidth k) [.regBoth, .num 2],
    row [k, k, k] [.slot, .slot, litCurb k] (op "mbis32_imm" ++ litWidth k)
      (framed .spillBoth ++ [.num 2])]

/-- Instructions whose destination is a register; `reg` and `mem` are their names by the place of the
second source. -/
def overwriting (reg mem : String) : Pats :=
  [row [k, k, k] [.reg, .reg, .reg] reg [.regBoth, rg 2], ⟨[k, k, k], [.slot, .slot, .reg],
      [loadFrame k tmp .spillBoth, tmpl reg [tmp, rg 2], storeFrame k .spillBoth tmp]⟩,
    row [k, k, k] [.reg, .reg, .slot] mem (.regBoth :: spilled 2),
    ⟨[k, k, k], [.slot, .slot, .slot],
      [loadFrame k tmp .spillBoth, tmpl mem (tmp :: spilled 2), storeFrame k .spillBoth tmp]⟩]

def computing (reg mem : String) : Pats :=
  loadTo k [k, k] [.reg] (fun dst => [tmpl reg [dst, rg 1]]) ++
    loadTo k [k, k] [.slot] fun dst => [tmpl mem (dst :: spilled 1)]

def floatAlu : Pats :=
  floats.flatMap fun k =>
    let op := s!"{name}s{letter k}"
    overwriting k (op ++ "_x_mx") (op ++ "_x_mbis32")

def aluPats : Pats := ints.flatMap (aluOn name)

def mulPats : Pats :=
  wideInts.flatMap fun k =>
    let op := "imul_" ++ width k
    overwriting k (op ++ "_r_mr") (op ++ "_r_mbis32")

def divide (k : Kind) (prepare : List Tmpl) : CodePat :=
  let regs := if k.bits = 64 then "rdx_rax" else if k.bits = 32 then "edx_eax" else "dx_ax"
  let bits := if k.bits = 8 then "16" else width k
  ⟨[k, k, k], [inRdx, inRax, .reg],
    prepare ++ [tmpl (name ++ "_" ++ bits ++ "_" ++ regs ++ "_mr") [rdx, rax, rg 2]]⟩

/-- Numbers of 8 bits are divided as numbers of 16 bits. -/
def divPats : Pats :=
  let clear bits := tmpl s!"xor_{bits}_r_mr" [rdx, rdx]
  let widened k := extendReg 16 k (rg 1) (rg 1) ++ extendReg 16 k (rg 2) (rg 2)
  [Kind.u16, .u32, .u64].map (fun k => divide "div" k [clear (width k)]) ++
    [divide "div" .u8 (clear "16" :: widened .u8),
      divide "idiv" .s16 [tmpl "cwd_16_dx_ax" [rdx, rax]],
      divide "idiv" .s32 [tmpl "cdq_32_edx_eax" [rdx, rax]],
      divide "idiv" .s64 [tmpl "cqo_64_rdx_rax" [rdx, rax]],
      divide "idiv" .s8 (widened .s8 ++ [clear "16"])]

def shiftPats (signed unsigned : String) : Pats :=
  ints.flatMap fun k =>
    let name := if k.flavor == .unsigned then unsigned else signed
    let op forms := s!"{name}_{width k}_{forms}"
    [row [k, k, k] [.reg, .reg, .unsigned 8] (op "mr_imm8") [.regBoth, .num 2],
      row [k, k, k] [.slot, .slot, .unsigned 8] (op "mbis32_imm8") (framed .spillBoth ++ [.num 2]),
      row [k, k, k] [.reg, .reg, inRcx] (op "mr_cl") [.regBoth, rcx],
      row [k, k, k] [.slot, .slot, inRcx] (op "mbis32_cl") (framed .spillBoth ++ [rcx])]

def countPats : Pats :=
  wideInts.flatMap fun k =>
    let op := s!"{name}_{width k}"
    computing k (op ++ "_r_mr") (op ++ "_r_mbis32")

def countByte (name change : String) (bits : Int) (correct : List Tmpl) : Pats :=
  [Kind.u8, .s8].flatMap fun k =>
    let on src :=
      [tmpl (change ++ "_16_mr_imm16") [src, .fixed bits], tmpl (name ++ "_16_r_mr") [rg 0, src]] ++
        correct
    [⟨[k, k], [.reg, .reg], on (rg 1)⟩,
      ⟨[k, k], [.reg, .slot], loadFrame k tmp (.spill 1) :: on tmp⟩]

/-! ## Moves -/

def transfer (dst src : Kind) (name : String) : Pats :=
  [row [dst, src] [.reg, .reg] name [rg 0, rg 1],
    ⟨[dst, src], [.slot, .reg], [storeFrame dst (.spill 0) (rg 1)]⟩] ++
  loadTo dst [dst, src] [.slot] fun reg => [loadFrame dst reg (.spill 1)]

/-- Move a literal. To a slot, one that is too long takes two instructions. -/
def moveLit : Pats :=
  let toReg dst := tmpl s!"mov_{width k}_r_imm{width k}" [dst, .num 1]
  [⟨[k, k], [.reg, moveCurb k], [toReg (rg 0)]⟩,
    row [k, k] [.slot, litCurb k] s!"mov_{width k}_mbis32_imm{litWidth k}" (spilled 0 ++ [.num 1])] ++
  if k.bits = 64 then [⟨[k, k], [.slot, moveCurb k], [toReg tmp, storeFrame k (.spill 0) tmp]⟩]
  else []

/-! ## Branches -/

variable (op : IR.Op)

def jumpName (signed swapped : Bool) : String :=
  match op with
  | .beq => "je_32"
  | .bne => "jne_32"
  | _ => (if swapped then if signed then "jg" else "ja" else if signed then "jl" else "jb") ++
    if op = .blt then "_32" else "e_32"

/-- Compare and jump. Code addresses have no order. -/
def branchInts : Pats :=
  (words.filter fun k => k != .c64 || op = .beq || op = .bne).flatMap fun k =>
    let cmp forms holes := tmpl s!"cmp_{width k}_{forms}" holes
    let imm := "imm" ++ litWidth k
    let jumpIf swapped := tmpl (jumpName op (k.flavor == .signed) swapped) [.blk 2]
    let pat a b compare := ⟨[k, k, .invalid], [a, b, .other], compare ++ [jumpIf false]⟩
    let swapped a b compare := ⟨[k, k, .invalid], [a, b, .other], [compare, jumpIf true]⟩
    [pat .reg .reg [cmp "r_mr" [rg 0, rg 1]],
      pat .slot .reg [cmp "mbis32_r" (spilled 0 ++ [rg 1])],
      pat .reg .slot [cmp "r_mbis32" (rg 0 :: spilled 1)],
      pat .slot .slot [loadFrame k tmp (.spill 0), cmp "r_mbis32" (tmp :: spilled 1)],
      pat .reg (litCurb k) [cmp ("mr_" ++ imm) [rg 0, .num 1]],
      pat .slot (litCurb k) [cmp ("mbis32_" ++ imm) (spilled 0 ++ [.num 1])],
      swapped (litCurb k) .reg (cmp ("mr_" ++ imm) [rg 1, .num 0]),
      swapped (litCurb k) .slot (cmp ("mbis32_" ++ imm) (spilled 1 ++ [.num 0]))]

def branchFloats : Pats :=
  floats.flatMap fun k =>
    let cmp forms holes := tmpl s!"comis{letter k}_x_{forms}" holes
    let pat a b compare swapped :=
      ⟨[k, k, .invalid], [a, b, .other], compare ++ [tmpl (jumpName op false swapped) [.blk 2]]⟩
    [pat .reg .reg [cmp "mx" [rg 0, rg 1]] false,
      pat .reg .slot [cmp "mbis32" (rg 0 :: spilled 1)] false,
      pat .slot .reg [cmp "mbis32" (rg 1 :: spilled 0)] true,
      pat .slot .slot [loadFrame k tmp (.spill 0), cmp "mbis32" (tmp :: spilled 1)] false]

/-! ## Addresses -/

def leaStackPats : Pats :=
  ints.flatMap fun k =>
    let lea dst rest := tmpl "lea_64_r_mbis32" (dst :: rest)
    let kinds := [.a64, .invalid, k]
    loadTo .a64 kinds [.other, .signed 32] (fun dst => [lea dst (framed (.stack 1))]) ++
      loadTo .a64 kinds [.other, .reg] (fun dst =>
        extendReg 64 k (rg 2) (rg 2) ++ [lea dst [rsp, rg 2, scale1, .area 1]]) ++
      loadTo .a64 kinds [.other, .slot] fun dst =>
        extendFrame 64 k tmp (.spill 2) ++ [lea dst [rsp, tmp, scale1, .area 1]]

def leaPats : Pats :=
  ints.flatMap fun k =>
    let kinds := [.a64, .a64, k]
    let addToFrame src := tmpl "add_64_mbis32_r" (framed .spillBoth ++ [src])
    [⟨kinds, [.reg, .reg, .signed 32],
        [tmpl "lea_64_r_mbis32" (.regBoth :: based .regBoth (.num 2))]⟩,
      ⟨kinds, [.slot, .slot, .signed 32],
        [tmpl "add_64_mbis32_imm32" (framed .spillBoth ++ [.num 2])]⟩,
      ⟨kinds, [.reg, .reg, .reg], extendReg 64 k (rg 2) (rg 2) ++
          [tmpl "lea_64_r_mbis8" (.regBoth :: indexed .regBoth (rg 2))]⟩,
      ⟨kinds, [.slot, .slot, .reg], extendReg 64 k (rg 2) (rg 2) ++ [addToFrame (rg 2)]⟩,
      ⟨kinds, [.reg, .reg, .slot],
        extendFrame 64 k tmp (.spill 2) ++ [tmpl "add_64_r_mr" [.regBoth, tmp]]⟩,
      ⟨kinds, [.slot, .slot, .slot], extendFrame 64 k tmp (.spill 2) ++ [addToFrame tmp]⟩]

/-! ## Loads and stores -/

def accessKinds : List (Kind × Kind) := ints.flatMap fun o => values.map fun k => (o, k)

/-- The base, the offset and the result are each in a register or in the frame. -/
def loadOn (o k : Kind) : Pats :=
  let load form dst place := tmpl (loadName k form) (dst :: place)
  let on curbs code := loadTo k [k, .a64, o] curbs code
  let extend := extendReg 64 o (rg 2) (rg 2)
  let loadBase := loadFrame .a64 tmp (.spill 1)
  let loadOff := extendFrame 64 o tmp (.spill 2)
  on [.reg, .signed 32] (fun dst => [load "mbis32" dst (based (rg 1) (.num 2))]) ++
    on [.slot, .signed 32] (fun dst => [loadBase, load "mbis32" dst (based tmp (.num 2))]) ++
    on [.reg, .reg] (fun dst => extend ++ [load "mbis8" dst (indexed (rg 1) (rg 2))]) ++
    on [.slot, .reg] (fun dst => extend ++ [loadBase, load "mbis8" dst (indexed tmp (rg 2))]) ++
    on [.reg, .slot] (fun dst => loadOff ++ [load "mbis8" dst (indexed (rg 1) tmp)]) ++
    on [.slot, .slot] fun dst => loadOff ++
      [tmpl "add_64_r_mbis32" (tmp :: spilled 1), load "mbis8" dst (based tmp zero)]

/-- The base, the offset and the value are each in a register or in the frame. An offset in a
register is not extended if the base is in a register too and the value is in the frame. -/
def storeOn (o k : Kind) : Pats :=
  let store form place src := tmpl (storeName k form) (place ++ [src])
  let pat curbs code := ⟨[.a64, o, k], curbs, code⟩
  let extend := extendReg 64 o (rg 1) (rg 1)
  let loadBase dst := loadFrame .a64 dst (.spill 0)
  let loadOff dst := extendFrame 64 o dst (.spill 1)
  let addBase dst := tmpl "add_64_r_mbis32" (dst :: spilled 0)
  let loadValue := loadFrame k tmp (.spill 2)
  let s := Hole.temp
  [pat [.reg, .signed 32, .reg] [store "mbis32" (based (rg 0) (.num 1)) (rg 2)],
    pat [.reg, .signed 32, .slot] [loadValue, store "mbis32" (based (rg 0) (.num 1)) tmp],
    pat [.slot, .signed 32, .reg] [loadBase tmp, store "mbis32" (based tmp (.num 1)) (rg 2)],
    pat [.slot, .signed 32, .slot] [loadBase s, loadValue, store "mbis32" (based s (.num 1)) tmp],
    pat [.reg, .reg, .reg] (extend ++ [store "mbis8" (indexed (rg 0) (rg 1)) (rg 2)]),
    pat [.slot, .reg, .reg] (extend ++ [loadBase tmp, store "mbis8" (indexed tmp (rg 1)) (rg 2)]),
    pat [.reg, .slot, .reg] (loadOff tmp ++ [store "mbis8" (indexed (rg 0) tmp) (rg 2)]),
    pat [.reg, .reg, .slot] [loadValue, store "mbis8" (indexed (rg 0) (rg 1)) tmp],
    pat [.slot, .slot, .reg] (loadOff tmp ++ [addBase tmp, store "mbis8" (based tmp zero) (rg 2)]),
    pat [.slot, .reg, .slot]
      (extend ++ [loadBase s, loadValue, store "mbis8" (indexed s (rg 1)) tmp]),
    pat [.reg, .slot, .slot] (loadOff s ++ [loadValue, store "mbis8" (indexed (rg 0) s) tmp]),
    pat [.slot, .slot, .slot]
      (loadOff s ++ [loadValue, addBase s, store "mbis8" (based s zero) tmp])]

def swapPats : Pats :=
  accessKinds.map fun (o, k) =>
    let reg := if k.bits = 8 then "al" else if k.bits = 16 then "ax" else
      if k.bits = 32 then "eax" else "rax"
    row [k, k, k, .a64, o] [inRax, inRax, .reg, .reg, .signed 32]
      s!"lockcmpxchg_{width k}_mbis32_r_{reg}" (based (rg 3) (.num 4) ++ [rg 2, rax])

/-! ## Calls and jumps -/

/-- A system call changes `rcx` and `r11`, and takes its fourth argument in `r10`. -/
def syscallPats : Pats :=
  [Kind.u8, .u16, .u32].map fun k =>
    ⟨[.invalid, k], [.other, .signed 32],
      [tmpl "push_64_mr" [rcx], tmpl "push_64_mr" [r11],
        tmpl "mov_64_mr_imm32" [rax, .num 1], tmpl "mov_64_r_mr" [r10, rcx],
        tmpl "syscall" [], tmpl "pop_64_mr" [r11], tmpl "pop_64_mr" [rcx]]⟩

def switchPats : Pats :=
  [Kind.u8, .u16, .u32].flatMap fun k =>
    let jump :=
      [tmpl "lea_64_r_mpc32" [tmp, rip, .table], tmpl "jmp_64_mbis8" [tmp, .temp, scale8, zero]]
    [⟨[k, .invalid], [.reg, .other], extendReg 64 k .temp (rg 0) ++ jump⟩,
      ⟨[k, .invalid], [.slot, .other], extendFrame 64 k .temp (.spill 0) ++ jump⟩]

/-! ## Conversions -/

/-- Between integers. From a register to the frame, only what is shorter than 32 bits is extended,
whatever the width of the result. -/
def convInts : Pats :=
  ints.flatMap fun src => ints.flatMap fun dst =>
    let name := if dst.bits ≤ src.bits then s!"mov_{width dst}_" else
      (extendName? dst.bits src).getD ""
    [row [dst, src] [.reg, .reg] (name ++ "r_mr") [rg 0, rg 1], ⟨[dst, src], [.slot, .reg],
        extendReg 32 src (rg 1) (rg 1) ++ [storeFrame dst (.spill 0) (rg 1)]⟩] ++
    loadTo dst [dst, src] [.slot] fun reg => [tmpl (name ++ "r_mbis32") (reg :: spilled 1)]

/-- Between floating point numbers and integers that fit into the given number of signed bits. One in
the frame is converted as a number of 32 bits. -/
def convFloat (x k : Kind) : Pats :=
  let ofInt (bits : Nat) := s!"cvtsi2s{letter x}_{bits}_x_mr"
  let toInt := s!"cvts{letter x}2si_{bits}_r_"
  let fromReg dst := tmpl (toInt ++ "mx") [dst, rg 1]
  let fromFrame dst := tmpl (toInt ++ "mbis32") (dst :: spilled 1)
  [⟨[x, k], [.reg, .reg], extendReg bits k (rg 1) (rg 1) ++ [tmpl (ofInt bits) [rg 0, rg 1]]⟩,
    ⟨[x, k], [.reg, .slot], extendFrame bits k tmp (.spill 1) ++ [tmpl (ofInt 32) [rg 0, tmp]]⟩,
    ⟨[k, x], [.reg, .reg], [fromReg (rg 0)]⟩,
    ⟨[k, x], [.reg, .slot], [fromFrame (rg 0)]⟩] ++
  if bits = 64 then [] else
    [⟨[k, x], [.slot, .reg], [fromReg tmp, storeFrame .s32 (.spill 0) tmp]⟩,
      ⟨[k, x], [.slot, .slot], [fromFrame tmp, storeFrame .s32 (.spill 0) tmp]⟩]

def bitcastFloat (x k : Kind) (name : String) : Pats :=
  [row [x, k] [.reg, .reg] (name ++ "_x_mr") [rg 0, rg 1],
    row [k, x] [.reg, .reg] s!"{name}_{width k}_mr_x" [rg 0, rg 1],
    ⟨[x, k], [.slot, .reg], [storeFrame k (.spill 0) (rg 1)]⟩,
    ⟨[k, x], [.slot, .reg], [storeFrame x (.spill 0) (rg 1)]⟩,
    ⟨[x, k], [.reg, .slot], [loadFrame x (rg 0) (.spill 1)]⟩,
    ⟨[k, x], [.reg, .slot], [loadFrame k (rg 0) (.spill 1)]⟩,
    ⟨[x, k], [.slot, .slot], [loadFrame k tmp (.spill 1), storeFrame k (.spill 0) tmp]⟩]

def bitcastPats : Pats :=
  ([(Kind.u8, Kind.s8), (.u16, .s16), (.u32, .s32), (.u64, .s64), (.a64, .s64), (.a64, .u64),
      (.c64, .s64), (.c64, .u64)].flatMap fun (a, b) =>
    transfer a b (loadName a "mr") ++ transfer b a (loadName a "mr")) ++
  bitcastFloat .f32 .s32 "movd" ++ bitcastFloat .f32 .u32 "movd" ++
    bitcastFloat .f64 .s64 "movq" ++ bitcastFloat .f64 .u64 "movq"

/-! ## All patterns -/

def pats (op : IR.Op) : Pats := match op with
  | .and => aluPats "and"
  | .xor => aluPats "xor"
  | .or => aluPats "or"
  | .add => aluPats "add" ++ floatAlu "add"
  | .sub => aluPats "sub" ++ floatAlu "sub"
  | .mul => mulPats ++ floatAlu "mul"
  | .div => divPats ++ floatAlu "div"
  | .shl => shiftPats "shl" "shl"
  | .shr => shiftPats "sar" "shr"
  | .cntlz => countPats "lzcnt" ++
    countByte "lzcnt" "and" 0xff [tmpl "sub_8_mr_imm8" [rg 0, .fixed 8]]
  | .cnttz => countPats "tzcnt" ++ countByte "tzcnt" "or" 0xff00 []
  | .cntpop => countPats "popcnt"
  | .sqrt => floats.flatMap fun k =>
    let op := "sqrts" ++ letter k
    computing k (op ++ "_x_mx") (op ++ "_x_mbis32")
  | .mov => (words.flatMap fun k => transfer k k (loadName k "mr") ++ moveLit k) ++
    floats.flatMap fun k => transfer k k (loadName k "mx")
  | .getfp => loadTo .a64 [.a64] [] fun dst => [tmpl "lea_64_r_mbis32" (dst :: framed .frameSize)]
  | .getsp => loadTo .a64 [.a64] [] fun dst => [tmpl "lea_64_r_mbis32" (dst :: framed zero)]
  | .beq | .bne | .blt | .ble => branchInts op ++ branchFloats op
  | .leaFun =>
    loadTo .a64 [.c64, .invalid] [.other] fun dst => [tmpl "lea_64_r_mpc32" [dst, rip, .fn]]
  | .leaMem => ints.flatMap fun k => loadTo .a64 [.a64, .invalid, k] [.other, .signed 32]
    fun dst => [tmpl "lea_64_r_mpc32" [dst, rip, .mem 1]]
  | .leaStk => leaStackPats
  | .lea => leaPats
  | .ldMem => accessKinds.flatMap fun (o, k) => loadTo k [k, .invalid, o] [.other, .signed 32]
    fun dst => [tmpl (loadName k "mpc32") [dst, rip, .mem 1]]
  | .ldStk => accessKinds.flatMap fun (o, k) => loadTo k [k, .invalid, o] [.other, .signed 32]
    fun dst => [loadFrame k dst (.stack 1)]
  | .ld => accessKinds.flatMap fun (o, k) => loadOn o k
  | .stMem => accessKinds.flatMap fun (o, k) => storeFrom k [.invalid, o, k] [.other, .signed 32]
    fun src => tmpl (storeName k "mpc32") [rip, .mem 0, src]
  | .stStk => accessKinds.flatMap fun (o, k) => storeFrom k [.invalid, o, k] [.other, .signed 32]
    fun src => storeFrame k (.stack 0) src
  | .st => accessKinds.flatMap fun (o, k) => storeOn o k
  | .cas => swapPats
  | .syscall => syscallPats
  | .trap => [row [] [] "int3" []]
  | .bra => [row [.invalid] [.other] "jmp_32" [.blk 0]]
  | .bsr => [row [.invalid] [.other] "call_32" [.callee]]
  | .jsr => [row [.c64, .invalid] [.reg, .other] "call_64_mr" [rg 0],
    row [.c64, .invalid] [.slot, .other] "call_64_mbis32" (spilled 0)]
  | .switch => switchPats
  | .conv => convInts ++ floats.flatMap fun x =>
    [Kind.u8, .s8, .u16, .s16, .s32].flatMap (convFloat 32 x) ++
      [Kind.u32, .s64].flatMap (convFloat 64 x)
  | .bitcast => bitcastPats
  | _ => []

end

/-! ## Stages

Literals that instructions cannot hold are put into registers. Divisions, shifts and swaps use fixed
registers, into which their operands are moved. -/

open IR Pass
open Backend

/-! ## Literals -/

variable (op : IR.Op)

def isUnfit (pos : Nat) (c : Lit) : Res Bool :=
  if c.kind.isFloat then .ok true
  else if op = .mov then .ok false
  else if (op matches .div | .rem | .mul | .cnttz | .cntlz | .conv) ||
    pos = 2 && (op matches .st | .stStk | .stMem) then .ok true
  else match c.kind, c.value with
    | .s8, .int v | .s16, .int v | .s32, .int v | .s64, .int v | .a64, .int v | .c64, .int v =>
      .ok (v < -(span 31 : Int) || span 31 ≤ v)
    | .u8, .int v | .u16, .int v | .u32, .int v | .u64, .int v => .ok (span 31 ≤ v)
    | _, _ => broken "kind of literal"

variable (p : Prog)

def moveUnfit (i : InsId) : Pass (Prog × Option (List InsId)) := do
  let f ← get
  let x := f.ins i
  unless x.op.fam matches .alu | .condBra | .alu1 | .st | .conv | .mov do return (p, some [i])
  let unfit ← attempt <| x.args.zipIdx.filterM fun (y, pos) =>
    match f.litOf? y with
    | some c => isUnfit x.op pos c
    | none => .ok false
  let (p, code) ← moveLits .a64 i p (unfit.map Prod.snd)
  return (p, some (code ++ [i]))

/-! ## Fixed registers -/

def moveTo (dst src : Opnd) : Pass InsId := newIns .mov [dst, src]
def fixedReg (n : Nat) (k : Kind) : Pass Opnd := do return .reg (← cpuRegOf (gpr n) k)

def divideFixed (dst a b : Opnd) (k : Kind) (remainder : Bool) : Pass (List InsId) := do
  let rax ← fixedReg 0 k
  let rcx ← fixedReg 1 k
  let rdx ← fixedReg 2 k
  return [← moveTo rax a, ← moveTo rcx b, ← newIns .div [rdx, rax, rcx],
    ← moveTo dst (if remainder then rdx else rax)]

variable (i : InsId)

/-- Shift by `rcx`, of which only as many bits count as tell the width. -/
def shiftFixed (amount : Opnd) (k : Kind) : Pass (List InsId) := do
  let rcx ← fixedReg 1 k
  let mov ← moveTo rcx amount
  modify (·.modifyIns i (·.setArg 2 rcx))
  let mask ← newLit k (k.bits - 1 : Int)
  return [mov, ← newIns .and [rcx, rcx, mask], i]

def swapFixed (dst old : Opnd) (k : Kind) : Pass (List InsId) := do
  let rax ← fixedReg 0 k
  let before ← moveTo rax old
  let after ← moveTo dst rax
  modify (·.modifyIns i fun x => (x.setArg 1 rax).setArg 0 rax)
  return [before, i, after]

def reduceAmount (width : Nat) (c : Lit) : Lit :=
  match c.value with
  | .int v => { c with value := .int (v % width) }
  | .real _ => c

def useFixedRegs : Visit := do
  let f ← get
  let x := f.ins i
  let k := f.kindOf (x.arg 0)
  match x.op with
  | .div | .rem => if k.isFloat then return none else
      return some (← divideFixed (x.arg 0) (x.arg 1) (x.arg 2) k (x.op == .rem))
  | .shl | .shr =>
    match x.arg 2 with
    | .lit c =>
      modify (·.modifyLit c (reduceAmount k.bits))
      return none
    | amount => return some (← shiftFixed i amount k)
  | .cas | .casMem | .casStk => return some (← swapFixed i (x.arg 0) (x.arg 1) k)
  | _ => return none

def overwrites (f : Fn) (x : IR.Ins) : Bool :=
  match x.op with
  | .div | .rem => (f.kindOf (x.arg 0)).isFloat
  | .leaMem | .leaStk => false
  | op => op.fam == .alu || op.fam == .lea

/-- Make the first two operands of an instruction the same, if necessary by way of a new
register. -/
def overwriteFirst : Visit := do
  let f ← get
  let x := f.ins i
  if !overwrites f x then return none
  match x.args with
  | [.reg dst, a, b] =>
    let mark := modify (·.modifyReg dst fun r => { r with twoAddr := true })
    if a = .reg dst then
      mark
      return none
    else if b = .reg dst && x.op.has .commutative then
      modify (·.modifyIns i (·.swap 1 2))
      mark
      return some [i]
    else
      let r ← tempReg (f.reg dst).kind "aab" false
      modify (·.modifyReg r fun r => { r with twoAddr := true })
      return some [← moveTo (.reg r) a, ← newIns x.op [.reg r, .reg r, b],
        ← moveTo (.reg dst) (.reg r)]
  | _ => broken "three operands"

def legalizeFn (f : FnId) : Res Prog := do
  let p ← assignSignature convention p f
  if (p.fn f).kind != .normal then return p
  let p ← runOn p f fun p => do
    passArgs convention p
    simplifyAccesses .a64
    discard expandCopysigns
    expandCmps
    discard canonicalize
    exitFlow p
  let p ← rewriteGrowing moveUnfit p f
  let p ← runOn p f fun p => do
    discard <| rewrite useFixedRegs
    discard <| rewrite overwriteFirst
    refreshRegs p
    discard separateLocals
  checkFn p (p.fn f) {}
  return p

def legalize : Res Prog := do overFns legalizeFn (← prepare p)

/-!
## Compiling for X64

Values for which there is no register stay in slots of the stack frame, and instructions work on
them there.
-/

/-! ## Stack frames

Room for floating point registers to be saved is above that for stack areas and slots. -/

def isGpr (c : CpuReg) : Bool := c.fam == gprFam
def gprSurvives (n : Nat) : Bool := n = 3 || n = 5 || 12 ≤ n
def fltSurvives (n : Nat) : Bool := 8 ≤ n

def ctx (f : Fn) : Res Ctx := do
  let regs ← residentRegs f
  let saved gpr survives :=
    let used := (regs.filter fun c => isGpr c == gpr).map CpuReg.no
    (List.range 16).filter fun n => survives n && used.contains n
  return { gpr := saved true gprSurvives
           flt := saved false fltSurvives
           stack := (f.frameSize + 15) / 16 * 16
           isLeaf := f.isLeaf }

def Ctx.floatPlaces (c : Ctx) : List (Nat × Int) :=
  c.flt.reverse.zipIdx.map fun (n, i) => (n, c.stack + 8 * i)

def adjustStack (opcode : String) (c : Ctx) : List Tmpl :=
  let room := c.frameSize - 8 * c.gpr.length - 8
  if room > 0 then [tmpl opcode [rsp, .fixed room]] else []

def prolog (c : Ctx) : Res (List Tmpl) :=
  .ok (c.gpr.reverse.map (fun (n : Nat) => tmpl "push_64_r" [.fixed n]) ++
    adjustStack "sub_64_mr_imm32" c ++
    c.floatPlaces.map fun (n, place) => tmpl "movsd_mbis32_x" (framed (.fixed place) ++ [.fixed n]))

def epilog (c : Ctx) : Res (List Tmpl) :=
  .ok ((c.floatPlaces.reverse.map fun (n, place) =>
      tmpl "movsd_x_mbis32" (.fixed n :: framed (.fixed place))) ++
    adjustStack "add_64_mr_imm32" c ++
    c.gpr.map (fun (n : Nat) => tmpl "pop_64_r" [.fixed n]) ++ [tmpl "ret" []])

def gprFile : RegFile := ⟨(List.range 16).filter fun n => n != 0 && n != 4, gprSurvives⟩
def fltFile : RegFile := ⟨(List.range 16).filter (· != 0), fltSurvives⟩

def regFiles : Registers where
  gpr := gprFile
  flt := fltFile
  candidates k := (List.range 16).map (if k.isFloat then flt else gpr)
  holds k := (wideKinds k).isSome
  units c := [c.no]
  isGpr := isGpr
  isReserved c := c.no == 0

/-- Values that cross blocks stay out of the registers that instructions use implicitly. -/
def globalPlan : GlobalPlan where
  kinds := wideKinds
  files :=
    [{ GlobalFile.of gprFile [(.s64, 1)] isGpr (inTurn gpr) with
       notLac := gprFile.notLac.filter (2 < ·) },
     .of fltFile [(.f64, 1)] (!isGpr ·) (inTurn flt)]
  inPlace := true

/-- Stores and jumps through tables may need a register more than `rax`. -/
def tempNeed (_ : Fn) (i : IR.Ins) : Option (Kind × String) :=
  match i.op with
  | .st => some (.s64, "nop1")
  | .switch => some (.c64, "nop1")
  | _ => none

def localPlan : LocalPlan := ⟨regFiles, false, tempNeed, true⟩
def insText (i : Ins) : Res String := do return " ".intercalate (i.opcode.name :: (← i.render))

/-- A move of a register to itself; one of 32 bits clears the upper bits and counts as work. -/
def isIdle (i : Ins) : Bool :=
  i.opcode.mnemonic == "mov" && ["8_r_mr", "16_r_mr", "64_r_mr"].contains i.opcode.variant &&
    i.opnds[0]? == i.opnds[1]?

def codeRules : CodeRules Ctx Tmpl Ins where
  ctx := ctx
  prolog := prolog
  epilog := epilog
  withTemp c h := { c with temp := some h }
  select f i := do return (← findPat f i (pats i.op)).map Pat.emit
  make := Tmpl.make
  isIdle := isIdle
  inlines := true
  addrSize := 8

def tgt : Tgt where
  legalize := legalize
  globals := globalPlan
  locals := localPlan
  reports := false
  text := assemblyText codeRules insText
  unit := assemblyUnit codeRules ⟨dialect.filler, RelocKind.code .abs64, 1, Ins.emit, Ins.parse⟩
  linker := linker

open Report

/-- Report on one instruction; `rax` is at hand as a scratch register. -/
def reportChoice (f : Fn) (i : IR.Ins) : Report PUnit := do
  match ← findPat f i (pats i.op) with
  | none => broken "no pattern"
  | some t =>
    say (s!"PAT: reg:{bracketed (t.kinds.map Kind.name)}  op:" ++ bracketed (t.curbs.map Curb.name))
    t.emit.forM fun x => do
      let ins ← x.make p f { temp := some (.cpu (gpr 0)) } i
      say (s!"    {ins.opcode.name} " ++ " ".intercalate (← ins.render))

def selectionReport : List String × Option Fault := (reportProg p reportChoice).pieces

end Retarget.X64
