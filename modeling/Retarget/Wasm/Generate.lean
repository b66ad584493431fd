import Retarget.IR.Flow
import Retarget.Wasm.Module

/-!
# Code for a function

Operands on the stack live in the registers of their positions, so all that has to be known of the
stack are the kinds of what is on it. A comparison whose result is used up by the next instruction is
left to that instruction.
-/

namespace Retarget.Wasm
open IR (Kind Lit Op)

inductive Var where
  | base
  | loc (n : Nat)
  /-- The operand at a position of the operand stack, if it is of kind `k`. -/
  | op (pos : Nat) (k : Kind)
  | named (name : String) (k : Kind)
  deriving DecidableEq

def Var.name : Var → String
  | base => "mem_base"
  | loc n => s!"$loc_{n}"
  | op pos k => s!"$op_{pos}_{k.name}"
  | named name _ => name

inductive Construct where
  | blk | loop | cond
  deriving DecidableEq, Inhabited

def Construct.name : Construct → String
  | blk => "block" | loop => "loop" | cond => "if"

inductive Label where
  | start
  | opening (s : Construct) (no : Nat)
  | otherwise (no : Nat)
  | closing (s : Construct) (no : Nat)
  | chosen (no : Nat)
  | named (name : String)
  deriving DecidableEq

def Label.name : Label → String
  | start => "start"
  | opening s no => s!"{s.name}_{no}"
  | otherwise no => s!"else_{no}"
  | closing s no => s!"end{s.name}_{no}"
  | chosen no => s!"select_{no}"
  | named name => name

inductive Opnd where
  | var (v : Var)
  | lit (c : Lit)
  | label (l : Label)
  | table (n : Nat)
  | mem (m : Option IR.MemId)
  | fn (f : IR.FnId)

namespace Opnd

def var? : Opnd → Option Var
  | var v => some v
  | _ => none

def lit? : Opnd → Option Lit
  | lit c => some c
  | _ => none

end Opnd

inductive Line where
  | label (l : Label)
  | ins (op : Op) (args : List Opnd)

namespace Line

def label? : Line → Option Label
  | label l => some l
  | ins .. => none

def args : Line → List Opnd
  | label _ => []
  | ins _ as => as

def vars (l : Line) : List Var := l.args.filterMap Opnd.var?
def lits (l : Line) : List Lit := l.args.filterMap Opnd.lit?

end Line

/-- Where a jump by a number goes: to the label of that number, or else to the other one. -/
structure JumpList where
  cases : List Label
  other : Label

structure Listing where
  addr : Kind
  locals : List Kind
  vars : List Var
  lines : List Line
  tables : List JumpList

namespace Listing

def kindOf (l : Listing) : Var → Kind
  | .base => l.addr
  | .loc n => l.locals.getD n .invalid
  | .op _ k => k
  | .named _ k => k

def labels (l : Listing) : List Label := l.lines.filterMap Line.label?
def lits (l : Listing) : List Lit := l.lines.flatMap Line.lits

end Listing

/-- The numbers that stand for registers, literals and labels: their first positions in tables. -/
structure Numbering where
  vars : List Var
  lits : List Lit
  labels : List Label

namespace Numbering

def opnd (n : Numbering) : Opnd → IR.Opnd
  | .var v => .reg (n.vars.idxOf v)
  | .lit c => .lit (n.lits.idxOf c)
  | .label l => .blk (n.labels.idxOf l)
  | .table t => .table t
  | .mem m => .mem (m.getD 0)
  | .fn f => .fn f

def ins? (n : Numbering) : Line → Option IR.Ins
  | .label _ => none
  | .ins op args => some (.of op (args.map n.opnd))

def table (n : Numbering) (no : Nat) (t : JumpList) : IR.JumpTable where
  name := s!"jtb_{(no + 1 : Nat)}"
  size := t.cases.length
  fallback := n.labels.idxOf t.other
  cases := t.cases.zipIdx.map fun p => ((p.2 : Int), n.labels.idxOf p.1)

end Numbering

def codeLength : List Line → Nat
  | .ins .. :: r => codeLength r + 1
  | _ => 0

def blksFrom : Nat → List Line → List IR.Blk
  | _, [] => []
  | n, .label l :: r => { name := l.name, code := List.range' n (codeLength r) } :: blksFrom n r
  | n, .ins .. :: r => blksFrom (n + 1) r

def Listing.numbering (l : Listing) : Numbering := ⟨l.vars, l.lits, l.labels⟩

def Listing.asm (l : Listing) (f : IR.Fn) : IR.Fn :=
  let n := l.numbering
  { f with
    regs := (l.vars.map fun v => ({ name := v.name, kind := l.kindOf v } : IR.Reg)).toArray
    lits := n.lits.toArray
    code := (l.lines.filterMap n.ins?).toArray
    blks := (blksFrom 0 l.lines).toArray
    order := List.range n.labels.length
    tables := (l.tables.zipIdx.map fun p => n.table p.2 p.1).toArray }

/-! ## Code for a function -/

/-! ## Kinds -/

def NumType.kind : NumType → Kind
  | i32 => .s32 | i64 => .s64 | f32 => .f32 | f64 => .f64

def ValType.kind : ValType → Res Kind
  | num t => .ok t.kind
  | ref _ => unknown "type of a reference"

def kindsOf (ts : List ValType) : Res (List Kind) := ts.mapM ValType.kind

def toUnsigned : Kind → Res Kind
  | .s32 => .ok .u32
  | .s64 => .ok .u64
  | _ => broken "unsigned number"

structure Ctx where
  module : Module
  functions : List Function
  prog : IR.Prog
  syms : List (String × IR.FnId)
  table : Option IR.MemId
  addr : Kind
  params : List Kind
  rets : List Kind

/-! ## Operands -/

def slots : List Kind → List Var
  | [] => []
  | k :: ks => .op ks.length k :: slots ks

/-- The operand that is pushed next, if it is of kind `k`. -/
abbrev slot (ops : List Kind) (k : Kind) : Opnd := .var (.op ops.length k)

def popKind : List Kind → Res (Kind × List Kind)
  | [] => .error .pastEnd
  | k :: ks => .ok (k, ks)

/-- Code, and the kinds of what is on the stack after it. -/
abbrev Emission := Res (List Line × List Kind)

/-- Push operands of the given kinds, the topmost first, as arguments or results. -/
def pushArgs : List Kind → List Kind → Emission
  | [], ops => .ok ([], ops)
  | k :: ks, ops => do
    let (k', ops) ← popKind ops
    ensure (k' == k) "argument kind"
    let (lines, rest) ← pushArgs ks ops
    return (.ins .pusharg [slot ops k] :: lines, rest)

def popRets : List Kind → List Kind → List Line × List Kind
  | [], ops => ([], ops)
  | k :: ks, ops =>
    let (lines, rest) := popRets ks (k :: ops)
    (.ins .poparg [slot ops k] :: lines, rest)

def zeroOff : Opnd := .lit (.ofInt .u32 0)

/-! ## Comparisons -/

def Relation.negate : Relation → Relation
  | eq => ne | ne => eq | lt => ge | ge => lt | gt => le | le => gt

def Relation.branch : Relation → Op × Bool
  | eq => (.beq, false)
  | ne => (.bne, false)
  | lt => (.blt, false)
  | le => (.ble, false)
  | gt => (.blt, true)
  | ge => (.ble, true)

/-- The conditional move that tells whether two operands are in a relation; whether it has them in
the other sequence; and whether it tells the opposite. -/
def Relation.move : Relation → Op × Bool × Bool
  | eq => (.cmpeq, false, false)
  | ne => (.cmpeq, false, true)
  | lt => (.cmplt, false, false)
  | le => (.cmplt, true, true)
  | gt => (.cmplt, true, false)
  | ge => (.cmplt, false, true)

def Ins.takesCond : Ins → Bool
  | if_ _ | brIf _ | select => true
  | _ => false

def Ins.isFused (i : Ins) (next : Option Ins) : Res Bool := do
  if i.isCmp then return (← orFault .pastEnd next).takesCond else return false

/-- A branch without its target, and what is left on the stack. -/
structure Condition where
  op : Op
  left : Opnd
  right : Opnd
  kind : Kind
  isUnsigned : Bool
  rest : List Kind

def zeroCond (isZero : Bool) (ops : List Kind) : Res Condition := do
  let (k, rest) ← popKind ops
  return ⟨if isZero then .beq else .bne, slot rest k, .lit (.ofInt k 0), k, false, rest⟩

def condition (prev : Option Ins) (inverse : Bool) (ops : List Kind) : Res Condition :=
  match prev with
  | some (.eqz _) => zeroCond (!inverse) ops
  | some (.compare _ r s) => do
    let (k2, ops) ← popKind ops
    let (k1, rest) ← popKind ops
    let (op, swap) := (if inverse then r.negate else r).branch
    let a := slot rest k1
    let b := slot ops k2
    let u := s == .unsigned
    return if swap then ⟨op, b, a, k2, u, rest⟩ else ⟨op, a, b, k1, u, rest⟩
  | _ => zeroCond inverse ops

/-- Two operands of kind `k` as they are compared, with the code that makes them. Unsigned numbers
are in registers above a stack of the given size. -/
def asCompared (isUnsigned : Bool) (size : Nat) (k : Kind) (a b : Opnd) :
  Res (List Line × Opnd × Opnd) := do
  if isUnsigned then
    let u ← toUnsigned k
    let x := .var (.op (size + 1) u)
    let y := .var (.op (size + 2) u)
    return ([.ins .conv [x, a], .ins .conv [y, b]], x, y)
  else return ([], a, b)

def Condition.opnds (c : Condition) (size : Nat) : Res (List Line × Opnd × Opnd) :=
  asCompared c.isUnsigned size c.kind c.left c.right

def compareLines (r : Relation) (s : Reading) (ops : List Kind) : Emission := do
  let size := ops.length
  let (op, swap, opposite) := r.move
  let (k2, ops) ← popKind ops
  let (k1, rest) ← popKind ops
  let a := slot rest k1
  let b := slot ops k2
  let (k, a, b) := if swap then (k2, b, a) else (k1, a, b)
  let (lines, a, b) ← asCompared (s == .unsigned) size k a b
  let one := .lit (.ofInt .s32 1)
  let zero := .lit (.ofInt .s32 0)
  let (x, y) := if opposite then (zero, one) else (one, zero)
  return (lines ++ [.ins op [slot rest .s32, x, y, a, b]], .s32 :: rest)

/-- Set a register to one if an operand is zero, or else to zero. -/
def eqzLines (ops : List Kind) : Emission := do
  let (k, rest) ← popKind ops
  return ([.ins .cmpeq [slot rest .s32, .lit (.ofInt .s32 1), .lit (.ofInt .s32 0),
    slot rest k, .lit (.ofInt k 0)]], .s32 :: rest)

/-! ## Arithmetic -/

/-- The instruction for an operation on one operand, and the number that is its second operand. -/
def UnaryOp.code : UnaryOp → Res (Op × Option Int)
  | sqrt => .ok (.sqrt, none)
  | abs => .ok (.copysign, some 0)
  | neg => .ok (.mul, some (-1))
  | clz => .ok (.cntlz, none)
  | ctz => .ok (.cnttz, none)
  | floor => .ok (.floor, none)
  | ceil => .ok (.ceil, none)
  | nearest => .ok (.round, none)
  | _ => unknown "operation"

def unaryLines (op : UnaryOp) (ops : List Kind) : Emission := do
  let (code, second) ← op.code
  let (k, rest) ← popKind ops
  let x := slot rest k
  return ([.ins code ([x, x] ++ second.toList.map fun n => .lit (.ofInt k n))], k :: rest)

def rotateLines (k : Kind) (d x y : Opnd) : List Line :=
  [.ins .shl [d, x, y], .ins .sub [y, .lit (.ofInt k k.bits), y], .ins .shr [x, x, y],
    .ins .or [d, d, x]]

variable (op : BinaryOp)

/-- Code for an operation, given the kind of its operands, where its result goes and where its
operands are. -/
def BinaryOp.code : Res (Kind → Opnd → Opnd → Opnd → List Line) :=
  let one o := .ok fun _ d x y => [.ins o [d, x, y]]
  match op with
  | xor => one .xor | and => one .and | or => one .or
  | shl => one .shl | shr => one .shr
  | sub => one .sub | add => one .add | mul => one .mul
  | div => one .div | rem => one .rem
  | copysign => one .copysign
  | rotl => .ok rotateLines
  | min => .ok fun _ d x y => [.ins .cmplt [d, x, y, x, y]]
  | max => .ok fun _ d x y => [.ins .cmplt [d, y, x, x, y]]
  | rotr => unknown "operation"

def BinaryOp.isUnsigned (s : Reading) : Bool := s == .unsigned || op == .rotl || op == .rotr

def binaryLines (s : Reading) (ops : List Kind) : Emission := do
  let size := ops.length
  let (k2, ops) ← popKind ops
  let (k1, rest) ← popKind ops
  let x := slot rest k1
  let y := slot ops k2
  let code ← op.code
  if op.isUnsigned s then
    let u ← toUnsigned k1
    let a := .var (.op (size + 1) u)
    let b := .var (.op (size + 2) u)
    let d := .var (.op (size + 3) u)
    return ([.ins .conv [a, x], .ins .conv [b, y]] ++ code u d a b ++ [.ins .conv [x, d]], k1 :: rest)
  else return (code k1 x x y, k1 :: rest)

def isConvertible (c : Conversion) (dst src : NumType) (s : Reading) : Bool :=
  match c, dst, src, s with
  | .trunc, .i64, .f32, .unsigned => false
  | .convert, _, .i64, .unsigned => false
  | _, _, _, _ => true

def convertLines (c : Conversion) (dst src : NumType) (s : Reading) (ops : List Kind) :
  Emission := do
  if !isConvertible c dst src s then unknown "conversion"
  let size := ops.length
  let (k, rest) ← popKind ops
  let x := slot rest k
  let d := slot rest dst.kind
  let lines ← if s == .unsigned && c == .trunc then do
      let t := .var (.op (size + 1) (← toUnsigned dst.kind))
      pure [.ins .conv [t, x], .ins .conv [d, t]]
    else if s == .unsigned then do
      let t := .var (.op (size + 1) (← toUnsigned k))
      pure [.ins .conv [t, x], .ins .conv [d, t]]
    else pure [.ins .conv [d, x]]
  return (lines, dst.kind :: rest)

def reinterpretLines (dst : NumType) (ops : List Kind) : Emission := do
  let (k, rest) ← popKind ops
  return ([.ins .bitcast [slot rest dst.kind, slot rest k]], dst.kind :: rest)

/-! ## Variables and memory -/

def localVar (locals : List Kind) (n : Nat) : Res (Var × Kind) :=
  match locals[n]? with
  | some k => .ok (.loc n, k)
  | none => broken "unknown local"

variable (c : Ctx)

def Ctx.globalMem (n : Nat) : Opnd := .mem (c.prog.findMem? s!"global_vars_{n}")

def offLines (k : Kind) (pos : Nat) (a : Access) : List Line :=
  if a.off = 0 then []
  else [.ins .add [.var (.op pos k), .var (.op pos k), .lit (.ofInt k a.off)]]

def storedKind (t : NumType) (n : Option Narrow) : Option Kind :=
  n.map fun n =>
    match t, n.bits with
    | _, 8 => .u8
    | .i64, 16 => .s16
    | _, 16 => .u16
    | _, _ => .u32

def storeLines (t : NumType) (n : Option Narrow) (a : Access) (ops : List Kind) : Emission := do
  let (k, ops) ← popKind ops
  let (ko, rest) ← popKind ops
  let x := slot ops k
  let (narrowing, x) : List Line × Opnd := match storedKind t n with
    | some k' => ([.ins .conv [.var (.op (rest.length + 1) k'), x]], .var (.op (rest.length + 1) k'))
    | none => ([], x)
  return (offLines ko rest.length a ++ narrowing ++ [.ins .st [.var .base, slot rest ko, x]], rest)

def loadedKind (n : Option Narrow) : Option Kind :=
  n.map fun n =>
    match n.bits, n.reading with
    | 8, .unsigned => .u8
    | 8, _ => .s8
    | 16, .unsigned => .u16
    | 16, _ => .s16
    | _, .unsigned => .u32
    | _, _ => .s32

def loadLines (t : NumType) (n : Option Narrow) (a : Access) (ops : List Kind) : Emission := do
  let (ko, rest) ← popKind ops
  let o := slot rest ko
  let d := slot rest t.kind
  let lines : List Line := match loadedKind n with
    | some k =>
      let t := .var (.op (rest.length + 1) k)
      [.ins .ld [t, .var .base, o], .ins .conv [d, t]]
    | none => [.ins .ld [d, .var .base, o]]
  return (offLines ko rest.length a ++ lines, t.kind :: rest)

/-! ## Calls -/

/-- Pass the operands on the stack to a function and take its results. -/
def Ctx.callLines (f : IR.FnId) (call : Line) (ops : List Kind) : Emission := do
  let callee := c.prog.fn f
  let (args, rest) ← pushArgs (callee.inputs.drop 1).reverse ops
  let (rets, ops) := popRets callee.outputs rest
  return (args ++ [.ins .pusharg [.var .base], call] ++ rets, ops)

def Ctx.directLines (n : Nat) (ops : List Kind) : Emission := do
  let callee ← orFault .pastEnd c.functions[n]?
  let f ← need "unknown function" (c.syms.lookup callee.name)
  c.callLines f (.ins .bsr [.fn f]) ops

def Ctx.signature (c : Ctx) (inputs outputs : List Kind) : Res IR.FnId :=
  need "no such function" <|
    c.prog.fnOrder.find? fun f =>
      (c.prog.fn f).outputs == outputs && (c.prog.fn f).inputs == inputs

def Ctx.indirectLines (type table : Nat) (ops : List Kind) : Emission := do
  ensure (table == 0) "several tables"
  let t ← itemAt c.module.types type
  let f ← c.signature (c.addr :: (← kindsOf t.params)) (← kindsOf t.rets)
  let code := if c.addr == .a32 then .c32 else .c64
  let start := slot ops c.addr
  let tgt := .var (.op (ops.length + 1) code)
  let (k, rest) ← popKind ops
  ensure (k == .s32) "index kind"
  let idx := slot rest k
  let (lines, ops) ← c.callLines f (.ins .jsr [tgt, .fn f]) rest
  return ([.ins .mul [idx, idx, .lit (.ofInt .u32 code.bytes)],
    .ins .leaMem [start, .mem c.table, zeroOff], .ins .ld [tgt, start, idx]] ++ lines, ops)

def Ctx.growLines (amount : Opnd) (ops : List Kind) : Emission := do
  let f ← need "unknown function" (c.syms.lookup "__memory_grow")
  return ([.ins .pusharg [amount], .ins .bsr [.fn f], .ins .poparg [slot ops .s32]], .s32 :: ops)

/-- The code of an instruction that does not send control anywhere, and the operands after it. -/
def Ctx.plainLines (locals : List Kind) (i : Ins) (ops : List Kind) : Emission :=
  match i with
  | .nop => .ok ([], ops)
  | .unreachable => .ok ([.ins .trap []], ops)
  | .intConst t n =>
    .ok ([.ins .mov [slot ops t.kind, .lit (.ofInt t.kind n)]], t.kind :: ops)
  | .realConst t x =>
    .ok ([.ins .mov [slot ops t.kind, .lit ⟨t.kind, .real x⟩]], t.kind :: ops)
  | .drop => do
    let (_, rest) ← popKind ops
    return ([], rest)
  | .localGet n => do
    let (v, k) ← localVar locals n
    return ([.ins .mov [slot ops k, .var v]], k :: ops)
  | .localSet n => do
    let (k, rest) ← popKind ops
    let (v, _) ← localVar locals n
    return ([.ins .mov [.var v, slot rest k]], rest)
  | .localTee n => do
    let (k, rest) ← popKind ops
    let (v, _) ← localVar locals n
    return ([.ins .mov [.var v, slot rest k]], ops)
  | .globalGet n => do
    let k ← (← itemAt c.module.globals n).type.value.kind
    return ([.ins .ldMem [slot ops k, c.globalMem n, zeroOff]], k :: ops)
  | .globalSet n => do
    let (k, rest) ← popKind ops
    return ([.ins .stMem [c.globalMem n, zeroOff, slot rest k]], rest)
  | .unary _ op => unaryLines op ops
  | .binary _ op s => binaryLines op s ops
  | .convert conv dst src s => convertLines conv dst src s ops
  | .reinterpret dst _ => reinterpretLines dst ops
  | .eqz _ => eqzLines ops
  | .compare _ r s => compareLines r s ops
  | .store t n a => storeLines t n a ops
  | .load t n a => loadLines t n a ops
  | .call n => c.directLines n ops
  | .callIndirect type table => c.indirectLines type table ops
  | .memorySize _ => c.growLines (.lit (.ofInt .s32 0)) ops
  | .memoryGrow _ => do
    let (k, rest) ← popKind ops
    c.growLines (slot rest k) rest
  | .return_ => do
    let (lines, rest) ← pushArgs c.rets.reverse ops
    return (lines ++ [.ins .ret []], rest)
  | _ => broken "instruction"

/-! ## Blocks -/

structure Open where
  sort : Construct
  no : Nat
  params : List Kind
  rets : List Kind
  /-- How many operands there are when the block is opened, its parameters among them. -/
  start : Nat
  /-- What is done if the condition fails is still to come. -/
  pending : Bool
  deriving Inhabited

namespace Open
variable (b : Open)

/-- Where a branch to the block goes: a loop is begun anew, other blocks are left. -/
def tgt : Label := if b.sort = .loop then .opening .loop b.no else .closing b.sort b.no
def below : Int := b.start - b.params.length
def after : Int := b.below + b.rets.length

variable (ops : List Kind)

def lowest : Res (List Kind) :=
  if b.below < 0 then .error .pastEnd else .ok (ops.drop (ops.length - b.below.toNat))

/-- The operands at the end of the part for a condition that holds are replaced by those that the
other part starts with. -/
def turn (leaves : Bool) (ops : List Kind) : Res (List Kind) := do
  ensure (if leaves then b.below ≤ ops.length else ops.length = b.after) "operands left over"
  return b.params.reverse ++ (← b.lowest ops)

/-- The operands at the end of a block. If the end is not reached, operands are dropped or added to
have as many as there should be. -/
def finish (leaves : Bool) (ops : List Kind) : Res (List Kind) := do
  if leaves then
    ensure (b.below ≤ ops.length) "operands used up"
    if b.after < 0 then throw .pastEnd
    let kept := ops.drop (ops.length - b.after.toNat)
    let missing := b.after.toNat - kept.length
    return (b.rets.drop (b.rets.length - missing)).reverse ++ kept
  else
    ensure (ops.length = b.after) "operands left over"
    return ops

/-- The moves that bring the results of a block to where it leaves them: targets and sources. They
are counted from the number of operands at the start of the block. -/
def resultMoves : Res (List (Var × Var)) := do
  let n := b.rets.length
  let moves ← (List.range n).mapM fun (i : Nat) => do
    let pos ← wrapIdx ((ops.length : Int) - 1 - i) ops.length
    let k := ops.getD (ops.length - 1 - pos) .invalid
    return (Var.op (b.start + n - 1 - i) k, Var.op pos k)
  return moves.filter fun (d, s) => d ≠ s

def branchMoves : Res (List (Var × Var)) := if b.sort = .loop then .ok [] else b.resultMoves ops

end Open

def moveLine (m : Var × Var) : Line := .ins .mov [.var m.1, .var m.2]

def blkKinds (types : Option (List FnType)) : BlkType → Res (List Kind × List Kind)
  | .empty => .ok ([], [])
  | .value t => do return ([], [← t.kind])
  | .typed n => do
    let t ← itemAt types n
    let rets ← kindsOf t.rets
    return (← kindsOf t.params, rets)

structure Gen where
  /-- The kinds of the operands on the stack, the topmost first. -/
  ops : List Kind
  blks : List Open
  lines : Array Line
  vars : List Var
  count : Nat
  tables : Array JumpList

def declare (vars vs : List Var) : List Var :=
  vs.foldl (fun vars v => if v ∈ vars then vars else vars ++ [v]) vars

namespace Gen
variable (g : Gen)

def add (lines : List Line) (ops : List Kind) : Gen :=
  { g with
    ops
    lines := g.lines ++ lines
    vars := declare (declare g.vars (lines.flatMap Line.vars)) (slots ops) }

def blkAt (depth : Nat) : Res Open := orFault .pastEnd g.blks[depth]?

def makeBlk (c : Ctx) (s : Construct) (t : BlkType) (ops : List Kind) : Res Open := do
  let (params, rets) ← blkKinds c.module.types t
  ensure (((ops.take params.length).reverse.zip params).all fun p => p.1 == p.2) "parameter kind"
  return ⟨s, g.count, params, rets, ops.length, s == .cond⟩

def enter (b : Open) (lines : List Line) (ops : List Kind) : Gen :=
  { g.add (lines ++ [.label (.opening b.sort b.no)]) ops with
    blks := b :: g.blks
    count := g.count + 1 }

def step (locals : List Kind) (prev next : Option Ins) (i : Ins) (g : Gen) : Res Gen :=
  match i with
  | .blk t => do return g.enter (← g.makeBlk c .blk t g.ops) [] g.ops
  | .loop t => do return g.enter (← g.makeBlk c .loop t g.ops) [] g.ops
  | .if_ t => do
    let cond ← condition prev true g.ops
    let (lines, x, y) ← cond.opnds g.ops.length
    let b ← g.makeBlk c .cond t cond.rest
    return g.enter b (lines ++ [.ins cond.op [x, y, .label (.otherwise b.no)]]) cond.rest
  | .else_ =>
    match g.blks with
    | [] => .error .pastEnd
    | b :: bs => do
      ensure (b.sort == .cond) "no condition"
      let ops ← b.turn (prev.any Ins.leavesOpen) g.ops
      ensure b.pending "second alternative"
      return { g.add [.ins .bra [.label (.closing b.sort b.no)], .label (.otherwise b.no)] ops with
        blks := { b with pending := false } :: bs }
  | .end_ =>
    match g.blks with
    | b :: bs => do
      let ops ← b.finish (prev.any Ins.leavesOpen) g.ops
      let other := if b.pending then [.label (.otherwise b.no)] else []
      return { g.add (other ++ [.label (.closing b.sort b.no)]) ops with blks := bs }
    | [] => do
      ensure next.isNone "code after the end"
      if prev.any fun p => p == .return_ || p.leavesOpen then return g
      let (lines, ops) ← pushArgs c.rets.reverse g.ops
      return g.add (lines ++ [.ins .ret []]) ops
  | .br depth => do
    let b ← g.blkAt depth
    return g.add ((← b.branchMoves g.ops).map moveLine ++ [.ins .bra [.label b.tgt]]) g.ops
  | .brIf depth => do
    let cond ← condition prev false g.ops
    let (lines, x, y) ← cond.opnds g.ops.length
    let b ← g.blkAt depth
    let moves ← b.branchMoves cond.rest
    return g.add (lines ++ moves.map moveLine ++ [.ins cond.op [x, y, .label b.tgt]]) cond.rest
  | .brTable depths other => do
    let cases ← depths.mapM g.blkAt
    let other ← g.blkAt other
    let (k, rest) ← popKind g.ops
    let u ← toUnsigned k
    let size := .lit (.ofInt u cases.length)
    let idx := .var (.op rest.length u)
    let lines := [.ins .conv [idx, .var (.op rest.length k)],
      .ins .ble [size, idx, .label other.tgt], .ins .switch [idx, .table g.tables.size]]
    return { g.add lines rest with
      tables := g.tables.push ⟨cases.map Open.tgt, other.tgt⟩ }
  | .select => do
    let cond ← condition prev false g.ops
    let (k2, ops) ← popKind cond.rest
    let (k1, rest) ← popKind ops
    ensure (k2 == k1) "choice of kinds"
    let (lines, x, y) ← cond.opnds g.ops.length
    let d := .var (.op rest.length k1)
    let label := .chosen g.count
    return { g.add ([.ins .mov [d, d]] ++ lines ++ [.ins cond.op [x, y, .label label],
      .ins .mov [d, .var (.op ops.length k2)], .label label]) (k1 :: rest) with
      count := g.count + 1 }
  | i => do
    if ← i.isFused next then return g
    else
      let (lines, ops) ← c.plainLines locals i g.ops
      return g.add lines ops

def steps (c : Ctx) (locals : List Kind) (next : Option Ins) : Option Ins → List Ins → Gen → Res Gen
  | _, [], g => .ok g
  | prev, i :: is, g => do
    steps c locals next (some i) is (← g.step c locals prev (is.head?.or next) i)

end Gen

/-! ## Functions -/

def withLocals (ks : List Kind) (further : Nat × ValType) : Res (List Kind) := do
  if further.1 = 0 then return ks
  return ks ++ List.replicate further.1 (← further.2.kind)

def Code.localKinds (code : Code) : Res (List Kind) := code.locals.foldlM withLocals []

/-- Parameters are taken over, and other variables are set to zero. -/
def prologue (params others : List Kind) : List Line :=
  [.label .start, .ins .poparg [.var .base]] ++
    (List.range params.length).map (fun n => .ins .poparg [.var (.loc n)]) ++
    others.zipIdx.map fun (k, n) => .ins .mov [.var (.loc (params.length + n)), .lit (.ofInt k 0)]

def Ctx.generate (code : Code) : Res Listing := do
  let others ← code.localKinds
  let locals := c.params ++ others
  let start : Gen :=
    { ops := [], blks := [], lines := (prologue c.params others).toArray,
      vars := .base :: (List.range locals.length).map .loc, count := 0, tables := #[] }
  let g ← start.steps c locals none none code.body
  ensure g.ops.isEmpty "operands left over"
  ensure g.blks.isEmpty "blocks left open"
  return { addr := c.addr, locals, vars := g.vars, lines := g.lines.toList, tables := g.tables.toList }

/-! ## Modules as programs

The functions of a module become functions whose first argument is the start of the memory. Global
variables, data and the table of functions become memory regions. -/

open IR (Prog Fn FnId MemId)

def systemFns : List String :=
  ["args_get", "args_sizes_get", "environ_get", "environ_sizes_get", "fd_write", "fd_read", "fd_seek",
    "fd_close", "fd_fdstat_get", "fd_prestat_get", "fd_prestat_dir_name", "fd_fdstat_set_flags",
    "path_open", "path_filestat_get", "path_unlink_file", "clock_time_get", "proc_exit",
    "print_i32_ln", "print_i64_ln"].map ("$wasi$" ++ ·)

/-! ## Declarations -/

structure Draft where
  prog : Prog := {}
  syms : List (String × FnId) := []
  /-- Something in a function that is not checked is not there. -/
  incomplete : Bool := false

abbrev Drafting := StateT Draft Res

namespace Draft

def addMem (m : IR.Mem) : Drafting MemId := fun d =>
  match d.prog.findMem? m.name with
  | some _ => .error (.rejected "region declared twice")
  | none =>
    let p := d.prog
    .ok (p.mems.size,
      { d with prog := { p with mems := p.mems.push m, memOrder := p.memOrder ++ [p.mems.size] } })

def addFn (f : Fn) : Drafting FnId := fun d =>
  match d.syms.lookup f.name with
  | some _ => .error (.rejected "function declared twice")
  | none =>
    let p := d.prog
    .ok (p.fns.size, { d with
        prog := { p with fns := p.fns.push f, fnOrder := p.fnOrder ++ [p.fns.size] }
        syms := d.syms ++ [(f.name, p.fns.size)] })

def define (f : FnId) (l : Listing) : Drafting Unit :=
  modify fun d =>
    { d with
      prog := d.prog.modifyFn f l.asm
      incomplete := d.incomplete || !(l.lines.all fun x => x.args.all (!· matches .mem none)) }

def fnNamed (name : String) : Drafting FnId := do
  need "unknown function" ((← get).syms.lookup name)

end Draft

open Draft

def helper (addr : Kind) (vars : List (String × Kind)) (lines : List Line) : Listing :=
  { addr, locals := [], vars := vars.map fun (s, k) => .named s k, lines, tables := [] }

def named (s : String) (k : Kind) : Opnd := .var (.named s k)
def label (s : String) : Line := .label (.named s)

/-! ## Data -/

def copyBytes (addr : Kind) : Listing :=
  let dst := named "dst" addr
  let src := named "src" addr
  let cnt := named "cnt" .u32
  let data := named "data" .u8
  helper addr [("dst", addr), ("src", addr), ("cnt", .u32), ("data", .u8)]
    [label "prolog", .ins .poparg [dst], .ins .poparg [src], .ins .poparg [cnt],
      .ins .bra [.label (.named "epilog")], label "loop",
      .ins .sub [cnt, cnt, .lit (.ofInt .u32 1)], .ins .ld [data, src, cnt],
      .ins .st [dst, cnt, data], label "epilog",
      .ins .blt [zeroOff, cnt, .label (.named "loop")], .ins .ret []]

def initialIns : Expr → Res Ins
  | [i, .end_] => .ok i
  | _ => broken "no initial value"

def initialBytes : Ins → Res Text.Bytes
  | .intConst t n =>
    let width := t.kind.bytes
    if Lit.inRange false (8 * width) n then .ok (leBytes width n)
    else .error .overflow
  | .realConst t x => Lit.packReal (t == .f32) x
  | _ => broken "initial value"

def is32Bit : ValType → Bool
  | .num .i32 | .num .f32 => true
  | _ => false

def globalRegion (n : Nat) : Drafting (Option MemId) :=
  return (← get).prog.findMem? s!"global_vars_{n}"

/-- Add the region of a global variable. The code that initialises it is returned. -/
def addGlobal (n : Nat) (v : Global) : Drafting (List Line) := do
  let region data :=
    addMem ⟨s!"global_vars_{n}", 16, if v.type.isMutable then .rw else .ro, [.bytes 1 data]⟩
  match ← initialIns v.init with
  | .globalGet s =>
    let m ← region (List.replicate (if is32Bit v.type.value then 4 else 8) 0)
    let src ← globalRegion s
    let value := if is32Bit v.type.value then named "val32" .u32 else named "val64" .u64
    return [.ins .ldMem [value, .mem src, zeroOff], .ins .stMem [.mem (some m), zeroOff, value]]
  | i =>
    discard (region (← initialBytes i))
    return []

variable (m : Module)

def addGlobals (addr : Kind) : Drafting FnId := do
  let f ← addFn { name := "init_global_vars_fun", kind := .normal }
  let vars := if m.globals.isSome then [("val32", Kind.u32), ("val64", .u64)] else []
  let lines ← (m.globals.getD []).zipIdx.mapM fun (v, n) => addGlobal n v
  define f <| helper addr vars <| label "start" :: lines.flatten ++ [label "end", .ins .ret []]
  return f

/-- Add a region with data. The code that copies it to the memory is returned. -/
def addData (addr : Kind) (copy : FnId) (n : Nat) (d : Data) : Drafting (List Line) := do
  let some (0, place) := d.place | broken "other memory"
  let i ← initialIns place
  let init ← addMem ⟨s!"global_init_mem_{n}", 16, .ro, [.bytes 1 d.init]⟩
  let base := named "mem_base" addr
  let off := named "offset" .s32
  let src := named "src" addr
  let dst := named "dst" addr
  let first ← match i with
    | .globalGet s => do pure (.ins .ldMem [off, .mem (← globalRegion s), zeroOff])
    | .intConst .i32 n => pure (.ins .mov [off, .lit (.ofInt .s32 n)])
    | _ => broken "place of data"
  return [first, .ins .lea [dst, base, off], .ins .leaMem [src, .mem (some init), zeroOff],
    .ins .pusharg [.lit (.ofInt .u32 d.init.length)], .ins .pusharg [src], .ins .pusharg [dst],
    .ins .bsr [.fn copy]]

def addDataSec (addr : Kind) (copy : FnId) : Drafting (Option FnId) := do
  let f ← addFn { name := "init_data_fun", kind := .normal, inputs := [addr] }
  let vars := if m.data.isSome then [("offset", Kind.s32), ("src", addr), ("dst", addr)] else []
  let lines ← (m.data.getD []).zipIdx.mapM fun (d, n) => addData addr copy n d
  define f <| helper addr (("mem_base", addr) :: vars) <|
    [label "start", .ins .poparg [named "mem_base" addr]] ++ lines.flatten ++
      [label "end", .ins .ret []]
  return if m.data.isSome then some f else none

/-! ## Functions -/

def declareFunction (addr : Kind) (f : Function) : Drafting Unit := do
  if f.code.isNone then
    ensure (systemFns.contains f.name) "unknown function"
  let inputs ← kindsOf f.type.params
  let outputs ← kindsOf f.type.rets
  discard (addFn { name := f.name, kind := .external, inputs := addr :: inputs, outputs })

def fillTable : List Nat → Int → List (Option Nat) → Res (List (Option Nat))
  | [], _, table => .ok table
  | f :: fs, i, table => do fillTable fs (i + 1) (table.set (← wrapIdx i table.length) (some f))

variable (functions : List Function)

def addTable (addr : Kind) : Drafting (Option MemId) := do
  let some tables := m.tables | return none
  let some elements := m.elements | broken "empty table"
  let [t] := tables | broken "several tables"
  ensure (t.element == .func) "other table"
  let table ← elements.foldlM (fun table e => do
    let .intConst .i32 n ← initialIns e.start | broken "place of elements"
    fillTable e.fns n table) (List.replicate t.limits.most none)
  let data ← table.mapM fun
    | none => pure (.bytes addr.bytes [0])
    | some n => do
      let f ← orFault .pastEnd functions[n]?
      return .fnAddr addr.bytes (← fnNamed f.name)
  return some (← addMem ⟨"global_table", addr.bytes, .ro, data⟩)

def checkLines (d : Draft) (lines : List Line) : Res PUnit :=
  lines.forM fun l => l.args.forM fun x =>
    match x with
    | .mem none => throw (.rejected "missing operand")
    | .fn f => ensure (d.syms.lookup (d.prog.fn f).name).isSome "function name"
    | _ => pure ()

/-- Add the code of a function. The function that the program starts with gets another name and is
returned. -/
def addFunction (table : Option MemId) (addr : Kind)
  (main : Option FnId) (f : Function) : Drafting (Option FnId) := do
  let some code := f.code | return main
  let id ← fnNamed f.name
  let isMain := f.name == "_start"
  modify fun d => { d with prog := d.prog.modifyFn id fun g =>
    { g with kind := .normal, name := if isMain then "$main" else g.name } }
  let d ← get
  let declared := d.prog.fn id
  let c : Ctx :=
    { module := m, functions, prog := d.prog, syms := d.syms, table, addr,
      params := declared.inputs.drop 1, rets := declared.outputs }
  let l ← c.generate code
  define id l
  let d ← get
  checkLines d l.lines
  IR.checkFn d.prog (d.prog.fn id) { edges := false }
  return if isMain then some id else main

def addStartup (addr : Kind) (argc argv : MemId) (main initGlobals : FnId) (initData : Option FnId)
  (pages : Nat) : Drafting Unit := do
  let memory ← addMem ⟨"__memory_base", 0, .external, []⟩
  let f ← addFn { name := "main", kind := .normal, inputs := [.s32, addr], outputs := [.s32] }
  let count := named "argc" .s32
  let values := named "argv" addr
  let base := named "mem_base" addr
  let reserve ← if pages = 0 then pure [] else do
    pure [.ins .pusharg [.lit (.ofInt .s32 pages)], .ins .bsr [.fn (← fnNamed "__memory_grow")],
      .ins .poparg [named "dummy" .s32]]
  let copy := match initData with
    | some g => [.ins .pusharg [base], .ins .bsr [.fn g]]
    | none => []
  let dummy := if pages = 0 then [] else [("dummy", Kind.s32)]
  define f <| helper addr ([("argc", .s32), ("argv", addr)] ++ dummy ++ [("mem_base", addr)]) <|
    [label "start", .ins .poparg [count], .ins .poparg [values],
      .ins .stMem [.mem (some argc), zeroOff, count],
      .ins .stMem [.mem (some argv), zeroOff, values],
      .ins .bsr [.fn (← fnNamed "__wasi_init")]] ++ reserve ++
    [.ins .ldMem [base, .mem (some memory), zeroOff], .ins .bsr [.fn initGlobals]] ++ copy ++
    [.ins .pusharg [base], .ins .bsr [.fn main], .ins .pusharg [.lit (.ofInt .s32 0)], .ins .ret []]

/-! ## Programs -/

def initialPages : Res Nat :=
  match m.memories with
  | none => .ok 0
  | some [limits] => .ok limits.least
  | some _ => broken "several memories"

def addModule (addr : Kind) : Drafting Unit := do
  let imports ← orFault .missingPart m.imports
  ensure (imports.all fun i => i.desc matches .fn _) "no function"
  let argv ← addMem ⟨"global_argv", 2 * addr.bytes, .rw, [.bytes addr.bytes [0]]⟩
  let argc ← addMem ⟨"global_argc", 4, .rw, [.bytes 4 [0]]⟩
  let copy ← addFn { name := "$memcpy", kind := .normal, inputs := [addr, addr, .u32] }
  define copy (copyBytes addr)
  let initGlobals ← addGlobals m addr
  let initData ← addDataSec m addr copy
  discard (addFn { name := "__wasi_init", kind := .external })
  discard (addFn { name := "__memory_grow", kind := .external, inputs := [.s32], outputs := [.s32] })
  functions.forM (declareFunction addr)
  let main ← functions.foldlM (addFunction m functions (← addTable m functions addr) addr) none
  let pages ← initialPages m
  addStartup addr argc argv (← need "no main function" main) initGlobals initData pages

def Module.translate (addr : Kind) : Texts := do
  let ((), d) ← addModule m (← m.fnTable) addr {}
  if d.incomplete then throw (.rejected "missing operand")
  IR.listing d.prog

end Retarget.Wasm
