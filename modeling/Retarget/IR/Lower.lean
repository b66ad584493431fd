import Retarget.IR.Flow

/-!
# Lowering

Operations that a processor lacks are replaced by simpler ones. In canonical form a literal is the
last operand of a commutative operation. Strength reduction uses moves and shifts; shift amounts are
reduced modulo the width in place.
-/

namespace Retarget.IR
open Pass

def canonicalize : Pass Nat :=
  rewrite fun i => do
    let x := (← get).ins i
    let swapped m n : Visit := do
      if (x.arg m).isLit && !(x.arg n).isLit then
        modify (·.setIns i (x.swap m n))
        return some [i]
      return none
    if !x.op.has .commutative then return none
    match x.op.fam with
    | .alu => swapped 1 2
    | .cmp => swapped 3 4
    | .condBra => swapped 0 1
    | _ => broken "commutative operation"

variable (f : Fn)
variable (x : Ins)

def keepsFirst : Bool :=
  match x.args with
  | _ :: _ :: c :: _ =>
    match f.litOf? c with
    | some v =>
      match x.op with
      | .add | .sub | .shl | .shr | .or | .xor | .lea => v.isZero
      | .mul | .div => v.isOne
      | _ => false
    | none => false
  | _ => false

def keepsSecond : Bool :=
  match x.args with
  | _ :: c :: _ =>
    match f.litOf? c with
    | some v =>
      match x.op with
      | .add | .or | .xor => v.isZero
      | .mul => v.isOne
      | _ => false
    | none => false
  | _ => false

def isZeroRes : Bool :=
  let zero n := (f.litOf? (x.arg n)).any Lit.isZero
  match x.op with
  | .xor | .sub => f.sameOpnd (x.arg 1) (x.arg 2)
  | .shl | .shr => zero 1
  | .mul => zero 1 || zero 2
  | _ => false

def powerOfTwo? (n : Nat) : Option Lit :=
  if x.op = .mul && (f.kindOf (x.arg 0)).isInt then (f.litOf? (x.arg n)).filter Lit.isPowerOfTwo
  else none

/-- Reduce a literal shift amount modulo the width, wherever the literal is used. -/
def reduceAmount : Fn :=
  if x.op = .shl || x.op = .shr then
    match x.arg 2 with
    | .lit c => f.modifyLit c fun v =>
      match v.value with
      | .int n => { v with value := .int (andInt n ((f.kindOf (x.arg 0)).bits - 1 : Nat)) }
      | .real _ => v
    | _ => f
  else f

def reduceIns (i : InsId) : Visit := do
  modify fun f => reduceAmount f (f.ins i)
  let f ← get
  let x := f.ins i
  let become op args : Visit := do
    resetIns i op args
    return some [i]
  if keepsFirst f x then become .mov (x.args.eraseIdx 2)
  else if keepsSecond f x then become .mov (x.args.eraseIdx 1)
  else if isZeroRes f x then become .mov [x.arg 0, ← newLit (f.kindOf (x.arg 0)) 0]
  else
    match powerOfTwo? f x 2, powerOfTwo? f x 1 with
    | some c, _ =>
      let n ← attempt c.log2
      become .shl [x.arg 0, x.arg 1, ← newLit (f.kindOf (x.arg 0)) n]
    | none, some c =>
      let n ← attempt c.log2
      become .shl [x.arg 0, x.arg 2, ← newLit (f.kindOf (x.arg 0)) n]
    | none, none => return none

def reduceStrength : Pass Nat := rewrite reduceIns

/-!
## Moves

Moves of a register to itself go away. A move can also be merged with the definition of its source,
which then writes the destination of the move; the move, turned around, follows it.
-/

def eliminateMoves : Pass Nat :=
  Pass.rewrite fun i => do
    let f ← get
    let x := f.ins i
    if (x.op = .mov || x.op = .conv) && f.sameOpnd (x.arg 0) (x.arg 1) then return some []
    return none

/-- Registers and where they stand, the latest first. -/
abbrev Positions := List (RegId × Nat)

/-- Code built so far, and where each register was last written and read. -/
structure Merging where
  code : List InsId := []
  lastDef : Positions := []
  lastUse : Positions := []
  count : Nat := 0

namespace Merging

/-- Where the registers that `φ` gives stand in code that begins at a position. -/
def positions (φ : Ins → List RegId) (pos : Nat) (is : List InsId) : Positions :=
  (is.zipIdx pos).reverse.flatMap fun (i, p) => (φ (f.ins i)).map (·, p)

def note (m : Merging) (pos : Nat) (is : List InsId) : Merging :=
  { m with
    lastDef := positions f Ins.written pos is ++ m.lastDef
    lastUse := positions f Ins.read pos is ++ m.lastUse }

/-- The position of the definition that a move can be merged with: the source is written there, the
destination is neither written nor read since, and no parameter follows it. -/
def mergePoint (m : Merging) (x : Ins) : Option (RegId × RegId × Nat) :=
  match x.op, x.args with
  | .mov, [.reg dst, .reg src] =>
    if dst = src then none
    else
      match m.lastDef.lookup src with
      | none => none
      | some pos =>
        let later (t : Positions) : Bool := (t.lookup dst).any (· > pos)
        let beforeParameter := m.code[pos + 1]?.any fun j => (f.ins j).op == .poparg
        if beforeParameter || later m.lastDef || later m.lastUse then none
        else some (dst, src, pos)
  | _, _ => none

end Merging

/-- Take over the next instruction, merging it if it is a suitable move. -/
def mergeStep (m : Merging) (i : InsId) : Pass Merging := do
  let f ← get
  match m.mergePoint f (f.ins i) with
  | none => return { m.note f m.code.length [i] with code := m.code ++ [i] }
  | some (dst, src, pos) =>
    let d := m.code.getD pos 0
    Pass.require ((f.ins d).arg 0 == .reg src) "other definition"
    modify (·.modifyIns d (·.setArg 0 (.reg dst)))
    modify (·.modifyIns i (·.swap 0 1))
    let rest := i :: m.code.drop (pos + 1)
    let m := { m with
      code := m.code.take (pos + 1) ++ rest
      lastDef := (dst, pos) :: m.lastDef
      count := m.count + 1 }
    return m.note (← get) (pos + 1) rest

def mergeMovesIn (b : BlkId) : Pass Nat := do
  let m ← ((← get).blk b).code.foldlM mergeStep {}
  modify (·.setCode b m.code)
  return m.count

def mergeMoves : Pass Nat := Pass.overBlks mergeMovesIn

/-- A move whose source is written once, read once and not live across a call could be merged into
the definition of its source from behind. This is never done: a function that holds a candidate is
refused. -/
def mergeMovesBackward : Pass Nat := do
  let f ← get
  f.order.forM fun b => (f.blk b).code.forM fun i =>
    match (f.ins i).op, (f.ins i).args with
    | .mov, [_, .reg src] =>
      let r := f.reg src
      Pass.require (r.multiDef || r.multiRead || r.lac) "backward merge"
    | _, _ => pure ⟨⟩
  return 0

/-!
## Widening

A processor without operations on narrow words keeps narrow values in the low bits of wide registers.
Where high bits would be seen, code to clear or extend them is inserted.
-/

/-- Narrow an operand in place: a literal loses its high bits, a register is converted forth and
back by the returned instructions. -/
def narrowOpnd (narrow : Kind) (x : Opnd) : Pass (List InsId) := do
  match x with
  | .lit c =>
    match ((← get).lit c).value with
    | .real _ => throw .wrongSort
    | .int n =>
      let v := if narrow.flavor = .signed then signedOf n narrow.bits else lowBits n narrow.bits
      modify (·.modifyLit c fun l => { l with value := .int v })
      return []
  | .reg _ =>
    let t ← tempReg narrow "narrowed" true
    return [← newIns .conv [.reg t, x], ← newIns .conv [x, .reg t]]
  | _ => broken "no value"

/-- Replace narrow literals among the operands by wide ones. A stored literal stays narrow. Returns
whether the instruction has to do with narrow values at all. -/
def widenOpnds (narrow wide : Kind) (isNarrow : RegId → Bool) (i : InsId) : List Nat → Pass Bool
  | [] => pure false
  | n :: ns => do
    let f ← get
    let x := f.ins i
    let here ← match x.arg n with
      | .lit c =>
        if (f.lit c).kind = narrow && !(x.op.fam = .st && n = 2) then
          let w ← newLiteral ⟨wide, (f.lit c).value⟩
          modify (·.modifyIns i (·.setArg n w))
          pure true
        else pure false
      | .reg r => pure (isNarrow r)
      | _ => pure false
    return here || (← widenOpnds narrow wide isNarrow i ns)

def widenIns (narrow wide : Kind) (isNarrow : RegId → Bool) (i : InsId) : Pass (List InsId) := do
  let n := ((← get).ins i).args.length
  if !(← widenOpnds narrow wide isNarrow i (List.range n)) then return [i]
  let x := (← get).ins i
  let narrowReg a := a.reg?.any isNarrow
  let setArg n a := modify (·.modifyIns i (·.setArg n a))
  match x.op with
  | .shl | .shr =>
    let t ← tempReg wide "tricky" false
    let mask ← newIns .and [.reg t, x.arg 2, ← newLit wide (narrow.bits - 1 : Nat)]
    setArg 2 (.reg t)
    let pre ← if x.op = .shr then narrowOpnd narrow (x.arg 1) else pure []
    return mask :: pre ++ [i]
  | .cntlz =>
    let sub ← newIns .sub [x.arg 0, x.arg 0, ← newLit wide (wide.bits - narrow.bits : Nat)]
    return [i, sub]
  | .cnttz =>
    let a ← newLit wide narrow.bits
    let b ← newLit wide narrow.bits
    return [i, ← newIns .cmplt [x.arg 0, x.arg 0, a, x.arg 0, b]]
  | .conv =>
    let t ← tempReg narrow "narrowed" true
    return [← newIns .conv [.reg t, x.arg 1], ← newIns .conv [x.arg 0, .reg t]]
  | .beq | .bne | .ble | .blt =>
    let pre0 ← narrowOpnd narrow (x.arg 0)
    return pre0 ++ (← narrowOpnd narrow (x.arg 1)) ++ [i]
  | .cmpeq | .cmplt =>
    let pre1 ← narrowOpnd narrow (x.arg 1)
    return pre1 ++ (← narrowOpnd narrow (x.arg 2)) ++ [i]
  | _ =>
    if x.op.fam = .ld && narrowReg (x.arg 0) then
      let t ← tempReg narrow "narrowed" true
      let conv ← newIns .conv [x.arg 0, .reg t]
      setArg 0 (.reg t)
      return [i, conv]
    else if x.op.fam = .st && narrowReg (x.arg 2) then
      let t ← tempReg narrow "narrowed" true
      let conv ← newIns .conv [.reg t, x.arg 2]
      setArg 2 (.reg t)
      return [conv, i]
    else return [i]

/-- Turn all registers of one kind into registers of a wider kind of the same flavour; returns the
number of additional instructions. -/
def widen (narrow wide : Kind) : Pass Nat := do
  let f ← get
  require (!f.frameFinal) "frame is final"
  let subst k := if k = narrow then wide else k
  set { f with inputs := f.inputs.map subst, outputs := f.outputs.map subst }
  require (narrow.flavor == wide.flavor) "different flavours"
  require (narrow.bits < wide.bits) "not wider"
  let isNarrow r := (f.reg r).kind == narrow && !(f.reg r).dropped && r < f.regs.size
  modify fun f => { f with
    regs := f.regs.map fun r =>
      if r.kind == narrow && !r.dropped then { r with kind := wide } else r }
  overBlks fun b => do
    let code := ((← get).blk b).code
    let new ← code.mapM (widenIns narrow wide isNarrow)
    modify (·.setCode b new.flatten)
    return new.flatten.length - code.length

/-! ## Lowering -/

open Opnd

/-- Put a literal operand into a register by a move in front of the instruction; returns the
move. -/
def moveImm (i : InsId) (pos : Nat) : Pass InsId := do
  let x := (← get).ins i
  require (x.op != .pusharg) "arguments stay together"
  match x.arg pos with
  | .lit c =>
    let r ← tempReg ((← get).lit c).kind "imm" true
    modify (·.modifyIns i (·.setArg pos (.reg r)))
    newIns .mov [.reg r, .lit c]
  | _ => broken "not a literal"

/-- Load a literal operand from the memory region that holds it; returns the instructions to put in
front. -/
def loadImm (i : InsId) (pos : Nat) (m : MemId) (addr off : Kind) : Pass (List InsId) := do
  let x := (← get).ins i
  require (x.op != .pusharg) "arguments stay together"
  let k := (← get).kindOf (x.arg pos)
  let base ← tempReg addr "mem_const_addr" true
  let lea ← newIns .leaMem [.reg base, .mem m, ← newLit off 0]
  let tmp ← tempReg k "mem_const" true
  let ld ← newIns .ld [.reg tmp, .reg base, ← newLit off 0]
  modify (·.modifyIns i (·.setArg pos (.reg tmp)))
  return [lea, ld]

def requireOpenFrame : Pass PUnit := do require (!(← get).frameFinal) "frame is final"

/-- A remainder is the dividend less the product of quotient and divisor. -/
def expandRem (i : InsId) : Visit := do
  let f ← get
  let x := f.ins i
  match x.op, x.args with
  | .rem, [dst, a, b] =>
    let k := f.kindOf dst
    let q ← tempReg k "elim_rem1" true
    let div ← newIns .div [.reg q, a, b]
    let (q, cut) ← if k.isFloat then do
        let t ← tempReg k "elim_rem3" true
        pure (t, [← newIns .trunc [.reg t, .reg q]])
      else pure (q, [])
    let m ← tempReg k "elim_rem2" true
    let mul ← newIns .mul [.reg m, .reg q, b]
    return some (div :: cut ++ [mul, (← newIns .sub [dst, a, .reg m])])
  | _, _ => return none

def expandRems : Pass Nat := do
  requireOpenFrame
  rewrite expandRem

/-- The sign of the second source on the magnitude of the first, by masking bits. -/
def expandCopysign (i : InsId) : Visit := do
  let f ← get
  let x := f.ins i
  match x.op, x.args with
  | .copysign, [dst, a, b] =>
    let (k, sign) : Kind × Int :=
      if f.kindOf dst = .f32 then (.u32, (span 31 : Int)) else (.u64, span 63)
    let s ← tempReg k "elim_copysign1" false
    let i1 ← newIns .bitcast [.reg s, a]
    let i2 ← newIns .and [.reg s, .reg s, ← newLit k (sign - 1)]
    let t ← tempReg k "elim_copysign2" false
    let i3 ← newIns .bitcast [.reg t, b]
    let i4 ← newIns .and [.reg t, .reg t, ← newLit k sign]
    let i5 ← newIns .or [.reg s, .reg s, .reg t]
    return some [i1, i2, i3, i4, i5, (← newIns .bitcast [dst, .reg s])]
  | _, _ => return none

def expandCopysigns : Pass Nat := do
  requireOpenFrame
  rewrite expandCopysign

/-- A conditional move becomes a branch around a move:
the block is cut at the instruction, and an extra block in between moves the second source. -/
def expandCmp (b : BlkId) (i : InsId) : Pass PUnit := do
  let stem := ((← get).blk b).name
  let skip ← splitBefore b i (← attempt (derivedName (← get) stem "_split"))
  let prev ← splitBefore skip i (← attempt (derivedName (← get) stem "_split"))
  let x := (← get).ins i
  match x.args with
  | [dst, a, b2, c, d] =>
    let r ← tempReg ((← get).kindOf dst) "cmp" false
    let first ← newIns .mov [.reg r, a]
    let br ← newIns (if x.op = .cmpeq then .beq else .blt) [c, d, .blk b]
    let second ← newIns .mov [.reg r, b2]
    let last ← newIns .mov [dst, .reg r]
    modify fun f => f.setCode prev ((f.blk prev).code.dropLast ++ [first, br])
    modify fun f => f.setCode skip ((f.blk skip).code ++ [second])
    modify fun f => f.setCode b (last :: (f.blk b).code)
    modify (·.addEdge prev b)
  | _ => broken "conditional move"

def expandCmps : Pass PUnit := do
  (← get).order.forM fun b => do
    ((← get).blk b).code.forM fun i => do if ((← get).ins i).op.fam = .cmp then expandCmp b i

/-- The set bits of a word: sums over pairs of bits, then over groups. -/
def expandCntpop (i : InsId) : Visit := do
  let f ← get
  let x := f.ins i
  match x.op, x.args with
  | .cntpop, [dst, src] =>
    require ((f.kindOf dst).bits == 32) "bit count"
    let k := Kind.u32
    let m1 := reg (← tempReg k "popcnt_m1" false)
    let m2 := reg (← tempReg k "popcnt_m2" false)
    let y := reg (← tempReg k "popcnt_x" false)
    let t1 := reg (← tempReg k "popcnt_t1" false)
    let t2 := reg (← tempReg k "popcnt_t2" false)
    let group n := do
      return [← newIns .shr [t1, y, ← newLit k n], ← newIns .and [t1, t1, m2],
        ← newIns .add [t2, t2, t1]]
    let fold n := do return [← newIns .shr [t1, t2, ← newLit k n], ← newIns .add [t2, t2, t1]]
    let start ← [
      newIns .conv [y, src],
      do newIns .mov [m1, ← newLit k 0x55555555],
      do newIns .mov [m2, ← newLit k 0x03030303],
      do newIns .shr [t1, y, ← newLit k 1],
      newIns .and [t1, t1, m1],
      newIns .sub [y, y, t1],
      newIns .and [t2, y, m2]].mapM id
    let groups ← [2, 4, 6].mapM group
    let folds ← [8, 16].mapM fold
    let mask ← newIns .and [t2, t2, ← newLit k 0x3f]
    return some (start ++ groups.flatten ++ folds.flatten ++ [mask, (← newIns .conv [dst, t2])])
  | _, _ => return none

/-- Expand the bit counts that open a block; one that stands elsewhere is refused. -/
def expandCntpops : Pass PUnit :=
  discard <| overBlks fun b => do
    let f ← get
    require (!(f.blk b).code.tail.any fun i => (f.ins i).op == .cntpop) "bit count"
    rewriteBlk expandCntpop b

variable (addr off : Kind)

/-- A stack access with a register offset goes through the address of the area. -/
def expandStackAccess (i : InsId) : Visit := do
  let x := (← get).ins i
  let via base op args : Visit := do
    let r ← tempReg addr "base" false
    let lea ← newIns .leaStk [.reg r, base, ← newLit off 0]
    resetIns i op (args (.reg r))
    return some [lea, i]
  match x.op, x.args with
  | .stStk, [base, .reg o, src] => via base .st fun r => [r, .reg o, src]
  | .ldStk, [dst, base, .reg o] => via base .ld fun r => [dst, r, .reg o]
  | .leaStk, [dst, base, .reg o] => via base .lea fun r => [dst, r, .reg o]
  | _, _ => return none

def expandStackAccesses : Pass Nat := do
  requireOpenFrame
  rewrite (expandStackAccess addr off)

/-- An access to a memory region goes through the address of the region; a literal offset is added
to the address. -/
def expandMemAccess (i : InsId) : Visit := do
  let x := (← get).ins i
  let via (base o : Opnd) (op : Op) (args : Opnd → Opnd → List Opnd) : Visit := do
    let zero ← newLit off 0
    let (inner, outer) := if o.isLit then (o, zero) else (zero, o)
    let r ← tempReg addr "base" false
    let lea ← newIns .leaMem [.reg r, base, inner]
    resetIns i op (args (.reg r) outer)
    return some [lea, i]
  match x.op, x.args with
  | .stMem, [base, o, src] => via base o .st fun r o => [r, o, src]
  | .ldMem, [dst, base, o] => via base o .ld fun r o => [dst, r, o]
  | .casMem, [dst, a, b, base, o] => via base o .cas fun r o => [dst, a, b, r, o]
  | .leaMem, [dst, base, .reg o] => via base (.reg o) .lea fun r o => [dst, r, o]
  | _, _ => return none

def expandMemAccesses : Pass Nat := rewrite (expandMemAccess addr off)

/-- Shifts of words of the given width by an amount in a register mask the amount. A literal amount
must be in range. -/
def limitShift (width : Nat) (i : InsId) : Visit := do
  let f ← get
  let x := f.ins i
  match x.args with
  | [dst, src, amount] =>
    if (x.op = .shl || x.op = .shr) && (f.kindOf dst).bits = width then
      match f.litOf? amount with
      | some c =>
        match c.value with
        | .int n => if 0 ≤ n && n < width then return none else throw .wrongSort
        | .real _ => throw .wrongSort
      | none =>
        let k := f.kindOf amount
        let t ← tempReg k "shift" false
        let mask ← newIns .and [.reg t, amount, ← newLit k (width - 1)]
        resetIns i x.op [dst, src, .reg t]
        return some [mask, i]
    else return none
  | _ => return none

def limitShifts (width : Nat) : Pass Nat := rewrite (limitShift width)

/-!
## Passing arguments in processor registers

Pushing and popping of arguments become moves to and from the processor registers that the calling
convention assigns.
-/

structure CallConv where
  params : List Kind → Res (List CpuReg)
  rets : List Kind → Res (List CpuReg)

/-- Turn an instruction that passes a value into a move between the value and the next register of
`left`; other instructions tell, by `next`, which registers come after them. -/
def moveValue (op : Op) (move : Opnd → Opnd → List Opnd)
  (next : Ins → Res (List CpuReg)) (left : List CpuReg) (i : InsId) :
  Pass (List CpuReg × Option (List InsId)) := do
  let f ← get
  let x := f.ins i
  if x.op = op then
    let c :: left := left | throw .pastEnd
    let r ← cpuRegOf c (f.kindOf (x.arg 0))
    return (left, some [← newIns .mov (move (x.arg 0) (.reg r))])
  require left.isEmpty "value not passed"
  return (← next x, none)

def popArgs (p : Prog) (cc : CallConv) : Pass Nat := do
  let f ← get
  let next x := do if x.op.isCall then cc.rets (p.fn (← callee x)).outputs else return []
  let start ← cc.params f.inputs
  return (← rewriteBlksWith (moveValue .poparg ([·, ·]) next) start f.order).2

/-- Arguments are gone through from the end of the code. -/
def pushArgs (p : Prog) (cc : CallConv) : Pass Nat := do
  let f ← get
  let next x := do
    if x.op.isCall then cc.params (p.fn (← callee x)).inputs
    else if x.op = .ret then cc.rets f.outputs else return []
  rewriteBlksBackWith (moveValue .pusharg (fun v r => [r, v]) next) [] f.order.reverse

end Retarget.IR
