import Retarget.IR.Lower
import Retarget.IR.Liveness

/-!
# Optimisation

For each operand that reads a register, the analysis of reaching definitions finds the instruction
that wrote it, or the block at whose start several definitions meet. A register that is read before
it is written counts as defined at the start of the function.
-/

namespace Retarget.IR

structure Reach where
  own : DefMap
  entry : DefMap := #[]
  exit : DefMap := #[]
  deriving Inhabited

variable (f : Fn)

/-- The last definitions in a block, and the registers it reads before writing them. -/
def ownDefs : List InsId → DefMap → RegSet → DefMap × RegSet
  | [], own, uses => (own, uses)
  | i :: is, own, uses =>
    let x := f.ins i
    let uses := x.read.foldl (fun s r => if (own.find r).isSome then s else s.insert r) uses
    ownDefs is (x.written.foldl (fun m r => m.insert r (.ins i)) own) uses

def overlay (lower upper : DefMap) : DefMap := lower.mapIdx fun r d => (upper.find r).or d

/-- Merge the definitions of a predecessor into those at the start of `b`: a register without
definition takes the new one, and two different ones meet at `b`. Also tells whether anything
changed. -/
def mergeDefs (b : BlkId) (entry incoming : DefMap) : DefMap × Bool :=
  let differs := (List.range incoming.size).any fun r =>
    match incoming.find r with
    | none => false
    | some d => entry.find r != some d
  let merged := entry.mapIdx fun r d =>
    match incoming.find r, d with
    | none, d => d
    | some e, none => some e
    | some e, some d => if e = d then some d else some (.blk b)
  (merged, differs)

/-- Pass the definitions at the end of a block on to its successors; those for which they are news
go on top of the stack. -/
def passOn (exit : DefMap) : List BlkId → Array Reach → List BlkId → Array Reach × List BlkId
  | [], rs, stack => (rs, stack)
  | s :: ss, rs, stack =>
    let r := rs.getD s default
    let (entry, differs) := mergeDefs s r.entry exit
    passOn exit ss (rs.setIfInBounds s { r with entry }) (if differs then s :: stack else stack)

def reachLoop : Nat → List BlkId → Array Reach → Array Reach
  | 0, _, rs => rs
  | _, [], rs => rs
  | fuel + 1, b :: stack, rs =>
    let r := rs.getD b default
    let exit := overlay r.entry r.own
    if exit = r.exit then reachLoop fuel stack rs
    else
      let (rs, stack) := passOn exit (f.blk b).succs (rs.setIfInBounds b { r with exit }) stack
      reachLoop fuel stack rs

/-- A bound on the number of steps: the definition of a register at the end of a block changes at
most twice after it appears. -/
def reachBound : Nat :=
  f.blks.size + 1 + (2 * f.regs.size + 2) * f.blks.foldl (fun n b => n + b.succs.length) 0

/-- The definitions at the start of every block, when nothing can change any more. -/
def solveReaching (first : BlkId) : Array Reach :=
  let none_ : DefMap := Array.replicate f.regs.size none
  let own := f.blks.mapIdx fun b x =>
    if f.order.contains b then ownDefs f x.code none_ ∅ else (none_, ∅)
  let uses := own.foldl (fun (s : RegSet) (_, u) => s.union u) ∅
  let start : DefMap := Array.ofFn fun r : Fin f.regs.size =>
    if uses.contains r then some (.blk first) else none
  let rs := own.mapIdx fun b (d, _) => ⟨d, if b = first then start else none_, none_⟩
  reachLoop f (reachBound f) f.order rs

/-- The definition each operand reads, given those that hold before the instruction. -/
def opndDefs (m : DefMap) (i : Ins) : Res (List Def) :=
  (List.range i.args.length).mapM fun n =>
    match i.arg n with
    | .reg r =>
      if n < i.op.defCount then .ok .unknown
      else defined "definition" (m.find r)
    | _ => .ok .unknown

def recordDefs : List InsId → DefMap → Pass PUnit
  | [], _ => pure ⟨⟩
  | i :: is, m => do
    let x := (← get).ins i
    let defs ← Pass.attempt (opndDefs m x)
    modify (·.setIns i { x with defs })
    recordDefs is (x.written.foldl (fun m r => m.insert r (.ins i)) m)

/-- Compute the reaching definitions of a function without unreachable code. -/
def reaching : Pass PUnit := do
  let f ← get
  match f.order with
  | [] => throw .pastEnd
  | first :: rest =>
    for b in f.order do
      for s in (f.blk b).succs do if !f.order.contains s then throw (.unknown (f.blk s).name)
    let rs := solveReaching f first
    for b in f.order do
      Pass.require (!(rest.contains b && (f.blk b).preds.isEmpty)) "unreachable block"
      let entry := (rs.getD b default).entry
      modify (·.modBlk b fun x => { x with defsIn := entry })
      recordDefs (f.blk b).code entry

def checkReaching : Res PUnit :=
  f.order.forM fun b => (f.blk b).code.forM fun i =>
    let x := f.ins i
    (List.range x.args.length).forM fun n =>
      match x.argDef n with
      | .ins _ | .blk _ =>
        ensure (n ≥ x.op.defCount && (x.arg n).isReg) "needless definition"
      | .unknown => .ok ⟨⟩
      | .absent => ensure false "no definition"

/-!
## Propagation along reaching definitions

A read of a register that was moved from a literal becomes the literal itself, not a copy: the two
operands share it from then on. A read of a register that was moved from another one reads that, if
it still holds its value. Instructions on literals are evaluated, and addresses combined with accesses.
-/

open Pass
variable (f : Fn)

def definingIns? (x : Ins) (n : Nat) : Option Ins :=
  match x.argDef n with
  | .ins i => some (f.ins i)
  | _ => none

def movedLit? (x : Ins) (n : Nat) : Option LitId :=
  match definingIns? f x n with
  | some d => if d.op = .mov then (d.arg 1).lit? else none
  | none => none

/-- Replace operands by the literals they were moved from; also says whether there were any. -/
def withLits (x : Ins) : Ins × Bool :=
  (List.range x.defs.length).foldl (fun (y, changed) n =>
      match movedLit? f x n with
      | some c => ((y.setArg n (.lit c)).setDef n .unknown, true)
      | none => (y, changed))
    (x, false)

def propagateLits : Pass Nat :=
  rewrite fun i => do
    let f ← get
    let (x, changed) := withLits f (f.ins i)
    if changed then
      set (f.setIns i x)
      return some [i]
    else return none

def litPair? (x : Ins) (m n : Nat) : Option (Lit × Lit) := do
  return (← f.litOf? (x.arg m), ← f.litOf? (x.arg n))

def becomeMove (i : InsId) (dst : Opnd) (c : Lit) : Visit := do
  resetIns i .mov [dst, (← newLiteral c)]
  return some [i]

/-- Decide a conditional branch on literals: drop the edge that is not taken, and the branch. -/
def foldBranch (b : BlkId) (x : Ins) : Visit := do
  let f ← get
  match litPair? f x 0 1 with
  | none => return none
  | some (c, d) =>
    let taken ← attempt (evalBranch x.op c d)
    match (f.blk b).succs, x.arg 2 with
    | [s0, s1], .blk tgt =>
      let dead := if taken then (if s0 = tgt then s1 else s0) else tgt
      set (← attempt (f.removeEdge b dead))
      return some []
    | _, _ => broken "two successors"

/-- Evaluate an instruction whose operands are literals. With `conv`, conversions are evaluated
too. -/
def foldIns (conv : Bool) (b : BlkId) (i : InsId) : Visit := do
  let f ← get
  let x := f.ins i
  match x.op.fam with
  | .condBra => foldBranch b x
  | .cmp =>
    match litPair? f x 3 4 with
    | none => return none
    | some (c, d) =>
      let yes ← attempt (evalBranch (if x.op = .cmpeq then .beq else .blt) c d)
      resetIns i .mov [x.arg 0, if yes then x.arg 1 else x.arg 2]
      return none
  | .alu1 =>
    match f.litOf? (x.arg 1) with
    | none => return none
    | some c => becomeMove i (x.arg 0) (← attempt (evalAlu1 x.op c))
  | .alu =>
    match litPair? f x 1 2 with
    | none => return none
    | some (c, d) => becomeMove i (x.arg 0) (← attempt (evalAlu x.op c d))
  | .conv =>
    match f.litOf? (x.arg 1) with
    | none => return none
    | some c =>
      let k := f.kindOf (x.arg 0)
      if x.op = .conv && conv && c.kind.isAddrInt && k.isAddrInt then
        becomeMove i (x.arg 0) (← attempt (convertInt k c))
      else return none
  | _ => return none

def foldConstants (conv : Bool) : Pass Nat := overBlks fun b => rewriteBlk (foldIns conv b) b

variable (m : DefMap)

def stillHolds (x : Opnd) (d : Def) : Res Bool :=
  match x with
  | .lit _ | .mem _ | .area _ => .ok true
  | .reg r =>
    if d = .unknown then .ok false
    else do return (← defined "definition" (m.find r)) == d
  | _ => broken "unexpected operand"

def combinedOff (x base : Ins) : Res (Option (Opnd × Def × Option Lit)) :=
  let pos := if x.op = .st then 1 else 2
  let o1 := x.arg pos
  if base.op = .mov then .ok (some (o1, x.argDef pos, none))
  else
    let o2 := base.arg 2
    match f.litOf? o1, f.litOf? o2 with
    | some c, some d =>
      if c.isZero then .ok (some (o2, base.argDef 2, none))
      else if d.isZero then .ok (some (o1, x.argDef pos, none))
      else do return some (o1, .absent, some (← addOffs c d))
    | some c, none => .ok (if c.isZero then some (o2, base.argDef 2, none) else none)
    | none, some d => .ok (if d.isZero then some (o1, x.argDef pos, none) else none)
    | none, none => .ok none

def directAccess (base access : Op) : Option Op :=
  match base, access with
  | .leaMem, .ld => some .ldMem
  | .leaStk, .ld => some .ldStk
  | .lea, .ld | .mov, .ld => some .ld
  | .leaMem, .st => some .stMem
  | .leaStk, .st => some .stStk
  | .lea, .st | .mov, .st => some .st
  | .leaMem, .lea => some .leaMem
  | .leaStk, .lea => some .leaStk
  | .lea, .lea | .mov, .lea => some .lea
  | _, _ => none

/-- Combine an access with the computation of its base, if the parts are still available. -/
def simplifyAccess (i : InsId) : Pass Nat := do
  let f ← get
  let x := f.ins i
  let basePos := if x.op = .st then 0 else 1
  match definingIns? f x basePos with
  | none => return 0
  | some base =>
    match directAccess base.op x.op with
    | none => return 0
    | some op =>
      if !(← attempt (stillHolds m (base.arg 1) (base.argDef 1))) then return 0
      match ← attempt (combinedOff f x base) with
      | none => return 0
      | some (o, d, sum) =>
        let o ← match sum with
          | some c => newLiteral c
          | none => pure o
        if !(← attempt (stillHolds m o d)) then return 0
        let y :=
          if basePos = 0 then ⟨op, [base.arg 1, o, x.arg 2], [base.argDef 1, d, x.argDef 2]⟩
          else ⟨op, [x.arg 0, base.arg 1, o], [x.argDef 0, base.argDef 1, d]⟩
        modify (·.setIns i y)
        return 1

def defsAfter (i : InsId) (x : Ins) : DefMap := x.written.foldl (fun m r => m.insert r (.ins i)) m

def simplifyAccesses : List InsId → DefMap → Pass Nat
  | [], _ => pure 0
  | i :: is, m => do
    let op := ((← get).ins i).op
    let n ← if op = .st || op = .ld || op = .lea then simplifyAccess m i else pure 0
    let m := defsAfter m i ((← get).ins i)
    return n + (← simplifyAccesses is m)

def simplifyLoadStore : Pass Nat :=
  overBlks fun b => do
    let x := (← get).blk b
    simplifyAccesses x.code x.defsIn

/-- Let one operand read the register it was moved from. Returns whether it does now. -/
def readThrough (i : InsId) (n : Nat) : Pass Bool := do
  let f ← get
  match definingIns? f (f.ins i) n with
  | none => return false
  | some mov =>
    match mov.op, mov.arg 1 with
    | .mov, .reg src =>
      if (f.reg src).home != .free then return false
      if (← attempt (defined "definition" (m.find src))) != mov.argDef 1 then
        return false
      modify (·.modifyIns i fun x => (x.setArg n (.reg src)).setDef n (mov.argDef 1))
      return true
    | _, _ => return false

def readAllThrough (m : DefMap) (i : InsId) : List Nat → Pass Nat
  | [] => pure 0
  | n :: ns => do
    let here ← readThrough m i n
    return (if here then 1 else 0) + (← readAllThrough m i ns)

def propagateRegsIn : List InsId → DefMap → Pass Nat
  | [], _ => pure 0
  | i :: is, m => do
    let count ← readAllThrough m i (List.range ((← get).ins i).defs.length)
    let m := defsAfter m i ((← get).ins i)
    return count + (← propagateRegsIn is m)

/-- Let operands read the registers they were moved from; returns how many do. -/
def propagateRegs : Pass Nat :=
  overBlks fun b => do
    let x := (← get).blk b
    propagateRegsIn x.code x.defsIn

/-! ## Register statistics -/

def Reg.noteWrite (r : Reg) (i : InsId) (b : BlkId) : Reg :=
  match r.firstDef with
  | .site _ b' => { r with multiDef := true, isGlobal := r.isGlobal || b != b' }
  | _ => { r with firstDef := .site i b }

def Reg.noteRead (r : Reg) (b : BlkId) : Reg :=
  let elsewhere := match r.firstDef with
    | .site _ b' => b != b'
    | _ => true
  { r with isRead := true, multiRead := r.multiRead || r.isRead, isGlobal := r.isGlobal || elsewhere }

/-- Find the first definition of each register, and whether it is written or read several times or
in several blocks. -/
def computeUsage : Pass PUnit := do
  modify fun f => { f with
    regs := f.regs.map fun r =>
      if r.dropped then r
      else { r with
        firstDef := .none, multiDef := false, isGlobal := false, isRead := false,
        multiRead := false } }
  (← get).order.forM fun b => do
    ((← get).blk b).code.forM fun i => do
      let x := (← get).ins i
      x.written.forM fun r => modify (·.modifyReg r (·.noteWrite i b))
      x.read.forM fun r => modify (·.modifyReg r (·.noteRead b))

variable (f : Fn)

def callCrossing (live : RegSet) : List InsId → RegSet × RegSet
  | [] => (live, ∅)
  | i :: is =>
    let (live, crossing) := callCrossing live is
    let x := f.ins i
    let crossing := if x.op.isCall then crossing.union live else crossing
    (x.read.foldl RegSet.insert (x.written.foldl RegSet.erase live), crossing)

def computeCrossing : Pass PUnit := do
  modify fun f =>
    let sets := f.order.map fun b => callCrossing f (f.blk b).liveOut (f.blk b).code
    let entry := sets.foldl (fun (s : RegSet) (e, _) => s.union e) ∅
    let calls := sets.foldl (fun (s : RegSet) (_, c) => s.union c) ∅
    { f with
      regs := f.regs.mapIdx fun n r =>
        if r.dropped then r
        else { r with isGlobal := entry.contains n, lac := calls.contains n } }

/-- Drop registers that are neither written nor read; returns how many. -/
def dropUnused : Pass Nat := do
  let f ← get
  let unused r := !r.dropped && r.firstDef == .none && !r.isRead
  set { f with regs := f.regs.map fun r => if unused r then { r with dropped := true } else r }
  return (f.regs.filter unused).size

/-- Rename reads of a register up to and including the next instruction that writes it. -/
def renameUntilWritten (old new : RegId) : List InsId → Pass PUnit
  | [] => pure ⟨⟩
  | i :: is => do
    let x := (← get).ins i
    let n := x.op.defCount
    let args := x.args.take n ++ (x.args.drop n).map fun a => if a = .reg old then .reg new else a
    modify (·.setIns i { x with args })
    if x.written.contains old then pure ⟨⟩ else renameUntilWritten old new is

def purposeOf (name : String) : String :=
  if name.startsWith "$" then
    match name.toList.dropWhile (· != '_') with
    | [] => name
    | _ :: r => String.ofList r
  else name

/-- Should a definition of a local register get a register of its own? -/
def separable (i : InsId) (r : RegId) : Bool :=
  let x := f.ins i
  let g := f.reg r
  let isFirst := match g.firstDef with
    | .site j _ => i == j
    | _ => false
  let overwrites := g.twoAddr && x.args.length ≥ 2 && f.sameOpnd (x.arg 0) (x.arg 1)
  !(isFirst || g.isGlobal || overwrites || g.home != .free)

/-- Give each further definition of a local register a register of its own. -/
def separateIn : List InsId → Pass Nat
  | [] => pure 0
  | i :: is => do
    let f ← get
    let here ← match (f.ins i).op.defCount, (f.ins i).arg 0 with
      | 1, .reg r =>
        if separable f i r then
          let g := f.reg r
          let new ← Pass.tempReg g.kind (purposeOf g.name) false
          if g.twoAddr then modify (·.modifyReg new fun x => { x with twoAddr := true })
          modify (·.modifyIns i (·.setArg 0 (.reg new)))
          renameUntilWritten r new is
          pure 1
        else pure 0
      | _, _ => pure 0
    return here + (← separateIn is)

def separateLocals : Pass Nat := Pass.overBlks fun b => do separateIn ((← get).blk b).code

structure RegCounts where
  globalLac : Nat
  globalNotLac : Nat
  localLac : Nat
  localNotLac : Nat

def countRegs : RegCounts :=
  let count test := (f.regs.filter fun r => !r.dropped && test r).size
  ⟨count fun r => r.isGlobal && r.lac, count fun r => r.isGlobal && !r.lac,
    count fun r => !r.isGlobal && r.lac, count fun r => !r.isGlobal && !r.lac⟩

def RegCounts.render (c : RegCounts) : String :=
  let pad (n : Nat) := padLeft 2 (decimal n)
  s!"{pad c.globalLac}/{pad c.globalNotLac}  {pad c.localLac}/{pad c.localNotLac}"

abbrev KindMap := Kind → Option Kind

/-- Words up to 32 bits share registers, and so do those of 64 bits. -/
def typicalKinds : KindMap
  | .s8 | .s16 | .s32 | .u8 | .u16 | .u32 | .a32 | .c32 => some .s32
  | .s64 | .u64 | .a64 | .c64 => some .s64
  | .f32 => some .f32
  | .f64 => some .f64
  | _ => none

/-- A pool that makes up registers as they are needed, and keeps those given back by class. The
class of a register is the number of its kind and whether it survives calls. -/
structure GrowingPool where
  made : Nat := 0
  free : List ((Nat × Bool) × List CpuReg) := []

def GrowingPool.update (key : Nat × Bool) (g : List CpuReg → List CpuReg) :
    List ((Nat × Bool) × List CpuReg) → List ((Nat × Bool) × List CpuReg)
  | [] => [(key, g [])]
  | (k, cs) :: r => if k = key then (k, g cs) :: r else (k, cs) :: update key g r

variable (kinds : KindMap)

def GrowingPool.pool : Pool GrowingPool where
  take r p := do
    let k ← defined r.kind.name (kinds r.kind)
    let key := (k.code, r.lac)
    match p.free.lookup key with
    | some (c :: cs) => return (.cpu c, { p with free := update key (fun _ => cs) p.free })
    | _ =>
      let n := p.made + 1
      return (.cpu ⟨s!"z{n}", if r.lac then 1 else 0, k.code⟩, { p with made := n })
  give a p :=
    match a with
    | .cpu c => .ok { p with free := update (c.fam, c.no != 0) (c :: ·) p.free }
    | _ => .ok { p with free := update (1000, true) (⟨a.label, 0, 1000⟩ :: ·) p.free }
  fam k := k.code

def skipRange (r : LiveRange) : Bool :=
  r.last == afterBlk || r.first == beforeBlk ||
    r.reg.any fun g => (kinds g.kind).isNone || g.cpu.isSome

/-- For each class of registers, the most that any block of the function needs at a time. -/
def localNeeds (p : Prog) (f : Fn) (kinds : KindMap) : Res (List ((Nat × Bool) × Nat)) := do
  let pool ← f.order.foldlM (fun q b => do
    let ranges ← liveRanges p f (f.blk b)
    let ranges := ranges.map fun r => { r with ignored := skipRange kinds r }
    return (← assign (GrowingPool.pool kinds) q ranges).2) {}
  let needs := pool.free.map fun (k, cs) => (k, cs.length)
  ensure ((needs.map Prod.snd).foldl (· + ·) 0 == pool.made) "register kept"
  return needs

/-- For each class the registers that cross blocks and have no home, sorted by name. -/
def globalRegs : Res (List ((Kind × Bool) × List RegId)) := do
  let regs := f.regIds.filter fun r => !(f.reg r).hasCpuReg && (f.reg r).isGlobal
  let keyed ← regs.mapM fun r => do
    let g := f.reg r
    return ((← defined g.kind.name (kinds g.kind), g.lac), r)
  let keys := (keyed.map Prod.fst).eraseDups
  return keys.map fun k =>
    (k, ((keyed.filter (·.1 == k)).map Prod.snd).mergeSort fun a b =>
      !((f.reg b).name < (f.reg a).name))

/-- For each class the names of the registers that cross blocks and have no home. -/
def globalNeeds : Res (List ((Kind × Bool) × List String)) := do
  return (← globalRegs f kinds).map fun (k, rs) => (k, rs.map fun r => (f.reg r).name)

/-! ## Passes -/

structure OptStats where
  mergeMove : Int := 0
  canonicalized : Int := 0
  strengthRed : Int := 0
  emptyBlks : Int := 0
  unreachableBlks : Int := 0
  regProp : Int := 0
  constProp : Int := 0
  constFold : Int := 0
  loadStore : Int := 0
  moveElim : Int := 0
  useless : Int := 0
  droppedRegs : Int := 0
  separatedRegs : Int := 0

def OptStats.toList (s : OptStats) : List (String × Int) :=
  [("merge_move", s.mergeMove), ("canonicalized", s.canonicalized),
    ("strength_red", s.strengthRed), ("empty_bbls", s.emptyBlks),
    ("unreachable_bbls", s.unreachableBlks), ("reg_prop", s.regProp),
    ("const_prop", s.constProp), ("const_fold", s.constFold), ("ls_st_simplify", s.loadStore),
    ("move_elim", s.moveElim), ("useless", s.useless), ("dropped_regs", s.droppedRegs),
    ("separated_regs", s.separatedRegs)]

variable (p : Prog)

/-- Split blocks, compute edges, leave out branches and empty blocks, and check the result. -/
def initFlow : Pass PUnit := do
  splitBlks
  initEdges
  dropBranches
  discard removeEmptyBlks
  Pass.attempt (checkFn p (← get) { args := true })

def exitFlow : Pass PUnit := do
  addBranches
  Pass.attempt (checkFn p (← get) { linear := true })

def optimizeOnce (conv : Bool) (s : OptStats) : Pass OptStats := do
  let merged ← mergeMoves
  let canon1 ← canonicalize
  let strength1 ← reduceStrength
  let empty ← removeEmptyBlks
  let unreachable ← removeUnreachableBlks
  reaching
  Pass.attempt (checkReaching (← get))
  let regProp ← propagateRegs
  let constProp ← propagateLits
  let folded ← foldConstants conv
  let canon2 ← canonicalize
  let strength2 ← reduceStrength
  let loadStore ← simplifyLoadStore
  let moves ← eliminateMoves
  liveness p
  let useless ← removeUseless p
  computeUsage
  computeCrossing
  let dropped ← dropUnused
  let separated ← separateLocals
  return {
    mergeMove := s.mergeMove + merged
    canonicalized := s.canonicalized + canon1 + canon2
    strengthRed := s.strengthRed + strength1 + strength2
    emptyBlks := empty
    unreachableBlks := unreachable
    regProp
    constProp := s.constProp + constProp
    constFold := s.constFold + folded
    loadStore := s.loadStore + loadStore
    moveElim := s.moveElim + moves
    useless
    droppedRegs := s.droppedRegs + dropped
    separatedRegs := s.separatedRegs + separated }

def optimize (s : OptStats) : Pass OptStats := do
  let s ← optimizeOnce p true s
  discard (widen .u8 .u32)
  discard (widen .s8 .s32)
  discard (widen .u16 .u32)
  discard (widen .s16 .s32)
  optimizeOnce p false s

namespace Prog

def normalFns : List FnId := p.fnOrder.filter fun f => (p.fn f).kind == .normal

def onNormalFns (pass : Prog → Pass PUnit) : Res Prog :=
  p.normalFns.foldlM (fun p f => do return (← p.onFn f (pass p)).2) p

inductive OptLevel where
  | basic
  | full
  deriving DecidableEq

def statsLine (f : FnId) (level : OptLevel) : Res (String × Prog) := do
  let head x := s!"# {Text.padRight 30 x.name} RegStats: {(countRegs x).render}"
  match level with
  | .basic =>
    let (_, p) ← p.onFn f do
      computeUsage
      liveness p
      computeCrossing
    return (head (p.fn f), p)
  | .full =>
    let needs ← localNeeds p (p.fn f) typicalKinds
    let total lac := ((needs.filter fun n => n.1.2 == lac).map Prod.snd).foldl (· + ·) 0
    let (_, p) ← p.onFn f do
      computeUsage
      computeCrossing
    let pad (n : Nat) := padLeft 2 (decimal n)
    return (s!"{head (p.fn f)}  {pad (total true)}/{pad (total false)}", p)

def optimizeAll (level : OptLevel) : Res (Prog × OptStats × List String) := do
  let main ← defined "main" (p.findFn? "main")
  let p := p.keepReachable [main]
  p.normalFns.foldlM (fun (p, s, out) f => do
    let (s, p) ← p.onFn f (if level = .full then optimize p s else optimizeOnce p true s)
    let (line, p) ← p.statsLine f level
    return (p, s, out ++ [line])) (p, {}, [])

def initFlowAll : Res Prog := p.onNormalFns initFlow
def exitFlowAll : Res Prog := p.onNormalFns exitFlow

def optimizerOutput (mode : String) : Texts := do
  let optimized level stats := do
    let (p, s, report) ← (← p.initFlowAll).optimizeAll level
    let text ← listing (← p.exitFlowAll)
    let tail := if stats then
        "# STATS:" :: s.toList.map fun (k, n) => s!"#  {k}: {n}"
      else []
    return report ++ text ++ tail
  match mode with
  | "optimize" => optimized .full false
  | "optlite" => optimized .basic false
  | "optimize_stats" => optimized .full true
  | "serialize" => listing p
  | "cfg" => listing (← p.initFlowAll)
  | "cfg2" => listing (← (← p.initFlowAll).exitFlowAll)
  | _ => broken "unknown mode"

end Prog
end Retarget.IR
