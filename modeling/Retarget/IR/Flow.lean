import Retarget.IR.Program

/-!
# Control flow

Blocks end at the first instruction that leaves them, and edges lead to the blocks that may follow.
While a function is worked on, unconditional branches are left out; they come back, where needed,
when it is laid out.
-/

namespace Retarget.IR
open Pass

namespace Fn

def removeOne (b : BlkId) (bs : List BlkId) : Res (List BlkId) :=
  if bs.contains b then .ok (bs.erase b) else .error (.malformed "no such edge")

def addEdge (f : Fn) (a b : BlkId) : Fn :=
  (f.modBlk b fun x => { x with preds := x.preds ++ [a] }).modBlk a fun x =>
    { x with succs := x.succs ++ [b] }

def removeEdge (f : Fn) (a b : BlkId) : Res Fn := do
  let preds ← removeOne a (f.blk b).preds
  let f := f.modBlk b fun x => { x with preds }
  let succs ← removeOne b (f.blk a).succs
  return f.modBlk a fun x => { x with succs }

def moveEdgeEnd (a old new : BlkId) (f : Fn) : Res Fn := do
  let preds ← removeOne a (f.blk old).preds
  let f := f.modBlk old fun x => { x with preds }
  return f.modBlk new fun x => { x with preds := x.preds ++ [a] }

def redirEdges (f : Fn) (a old new : BlkId) : Res Fn := do
  let succs := (f.blk a).succs
  let f ← (succs.filter (· == old)).foldlM (fun f _ => moveEdgeEnd a old new f) f
  return f.modBlk a fun x => { x with succs := succs.map fun s => if s = old then new else s }

end Fn

def callee (i : Ins) : Res FnId :=
  match i.op, i.args with
  | .syscall, .fn f :: _ => .ok f
  | .bsr, .fn f :: _ => .ok f
  | .jsr, [_, .fn f] => .ok f
  | _, _ => broken "not a call"

def freshName (f : Fn) (base : String) : Nat → Nat → Res String
  | 0, _ => broken "no free name"
  | fuel + 1, n =>
    let name := base ++ decimal n
    if (f.findBlk? name).isNone then .ok name else freshName f base fuel (n + 1)

def derivedName (f : Fn) (stem suffix : String) : Res String :=
  freshName f (stem ++ suffix) 99999 1

def newBlk (name : String) : Pass BlkId :=
  modifyGet fun f => (f.blks.size, { f with blks := f.blks.push { name } })

def reachPart (f : Fn) : List InsId → List InsId
  | [] => []
  | i :: is =>
    let fam := (f.ins i).op.fam
    if fam = .ret || fam = .bra then [i] else i :: reachPart f is

def cutAtTerms (f : Fn) : List InsId → List (List InsId)
  | [] => [[]]
  | [i] => [[i]]
  | i :: is =>
    if (f.ins i).op.isTerm then [i] :: cutAtTerms f is
    else
      match cutAtTerms f is with
      | [] => [[i]]
      | c :: cs => (i :: c) :: cs

def addPieces (stem : String) : List (List InsId) → Pass (List BlkId)
  | [] => pure []
  | c :: cs => do
    let b ← newBlk (← attempt (derivedName (← get) stem "_"))
    modify (·.setCode b c)
    return b :: (← addPieces stem cs)

def splitBlk (b : BlkId) : Pass (List BlkId) := do
  let f ← get
  match cutAtTerms f (reachPart f (f.blk b).code) with
  | [] => return [b]
  | c :: cs =>
    modify (·.setCode b c)
    modify (·.modBlk b fun x => { x with named := true })
    return b :: (← addPieces (f.blk b).name cs)

/-- Make every block end at its first terminator, and drop code that cannot be reached. -/
def splitBlks : Pass PUnit := do
  let f ← get
  require (f.blks.all fun b => !(b.named && b.forward)) "no definition"
  let order ← f.order.mapM splitBlk
  modify fun f => { f with order := order.flatten }

def jumpTgts (f : Fn) (code : List InsId) : List BlkId × Bool :=
  match code.getLast? with
  | none => ([], true)
  | some i =>
    let x := f.ins i
    match x.op.fam, x.args with
    | .ret, _ => ([], false)
    | .bra, [.blk b] => ([b], false)
    | .condBra, [_, _, .blk b] => ([b], true)
    | .switch, [_, .table t] => ((f.table t).fallback :: (f.table t).cases.map Prod.snd, false)
    | _, _ => ([], true)

def addEdges : List BlkId → Option BlkId → Fn → Fn × Option BlkId
  | [], before, f => (f, before)
  | b :: bs, before, f =>
    let f := match before with
      | some a => f.addEdge a b
      | none => f
    let (tgts, through) := jumpTgts f (f.blk b).code
    let f := tgts.foldl (fun f t => f.addEdge b t) f
    addEdges bs (if through then some b else none) f

/-- Compute the edges. A last block that control would run out of must be empty and is dropped. -/
def initEdges : Pass PUnit := do
  let f ← get
  let (f, open_) := addEdges f.order none f
  set f
  match open_, f.order.getLast? with
  | none, _ => pure ⟨⟩
  | some _, none => throw .pastEnd
  | some _, some b =>
    require (f.blk b).code.isEmpty "control runs out"
    if !(f.blk b).named then throw (.unknown (f.blk b).name)
    set { f.modBlk b (fun x => { x with named := false }) with order := f.order.dropLast }

/-- Leave out unconditional branches; the edges say where control continues. -/
def dropBranches : Pass PUnit := do
  (← get).order.forM fun b => modify fun f =>
    let code := (f.blk b).code
    match code.getLast? with
    | some i => if (f.ins i).op.fam = .bra then f.setCode b code.dropLast else f
    | none => f
  modify fun f => { f with notLinear := true }

/-- Replace a target in the instruction that ends a block, or in its jump table. -/
def retarget (last : InsId) (old new : BlkId) (f : Fn) : Fn :=
  let x := f.ins last
  match x.op.fam, x.args with
  | .bra, .blk b :: _ => if b = old then f.setIns last (x.setArg 0 (.blk new)) else f
  | .condBra, [_, _, .blk b] => if b = old then f.setIns last (x.setArg 2 (.blk new)) else f
  | .switch, [_, .table t] =>
    let subst (b : BlkId) : BlkId := if b = old then new else b
    f.modifyTable t fun t =>
      { t with fallback := subst t.fallback, cases := t.cases.map fun (n, b) => (n, subst b) }
  | _, _ => f

def forward (old new : BlkId) (f : Fn) (a : BlkId) : Res Fn :=
  let f := match (f.blk a).code.getLast? with
    | some i => retarget i old new f
    | none => f
  f.redirEdges a old new

/-- Remove an empty block, unless it is a loop of its own. Returns whether the block stays. -/
def bypassBlk (b : BlkId) : Pass Bool := do
  let f ← get
  let x := f.blk b
  if !x.code.isEmpty then return true
  match x.succs with
  | [] => throw .pastEnd
  | s :: rest =>
    if s = b then return true
    if !x.named then unknown x.name
    require rest.isEmpty "empty block"
    let f := f.modBlk b fun x => { x with named := false }
    let f ← attempt (f.removeEdge b s)
    set (← attempt ((f.blk b).preds.eraseDups.foldlM (forward b s) f))
    return false

def removeEmptyBlks : Pass Nat := do
  let order := (← get).order
  let keep ← order.filterM bypassBlk
  modify fun f => { f with order := keep }
  return order.length - keep.length

/-- Depth first search. Each step takes a block off the stack; it visits it if it is new. -/
def search (succs : BlkId → List BlkId) : Nat → List BlkId → RegSet → RegSet
  | 0, _, seen => seen
  | _, [], seen => seen
  | fuel + 1, b :: stack, seen =>
    if seen.contains b then search succs fuel stack seen
    else search succs fuel ((succs b).reverse ++ stack) (seen.insert b)

def reachableBlks (f : Fn) (first : BlkId) : RegSet :=
  let edges := f.blks.foldl (fun n b => n + b.succs.length) 0
  search (fun b => (f.blk b).succs) (edges + f.blks.size + 1) [first] ∅

def removeUnreachableBlks : Pass Int := do
  let f ← get
  match f.order with
  | [] => throw .pastEnd
  | first :: _ =>
    let seen := reachableBlks f first
    let dead := f.order.filter fun b => !seen.contains b
    let f' ← attempt (dead.foldlM (fun f b =>
      (f.blk b).succs.foldlM (fun f s => do
        let preds ← Fn.removeOne b (f.blk s).preds
        return f.modBlk s fun x => { x with preds }) f) f)
    let live := f.order.filter seen.contains
    let blks := f'.blks.mapIdx fun b x => { x with named := live.contains b }
    set { f' with order := live, blks }
    return f.order.length - (seen.toList f.blks.size).length

def invertBranch : Op → Option (Op × Bool)
  | .bne => some (.beq, false)
  | .beq => some (.bne, false)
  | .ble => some (.blt, true)
  | .blt => some (.ble, true)
  | _ => none

def flipBranch (i : InsId) (new : BlkId) : Pass PUnit := do
  let x := (← get).ins i
  match invertBranch x.op with
  | none => unknown x.op.name
  | some (op, swap) =>
    let x := { x.setArg 2 (.blk new) with op }
    modify (·.setIns i (if swap then x.swap 0 1 else x))

/-- Make a block with two successors end in a branch that can fall through to `next`, with an extra
block if neither successor is next. -/
def layOutBranch (b : BlkId) (next : Option BlkId) : Pass (List BlkId) := do
  let f ← get
  let x := f.blk b
  match x.succs with
  | [s0, s1] =>
    match x.code.getLast? with
    | none => throw .pastEnd
    | some i =>
      let br := f.ins i
      require (br.op.fam == .condBra) "two successors"
      match br.arg 2 with
      | .blk tgt =>
        let other := if tgt = s1 then s0 else s1
        match next with
        | none => throw .pastEnd
        | some n =>
          if n = s0 || n = s1 then
            if tgt = n && tgt != other then flipBranch i other
            return [b]
          else
            let c ← newBlk (← attempt (derivedName f x.name "bra"))
            let j ← newIns .bra [.blk other]
            modify (·.setCode c [j])
            set ((← attempt (forward other c (← get) b)).addEdge c other)
            return [b, c]
      | _ => broken "branch without target"
  | _ => broken "number of successors"

def layOutBlk (b : BlkId) (next : Option BlkId) : Pass (List BlkId) := do
  let f ← get
  let x := f.blk b
  match x.code.getLast?.map fun i => (f.ins i).op.fallsThrough with
  | some false => return [b]
  | _ =>
    match x.succs with
    | [s] =>
      if next != some s then
        let j ← newIns .bra [.blk s]
        modify fun f => f.setCode b ((f.blk b).code ++ [j])
      return [b]
    | _ => layOutBranch b next

def layOutBlks : List BlkId → Pass (List BlkId)
  | [] => pure []
  | b :: bs => return (← layOutBlk b bs.head?) ++ (← layOutBlks bs)

def addBranches : Pass PUnit := do
  let order ← layOutBlks (← get).order
  modify fun f => { f with order, notLinear := false }

/-- Move the instructions up to and including `i` into a new block before `b`, which takes over the
edges that lead to `b`. -/
def splitBefore (b : BlkId) (i : InsId) (name : String) : Pass BlkId := do
  let f ← get
  let x := f.blk b
  require ((f.ins i).op.fam != .condBra) "split after a branch"
  match x.code.findIdx? (· == i), f.order.findIdx? (· == b) with
  | some n, some pos =>
    let c ← newBlk name
    let f ← attempt (x.preds.foldlM (forward b c) (← get))
    let f := f.addEdge c b
    let f := (f.setCode c (x.code.take (n + 1))).setCode b (x.code.drop (n + 1))
    set { f with order := f.order.take pos ++ c :: f.order.drop pos }
    return c
  | _, _ => broken "no such instruction"

namespace Prog

def mentioned (i : Ins) : List FnId :=
  if i.op matches .leaFun | .bsr | .jsr | .syscall then
    i.args.filterMap fun
      | .fn f => some f
      | _ => none
  else []

def references (f : Fn) : List FnId :=
  f.order.flatMap fun b => (f.blk b).code.flatMap fun i => mentioned (f.ins i)

def keepReachable (p : Prog) (seeds : List FnId) : Prog :=
  let stored := p.memOrder.flatMap fun m => (p.mem m).data.filterMap fun
    | .fnAddr _ f => some f
    | _ => none
  let refs := p.fns.map references
  let fuel := refs.foldl (fun n r => n + r.length) 0 + p.fns.size + seeds.length + stored.length
  let seen := search (fun f => refs.getD f []) (fuel + 1) (seeds ++ stored) ∅
  { p with
    fns := p.fns.mapIdx fun i f => { f with reachable := seen.contains i }
    fnOrder := p.fnOrder.filter seen.contains }

end Prog

/-! ## Consistency of functions

`checkFn` tests that a function is put together properly: names are unique, edges agree with the
instructions that end blocks, operands are typed, and parameters and results are passed as the
signatures of callers and callees say. -/

/-! ## Typing of instructions -/

def fitsPlace (k : OpndKind) (x : Opnd) : Bool :=
  match x with
  | .reg _ => k == .reg || k == .regOrLit
  | .lit _ => k == .lit || k == .regOrLit
  | _ => k != .reg && k != .lit && k != .regOrLit

/-- Check places and constraints from left to right; `prev` is the last kind seen. -/
def checkOpnds (f : Fn) : OpndKinds → List Opnd → Kind → Res PUnit
  | (k, c) :: ks, x :: xs, prev =>
    if !fitsPlace k x then broken "operand sort"
    else if x.isReg || x.isLit then
      match c.holds? prev (f.kindOf x) with
      | none => broken "no constraint"
      | some false => .error (.rejected "operand kind")
      | some true => checkOpnds f ks xs (f.kindOf x)
    else checkOpnds f ks xs prev
  | _, _, _ => .ok ⟨⟩

def checkTyping (f : Fn) (i : Ins) : Res PUnit := checkOpnds f i.op.opnds i.args .invalid

/-! ## Blocks and functions -/

def nameTaken (f : Fn) (b : BlkId) : Bool := (f.findBlk? (f.blk b).name).isSome

/-- The edges of a block agree with its last instruction. -/
def checkBlkEnd (f : Fn) (b : BlkId) (next : Option BlkId) (linear : Bool) : Res PUnit := do
  let x := f.blk b
  let entered (s : BlkId) : Bool := (f.blk s).preds.contains b
  match x.code.getLast? with
  | none =>
    match x.succs with
    | [s] => ensure (entered s) "edge without end"
    | _ => ensure false "empty block"
  | some i =>
    let last := f.ins i
    checkTyping f last
    match last.op.fam with
    | .switch => pure ()
    | .condBra =>
      match x.succs with
      | [s0, s1] =>
        ensure (entered s0 && entered s1) "edge without end"
        ensure (last.arg 2 == .blk s0 || last.arg 2 == .blk s1) "branch off the edges"
        if linear then
          match next with
          | none => throw .pastEnd
          | some n => ensure (n == s0 || n == s1) "no fall through"
      | _ => ensure false "two successors"
    | .bra =>
      match x.succs with
      | [s] =>
        ensure (entered s) "edge without end"
        ensure (last.arg 0 == .blk s) "branch off the edge"
      | _ => ensure false "branch without successor"
    | .ret => ensure x.succs.isEmpty "return with successor"
    | _ =>
      match x.succs with
      | [s] =>
        ensure (entered s) "edge without end"
        if linear then
          match next with
          | none => throw .pastEnd
          | some n => ensure (n == s) "no fall through"
      | _ => ensure false "block without successor"

/-- Check one block after the other. With `linear`, blocks must fall through to the next one. -/
def checkBlks (f : Fn) (linear : Bool) : List BlkId → Res PUnit
  | [] => .ok ⟨⟩
  | b :: bs => do
    let x := f.blk b
    ensure (nameTaken f b) "block without name"
    ensure (x.succs.all (nameTaken f)) "missing block"
    ensure (x.preds.all (nameTaken f)) "missing block"
    x.code.dropLast.forM fun i => do
      ensure (!(f.ins i).op.isTerm) "early terminator"
      checkTyping f (f.ins i)
    checkBlkEnd f b bs.head? linear
    checkBlks f linear bs

variable (p : Prog)

/-- Each operand is of the sort that its place asks for and refers to something that exists. -/
def checkRef (f : Fn) (k : OpndKind) (x : Opnd) : Bool :=
  match x with
  | .reg r => (k == .reg || k == .regOrLit) && (f.findReg? (f.reg r).name).isSome
  | .lit _ => k == .lit || k == .regOrLit
  | .fn g =>
    let kind := (p.fn g).kind
    k == .fn && (kind == .builtin || kind == .signature || kind == .external ||
      !(p.fn g).order.isEmpty)
  | .blk b => k == .blk && nameTaken f b
  | .mem _ => k == .mem
  | .area _ => k == .slot
  | .table _ => k == .table
  | .bytes _ => k == .bytes

/-- Kinds of arguments on their way: pushed ones, newest first, and ones still to be popped. -/
structure ArgState where
  pushed : List Kind
  toPop : List Kind

def stepArgs (f : Fn) (i : Ins) (s : ArgState) : Res ArgState := do
  let s ← if i.op = .poparg then
      match s.toPop with
      | [] => broken "stray parameter"
      | k :: ks =>
        ensure (k == f.kindOf (i.arg 0)) "parameter kind"
        pure { s with toPop := ks }
    else
      ensure s.toPop.isEmpty "parameter not taken"
      pure s
  if i.op = .pusharg then return { s with pushed := f.kindOf (i.arg 0) :: s.pushed }
  else if i.op = .ret then
    ensure (s.pushed == f.outputs) "other results"
    return { s with pushed := [] }
  else if i.op.isCall then
    let g := p.fn (← callee i)
    ensure s.toPop.isEmpty "parameter not taken"
    ensure (s.pushed == g.inputs) "other arguments"
    return { pushed := [], toPop := g.outputs }
  else
    ensure s.pushed.isEmpty "argument not passed"
    return s

def checkCode (f : Fn) (args : Bool) : List InsId → ArgState → Res PUnit
  | [], _ => .ok ⟨⟩
  | i :: is, s => do
    let x := f.ins i
    ensure ((x.args.zip x.op.opnds).all fun (a, k, _) => checkRef p f k a) "bad operand"
    let s ← if args then stepArgs p f x s else pure s
    checkCode f args is s

structure CheckOptions where
  edges : Bool := true
  args : Bool := false
  linear : Bool := false

def checkFn (f : Fn) (o : CheckOptions) : Res PUnit := do
  ensure (f.order.length == f.namedCount) "names of blocks"
  if f.order.isEmpty then
    ensure (f.kind == .external || f.kind == .builtin || f.kind == .signature)
      "function without code"
  else
    if o.edges then checkBlks f o.linear f.order
    checkCode p f o.args (f.order.flatMap fun b => (f.blk b).code) ⟨[], f.inputs⟩

end Retarget.IR
