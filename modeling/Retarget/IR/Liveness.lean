import Retarget.IR.Flow

/-!
# Liveness

A register is live at a point if some path from there reads it before writing it. The backward
equations are solved with a work list. A call also writes the processor registers that carry its
results.
-/

namespace Retarget.IR

/-- What a block does to the set of live registers: registers it writes, and registers it reads
before writing them. -/
structure Effect where
  defs : RegSet := ∅
  uses : RegSet := ∅

/-- The registers of a function that live in the processor registers a call returns its results
in. -/
def resultRegs (p : Prog) (f : Fn) (i : Ins) : Res (List RegId) := do
  if i.op.isCall then
    let out := (p.fn (← callee i)).cpuLiveOut
    if out.isEmpty then return []
    return f.regIds.filter fun r => (f.reg r).cpuReg?.any out.contains
  else return []

/-- Put an instruction in front of code with the given effect. Operands are visited in order. -/
def Effect.before (e : Effect) (rets : List RegId) (i : Ins) : Effect :=
  let define e r := ⟨e.defs.insert r, e.uses.erase r⟩
  let e := rets.foldl define e
  let e := i.written.foldl define e
  { e with uses := i.read.foldl RegSet.insert e.uses }

def codeEffect (p : Prog) (f : Fn) : List InsId → Res Effect
  | [] => .ok {}
  | i :: is => return (← codeEffect p f is).before (← resultRegs p f (f.ins i)) (f.ins i)

structure LiveSets where
  liveIn : Array RegSet
  liveOut : Array RegSet

def informPreds (live : RegSet) : List BlkId → Array RegSet → List BlkId → Array RegSet × List BlkId
  | [], outs, work => (outs, work)
  | a :: as, outs, work =>
    let old := outs.getD a ∅
    let new := old.union live
    if new.size ≤ old.size then informPreds live as outs work
    else
      informPreds live as (outs.setIfInBounds a new) (if work.contains a then work else a :: work)

variable (f : Fn)

def liveLoop (effects : Array Effect) : Nat → List BlkId → LiveSets → LiveSets
  | 0, _, s => s
  | _, [], s => s
  | fuel + 1, b :: work, s =>
    let e := effects.getD b {}
    let live := ((s.liveOut.getD b ∅).diff e.defs).union e.uses
    if live.size ≤ (s.liveIn.getD b ∅).size then liveLoop effects fuel work s
    else
      let (outs, work) := informPreds live (f.blk b).preds s.liveOut work
      liveLoop effects fuel work ⟨s.liveIn.setIfInBounds b live, outs⟩

/-- A bound on the number of steps: a block returns to the work list only when its live-out set has
grown. -/
def liveBound : Nat := (f.regs.size + 2) * (f.blks.size + 1) + 1

def liveness (p : Prog) : Pass PUnit := do
  let f ← get
  match f.order with
  | first :: _ :: _ => Pass.require (!(f.blk first).succs.isEmpty) "no edges"
  | _ => pure ()
  let effectOf b := if f.order.contains b then codeEffect p f (f.blk b).code else .ok ⟨∅, ∅⟩
  let effects ← Pass.attempt ((List.range f.blks.size).mapM effectOf)
  let start := Array.replicate f.blks.size (∅ : RegSet)
  let s := liveLoop f effects.toArray (liveBound f) f.order.reverse ⟨start, start⟩
  let update b x := if f.order.contains b then { x with liveOut := s.liveOut.getD b ∅ } else x
  set { f with blks := f.blks.mapIdx update, livenessValid := true }

/-- The live set before an instruction, and whether the instruction is needed: it has a side effect
or writes a live register. An instruction that is not needed reads nothing. -/
def liveBefore (live : RegSet) (rets : List RegId) (i : Ins) : RegSet × Bool :=
  let live := rets.foldl RegSet.erase live
  let needed := i.op.hasSideEffect || i.written.any live.contains
  let live := i.written.foldl RegSet.erase live
  (if needed then i.read.foldl RegSet.insert live else live, needed)

/-- Keep the instructions that are needed, given what is live after the sequence. -/
def usefulCode (p : Prog) (f : Fn) (live : RegSet) : List InsId → Res (RegSet × List InsId)
  | [] => .ok (live, [])
  | i :: is => do
    let (live, kept) ← usefulCode p f live is
    let (live, needed) := liveBefore live (← resultRegs p f (f.ins i)) (f.ins i)
    return (live, if needed then i :: kept else kept)

def removeUseless (p : Prog) : Pass Nat := do
  Pass.require (← get).livenessValid "liveness is not known"
  Pass.overBlks fun b => do
    let f ← get
    let x := f.blk b
    let (_, kept) ← Pass.attempt (usefulCode p f x.liveOut x.code)
    set (f.setCode b kept)
    return x.code.length - kept.length

/-!
## Live ranges

A live range of a block starts where a register is written, or before the block, and ends at its
last read, or after the block. Each instruction that reads registers also has a *use* range, which
stands at the instruction and lists the ranges read there.
-/

def beforeBlk : Int := -32000
def afterBlk : Int := 32000
def noUse : Int := afterBlk + 1

inductive Assigned where
  | none
  | spilled
  | cpu (c : CpuReg)
  deriving DecidableEq

def Assigned.label : Assigned → String
  | none => "CPU_REG_INVALID"
  | spilled => "CPU_REG_SPILL"
  | cpu c => c.name

structure RangeReg where
  id : RegId := 0
  name : String
  kind : Kind
  cpu : Option CpuReg := none
  deriving DecidableEq

def RangeReg.render (r : RangeReg) : String :=
  s!"{r.name}:{r.kind.name}" ++ (r.cpu.elim "" fun c => "@" ++ c.name)

/-- A live range. `uses` are positions in the list of ranges that the range belongs to. -/
structure LiveRange where
  first : Int
  last : Int
  /-- Absent for a use range. -/
  reg : Option RangeReg
  useCount : Nat := 0
  uses : List Nat := []
  lac : Bool := false
  preAssigned : Bool := false
  ignored : Bool := false
  assigned : Assigned := .none
  deriving DecidableEq, Inhabited

namespace LiveRange
variable (r : LiveRange)

def isUse : Bool := r.reg.isNone
def regName : String := r.reg.elim "REG_INVALID" RangeReg.name
def kind (r : LiveRange) : Kind := r.reg.elim .invalid RangeReg.kind

/-- Earlier start first, then earlier end; so a use at a position comes before ranges that start
there. -/
def before (a b : LiveRange) : Bool := a.first < b.first || (a.first == b.first && a.last < b.last)

def renderPos (n : Int) : String :=
  if n = beforeBlk then "BB"
  else if n = afterBlk then "AB"
  else if n = noUse then "NU"
  else padLeft 2 (decimal n)

def render (names : List (String × Int)) : String :=
  let flags := (if r.lac then ["LAC"] else []) ++ (if r.preAssigned then ["PRE_ALLOC"] else []) ++
    (if r.ignored then ["IGNORE"] else [])
  let flags := if flags.isEmpty then "" else " " ++ " ".intercalate flags
  let head := s!"LR {renderPos r.first} - {renderPos r.last}{flags}"
  match r.reg with
  | none =>
    let starts := names.map fun (n, pos) => s!"{n}:{pos}"
    s!"{head} uses:{names.length} " ++ ",".intercalate starts
  | some g =>
    let body := s!" def:{g.name}:{g.kind.name}"
    match r.assigned with
    | .spilled => s!"{head} SPILLED{body}"
    | .cpu c => s!"{head}{body}@{c.name}"
    | .none => head ++ body

def useNames (all : Array LiveRange) (r : LiveRange) : List (String × Int) :=
  r.uses.map fun n =>
    let u := all.getD n default
    (u.regName, u.first)

end LiveRange

def sortRanges (all : Array LiveRange) (order : List Nat) : List Nat :=
  order.mergeSort fun a b => !((all.getD b default).before (all.getD a default))

/-- Ranges found so far while walking a block from its end. -/
structure RangeScan where
  ranges : Array LiveRange := #[]
  current : Array (Option Nat)
  /-- The next call; `afterBlk` stands for a return, -1 for nothing. -/
  callPos : Int := -1
  callIn : List CpuReg := []

namespace RangeScan
variable (s : RangeScan)

def openRange (last : Int) (r : RegId) : RangeScan :=
  let g := f.reg r
  { s with
    current := s.current.setIfInBounds r (some s.ranges.size)
    ranges := s.ranges.push
      { first := -1, last, reg := some ⟨r, g.name, g.kind, g.cpuReg?⟩, useCount := 1 } }

/-- Close the range of a register at its start. It is live across a call that comes before its
end. -/
def closeRange (n : Nat) (r : RegId) (first : Int) : RangeScan :=
  { s with
    current := s.current.setIfInBounds r none
    ranges := s.ranges.modify n fun x =>
      { x with
        first
        lac := x.lac || (s.callPos != -1 && s.callPos != afterBlk && s.callPos < x.last) } }

def closeAll (first : Int) (test : RegId → Bool) : RangeScan :=
  (List.range s.current.size).foldl (fun s r =>
      match s.current.getD r none with
      | some n => if test r then s.closeRange n r first else s
      | none => s)
    s

def atCall (p : Prog) (f : Fn) (s : RangeScan) (pos : Int) (i : Ins) : Res RangeScan := do
  if i.op = .ret then
    return if f.cpuLiveOut.isEmpty then s
      else { s with callIn := f.cpuLiveOut, callPos := afterBlk }
  else if i.op.isCall then
    let g := p.fn (← callee i)
    let s := s.closeAll pos fun r => (f.reg r).cpuReg?.any g.cpuLiveOut.contains
    return { s with callIn := g.cpuLiveIn, callPos := pos }
  else return s

/-- A register is written. If it is not live, the range has no use, or the next call reads it. -/
def define (pos : Int) (r : RegId) : RangeScan :=
  match s.current.getD r none with
  | some n => s.closeRange n r pos
  | none =>
    let g := f.reg r
    let last := if g.cpuReg?.any s.callIn.contains then s.callPos else noUse
    { s with
      ranges := s.ranges.push { first := pos, last, reg := some ⟨r, g.name, g.kind, g.cpuReg?⟩ } }

def use (pos : Int) (r : RegId) : RangeScan × Nat :=
  match s.current.getD r none with
  | some n =>
    ({ s with ranges := s.ranges.modify n fun x => { x with useCount := x.useCount + 1 } }, n)
  | none => (s.openRange f pos r, s.ranges.size)

def overwrites (i : Ins) (r : RegId) : Res Bool :=
  if (f.reg r).twoAddr then
    match i.args with
    | _ :: x :: _ => .ok (x == .reg r)
    | _ => .error .pastEnd
  else .ok false

def step (p : Prog) (f : Fn) (s : RangeScan) (pos : Int) (i : Ins) : Res RangeScan := do
  let s ← s.atCall p f pos i
  let s ← i.written.foldlM (fun s r => do
    if (f.reg r).isSpilled then return s
    if ← overwrites f i r then return s
    return s.define f pos r) s
  let (s, uses) := i.read.foldl (fun (s, uses) r =>
      if (f.reg r).isSpilled then (s, uses)
      else
        let (s, n) := s.use f pos r
        (s, if uses.contains n then uses else uses ++ [n]))
    (s, ([] : List Nat))
  if uses.isEmpty then return s
  return { s with ranges := s.ranges.push { first := pos, last := pos, reg := none, uses } }

/-- Walk over a sequence of instructions from its end; `pos` is the position of the first. -/
def walk (p : Prog) (f : Fn) (s : RangeScan) : Int → List InsId → Res RangeScan
  | _, [] => .ok s
  | pos, i :: is => do
    (← walk p f s (pos + 1) is).step p f pos (f.ins i)

end RangeScan

def liveRanges (p : Prog) (f : Fn) (b : Blk) : Res (Array LiveRange) := do
  let start : RangeScan := { current := Array.replicate f.regs.size none }
  let live := (b.liveOut.toList f.regs.size).filter fun r => !(f.reg r).isSpilled
  let s := live.foldl (fun s r => s.openRange f afterBlk r) start
  return ((← s.walk p f 0 b.code).closeAll beforeBlk fun _ => true).ranges

def readPos (s : String) : Res Int :=
  if s = "BB" then .ok beforeBlk
  else if s = "AB" then .ok afterBlk
  else if s = "NU" then .ok noUse
  else orFault (.malformed s) (Text.intIn? 10 s)

variable (cpu : List CpuReg)

def readRangeReg (s : String) : Res RangeReg := do
  match s.splitOn ":" with
  | [name, kind] =>
    let (kind, home) ← match kind.splitOn "@" with
      | [k] => pure (k, "")
      | [k, c] => pure (k, c)
      | _ => throw (.malformed s)
    let kind ← defined kind (Kind.ofName? kind)
    if home.isEmpty then return { name, kind }
    return { name, kind, cpu := some (← defined home (cpu.find? (·.name == home))) }
  | _ => throw (.malformed s)

def readUses (all : Array LiveRange) (s : String) : Res (List Nat) :=
  (s.splitOn ",").mapM fun u => do
    match u.splitOn ":" with
    | [name, pos] =>
      let pos ← orFault (.malformed pos) (Text.intIn? 10 pos)
      need "no such range" (all.findIdx? fun r => r.regName == name && r.first == pos)
    | _ => throw (.malformed u)

def readRangeTail : List String → Array LiveRange → Res (Array LiveRange)
  | [], all => .ok all
  | t :: ts, all => do
    let n := all.size - 1
    if t = "PRE_ALLOC" then
      readRangeTail ts (all.modify n fun r => { r with preAssigned := true })
    else if t = "LAC" then readRangeTail ts (all.modify n fun r => { r with lac := true })
    else if t.startsWith "def:" then
      let g ← readRangeReg cpu (t.drop 4).toString
      return all.modify n fun r =>
        { r with reg := some g, assigned := g.cpu.elim r.assigned Assigned.cpu }
    else if t.startsWith "uses:" then
      let uses ← readUses all (t.drop 5).toString
      readRangeTail ts (all.modify n fun r => { r with uses := r.uses ++ uses })
    else if t.startsWith "#" then return all
    else broken "unknown word"

def readRanges : List String → Array LiveRange → Res (Array LiveRange)
  | [], all => .ok all
  | l :: ls, all => do
    match (l.splitToList Text.isBlank).filter (!·.isEmpty) with
    | [] => readRanges ls all
    | t :: ts =>
      if t = "#" then readRanges ls all
      else
        ensure (t == "LR") "not a live range"
        match ts with
        | [] => throw .pastEnd
        | a :: ts =>
          let first ← readPos a
          match ts with
          | [] => throw .pastEnd
          | d :: ts =>
            ensure (d == "-") "no dash"
            match ts with
            | [] => throw .pastEnd
            | z :: ts =>
              let last ← readPos z
              readRanges ls (← readRangeTail cpu ts (all.push { first, last, reg := none }))

/-! ## Register assignment by linear scan

Where a range starts it takes a register from a pool; where it is read for the last time the
register goes back. The plain scan marks ranges for which the pool has nothing as spilled. The scan
with spilling also makes sure that a register is free for a moment wherever a spilled range is read
or written, and spills an earlier range if there is none. -/

open Pass

def alignUp (n alignment : Int) : Int := (n + alignment - 1) / alignment * alignment

def placeAll {α : Type} (measure : α → Int × Int) : List α → Int → List (α × Int) × Int
  | [], n => ([], n)
  | a :: as, n =>
    let (alignment, size) := measure a
    let start := alignUp n alignment
    let (placed, stop) := placeAll measure as (start + size)
    ((a, start) :: placed, stop)

def finalizeFrame : Pass PUnit := do
  let f ← get
  require (!f.frameFinal) "frame is final"
  let key (r : RegId) : Nat × String := ((f.reg r).kind.bits, (f.reg r).name)
  let spilled := (f.regIds.filter fun r => (f.reg r).isSpilled).mergeSort fun a b =>
    let (m, s) := key a
    let (n, t) := key b
    m < n || (m == n && !(t < s))
  let (regs, next) := placeAll
    (fun r => (((f.reg r).kind.bytes : Int), ((f.reg r).kind.bytes : Int))) spilled 0
  let areas := (List.range f.areas.size).mergeSort fun a b => !((f.area b).name < (f.area a).name)
  let (areas, stop) := placeAll (fun a => ((f.area a).alignment, (f.area a).count)) areas next
  let f := regs.foldl (fun f (r, n) => f.modifyReg r fun x => { x with home := .stack n }) f
  let table := areas.foldl (fun t (a, n) => t.modify a fun x => { x with slot := some n }) f.areas
  set { f with areas := table, frameSize := stop, frameFinal := true }

/-- Replace spilled operands, last one first, by scratch registers; returns loads and stores. -/
def spillOpnds (slotOf : RegId → Option AreaId) (zero : Opnd) (i : InsId) :
    List Nat → Pass (List InsId × List InsId)
  | [] => pure ([], [])
  | n :: ns => do
    let f ← get
    let x := f.ins i
    let (ld, st) ← match x.arg n with
      | .reg r =>
        match slotOf r with
        | some a =>
          if n < x.op.defCount then
            let t ← tempReg (f.reg r).kind "stspill" false
            modify (·.modifyIns i (·.setArg n (.reg t)))
            pure ([], [← newIns .stStk [.area a, zero, .reg t]])
          else
            let t ← tempReg (f.reg r).kind "ldspill" false
            modify (·.modifyIns i (·.setArg n (.reg t)))
            pure ([← newIns .ldStk [.reg t, .area a, zero]], [])
        | none => pure ([], [])
      | _ => pure ([], [])
    let (lds, sts) ← spillOpnds slotOf zero i ns
    return (ld ++ lds, st ++ sts)

def spillIns (slotOf : RegId → Option AreaId) (zero : Opnd) (i : InsId) : Visit := do
  let n := ((← get).ins i).args.length
  let (lds, sts) ← spillOpnds slotOf zero i (List.range n).reverse
  if lds.isEmpty && sts.isEmpty then return none
  return some (lds ++ i :: sts)

def spillAreas (pre : String) : List RegId → Pass (List (RegId × AreaId))
  | [] => pure []
  | r :: rs => do
    let g := (← get).reg r
    let a ← addArea { name := s!"{pre}_{g.name}", alignment := g.kind.bytes, count := g.kind.bytes }
    return (r, a) :: (← spillAreas pre rs)

/-- Keep registers in stack areas instead; returns the number of instructions concerned. -/
def spillRegs (off : Kind) (regs : List RegId) (pre : String) : Pass Nat := do
  let slots ← spillAreas pre regs
  let zero ← newLit off 0
  rewrite (spillIns (fun r => slots.lookup r) zero)

def spillRegsIn (b : BlkId) (off : Kind) (regs : List RegId) (pre : String) : Pass Nat := do
  let slots ← spillAreas pre regs
  let zero ← newLit off 0
  rewriteBlk (spillIns (fun r => slots.lookup r) zero) b

/-! ## Assignment -/

structure Pool (σ : Type) where
  /-- A register for a range, or the decision to spill it. -/
  take : LiveRange → σ → Res (Assigned × σ)
  give : Assigned → σ → Res σ
  /-- Kinds of the same class compete for the same registers. -/
  fam : Kind → Nat

/-- The ranges, the pool, and what happened, newest first. -/
structure Scan (σ : Type) where
  ranges : Array LiveRange
  pool : σ
  log : List String := []
  tracing : Bool := false

abbrev ScanM (σ : Type) := EStateM Fault (Scan σ)

namespace ScanM
variable {σ : Type}

def range (n : Nat) : ScanM σ LiveRange := return (← get).ranges.getD n default

def setAssigned (n : Nat) (a : Assigned) : ScanM σ PUnit :=
  modify fun s => { s with ranges := s.ranges.modify n fun r => { r with assigned := a } }

def note (n : Nat) (msg : Unit → String) : ScanM σ PUnit :=
  modify fun s =>
    if s.tracing then
      let r := s.ranges.getD n default
      { s with log := s!"{r.render (r.useNames s.ranges)} {msg ()}" :: s.log }
    else s

variable (pool : Pool σ)

def take (r : LiveRange) : ScanM σ Assigned := do
  match pool.take r (← get).pool with
  | .ok (a, q) =>
    modify fun s => { s with pool := q }
    return a
  | .error e => throw e

def give (a : Assigned) : ScanM σ PUnit := do
  match pool.give a (← get).pool with
  | .ok q => modify fun s => { s with pool := q }
  | .error e => throw e

variable (pool : Pool σ)

def endUses (u : LiveRange) : ScanM σ PUnit :=
  u.uses.forM fun n => do
    ensure u.isUse "range with uses"
    let r ← range n
    if r.last != u.first || r.ignored then return
    let c := r.assigned
    if r.preAssigned then
      ensure (c != .none && c != .spilled) "reserved range"
      ensure (some c == (r.reg.bind RangeReg.cpu).map Assigned.cpu) "reserved range moved"
    if c != .spilled then give pool c
    note n fun _ => "end " ++ c.label

def startRange (n : Nat) : ScanM σ PUnit := do
  let r ← range n
  ensure (r.assigned == .none) "assigned twice"
  let c ← take pool r
  setAssigned n c
  ensure (c != .none) "nothing assigned"
  note n fun _ => "start " ++ c.label
  if r.last = noUse && c != .spilled then
    give pool c
    note n fun _ => "no use " ++ c.label

def scan (order : List Nat) : ScanM σ PUnit :=
  order.forM fun n => do
    let r ← range n
    if !r.uses.isEmpty then endUses pool r
    else if r.preAssigned || r.ignored then return
    else startRange pool n

/-- Spill a range among `earlier`, newest first, that is live at a position and competes with the
given kind. -/
def spillEarlier (kind : Kind) (pos : Int) (keep : List LiveRange) : List Nat → ScanM σ PUnit
  | [] => throw (.broken "no range to spill")
  | n :: earlier => do
    let r ← range n
    if keep.contains r || r.isUse || r.ignored || r.preAssigned || r.assigned == .spilled ||
        r.last ≤ pos || pool.fam r.kind != pool.fam kind then
      spillEarlier kind pos keep earlier
    else
      note n fun _ => "spilling previously assigned " ++ r.assigned.label
      give pool r.assigned
      setAssigned n .spilled

def temp (r : RangeReg) (at_ spillPos : Int) (keep : List LiveRange)
  (earlier : List Nat) (n : Nat) (msg : Unit → String) : ScanM σ Assigned := do
  let tmp := { first := at_, last := noUse, reg := some r }
  let c ← take pool tmp
  if c != .spilled then return c
  note n msg
  spillEarlier pool r.kind spillPos keep earlier
  let c ← take pool tmp
  ensure (c != .spilled) "no register"
  return c

def regOf (r : LiveRange) : RangeReg := r.reg.getD { name := "REG_INVALID", kind := .invalid }

def startRangeSpilling (n : Nat) (earlier : List Nat) : ScanM σ PUnit := do
  startRange pool n
  let r ← range n
  if r.assigned == .spilled then
    let c ← temp pool (regOf r) r.first r.first [] earlier n
      fun _ => "no spill scratch reg for def"
    note n fun _ => "spill scratch reg for def: " ++ c.label
    give pool c

def tempForUses (u : LiveRange) (earlier : List Nat) :
    List Nat → Nat → List LiveRange → ScanM σ (List Assigned)
  | [], _, _ => pure []
  | n :: ns, x, keep => do
    let r ← range n
    if r.ignored || r.preAssigned || r.assigned != .spilled then
      tempForUses u earlier ns (x + 1) (keep ++ [r])
    else
      let place := s!"[{x}, def:{u.first}"
      let c ← temp pool (regOf r) u.first r.first keep earlier n
        fun _ => place ++ "] no spill scratch reg for use"
      note n fun _ => s!"{place} {(regOf r).render}] spill scratch reg for use: {c.label}"
      return c :: (← tempForUses u earlier ns (x + 1) keep)

def scanSpilling : List Nat → List Nat → ScanM σ PUnit
  | [], _ => pure ⟨⟩
  | n :: ns, earlier => do
    let r ← range n
    if !r.uses.isEmpty then
      let tmps ← tempForUses pool r earlier r.uses 0 []
      endUses pool r
      tmps.forM (give pool)
    else if !(r.preAssigned || r.ignored) then startRangeSpilling pool n earlier
    scanSpilling ns (n :: earlier)

end ScanM

def runScan {σ : Type} (start : σ) (ranges : Array LiveRange) (scan : List Nat → ScanM σ PUnit) :
  Res (Array LiveRange × σ) :=
  match (scan (sortRanges ranges (List.range ranges.size))).run { ranges, pool := start } with
  | .ok _ s => .ok (s.ranges, s.pool)
  | .error e _ => .error e

def assign {σ : Type} (pool : Pool σ) (start : σ) (ranges : Array LiveRange) :
  Res (Array LiveRange × σ) :=
  runScan start ranges (ScanM.scan pool)

def assignSpilling {σ : Type} (pool : Pool σ) (start : σ) (ranges : Array LiveRange) :
  Res (Array LiveRange × σ) :=
  runScan start ranges (ScanM.scanSpilling pool · [])

/-- A pool over fixed sets of registers, one per class; it offers the lowest number. Classes are 1
for general and 2 for floating point registers, plus 16 for those that survive calls. -/
structure FixedPool where
  classes : List (Nat × List CpuReg)

namespace FixedPool

def insertReg (c : CpuReg) : List CpuReg → List CpuReg
  | [] => [c]
  | d :: ds => if c.no < d.no then c :: d :: ds else d :: insertReg c ds

def put (p : FixedPool) (c : CpuReg) : Res FixedPool :=
  if (p.classes.lookup c.fam).isSome then
    .ok ⟨p.classes.map fun (k, cs) => (k, if k = c.fam then insertReg c cs else cs)⟩
  else unknown c.name

def ofRegs (regs : List CpuReg) : Res FixedPool :=
  regs.foldlM put ⟨[(1, []), (17, []), (2, []), (18, [])]⟩

def fam (k : Kind) : Nat := if k.isFloat then 2 else 1

def pool : Pool FixedPool where
  take r p :=
    let k := fam r.kind + (if r.lac then 16 else 0)
    match p.classes.lookup k with
    | some (c :: cs) =>
      .ok (.cpu c, ⟨p.classes.map fun (k', cs') => (k', if k' = k then cs else cs')⟩)
    | some [] => .ok (.spilled, p)
    | none => unknown "class"
  give a p :=
    match a with
    | .cpu c => p.put c
    | .spilled => broken "no register"
    | .none => unknown "no register"
  fam

end FixedPool

/-- Outcome of a scan with its log: the ranges in order, what happened, and why it ended early. -/
structure ScanReport where
  ranges : List String
  log : List String
  fault : Option Fault

def reportScan (regs : List CpuReg) (ranges : Array LiveRange) (spilling : Bool) :
  Res ScanReport := do
  let pool ← FixedPool.ofRegs regs
  let order := sortRanges ranges (List.range ranges.size)
  let act := if spilling then ScanM.scanSpilling FixedPool.pool order []
    else ScanM.scan FixedPool.pool order
  let (s, fault) := match act.run { ranges, pool, tracing := true } with
    | .ok _ s => (s, none)
    | .error e s => (s, some e)
  let show_ (n : Nat) : String :=
    let r := s.ranges.getD n default
    r.render (r.useNames s.ranges)
  return ⟨order.map show_, s.log.reverse, fault⟩

end Retarget.IR
