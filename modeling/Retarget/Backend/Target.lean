import Retarget.IR.Optimize
import Retarget.Assembly.Unit

/-!
# Compiling for a processor

A program is brought into a form that the processor can express; values that cross blocks get
registers, which they keep throughout the function, then values inside of blocks; and code is emitted
as assembly text or as an executable.
-/

namespace Retarget.IR

/-! ## Reserved ranges

Ranges are reserved and queried in ascending order of their start, so what ends before a query starts
never matters again: a cursor moves over the ranges that are behind. -/

/-- The ranges a register is reserved for, in ascending order, and how many of them are behind. -/
structure Reserved where
  ranges : Array LiveRange := #[]
  passed : Nat := 0

namespace Reserved
variable (r : Reserved)

/-- Reserve the register for one more range, which must come after the others. -/
def reserve (x : LiveRange) : Res Reserved := do
  ensure (r.ranges.back?.all (·.before x)) "reservations out of order"
  return { r with ranges := r.ranges.push x }

def ahead : List LiveRange := r.ranges.toList.drop r.passed

def advance (x : LiveRange) : Reserved :=
  { r with passed := r.passed + (r.ahead.takeWhile (·.last ≤ x.first)).length }

/-- Whether the range overlaps a reserved one; the cursor moves on. -/
def conflicts (x : LiveRange) : StateM Reserved Bool := do
  modify (·.advance x)
  return (← get).ahead.head?.any (·.first < x.last)

end Reserved
end Retarget.IR

namespace Retarget.Backend
open IR

/-- The units of a register file that may be used, in ascending order, and whether they survive
calls. -/
structure RegFile where
  usable : List Nat
  survives : Nat → Bool

def RegFile.lac (f : RegFile) : List Nat := f.usable.filter f.survives
def RegFile.notLac (f : RegFile) : List Nat := f.usable.filter fun n => !f.survives n

structure Registers where
  gpr : RegFile
  flt : RegFile
  candidates : Kind → List CpuReg
  holds : Kind → Bool
  units : CpuReg → List Nat
  isGpr : CpuReg → Bool
  isReserved : CpuReg → Bool := fun _ => false

/-- The free units of a register file. -/
structure FilePool where
  lac : List Nat
  notLac : List Nat
  perUnit : List (Nat × Reserved) := []

namespace FilePool
variable (p : FilePool)
variable (lac : Bool)

def free : List Nat := if lac then p.lac else p.notLac

variable (units : List Nat)

def setFree : FilePool := if lac then { p with lac := units } else { p with notLac := units }
def reserved (unit : Nat) : Reserved := (p.perUnit.lookup unit).getD {}

def setReserved (unit : Nat) (all : Reserved) : FilePool :=
  { p with perUnit := (unit, all) :: p.perUnit.filter (·.1 != unit) }

def reserve (x : LiveRange) (p : FilePool) (unit : Nat) : Res FilePool :=
  p.setReserved unit <$> (p.reserved unit).reserve x

def conflicts (x : LiveRange) (unit : Nat) : StateM FilePool Bool := fun p =>
  (Reserved.conflicts x (p.reserved unit)).map id (p.setReserved unit)

def offers (x : LiveRange) (units : List Nat) : StateM FilePool Bool := do
  if units.all ((← get).free x.lac).contains then return !(← units.anyM (conflicts x))
  return false

def remove : FilePool := p.setFree lac ((p.free lac).filter fun n => !units.contains n)
def add : FilePool := p.setFree lac (units ++ (p.free lac).filter fun n => !units.contains n)

end FilePool

structure BlkPool where
  gpr : FilePool
  flt : FilePool

namespace BlkPool
variable (m : Registers)

def full : BlkPool :=
  ⟨{ lac := m.gpr.lac, notLac := m.gpr.notLac }, { lac := m.flt.lac, notLac := m.flt.notLac }⟩

def file (p : BlkPool) (gpr : Bool) : FilePool := if gpr then p.gpr else p.flt

def setFile (p : BlkPool) (gpr : Bool) (q : FilePool) : BlkPool :=
  if gpr then { p with gpr := q } else { p with flt := q }

def reserve (m : Registers) (p : BlkPool) (x : LiveRange) : Res BlkPool := do
  let c ← need "no register" (x.reg.bind IR.RangeReg.cpu)
  if m.isReserved c then return p
  let gpr := m.isGpr c
  return p.setFile gpr (← (m.units c).foldlM (FilePool.reserve x) (p.file gpr))

def take (spilling : Bool) (x : LiveRange) (p : BlkPool) : Res (Assigned × BlkPool) :=
  let gpr := !x.kind.isFloat
  match (m.candidates x.kind).findM? (FilePool.offers x <| m.units ·) (p.file gpr) with
  | (some c, q) => do
    if !m.holds x.kind then unknown x.kind.name
    return (.cpu c, p.setFile gpr (q.remove x.lac (m.units c)))
  | (none, q) => do
    ensure spilling "no register left"
    return (.spilled, p.setFile gpr q)

def give (a : Assigned) (p : BlkPool) : Res BlkPool :=
  match a with
  | .cpu c =>
    if m.isReserved c then .ok p
    else
      let gpr := m.isGpr c
      let lac := (m.units c).any (if gpr then m.gpr else m.flt).survives
      .ok (p.setFile gpr ((p.file gpr).add lac (m.units c)))
  | _ => .error (.malformed "no register")

def pool (spilling : Bool) : Pool BlkPool where
  take := take m spilling
  give := give m
  fam k := if k = .f64 || k = .f32 then 2 else 1

end BlkPool

/-! ## Choosing instructions by patterns

A pattern asks for the kinds of the operands, and of each a *curb*: that it is a register or a
literal of a certain shape. The first pattern that fits gives the templates. Before the stack frame
is laid out, one that fits but for some literals tells which of them have to be in registers. -/

/-! ## Numbers behind operands -/

section
variable (p : Prog) (f : Fn) (i : Ins) (n : Nat)

def regNum : Res Int := do
  match i.arg n with
  | .reg r =>
    return (← need "no register" (f.reg r).cpuReg?).no
  | _ => broken "no register"

def litAt : Res Lit := need "no literal" (f.litOf? (i.arg n))

def litNum : Res Int := do
  match (← litAt f i n).value with
  | .int v => return v
  | .real _ => throw .wrongSort

def areaOff : Opnd → Res Int
  | .area a => need "area without offset" (f.area a).slot
  | _ => broken "no stack area"

def stackOff : Res Int := do
  let v ← litNum f i (n + 1)
  return (← areaOff f (i.arg n)) + v

def definedMem : Res String :=
  match i.arg n with
  | .mem m => do
    ensure ((p.mem m).kind != .external) "undefined region"
    return (p.mem m).name
  | _ => broken "no region"

def fnName : Res String :=
  match i.arg n with
  | .fn g => .ok (p.fn g).name
  | _ => broken "no function"

def definedFn : Res String := do
  if let .fn g := i.arg n then ensure ((p.fn g).kind != .external) "undefined function"
  fnName p i n

def blkName : Res String :=
  match i.arg n with
  | .blk b => .ok (f.blk b).name
  | _ => broken "no block"

def tableName : Res String :=
  match i.arg n with
  | .table t => .ok (f.table t).name
  | _ => broken "no jump table"

def memRef {κ : Type} (kind : κ) (pos : Nat) : Res (Option (Int × Asm.Reloc κ)) := do
  let name ← definedMem p i n
  return some (← litNum f i (n + 1), ⟨kind, false, pos, name⟩)

end

/-- The scratch register that has been announced last, if any. -/
abbrev Temp := Option Home

def Temp.cpuReg? : Temp → Res (Option CpuReg)
  | none => .ok none
  | some (.cpu c) => .ok (some c)
  | some _ => .error .missingPart

def Temp.number (s : Temp) (fam : Nat) : Res Int := do
  match ← s.cpuReg? with
  | some c =>
    ensure (c.fam == fam) "scratch register"
    return c.no
  | none => broken "no scratch register"

variable (f : Fn)

def regOpnds : List RegId :=
  (f.order.flatMap fun b => (f.blk b).code.flatMap fun i => (f.ins i).args).filterMap Opnd.reg?

def usedRegs : Res (List CpuReg) :=
  (regOpnds f).mapM fun r => need "no register" (f.reg r).cpuReg?

def residentRegs : Res (List CpuReg) :=
  ((regOpnds f).filter fun r => !(f.reg r).isSpilled).mapM fun r =>
    need "no register" (f.reg r).cpuReg?

def mentions (name word : String) : Bool := (name.splitOn word).length > 1

structure CurbRules (C : Type) where
  /-- Asks for no literal. -/
  isFree : C → Bool
  /-- Speaks about the offset of a stack area, which is the operand before, plus the literal. -/
  onStack : C → Bool
  admits : C → Scalar → Bool

/-- A pattern with curbs `C` and templates `T`. Operands that have no kind are marked `invalid`. -/
structure Pat (C T : Type) where
  kinds : List Kind
  curbs : List C
  emit : List T

def kindsFit : List Kind → List Opnd → Res Bool
  | k :: ks, x :: xs =>
    if k = .invalid then kindsFit ks xs
    else if x.isReg || x.isLit then if f.kindOf x = k then kindsFit ks xs else .ok false
    else broken "no kind"
  | _, _ => .ok true

def stackValue (a : AreaId) (v : Scalar) : Res Scalar := do
  let slot ← need "area without offset" (f.area a).slot
  match v with
  | .int n => return .int (n + slot)
  | .real _ => throw .wrongSort

section
variable {C T : Type} (rules : CurbRules C) (f : Fn) (open_ : Bool)

/-- Does a literal satisfy a curb? `before` is the operand before it. With `open_` the offsets of
stack areas are still unknown, and every sum is accepted. -/
def litFits (before : Option Opnd) (c : C) (v : Scalar) : Res Bool := do
  if rules.onStack c then
    match before with
    | some (.area a) => if open_ then return true else return rules.admits c (← stackValue f a v)
    | _ => return false
  else return rules.admits c v

/-- The positions of literals for which the pattern has no place, or `none` if the pattern cannot be
used; `pos` counts the operands behind. -/
def misplaced : Nat → Option Opnd → List C → List Opnd → Res (Option (List Nat))
  | pos, before, c :: cs, x :: xs =>
    match x with
    | .lit n => do
      if rules.isFree c then
        return (← misplaced (pos + 1) (some x) cs xs).map (pos :: ·)
      else if ← litFits rules f open_ before c (f.lit n).value then
        misplaced (pos + 1) (some x) cs xs
      else return none
    | .reg _ =>
      if rules.isFree c then misplaced (pos + 1) (some x) cs xs else .ok none
    | _ => misplaced (pos + 1) (some x) cs xs
  | _, _, _, _ => .ok (some [])

namespace Pat
variable (i : Ins)

/-- The literals of an instruction for which a pattern has no place, if kinds and shapes fit
otherwise. -/
def mismatch (t : Pat C T) : Res (Option (List Nat)) := do
  if ← kindsFit f t.kinds i.args then misplaced rules f open_ 0 none t.curbs i.args
  else return none

def find : List (Pat C T) → Res (Option (Pat C T))
  | [] => .ok none
  | t :: ts => do
    if (← t.mismatch rules f false i) = some [] then return some t else find ts

/-- The fewest literals to be moved so that some pattern fits; the first such pattern counts. -/
def fewest : List (Pat C T) → Option (List Nat) → Res (Option (List Nat))
  | [], best => .ok best
  | t :: ts, best => do
    match ← t.mismatch rules f open_ i with
    | some [] => return some []
    | some ns =>
      if best.all fun b => ns.length < b.length then fewest ts (some ns)
      else fewest ts best
    | none => fewest ts best

end Pat
end

def isSpecial (op : Op) : Bool := op = .line || op = .nop1 || op = .ret

/-- Put literals of an instruction into registers. Those of floating point kind are loaded from
memory; `p` collects the regions that hold them. -/
def moveLits (addr : Kind) (i : InsId) : Prog → List Nat → Pass (Prog × List InsId)
  | p, [] => pure (p, [])
  | p, n :: ns => do
    let f ← get
    match f.litOf? ((f.ins i).arg n) with
    | none => throw .missingPart
    | some c =>
      let (p, code) ← if c.kind.isFloat then do
          ensure ((f.ins i).op != .pusharg) "arguments stay together"
          let (m, p) ← p.constMem c
          pure (p, ← loadImm i n m addr .u32)
        else pure (p, [← moveImm i n])
      let (p, rest) ← moveLits addr i p ns
      return (p, code ++ rest)

/-- Put those literals into registers for which no pattern has a place; an instruction that no
pattern fits even so is refused. -/
def fitLits {C T : Type} (rules : CurbRules C) (pats : Op → List (Pat C T))
  (addr : Kind) (p : Prog) (i : InsId) : Pass (Prog × Option (List InsId)) := do
  let f ← get
  let x := f.ins i
  if isSpecial x.op then return (p, none)
  match ← Pat.fewest rules f true x (pats x.op) none with
  | none => broken "no pattern"
  | some [] => return (p, none)
  | some ns =>
    let (p, code) ← moveLits addr i p ns
    return (p, some (code ++ [i]))

/-! ## Registers for values that cross blocks -/

/-- How many registers of a file would be needed if there were enough. -/
structure Needs where
  globalLac : Nat
  globalNotLac : Nat
  localLac : Nat
  localNotLac : Nat

def Needs.exceed (n : Needs) (lac notLac : Nat) : Bool :=
  n.globalLac + n.localLac > lac ||
    n.globalLac + n.localLac + n.globalNotLac + n.localNotLac > lac + notLac

structure GlobalUnits where
  lac : List Nat
  notLac : List Nat
  /-- For other values when `notLac` is used up. -/
  spare : List Nat

/-- Divide the units of a file. Units in which arguments and results travel are excluded from
`notLac`; one unit more stays with the blocks if values have to be spilled. -/
def Needs.divide (n : Needs) (lac notLac : List Nat) (isTaken : Nat → Bool) : GlobalUnits :=
  let kept := n.localNotLac + if n.exceed lac.length notLac.length then 1 else 0
  { lac := lac.take n.globalLac
    notLac := (notLac.drop kept).filter fun u => !isTaken u
    spare := (lac.drop n.globalLac).drop n.localLac }

structure GlobalFile where
  /-- The classes of registers in the file, and how many units each takes. -/
  classes : List (Kind × Nat)
  lac : List Nat
  notLac : List Nat
  owns : CpuReg → Bool
  /-- Give units of the first list, and then of the second, to registers; returns those for which
  nothing is left. -/
  assign : List RegId → List Nat → List Nat → Pass (List RegId)

def GlobalFile.of (file : RegFile) : List (Kind × Nat) → (CpuReg → Bool) →
  (List RegId → List Nat → List Nat → Pass (List RegId)) → GlobalFile :=
  (⟨·, file.lac, file.notLac, ·, ·⟩)

structure GlobalPlan where
  kinds : KindMap
  files : List GlobalFile
  /-- Spilled registers live in the stack frame; otherwise they are loaded and stored. -/
  inPlace : Bool

/-- Integers and addresses share registers, and so do floating point numbers. -/
def wideKinds : KindMap
  | .s8 | .s16 | .s32 | .s64 | .u8 | .u16 | .u32 | .u64 | .a64 | .c64 => some .s64
  | .f32 | .f64 => some .f64
  | _ => none

def setHome (r : RegId) (h : Home) : Pass PUnit := modify (·.modifyReg r fun x => { x with home := h })

/-- Give one unit to each register in turn; returns the registers for which none is left. -/
def assignInTurn (regOf : Nat → CpuReg) : List RegId → List Nat → Pass (List RegId)
  | [], _ => pure []
  | rs, [] => pure rs
  | r :: rs, n :: ns => do
    let g := (← get).reg r
    ensure (g.home == .free) "register has a home"
    setHome r (.cpu (regOf n))
    assignInTurn regOf rs ns

def inTurn (regOf : Nat → CpuReg) (rs : List RegId) (first second : List Nat) : Pass (List RegId) :=
  assignInTurn regOf rs (first ++ second)

/-- What is known about the registers of a function: those of each class that cross blocks, and the
number of those of each class that blocks need. -/
structure Demand where
  globals : List ((Kind × Bool) × List RegId)
  locals : List ((Nat × Bool) × Nat)

namespace Demand
variable (d : Demand)

def globalsOf (k : Kind) (lac : Bool) : List RegId := (d.globals.lookup (k, lac)).getD []
def localsOf (k : Kind) (lac : Bool) : Nat := (d.locals.lookup (k.code, lac)).getD 0

def inFile (g : GlobalFile) (lac : Bool) : List RegId :=
  g.classes.flatMap fun (k, _) => d.globalsOf k lac

def needs (g : GlobalFile) : Needs :=
  let sum count := (g.classes.map fun (k, n) => n * count k).foldl (· + ·) 0
  { globalLac := sum fun k => (d.globalsOf k true).length
    globalNotLac := sum fun k => (d.globalsOf k false).length
    localLac := sum fun k => d.localsOf k true
    localNotLac := sum fun k => d.localsOf k false }

end Demand

def assignFile (d : Demand) (g : GlobalFile) : Pass (List RegId) := do
  let f ← get
  let taken := (f.regIds.filterMap fun r => (f.reg r).cpuReg?).filter g.owns
  let units := (d.needs g).divide g.lac g.notLac fun u => taken.any fun c => c.no == u
  let first ← g.assign (d.inFile g true) units.lac []
  return first ++ (← g.assign (d.inFile g false) units.notLac units.spare)

/-- One line on the registers of a function: crossing blocks with and without a processor register,
and needed in blocks; for each the number of those that live across calls and of the others. -/
def regReport (f : Fn) (d : Demand) : String :=
  let count test := ((f.regIds.map f.reg).filter fun r => r.isGlobal && test r).length
  let sum lac := ((d.locals.filter (·.1.2 == lac)).map Prod.snd).foldl (· + ·) 0
  let pair (a b : Nat) := s!"{padLeft 2 (decimal a)} {padLeft 2 (decimal b)}"
  s!"# REGSTATS {Text.padRight 20 f.name}   all: " ++
    pair (count fun r => r.hasCpuReg && r.lac) (count fun r => r.hasCpuReg && !r.lac) ++
    "  glo: " ++ pair (count fun r => !r.hasCpuReg && r.lac) (count fun r => !r.hasCpuReg && !r.lac) ++
    "  loc: " ++ pair (sum true) (sum false)

def refreshRegs (p : Prog) : Pass PUnit := do
  computeUsage
  discard dropUnused
  liveness p
  computeCrossing

/-- Assign processor registers to values that cross blocks; returns a report on the registers. -/
def allocateGlobals (g : GlobalPlan) (p : Prog) : Pass String := do
  refreshRegs p
  let f ← get
  let locals ← localNeeds p f g.kinds
  let d := ⟨← globalRegs f g.kinds, locals⟩
  let spilled ← g.files.mapM (assignFile d)
  if g.inPlace then
    spilled.flatten.forM (setHome · (.stack 0))
  else discard <| spillRegs .u32 spilled.flatten "$gspill"
  return regReport f d

/-!
## Registers for values inside a block

By a linear scan over live ranges. What finds no register is spilled, by loads and stores around its
uses, after which a second scan must succeed, or to a slot that instructions refer to.
-/

open Pass BlkPool

def blkRanges (p : Prog) (f : Fn) (b : BlkId) : Res (Array LiveRange) := do
  let ranges ← liveRanges p f (f.blk b)
  return ranges.map fun r =>
    match r.reg.bind RangeReg.cpu with
    | some c => { r with preAssigned := true, assigned := .cpu c }
    | none => r

/-- Set the home of the register of a range; the register is returned if the range is spilled. -/
def settle (r : LiveRange) : Pass (Option RegId) :=
  match r.reg with
  | none => return none
  | some g =>
    if r.preAssigned then return none
    else match r.assigned with
      | .none => broken "range not assigned"
      | .spilled => return some g.id
      | .cpu c => do
        setHome g.id (.cpu c)
        return none

section
variable (m : Registers)

def scanBlk (scan : BlkPool → Array LiveRange → Res (Array LiveRange × BlkPool))
  (p : Prog) (b : BlkId) : Pass (List RegId) := do
  let ranges ← blkRanges p (← get) b
  let order := sortRanges ranges (List.range ranges.size)
  let fixed := order.filter fun n => (ranges.getD n default).preAssigned
  let pool ← attempt <| fixed.foldlM (fun q n => q.reserve m (ranges.getD n default)) (full m)
  let (ranges, _) ← scan pool ranges
  return (← order.mapM fun n => settle (ranges.getD n default)).filterMap id

/-- Registers for a block; what is spilled is kept in memory by loads and stores, for which the
second scan must find registers. -/
def allocateBlk (p : Prog) (b : BlkId) : Pass PUnit := do
  let spilled ← scanBlk m (assignSpilling (pool m true)) p b
  if !spilled.isEmpty then
    discard <| spillRegsIn b .u32 spilled "$spill"
    require (← scanBlk m (assignSpilling (pool m false)) p b).isEmpty "spilled twice"

def allocateBlkInPlace (p : Prog) (b : BlkId) : Pass PUnit := do
  let spilled ← scanBlk m (assign (pool m true)) p b
  spilled.forM (setHome · (.stack 0))

def reserveTemp (need : Fn → Ins → Option (Kind × String)) (i : InsId) : Visit := do
  let f ← get
  match need f (f.ins i) with
  | none => return some [i]
  | some (k, purpose) =>
    let r ← tempReg k purpose false
    return some [← newIns .nop1 [.reg r], i]

def dropIdleMove (i : InsId) : Visit := do
  let f ← get
  match (f.ins i).op, (f.ins i).args with
  | .mov, [.reg dst, .reg src] =>
    let d := (f.reg dst).home
    let s := (f.reg src).home
    require (d != .free && s != .free) "move without home"
    return if s = d then some [] else none
  | _, _ => return none

end

/-! ## Emitting a program

An item is either written as a line of assembly text or put into an assembly unit. -/

open Text

inductive Item (I : Type) where
  | comment (text : String)
  | startMem (name : String) (align : Int) (part : String) (isLocal : Bool)
  | data (count : Int) (bytes : Text.Bytes)
  | fnAddress (size : Int) (name : String)
  | memAddress (size : Int) (name : String) (off : Int)
  | blkAddr (size : Int) (name : String)
  | endMem
  | startFn (name : String)
  | label (name : String)
  | ins (i : I)
  | verbatim (text : Text.Bytes)
  | endFn

/-- Where items go; `σ` is what has been collected. -/
structure Sink (I σ : Type) where
  put : σ → Item I → Res σ
  skipsSignatures : Bool
  skipsLines : Bool

/-- What the code of a processor family depends on: instructions `I`, templates `T` for them, and a
context `C` of a function. -/
structure CodeRules (C T I : Type) where
  ctx : Fn → Res C
  prolog : C → Res (List T)
  epilog : C → Res (List T)
  withTemp : C → Home → C
  select : Fn → Ins → Res (Option (List T))
  make : Prog → Fn → C → Ins → T → Res I
  isIdle : I → Bool := fun _ => false
  inlines : Bool := false
  refusesExternal : Bool := false
  addrSize : Int

section
variable {C T I σ : Type}

def datumItem (p : Prog) : Datum → Item I
  | .bytes count data => .data count data
  | .fnAddr size f => .fnAddress size (p.fn f).name
  | .memAddr size m off => .memAddress size (p.mem m).name off

def partOf : MemKind → Res String
  | .ro => .ok "rodata"
  | .rw => .ok "data"
  | k => unknown k.name

def emitMem (k : Sink I σ) (p : Prog) (s : σ) (m : MemId) : Res σ := do
  let x := p.mem m
  ensure (x.kind != .external) "undefined region"
  if x.kind = .builtin then return s
  let part ← partOf x.kind
  let items := [.comment s!"size {x.size}", .startMem x.name x.alignment part false] ++
    x.data.map (datumItem p) ++ [.endMem]
  items.foldlM k.put s

def emitTable (k : Sink I σ) (size : Int) (f : Fn) (s : σ) (t : JumpTable) : Res σ := do
  let entry (n : Nat) : Item I :=
    .blkAddr size (f.blk ((t.cases.lookup (n : Int)).getD t.fallback)).name
  let items := .startMem t.name size "rodata" true ::
    (List.range t.size.toNat).map entry ++ [.endMem]
  items.foldlM k.put s

variable (r : CodeRules C T I) (k : Sink I σ) (p : Prog) (f : Fn)

def emitTemplates (c : C) (i : Ins) (s : σ) (ts : List T) : Res σ :=
  ts.foldlM (fun s t => do
    let x ← r.make p f c i t
    if r.isIdle x then return s else k.put s (.ins x)) s

/-- Emit one instruction; the context changes where a scratch register is announced. -/
def emitIns (c : C) (s : σ) (i : Ins) : Res (C × σ) := do
  match i.op, i.args with
  | .nop1, [.reg n] => return (r.withTemp c (f.reg n).home, s)
  | .ret, _ => return (c, ← emitTemplates r k p f c .nop s (← r.epilog c))
  | op, args =>
    if op = .line && k.skipsLines then return (c, s)
    match op, args, r.inlines with
    | .inline, [.bytes text], true => return (c, ← k.put s (.verbatim text))
    | _, _, _ =>
      let ts ← need "no pattern" (← r.select f i)
      return (c, ← emitTemplates r k p f c i s ts)

def emitBlks : List BlkId → C → σ → Res σ
  | [], _, s => .ok s
  | b :: bs, c, s => do
    let s ← k.put s (.label (f.blk b).name)
    let (c, s) ← (f.blk b).code.foldlM (fun (c, s) i => emitIns r k p f c s (f.ins i)) (c, s)
    emitBlks bs c s

def emitFn (s : σ) (n : FnId) : Res σ := do
  let f := p.fn n
  if f.kind = .signature && k.skipsSignatures then return s
  if k.skipsSignatures then
    ensure (!(r.refusesExternal && f.kind == .external)) "undefined function"
    ensure f.frameFinal "frame is not final"
    ensure (0 ≤ f.frameSize) "frame without size"
  let s ← k.put s (.comment s!"sig: {f.renderSignature}  stk_size:{f.frameSize}")
  let s ← f.tables.toList.foldlM (emitTable k r.addrSize f) (← k.put s (.startFn f.name))
  let c ← r.ctx f
  let s ← emitBlks r k p f f.order c (← emitTemplates r k p f c .nop s (← r.prolog c))
  k.put s .endFn

def emitProg (s : σ) : Res σ := do
  p.fnOrder.foldlM (emitFn r k p) (← p.memOrder.foldlM (emitMem k p) s)

def asciiText (bs : Text.Bytes) : Res String :=
  if bs.all (· < 128) then .ok (.ofList (bs.map fun b => Char.ofNat b.toNat)) else .error .undecodable

variable (insText : I → Res String)

def itemLine : Item I → Res String
  | .comment text => .ok ("# " ++ text)
  | .startMem name align part isLocal =>
    .ok ((if isLocal then ".localmem " else ".mem ") ++ s!"{name} {align} " ++ part)
  | .data count bytes => .ok s!"    .data {count} {quoteLines quoteLimit bytes}"
  | .fnAddress size name => .ok s!"    .addr.fun {size} {name}"
  | .memAddress size name off =>
    .ok (s!"    .addr.mem {size} {name} 0x" ++ (if off < 0 then "-" else "") ++ hex 1 off.natAbs)
  | .blkAddr size name => .ok s!"    .addr.bbl {size} {name}"
  | .endMem => .ok ".endmem"
  | .startFn name => .ok s!".fun {name} 16"
  | .label name => .ok s!".bbl {name} 4"
  | .ins i => do return s!"    {← insText i}"
  | .verbatim text => do return s!"    {← asciiText text}"
  | .endFn => .ok ".endfun"

def textSink : Sink I (List String) where
  put s x := do return (← itemLine insText x) :: s
  skipsSignatures := true
  skipsLines := false

structure UnitRules (I : Type) where
  filler : Asm.Padding
  addrKind : Nat
  labelAlign : Int
  emit : I → Asm.Unit → Res Asm.Unit
  parse : String → List String → Res I

def putItem (r : UnitRules I) (u : Asm.Unit) : Item I → Res Asm.Unit
  | .comment _ => .ok u
  | .startMem name align part isLocal => u.startMem name align part isLocal
  | .data count bytes => u.addData count bytes
  | .fnAddress size name => u.addAddr r.addrKind size name false 0
  | .memAddress size name off => u.addAddr r.addrKind size name false off
  | .blkAddr size name => u.addBlkAddr r.addrKind size name
  | .endMem => u.endMem
  | .startFn name => u.startFn name 16 r.filler
  | .label name => u.addLabel name r.labelAlign r.filler
  | .ins i => r.emit i u
  | .verbatim text => do
    match ((← asciiText text).splitToList isBlank).filter (!·.isEmpty) with
    | [] => throw .pastEnd
    | w :: ws => r.emit (← r.parse w ws) u
  | .endFn => u.endFn

def unitSink (r : UnitRules I) : Sink I Asm.Unit where
  put := putItem r
  skipsSignatures := false
  skipsLines := true

def assemblyText (p : Prog) : Texts := do
  return (← emitProg r (textSink insText) p []).reverse

def assemblyUnit (u : UnitRules I) (p : Prog) : Res Asm.Unit := do
  (← emitProg r (unitSink u) p {}).finish

end

/-! ## Reports on the choice of instructions -/

open Report

def announce (p : Prog) (f : Fn) (i : Ins) : Report PUnit := do
  say ""
  let kinds := i.args.map fun x => if x.isReg || x.isLit then (f.kindOf x).name else "_"
  say s!"INS: {(← renderIns p f i).trimAscii.toString}  {bracketed kinds}"

/-- Report on each instruction of a program, once the frame of its function is laid out. -/
def reportProg (p : Prog) (act : Prog → Fn → Ins → Report PUnit) : Report PUnit :=
  p.fnOrder.forM fun n => do
    let (_, p) ← p.onFn n finalizeFrame
    let f := p.fn n
    (f.order.flatMap fun b => (f.blk b).code).forM fun i => do
      announce p f (f.ins i)
      act p f (f.ins i)

structure ReportRules (Curb C T I : Type) where
  rules : CurbRules Curb
  curbName : Curb → String
  pats : Op → List (Pat Curb T)
  ctx : String → C
  make : Prog → Fn → C → Ins → T → Res I
  text : I → Res String

def reportIns {Curb C T I : Type} (r : ReportRules Curb C T I) (p : Prog) (f : Fn) (i : Ins) :
  Report PUnit := do
  if isSpecial i.op then say "    SPECIAL"
  else
    match ← Pat.fewest r.rules f false i (r.pats i.op) none with
    | none => say "    MATCH_IMPOSSIBLE"
    | some [] =>
      match ← Pat.find r.rules f i (r.pats i.op) with
      | none => throw .missingPart
      | some t =>
        say (s!"PAT: reg:{bracketed (t.kinds.map Kind.name)}  imm:" ++
          bracketed (t.curbs.map r.curbName))
        t.emit.forM fun x => do say ("    " ++ (← r.text (← r.make p f (r.ctx f.name) i x)))
    | some ns =>
      let bits := ns.foldl (fun m n => m + span n) 0
      say ("    mismatches: " ++ hex 1 bits)

/-! ## Stages -/

/-! ## Steps that the processors share -/

def overFns (act : Prog → FnId → Res Prog) (p : Prog) : Res Prog :=
  p.fnOrder.foldlM act p

def runOn (p : Prog) (f : FnId) (pass : Prog → Pass PUnit) : Res Prog := do
  return (← p.onFn f (pass p)).2

def runAll (p : Prog) (f : FnId) (passes : List (Prog → Pass PUnit)) : Res Prog :=
  passes.foldlM (fun p pass => runOn p f pass) p

/-- Keep what can be reached from the start of the program, check each function, and optimise
once. -/
def prepare (p : Prog) : Res Prog := do
  let seeds := ["_start", "main"].filterMap p.findFn?
  let p := if seeds.isEmpty then p else p.keepReachable seeds
  p |> overFns fun p f => do
    checkFn p (p.fn f) { edges := false, args := true }
    if (p.fn f).kind != .normal then return p
    runOn p f fun p => do
      initFlow p
      discard <| optimizeOnce p true {}

def widenNarrow : List (Prog → Pass PUnit) :=
  [(.u8, .u32), (.s8, .s32), (.s16, .s32), (.u16, .u32)].map
    fun ((narrow, wide) : Kind × Kind) _ => discard <| widen narrow wide

def assignSignature (cc : CallConv) (p : Prog) (f : FnId) : Res Prog := do
  let cpuLiveIn ← cc.params (p.fn f).inputs
  let cpuLiveOut ← cc.rets (p.fn f).outputs
  return p.modifyFn f fun x => { x with cpuLiveIn, cpuLiveOut }

def passArgs (cc : CallConv) (p : Prog) : Pass PUnit := do
  discard <| pushArgs p cc
  discard <| popArgs p cc

def simplifyAccesses (addr : Kind) : Pass PUnit := do
  discard <| expandStackAccesses addr .s32
  discard <| expandMemAccesses addr .s32

def rewriteGrowing (visit : Prog → InsId → Pass (Prog × Option (List InsId))) (p : Prog)
  (f : FnId) : Res Prog := do
  let x := p.fn f
  let ((q, _), x) ← (Pass.rewriteBlksWith visit p x.order).run x
  return q.setFn f x

def fitAllLits {C T : Type} (rules : CurbRules C) (pats : Op → List (Pat C T))
  (addr : Kind) : Prog → FnId → Res Prog :=
  rewriteGrowing (fitLits rules pats addr)

/-- Bring a function into a form for which there are patterns; `expand` is what a processor lacks. -/
def legalizeFn {C T : Type} (cc : CallConv) (rules : CurbRules C)
  (pats : Op → List (Pat C T)) (addr : Kind) (expand : Pass PUnit) (p : Prog)
  (f : FnId) : Res Prog := do
  let p ← assignSignature cc p f
  if (p.fn f).kind != .normal then return p
  let p ← runOn p f fun p => do
    passArgs cc p
    discard expandRems
    expand
    simplifyAccesses addr
    discard canonicalize
    exitFlow p
  let p ← fitAllLits rules pats addr p f
  checkFn p (p.fn f) {}
  return p

structure LocalPlan where
  registers : Registers
  /-- Definitions of one register are made independent of each other first. -/
  separates : Bool
  temp : Fn → Ins → Option (Kind × String)
  inPlace : Bool

/-- Assign processor registers to all values that have none, and lay out the stack frame. -/
def allocateLocals (l : LocalPlan) (p : Prog) : Pass PUnit := do
  refreshRegs p
  if l.separates then discard separateLocals
  discard <| Pass.rewrite (reserveTemp l.temp)
  let blk := if l.inPlace then allocateBlkInPlace else allocateBlk
  (← get).order.forM (blk l.registers p)
  finalizeFrame
  discard <| rewrite dropIdleMove

structure Tgt where
  legalize : Prog → Res Prog
  globals : GlobalPlan
  locals : LocalPlan
  reports : Bool
  text : Prog → Texts
  unit : Prog → Res Asm.Unit
  linker : Asm.Linker

inductive Stage where
  | legal | globals | locals | text
  deriving DecidableEq

def Stage.ofName? : String → Option Stage
  | "legalize" => some .legal
  | "reg_alloc_global" => some .globals
  | "reg_alloc_local" => some .locals
  | "normal" => some .text
  | _ => none

namespace Tgt

/-- Assign registers to values that cross blocks in all functions; returns the report. -/
def allocateGlobals (t : Tgt) (p : Prog) : Res (List String × Prog) := do
  let rule := "".pushn '#' 60
  let (log, p) ← p.fnOrder.foldlM (fun ((log, p) : List (List String) × Prog) f => do
    checkFn p (p.fn f) { edges := false }
    let (line, q) ← p.onFn f (Backend.allocateGlobals t.globals p)
    return ([rule, s!"# GlobalRegAlloc {(p.fn f).name}", rule, line] :: log, q)) ([], p)
  return (if t.reports then log.reverse.flatten else [], p)

def allocateLocals (t : Tgt) (p : Prog) : Res Prog :=
  p |> overFns fun p f => runOn p f (Backend.allocateLocals t.locals)

def compile (t : Tgt) (stage : Stage) (p : Prog) : Texts := do
  let p ← t.legalize p
  if stage = .legal then return ← listing p
  let (log, p) ← t.allocateGlobals p
  if stage = .globals then return log ++ (← listing p)
  let p ← t.allocateLocals p
  if stage = .locals then return log ++ (← listing p)
  return log ++ (← t.text p)

def build (t : Tgt) (p : Prog) : Res Elf.Exe := do
  let (_, p) ← t.allocateGlobals (← t.legalize p)
  let p ← t.allocateLocals p
  t.linker.link (← t.unit p) true

end Tgt
end Retarget.Backend
