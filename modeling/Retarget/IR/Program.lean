import Retarget.IR.Literal

/-!
# Programs

A function owns tables of registers, literals, instructions, blocks, jump tables and stack areas;
everything refers to everything else by position in these tables. Positions are never reused.

`Fn.order` lists the blocks of the function in sequence, and `Blk.code` the instructions of a block.
-/

namespace Retarget.IR

/-! ## Sets of registers

A set of register positions is the number whose bits are its members. -/

structure RegSet where
  mask : Nat
  deriving DecidableEq, Inhabited

namespace RegSet

instance : EmptyCollection RegSet := ⟨⟨0⟩⟩
instance : Membership Nat RegSet := ⟨fun s r => s.mask.testBit r⟩

instance (r : Nat) (s : RegSet) : Decidable (r ∈ s) :=
  inferInstanceAs (Decidable (s.mask.testBit r))

variable (s : RegSet)

def contains (r : Nat) : Bool := s.mask.testBit r
def insert (r : Nat) : RegSet := ⟨s.mask ||| 1 <<< r⟩
def union (s t : RegSet) : RegSet := ⟨s.mask ||| t.mask⟩
def diff (s t : RegSet) : RegSet := ⟨s.mask ^^^ (s.mask &&& t.mask)⟩
def erase (r : Nat) : RegSet := s.diff ⟨1 <<< r⟩
def ofList (rs : List Nat) : RegSet := rs.foldl insert ∅
def toList (bound : Nat) : List Nat := (List.range bound).filter s.contains
def size : Nat := (s.toList (s.mask.log2 + 1)).length
theorem contains_iff {s : RegSet} {r : Nat} : s.contains r ↔ r ∈ s := Iff.rfl

@[simp] theorem not_mem_empty (r : Nat) : ¬ r ∈ (∅ : RegSet) := by
  show ¬ Nat.testBit 0 r
  simp

@[simp] theorem mem_union {s t : RegSet} {r : Nat} : r ∈ s.union t ↔ r ∈ s ∨ r ∈ t := by
  show Nat.testBit (s.mask ||| t.mask) r ↔ _
  rw [Nat.testBit_or, Bool.or_eq_true]
  rfl

@[simp] theorem mem_diff {s t : RegSet} {r : Nat} : r ∈ s.diff t ↔ r ∈ s ∧ ¬ r ∈ t := by
  show Nat.testBit (s.mask ^^^ (s.mask &&& t.mask)) r ↔ s.mask.testBit r ∧ ¬ t.mask.testBit r
  rw [Nat.testBit_xor, Nat.testBit_and]
  cases s.mask.testBit r <;> cases t.mask.testBit r <;> simp

theorem mem_single {r q : Nat} : q ∈ (⟨1 <<< r⟩ : RegSet) ↔ q = r := by
  show Nat.testBit (1 <<< r) q ↔ _
  rw [Nat.one_shiftLeft, Nat.testBit_two_pow]
  simp [eq_comm]

@[simp] theorem mem_insert {s : RegSet} {r q : Nat} : q ∈ s.insert r ↔ q ∈ s ∨ q = r := by
  have := mem_union (s := s) (t := ⟨1 <<< r⟩) (r := q)
  rw [mem_single] at this
  exact this

@[simp] theorem mem_erase {s : RegSet} {r q : Nat} : q ∈ s.erase r ↔ q ∈ s ∧ q ≠ r := by
  rw [erase, mem_diff, mem_single]

theorem ext {s t : RegSet} (h : ∀ r, r ∈ s ↔ r ∈ t) : s = t := by
  cases s with
  | mk a =>
    cases t with
    | mk b =>
      congr 1
      apply Nat.eq_of_testBit_eq
      intro i
      exact Bool.eq_iff_iff.2 (h i)

end RegSet

/-! ## Functions -/

abbrev RegId := Nat
abbrev LitId := Nat
abbrev InsId := Nat
abbrev BlkId := Nat
abbrev TableId := Nat
abbrev AreaId := Nat
abbrev FnId := Nat
abbrev MemId := Nat

/-- A register of a processor; `fam` tells apart the register files. -/
structure CpuReg where
  name : String
  no : Nat
  fam : Nat
  deriving DecidableEq

inductive Home where
  | free
  | cpu (r : CpuReg)
  | stack (off : Int)
  deriving DecidableEq

/-- The first definition of a register, as far as it has been looked for. -/
inductive FirstDef where
  | unset
  | none
  | site (ins : InsId) (blk : BlkId)
  deriving DecidableEq

structure Reg where
  name : String
  kind : Kind
  home : Home := .free
  isGlobal : Bool := false
  multiDef : Bool := false
  lac : Bool := false
  isRead : Bool := false
  multiRead : Bool := false
  /-- Written and read by one instruction of a processor that overwrites its first source. -/
  twoAddr : Bool := false
  marked : Bool := false
  firstDef : FirstDef := .unset
  dropped : Bool := false
  deriving Inhabited

namespace Reg

def cpuReg? (r : Reg) : Option CpuReg :=
  match r.home with
  | .cpu c => some c
  | _ => none

def hasCpuReg (r : Reg) : Bool := r.cpuReg?.isSome

def isSpilled (r : Reg) : Bool :=
  match r.home with
  | .stack _ => true
  | _ => false

def render (r : Reg) : String :=
  match r.home with
  | .free => r.name
  | .cpu c => s!"{r.name}@{c.name}"
  | .stack _ => r.name ++ "@STK"

end Reg

inductive Opnd where
  | reg (r : RegId)
  | lit (c : LitId)
  | blk (b : BlkId)
  | mem (m : MemId)
  | area (a : AreaId)
  | fn (f : FnId)
  | table (t : TableId)
  | bytes (bs : Text.Bytes)
  deriving DecidableEq, Inhabited

namespace Opnd

def reg? : Opnd → Option RegId
  | reg r => some r
  | _ => none

def lit? : Opnd → Option LitId
  | lit c => some c
  | _ => none

def isReg (x : Opnd) : Bool := x.reg?.isSome
def isLit (x : Opnd) : Bool := x.lit?.isSome

end Opnd

inductive Def where
  | unknown
  /-- The operand has been computed from other literals and has no definition. -/
  | absent
  | ins (i : InsId)
  /-- Several definitions meet at the start of the block. -/
  | blk (b : BlkId)
  deriving DecidableEq

/-- An instruction: opcode, operands, and for each operand the definition it reads. -/
structure Ins where
  op : Op
  args : List Opnd
  defs : List Def
  deriving Inhabited

namespace Ins

def of (op : Op) (args : List Opnd) : Ins := ⟨op, args, args.map fun _ => .unknown⟩
def nop : Ins := ⟨.nop, [], []⟩

variable (i : Ins)

def arg (n : Nat) : Opnd := i.args.getD n default
def argDef (n : Nat) : Def := i.defs.getD n .unknown
def setArg (n : Nat) (x : Opnd) : Ins := { i with args := i.args.set n x }
def setDef (n : Nat) (d : Def) : Ins := { i with defs := i.defs.set n d }

def swap (a b : Nat) : Ins :=
  { i with
    args := (i.args.set a (i.arg b)).set b (i.arg a)
    defs := (i.defs.set a (i.argDef b)).set b (i.argDef a) }

def written : List RegId := (i.args.take i.op.defCount).filterMap Opnd.reg?
def read : List RegId := (i.args.drop i.op.defCount).filterMap Opnd.reg?

end Ins

/-- For each register the definition that reaches a point, if one does. -/
abbrev DefMap := Array (Option Def)
def DefMap.find (m : DefMap) (r : RegId) : Option Def := m.getD r none

def DefMap.insert (m : DefMap) (r : RegId) (d : Def) : DefMap :=
  if r < m.size then m.set! r (some d)
  else (m ++ Array.replicate (r - m.size) none).push (some d)

structure Blk where
  name : String
  forward : Bool := false
  code : List InsId := []
  succs : List BlkId := []
  preds : List BlkId := []
  liveOut : RegSet := ∅
  defsIn : DefMap := #[]
  named : Bool := true
  deriving Inhabited

structure JumpTable where
  name : String
  size : Int
  fallback : BlkId
  cases : List (Int × BlkId)
  deriving Inhabited

structure Area where
  name : String
  alignment : Int
  count : Int
  slot : Option Int := none
  deriving Inhabited

inductive FnKind where
  | invalid | builtin | external | normal | signature
  deriving DecidableEq

def FnKind.name : FnKind → String
  | invalid => "INVALID" | builtin => "BUILTIN" | external => "EXTERN" | normal => "NORMAL"
  | signature => "SIGNATURE"

def FnKind.ofName? (s : String) : Option FnKind :=
  [invalid, builtin, external, normal, signature].find? (·.name == s)

structure Fn where
  name : String
  kind : FnKind := .invalid
  inputs : List Kind := []
  outputs : List Kind := []
  regs : Array Reg := #[]
  lits : Array Lit := #[]
  code : Array Ins := #[]
  blks : Array Blk := #[]
  order : List BlkId := []
  tables : Array JumpTable := #[]
  areas : Array Area := #[]
  /-- Size of the stack frame, once the areas are placed. -/
  frameSize : Int := -1
  tempCount : Nat := 0
  cpuLiveIn : List CpuReg := []
  cpuLiveOut : List CpuReg := []
  cpuClobber : List CpuReg := []
  /-- Unconditional branches have been removed. -/
  notLinear : Bool := false
  livenessValid : Bool := false
  frameFinal : Bool := false
  reachable : Bool := false
  deriving Inhabited

namespace Fn
variable (f : Fn)

def ins (i : InsId) : Ins := f.code.getD i .nop
def reg (r : RegId) : Reg := f.regs.getD r default
def lit (c : LitId) : Lit := f.lits.getD c default
def blk (b : BlkId) : Blk := f.blks.getD b default
def table (t : TableId) : JumpTable := f.tables.getD t default
def area (a : AreaId) : Area := f.areas.getD a default
def setIns (i : InsId) (x : Ins) : Fn := { f with code := f.code.setIfInBounds i x }
def modifyIns (i : InsId) (g : Ins → Ins) : Fn := { f with code := f.code.modify i g }
def modifyReg (r : RegId) (g : Reg → Reg) : Fn := { f with regs := f.regs.modify r g }
def modifyLit (c : LitId) (g : Lit → Lit) : Fn := { f with lits := f.lits.modify c g }
def modBlk (b : BlkId) (g : Blk → Blk) : Fn := { f with blks := f.blks.modify b g }

def modifyTable (t : TableId) (g : JumpTable → JumpTable) : Fn :=
  { f with tables := f.tables.modify t g }

def setCode (b : BlkId) (is : List InsId) : Fn := f.modBlk b fun x => { x with code := is }
def regIds : List RegId := (List.range f.regs.size).filter fun r => !(f.reg r).dropped

variable (name : String)

def findReg? : Option RegId := f.regs.findIdx? fun r => r.name == name && !r.dropped
def findBlk? : Option BlkId := f.blks.findIdx? fun b => b.name == name && b.named
def findTable? : Option TableId := f.tables.findIdx? fun t => t.name == name
def findArea? : Option AreaId := f.areas.findIdx? fun a => a.name == name
def namedCount : Nat := f.blks.foldl (fun n b => if b.named then n + 1 else n) 0
def litOf? (x : Opnd) : Option Lit := x.lit?.map f.lit

def kindOf (x : Opnd) : Kind :=
  match x with
  | .reg r => (f.reg r).kind
  | .lit c => (f.lit c).kind
  | _ => .invalid

/-- Two operands denote the same thing. Literals are compared by kind and number. -/
def sameOpnd (a b : Opnd) : Bool :=
  match a, b with
  | .lit c, .lit d => c == d || (f.lit c).same (f.lit d)
  | a, b => a == b

def renderSignature : String :=
  s!"IN: {bracketed (f.inputs.map Kind.name)} -> OUT: {bracketed (f.outputs.map Kind.name)}"

def isLeaf : Bool :=
  f.order.all fun b => (f.blk b).code.all fun i => (f.ins i).op != .bsr && (f.ins i).op != .jsr

end Fn

inductive MemKind where
  | invalid | ro | rw | tls | fix | external | builtin
  deriving DecidableEq, Inhabited

def MemKind.name : MemKind → String
  | invalid => "INVALID" | ro => "RO" | rw => "RW" | tls => "TLS" | fix => "FIX"
  | external => "EXTERN" | builtin => "BUILTIN"

def MemKind.ofName? (s : String) : Option MemKind :=
  [invalid, ro, rw, tls, fix, external, builtin].find? (·.name == s)

inductive Datum where
  | bytes (count : Int) (data : Text.Bytes)
  | fnAddr (size : Int) (f : FnId)
  | memAddr (size : Int) (m : MemId) (off : Int)

def Datum.size : Datum → Int
  | bytes count data => count * data.length
  | fnAddr size _ => size
  | memAddr size _ _ => size

structure Mem where
  name : String
  alignment : Int
  kind : MemKind
  data : List Datum := []
  deriving Inhabited

def Mem.size (m : Mem) : Int := (m.data.map Datum.size).foldl (· + ·) 0

/-- A program. Functions and regions that are only mentioned are in the tables but not in the
lists. -/
structure Prog where
  fns : Array Fn := #[]
  fnOrder : List FnId := []
  mems : Array Mem := #[]
  memOrder : List MemId := []

namespace Prog
variable (p : Prog)

def fn (f : FnId) : Fn := p.fns.getD f default
def mem (m : MemId) : Mem := p.mems.getD m default
def setFn (f : FnId) (x : Fn) : Prog := { p with fns := p.fns.setIfInBounds f x }
def modifyFn (f : FnId) (g : Fn → Fn) : Prog := { p with fns := p.fns.modify f g }
def modifyMem (m : MemId) (g : Mem → Mem) : Prog := { p with mems := p.mems.modify m g }
def findFn? (name : String) : Option FnId := p.fns.findIdx? fun f => f.name == name
def findMem? (name : String) : Option MemId := p.mems.findIdx? fun m => m.name == name

def constMem (c : Lit) : Res (MemId × Prog) := do
  let data ← c.toBytes
  let name := s!"$const_{c.kind.name}_" ++ "_".intercalate (data.map fun b => hex 2 b.toNat)
  match p.findMem? name with
  | some m => return (m, p)
  | none =>
    let m := p.mems.size
    return (m, { p with
      mems := p.mems.push ⟨name, data.length, .ro, [.bytes 1 data]⟩
      memOrder := p.memOrder ++ [m] })

end Prog

/-! ## Passes

A visitor returns `none` to keep the instruction, which it may have changed in place, or the
instructions to put in its stead. The result of a pass is the number of replacements. -/

abbrev Pass := StateT Fn Res
abbrev Visit := Pass (Option (List InsId))

namespace Pass

def require (cond : Bool) (why : String) : Pass PUnit :=
  if cond then pure ⟨⟩ else throw (.broken why)

def attempt {α : Type} (x : Res α) : Pass α := liftM x

def newIns (op : Op) (args : List Opnd) : Pass InsId :=
  modifyGet fun f => (f.code.size, { f with code := f.code.push (.of op args) })

def newLit (k : Kind) (n : Int) : Pass Opnd :=
  modifyGet fun f => (.lit f.lits.size, { f with lits := f.lits.push (.ofInt k n) })

def newLiteral (c : Lit) : Pass Opnd :=
  modifyGet fun f => (.lit f.lits.size, { f with lits := f.lits.push c })

/-- Turn an instruction into another one about whose operands nothing is known. -/
def resetIns (i : InsId) (op : Op) (args : List Opnd) : Pass PUnit := do
  require (args.length == op.opnds.length) "number of operands"
  modify (·.setIns i (.of op args))

def addReg (r : Reg) : Pass RegId := do
  let f ← get
  if (f.findReg? r.name).isSome then throw (.rejected "duplicate register")
  modifyGet fun f => (f.regs.size, { f with regs := f.regs.push r })

def tempReg (k : Kind) (purpose : String) (withKind : Bool) : Pass RegId := do
  require (!purpose.startsWith "$") "purpose of a register"
  modify fun f => { f with tempCount := f.tempCount + 1 }
  let n := (← get).tempCount
  let name := s!"${n}_{purpose}" ++ (if withKind then "_" ++ k.name else "")
  addReg { name, kind := k }

/-- The register that stands for a processor register holding values of the given kind. -/
def cpuRegOf (c : CpuReg) (k : Kind) : Pass RegId := do
  let name := s!"${c.name}_{k.name}"
  match (← get).findReg? name with
  | some r => return r
  | none => addReg { name, kind := k, home := .cpu c }

def addArea (a : Area) : Pass AreaId := do
  if a.alignment ≤ 0 then throw (.broken "alignment")
  if ((← get).findArea? a.name).isSome then throw (.rejected "duplicate area")
  modifyGet fun f => (f.areas.size, { f with areas := f.areas.push a })

variable (visit : InsId → Visit)

def rewriteCode : List InsId → Pass (Nat × List InsId)
  | [] => pure (0, [])
  | i :: is => do
    let r ← visit i
    let (n, rest) ← rewriteCode is
    match r with
    | none => return (n, i :: rest)
    | some js => return (n + 1, js ++ rest)

def rewriteBlk (b : BlkId) : Pass Nat := do
  let (n, code) ← rewriteCode visit ((← get).blk b).code
  modify (·.setCode b code)
  return n

def sumBlks (act : BlkId → Pass Nat) : List BlkId → Pass Nat
  | [] => pure 0
  | b :: bs => return (← act b) + (← sumBlks act bs)

def overBlks (act : BlkId → Pass Nat) : Pass Nat := do sumBlks act (← get).order
def rewrite : Pass Nat := overBlks (rewriteBlk visit)

def rewriteCodeWith {σ : Type} (visit : σ → InsId → Pass (σ × Option (List InsId))) :
    σ → List InsId → Pass (σ × Nat × List InsId)
  | s, [] => pure (s, 0, [])
  | s, i :: is => do
    let (s, r) ← visit s i
    let (s, n, rest) ← rewriteCodeWith visit s is
    match r with
    | none => return (s, n, i :: rest)
    | some js => return (s, n + 1, js ++ rest)

def rewriteBlksWith {σ : Type} (visit : σ → InsId → Pass (σ × Option (List InsId))) :
    σ → List BlkId → Pass (σ × Nat)
  | s, [] => pure (s, 0)
  | s, b :: bs => do
    let (s, n, code) ← rewriteCodeWith visit s ((← get).blk b).code
    modify (·.setCode b code)
    let (s, m) ← rewriteBlksWith visit s bs
    return (s, n + m)

def rewriteBlksBackWith {σ : Type} (visit : σ → InsId → Pass (σ × Option (List InsId))) :
    σ → List BlkId → Pass Nat
  | _, [] => pure 0
  | s, b :: bs => do
    let (s, n, code) ← rewriteCodeWith visit s ((← get).blk b).code.reverse
    modify (·.setCode b code.reverse)
    return n + (← rewriteBlksBackWith visit s bs)

end Pass

def Prog.onFn {α : Type} (p : Prog) (f : FnId) (pass : Pass α) : Res (α × Prog) := do
  let (a, x) ← pass.run (p.fn f)
  return (a, p.setFn f x)

/-! ## Writing programs -/

open Text

def sortText (xs : List String) : List String := xs.mergeSort fun a b => !(b < a)

def renderPlain (bs : Text.Bytes) : Res String :=
  if bs.all (· < 128) then .ok (String.ofList (bs.map fun b => Char.ofNat b.toNat))
  else .error .undecodable

def renderLit (c : Lit) (k : Constr) : String :=
  let s := if k == .off || k == .sameAsPrev then c.value.render else c.render
  if s.startsWith "inf" || s.startsWith "nan" then "+" ++ s else s

variable (p : Prog) (f : Fn)

def renderOpnd (x : Opnd) (k : Constr) : Res String :=
  match x with
  | .reg r => .ok (f.reg r).render
  | .lit c => .ok (renderLit (f.lit c) k)
  | .blk b => .ok (f.blk b).name
  | .mem m => .ok (p.mem m).name
  | .area a => .ok (f.area a).name
  | .fn g => .ok (p.fn g).name
  | .table t => .ok (f.table t).name
  | .bytes bs => do return s!"\"{← renderPlain bs}\""

def renderIns (i : Ins) : Res String := do
  let ops ← (i.args.zip i.op.opnds).mapM fun (x, _, k) => renderOpnd p f x k
  return "    " ++ " ".intercalate (i.op.name :: ops)

def renderBlk (b : Blk) : Texts := do
  let out := sortText (b.succs.map fun s => (f.blk s).name)
  let live := sortText ((b.liveOut.toList f.regs.size).map fun r => (f.reg r).name)
  let note (label : String) (names : List String) :=
    if names.isEmpty then "" else s!"  {label}[" ++ "  ".intercalate names ++ "]"
  let notes := note "edge_out" out ++ note "live_out" live
  let head := s!".bbl {b.name}" ++ if notes.isEmpty then "" else "  #" ++ notes
  return head :: (← b.code.mapM fun i => renderIns p f (f.ins i))

def renderRegs (k : Kind) : List String :=
  let rs := (f.regIds.map f.reg).filter (·.kind == k)
  if rs.isEmpty then []
  else
    let rs := rs.mergeSort fun a b => !(b.name < a.name)
    [s!".reg {k.name} {bracketed (rs.map Reg.render)}"]

def renderTable (t : JumpTable) : String :=
  let cases := t.cases.mergeSort fun a b => a.1 ≤ b.1
  let items := cases.map fun (n, b) => s!"{n} {(f.blk b).name}"
  s!".jtb {t.name} {t.size} {(f.blk t.fallback).name} {bracketed items}"

def renderCpuRegs (label : String) (rs : List CpuReg) : List String :=
  if rs.isEmpty then []
  else [s!"# {label}: {bracketed (rs.map CpuReg.name)}"]

def renderFn : Texts := do
  let kinds ks := bracketed (ks.map Kind.name)
  let head := s!".fun {f.name} {f.kind.name} {kinds f.outputs} = {kinds f.inputs}"
  let cpu := renderCpuRegs "live_in" f.cpuLiveIn ++ renderCpuRegs "live_out" f.cpuLiveOut ++
    renderCpuRegs "live_clobber" f.cpuClobber
  let areas := (f.areas.toList.mergeSort fun a b => !(b.name < a.name)).map fun a =>
    s!".stk {a.name} {a.alignment} {a.count}"
  let tables := f.tables.toList.map (renderTable f)
  let blks ← f.order.mapM fun b => renderBlk p f (f.blk b)
  return head :: cpu ++ Kind.all.flatMap (renderRegs f) ++ areas ++ tables ++ blks.flatten

def renderDatum : Datum → String
  | .bytes count data => s!"    .data {count} {quoteLines quoteLimit data}"
  | .fnAddr size f => s!"    .addr.fun {size} {(p.fn f).name}"
  | .memAddr size m off =>
    s!"    .addr.mem {size} {(p.mem m).name} {off}"

def renderMem (m : Mem) : List String :=
  s!".mem {m.name} {m.alignment} {m.kind.name}" :: m.data.map (renderDatum p)

def renderProg : Texts := do
  let mems := p.memOrder.flatMap fun m => renderMem p (p.mem m)
  let fns ← p.fnOrder.mapM fun f => do return "" :: (← renderFn p (p.fn f))
  return mems ++ fns.flatten

def listing : Texts := do
  match ← renderProg p with
  | [] => return [""]
  | text => return text

end Retarget.IR
