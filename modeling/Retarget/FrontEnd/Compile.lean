import Retarget.FrontEnd.Reader
import Retarget.FrontEnd.Desugar

/-!
# Compilation of programs

Modules are read, names are resolved, types and known values are found, and the program is reduced
to the core language. There is a sort of term for each use of an expression: its value goes to a
register, it tells a place in memory, it fills one, or it decides a branch. Types are gone: there are
kinds of registers, and sizes and offsets in bytes.
-/

namespace Retarget.FrontEnd.Core
open IR (Kind Lit Op)

/-- A branch if the comparison holds and one if it does not, each with its operands exchanged or
not. -/
def branches? : BinaryOp → Option ((Op × Bool) × Op × Bool)
  | .eq => some ((.beq, false), .bne, false)
  | .ne => some ((.bne, false), .beq, false)
  | .lt => some ((.blt, false), .ble, true)
  | .le => some ((.ble, false), .blt, true)
  | .gt => some ((.blt, true), .ble, false)
  | .ge => some ((.ble, true), .blt, false)
  | _ => none

mutual

inductive Expr where
  | lit (c : Lit)
  | void
  | var (x : String) (k : Kind)
  | global (g : String) (k : Kind)
  | stack (a : String) (k : Kind)
  | addr (p : Place)
  | unary (op : UnaryOp) (k : Kind) (e : Expr)
  /-- The operands of the instruction are copies of the two. -/
  | binary (op : Op) (k : Kind) (a b : Expr) (order : List Bool)
  /-- A pointer moved by a known number of bytes. -/
  | step (e : Expr) (off : Int)
  /-- A pointer moved by a number of elements of the given size. -/
  | advance (e i : Expr) (scale : Int)
  | conv (k : Kind) (e : Expr)
  | deref (k : Kind) (e : Expr)
  | field (k : Kind) (p : Place) (name : String) (off : Int)
  | call (f : String) (args : List Expr) (result : Option Kind)
  | stmts (result : Option Kind) (body : List Stmt)

inductive Place where
  | deref (e : Expr)
  | field (p : Place) (off : Int)
  | global (g : String)
  | stack (a : String)
  /-- A place of its own that is filled by statements. Such places are numbered. -/
  | stmts (no : Nat) (size align : Int) (body : List Stmt)

inductive Init where
  | value (e : Expr)
  | copy (p : Place) (size align : Int)
  | stmts (body : List Stmt)
  | zero (size align : Int)
  | nothing
  /-- A part at an offset, and other parts. -/
  | part (off : Int) (i rest : Init)

inductive Cond where
  | known (b : Bool)
  | not (c : Cond)
  /-- Both conditions hold, or one of them does. -/
  | joined (both : Bool) (c d : Cond)
  /-- Two operands are compared. The text is for the reader. -/
  | compare (yes no : Op × Bool) (a b : Expr) (note : String)
  | test (e : Expr)
  | var (x : String)

inductive Stmt where
  | eval (e : Expr)
  | reserve (a : String) (size align : Int)
  | place (a : String) (size align : Int) (i : Init)
  | declare (x : String) (k : Kind)
  | define (x : String) (k : Kind) (e : Expr)
  | blk (no : Nat) (label : String) (body : List Stmt)
  | jump (again : Bool) (no : Nat) (label : String)
  | leave (e : Expr) (isVoid : Bool)
  /-- Leave the innermost expression with statements; its value goes to a register. -/
  | give (e : Expr) (isVoid : Bool)
  /-- Leave the innermost expression with statements; its value goes to memory. -/
  | giveInto (i : Init)
  /-- Fill a place that is not used. -/
  | discard (no : Nat) (size align : Int) (i : Init)
  | cond (c : Cond) (yes no : List Stmt)
  | assign (x : String) (k : Kind) (e : Expr) (note : String)
  | store (p : Place) (i : Init)
  | trap

end

def Stmt.leaves : Stmt → Bool
  | jump .. | leave .. => true
  | _ => false

/-! ## Names -/

/-- How often each stem has been used for a name. -/
abbrev Names := String → Nat

namespace Names

def free : Names := fun _ => 0
def render (stem : String) (no : Nat) : String := if no = 0 then stem else s!"{stem}.{no}"
def next (names : Names) (stem : String) : String := render stem (names stem)

def take (names : Names) (stem : String) : Names := fun s =>
  if s = stem then names s + 1 else names s

end Names

/-- A function. The names of its entry and of its parameters are taken from the start. -/
structure Fn where
  name : String
  params : List (String × Kind)
  result : Option Kind
  names : Names
  body : List Stmt

end Retarget.FrontEnd.Core

/-! ## Code generation

Every intermediate result goes to a register of its own. Names are made from stems: the first name is
the stem, the others are numbered. -/

namespace Retarget.FrontEnd
open IR (Kind Lit Op)

/-! ## Lines -/

/-- What a register holds: a value of a kind, or unsigned bytes as many as an access has. -/
inductive RegKind where
  | of (k : Kind)
  | unsigned (bytes : Nat)

instance : Coe Kind RegKind := ⟨.of⟩

def RegKind.name : RegKind → String
  | of k => k.name
  | unsigned n => s!"U{n * 8}"

/-- A register is known by its name; its kind is told where it is first set. -/
structure Reg where
  name : String
  kind : RegKind

inductive NumForm where
  | typed | plain | hex

inductive Opnd where
  | nothing
  | reg (r : Reg)
  | lit (c : Lit) (as : NumForm)
  | zero (bytes : Nat)
  | label (l : String)
  | mem (g : String)
  | area (a : String)
  | fn (f : String)

namespace Opnd

def text : Opnd → String
  | nothing => "None"
  | reg r => r.name
  | lit c .typed => c.render
  | lit c .plain => c.value.render
  | lit c .hex => "0x" ++ hex 1 (c.int?.getD 0).toNat
  | zero n => "0:" ++ (RegKind.unsigned n).name
  | label l => l
  | mem g => g
  | area a => a
  | fn f => f

def dist (n : Int) : Opnd := .lit (.ofInt .s32 n) .plain

end Opnd

/-- How an instruction is written: with the kind of the destination or without it, with a sign
between destination and operands or without it, and with a remark. -/
structure Style where
  typed : Bool := true
  equals : Bool := true
  remark : String := ""

inductive Line where
  | label (l : String) (remark : String := "")
  | ins (op : Op) (dst : Option Reg) (args : List Opnd) (style : Style := {})
  | reg (r : Reg)
  /-- A stack area is declared, for a variable or for a numbered place without a name. -/
  | area (a : String) (no : Option Nat) (size align : Int)

namespace Line

def remarkText (remark : String) : String := if remark.isEmpty then "" else "  # " ++ remark

/-- The operands of an instruction. A value that is stored stands after a sign. -/
def argTexts (op : Op) (args : List Opnd) : List String :=
  match op, args with
  | .st, [base, off, value] => [base.text, off.text, "=", value.text]
  | _, args => args.map Opnd.text

def text : Line → String
  | label l remark => s!".bbl {l}{remarkText remark}"
  | ins op dst args style =>
    let tgt := match dst with
      | none => []
      | some r =>
        [if style.typed then s!"{r.name}:{r.kind.name}" else r.name] ++
          if style.equals && !args.isEmpty then ["="] else []
    "  " ++ " ".intercalate (op.name :: (tgt ++ argTexts op args)) ++ remarkText style.remark
  | reg r => s!"  .reg {r.kind.name} [{r.name}]"
  | area a _ size align => s!"  .stk {a} {align} {size}"

end Line

/-! ## The generator -/

/-- The names that are taken, and the lines so far. -/
abbrev Gen := StateT (Core.Names × Array Line) Res

namespace Gen

def put (l : Line) : Gen Unit := modify fun (names, lines) => (names, lines.push l)

def fresh (stem : String) : Gen String := do
  ensure (!stem.toList.contains '.') "stem of a name"
  modifyGet fun (names, lines) => (names.next stem, names.take stem, lines)

/-- Compute into a register that is named before the arguments are found. -/
def computing (stem : String) (op : Op) (k : Kind) (args : Gen (List Opnd))
  (style : Style := {}) : Gen Opnd := do
  let r := ⟨← fresh stem, k⟩
  put (.ins op (some r) (← args) style)
  return .reg r

def compute (stem : String) (op : Op) (k : Kind) (args : List Opnd) : Gen Opnd :=
  computing stem op k (return args)

def putAll (ls : List Line) : Gen Unit :=
  modify fun (names, lines) => (names, lines ++ ls.toArray)

def pushAll (os : List Opnd) : Gen Unit := putAll (os.map (.ins .pusharg none [·]))

end Gen

/-- Where the value of an expression with statements goes: to a register, or to memory at an offset
from a base. -/
inductive ResSlot where
  | none
  | reg (r : Reg)
  | mem (base : Opnd) (off : Int)

/-- What is around a statement: the labels at the starts and ends of blocks, and the place for the
value of the innermost expression with statements. -/
structure Surroundings where
  labels : Nat → Option (String × String) := fun _ => none
  result : ResSlot := .none

variable (sc : Surroundings)

def Surroundings.enter (no : Nat) (start finish : String) : Surroundings where
  labels := fun n => if n = no then some (start, finish) else sc.labels n
  result := sc.result

def Surroundings.tgt (again : Bool) (no : Nat) : Option String :=
  (sc.labels no).map fun p => if again then p.1 else p.2

namespace Core
open Gen

/-! ## Opcodes -/

def unaryOpnd (k : Kind) : UnaryOp → Opnd
  | .minus => .lit (.ofInt k 0) .plain
  | .not => .lit (.ofInt k (span k.bits - 1)) .hex

def truthBranch (o : Opnd) (stay : Bool) (tgt : String) : Line :=
  .ins (if stay then .beq else .bne) none [o, .lit (.ofInt .u8 0) .plain, .label tgt]

/-! ## Memory -/

def halvings (w : Nat) : List Nat := if w = 0 then [] else w :: halvings (w / 2)

/-- The addresses at which memory is accessed to copy or clear `rest` bytes from `start` on, for each
of the widths as many as fit. -/
def chunks : List Nat → Nat → Nat → List (Nat × List Nat)
  | [], _, _ => []
  | w :: ws, start, rest =>
    let n := rest / w
    if n = 0 then chunks ws start rest
    else (w, (List.range n).map (start + w * ·)) :: chunks ws (start + w * n) (rest - w * n)

def accesses (size align : Int) : List (Nat × List Nat) :=
  chunks (halvings align.toNat) 0 size.toNat

variable (dst : Opnd × Int)

def storeLine (n : Nat) (o : Opnd) : Line := .ins .st none [dst.1, .dist (dst.2 + n), o]

def copyLines (src : Opnd × Int) (r : Reg) (n : Nat) : List Line :=
  [.ins .ld (some r) [src.1, .dist (src.2 + n)] { typed := false }, storeLine dst n (.reg r)]

/-- The lines of a copy for each width; their registers get the next names. -/
def copyParts (src : Opnd × Int) : Names → List (Nat × List Nat) → Names × List (List Line)
  | names, [] => (names, [])
  | names, (w, ns) :: parts =>
    let stem := s!"copy{w}"
    let r := ⟨names.next stem, .unsigned w⟩
    let (names, rest) := copyParts src (names.take stem) parts
    (names, (.reg r :: ns.flatMap (copyLines dst src r)) :: rest)

def emitCopy (src : Opnd × Int) (parts : List (Nat × List Nat)) : Gen PUnit :=
  modify fun (names, lines) =>
    let (names, ls) := copyParts dst src names parts
    (names, lines ++ ls.flatten.toArray)

def clearLines (parts : List (Nat × List Nat)) : List Line :=
  parts.flatMap fun (w, ns) => ns.map (storeLine dst · (.zero w))

def emitAddr (p : Opnd × Int) : Gen Opnd :=
  if p.2 = 0 then return p.1 else compute "at" .lea addrKind [p.1, .dist p.2]

def emitScaled (i : Opnd) (scale : Int) : Gen Opnd :=
  if scale = 1 then return i
  else do
    let r := ⟨← fresh "scaled", .of .s64⟩
    putAll [.ins .conv (some r) [i],
      .ins .mul (some r) [.reg r, .lit (.ofInt .s64 scale) .plain] { typed := false }]
    return .reg r

def emitBase (stem a : String) : Gen Opnd :=
  computing stem .leaStk addrKind (return [.area a, .dist 0]) { equals := false }

def emitArea (stem : String) (no : Nat) (size align : Int) : Gen Opnd := do
  let a ← fresh stem
  put (.area a (some no) size align)
  emitBase "stmt_stk_base" a

/-- A jump to a block; outside of any such block the label is cut short. -/
def emitJump (again : Bool) (no : Nat) (label : String) : Gen Unit :=
  let bra l := put (.ins .bra none [.label l] { remark := if again then "continue" else "break" })
  match sc.tgt again no with
  | some l => bra l
  | none =>
    match label.toList[if again then 0 else 1]? with
    | some c => bra c.toString
    | none => throw .pastEnd

def emitBra (l : String) : Gen Unit := put (.ins .bra none [.label l])

/-! ## Terms -/

mutual

def Expr.emit (sc : Surroundings) : Expr → Gen Opnd
  | .lit c => return .lit c .typed
  | .void => return .nothing
  | .var x k => return .reg ⟨x, k⟩
  | .global g k => compute "globread" .ldMem k [.mem g, .dist 0]
  | .stack a k => compute "stkread" .ldStk k [.area a, .dist 0]
  | .addr p => do emitAddr (← p.emit sc)
  | .unary op k e => do
    compute "expr1" (if op matches .minus then .sub else .xor) k [unaryOpnd k op, ← e.emit sc]
  | .binary op k a b order => do
    let x ← a.emit sc
    let y ← b.emit sc
    compute "expr2" op k (order.map fun second => if second then y else x)
  | .step e off => do compute "expr2" .lea addrKind [← e.emit sc, .dist off]
  | .advance e i scale => do
    let x ← e.emit sc
    computing "expr2" .lea addrKind (return [x, ← emitScaled (← i.emit sc) scale])
  | .conv k e => do compute "as" .conv k [← e.emit sc]
  | .deref k e => do compute "deref" .ld k [← e.emit sc, .dist 0]
  | .field k p name off =>
    computing ("field_" ++ name) .ld k (return [← emitAddr (← p.emit sc), .dist off])
  | .call f args result => do
    pushAll (← Expr.emitAll sc args).reverse
    put (.ins .bsr none [.fn f])
    match result with
    | none => return .nothing
    | some k => compute "call" .poparg k []
  | .stmts none body => do
    Stmt.emitAll { sc with result := .none } body
    return .nothing
  | .stmts (some k) body => do
    let r := ⟨← fresh "expr", k⟩
    put (.reg r)
    Stmt.emitAll { sc with result := .reg r } body
    return .reg r

def Expr.emitAll (sc : Surroundings) : List Expr → Gen (List Opnd)
  | [] => return []
  | e :: es => return (← e.emit sc) :: (← Expr.emitAll sc es)

def Place.emit (sc : Surroundings) : Place → Gen (Opnd × Int)
  | .deref e => return (← e.emit sc, 0)
  | .field p off => return (← emitAddr (← p.emit sc), off)
  | .global g => return (← compute ("lhsaddr_" ++ g) .leaMem addrKind [.mem g, .dist 0], 0)
  | .stack a => return (← compute ("lhsaddr_" ++ a) .leaStk addrKind [.area a, .dist 0], 0)
  | .stmts no size align body => do
    let x ← emitArea "expr_stk_var" no size align
    Stmt.emitAll { sc with result := .mem x 0 } body
    return (x, 0)

def Init.emit (sc : Surroundings) (dst : Opnd × Int) : Init → Gen Unit
  | .value e => do put (storeLine dst 0 (← e.emit sc))
  | .copy p size align => do emitCopy dst (← emitAddr (← p.emit sc), 0) (accesses size align)
  | .stmts body => Stmt.emitAll { sc with result := .mem dst.1 dst.2 } body
  | .zero size align => putAll (clearLines dst (accesses size align))
  | .nothing => return
  | .part off i rest => do
    i.emit sc (dst.1, dst.2 + off)
    rest.emit sc dst

/-- Go to the target if the condition is not the given truth value, and on to the next line
otherwise. -/
def Cond.emit (sc : Surroundings) (stay : Bool) (tgt : String) : Cond → Gen Unit
  | .known b => if b = stay then return else emitBra tgt
  | .not c => c.emit sc (!stay) tgt
  | .joined both c d => do
    if both = stay then
      c.emit sc stay tgt
      d.emit sc stay tgt
    else
      let failed ← fresh ("br_failed_" ++ if both then "and" else "or")
      c.emit sc both failed
      d.emit sc stay tgt
      put (.label failed)
  | .compare yes no a b note => do
    let x ← a.emit sc
    let y ← b.emit sc
    let (op, swapped) := if stay then no else yes
    let args := if swapped then [y, x, .label tgt] else [x, y, .label tgt]
    put (.ins op none args { remark := note })
  | .test e => do put (truthBranch (← e.emit sc) stay tgt)
  | .var x => put (truthBranch (.reg ⟨x, .of .u8⟩) stay tgt)

def Stmt.emit (sc : Surroundings) : Stmt → Gen Unit
  | .eval e => do let _ ← e.emit sc
  | .reserve a size align => put (.area a none size align)
  | .place a size align i => do
    put (.area a none size align)
    i.emit sc (← emitBase "init_base" a, 0)
  | .declare x k => put (.reg ⟨x, k⟩)
  | .define x k e => do
    let v ← e.emit sc
    ensure (!v matches .nothing) "no value"
    put (.ins .mov (some ⟨x, k⟩) [v])
  | .blk no label body => do
    let start ← fresh label
    let finish ← fresh label
    put (.label start "block start")
    Stmt.emitAll (sc.enter no start finish) body
    put (.label finish "block end")
  | .jump again no label => emitJump sc again no label
  | .leave e isVoid => do
    let x ← e.emit sc
    pushAll (if isVoid then [] else [x])
    put (.ins .ret none [])
  | .give e isVoid => do
    let x ← e.emit sc
    if isVoid then return
    else
      match sc.result with
      | .reg r => put (.ins .mov (some r) [x] { typed := false, equals := false })
      | _ => broken "place for a value"
  | .giveInto i =>
    match sc.result with
    | .mem base off => i.emit sc (base, off)
    | _ => broken "place for a value"
  | .discard no size align i => do i.emit sc (← emitArea "stmt_stk_var" no size align, 0)
  | .cond c yes no => do
    let otherwise ← fresh "br_f"
    let join ← fresh "br_join"
    c.emit sc (!yes.isEmpty) (if yes.isEmpty || no.isEmpty then join else otherwise)
    Stmt.emitAll sc yes
    unless yes.isEmpty || no.isEmpty do
      unless yes.getLast?.any Stmt.leaves do emitBra join
      put (.label otherwise)
    Stmt.emitAll sc no
    put (.label join)
  | .assign x k e note => do
    put (.ins .mov (some ⟨x, k⟩) [← e.emit sc] { typed := false, remark := note })
  | .store p i => do i.emit sc (← p.emit sc)
  | .trap => put (.ins .trap none [])

def Stmt.emitAll (sc : Surroundings) : List Stmt → Gen Unit
  | [] => return
  | s :: ss => do
    s.emit sc
    Stmt.emitAll sc ss

end

def Fn.prologue (f : Fn) : List Line :=
  .label "entry" :: f.params.map fun p => .ins .poparg (some ⟨p.1, p.2⟩) []

def Fn.emit (f : Fn) : Res (List Line) := do
  let (_, _, lines) ← Stmt.emitAll {} f.body (f.names, #[])
  return f.prologue ++ lines.toList

def Fn.header (f : Fn) : String :=
  let kinds ks := bracketed (ks.map Kind.name)
  s!".fun {f.name} NORMAL {kinds f.result.toList} = {kinds (f.params.map Prod.snd)}"

end Core

/-! ## From programs to the core language -/

structure LowerEnv where
  records : Records
  name : String → String → String
  param : String → String

/-- Lowering counts the places without a name. -/
abbrev LowerM := StateT Nat Res
def LowerM.next : LowerM Nat := modifyGet fun n => (n, n + 1)

/-- An expression in each of the ways in which it may be used. -/
structure Lowered where
  value : LowerM Core.Expr
  place : LowerM Core.Place
  init : LowerM Core.Init
  cond : LowerM Core.Cond

inductive Destination where
  | register | memory

namespace LowerEnv
variable (env : LowerEnv)

def layout (t : Ty) : Res Layout := env.records.layout t

variable (t : Ty)

def kind : Res Kind := do need "value in one register" (← env.layout t).kind?

def onStack (isRef : Bool) (t : Ty) : Res Bool := do
  return isRef || (← env.layout t).kind?.isNone

def symValue : Sym → Res Core.Expr
  | .global m s _ => return .global (env.name m s) (← env.kind t)
  | .param s => return .var (env.param s) (← env.kind t)
  | .var _ s _ isRef => do
    if ← env.onStack isRef t then return .stack s (← env.kind t) else return .var s (← env.kind t)
  | _ => .error .missingPart

def symPlace : Sym → Res Core.Place
  | .global m s _ => return .global (env.name m s)
  | .var _ s _ isRef => do
    ensure (← env.onStack isRef t) "place in a register"
    return .stack s
  | _ => broken "place in a register"

def callee : Sym → Res String
  | .fn m s => return env.name m s
  | _ => broken "call of no function"

def inReg : Sym → Res Bool
  | .global .. => return false
  | .param _ => return true
  | .var _ _ _ isRef => return !(← env.onStack isRef t)
  | _ => broken "no place"

def register : Expr → Res (Option (String × Kind))
  | .id n _ (.var _ x _ isRef) => do
    if isRef then return none else return (← env.layout n.ty).kind?.map (x, ·)
  | .id n _ (.param x) => return (← env.layout n.ty).kind?.map (env.param x, ·)
  | _ => return none

def numeral (n : Note) : Res Core.Expr := do
  match n.value with
  | some v => return .lit (.ofInt (← env.kind n.ty) (← orFault (.malformed v.text) v.int?))
  | none => broken "no value"

def binaryValue (op : BinaryOp) (a b : Core.Expr) : Res Core.Expr := do
  let k ← env.kind t
  let plain := [(BinaryOp.add, Op.add), (.sub, .sub), (.mul, .mul), (.div, .div), (.mod, .rem),
    (.and, .and), (.or, .or), (.xor, .xor), (.shl, .shl), (.shr, .shr)]
  match op with
  | .min => return .binary .cmplt k a b [false, true, false, true]
  | .max => return .binary .cmplt k a b [false, true, true, false]
  | op => return .binary (← need "operation" (plain.lookup op)) k a b [false, true]

/-- The number of bytes by which an index moves a pointer of the given type. -/
def scale : Res Int := do
  let l ← env.layout (← need "pointer" t.pointee?)
  alignUp l.size l.align

def conversion (source tgt : Ty) : Res (Option Kind) := do
  match source, tgt with
  | .base _, .base _ => return some (← env.kind tgt)
  | .ptr .., .ptr .. => return none
  | _, _ => broken "conversion"

def recordParts (inits : List Core.Init) (fs : List (PlacedField × Option Expr)) :
  Res Core.Init := do
  let step (f : PlacedField × Option Expr) (acc : Core.Init × List Core.Init) :
      Res (Core.Init × List Core.Init) :=
    match f.2, acc.2 with
    | none, is => .ok (.part f.1.off (.zero f.1.layout.size f.1.layout.align) acc.1, is)
    | some _, i :: is => .ok (.part f.1.off i acc.1, is)
    | some _, [] => broken "part of a value"
  return (← fs.foldrM step (Core.Init.nothing, inits.reverse)).1

end LowerEnv

def itemParts (size : Int) : List (Nat × Core.Init) → Core.Init
  | [] => .nothing
  | (k, i) :: rest => .part (size * k) i (itemParts size rest)

def unusable {α : Type} (why : String) : LowerM α := throw (.broken why)

section
variable (env : LowerEnv)

mutual

def Expr.lower (e : Expr) : Lowered :=
  let note := e.note
  -- The value has to fit in a register, unless there is none.
  let fits v := do
    ensure ((← env.layout note.ty).kind?.isSome || note.ty == .base .void) "value in one register"
    v
  let result : Res (Option Kind) :=
    if note.ty == .base .void then return none else some <$> env.kind note.ty
  let sized i := do
    ensure ((← env.layout note.ty).size > 0) "no size"
    i
  let stored v := sized (return .value (← v))
  let copied p := sized do
    let p ← p
    let l ← env.layout note.ty
    return .copy p l.size l.align
  let decided c :=
    match note.value with
    | some (.truth b) => return .known b
    | _ => c
  let tested v := decided (return .test (← v))
  let noPlace := unusable "place"
  let noCond := decided (unusable "condition")
  let ofInit why i := ⟨unusable why, noPlace, i, noCond⟩
  let ofValue (v : LowerM Core.Expr) : Lowered := ⟨fits v, noPlace, stored (fits v), noCond⟩
  match e with
  | .num n _ => ofValue (env.numeral n)
  | .truth _ b => ofValue (return .lit (.ofInt .u8 (if b then 1 else 0)))
  | .void _ => { ofValue (return .void) with init := unusable "no size" }
  | .undef _ => ofInit "no value" (unusable "no value")
  | .auto _ => ofInit "no value" <| sized do
    let l ← env.layout note.ty
    return .zero l.size l.align
  | .id n s y =>
    let value := fits (env.symValue n.ty y)
    let place : LowerM Core.Place := env.symPlace n.ty y
    let init := do if ← env.inReg n.ty y then stored value else copied place
    let cond := decided do
      match y with
      | .var .. | .param _ => do
        ensure (n.ty == .base .bool) "condition"
        return .var s
      | _ => unusable "condition"
    ⟨value, place, init, cond⟩
  | .addrOf _ _ x => ofValue (return .addr (← x.lower.place))
  | .front _ _ x => ofValue do
    ensure (x.ty matches .array ..) "array"
    return .addr (← x.lower.place)
  | .deref _ x =>
    let value := fits do
      let v ← x.lower.value
      return .deref (← env.kind note.ty) v
    let place := return .deref (← x.lower.value)
    ⟨value, place, copied place, tested value⟩
  | .field _ x s =>
    let off : LowerM Int := do
      match x.ty with
      | .union .. => return 0
      | t => return (← need "field" (← env.records.field t s)).off
    let value := fits do
      let n ← off
      let p ← x.lower.place
      return .field (← env.kind note.ty) p s n
    let place := do return .field (← x.lower.place) (← off)
    ⟨value, place, copied place, tested value⟩
  | .pointer _ back x i _ => ofValue do
    let v ← x.lower.value
    ensure (!back) "operation"
    let scale ← env.scale x.ty
    match i.value with
    | some w => return .step v ((← w.number) * scale)
    | none => return .advance v (← i.lower.value) scale
  | .unary _ op x =>
    let value := fits do
      let v ← x.lower.value
      let k ← env.kind note.ty
      ensure note.ty.isBase "operation"
      return .unary op k v
    let cond := decided do
      ensure (op == .not) "condition"
      return .not (← x.lower.cond)
    ⟨value, noPlace, stored value, cond⟩
  | .binary _ op a b =>
    let value := fits do
      let x ← a.lower.value
      env.binaryValue note.ty op x (← b.lower.value)
    let cond := decided do
      match op with
      | .andThen => return .joined true (← a.lower.cond) (← b.lower.cond)
      | .orElse => return .joined false (← a.lower.cond) (← b.lower.cond)
      | op => do
        ensure (← env.layout a.ty).kind?.isSome "value in one register"
        let x ← a.lower.value
        let y ← b.lower.value
        let (yes, no) ← defined op.name (Core.branches? op)
        return .compare yes no x y e.text
    ⟨value, noPlace, stored value, cond⟩
  | .call _ _ y as =>
    let value := fits do
      let vs ← (Expr.lowerAll as).mapM Lowered.value
      if as.any fun a => a.ty == .base .void then throw .missingPart
      else
        return .call (← env.callee y) vs (← result)
    ⟨value, noPlace, stored value, tested value⟩
  | .cast _ x _ _ =>
    let value := fits do
      match ← env.conversion x.ty note.ty with
      | some k => return .conv k (← x.lower.value)
      | none => x.lower.value
    ⟨value, noPlace, stored value, noCond⟩
  | .recVal _ _ is => ofInit "record" <| sized do
    match note.ty with
    | .record m s =>
      let l ← env.layout note.ty
      if is.isEmpty then return .zero l.size l.align
      else
        let inits ← (Expr.lowerAll is).mapM Lowered.init
        LowerEnv.recordParts inits (recordItems (← env.records.fields m s) is)
    | _ => unusable "record"
  | .fieldVal _ x _ _ => ofInit "part" do
    -- A part is only ever stored, and only if it has a size.
    if x.isUndef then return .nothing
    else if (← env.layout x.ty).size == 0 then return .nothing
    else x.lower.init
  | .idxVal _ x _ => ofInit "part" (if x.isUndef then return .nothing else x.lower.init)
  | .arrayVal n _ _ is => ofInit "array" <| sized do
    match note.ty with
    | .array dim _ =>
      let l ← env.layout note.ty
      let _ ← arrayItems n.place dim is
      let places ← placeItems 0 is
      let inits ← (Expr.lowerAll is).mapM Lowered.init
      return itemParts (l.size / dim) ((places.map Prod.fst).zip inits)
    | _ => unusable "array"
  | .stmts _ _ b =>
    let value := fits do
      let body ← Stmt.lowerAll .register b
      return .stmts (← result) body
    let place := do
      let l ← env.layout note.ty
      ensure (l.size > 0) "no size"
      return .stmts (← LowerM.next) l.size l.align (← Stmt.lowerAll .memory b)
    let init := sized (return .stmts (← Stmt.lowerAll .memory b))
    ⟨value, place, init, tested value⟩
  | .str .. | .idx .. | .len .. | .choice .. => ofInit "form" (unusable "form")

def Expr.lowerAll : List Expr → List Lowered
  | [] => []
  | e :: es => e.lower :: Expr.lowerAll es

def Stmt.lower (dst : Destination) : Stmt → LowerM Core.Stmt
  | .define v e => do
    let l ← env.layout v.ty
    if l.size == 0 && !e.isUndef then return .eval (← e.lower.value)
    else if ← env.onStack v.isRef v.ty then
      ensure (l.size > 0) "no size"
      if e.isUndef then return .reserve v.name l.size l.align
      else return .place v.name l.size l.align (← e.lower.init)
    else
      let k ← env.kind v.ty
      if e.isUndef then return .declare v.name k
      else return .define v.name k (← e.lower.value)
  | .blk _ k l b => return .blk k l (← Stmt.lowerAll dst b)
  | .defer .. => unusable "defer"
  | .cond _ c t e => do
    let c ← c.lower.cond
    return .cond c (← Stmt.lowerAll dst t) (← Stmt.lowerAll dst e)
  | .jump _ again _ k l => return .jump again k l
  | .ret _ e f => do
    let isVoid := e.ty == .base .void
    match f, dst with
    | .fn, _ => return .leave (← e.lower.value) isVoid
    | .expr _, .register => return .give (← e.lower.value) isVoid
    | .expr _, .memory =>
      if isVoid then return .give (← e.lower.value) true
      else return .giveInto (← e.lower.init)
  | .shed _ e => do
    let l ← env.layout e.ty
    if l.kind?.isSome || e.ty == .base .void then return .eval (← e.lower.value)
    else
      ensure (l.size > 0) "no size"
      return .discard (← LowerM.next) l.size l.align (← e.lower.init)
  | .trap _ => return .trap
  | .assign _ l r => do
    let note := s!"[=] {l.text} = {r.text}"
    match ← env.register l with
    | some (x, k) => return .assign x k (← r.lower.value) note
    | none => return .store (← l.lower.place) (← r.lower.init)

def Stmt.lowerAll (dst : Destination) : List Stmt → LowerM (List Core.Stmt)
  | [] => return []
  | s :: ss => return (← s.lower dst) :: (← Stmt.lowerAll dst ss)

end

def FnDef.paramNames (f : FnDef) : List (String × String) × Core.Names :=
  let step acc p := (acc.1 ++ [(p.name, acc.2.next p.name)], acc.2.take p.name)
  f.params.foldl step ([], Core.Names.free.take "entry")

/-- Lower a function. Parameters and results have to fit in registers. -/
def FnDef.lower (records : Records) (name : String → String → String) (module : String)
  (f : FnDef) : Res Core.Fn := do
  let (params, names) := f.paramNames
  let env := ⟨records, name, fun x => (params.lookup x).getD x⟩
  let kindOf t : Res Kind := do defined "large argument" (← env.layout t).kind?
  let ps ← f.params.mapM fun p => do return (env.param p.name, ← kindOf p.ty)
  let result ← if f.resultTy == .base .void then pure none else some <$> kindOf f.resultTy
  let (body, _) ← (Stmt.lowerAll env .register f.body).run 0
  return { name := name module f.name, params := ps, result, names, body }

end

/-! ## Memory and code -/

open Text Expr List

/-! ## Memory regions -/

def byteRuns : List UInt8 → List (Nat × UInt8)
  | [] => []
  | b :: bs =>
    match byteRuns bs with
    | (n, c) :: rest => if b == c then (n + 1, c) :: rest else (1, b) :: (n, c) :: rest
    | [] => [(1, b)]

def dataText (bs : List UInt8) (remark : String) : List String × Nat :=
  let line (n : Nat) (what : String) := s!".data {n} {what}  # {remark}"
  let run p := line p.1 s!"[{p.2.toNat}]"
  match byteRuns bs with
  | [] => ([line 0 "[]"], 0)
  | [p] => ([run p], bs.length)
  | ps => (if bs.length < 100 then [line 1 (quote bs)] else ps.map run, bs.length)

def BaseKind.encode (k : BaseKind) : Value → Res (List UInt8)
  | .undef => return replicate k.size 0
  | v =>
    match k, v with
    | .bool, .truth b => return [if b then 1 else 0]
    | .bool, v => do return [if (← v.number) == 0 then 0 else 1]
    | k, v => do
      match k.kinds with
      | [kind] => (Lit.ofInt kind (← v.number)).toBytes
      | _ => broken "type of a constant"

def padding (n : Nat) (remark : String) : List String × Nat := dataText (replicate n 0x6f) remark
abbrev DataText := Res (List String × Nat)

def arrayBytes (dim : Nat) (k : BaseKind) : Option Value → Res (List UInt8)
  | some (.array vs) => do
    ensure (vs.length == dim) "length of an array"
    return (← vs.mapM k.encode).flatten
  | _ => .error .missingPart

section Data
variable (rs : Records) (name : String → String → String)
  (known : String → String → Ty → Nat → DataText)

def undefData (t : Ty) (off : Nat) : DataText := do
  let l ← rs.layout t
  return dataText (replicate l.size.toNat 0) s!"{off} undef={t.codeName}"

mutual

def Expr.data (t : Ty) (off : Nat) (e : Expr) : DataText := do
  if t == .base .void then return ([], 0)
  let l ← rs.layout t
  ensure ((← alignUp off l.align) == off) "alignment"
  let base k : DataText := do
    let v ← orFault .missingPart e.value
    return dataText (← k.encode v) s!"{off} {t.codeName}"
  match e, t with
  | .undef _, t => undefData rs t off
  | .id _ _ (.global m s _), t => known m s t off
  | .id .., _ => broken "constant"
  | .front _ _ (.id _ _ (.global m s _)), _ =>
    return ([s!".addr.mem {addrSize} {name m s} 0"], addrSize)
  | .front .., _ => broken "constant"
  | _, .base k => base k
  | .str n .., .array dim _ =>
    let (lines, size) :=
      dataText (← arrayBytes dim .u8 n.value) s!"{off} {t.codeName}"
    return (("# array: " ++ t.codeName) :: lines, size)
  | .arrayVal n _ _ is, .array dim u =>
    let first := "# array: " ++ t.codeName
    match u with
    | .base k =>
      let (lines, size) := dataText (← arrayBytes dim k n.value) t.codeName
      return (first :: lines, size)
    | u =>
      let stride := l.size.toNat / dim
      ensure (stride * dim == l.size) "size of an array"
      let _ ← arrayItems n.place dim is
      let texts := itemData u is
      let places ← placeItems 0 is
      -- An element without a value has that of the element before it.
      let step acc k := do
        let text := (((places.map Prod.fst).zip texts).lookup k).getD acc.2
        let (lines, size) ← text (off + k * stride)
        let pad := if size == stride then [] else
          (padding (stride - size) s!"{(stride - size : Nat)} padding").1
        return (acc.1 ++ lines ++ pad, text)
      let (lines, _) ← (range dim).foldlM step ([], undefData rs u)
      return (first :: lines, l.size.toNat)
  | .auto _, .record .. => return dataText (replicate l.size.toNat 0) s!"{l.size} zero"
  | .recVal n _ is, .record .. =>
    match n.ty with
    | .record m s =>
      let texts := fieldData is
      let step acc f : Res (List String × Nat) := do
        let (before, here) := if f.1.off > acc.2 then
          padding (f.1.off - acc.2).toNat s!"{(off + acc.2 : Nat)} padding"
          else ([], 0)
        let here := acc.2 + here
        let (lines, size) ← match texts.lookup f.1.name with
          | some text => text f.1.ty (off + here)
          | none => pure (dataText (replicate f.1.layout.size.toNat 0) f.1.ty.codeName)
        return (acc.1 ++ before ++ lines, here + size)
      let (lines, size) ← (recordItems (← rs.fields m s) is).foldlM step ([], 0)
      return (("# record: " ++ t.codeName) :: lines, size)
    | _ => broken "record"
  | _, _ => broken "constant"

def Expr.itemData (t : Ty) : List Expr → List (Nat → DataText)
  | .idxVal _ e _ :: es => (fun off => e.data t off) :: itemData t es
  | _ :: es => (fun _ => broken "part of a value") :: itemData t es
  | [] => []

def Expr.fieldData : List Expr → List (String × (Ty → Nat → DataText))
  | .fieldVal _ e _ s :: es =>
    if e.isUndef then fieldData es
    else (s, fun t off => e.data t off) :: fieldData es
  | _ :: es => fieldData es
  | [] => []

end
end Data

/-- The initial value of a variable, with variables that are mentioned in it to a depth of `d`. -/
def globalData (rs : Records) (name : String → String → String)
    (inits : List ((String × String) × Expr)) : Nat → String → String → Ty → Nat → DataText
  | 0, _, _, _, _ => broken "constant"
  | d + 1, m, s, t, off => do
    let e ← need "constant" (inits.lookup (m, s))
    e.data rs name (globalData rs name inits d) t off

def GlobalDef.text (rs : Records) (name : String → String → String)
  (inits : List ((String × String) × Expr)) (module : String) (g : GlobalDef) :
  Texts := do
  if g.ty == .base .void then return []
  let l ← rs.layout g.ty
  let first := s!".mem {name module g.name} {l.align}" ++ (if g.isMut then " RW" else " RO")
  let (lines, _) ← globalData rs name inits (inits.length + 1) module g.name g.ty 0
  return "" :: first :: lines

def FnDef.text (rs : Records) (name : String → String → String) (module : String) (f : FnDef) :
  Texts := do
  if f.isExtern then return []
  let core ← f.lower rs name module
  return "" :: "" :: core.header :: (← core.emit).map Line.text

/-! ## Programs -/

/-! ## The order of modules -/

section Order
variable {α : Type} [DecidableEq α] [Min α] (ms : List (α × List α))

/-- What a module imports, as often as it does. -/
def imports (m : α) : List α := ms.flatMap fun p => if p.1 = m then p.2 else []

/-- The modules that import `x`, as often as they do. -/
def importers (x : α) : List α := ms.flatMap fun p => List.replicate (p.2.count x) p.1

/-- One import of `x` is met. A module without others can be next. -/
def settle (x : α) (s : (α → List α) × List α) (m : α) : (α → List α) × List α :=
  let rest := (s.1 m).erase x
  (fun k => if k = m then rest else s.1 k, if rest = [] then m :: s.2 else s.2)

/-- The next `n` modules, from the imports that are not met yet and the modules that can be next. -/
def orderFrom : Nat → (α → List α) × List α → Res (List α)
  | 0, _ => .ok []
  | n + 1, (waits, ready) => do
    let x ← need "import cycle" ready.min?
    return x :: (← orderFrom n ((importers ms x).foldl (settle x) (waits, ready.erase x)))

/-- Modules with their imports, each after those that it imports. The least one that can be next is. -/
def inOrder : Res (List α) :=
  orderFrom ms ms.length (imports ms, (ms.map Prod.fst).filter fun m => imports ms m = [])

end Order

variable (ms : List Module)

/-- The names that modules without imports see besides their own. -/
def builtinSyms : Res (List (String × Sym)) :=
  match ms.filter Module.isBuiltin with
  | [] => return []
  | [m] => return m.syms
  | _ => broken "two builtin modules"

def Def.reduced (env : TypeEnv) (d : Def) : StateT Nat Res Def := do
  match ← d.simplified env with
  | .fn f => do
    let body ← Stmt.visitAll replaceTest pure f.body
    let f ← modifyGet { f with body }.undefer
    checkUndeferred f
    return .fn f
  | d => return d

def Module.expanded (m : Module) : StateT (Nat × Pool) Res Module := fun (next, pool) => do
  let (defs, pool) ← (m.defs.mapM (Def.walk moveArray (fun _ => pure) pure)).run pool
  let step d : StateT Nat Res Def := do
    match d with
    | .fn f => if f.isExtern then return d else return .fn (← modifyGet f.expanded)
    | d => return d
  let (defs, next) ← (defs.mapM step).run next
  return ({ m with defs }, next, pool)

def Def.renamed : Def → Res Def
  | .fn f => return .fn (← f.renamed)
  | d => return d

def codeName (module s : String) : String :=
  let isPlain := ms.any fun m => m.name == module && m.defs.any fun
    | .fn f => f.isPlain && f.name == s
    | .global g => g.isPlain && g.name == s
    | _ => false
  if isPlain then s else s!"{module}/{s}"

def Module.text (rs : Records) (ms : List Module) (m : Module) : Texts := do
  let inits := ms.flatMap fun m => m.defs.filterMap fun
    | .global g => some ((m.name, g.name), g.init)
    | _ => none
  let globals ← m.defs.mapM fun
    | .global g => g.text rs (codeName ms) inits m.name
    | _ => pure []
  let fns ← m.defs.mapM fun
    | .fn f => f.text rs (codeName ms) m.name
    | _ => pure []
  return globals.flatten ++ fns.flatten

def compileModules : Texts := do
  ensure (ms.map Module.name).Nodup "names of modules"
  let named p := (ms.filter (·.path == p)).map Module.name
  let names ← @inOrder String _ minOfLe (ms.map fun m => (m.name, m.imports.flatMap named))
  let ms := names.flatMap fun s => ms.filter (·.name == s)
  let builtin ← builtinSyms ms
  let (ms, next) ← (ms.mapM (Module.resolve builtin)).run 0
  let (env, ms) ← typeModules builtin ms
  let ms ← foldModules env.records ms
  let reduced m : StateT Nat Res Module :=
    return { m with defs := ← m.defs.mapM (Def.reduced env) }
  let (ms, next) ← (ms.mapM reduced).run next
  let (ms, _, pool) ← (ms.mapM Module.expanded).run (next, [])
  let constants := { name := generated, defs := pool.reverse.map .global }
  let ms ← (constants :: ms).mapM fun m => do return { m with defs := ← m.defs.mapM Def.renamed }
  return (← ms.mapM (Module.text env.records ms)).flatten

/-- Read modules and what they import, in no more than `n` steps. -/
def readAll (read : String → Res Module) : Nat → List String → List Module → Res (List Module)
  | 0, _, ms | _, [], ms => .ok ms
  | n + 1, path :: paths, ms => do
    if ms.any (·.path == path) then readAll read n paths ms
    else
      let m ← read path
      readAll read n (paths ++ m.imports) (ms ++ [m])

/-- Compile the module `main`, from the paths of modules and their texts. -/
def compile (texts : List (String × String)) : Texts := do
  -- A word is inside of no more words than there are, and of no more than that in each expansion.
  let n := 9 * (String.join (texts.map Prod.snd)).length
  let read macros path := do
    readModule n macros path (← defined path (texts.lookup path))
  let (builtin, macros) ← read [] "Lib/builtin"
  compileModules (← readAll (Prod.fst <$> read macros ·) n ("main" :: builtin.imports) [builtin])

end Retarget.FrontEnd
