import Retarget.FrontEnd.Syntax
import Retarget.IR.Literal

/-!
# Symbols and types

Names are looked up in the scopes around them, then in their module and then among the built-in
definitions. Local variables, blocks and expressions with statements are numbered.

A type is laid out when it is first met, after the types in it. What holds a record in the record's
own fields is laid out before the record is.
-/

namespace Retarget.FrontEnd
open IR (Kind)

def alignUp (n align : Int) : Res Int :=
  if align = 0 then .error .divByZero else .ok (Int.fdiv (n + align - 1) align * align)

/-- How much room a type takes. Without a list of registers it is only held in memory. -/
structure Layout where
  size : Int
  align : Int
  regs : Option (List Kind)

def Layout.kind? (l : Layout) : Option Kind :=
  match l.regs with
  | some [k] => some k
  | _ => none

def BaseKind.kinds : BaseKind → List Kind
  | s8 => [.s8] | s16 => [.s16] | s32 => [.s32] | s64 | sint => [.s64]
  | u8 | bool => [.u8] | u16 => [.u16] | u32 => [.u32] | u64 | uint => [.u64]
  | void => []

def addrSize : Nat := 8
def addrKind : Kind := .a64

/-- A record, by its module and name, with the types of its fields. -/
structure RecordType where
  module : String
  name : String
  fields : List (String × Ty)

structure PlacedField where
  name : String
  ty : Ty
  off : Int
  layout : Layout

/-- Registers of a record: those of its fields, if there are one or two fields and together they
take no more than two registers. -/
def recordRegs : List PlacedField → Option (List Kind)
  | [f] => f.layout.regs
  | [f, g] =>
    match f.layout.regs, g.layout.regs with
    | some a, some b => if a.length + b.length ≤ 2 then some (a ++ b) else none
    | _, _ => none
  | _ => none

def placeFields (layout : Ty → Res Layout) : Int → List (String × Ty) → Res (List PlacedField)
  | _, [] => .ok []
  | size, (name, ty) :: rest => do
    let l ← layout ty
    let off ← alignUp size l.align
    return ⟨name, ty, off, l⟩ :: (← placeFields layout (off + l.size) rest)

def recordLayout (fs : List PlacedField) : Layout where
  size := match fs.getLast? with
    | some f => f.off + f.layout.size
    | none => 0
  align := fs.foldl (fun a f => max a f.layout.align) 1
  regs := recordRegs fs

def Layout.times (l : Layout) (dim : Nat) : Res Layout :=
  return ⟨(← alignUp l.size l.align) * dim, l.align, none⟩

def Layout.either (l k : Layout) : Layout :=
  ⟨max 0 (max l.size k.size), max 1 (max l.align k.align), none⟩

def Layout.tagged (l : Layout) : Res Layout :=
  return ⟨(← alignUp 2 (max l.align 2)) + l.size, max l.align 2, none⟩

/-- The records of a program, and what has been laid out so far, the latest first. -/
structure Records where
  types : List RecordType
  laid : List (Ty × Layout) := []
  placed : List ((String × String) × List PlacedField) := []

namespace Records
variable (rs : Records)

def known (t : Ty) (other : Res Layout) : Res Layout :=
  match rs.laid.lookup t with
  | some l => .ok l
  | none => other

/-- The layout of a type when it was met, or of the last members of a union without a tag. -/
def sized (last : Bool) : Ty → Res Layout
  | .unset => broken "no type"
  | .base k => .ok ⟨k.size, k.size, some k.kinds⟩
  | .ptr .. => .ok ⟨addrSize, addrSize, some [addrKind]⟩
  | .slice .. => .ok ⟨addrSize + 8, addrSize, some [addrKind, .u64]⟩
  | .array dim t => rs.known (.array dim t) (do (← sized false t).times dim)
  | .record m n => rs.known (.record m n) (unknown n)
  | .union t rest => do
    let room := do return (← sized false t).either (← sized true rest)
    if last then room else rs.known (.union t rest) (do (← room).tagged)
  | .untagged t rest =>
    rs.known (.untagged t rest) (do return (← sized false t).either (← sized false rest))

/-- The layout of a type in generated code, where slices and unions have become records. -/
def layout : Ty → Res Layout
  | .slice isMut t => recordLayout <$>
    placeFields (rs.sized false) 0 [("pointer", .ptr isMut t), ("length", .base .u64)]
  | .union t rest => recordLayout <$>
    placeFields (rs.sized true) 0 [("tag", .base .u16), ("union", .union t rest)]
  | .array dim t =>
    if t.isReplaced then do (← layout t).times dim else rs.sized false (.array dim t)
  | t => rs.sized false t

def fields (m n : String) : Res (List PlacedField) := defined n (rs.placed.lookup (m, n))

def field (t : Ty) (name : String) : Res (Option PlacedField) := do
  match t with
  | .record m n => return (← rs.fields m n).find? (·.name == name)
  | _ => broken "field of no record"

abbrev Meeting := StateT Records Res Unit

def layOut (t : Ty) : Meeting := fun rs => do
  return ((), { rs with laid := (t, ← rs.sized false t) :: rs.laid })

def meet (record : String → String → Meeting) (last : Bool) : Ty → Meeting
  | .ptr _ t | .slice _ t => meet record false t
  | .array dim t => do
    meet record false t
    layOut (.array dim t)
  | .union t rest => do
    meet record false t
    meet record true rest
    if !last then layOut (.union t rest)
  | .untagged t rest => do
    meet record false t
    meet record false rest
    layOut (.untagged t rest)
  | .record m n => record m n
  | _ => return

/-- Lay out a record, with no more than `d` records in one another. -/
def meetRecord : Nat → String → String → Meeting
  | 0, _, _ => return
  | d + 1, m, n => do
    let rs ← get
    if (rs.laid.lookup (.record m n)).isSome then return
    let r ← defined n (rs.types.find? fun r => r.module == m && r.name == n)
    -- What asks for the registers of a small record before they are known has no answer.
    let regs := if r.fields.length ≤ 2 then some [] else none
    set { rs with laid := (.record m n, ⟨-1, -1, regs⟩) :: rs.laid }
    r.fields.forM fun f => meet (meetRecord d) false f.2
    let rs ← get
    let fs ← placeFields (rs.sized false) 0 r.fields
    if fs.length ≤ 2 && fs.any (·.layout.regs == some []) then
      throw (if fs.any (·.ty == .record m n) then .endless else .broken "record in itself")
    set { rs with laid := (.record m n, recordLayout fs) :: rs.laid
                  placed := ((m, n), fs) :: rs.placed }

def meetAll (ts : List Ty) : Meeting := do
  let d := (← get).types.length + 1
  ts.forM (meet (meetRecord d) false)

end Records

/-! ## Types as they are written -/

section
variable (place : String) (find? : String → Option Sym)

def TypeExpr.toTy : TypeExpr → Res Ty
  | base k => .ok (.base k.canonical)
  | ptr isMut t => return .ptr isMut (← t.toTy)
  | slice isMut t => return .slice isMut (← t.toTy)
  | array size t => do
    let t ← t.toTy
    let digits := String.ofList (size.toList.filter (· != '_'))
    match integer? digits with
    | some (.ofNat n) => return .array n t
    | some _ => broken "negative size"
    | none => .error (.malformed size)
  | id name =>
    match find? name with
    | some (.record m n) => .ok (.record m n)
    | _ => illFormed place
  | union isTagged t rest => do
    let members := if isTagged then Ty.members else Ty.untaggedMembers
    let ts := members (← t.toTy) ++ members (← rest.toTy)
    return .ofMembers isTagged (ts.eraseDups.mergeSort fun a b => !(b.name < a.name))
  | delta t part => do
    let t ← t.toTy
    let part ← part.toTy
    let gone := if part matches .untagged .. then part.untaggedMembers else part.members
    match t with
    | .union .. => return .ofMembers true (t.members.removeAll gone)
    | .untagged .. => return .ofMembers false (t.untaggedMembers.removeAll gone)
    | _ => broken "no union"
  | auto => broken "no type"

def TypeExpr.canonical (t : TypeExpr) : Res Ty := do
  let t ← t.toTy place find?
  ensure (t.isReplaceable false) "pointer to a union"
  return t

end

/-! ## Compatibility -/

namespace Ty

def suits (isMut : Bool) (actual expected : Ty) : Bool :=
  actual == expected ||
    match actual, expected with
    | slice m a, slice k b => a == b && m || !k
    | array _ a, slice k b => a == b && (!k || isMut)
    | ptr _ a, ptr k b => a == b && !k
    | untagged .., union .. | union .., untagged .. => false
    | a, union t rest => a.members.all (union t rest).members.contains
    | a, untagged t rest => a.untaggedMembers.all (untagged t rest).untaggedMembers.contains
    | _, _ => false

/-- The type is the other one, or that without leave to write. -/
def sameButMut (actual expected : Ty) : Bool :=
  actual == expected ||
    match actual, expected with
    | slice true a, slice false b | ptr true a, ptr false b => a == b
    | _, _ => false

inductive Conversion where
  | none | toSlice | toUnion

def conversion? (actual expected : Ty) : Option Conversion :=
  if actual.sameButMut expected then some .none
  else
    match actual, expected with
    | array .., slice .. => some .toSlice
    | _, union .. | _, untagged .. => some .toUnion
    | _, _ => Option.none

def comparable (a b : Ty) : Bool := (a.isBase || a matches .ptr ..) && a == b

def converts : Ty → Ty → Bool
  | base a, base b => a.isInt && (b.isInt || b == .bool)
  | ptr ma a, ptr mb b => if a == b then !mb else ma == mb
  | _, _ => false

end Ty

/-! ## Symbols -/

def Module.syms (m : Module) : List (String × Sym) :=
  m.defs.map fun
    | .fn d => (d.name, .fn m.name d.name)
    | .global d => (d.name, .global m.name d.name d.isMut)
    | .record d => (d.name, .record m.name d.name)
    | .enum d => (d.name, .record m.name d.name)

structure Scope where
  here : List (String × Sym)
  builtin : List (String × Sym)
  /-- The local variables of the scopes that are open, innermost first. -/
  locals : List (List (String × Sym)) := []
  blks : List (Nat × String) := []
  frame : Frame := .fn

namespace Scope
variable (c : Scope)

def find? (name : String) : Option Sym := (c.locals.flatten ++ c.here ++ c.builtin).lookup name

def add (place name : String) (s : Sym) : Res Scope :=
  if ((c.locals.flatten ++ c.here).lookup name).isSome then illFormed place
  else .ok { c with locals := ((name, s) :: c.locals.headD []) :: c.locals.tail }

def enter : Scope := { c with locals := [] :: c.locals }

def tgt (name : String) : Res (Nat × String) :=
  need "no block" (c.blks.find? fun b => name == "" || b.2 == name)

end Scope

def Expr.checkAddressable : Expr → Res Unit
  | .id n _ (.var _ _ _ isRef) => if isRef then .ok () else illFormed n.place
  | .id _ _ (.global ..) => .ok ()
  | .id n .. => illFormed n.place
  | .idx _ e _ | .field _ e _ => e.checkAddressable
  | .deref .. => .ok ()
  | _ => broken "address"

def nextNum : StateT Nat Res Nat := modifyGet fun n => (n, n + 1)

def Scope.value (c : Scope) (place name : String) : Res Sym :=
  match c.find? name with
  | none | some (.record ..) => illFormed place
  | some s => .ok s

mutual

def Expr.resolve (c : Scope) : Expr → StateT Nat Res Expr
  | .id n s _ => return .id n s (← c.value n.place s)
  | .addrOf n b e => do
    let e ← e.resolve c
    e.checkAddressable
    return .addrOf n b e
  | .deref n e => return .deref n (← e.resolve c)
  | .field n e s => return .field n (← e.resolve c) s
  | .idx n e i => return .idx n (← e.resolve c) (← i.resolve c)
  | .front n b e => return .front n b (← e.resolve c)
  | .len n e => return .len n (← e.resolve c)
  | .pointer n b e i u => return .pointer n b (← e.resolve c) (← i.resolve c) (← u.resolve c)
  | .unary n o e => return .unary n o (← e.resolve c)
  | .binary n o a b => return .binary n o (← a.resolve c) (← b.resolve c)
  | .choice n x a b => return .choice n (← x.resolve c) (← a.resolve c) (← b.resolve c)
  | .call n s _ as => return .call n s (← c.value n.place s) (← Expr.resolveAll c as)
  | .cast n e t y => return .cast n (← e.resolve c) t y
  | .fieldVal n e s t => return .fieldVal n (← e.resolve c) s t
  | .recVal n t is => return .recVal n t (← Expr.resolveAll c is)
  | .idxVal n e i => return .idxVal n (← e.resolve c) (← i.resolve c)
  | .arrayVal n s t is => return .arrayVal n (← s.resolve c) t (← Expr.resolveAll c is)
  | .stmts n _ b => do
    let k ← nextNum
    return .stmts n k (← Stmt.resolveAll { c.enter with frame := .expr k } b)
  | e => return e

def Expr.resolveAll (c : Scope) : List Expr → StateT Nat Res (List Expr)
  | [] => return []
  | e :: es => return (← e.resolve c) :: (← Expr.resolveAll c es)

def Stmt.resolve (c : Scope) : Stmt → StateT Nat Res (Stmt × Scope)
  | .define v e => do
    let k ← nextNum
    let c ← c.add v.place v.name (.var k v.name v.isMut v.isRef)
    return (.define { v with no := k } (← e.resolve c), c)
  | .blk p _ l b => do
    let k ← nextNum
    return (.blk p k l (← Stmt.resolveAll { c.enter with blks := (k, l) :: c.blks } b), c)
  | .defer p b => return (.defer p (← Stmt.resolveAll c.enter b), c)
  | .cond p x t e => do
    let x ← x.resolve c
    return (.cond p x (← Stmt.resolveAll c.enter t) (← Stmt.resolveAll c.enter e), c)
  | .jump p a s _ _ => do
    let (k, l) ← c.tgt s
    return (.jump p a s k l, c)
  | .ret p e _ => return (.ret p (← e.resolve c) c.frame, c)
  | .shed p e => return (.shed p (← e.resolve c), c)
  | .trap p => return (.trap p, c)
  | .assign p l r => return (.assign p (← l.resolve c) (← r.resolve c), c)

def Stmt.resolveAll (c : Scope) : List Stmt → StateT Nat Res (List Stmt)
  | [] => return []
  | s :: ss => do
    let (s, c) ← s.resolve c
    return s :: (← Stmt.resolveAll c ss)

end

def FnDef.resolve (c : Scope) (d : FnDef) : StateT Nat Res FnDef := do
  let c ← d.params.foldlM (fun c p => c.add p.place p.name (.param p.name)) c.enter
  return { d with body := ← Stmt.resolveAll c d.body }

def Def.resolve (c : Scope) : Def → StateT Nat Res Def
  | .fn d => return .fn (← d.resolve c)
  | .global d => return .global { d with init := ← d.init.resolve c }
  | .record d => do
    checkDistinct (d.fields.map fun f => (f.name, f.place))
    return .record d
  | .enum d => return .enum { d with items := ← Expr.resolveAll c d.items }

variable (builtin : List (String × Sym))

def Module.resolve (m : Module) : StateT Nat Res Module :=
  return { m with defs := ← m.defs.mapM (Def.resolve { here := m.syms, builtin }) }

/-!
## Typing

Expressions are typed from the inside out, but the type that is expected of one goes in: it decides
about numerals without a suffix, and is the type of an expression with statements.
-/

/-! ## Numerals -/

def suffix? (s : String) : Option (BaseKind × String) :=
  let ends :=
    [("u16", .u16), ("u32", .u32), ("u64", .u64), ("s16", .s16), ("s32", .s32), ("s64", .s64),
      ("u8", .u8), ("s8", .s8), ("uint", .uint), ("sint", .sint)]
  ends.findSome? fun p =>
    if s.endsWith p.1 then some (p.2, (s.dropEnd p.1.length).toString) else none

def readNumeral (place number : String) (expected : Option BaseKind) : Res (Int × BaseKind) :=
  let other := orFault (.illFormed place) expected
  match number.toList with
  | '\'' :: '\\' :: c :: _ => do
    let k ← other
    let code := [('n', 10), ('t', 8), ('r', 13)].lookup c
    return (← need "escaped character" code, k)
  | '\'' :: c :: _ => return (c.toNat, ← other)
  | cs => do
    let digits := String.ofList (cs.filter (· != '_'))
    match suffix? digits with
    | some (k, ds) => return (← readInt ds, k)
    | none =>
      let k ← other
      if k.isInt then return (← readInt digits, k) else illFormed place

def Ty.baseKind? : Ty → Option BaseKind
  | base k => some k
  | _ => none

def numeralValue (place number : String) (k : BaseKind) : Res Int := do
  let (n, _) ← readNumeral place number (some k)
  let top : Int := span (8 * k.size)
  if k.isUnsigned then
    ensure (0 ≤ n && n < top) "number out of range"
    return n
  else if k.isSigned then
    let n := if n ≥ top / 2 && number.startsWith "0x" then n - top else n
    ensure (-top ≤ 2 * n && 2 * n < top) "number out of range"
    return n
  else return n

/-! ## Texts -/

/-- The number of bytes that a text with escapes is given room for. -/
def escapedSize : List Char → Int
  | [] => 0
  | '\\' :: c :: r => escapedSize r + if c = 'x' then -1 else 1
  | _ :: r => escapedSize r + 1

def TextKind.size (s : String) : TextKind → Res Nat
  | raw => .ok s.length
  | hex => do
    let n := (s.toList.filter (!Text.isGap ·)).length
    ensure (n % 2 == 0) "half a byte"
    return n / 2
  | escaped =>
    match escapedSize s.toList with
    | .ofNat n => .ok n
    | _ => broken "negative size"

def TextKind.bytes (s : String) (kind : TextKind) : Res Text.Bytes := do
  if s.toList.any (·.toNat ≥ 128) then .error (.illFormed ("[ValString] " ++ s))
  match kind with
  | raw => return s.toList.flatMap String.utf8EncodeChar
  | hex => Text.fromHex s
  | escaped => Text.unescape s.toList

/-! ## Expressions -/

def Note.as (n : Note) (ty : Ty) : Note := { n with ty }

structure TypeEnv where
  records : Records
  fns : List ((String × String) × (List Ty × Ty))
  globals : List ((String × String) × Ty)
  names : String → Option Sym
  params : List (String × Ty) := []
  vars : List (Nat × Ty) := []

def TypeEnv.symbol (env : TypeEnv) : Sym → Res Ty
  | .global m s _ => defined s (env.globals.lookup (m, s))
  | .param s => defined s (env.params.lookup s)
  -- A variable is visible in the value that it is defined with.
  | .var k .. => orFault .endless (env.vars.lookup k)
  | _ => broken "no type"

def TypeEnv.signature (env : TypeEnv) : Sym → Res (List Ty × Ty)
  | .fn m s => defined s (env.fns.lookup (m, s))
  | _ => broken "call of no function"

def Expr.isMutable : Expr → Bool
  | .id _ _ (.var _ _ isMut _) | .id _ _ (.global _ _ isMut) => isMut
  | .deref _ e => (e.ty matches .ptr true _)
  | .field _ e _ | .idx _ e _ => e.isMutable
  | _ => false

def Expr.hasAddr : Expr → Bool
  | .id _ _ (.var _ _ _ isRef) => isRef
  | .id _ _ (.global ..) => true
  | .field .. | .deref .. => true
  | .idx _ e _ => e.hasAddr
  | _ => false

def require (ok : Bool) (place : String) : Res Unit := if ok then .ok () else illFormed place

def Expr.suits (t : Ty) (e : Expr) : Res Unit :=
  require (e.isUndef || e.ty.suits e.isMutable t) e.place

def BinaryOp.typing (place : String) (op : BinaryOp) (a b : Ty) : Res Ty := do
  match op with
  | .eq | .ne => require (a.comparable b) place
  | _ =>
    ensure a.isBase "operand"
    require (a == b) place
  return if op matches .eq | .ne | .lt | .le | .gt | .ge | .andThen | .orElse then .base .bool else a

def fieldsFrom (place name : String) (fs : List PlacedField) :
  Res (PlacedField × List PlacedField) :=
  match if name == "" then fs else fs.dropWhile (·.name != name) with
  | f :: rest => .ok (f, rest)
  | [] => .error (if name == "" then .pastEnd else .illFormed place)

mutual

def Expr.typed (env : TypeEnv) (tgt : Ty) : Expr → Res Expr
  | .num n s => do
    let (_, k) ← readNumeral n.place s tgt.baseKind?
    return .num (n.as (.base k.canonical)) s
  | .truth n b => return .truth (n.as (.base .bool)) b
  | .void n => return .void (n.as (.base .void))
  | .undef n => return .undef n
  | .auto n => do
    ensure (tgt != .unset) "no type"
    return .auto (n.as tgt)
  | .id n s y => return .id (n.as (← env.symbol y)) s y
  | .addrOf n isMut e => do
    let e ← e.typed env .unset
    if isMut then require e.isMutable n.place
    require e.hasAddr n.place
    return .addrOf (n.as (.ptr isMut e.ty)) isMut e
  | .deref n e => do
    let e ← e.typed env .unset
    return .deref (n.as (← orFault (.illFormed n.place) e.ty.pointee?)) e
  | .field n e s => do
    let e ← e.typed env tgt
    return .field (n.as (← orFault (.illFormed n.place) (← env.records.field e.ty s)).ty) e s
  | .idx n e i => do
    let i ← i.typed env (.base .u64)
    let e ← e.typed env tgt
    return .idx (n.as (← need "index" e.ty.element?)) e i
  | .front n isMut e => do
    let e ← e.typed env .unset
    let t ← orFault (.illFormed n.place) e.ty.element?
    if isMut then require e.isMutable n.place
    return .front (n.as (.ptr isMut t)) isMut e
  | .len n e => return .len (n.as (.base .u64)) (← e.typed env .unset)
  | .pointer n back e i u => do
    let e ← e.typed env tgt
    let i ← i.typed env (.base .u64)
    let u ← u.typed env (.base .u64)
    require (u.isUndef || u.ty.baseKind?.any BaseKind.isUnsigned) n.place
    require (e.ty matches .ptr ..) n.place
    return .pointer (n.as e.ty) back e i u
  | .unary n o e => do
    let e ← e.typed env tgt
    return .unary (n.as e.ty) o e
  | .binary n o a b => do
    let a ← a.typed env tgt
    let b ← b.typed env (if !(o matches .rotr | .rotl) && a.ty.isInt then a.ty else .unset)
    return .binary (n.as (← o.typing n.place a.ty b.ty)) o a b
  | .choice n c a b => do
    let c ← c.typed env (.base .bool)
    let a ← a.typed env tgt
    let b ← b.typed env a.ty
    require (a.ty == b.ty) n.place
    ensure (c.ty == .base .bool) "condition"
    return .choice (n.as a.ty) c a b
  | .call n s y as => do
    let (params, result) ← env.signature y
    require (params.length == as.length) n.place
    return .call (n.as result) s y (← Expr.typedArgs env params as)
  | .str n k s => do return .str (n.as (.array (← k.size s) (.base .u8))) k s
  | .cast n e t test => do
    let ty ← t.canonical n.place env.names
    let e ← e.typed env .unset
    if test.isSome then return .cast (n.as (.base .bool)) e t ty
    require (e.ty.converts ty) n.place
    return .cast (n.as ty) e t none
  | .recVal n t is => do
    let ty ← t.canonical n.place env.names
    match ty with
    | .record m s =>
      return .recVal (n.as ty) t (← Expr.typedFields env n.place (← env.records.fields m s) is)
    | _ => broken "record"
  | .arrayVal n s t is => do
    let ty ← t.canonical n.place env.names
    let is ← Expr.typedItems env ty is
    let s ← s.typed env (.base .u64)
    match s with
    | .num m digits =>
      let (dim, _) ← readNumeral m.place digits (some .u64)
      return .arrayVal (n.as (.array dim.toNat ty)) s t is
    | _ => broken "size"
  | .fieldVal .. | .idxVal .. => broken "part of a value"
  | .stmts n k b => do
    ensure (tgt != .unset) "no type"
    return .stmts (n.as tgt) k (← Stmt.typedAll env tgt b)

def Expr.typedArgs (env : TypeEnv) : List Ty → List Expr → Res (List Expr)
  | t :: ts, e :: es => do
    let e ← e.typed env t
    e.suits t
    return e :: (← Expr.typedArgs env ts es)
  | _, _ => return []

def Expr.typedFields (env : TypeEnv) (place : String) :
    List PlacedField → List Expr → Res (List Expr)
  | fs, .fieldVal n e s _ :: rest => do
    let (f, fs) ← fieldsFrom place s fs
    let e ← e.typed env f.ty
    e.suits f.ty
    return .fieldVal (n.as f.ty) e s f.name :: (← Expr.typedFields env place fs rest)
  | _, _ :: _ => broken "part of a value"
  | _, [] => return []

def Expr.typedItems (env : TypeEnv) (t : Ty) : List Expr → Res (List Expr)
  | .idxVal n e i :: rest => do
    let e ← e.typed env t
    let i ← i.typed env (.base .u64)
    ensure i.ty.isInt "index"
    return .idxVal (n.as t) e i :: (← Expr.typedItems env t rest)
  | _ :: _ => broken "part of a value"
  | [] => return []

def Stmt.typed (env : TypeEnv) (tgt : Ty) : Stmt → Res (Stmt × TypeEnv)
  | .define v e => do
    let declared ← if v.type == .auto then pure .unset else v.type.canonical v.place env.names
    let e ← e.typed env declared
    let ty := if v.type == .auto then e.ty else declared
    ensure (ty != .unset) "no type"
    e.suits ty
    return (.define { v with ty } e, { env with vars := (v.no, ty) :: env.vars })
  | .blk p k l b => return (.blk p k l (← Stmt.typedAll env tgt b), env)
  | .defer p b => return (.defer p (← Stmt.typedAll env tgt b), env)
  | .cond p c t e => do
    let c ← c.typed env (.base .bool)
    let e ← Stmt.typedAll env tgt e
    let t ← Stmt.typedAll env tgt t
    ensure (c.ty == .base .bool) "condition"
    return (.cond p c t e, env)
  | .ret p e k => do
    let e ← e.typed env tgt
    require (e.ty.suits false tgt) p
    return (.ret p e k, env)
  | .shed p e => return (.shed p (← e.typed env .unset), env)
  | .assign p l r => do
    let l ← l.typed env .unset
    let r ← r.typed env l.ty
    r.suits l.ty
    require l.isMutable p
    return (.assign p l r, env)
  | s => return (s, env)

def Stmt.typedAll (env : TypeEnv) (tgt : Ty) : List Stmt → Res (List Stmt)
  | [] => return []
  | s :: ss => do
    let (s, env) ← s.typed env tgt
    return s :: (← Stmt.typedAll env tgt ss)

end

/-! ## Definitions -/

def namesIn (m : Module) (s : String) : Option Sym := (m.syms.lookup s).or (builtin.lookup s)

variable (names : String → Option Sym)

def Module.recordTypes (m : Module) : Res (List RecordType) :=
  m.defs.filterMapM fun
    | .record r => do
      let fields ← r.fields.mapM fun f => do return (f.name, ← f.type.canonical f.place names)
      return some ⟨m.name, r.name, fields⟩
    | _ => return none

def FnDef.signature (f : FnDef) : Res (List Ty × Ty) :=
  return (← f.params.mapM fun p => p.type.canonical p.place names,
    ← f.result.canonical f.place names)

def Module.signatures (m : Module) : Res (List ((String × String) × (List Ty × Ty))) :=
  m.defs.filterMapM fun
    | .fn f => do return some ((m.name, f.name), ← f.signature names)
    | _ => return none

def Module.types (m : Module) : Res (List Ty) :=
  m.defs.foldlM (fun out d => do
    match d with
    | .record r => return out ++ [.record m.name r.name]
    | .global g =>
      if g.type == .auto then return out else return out ++ [← g.type.canonical g.place names]
    | .fn f =>
      let (params, result) ← f.signature names
      return out ++ params ++ [result]
    | .enum _ => return out) []

def GlobalDef.typed (env : TypeEnv) (g : GlobalDef) : Res GlobalDef := do
  let (s, _) ← Stmt.typed env .unset
    (.define ⟨g.place, 0, g.name, g.isMut, true, g.type, .unset⟩ g.init)
  match s with
  | .define v e => return { g with ty := v.ty, init := e }
  | _ => return g

def FnDef.typed (env : TypeEnv) (f : FnDef) : Res FnDef := do
  let (types, resultTy) ← f.signature env.names
  let params := f.params.zipWith (fun p ty => { p with ty }) types
  let env := { env with params := params.map fun p => (p.name, p.ty) }
  let body ← if f.isExtern then pure f.body else Stmt.typedAll env resultTy f.body
  return { f with params, resultTy, body }

def Def.typed (env : TypeEnv) : Def → Res Def
  | .fn f => return .fn (← f.typed env)
  | .global g => return .global (← g.typed env)
  | .enum d => return .enum { d with items := ← d.items.mapM (Expr.typed env (.base d.kind)) }
  | d => return d

def Expr.globals (e : Expr) : List (String × String) :=
  let note
    | .id _ _ (.global m s _) => [(m, s)]
    | _ => []
  ((e.visit (fun _ => noting note) pure .other).run []).2

/-- The variables that have to be typed up to a given one, each after those that its value mentions.
No more than `d` of them depend on one another. -/
def globalsUpTo (inits : List ((String × String) × Module × GlobalDef)) :
    Nat → List (String × String) → String × String → Res (List (String × String))
  | 0, _, _ => .error .endless
  | d + 1, done, x =>
    if done.contains x then .ok done else do
      let (_, g) ← defined x.2 (inits.lookup x)
      return (← g.init.globals.foldlM (globalsUpTo inits d) done) ++ [x]

def typeModules (ms : List Module) : Res (TypeEnv × List Module) := do
  let types ← ms.mapM fun m => m.recordTypes (namesIn builtin m)
  let fns ← ms.mapM fun m => m.signatures (namesIn builtin m)
  let met ← ms.mapM fun m => m.types (namesIn builtin m)
  let (_, records) ← (Records.meetAll met.flatten).run { types := types.flatten }
  let inits := ms.flatMap fun m => m.defs.filterMap fun
    | .global g => some ((m.name, g.name), m, g)
    | _ => none
  let order ← (inits.map Prod.fst).foldlM (globalsUpTo inits (inits.length + 1)) []
  let start := { records, fns := fns.flatten, globals := [], names := fun _ => none }
  let env ← order.foldlM (fun env x => do
    let (m, g) ← defined x.2 (inits.lookup x)
    let g ← g.typed { env with names := namesIn builtin m }
    return { env with globals := (x, g.ty) :: env.globals }) start
  let ms ← ms.mapM fun m => do
    return { m with defs := ← m.defs.mapM (Def.typed { env with names := namesIn builtin m }) }
  return (env, ms)

end Retarget.FrontEnd
