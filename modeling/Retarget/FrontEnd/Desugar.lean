import Retarget.FrontEnd.Typing

/-!
# Reduction to a core language

Expressions whose value is known are annotated with it; numbers are not reduced to the width of
their type. Then passes rewrite the program so that fewer forms remain: no indexing, no deferred
statements, no arrays of constants inside of functions, no computed truth values and no choices. In
the end no two local variables of a function share a name.
-/

namespace Retarget.FrontEnd

/-! ## Copies -/

variable (ρ : Nat → Nat)

def Sym.renum : Sym → Sym
  | var k s isMut isRef => var (ρ k) s isMut isRef
  | s => s

mutual

/-- Change the numbers of local variables and blocks. Jumps and returns still go to where they
went. -/
def Expr.renum : Expr → Expr
  | .id n s y => .id n s (y.renum ρ)
  | .addrOf n b e => .addrOf n b e.renum
  | .deref n e => .deref n e.renum
  | .field n e s => .field n e.renum s
  | .idx n e i => .idx n e.renum i.renum
  | .front n b e => .front n b e.renum
  | .len n e => .len n e.renum
  | .pointer n b e i u => .pointer n b e.renum i.renum u.renum
  | .unary n o e => .unary n o e.renum
  | .binary n o a b => .binary n o a.renum b.renum
  | .choice n c a b => .choice n c.renum a.renum b.renum
  | .call n s y as => .call n s (y.renum ρ) (Expr.renumAll as)
  | .cast n e t y => .cast n e.renum t y
  | .fieldVal n e s t => .fieldVal n e.renum s t
  | .recVal n t is => .recVal n t (Expr.renumAll is)
  | .idxVal n e i => .idxVal n e.renum i.renum
  | .arrayVal n s t is => .arrayVal n s.renum t (Expr.renumAll is)
  | .stmts n k b => .stmts n (ρ k) (Stmt.renumAll b)
  | e => e

def Expr.renumAll : List Expr → List Expr
  | [] => []
  | e :: es => e.renum :: Expr.renumAll es

def Stmt.renum : Stmt → Stmt
  | .define v e => .define { v with no := ρ v.no } e.renum
  | .blk p k l b => .blk p (ρ k) l (Stmt.renumAll b)
  | .defer p b => .defer p (Stmt.renumAll b)
  | .cond p c t e => .cond p c.renum (Stmt.renumAll t) (Stmt.renumAll e)
  | .ret p e f => .ret p e.renum f
  | .shed p e => .shed p e.renum
  | .assign p l r => .assign p l.renum r.renum
  | s => s

def Stmt.renumAll : List Stmt → List Stmt
  | [] => []
  | s :: ss => s.renum :: Stmt.renumAll ss

end

def Expr.defines : Expr → List Nat
  | .stmts _ k _ => [k]
  | _ => []

def Stmt.defines : Stmt → List Nat
  | .define v _ => [v.no]
  | .blk _ k _ _ => [k]
  | _ => []

def definedIn : List Stmt → List Nat := gather Expr.defines Stmt.defines

def freshCopy (ss : List Stmt) : StateM Nat (List Stmt) := fun n =>
  let defined := definedIn ss
  (Stmt.renumAll (fun k => if defined.contains k then k + n else k) ss, 2 * n)

def copies : List (List Stmt) → StateM Nat (List Stmt)
  | [] => pure []
  | b :: bs => return (← freshCopy b) ++ (← copies bs)

/-! ## Scopes -/

inductive Owner where
  | frame (f : Frame)
  | blk (no : Nat)
  | other
  deriving DecidableEq

/-- An open scope with the bodies that have been put off in it, the latest one first. -/
structure Pending where
  owner : Owner
  bodies : List (List Stmt)

def pendingUpTo (tgt : Owner) : List Pending → List (List Stmt)
  | [] => []
  | p :: ps => p.bodies ++ if p.owner = tgt then [] else pendingUpTo tgt ps

def Stmt.leaves : Stmt → Bool
  | .jump .. | .ret .. => true
  | _ => false

mutual

/-- Take the deferred statements out of the expressions with statements in `e`. -/
def Expr.undefer (outer : List Pending) : Expr → StateM Nat Expr
  | .addrOf n b e => return .addrOf n b (← e.undefer outer)
  | .deref n e => return .deref n (← e.undefer outer)
  | .field n e s => return .field n (← e.undefer outer) s
  | .idx n e i => return .idx n (← e.undefer outer) (← i.undefer outer)
  | .front n b e => return .front n b (← e.undefer outer)
  | .len n e => return .len n (← e.undefer outer)
  | .pointer n b e i u =>
    return .pointer n b (← e.undefer outer) (← i.undefer outer) (← u.undefer outer)
  | .unary n o e => return .unary n o (← e.undefer outer)
  | .binary n o a b => return .binary n o (← a.undefer outer) (← b.undefer outer)
  | .choice n c a b => return .choice n (← c.undefer outer) (← a.undefer outer) (← b.undefer outer)
  | .call n s y as => return .call n s y (← Expr.undeferAll outer as)
  | .cast n e t y => return .cast n (← e.undefer outer) t y
  | .fieldVal n e s t => return .fieldVal n (← e.undefer outer) s t
  | .recVal n t is => return .recVal n t (← Expr.undeferAll outer is)
  | .idxVal n e i => return .idxVal n (← e.undefer outer) (← i.undefer outer)
  | .arrayVal n s t is => return .arrayVal n (← s.undefer outer) t (← Expr.undeferAll outer is)
  | .stmts n k b => return .stmts n k (← Stmt.undeferAll ⟨.frame (.expr k), []⟩ outer b)
  | e => return e

def Expr.undeferAll (outer : List Pending) : List Expr → StateM Nat (List Expr)
  | [] => return []
  | e :: es => return (← e.undefer outer) :: (← Expr.undeferAll outer es)

/-- What a statement becomes. Jumps and returns are preceded by what has been put off in the scopes
that they leave. -/
def Stmt.undefer (scopes : List Pending) : Stmt → StateM Nat (List Stmt)
  | .define v e => return [.define v (← e.undefer scopes)]
  | .blk p k l b => return [.blk p k l (← Stmt.undeferAll ⟨.blk k, []⟩ scopes b)]
  | .defer .. => return []
  | .cond p c t e => do
    let c ← c.undefer scopes
    let t ← Stmt.undeferAll ⟨.other, []⟩ scopes t
    return [.cond p c t (← Stmt.undeferAll ⟨.other, []⟩ scopes e)]
  | .jump p a s k l => return (← copies (pendingUpTo (.blk k) scopes)) ++ [.jump p a s k l]
  | .ret p e f => return (← copies (pendingUpTo (.frame f) scopes)) ++ [.ret p e f]
  | .shed p e => return [.shed p (← e.undefer scopes)]
  | .trap p => return [.trap p]
  | .assign p l r => return [.assign p (← l.undefer scopes) (← r.undefer scopes)]

/-- What the rest of a scope becomes. At its end is what has been put off in it, unless the last
statement is a jump or a return, or a defer statement. -/
def Stmt.undeferAll (here : Pending) (outer : List Pending) : List Stmt → StateM Nat (List Stmt)
  | [] => return []
  | .defer _ b :: rest => do
    let b' ← Stmt.undeferAll ⟨.other, []⟩ (⟨here.owner, b :: here.bodies⟩ :: outer) b
    Stmt.undeferAll ⟨here.owner, b' :: here.bodies⟩ outer rest
  | s :: rest => do
    let out ← s.undefer (here :: outer)
    if rest.isEmpty && !s.leaves then return out ++ (← copies here.bodies)
    else return out ++ (← Stmt.undeferAll here outer rest)

end

def FnDef.undefer (f : FnDef) : StateM Nat FnDef :=
  return { f with body := ← Stmt.undeferAll ⟨.frame .fn, []⟩ [] f.body }

/-! ## Values -/

namespace Value

def int? : Value → Option Int
  | int n => some n
  | truth b => some (if b then 1 else 0)
  | _ => none

def number (v : Value) : Res Int := orFault .wrongSort v.int?

def same (a b : Value) : Bool :=
  match a, b with
  | undef, undef | void, void | address, address => true
  | a, b =>
    match a.int?, b.int? with
    | some m, some n => m == n
    | _, _ => false

end Value

/-- The values of the parts of an array, with the indices that they are for. Parts without an index
come one after the other. -/
def placeItems : Nat → List Expr → Res (List (Nat × Expr))
  | _, [] => .ok []
  | next, .idxVal _ e i :: rest => do
    let k ← if i.isAuto then pure next else
      match i.value with
      | some (.int n) => pure (max next n.toNat)
      | _ => broken "index"
    return (k, e) :: (← placeItems (k + 1) rest)
  | _, _ :: _ => broken "part of a value"

def arrayItems (place : String) (dim : Nat) (inits : List Expr) :
  Res (List (Nat × Option Expr)) := do
  let items ← placeItems 0 inits
  match items.getLast? with
  | some (k, _) => if dim ≤ k then illFormed place
  | none => pure ()
  return (List.range dim).map fun k => (k, items.lookup k)

def recordItems (fs : List PlacedField) (inits : List Expr) : List (PlacedField × Option Expr) :=
  fs.map fun f => (f, inits.findSome? fun
    | .fieldVal _ e _ s => if s == f.name then some e else none
    | _ => none)

/-- The value of what is given none, with records in records to a depth of no more than `d`. -/
def Ty.default (rs : Records) (place : String) : Nat → Ty → Res (Option Value)
  | _, .base .bool => return some (.truth false)
  | _, .base .void => unknown "void"
  | _, .base _ => return some (.int 0)
  | _, .ptr .. => illFormed place
  | 0, .record .. => broken "record in itself"
  | d + 1, .record m s => do
    let fields ← (← rs.fields m s).filterMapM fun f => do
      return (← f.ty.default rs place d).map (f.name, ·)
    return some (.record fields)
  | _, _ => return none

section
variable (rs : Records)

def defaultValue (place : String) (t : Ty) : Res (Option Value) :=
  t.default rs place (rs.types.length + 1)

def recordValue (rs : Records) (place : String) :
    List (PlacedField × Option Expr) → List (String × Value) → Res (Option Value)
  | [], out => return some (.record out)
  | (f, none) :: rest, out => do
    match ← defaultValue rs place f.ty with
    | some v => recordValue rs place rest (out ++ [(f.name, v)])
    | none => recordValue rs place rest out
  | (f, some e) :: rest, out =>
    match e.value with
    | some v => recordValue rs place rest (out ++ [(f.name, v)])
    | none => return none

/-- The value of an array, unless a part is not known. Elements without a part repeat the one before
them. -/
def arrayValue (items : List (Nat × Option Expr)) : Option Value :=
  let step acc x := do
    let (last, out) ← acc
    match x.2 with
    | none => return (last, out ++ [last])
    | some e =>
      let v ← e.value
      return (v, out ++ [v])
  (items.foldl step (some (.undef, []))).map fun p => .array p.2

def UnaryOp.fold (t : Ty) (op : UnaryOp) (v : Value) : Res Value := do
  let n ← v.number
  match op, t with
  | .minus, _ => return .int (-n)
  | .not, .base .bool => return .truth (n == 0)
  | .not, .base k =>
    ensure k.isUnsigned "operand"
    return .int (lowBits (-n - 1) (8 * k.size))
  | .not, _ => broken "operand"

/-- The value of an operation on known values. Bit operations and choices of the smaller or greater
operand are left to the program. -/
def BinaryOp.fold (t : Ty) (op : BinaryOp) (a b : Value) : Res (Option Value) := do
  let nums f := do return some (f (← a.number) (← b.number))
  match op with
  | .eq => return some (.truth (a.same b))
  | .ne => return some (.truth (!a.same b))
  | .add => nums fun m n => .int (m + n)
  | .sub => nums fun m n => .int (m - n)
  | .mul => nums fun m n => .int (m * n)
  | .lt => nums fun m n => .truth (m < n)
  | .le => nums fun m n => .truth (m ≤ n)
  | .gt => nums fun m n => .truth (m > n)
  | .ge => nums fun m n => .truth (m ≥ n)
  | .div | .mod =>
    if !t.isInt then return none
    if (← a.number *> b.number) = 0 then .error .divByZero
    nums fun m n => .int (if op == .div then m.fdiv n else m.fmod n)
  | _ => return none

/-- Whether a value of the type is of another type, as far as it can be told. -/
def Ty.test? (t other : Ty) : Option Bool :=
  if t.members.all other.members.contains then some true
  else if t.members.length = 1 then some false
  else none

structure ValueEnv where
  records : Records
  globals : List ((String × String) × Value)
  vars : List (Nat × Value) := []

variable (env : ValueEnv)

def ValueEnv.symbol : Sym → Option Value
  | .global m s _ => env.globals.lookup (m, s)
  | .var k .. => env.vars.lookup k
  | _ => none

def Expr.isGlobal : Expr → Bool
  | .id _ _ (.global ..) => true
  | _ => false

/-- The value of an expression whose parts have been annotated. -/
def Expr.known : Expr → Res (Option Value)
  | .num n s =>
    match n.ty with
    | .base k => return some (.int (← numeralValue n.place s k))
    | _ => broken "numeral"
  | .truth _ b => return some (.truth b)
  | .void _ => return some .void
  | .undef _ => return some .undef
  | .id _ _ y => return env.symbol y
  | .addrOf _ _ e | .front _ _ e => return if e.isGlobal then some .address else none
  | .field _ e s =>
    match e.value with
    | none => return none
    | some (.record fs) => return some (← need "field" (fs.lookup s))
    | some _ => .error .missingPart
  | .idx _ e i =>
    match e.value, i.value with
    | some (.array vs), some (.int n) => return some (← need "index" vs[n.toNat]?)
    | some _, some _ => broken "index"
    | _, _ => return none
  | .len _ e =>
    match e.ty with
    | .array dim _ => return some (.int dim)
    | _ => return none
  | .unary _ o e => e.value.mapM (o.fold e.ty)
  | .binary n o a b =>
    match a.value, b.value with
    | some v, some w => o.fold n.ty v w
    | _, _ => return none
  | .choice _ c a b =>
    match c.value with
    | some (.truth true) => return a.value
    | some (.truth false) => return b.value
    | _ => return none
  | .str _ k s => return some (.array ((← k.bytes s).map fun b => .int b.toNat))
  | .cast _ e _ (some t) => return (e.ty.test? t).map .truth
  | .cast _ e _ none | .fieldVal _ e _ _ | .idxVal _ e _ => return e.value
  | .recVal n _ is =>
    match n.ty with
    | .record m s => do
      recordValue env.records n.place (recordItems (← env.records.fields m s) is) []
    | _ => broken "record"
  | .arrayVal n _ _ is =>
    match n.ty with
    | .array dim _ => do return arrayValue (← arrayItems n.place dim is)
    | _ => broken "array"
  | _ => return none

def Expr.knownAuto (e : Expr) : Res Expr :=
  match e, e.ty with
  | .auto _, .base .void => broken "no value"
  | .auto n, .base _ | .auto n, .record .. => return e.setValue (← defaultValue rs n.place n.ty)
  | e, _ => .ok e

def Expr.fold (r : Role) (e : Expr) : StateT ValueEnv Res Expr := do
  let _ := r
  return e.setValue (← e.known (← get))

def Stmt.fold : Stmt → StateT ValueEnv Res Stmt
  | .define v e => do
    let env ← get
    let e ← e.knownAuto env.records
    match e.value with
    | some x => if !v.isMut then set { env with vars := (v.no, x) :: env.vars }
    | none => pure ()
    return .define v e
  | s => return s

/-- The value after that of an item of an enumeration, given the one after the item before it. -/
def nextItem (n : Int) (e : Expr) : Res Int :=
  match e, e.value with
  | .auto _, _ => return n + 1
  | _, some v => return (← v.number) + 1
  | _, none => broken "no value"

def Module.foldGlobals (m : Module) : Res (ValueEnv × Module) := do
  let (env, defs) ← m.defs.foldlM (fun (env, out) d => do
    match d with
    | .global g =>
      let (e, _) ← (g.init.visit Expr.fold Stmt.fold .initial).run env
      let e ← e.knownAuto env.records
      let env := match e.value with
        | some v => if g.isMut then env else
          { env with globals := ((m.name, g.name), v) :: env.globals }
        | none => env
      return (env, out ++ [Def.global { g with init := e }])
    | .enum d =>
      let items ← d.items.mapM fun e => do
        return (← (e.visit Expr.fold Stmt.fold .other).run env).1
      let _ ← items.foldlM nextItem 0
      return (env, out ++ [.enum d])
    | d => return (env, out ++ [d])) (env, [])
  return (env, { m with defs })

def foldGlobals : Nat → ValueEnv → List Module → Res (ValueEnv × List Module)
  | 0, env, ms => return (env, ms)
  | n + 1, env, ms => do
    let (env, ms) ← ms.foldlM (fun (env, out) m => do
      let (env, m) ← m.foldGlobals env
      return (env, out ++ [m])) (env, [])
    foldGlobals n env ms

/-- The first part of the value of a global variable that is not known beforehand. -/
def Expr.unknownPart? : Expr → Option String
  | .id .. | .undef _ => none
  | .recVal _ _ is => firstUnknown is
  | .arrayVal n _ _ is => if n.value.isNone then some n.place else firstUnknown is
  | .fieldVal n e _ _ | .idxVal n e _ => if n.value.isNone then some n.place else e.unknownPart?
  | e => if e.value.isNone then some e.place else none
where
  firstUnknown : List Expr → Option String
  | [] => none
  | e :: es => (e.unknownPart?).or (firstUnknown es)

def foldModules (ms : List Module) : Res (List Module) := do
  let count := (ms.flatMap Module.defs).length
  let (env, ms) ← foldGlobals (count + 1) { records := rs, globals := [] } ms
  let ms ← ms.mapM fun m => do
    return { m with defs := ← m.defs.mapM fun d => do
      match d with
      | .fn f =>
        let (body, _) ← (Stmt.visitAll Expr.fold Stmt.fold f.body).run env
        return .fn { f with body }
      | d => return d }
  for m in ms do
    for d in m.defs do
      match d with
      | .global g =>
        match g.init.unknownPart? with
        | some place => illFormed place
        | none => pure ()
      | _ => pure ()
  return ms

end

/-! ## Passes -/

/-! ## Indices and known numbers -/

def replaceIdx (_ : Role) : Expr → Res Expr
  | .idx n c i =>
    match c.ty with
    | .array dim t =>
      let ptr := .ptr c.isMutable t
      let bound := .len ⟨n.place, .base .u64, some (.int dim)⟩ c
      let front := .front ⟨n.place, ptr, none⟩ c.isMutable c
      .ok (.deref n (.pointer ⟨n.place, ptr, none⟩ false front i bound))
    | _ => broken "index"
  | e => .ok e

def Value.text : Value → String
  | int n => decimal n
  | truth b => if b then "True" else "False"
  | undef => "VAL-UNDEF"
  | void => "VAL-VOID"
  | address => "VAL-GLOBALSYMADDR"
  | record _ => "{}"
  | array _ => "[]"

def replaceKnown (r : Role) (e : Expr) : Res Expr :=
  match e, e.value with
  | .num .., _ | .undef _, _ | _, none => .ok e
  | _, some v =>
    if e.ty.isInt && r != .addressed && r != .part then .ok (.num e.note v.text) else .ok e

/-! ## Conversions -/

/-- A value is converted to the type that is expected of it. -/
def convert (t : Ty) (e : Expr) : Res Unit :=
  if e.isUndef then .ok ()
  else
    match e.ty.conversion? t with
    | some .none => .ok ()
    | some _ => unknown "conversion"
    | none => broken "conversion"

def convertReturns (frame : Frame) (t : Ty) (ss : List Stmt) : Res Unit := do
  let _ ← Stmt.visitAll (fun _ => Except.ok) (fun s => do
    match s with
    | .ret _ e f => if f == frame then convert t e
    | _ => pure ()
    return s) ss

def convertParts (env : TypeEnv) (_ : Role) (e : Expr) : Res Expr := do
  match e with
  | .call _ _ y as => ((← env.signature y).1.zip as).forM fun (t, a) => convert t a
  | .fieldVal n x _ _ => convert n.ty x
  | .stmts n k b => convertReturns (.expr k) n.ty b
  | _ => pure ()
  return e

def convertStmt (s : Stmt) : Res Stmt := do
  match s with
  | .define v e => convert v.ty e
  | .assign _ l r => convert l.ty r
  | _ => pure ()
  return s

def Def.simplified (env : TypeEnv) (d : Def) : Res Def := do
  let d ← [(replaceIdx, pure), (replaceKnown, pure), (convertParts env, convertStmt)].foldlM
    (fun d (f, g) => d.walk (fun _ _ => pure none) f g) d
  match d with
  | .fn f => convertReturns .fn f.resultTy f.body
  | .global g => convert g.ty g.init
  | _ => pure ()
  return d

/-! ## Tests for types -/

def BaseKind.typeNum (k : BaseKind) : Nat :=
  [void, s8, s16, s32, s64, u8, u16, u32, u64].idxOf k + if k = bool then 3 else 0

def Expr.freshCopy (e : Expr) : StateM Nat Expr := fun n =>
  let defined := definedIn [.shed "" e]
  (e.renum fun k => if defined.contains k then k + n else k, 2 * n)

/-- A test for a type compares the tag with the number of each member, in a copy of its own. -/
def replaceTest (_ : Role) : Expr → StateT Nat Res Expr
  | .cast n e _ (some t) => do
    ensure (e.ty matches .union ..) "test"
    let note ty value : Note := ⟨n.place, .base ty, value⟩
    let tests ← t.members.mapM fun
      | .base k => do
        let tag := .field (note .u16 none) (← modifyGet e.freshCopy) "tag"
        let no : Int := k.typeNum
        return .binary (note .bool none) .eq tag (.num (note .u16 (some (.int no))) (decimal no))
      | _ => unknown "number of a type"
    match tests.reverse with
    | [] => broken "test"
    | last :: rest => return rest.foldl (fun e t => .binary (note .bool none) .orElse t e) last
  | e => return e

variable (f : FnDef)

def checkUndeferred : Res Unit := do
  let _ ← Stmt.visitAll (fun _ => Except.ok) (fun
    | .defer p _ => illFormed p
    | s => .ok s) f.body

/-! ## Arrays of constants -/

def Expr.hasKnownAddr : Expr → Res Bool
  | .id _ _ (.global ..) => .ok true
  | .id _ _ (.var ..) => .ok false
  | .id .. => broken "address"
  | _ => .ok false

mutual

def Expr.isConstant : Expr → Res Bool
  | .num .. | .truth .. | .void _ | .undef _ | .str .. => .ok true
  | .addrOf _ _ e | .front _ _ e => e.hasKnownAddr
  | .recVal _ _ is | .arrayVal _ _ _ is => allConstant is
  | .fieldVal _ e _ _ => e.isConstant
  | .idxVal _ e i =>
    match i with
    | .num .. | .auto _ => e.isConstant
    | _ => .ok false
  | _ => broken "constant"

def allConstant : List Expr → Res Bool
  | [] => .ok true
  | e :: es => do if ← e.isConstant then allConstant es else return false

end

def generated : String := "$generated"
abbrev Pool := List GlobalDef

def addToPool (e : Expr) : StateT Pool Res Expr := do
  let pool ← get
  let name := s!"global_val%{pool.length}"
  set ({ place := e.place, name, type := .auto, ty := e.ty, init := e } :: pool)
  return .id e.note name (.global generated name false)

/-- What is left of an expression whose outermost arrays of constants have been moved away, except
where a variable is defined with one. -/
def moveArray (r : Role) (e : Expr) : StateT Pool Res (Option Expr) :=
  match r, e with
  | .global, _ => return none
  | _, .str .. => unknown "text"
  | r, .arrayVal .. => do
    if (← e.isConstant) && r != .initial then return some (← addToPool e) else return none
  | _, _ => return none

/-! ## Truth values and choices -/

/-- A truth value is computed, but not for a condition. -/
def Expr.isBare (r : Role) (e : Expr) : Bool :=
  (e matches .unary .. | .binary ..) && e.ty == .base .bool &&
    (r == .arg || r == .returned || r == .assigned || r == .initial || r == .item)

def expandTruth (r : Role) (e : Expr) : Id Expr :=
  let truth b := .truth ⟨e.place, .base .bool, some (.truth b)⟩ b
  if e.isBare r then .choice e.note e (truth true) (truth false) else e

/-- A choice is made by a statement. The state holds the next number of a variable and how many
choices there have been. -/
def expandChoice (_ : Role) (e : Expr) : StateM (Nat × Nat) Expr := do
  match e with
  | .choice n c a b =>
    let (next, k) ← get
    set (next + 3, k + 1)
    let define no stem init :=
      let name := s!"{stem}%{k}"
      (⟨n.place, no, name, false, false, .auto, n.ty⟩,
        .id { n with value := init.value } name (.var no name false false))
    let (x, xUse) := define next "op_t" a
    let (y, yUse) := define (next + 1) "op_f" b
    let frame := .expr (next + 2)
    return .stmts n (next + 2) [.define x a, .define y b,
        .cond n.place c [.ret n.place xUse frame] [.ret n.place yUse frame]]
  | e => return e

def dropDeadBranch : Stmt → Id Stmt
  | .cond p c@(.truth _ true) t _ => .cond p c t []
  | .cond p c@(.truth _ false) _ e => .cond p c [] e
  | s => s

def addReturn : FnDef :=
  if f.resultTy != .base .void || f.body.getLast? matches some (.ret ..) then f
  else { f with body := f.body ++ [.ret f.place (.void ⟨f.place, f.resultTy, none⟩) .fn] }

def FnDef.expanded : StateM Nat FnDef := fun next =>
  let body := Stmt.visitAll (m := Id) expandTruth (fun s => s) f.body
  let (body, (next, _)) := (Stmt.visitAll expandChoice (fun s => pure s) body).run (next, 0)
  let body := Stmt.visitAll (m := Id) (fun _ e => e) dropDeadBranch body
  (addReturn { f with body }, next)

/-! ## Names -/

def freeName (taken : List String) (name : String) : String :=
  let tryName k := s!"{name}%{(k + 1 : Nat)}"
  ((List.range (taken.length + 1)).map tryName).find? (!taken.contains ·) |>.getD name

def variablesIn : List Stmt → List Variable :=
  gather (fun _ => []) fun
    | .define v _ => [v]
    | _ => []

/-- New names for the local variables whose names others have. -/
def clashFree (vs : List Variable) : Res (List (Nat × String)) := do
  let first (acc : List String × List Variable) (v : Variable) :=
    if acc.1.contains v.name then (acc.1, acc.2 ++ [v]) else (v.name :: acc.1, acc.2)
  let (taken, clashes) := vs.foldl first ([], [])
  let step acc v := do
    ensure (!v.name.contains '%') "name"
    let name := freeName acc.1 v.name
    return (name :: acc.1, (v.no, name) :: acc.2)
  return (← clashes.foldlM step (taken, [])).2

def renameVars (names : List (Nat × String)) (ss : List Stmt) : List Stmt :=
  let expr _ e :=
    match e with
    | .id n s (.var k x isMut isRef) => .id n s (.var k ((names.lookup k).getD x) isMut isRef)
    | e => e
  let stmt s :=
    match s with
    | .define v e => .define { v with name := (names.lookup v.no).getD v.name } e
    | s => s
  Stmt.visitAll (m := Id) expr stmt ss

def FnDef.renamed : Res FnDef := do
  return { f with body := renameVars (← clashFree (variablesIn f.body)) f.body }

end Retarget.FrontEnd
