import Retarget.Text.Token

/-!
# Programs

The syntax trees of the front end. Types, values and symbols are filled in by later passes. Local
variables and blocks have numbers, so that two of the same name can be told apart.

Covered are integers, booleans, pointers, arrays, records and the types of slices and unions. Texts
are values of variables of a module, and nothing refers to the items of an enumeration.
-/

namespace Retarget.FrontEnd

inductive BaseKind where
  | sint | s8 | s16 | s32 | s64
  | uint | u8 | u16 | u32 | u64
  | bool | void
  deriving DecidableEq

namespace BaseKind

def keyword : BaseKind → String
  | sint => "sint" | s8 => "s8" | s16 => "s16" | s32 => "s32" | s64 => "s64"
  | uint => "uint" | u8 => "u8" | u16 => "u16" | u32 => "u32" | u64 => "u64"
  | bool => "bool" | void => "void"

def name (k : BaseKind) : String := k.keyword.toUpper
def all : List BaseKind := [sint, s8, s16, s32, s64, uint, u8, u16, u32, u64, bool, void]

def canonical : BaseKind → BaseKind
  | sint => s64
  | uint => u64
  | k => k

def isUnsigned : BaseKind → Bool
  | u8 | u16 | u32 | u64 => true
  | _ => false

def isSigned : BaseKind → Bool
  | s8 | s16 | s32 | s64 => true
  | _ => false

def isInt (k : BaseKind) : Bool := k.isUnsigned || k.isSigned

def size : BaseKind → Nat
  | void => 0
  | s8 | u8 | bool => 1
  | s16 | u16 => 2
  | s32 | u32 => 4
  | s64 | u64 | sint | uint => 8

end BaseKind

inductive UnaryOp where
  | not | minus
  deriving DecidableEq

def UnaryOp.name : UnaryOp → String
  | not => "NOT" | minus => "MINUS"

def UnaryOp.ofSym? : String → Option UnaryOp
  | "!" => some not
  | "~" => some minus
  | _ => none

inductive BinaryOp where
  | add | sub | div | mul | mod | min | max
  | and | or | xor
  | eq | ne | lt | le | gt | ge
  | andThen | orElse
  | shr | shl | rotr | rotl
  deriving DecidableEq

namespace BinaryOp

def name : BinaryOp → String
  | add => "ADD" | sub => "SUB" | div => "DIV" | mul => "MUL" | mod => "MOD"
  | min => "MIN" | max => "MAX" | and => "AND" | or => "OR" | xor => "XOR"
  | eq => "EQ" | ne => "NE" | lt => "LT" | le => "LE" | gt => "GT" | ge => "GE"
  | andThen => "ANDSC" | orElse => "ORSC"
  | shr => "SHR" | shl => "SHL" | rotr => "ROTR" | rotl => "ROTL"

def syms : List (String × BinaryOp) :=
  [("+", add), ("-", sub), ("/", div), ("*", mul), ("%", mod), ("min", min), ("max", max),
    ("and", and), ("or", or), ("xor", xor), ("==", eq), ("!=", ne), ("<", lt), ("<=", le),
    (">", gt), (">=", ge), ("&&", andThen), ("||", orElse), (">>", shr), ("<<", shl),
    (">>>", rotr), ("<<<", rotl)]

def ofSym? (s : String) : Option BinaryOp := syms.lookup s

end BinaryOp

inductive TypeExpr where
  | base (k : BaseKind)
  | ptr (isMut : Bool) (t : TypeExpr)
  | slice (isMut : Bool) (t : TypeExpr)
  | array (size : String) (t : TypeExpr)
  | id (name : String)
  /-- A union of two or more types, one of them and the others. -/
  | union (isTagged : Bool) (t rest : TypeExpr)
  | delta (t part : TypeExpr)
  | auto
  deriving DecidableEq

def TypeExpr.text : TypeExpr → String
  | base k => "[TypeBase] " ++ k.name
  | ptr isMut t => "[ptr]" ++ (if isMut then " @mut" else "") ++ " " ++ t.text
  | slice isMut t => "[slice]" ++ (if isMut then "-MUT" else "") ++ s!"({t.text})"
  | array size t => s!"[array] ({t.text}) [num] {size}"
  | id name => "[id] " ++ name
  | union isTagged t rest =>
    let first := if isTagged then "[union] " else "[union]-untagged "
    s!"{first}{t.text} " ++ match rest with
    | union b .. => if b == isTagged then (rest.text.drop first.length).toString else rest.text
    | _ => rest.text
  | delta t part => s!"[uniondelta]{t.text} - {part.text}"
  | auto => "[auto]"

/-- A type. Records are told apart by module and name. A union has its first member and the others,
in the order of their names. -/
inductive Ty where
  | unset
  | base (k : BaseKind)
  | ptr (isMut : Bool) (t : Ty)
  | slice (isMut : Bool) (t : Ty)
  | array (dim : Nat) (t : Ty)
  | record (module name : String)
  | union (t rest : Ty)
  | untagged (t rest : Ty)
  deriving DecidableEq

namespace Ty

def name : Ty → String
  | unset => "@invali@d"
  | base k => k.keyword
  | ptr isMut t => (if isMut then "ptr_mut<" else "ptr<") ++ t.name ++ ">"
  | slice isMut t => (if isMut then "slice_mut<" else "slice<") ++ t.name ++ ">"
  | array dim t => s!"array<{t.name},{dim}>"
  | record m n => s!"rec<{m}/{n}>"
  | union t rest => s!"sum<{t.name}," ++ match rest with
    | union .. => (rest.name.drop 4).toString
    | _ => rest.name ++ ">"
  | untagged t rest => s!"sum_untagged<{t.name}," ++ match rest with
    | untagged .. => (rest.name.drop 13).toString
    | _ => rest.name ++ ">"

/-- The name in generated code, where slices and unions are records. -/
def codeName : Ty → String
  | ptr isMut t => (if isMut then "ptr_mut<" else "ptr<") ++ t.codeName ++ ">"
  | array dim t => s!"array<{t.codeName},{dim}>"
  | slice isMut t => s!"rec<tuple_{(slice isMut t).name}>"
  | union t rest => s!"rec<tuple_{(union t rest).name}>"
  | t => t.name

/-- Another type takes the place of the type in generated code. -/
def isReplaced : Ty → Bool
  | ptr _ t | array _ t => t.isReplaced
  | slice .. | union .. => true
  | _ => false

/-- No union is behind a pointer or in an array, slices apart. -/
def isReplaceable (behind : Bool) : Ty → Bool
  | ptr _ t | array _ t => t.isReplaceable true
  | union t rest => !behind && t.isReplaceable false && rest.isReplaceable false
  | _ => true

def members : Ty → List Ty
  | union t rest => t :: rest.members
  | t => [t]

def untaggedMembers : Ty → List Ty
  | untagged t rest => t :: rest.untaggedMembers
  | t => [t]

def ofMembers (isTagged : Bool) : List Ty → Ty
  | [] => unset
  | [t] => t
  | t :: ts => (if isTagged then union else untagged) t (ofMembers isTagged ts)

def isInt : Ty → Bool
  | base k => k.isInt
  | _ => false

def isBase : Ty → Bool
  | base _ => true
  | _ => false

def pointee? : Ty → Option Ty
  | ptr _ t => some t
  | _ => none

def element? : Ty → Option Ty
  | array _ t => some t
  | _ => none

end Ty

inductive Value where
  | int (n : Int)
  | truth (b : Bool)
  | undef
  | void
  /-- The address of a global variable, which is not known yet. -/
  | address
  | record (fields : List (String × Value))
  | array (items : List Value)

structure Note where
  place : String
  ty : Ty := .unset
  value : Option Value := none

inductive Sym where
  | unresolved
  | global (module name : String) (isMut : Bool)
  | fn (module name : String)
  | record (module name : String)
  | param (name : String)
  | var (no : Nat) (name : String) (isMut isRef : Bool)

structure Variable where
  place : String
  no : Nat
  name : String
  isMut : Bool
  isRef : Bool
  type : TypeExpr
  ty : Ty := .unset

/-- How the characters of a text stand for bytes. -/
inductive TextKind where
  | escaped | raw | hex

inductive Frame where
  | fn
  | expr (no : Nat)
  deriving DecidableEq

mutual

inductive Expr where
  | num (n : Note) (number : String)
  | truth (n : Note) (b : Bool)
  | void (n : Note)
  | undef (n : Note)
  | auto (n : Note)
  | id (n : Note) (name : String) (sym : Sym)
  | addrOf (n : Note) (isMut : Bool) (e : Expr)
  | deref (n : Note) (e : Expr)
  | field (n : Note) (e : Expr) (name : String)
  | idx (n : Note) (e i : Expr)
  | front (n : Note) (isMut : Bool) (e : Expr)
  | len (n : Note) (e : Expr)
  | pointer (n : Note) (back : Bool) (e i bound : Expr)
  | unary (n : Note) (op : UnaryOp) (e : Expr)
  | binary (n : Note) (op : BinaryOp) (a b : Expr)
  | choice (n : Note) (c a b : Expr)
  | call (n : Note) (name : String) (sym : Sym) (args : List Expr)
  | str (n : Note) (kind : TextKind) (s : String)
  /-- A value is converted to a type or, if there is one to test for, tested for it. -/
  | cast (n : Note) (e : Expr) (t : TypeExpr) (test : Option Ty)
  /-- One part of a record value, for the field that is named or else for the next one. The field is
  found out later. -/
  | fieldVal (n : Note) (e : Expr) (name field : String)
  | recVal (n : Note) (t : TypeExpr) (inits : List Expr)
  /-- One part of an array value, for the index that is given or else for the next one. -/
  | idxVal (n : Note) (e i : Expr)
  | arrayVal (n : Note) (size : Expr) (t : TypeExpr) (inits : List Expr)
  /-- The value is that of the return statement which is executed. -/
  | stmts (n : Note) (no : Nat) (body : List Stmt)

inductive Stmt where
  | define (v : Variable) (init : Expr)
  | blk (place : String) (no : Nat) (label : String) (body : List Stmt)
  | defer (place : String) (body : List Stmt)
  | cond (place : String) (c : Expr) (yes no : List Stmt)
  | jump (place : String) (again : Bool) (name : String) (tgt : Nat) (label : String)
  | ret (place : String) (e : Expr) (tgt : Frame)
  | shed (place : String) (e : Expr)
  | trap (place : String)
  | assign (place : String) (lhs rhs : Expr)

end

namespace Expr

def note : Expr → Note
  | num n _ | truth n _ | void n | undef n | auto n | id n .. | addrOf n .. | deref n _
  | field n .. | idx n .. | front n .. | len n _ | pointer n .. | unary n .. | binary n ..
  | choice n .. | call n .. | str n .. | cast n .. | fieldVal n .. | recVal n .. | idxVal n ..
  | arrayVal n .. | stmts n .. => n

def setNote (m : Note) : Expr → Expr
  | num _ s => num m s
  | truth _ b => truth m b
  | void _ => void m
  | undef _ => undef m
  | auto _ => auto m
  | id _ s y => id m s y
  | addrOf _ b e => addrOf m b e
  | deref _ e => deref m e
  | field _ e s => field m e s
  | idx _ e i => idx m e i
  | front _ b e => front m b e
  | len _ e => len m e
  | pointer _ b e i u => pointer m b e i u
  | unary _ o e => unary m o e
  | binary _ o a b => binary m o a b
  | choice _ c a b => choice m c a b
  | call _ s y as => call m s y as
  | str _ k s => str m k s
  | cast _ e t y => cast m e t y
  | fieldVal _ e s t => fieldVal m e s t
  | recVal _ t is => recVal m t is
  | idxVal _ e i => idxVal m e i
  | arrayVal _ s t is => arrayVal m s t is
  | stmts _ k b => stmts m k b

def ty (e : Expr) : Ty := e.note.ty
def value (e : Expr) : Option Value := e.note.value
def place (e : Expr) : String := e.note.place
def setValue (v : Option Value) (e : Expr) : Expr := e.setNote { e.note with value := v }

def isUndef : Expr → Bool
  | undef _ => true
  | _ => false

def isAuto : Expr → Bool
  | auto _ => true
  | _ => false

mutual

def text : Expr → String
  | num _ s => "[num] " ++ s
  | truth _ b => if b then "[true]" else "[false]"
  | void _ => "[void_val]"
  | undef _ => "[undef]"
  | auto _ => "[auto_val]"
  | id _ s _ => "[id] " ++ s
  | addrOf _ b e => "[&]" ++ (if b then " @mut" else "") ++ " " ++ e.text
  | deref _ e => "[^] " ++ e.text
  | field _ e s => s!"[.] {e.text} . {s}"
  | idx _ e i => s!"AT {e.text} {i.text}"
  | front .. => "ExprFront"
  | len .. => "ExprLen"
  | pointer _ b e i u =>
    (if b then "DECP(" else "INCP(") ++ s!"{e.text}, {i.text}, {u.text})"
  | unary _ o e => s!"[Expr1] UNARY_EXPR_KIND.{o.name} {e.text}"
  | binary _ o a b => s!"{o.name}({a.text}, {b.text})"
  | choice _ c a b => s!"? {c.text} {a.text} {b.text}"
  | call _ s _ _ => "[call] [id] " ++ s
  | str _ _ s => "[ValString] " ++ s
  | cast _ e t none => s!"{e.text} AS {t.text}"
  | cast _ e t (some _) => s!"[is] {e.text} {t.text}"
  | fieldVal _ _ s _ => "[field_val] " ++ s
  | recVal _ t is => s!"[rec_val] [{t.text}] " ++ " ".intercalate (textAll is)
  | idxVal _ e i => s!"[index_val] [{i.text}] = {e.text}"
  | arrayVal _ s t _ => s!"[array_val] type={t.text} size={s.text}"
  | stmts .. => "[expr]"

def textAll : List Expr → List String
  | [] => []
  | e :: es => e.text :: textAll es

end
end Expr

/-! ## Definitions and modules -/

structure Param where
  place : String
  name : String
  type : TypeExpr
  ty : Ty := .unset

structure FnDef where
  place : String
  name : String
  params : List Param
  result : TypeExpr
  resultTy : Ty := .unset
  body : List Stmt
  isExtern : Bool := false
  isPlain : Bool := false

/-- A variable of a module. Plain names are not prefixed with the name of the module. -/
structure GlobalDef where
  place : String
  name : String
  type : TypeExpr
  ty : Ty := .unset
  init : Expr
  isMut : Bool := false
  isPlain : Bool := false

structure RecordDef where
  place : String
  name : String
  fields : List Param

/-- An enumeration with the values of its items, as far as they are given. -/
structure EnumDef where
  name : String
  kind : BaseKind
  items : List Expr

inductive Def where
  | fn (d : FnDef)
  | global (d : GlobalDef)
  | record (d : RecordDef)
  | enum (d : EnumDef)

structure Module where
  path : String := ""
  name : String
  isBuiltin : Bool := false
  /-- The paths of the modules that are imported. -/
  imports : List String := []
  defs : List Def

/-- No name may be there twice. Names come with their places. -/
def checkDistinct (names : List (String × String)) : Res Unit := do
  let _ ← names.foldlM (fun seen (s, place) =>
    if seen.contains s then illFormed place else .ok (s :: seen)) []

/-! ## Walks -/

/-- What an expression is to the node that it is part of. -/
inductive Role where
  | arg | returned | assigned | initial | item
  | addressed
  | part
  | global
  | other
  deriving DecidableEq

section Visit
variable {m : Type → Type} [Monad m] (h : Role → Expr → m (Option Expr)) (f : Role → Expr → m Expr)
  (g : Stmt → m Stmt)

mutual

/-- Rewrite an expression from the inside out by `f` and `g`. What `h` gives something for is replaced
and not looked into. -/
def Expr.walk (r : Role) (e : Expr) : m Expr := do
  match ← h r e with
  | some e => return e
  | none =>
    let e ← match e with
      | .addrOf n b e => .addrOf n b <$> e.walk .addressed
      | .deref n e => .deref n <$> e.walk .other
      | .field n e s => (.field n · s) <$> e.walk .other
      | .idx n e i => .idx n <$> e.walk .other <*> i.walk .other
      | .front n b e => .front n b <$> e.walk .other
      | .len n e => .len n <$> e.walk .other
      | .pointer n b e i u => .pointer n b <$> e.walk .other <*> i.walk .other <*> u.walk .other
      | .unary n o e => .unary n o <$> e.walk .other
      | .binary n o a b => .binary n o <$> a.walk .other <*> b.walk .other
      | .choice n c a b => .choice n <$> c.walk .other <*> a.walk .other <*> b.walk .other
      | .call n s y as => .call n s y <$> Expr.walkAll .arg as
      | .cast n e t y => (.cast n · t y) <$> e.walk .other
      | .fieldVal n e s t => (.fieldVal n · s t) <$> e.walk .item
      | .recVal n t is => .recVal n t <$> Expr.walkAll .part is
      | .idxVal n e i => .idxVal n <$> e.walk .item <*> i.walk .other
      | .arrayVal n s t is => (.arrayVal n · t ·) <$> s.walk .other <*> Expr.walkAll .part is
      | .stmts n k b => .stmts n k <$> Stmt.walkAll b
      | e => pure e
    f r e

def Expr.walkAll (r : Role) : List Expr → m (List Expr)
  | [] => pure []
  | e :: es => return (← e.walk r) :: (← Expr.walkAll r es)

def Stmt.walk : Stmt → m Stmt
  | .define v e => do g (.define v (← e.walk .initial))
  | .blk p k l b => do g (.blk p k l (← Stmt.walkAll b))
  | .defer p b => do g (.defer p (← Stmt.walkAll b))
  | .cond p c t e => do
    let c ← c.walk .other
    g (.cond p c (← Stmt.walkAll t) (← Stmt.walkAll e))
  | .ret p e k => do g (.ret p (← e.walk .returned) k)
  | .shed p e => do g (.shed p (← e.walk .other))
  | .assign p l r => do
    g (.assign p (← l.walk .other) (← r.walk .assigned))
  | s => g s

def Stmt.walkAll : List Stmt → m (List Stmt)
  | [] => pure []
  | s :: ss => return (← s.walk) :: (← Stmt.walkAll ss)

end

def Expr.visit : Role → Expr → m Expr := Expr.walk (fun _ _ => pure none) f g
def Stmt.visitAll : List Stmt → m (List Stmt) := Stmt.walkAll (fun _ _ => pure none) f g

def Def.walk : Def → m Def
  | .fn d => return .fn { d with body := ← Stmt.walkAll h f g d.body }
  | .global d => return .global { d with init := ← d.init.walk h f g .global }
  | d => return d

end Visit

def noting {α β : Type} (p : α → List β) (x : α) : StateM (List β) α := do
  modify (· ++ p x)
  return x

/-- What is found in statements and their parts. -/
def gather {α : Type} (p : Expr → List α) (q : Stmt → List α) (ss : List Stmt) : List α :=
  ((Stmt.visitAll (fun _ => noting p) (noting q) ss).run []).2

end Retarget.FrontEnd
