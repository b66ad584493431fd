import Retarget.Decimal.Double

/-!
# Canonical C functions

Canonical functions have no loops, and a condition is a single test that goes to one of two labels.
Nodes are replaced from the inside out; what can stand for a statement depends on the class of the
node it is in.
-/

namespace Retarget.CTree

inductive Tree where
  | null
  | text (s : String)
  | list (ts : List Tree)
  | node (cls : String) (fields : List Tree)

/-- Names are made of a count. -/
abbrev Gen := StateT Nat Res

def fresh (stem : String) : Gen String := do
  return stem ++ "_" ++ decimal ((← getModify (· + 1)) + 1 : Nat)

namespace Tree

def empty : Tree := node "EmptyStatement" []
def goto (l : String) : Tree := node "Goto" [text l]
def mark (l : String) : Tree := node "Label" [text l, empty]
def cond (test yes no : Tree) : Tree := node "If" [test, yes, no]
def blk (ss : List Tree) : Tree := node "Compound" [list ss]

def isA (cs : List String) : Tree → Bool
  | node c _ => cs.contains c
  | _ => false

def single : List Tree → Tree
  | [t] => t
  | ts => blk ts

section
variable (enters : String → Bool) (f : String → Tree → Gen (List Tree))

mutual

/-- Replace nodes by what `f` makes of them, given the class of the node around them. -/
def rewrite (parent : String) : Tree → Gen (List Tree)
  | node c fs => do
    if enters c then f parent (node c (← rewriteFields c fs)) else return [node c fs]
  | t => return [t]

def rewriteFields (c : String) : List Tree → Gen (List Tree)
  | [] => return []
  | list ts :: fs => return list (← rewriteItems c ts) :: (← rewriteFields c fs)
  | t :: fs => return single (← t.rewrite c) :: (← rewriteFields c fs)

def rewriteItems (c : String) : List Tree → Gen (List Tree)
  | [] => return []
  | t :: ts => return (← t.rewrite c) ++ (← rewriteItems c ts)

end
end

def everywhere (f : String → Tree → Gen (List Tree)) (t : Tree) : Gen Tree := do
  return single (← t.rewrite (fun _ => true) f "FuncDef")

/-- Can several statements stand where one does? -/
def splices (parent : String) : Bool := ["Compound", "Case", "Default"].contains parent

/-- Can another statement stand where one does? -/
def swaps (parent : String) : Bool := ["Compound", "Default", "If", "For", "Label"].contains parent

def exchange (allowed : Bool) (new : List Tree) : Gen (List Tree) := do
  ensure allowed "replaced statement"
  return new

/-! ## Loops -/

def redir (jump tgt : String) (skips : List String) (parent : String) (t : Tree) : Gen Tree := do
  let step (parent : String) (t : Tree) :=
    if t.isA [jump] then exchange (swaps parent) [goto tgt] else return [t]
  return single (← t.rewrite (fun c => !skips.contains c) step parent)

/-- A `break` leaves the innermost loop or `switch`, and `continue` concerns loops only. -/
def bindJumps (next exit parent : String) (t : Tree) : Gen Tree := do
  let loops := ["While", "DoWhile", "For"]
  (← t.redir "Break" exit ("Switch" :: loops) parent).redir "Continue" next loops parent

def lowerWhile (parent : String) (t : Tree) : Gen (List Tree) := do
  match t with
  | node c [test, body] =>
    if !t.isA ["While", "DoWhile"] then return [t]
    let l ← fresh "while"
    let body ← body.bindJumps (l ++ "_cond") (l ++ "_exit") c
    let code := [mark l, body, mark (l ++ "_cond"), cond test (goto l) null, mark (l ++ "_exit")]
    exchange (swaps parent) [blk (if c = "While" then goto (l ++ "_cond") :: code else code)]
  | t => return [t]

def lowerFor (parent : String) : Tree → Gen (List Tree)
  | node "For" [init, test, next, body] => do
    let l ← fresh "for"
    let body ← body.bindJumps (l ++ "_next") (l ++ "_exit") "For"
    let again := if test matches null then goto l else cond test (goto l) null
    exchange (swaps parent) [blk ((if init matches null then [] else [init]) ++
      [goto (l ++ "_cond"), mark l, body, mark (l ++ "_next"),
        if next matches null then empty else next, mark (l ++ "_cond"), again,
        mark (l ++ "_exit")])]
  | t => return [t]

/-! ## Conditions -/

/-- Braces with nothing between them have no list of statements, and asking for its length fails. -/
def isEmpty : Tree → Res Bool
  | null => .ok true
  | node "Compound" [list ss] => .ok ss.isEmpty
  | node "Compound" _ => .error .wrongSort
  | t => .ok (t.isA ["EmptyStatement"])

def lowerIf (parent : String) (t : Tree) : Gen (List Tree) := do
  match t with
  | node "If" [test, yes, no] =>
    let jumps := isA ["Goto"]
    if jumps yes && jumps no then return [t]
    let l ← fresh "if"
    let skipsYes := (← yes.isEmpty) || jumps yes
    let skipsNo := (← no.isEmpty) || jumps no
    let tgt (t : Tree) (skips : Bool) (name : String) :=
      if jumps t then t else goto (l ++ if skips then "_end" else name)
    let first := if skipsYes then [] else
      [mark (l ++ "_true"), yes] ++ if skipsNo then [] else [goto (l ++ "_end")]
    let second := if skipsNo then [] else [mark (l ++ "_false"), no]
    exchange (splices parent || swaps parent)
      (cond test (tgt yes skipsYes "_true") (tgt no skipsNo "_false") ::
        (first ++ second ++ [mark (l ++ "_end")]))
  | t => return [t]

/-- The tests of a condition, made until its value is known. -/
def tests (yes no : Tree) : Tree → Gen (List Tree)
  | node "UnaryOp" [text "!", e] => tests no yes e
  | node "BinaryOp" [text "&&", a, b] => do
    let l ← fresh "branch"
    return (← tests (goto l) no a) ++ mark l :: (← tests yes no b)
  | node "BinaryOp" [text "||", a, b] => do
    let l ← fresh "branch"
    return (← tests yes (goto l) a) ++ mark l :: (← tests yes no b)
  | e => return [cond e yes no]

def splitIf (parent : String) : Tree → Gen (List Tree)
  | node "If" [test, yes, no] => do
    let code ← tests yes no test
    exchange (splices parent || code.length == 1) code
  | t => return [t]

/-! ## Labels -/

/-- Is what the node stands for done in one go? -/
def isStep : Tree → Bool
  | node "UnaryOp" (text op :: _) => ["*", "p++", "p--"].contains op
  | t => t.isA ["Goto", "Decl", "FuncCall", "Assignment", "ArrayRef", "Return"]

mutual

/-- The labels in their order, and between them what is done. What a label stands for is gone through
twice. -/
def trail : Tree → List (String ⊕ Tree)
  | node "Label" [text l, t] => .inl l :: (t.trail ++ t.trail)
  | node c fs =>
    let t := node c fs
    if t.isStep then [.inr t]
    else if t.isA ["For", "While", "If", "DoWhile"] then .inr t :: trailAll fs else trailAll fs
  | list ts => trailAll ts
  | _ => []

def trailAll : List Tree → List (String ⊕ Tree)
  | [] => []
  | t :: ts => t.trail ++ trailAll ts

end

/-- Each label that another one follows at once, the last such pair first. -/
def forwards : List (String ⊕ Tree) → List (String × String)
  | .inl a :: .inl b :: r => forwards (.inl b :: r) ++ [(a, b)]
  | _ :: r => forwards r
  | [] => []

/-- The label that a chain of labels ends in. -/
def follow (fs : List (String × String)) : Nat → String → Res String
  | 0, _ => .error .endless
  | n + 1, l => (fs.lookup l).elim (.ok l) (follow fs n)

def prune (fs : List (String × String)) (parent : String) : Tree → Gen (List Tree)
  | node "Goto" [text l] => return [goto (← follow fs (fs.length + 1) l)]
  | node "Label" [text l, t] =>
    if (fs.lookup l).isSome then exchange (splices parent) [] else return [node "Label" [text l, t]]
  | t => return [t]

def pruneLabels (t : Tree) : Gen Tree := do
  let t ← t.everywhere (prune (forwards t.trail))
  ensure (forwards t.trail).isEmpty "labels to merge"
  return t

/-! ## Functions -/

def isTruth : Tree → Bool
  | node "UnaryOp" (text op :: _) => op = "!"
  | node "BinaryOp" (text op :: _) => ["==", "!=", "<=", "<", ">=", ">", "&&", "||"].contains op
  | _ => false

/-- Tests are comparisons, and compound assignments are written out. -/
def finish (_ : String) : Tree → Gen (List Tree)
  | node "If" [test, yes, no] =>
    return [cond (if test.isTruth then test else
      node "BinaryOp" [text "!=", test, node "Constant" [text "int", text "0"]]) yes no]
  | node "Assignment" [text op, x, e] =>
    return [node "Assignment" [text "=", x,
      if op = "=" then e else node "BinaryOp" [text (op.dropEnd 1).toString, x, e]]]
  | node "BinaryOp" (text op :: es) => do
    ensure (op != "&&" && op != "||") "operator is left"
    return [node "BinaryOp" (text op :: es)]
  | t => return [t]

/-- The body of a function; without a result it ends in `return`. -/
def canonical (hasRes : Bool) (body : Tree) : Res Tree := do
  let passes := do
    let body ← (← body.everywhere lowerWhile).everywhere lowerFor
    let body ← (← body.everywhere lowerIf).everywhere splitIf
    let body ← body.pruneLabels
    let ss := match body with
      | node _ [list ss] => ss
      | _ => []
    everywhere finish <| if hasRes || ss.getLast?.any (isA ["Return"]) then body else
      blk (ss ++ [node "Return" [null]])
  passes.run' 0

end Tree

/-!
## Code for C functions

If an operation has operands of two number types, the one that is earlier in the order of types is
converted to the other.
-/

inductive Rank where
  | char | short | int | long | longLong

mutual

inductive Ty where
  | int (rank : Rank) (unsigned : Bool)
  | float
  | double
  | ptr
  | array (t : Ty) (n : Nat)
  | struct (fs : Fields)
  | union (fs : Fields)

inductive Fields where
  | nil
  | cons (name : String) (t : Ty) (rest : Fields)

end

/-- The place of a type in the order of conversions; zero if it is no number. -/
def Ty.level : Ty → Nat
  | int r unsigned => 2 * r.ctorIdx + unsigned.toNat + 1
  | float => 11
  | double => 12
  | _ => 0

/-- The type in which an operation is done. -/
def Ty.max (t u : Ty) : Ty := if u.level ≤ t.level then t else u
def roundUp (n a : Nat) : Nat := (n + a - 1) / a * a

variable (word : Nat)

def Rank.bytes : Rank → Nat
  | char => 1
  | short => 2
  | int => 4
  | long => word
  | longLong => 8

mutual

/-- Size and alignment. -/
def Ty.layout : Ty → Nat × Nat
  | .int r _ => (r.bytes word, r.bytes word)
  | .float => (4, 4)
  | .double => (8, 8)
  | .ptr => (word, word)
  | .array t n => (roundUp t.layout.1 t.layout.2 * n, t.layout.2)
  | .struct fs => (fs.inTurn 0, fs.align)
  | .union fs => (fs.atOnce, fs.align)

/-- Where fields end that begin at `size`. -/
def Fields.inTurn : Fields → Nat → Nat
  | .nil, size => size
  | .cons _ t fs, size => fs.inTurn (roundUp size t.layout.2 + t.layout.1)

def Fields.atOnce : Fields → Nat
  | .nil => 0
  | .cons _ t fs => Nat.max t.layout.1 fs.atOnce

def Fields.align : Fields → Nat
  | .nil => 1
  | .cons _ t fs => Nat.max t.layout.2 fs.align

end

/-- Where a field of a struct is, if the fields begin at `start`. -/
def Fields.off (f : String) : Fields → Nat → Option Nat
  | nil, _ => none
  | cons name t fs, start =>
    if name = f then some start
    else fs.off f (roundUp start (t.layout word).2 + (t.layout word).1)

/-- The kind of a register that holds a value, or else its address. -/
def Ty.kind : Ty → String
  | .int r unsigned => (if unsigned then "U" else "S") ++ decimal (8 * r.bytes word : Nat)
  | .float => "F32"
  | .double => "F64"
  | _ => s!"A{(8 * word : Nat)}"

def Fields.type (f : String) : Fields → Ty
  | nil => .ptr
  | cons name t fs => if name = f then t else fs.type f

/-! ## Expressions -/

def Ty.element : Ty → Ty
  | array t _ => t
  | t => t

def Ty.innermost : Ty → Ty
  | array t _ => t.innermost
  | t => t

/-- The number of innermost elements. -/
def Ty.count : Ty → Nat
  | array t n => n * t.count
  | _ => 1

inductive Expr where
  | var (x : String) (t : Ty)
  | num (n : Nat)
  /-- An operation with a result of the given type. -/
  | binary (op : String) (t : Ty) (a b : Expr)
  /-- A pointer to an element of the given type, moved by a number of elements. -/
  | step (element : Ty) (back : Bool) (p n : Expr)
  /-- A field of the struct that a pointer points to. -/
  | member (p : Expr) (fs : Fields) (f : String)
  | idx (a i : Expr)
  | load (t : Ty) (p : Expr)

inductive Val where
  | num (n : Int)
  | reg (name : String)

def Val.text : Val → String
  | num n => decimal n
  | reg x => x

/-- Lines of code; temporaries are counted. -/
abbrev Code := StateT (List String) Gen
def say (s : String) : Code PUnit := modify (· ++ [s])

/-- An instruction that sets a temporary. -/
def define (op kind args : String) : Code Val := do
  let t ← fresh ("%" ++ kind)
  say s!"  {op} {t}:{kind} = {args}"
  return .reg t

def mnemonics : List (String × String) :=
  [("*", "mul"), ("+", "add"), ("-", "sub"), ("/", "div"), ("%", "rem"), ("<<", "shl"),
    (">>", "shr"), ("^", "xor"), ("|", "or"), ("&", "and")]

namespace Expr

def type : Expr → Ty
  | var _ t => t
  | num _ => .int .int false
  | binary _ t _ _ => t
  | step .. => .ptr
  | member _ fs f => fs.type f
  | idx a _ => a.type.element
  | load t _ => t

/-! ### Subscripts

A chain of subscripts becomes one step from the array. Each subscript is counted in innermost
elements, in its own type, and their sum has the type of the first one. -/

def subscript (n : Nat) : Expr → List Expr
  | num 0 => []
  | i => [if n = 1 then i else binary "*" i.type i (num n)]

def total (i : Expr) (is : List Expr) : Expr := is.foldl (fun s j => binary "+" j.type s j) i

/-- What an expression becomes, given the array and the subscripts of its chain. -/
def close (e : Expr) : Expr × List Expr → Expr
  | (x, is) =>
    match e, is with
    | idx .., [] => load e.type x
    | idx .., i :: is => load e.type (step x.type.innermost false x (total i is))
    | _, _ => x

/-- The array that a chain begins with and its subscripts, the last one first. -/
def chain : Expr → Expr × List Expr
  | idx a i => (a.chain.1, subscript a.type.element.count (close i i.chain) ++ a.chain.2)
  | binary op t a b => (binary op t (close a a.chain) (close b b.chain), [])
  | step t back p n => (step t back (close p p.chain) (close n n.chain), [])
  | member p fs f => (member (close p p.chain) fs f, [])
  | load t p => (load t (close p p.chain), [])
  | e => (e, [])

def flatten (e : Expr) : Expr := e.close e.chain

/-! ### Code -/

/-- Numbers that are known need no conversion. -/
def convert (t u : Ty) : Val → Code Val
  | .reg x => if t.level ≠ 0 ∧ u.level ≠ 0 ∧ t.kind word ≠ u.kind word then
      define "conv" (u.kind word) x
    else return .reg x
  | v => return v

def scale (kind : String) (size : Int) : Val → Code Val
  | .num n => return .num (n * size)
  | .reg x => if size = 1 then return .reg x else define "mul" kind s!"{x} {size}"

/-- The value at an address. An array stands for its address. -/
def access (t : Ty) (a : Val) : Code Val :=
  if t matches .array .. then return a else define "ld" (t.kind word) (a.text ++ " 0")

def value : Expr → Code Val
  | var x (.array ..) => define "lea" (Ty.ptr.kind word) x
  | var x _ => return .reg x
  | num n => return .num n
  | binary op t a b => do
    let x ← convert word a.type (a.type.max b.type) (← a.value)
    let y ← convert word b.type (a.type.max b.type) (← b.value)
    let op ← need "operator" (mnemonics.lookup op)
    let sort := if x matches .num _ then ":" ++ t.kind word else ""
    define op (t.kind word) s!"{x.text}{sort} {y.text}"
  | step element back p n => do
    let x ← p.value
    let size : Int := (if back then -1 else 1) * (element.layout word).1
    let y ← scale (n.type.kind word) size (← n.value)
    define "lea" (Ty.ptr.kind word) s!"{x.text} {y.text}"
  | member p fs f => do
    let x ← p.value
    let n ← need "no such field" (fs.off word f 0)
    let a ← define "lea" (Ty.ptr.kind word) s!"{x.text} {n}"
    match fs.type f with
    | .struct _ | .union _ => broken "no value"
    | t => access word t a
  | idx .. => broken "subscript"
  | load t p => do access word t (← p.value)

end Expr

/-! ## Functions -/

inductive Stmt where
  | assign (x : String) (t : Ty) (e : Expr)
  | ret (e : Option Expr)
  | blk (ss : List Stmt)
  | switch (e : Expr) (body : List Stmt)
  /-- The place that a `switch` goes to for a number, or for all that have no place of their own. -/
  | case (n : Option Int)
  | leave

/-- A function, or a variable with its type and the literals for its initial value. -/
inductive Item where
  | var (x : String) (t : Ty) (init : Option (List String))
  | fn (name : String) (result : Option Ty) (params : List (String × Ty)) (body : List Stmt)

/-- Numbers above `top` go to `other`, and so do those of the rest that are not in the table. -/
structure Dispatch where
  top : Int
  other : String
  table : List (Int × String)

/-- Where a `switch` can go to. -/
def places (body : List Stmt) : List (Option Int) :=
  body.filterMap fun
    | .case n => some n
    | _ => none

def Dispatch.of (stem : String) (body : List Stmt) : Dispatch :=
  let ns := (places body).filterMap id
  ⟨ns.foldl max 0, stem ++ if none ∈ places body then "default" else "end",
    ns.map fun n => (n, stem ++ decimal n)⟩

def Expr.emit (e : Expr) (t : Ty) : Code String := do
  return (← convert word e.type t (← e.flatten.value word)).text

mutual

/-- Code for a statement. Right in a `switch`, whose labels begin with a stem, a break leaves it. -/
def Stmt.emit (result : Option Ty) (stem : String) : Stmt → Code PUnit
  | .assign x t e => do say s!"  mov {x} = {← e.emit word t}"
  | .ret none => say "  ret"
  | .ret (some e) => do
    say s!"  mov %out = {← e.emit word (result.getD e.type)}"
    say "  pusharg %out\n  ret"
  | .blk ss => Stmt.emitAll result "" ss
  | .switch e body => do
    let x ← e.emit word e.type
    let stem := (← fresh "switch") ++ "_"
    let d := Dispatch.of stem body
    ensure (d.table.all (0 ≤ ·.1)) "case below zero"
    say s!"  blt {d.top}:{e.type.kind word} {x} {d.other}"
    say (s!"  .jtb {stem}tab  {d.top + 1} {d.other} " ++
      bracketed (d.table.map fun (n, l) => s!"{n} {l}"))
    say s!"  switch {x} {stem}tab"
    Stmt.emitAll result stem body
    say s!"\n.bbl {stem}end"
  | .case n => say (s!".bbl {stem}" ++ n.elim "default" decimal)
  | .leave => do
    ensure (stem != "") "break"
    say s!"  bra {stem}end"

def Stmt.emitAll (result : Option Ty) (stem : String) : List Stmt → Code PUnit
  | [] => return
  | s :: ss => do
    s.emit result stem
    Stmt.emitAll result stem ss

end

/-! ## Initial values -/

/-- A literal without the mark of its type. One with needless zeros is read as a real number. -/
def literal (s : String) : Res (Int ⊕ Double) :=
  let mark := (["ull", "ll", "ul", "l", "u"].find? fun m => s.toLower.endsWith m).getD ""
  let s := (s.dropEnd mark.length).toString
  match Text.integer? s with
  | some n => .ok (.inl n)
  | none => .inr <$> Double.read s

/-- The bytes of an initial value as they are written, of which there are no more than four. -/
def Ty.initial : Ty → Int ⊕ Double → Texts
  | int .char _, n => .ok [n.elim decimal Double.render]
  | int r _, .inl n => .ok ((leBytes (min (r.bytes word) 4) n).map fun b => decimal b.toNat)
  | int _ _, .inr x => .error (.malformed x.render)
  | _, _ => broken "initial value"

/-- The bytes for all elements. -/
def Ty.initials (t : Ty) (ns : List (Int ⊕ Double)) : Texts := do
  ensure (ns.length == t.count) "initial values"
  return (← ns.mapM (t.innermost.initial word)).flatten

def Item.emit : Item → Code PUnit
  | var x t init => do
    let (size, align) := t.layout word
    say s!"\n.mem {x} {align} RW"
    match init with
    | none => say s!".data {size} [0]"
    | some ss => say s!".data 1 {bracketed (← (ss.mapM literal).bind (t.initials word))}"
  | fn name result params body => do
    StateT.lift (set 0)
    let outs := (result.map (Ty.kind word)).toList
    say s!"\n\n.fun {name} NORMAL {bracketed outs} = {bracketed (params.map (Ty.kind word ∘ Prod.snd))}"
    outs.forM fun k => say s!".reg {k} [%out]"
    say "\n.bbl %start"
    params.forM fun (x, t) => say s!"  poparg {x}:{t.kind word}"
    Stmt.emitAll word result "" body
    unless result.isSome || body.getLast? matches some (.ret _) do say "  ret"

def translate (file : String) (items : List Item) : Texts := do
  let line := "".pushn '#' 60
  let (((), lines), _) ← ((items.forM (Item.emit word)).run [line, "# " ++ file, line]).run 0
  return lines

end Retarget.CTree
