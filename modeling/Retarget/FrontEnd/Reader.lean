import Retarget.FrontEnd.Syntax

/-!
# Reading programs

A program is a nested list of words. Round brackets enclose a node, which begins with its name;
square brackets enclose a list, and a colon begins a list that goes on to the next bracket or colon.
Attributes begin with `@`. Macros are expanded in the nested lists.

Texts of several lines, module parameters and names of other modules are not covered.
-/

namespace Retarget.FrontEnd
open Expr

/-! ## Words -/

def isBracket (c : Char) : Bool := "()[]".toList.contains c
def isSpace (c : Char) : Bool := " \t\r\n".toList.contains c

/-- A raw text goes on to the next mark. -/
def rawTail : Char → List Char → Option (List Char × List Char)
  | 'r', '"' :: r =>
    let (t, rest) := r.span (· != '"')
    some ('"' :: t ++ rest.take 1, rest.drop 1)
  | _, _ => none

def scanLine : Nat → List Char → List String
  | 0, _ => []
  | _, [] => []
  | n + 1, c :: r =>
    if isSpace c then scanLine n r
    else if isBracket c then String.ofList [c] :: scanLine n r
    else
      match if c == '"' || c == '\'' then Text.quotedTail c r else rawTail c r with
      | some (t, rest) => String.ofList (c :: t) :: scanLine n rest
      | none =>
        if c == '\'' then scanLine n r
        else
          let (w, rest) := (c :: r).span fun c => !isBracket c && !isSpace c && c != '\''
          String.ofList w :: scanLine n rest

/-- Texts that explain a node are attributes of it, if they are kept. -/
def takeDocs (keep : Bool) : List (String × String) → List (String × String)
  | w :: v :: r =>
    if w.1 != "@doc" && w.1 != "@eoldoc" then w :: takeDocs keep (v :: r)
    else if keep then (s!"{w.1} {v.1}", w.2) :: takeDocs keep r
    else takeDocs keep r
  | r => r

def scanText (keep : Bool) (file text : String) : List (String × String) :=
  takeDocs keep ((Text.lines text).zipIdx.flatMap fun (line, k) =>
    let place := s!"{file}({(k + 1 : Nat)})"
    (scanLine line.length line.toList).map (·, place))

/-! ## Nesting -/

/-- A nested list of words. Brackets know where they are closed. -/
inductive Sexp where
  | word (s place : String)
  | node (items : List Sexp) (close : String)
  | list (items : List Sexp) (close : String)

namespace Sexp

def word? : Sexp → Option String
  | word s _ => some s
  | _ => none

def endsList : Sexp → Bool
  | word t _ => t == ":"
  | list .. => true
  | node .. => false

/-- One more word. The stack holds the items of the brackets that are open, innermost first. -/
def push : List (Bool × List Sexp) → String × String → Res (List (Bool × List Sexp))
  | stack, ("(", _) => .ok ((true, []) :: stack)
  | stack, ("[", _) => .ok ((false, []) :: stack)
  | (true, xs) :: (b, ys) :: stack, (")", k) => .ok ((b, node xs.reverse k :: ys) :: stack)
  | (false, xs) :: (b, ys) :: stack, ("]", k) => .ok ((b, list xs.reverse k :: ys) :: stack)
  | _, (")", _) | _, ("]", _) | [], _ => broken "unbalanced brackets"
  | (b, xs) :: stack, (s, k) => .ok ((b, word s k :: xs) :: stack)

def ofWords (ws : List (String × String)) : Res (List Sexp) := do
  match ← ws.foldlM push [(true, [])] with
  | [(_, xs)] => return xs.reverse
  | _ => broken "truncated file"

end Sexp

/-! ## Attributes and fields -/

def takeAttrs (xs : List Sexp) : List String × List Sexp :=
  let (as, rest) := xs.span fun x => x.word?.any (·.startsWith "@")
  ((as.filterMap Sexp.word?).map fun s => (s.drop 1).toString, rest)

/-- A node: its name with its place, its attributes, its other items and where it ends. -/
structure Form where
  tag : String
  place : String
  attrs : List String
  items : List Sexp
  close : String

abbrev Part := List String × Sexp
def parts (xs : List Sexp) : List Part := go xs.length xs
where
  go : Nat → List Sexp → List Part
  | 0, _ => []
  | n + 1, xs =>
    match takeAttrs xs with
    | (as, x :: rest) => (as, x) :: go n rest
    | (_, []) => []

namespace Form

/-- The form of a node, before whose bracket there are attributes. A name that ends in `!` stands
for one more attribute. -/
def of : Part → Res Form
  | (attrs, .node items close) =>
    match takeAttrs items with
    | (more, .word tag place :: rest) =>
      if tag.length > 1 && tag.endsWith "!" then
        .ok ⟨(tag.dropEnd 1).toString, place, "mut" :: (attrs ++ more), rest, close⟩
      else .ok ⟨tag, place, attrs ++ more, rest, close⟩
    | _ => broken "node without a name"
  | (_, .word _ place) | (_, .list _ place) => illFormed place

def has (f : Form) (attr : String) : Bool := f.attrs.contains attr
def parts (f : Form) : List Part := FrontEnd.parts f.items
def badSize {α : Type} (f : Form) : Res α := illFormed f.close

/-- A list at the start of some items, and what follows it. -/
def listIn (f : Form) : List Sexp → Res (List Sexp × List Sexp)
  | .list xs _ :: rest => .ok (xs, rest)
  | .word ":" _ :: rest => .ok (rest.takeWhile (!·.endsList), rest.dropWhile (!·.endsList))
  | _ => f.badSize

def list (f : Form) (k : Nat) : Res (List Sexp × List Sexp) := f.listIn (f.items.drop k)

def each {α : Type} (f : Form) (k : Nat) (g : Part → Res α) : Res (List α) := do
  (FrontEnd.parts (← f.list k).1).mapM g

end Form

/-! ## Names and numerals -/

def isName (s : String) : Bool :=
  match s.toList with
  | c :: r => (c.isAlpha || c == '_') && r.all fun c => c.isAlphanum || c == '_' || c == '$'
  | [] => false

def isNumeral (s : String) : Bool :=
  match s.toList with
  | '-' :: c :: r | c :: r =>
    (c.isDigit || c == '.') && r.all fun c => c.isDigit || c.isLower || "-+_.".toList.contains c
  | [] => false

def reserved : List String :=
  ["import field defrec id auto param ptr slice array sig union uniondelta typeof auto_val true",
    "false num undef void_val index_val field_val array_val slice_val rec_val call paren at len",
    "front is wrap unwrap as narrowto widento cast bitcast typeid uniontypetag unionuntagged",
    "sizeof offsetof expr block defer if case cond break continue return shed static_assert trap",
    "entry enum type let global fun modparam module srcloc stringify macro_id macro_let macro_for",
    "macro_param macro_invoke macro"].flatMap (·.splitOn " ")

def builtinMacros : List String := ["while", "for", "trylet", "tryset", "->"]
def isMacroName (s : String) : Bool := builtinMacros.contains s || s.endsWith "#"

/-! ## Macros -/

/-- A macro: its parameters with their kinds, the names that it introduces, and its body. Both begin
with `$`. -/
structure Macro where
  place : String
  name : String
  params : List (String × String)
  ids : List String
  body : List Sexp

def readMacro (f : Form) : Res Macro := do
  match f.items with
  | .word name _ :: .word .. :: _ =>
    let (ps, rest) ← f.list 2
    let (ids, rest) ← f.listIn rest
    let (body, _) ← f.listIn rest
    let params ← (parts ps).mapM fun x => do
      let f ← Form.of x
      match f.items with
      | [.word s _, .word kind _] => return (s, kind)
      | _ => f.badSize
    if !isMacroName name then illFormed f.place
    return ⟨f.place, name, params, ids.filterMap Sexp.word?, body⟩
  | _ => f.badSize

/-- What a word that begins with `$` stands for: one item with its attributes, or else a list. -/
abbrev Bindings := List (String × Bool × List Sexp)

def splitArgs : Nat → List Sexp → List (Bool × List Sexp)
  | 0, _ | _, [] => []
  | n + 1, .list xs _ :: rest => (true, xs) :: splitArgs n rest
  | n + 1, .word ":" _ :: rest =>
    (true, rest.takeWhile (!·.endsList)) :: splitArgs n (rest.dropWhile (!·.endsList))
  | n + 1, xs =>
    let k := (takeAttrs xs).1.length + 1
    (false, xs.take k) :: splitArgs n (xs.drop k)

def Macro.bind (m : Macro) (f : Form) : Res Bindings := do
  let args := splitArgs f.items.length f.items
  let k := m.params.length - 1
  let args := match m.params.getLast? with
    | some (_, "EXPR_LIST_REST") => args.take k ++ [(true, (args.drop k).flatMap fun
      | (true, xs) => [.list xs f.place]
      | (_, xs) => xs)]
    | _ => args
  if m.params.length != args.length then illFormed f.place
  (m.params.zip args).mapM fun ((s, kind), isList, xs) => do
    if kind.startsWith "EXPR_LIST" || kind == "STMT_LIST" then
      if !isList then illFormed f.place
    if kind == "ID" || kind == "FIELD" then ensure (xs.any fun x => x.word?.any isName) "name"
    return (s, isList, xs)

mutual

/-- Put in what is bound. A variable that is defined has the place of the invocation. -/
def Sexp.fill (place : String) (b : Bindings) : Sexp → Res (List Sexp)
  | .word s p =>
    if s == "$let" || s == "$let!" then .ok [.word (s.drop 1).toString place]
    else if s.startsWith "$" then return (← defined s (b.lookup s)).2
    else .ok [.word s p]
  | .list xs k => return [.list (← Sexp.fillAll place b xs) k]
  | .node (.word "$for" _ :: .word x _ :: .word l _ :: body) _ => do
    let (_, items) ← defined l (b.lookup l)
    let outs ← items.mapM fun
      | .list xs _ => Sexp.fillAll place ((x, true, xs) :: b) body
      | item => Sexp.fillAll place ((x, false, [item]) :: b) body
    return outs.flatMap fun
      | .list xs _ :: _ => xs
      | xs => xs.drop 1
  | .node xs k => return [.node (← Sexp.fillAll place b xs) k]

def Sexp.fillAll (place : String) (b : Bindings) : List Sexp → Res (List Sexp)
  | [] => return []
  | x :: xs => return (← x.fill place b) ++ (← Sexp.fillAll place b xs)

end

/-- Expansion counts the names that have been introduced. -/
abbrev ExpandM := StateT Nat Res

def Macro.apply (m : Macro) (f : Form) : ExpandM (List Sexp) := do
  let args ← m.bind f
  let no ← modifyGet fun no => (no, no + m.ids.length)
  let names := m.ids.zipIdx.map fun (s, k) =>
    let name := s!"{(s.drop 1).toString}${(no + k + 1 : Nat)}"
    (s, false, [Sexp.word name m.place])
  Sexp.fillAll f.place (names ++ args) m.body

def Sexp.invocation? (x : Sexp) : Option Form :=
  (Form.of ([], x)).toOption.filter (isMacroName ·.tag)

section Expand
variable (invoke : Form → ExpandM (List Sexp))

mutual

/-- Expand macros, those in the arguments of an invocation first. -/
def Sexp.expand : Sexp → ExpandM (List Sexp)
  | .word s p => return [.word s p]
  | .list xs k => return [.list (← Sexp.expandAll xs) k]
  | .node xs k => do
    let x : Sexp := .node (← Sexp.expandAll xs) k
    match x.invocation? with
    | some f => invoke f
    | none => return [x]

def Sexp.expandAll : List Sexp → ExpandM (List Sexp)
  | [] => return []
  | x :: xs => return (← x.expand) ++ (← Sexp.expandAll xs)

end
end Expand

/-- Expand an invocation, with no more than `n` expansions in one another. -/
def invoke (macros : List Macro) (n : Nat) (f : Form) : ExpandM (List Sexp) := do
  match n with
  | 0 => broken "nesting of macros"
  | n + 1 =>
    let out ← (← orFault (.illFormed f.place) (macros.find? (·.name == f.tag))).apply f
    match out.map Sexp.invocation? with
    | [some f] => invoke macros n f
    | _ => Sexp.expandAll (fun f => invoke macros (n - 1) f) out
termination_by n

/-! ## Types and expressions -/

def readTypeWord (place s : String) : Res TypeExpr :=
  match BaseKind.all.find? (·.keyword == s) with
  | some k => .ok (.base k)
  | none =>
    if s == "auto" then .ok .auto
    else if reserved.contains s then illFormed place
    else if isName s then .ok (.id s)
    else unknown s

def readType : Nat → Part → Res TypeExpr
  | 0, _ => broken "nesting"
  | _ + 1, (_, .word s place) => readTypeWord place s
  | n + 1, x => do
    let f ← Form.of x
    match f.tag, f.parts with
    | "ptr", [t] => return .ptr (f.has "mut") (← readType n t)
    | "slice", [t] => return .slice (f.has "mut") (← readType n t)
    | "array", [(_, .word s _), t] => return .array s (← readType n t)
    | "uniondelta", [t, part] => return .delta (← readType n t) (← readType n part)
    | "ptr", _ | "slice", _ | "array", _ | "uniondelta", _ => f.badSize
    | "union", _ =>
      match (← f.each 0 (readType n)).reverse with
      | last :: t :: ts =>
        return (t :: ts).foldl (fun rest t => .union (!f.has "untagged") t rest) last
      | _ => broken "union of one type"
    | tag, _ => unknown tag

/-- A text between marks, of the kind that the letter before them tells. -/
def readText? (s : String) : Option (TextKind × String) :=
  let (kind, cs) := match s.toList with
    | 'r' :: cs => (.raw, cs)
    | 'x' :: cs => (.hex, cs)
    | cs => (.escaped, cs)
  match cs with
  | '"' :: r =>
    if r.getLast? == some '"' then some (kind, String.ofList r.dropLast) else none
  | _ => none

def readExprWord (place s : String) : Res Expr :=
  let n := { place }
  match s with
  | "true" => .ok (.truth n true)
  | "false" => .ok (.truth n false)
  | "void_val" => .ok (.void n)
  | "undef" => .ok (.undef n)
  | "auto_val" => .ok (.auto n)
  | s =>
    match readText? s with
    | some (k, t) => .ok (.str n k t)
    | none =>
    if isName s then
      if reserved.contains s then illFormed place else .ok (.id n s .unresolved)
    else if isNumeral s || (s.length ≥ 2 && s.startsWith "'" && s.endsWith "'") then .ok (.num n s)
    else illFormed place

def Expr.isPlace : Expr → Bool
  | id .. | deref .. | idx .. | field .. => true
  | _ => false

def Expr.isCond : Expr → Bool
  | truth .. | id .. | deref .. | idx .. | field .. | call .. | unary .. | binary .. | choice ..
  | stmts .. | cast _ _ _ (some _) => true
  | _ => false

def Expr.isValue : Expr → Bool
  | undef _ | auto _ | fieldVal .. | idxVal .. => false
  | _ => true

def permitted (p : Expr → Bool) (e : Expr) : Res Expr := if p e then .ok e else illFormed e.place
def Expr.isInit (e : Expr) : Bool := e.isValue || e.isUndef || e.isAuto

mutual

def readExpr : Nat → Part → Res Expr
  | 0, _ => broken "nesting"
  | _ + 1, (_, .word s place) => readExprWord place s
  | n + 1, x => do
    let f ← Form.of x
    let note := { place := f.place }
    let expr x := do permitted isValue (← readExpr n x)
    match UnaryOp.ofSym? f.tag, BinaryOp.ofSym? f.tag, f.parts with
    | some op, _, [a] => return .unary note op (← expr a)
    | none, some op, [a, b] => return .binary note op (← expr a) (← expr b)
    | some _, _, _ | _, some _, _ => f.badSize
    | none, none, parts =>
      match f.tag, parts with
      | "pinc", [a, b] | "pdec", [a, b] =>
        return .pointer note (f.tag == "pdec") (← expr a) (← expr b) (.undef note)
      | "pinc", [a, b, c] | "pdec", [a, b, c] =>
        return .pointer note (f.tag == "pdec") (← expr a) (← expr b) (← expr c)
      | "&", [a] => return .addrOf note (f.has "mut") (← permitted isPlace (← expr a))
      | "^", [a] => return .deref note (← expr a)
      | ".", [a, (_, .word s _)] => return .field note (← expr a) s
      | "at", [a, b] => return .idx note (← expr a) (← expr b)
      | "front", [a] => return .front note (f.has "mut") (← expr a)
      | "len", [a] => return .len note (← expr a)
      | "?", [a, b, c] => return .choice note (← permitted isCond (← expr a)) (← expr b) (← expr c)
      | "as", [a, t] => return .cast note (← expr a) (← readType n t) none
      | "is", [a, t] => return .cast note (← expr a) (← readType n t) (some .unset)
      | "call", (_, .word s _) :: _ => return .call note s .unresolved (← f.each 1 expr)
      | "rec_val", t :: _ =>
        return .recVal note (← readType n t) (← f.each 1 fun x => do
          match ← readExpr n x with
          | .fieldVal m e s t => return .fieldVal m e s t
          | e => return .fieldVal { place := e.place } e "" "")
      | "field_val", [a] => return .fieldVal note (← readExpr n a) "" ""
      | "field_val", [a, (_, .word s _)] => return .fieldVal note (← readExpr n a) s ""
      | "array_val", [s, t] => return .arrayVal note (← readExpr n s) (← readType n t) []
      | "array_val", s :: t :: _ =>
        return .arrayVal note (← readExpr n s) (← readType n t) (← f.each 2 fun x => do
          match ← readExpr n x with
          | .idxVal m e i => return .idxVal m e i
          | e => return .idxVal { place := e.place } e (.auto { place := e.place }))
      | "index_val", [a] => return .idxVal note (← readExpr n a) (.auto note)
      | "index_val", [a, i] => return .idxVal note (← readExpr n a) (← readExpr n i)
      | "expr", _ => return .stmts note 0 (← f.each 0 (readStmt n))
      | tag, _ =>
        if reserved.contains tag || isMacroName tag then unknown tag
        else return .call note tag .unresolved (← f.each 0 expr)

def readStmt : Nat → Part → Res Stmt
  | 0, _ => broken "nesting"
  | _ + 1, (_, .word s place) =>
    match s with
    | "break" => .ok (.jump place false "" 0 "")
    | "continue" => .ok (.jump place true "" 0 "")
    | _ => illFormed place
  | n + 1, x => do
    let f ← Form.of x
    let place := f.place
    let expr x := do permitted isValue (← readExpr n x)
    let define s t e := do
      return .define ⟨place, 0, s, f.has "mut", f.has "ref", ← readType n t, .unset⟩ e
    match f.tag, f.parts with
    | "let", [(_, .word s _), t] => define s t (.auto { place })
    | "let", [(_, .word s _), t, e] => define s t (← permitted isInit (← readExpr n e))
    | "block", (_, .word s _) :: _ => return .blk place 0 s (← f.each 1 (readStmt n))
    | "defer", _ => return .defer place (← f.each 0 (readStmt n))
    | "if", c :: _ =>
      let (yes, rest) ← f.list (c.1.length + 1)
      let (no, _) ← f.listIn rest
      return .cond place (← permitted isCond (← expr c)) (← (parts yes).mapM (readStmt n))
        (← (parts no).mapM (readStmt n))
    | "break", [] | "continue", [] => return .jump place (f.tag == "continue") "" 0 ""
    | "break", [(_, .word s _)] | "continue", [(_, .word s _)] =>
      return .jump place (f.tag == "continue") s 0 ""
    | "return", [] => return .ret place (.void { place }) .fn
    | "return", [e] => return .ret place (← expr e) .fn
    | "shed", [e] => return .shed place (← expr e)
    | "trap", [] => return .trap place
    | "=", [l, r] => return .assign place (← permitted isPlace (← expr l)) (← expr r)
    | "let", _ | "block", _ | "if", _ | "break", _ | "continue", _ | "return", _ | "shed", _
    | "trap", _ | "=", _ => f.badSize
    | tag, _ =>
      if reserved.contains tag || isMacroName tag then unknown tag
      else illFormed place

end

/-! ## Definitions and modules -/

def readTyped (tag : String) (n : Nat) (x : Part) : Res Param := do
  let f ← Form.of x
  match f.tag == tag, f.parts with
  | true, [(_, .word s _), t] => return { place := f.place, name := s, type := ← readType n t }
  | _, _ => f.badSize

def readItem (n : Nat) (x : Part) : Res Expr := do
  let f ← Form.of x
  match f.tag, f.parts with
  | "entry", [_] => return .auto { place := f.place }
  | "entry", [_, e] => permitted (fun e => e.isValue || e.isAuto) (← readExpr n e)
  | _, _ => f.badSize

def readDef (macros : List Macro) (n : Nat) (f : Form) : Res Def := do
  let place := f.place
  let isPlain := f.has "cdecl"
  let global s t e := do
    return .global { place, name := s, type := ← readType n t, init := e,
                     isMut := f.has "mut", isPlain }
  match f.tag, f.parts with
  | "fun", (_, .word s _) :: _ =>
    let (ps, rest) ← f.list 1
    match parts rest with
    | t :: _ =>
      let (body, _) ← f.listIn (rest.drop (t.1.length + 1))
      let (body, _) ← (Sexp.expandAll (invoke macros 8) body).run 1
      return .fn { place, name := s, params := ← (parts ps).mapM (readTyped "param" n)
                   result := ← readType n t, body := ← (parts body).mapM (readStmt n)
                   isExtern := f.has "extern", isPlain }
    | [] => f.badSize
  | "global", [(_, .word s _), t] => global s t (.auto { place })
  | "global", [(_, .word s _), t, e] => global s t (← permitted isInit (← readExpr n e))
  | "defrec", (_, .word s _) :: _ =>
    return .record { place, name := s, fields := ← f.each 1 (readTyped "field" n) }
  | "enum", (_, .word s _) :: (_, .word k p) :: _ =>
    let kind ← orFault (.illFormed p) (BaseKind.all.find? (·.name == k))
    return .enum { name := s, kind, items := ← f.each 2 (readItem n) }
  | "global", _ | "defrec", _ | "fun", _ | "enum", _ => f.badSize
  | tag, _ => unknown tag

/-- The path of a module that is imported into another one. -/
def importPath (path name : String) : String :=
  let dir := if name.startsWith "." then (path.splitOn "/").dropLast
    else if name.startsWith "/" then [] else ["Lib"]
  let step (p : List String) s :=
    if s == ".." then p.dropLast else if s == "." || s == "" then p else p ++ [s]
  "/".intercalate ((name.splitOn "/").foldl step dir)

/-- Read a module, with the macros that it can use besides its own. -/
def readModule (n : Nat) (macros : List Macro) (path text : String) :
  Res (Module × List Macro) := do
  match parts (← Sexp.ofWords (scanText false (path ++ ".cw") text)) with
  | [x] =>
    let f ← Form.of x
    match f.tag, f.parts with
    | "module", (_, .word name _) :: _ =>
      let (_, rest) ← f.list 1
      let (defs, _) ← f.listIn rest
      let (imports, forms) := (← (parts defs).mapM Form.of).partition (·.tag == "import")
      let label (x : Option Sexp) := (x.bind Sexp.word?).getD ""
      checkDistinct (imports.map fun f => (label f.items.getLast?, f.place))
      let own ← (forms.filter (·.tag == "macro")).mapM readMacro
      let defs ← (forms.filter (·.tag != "macro")).mapM (readDef (own ++ macros) n)
      checkDistinct (forms.map fun f => (label f.items.head?, f.place))
      let imports := imports.map fun f => importPath path (label f.items.head?)
      return ({ path, name, isBuiltin := f.has "builtin", imports, defs }, own)
    | _, _ => f.badSize
  | _ => broken "not one module"

/-! ## Concrete syntax

Operators stand between their operands, and lines are broken in brackets whose content does not fit.
Covered are modules of variables whose types are names and whose values are made of names, numbers,
operators and calls. -/

inductive ListStyle where
  | inline | words
  /-- Nodes after a colon: statements or the like, those after another colon, definitions. -/
  | body | otherwise | defs
  /-- Parts of a value, which are nodes of the given name. -/
  | inits (tag : String)

namespace Form
variable (f : Form)

def styles : List ListStyle :=
  if isMacroName f.tag then
    (f.items.filter Sexp.endsList).map fun x => if x matches .list .. then .inline else .body
  else
    match f.tag with
    | "module" => [.inline, .defs]
    | "fun" => [.inline, .body]
    | "macro" => [.inline, .words, .body]
    | "if" => [.body, .otherwise]
    | "defrec" | "enum" | "block" | "expr" | "defer" | "cond" | "case" | "$for" => [.body]
    | "array_val" => [.inits "index_val"]
    | "rec_val" => [.inits "field_val"]
    | _ => [.inline]

/-- The items, without a last one that is as usual. -/
def shown : List Sexp :=
  let usual := match f.tag with
    | "global" | "let" | "$let" | "entry" | "index_val" => "auto_val"
    | "pinc" | "pdec" => "undef"
    | "return" => "void_val"
    | _ => ""
  if (f.items.getLast?.bind Sexp.word?).any (· == usual) then f.items.dropLast else f.items

def isCall : Bool :=
  isName f.tag && !(reserved ++ ["pinc", "pdec", "mparam"]).contains f.tag &&
    (BinaryOp.ofSym? f.tag).isNone

def attrTexts : List String :=
  (["polymorphic", "init", "fini", "pub", "wrapped", "extern", "mut", "ref", "cdecl", "untagged",
    "unchecked", "arg_ref", "res_ref", "builtin"].filter f.has ++
    f.attrs.filter (·.startsWith "eoldoc ")).map fun a => s!"@{a} "

def docs : List String := f.attrs.filter (·.startsWith "doc ")

end Form

/-- A part as a node of the given name. -/
def wrapPart (tag : String) (p : Part) : Part :=
  if (Form.of p).toOption.any (·.tag == tag) then p
  else ([], .node (.word tag "" :: p.1.map (fun a => .word ("@" ++ a) "") ++ [p.2]) "")

def newline (indent : Nat) : String := "\n" ++ String.ofList (List.replicate indent ' ')

section Layout
variable (layout : Nat → Part → Res String)
variable (indent : Nat)

def layoutLines (ps : List Part) : Res String := do
  return String.join ((← ps.mapM (layout indent)).map (newline indent ++ ·))

def layoutInline (ps : List Part) : Res String := do
  if ps.length > 2 || ps.any fun p => (Form.of p).toOption.any (!·.docs.isEmpty) then
    return s!" [{← layoutLines layout (indent + 8) ps}]"
  else return " " ++ bracketed (← ps.mapM (layout (indent + 8)))

def layoutList (ps : List Part) : ListStyle → Res String
  | .inline => layoutInline layout indent ps
  | .words => return " " ++ bracketed (ps.filterMap (·.2.word?))
  | .body => return s!" :{← layoutLines layout (indent + 4) ps}"
  | .otherwise => return s!"{newline (indent + 4)}:{← layoutLines layout (indent + 4) ps}"
  | .defs =>
    return " :" ++ String.join ((← ps.mapM (layout indent)).map (newline indent ++ · ++ "\n"))
  | .inits tag =>
    if ps.isEmpty && tag == "index_val" then return ""
    else layoutInline layout indent (ps.map (wrapPart tag))

def layoutItems (f : Form) (indent : Nat) : List ListStyle → List (Bool × List Sexp) → Res String
  | s :: ss, (true, xs) :: rest =>
    return (← layoutList layout indent (parts xs) s) ++ (← layoutItems f indent ss rest)
  | ss, (false, xs) :: rest => do
    let texts ← (parts xs).mapM (layout indent)
    return String.join (texts.map (" " ++ ·)) ++ (← layoutItems f indent ss rest)
  | [], (true, _) :: _ => f.badSize
  | _, [] => return ""

def layoutForm (f : Form) : Res String := do
  let rest := s!"{← layoutItems layout f indent f.styles (splitArgs f.shown.length f.shown)})"
  if isMacroName f.tag then return s!"({f.tag}{rest}"
  match f.tag, f.items with
  | "id", [.word s _] | "num", [.word s _] | "macro_id", [.word s _] => return s
  | "true", _ | "false", _ | "undef", _ | "void_val", _ | "auto", _ => return f.tag
  | tag, _ =>
    let text := String.join (f.docs.map ("@" ++ · ++ newline indent)) ++ "(" ++
      String.join f.attrTexts ++ (if f.isCall then "call " else "") ++ tag ++ rest
    if tag == "module" then return text ++ "\n"
    else if ["defrec", "static_assert", "enum", "type", "global", "fun", "macro"].contains tag then
      return "\n" ++ text
    else return text

end Layout

/-- Print a part of no more than `n` levels. -/
def layout (n indent : Nat) (p : Part) : Res String := do
  match n, p.2 with
  | 0, _ => broken "nesting"
  | _, .word s place =>
    if ["break", "continue", "auto_val"].contains s then return s!"({s})"
    else if reserved.contains s && !(["auto", "true", "false", "undef", "void_val"].contains s) then
      illFormed place
    else return s
  | n + 1, _ => layoutForm (layout n) indent (← Form.of p)

def reformat (file text : String) : Res String := do
  let ws := scanText true file text
  match parts (← Sexp.ofWords ws) with
  | [p] => return s!"{← layout (ws.length + 1) 0 p}\n"
  | _ => broken "not one module"

/-! ## Terms -/

inductive Term where
  | word (s : String)
  | unary (op : UnaryOp) (e : Term)
  | binary (op : BinaryOp) (a b : Term)
  | call (f : String) (args : List Term)

inductive Token where
  | word (s : String)
  | unary (op : UnaryOp)
  | binary (op : BinaryOp)
  | equals
  /-- A bracket, which is set apart from what is before it unless that is called. -/
  | opening (apart : Bool)
  | closing
  | comma

def UnaryOp.symbol : UnaryOp → String
  | .not => "!"
  | .minus => "~"

def BinaryOp.symbol (op : BinaryOp) : String := ((syms.find? (·.2 == op)).map Prod.fst).getD ""

/-- The tighter an operator binds, the lower its level. -/
def BinaryOp.level : BinaryOp → Nat
  | shl | rotl | shr | rotr => 20
  | mul | div | mod | and | xor => 30
  | or | add | sub => 35
  | max | min => 40
  | ge | gt | le | lt => 60
  | eq | ne => 65
  | andThen => 70
  | orElse => 75

namespace Term

def level : Term → Nat
  | binary op .. => op.level
  | _ => 0

/-- An operand of an operator, with its tokens. -/
def opnd (op : BinaryOp) (e : Term) (ts : List Token) : List Token :=
  if op.level < e.level then .opening true :: ts ++ [.closing] else ts

mutual

def tokens : Term → List Token
  | word s => [.word s]
  | unary op e => .unary op :: e.tokens
  | binary op a b => opnd op a a.tokens ++ .binary op :: opnd op b b.tokens
  | call f args => .word f :: .opening false :: argTokens args ++ [.closing]

def argTokens : List Term → List Token
  | [] => []
  | [e] => e.tokens
  | e :: es => e.tokens ++ .comma :: argTokens es

end
end Term

/-! ## Lines -/

def Token.text : Token → String
  | word s => s
  | unary op => op.symbol
  | binary op => op.symbol
  | equals => "="
  | opening _ => "("
  | closing => ")"
  | comma => ","

/-- The length of what follows `d` brackets, to the end of the outermost one. -/
def Token.spread : Nat → List Token → Nat
  | 0, _ | _, [] => 0
  | d + 1, t :: ts =>
    t.text.length + spread (match t with | closing => d | opening _ => d + 2 | _ => d + 1) ts

/-- What has been written, the length of the last line, whether a blank is due, and for the brackets
that are open the indentation and whether each comma ends a line. -/
structure Sheet where
  text : String
  column : Nat
  blank : Bool
  brackets : List (Nat × Bool)

namespace Sheet
variable (s : Sheet)

def indent : Nat := (s.brackets.head?.map Prod.fst).getD 0

def put (t : String) : Sheet :=
  let t := if s.column == 0 then String.ofList (List.replicate (4 * s.indent) ' ') ++ t else t
  { s with text := s.text ++ t, column := s.column + t.length, blank := false }

def newline : Sheet := { s with text := s.text ++ "\n", column := 0, blank := false }
def gap : Sheet := if s.blank then s.put " " else s

/-- Write a token, which is followed by the given ones. -/
def token (t : Token) (rest : List Token) : Sheet :=
  match t with
  | .word w =>
    let s := s.gap
    { (if s.column > 80 then s.newline else s).put w with blank := true }
  | .unary op => s.gap.put op.symbol
  | .binary _ | .equals => { s.gap.put t.text with blank := true }
  | .opening apart =>
    let s := (if apart then s.gap else s).put "("
    let length := 1 + Token.spread 1 rest
    if s.column + length > 80 then
      { s with brackets := (s.indent + 1, s.indent + length > 80) :: s.brackets }.newline
    else { s with brackets := (s.indent, false) :: s.brackets }
  | .closing => { { s with brackets := s.brackets.drop 1 }.put ")" with blank := true }
  | .comma =>
    let s := s.put ","
    if s.brackets.head?.any Prod.snd then s.newline else { s with blank := true }

def tokens (s : Sheet) : List Token → Sheet
  | [] => s
  | t :: ts => (s.token t ts).tokens ts

end Sheet

/-! ## Modules -/

mutual

def Expr.term : Expr → Res Term
  | .num _ s | .id _ s _ => .ok (.word s)
  | .truth _ b => .ok (.word (toString b))
  | .unary _ op e => return .unary op (← e.term)
  | .binary _ op a b => return .binary op (← a.term) (← b.term)
  | .call _ f _ args => return .call f (← Expr.terms args)
  | _ => unknown "expression"

def Expr.terms : List Expr → Res (List Term)
  | [] => return []
  | e :: es => return (← e.term) :: (← Expr.terms es)

end

/-- A variable, of which expressions of no more than `n` levels are read. -/
def Form.variableTokens (n : Nat) (f : Form) : Res (List Token) := do
  match f.tag, f.parts with
  | "global", (_, .word s _) :: (_, .word type place) :: init =>
    if (← readTypeWord place type) matches .auto then illFormed place
    let words := (["pub", "ref", "cdecl"].filter f.has).map ("@" ++ ·) ++
      [if f.has "mut" then "global!" else "global", s, type]
    match ← init.mapM (readExpr n) with
    | [] | [.auto _] => return words.map .word
    | [e] => return words.map .word ++ .equals :: (← (← permitted Expr.isValue e).term).tokens
    | _ => f.badSize
  | tag, _ => unknown tag

def concrete (file text : String) : Res String := do
  let ws := scanText false file text
  match ← (parts (← Sexp.ofWords ws)).mapM Form.of with
  | [f] =>
    match f.tag, f.items with
    | "module", .word name _ :: _ =>
      let (_, rest) ← f.list 1
      let (defs, _) ← f.listIn rest
      let texts ← (parts defs).mapM fun p => do
        let ts ← (← Form.of p).variableTokens ws.length
        return (Sheet.tokens ⟨"", 0, false, []⟩ ts).text ++ "\n\n"
      return s!"module {name}:\n\n{String.join texts}"
    | _, _ => f.badSize
  | _ => broken "not one module"

end Retarget.FrontEnd
