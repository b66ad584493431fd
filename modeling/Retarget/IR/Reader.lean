import Retarget.IR.Flow

/-!
# Reading programs

Program text has a statement per line: directives, whose name starts with a point, and instructions,
which belong to the last block of the last function. Functions and blocks may be mentioned before
they are defined.
-/

namespace Retarget.Text

/-! ## Words

The tests look at characters only: a word may look like a number without being one. -/

def atEnd (cs : List Char) : Bool := cs.isEmpty || cs == ['\n']
def isNameChar (c : Char) : Bool := c.isAlphanum || "_$%@.:/<>,".toList.contains c

variable (s : String)

def isName : Bool :=
  match s.toList with
  | [] => false
  | c :: r => (c.isAlpha || "_$%".toList.contains c) && atEnd (r.dropWhile isNameChar)

def startsNum (c : Char) : Bool := c.isDigit || "-+.".toList.contains c
def looksNumeric : Bool := s.toList.head?.any startsNum
def isNumChar (c : Char) : Bool := startsNum c || "abcdefpxABCDEFPX".toList.contains c

def isNum : Bool :=
  (match s.toList with
    | [] => false
    | c :: r => startsNum c && atEnd (r.dropWhile isNumChar)) ||
  ["nan", "NAN", "inf", "INF"].any fun w => s == w || s == w ++ "\n"

def isHexChar (c : Char) : Bool := (digitValue c).isSome

def isInteger : Bool :=
  let (_, r) := signed s.toList
  let decimal := r.head?.any Char.isDigit && atEnd (r.dropWhile Char.isDigit)
  let hexadecimal := match r with
    | '0' :: m :: d :: r => (m == 'x' || m == 'X') && isHexChar d && atEnd (r.dropWhile isHexChar)
    | _ => false
  decimal || hexadecimal

/-- An integer; one that needs the top bit of a 64 bit word is taken as a signed word. -/
def int64? : Option Int :=
  (integer? s).map fun (n : Int) => if span 63 ≤ n && n < span 64 then n - span 64 else n

def double? : Option Double :=
  if s.startsWith "0x" || s.startsWith "0X" then
    (integer? s).bind fun n => if n < span 64 then some ⟨n.toNat.toUInt64⟩ else none
  else Double.read? s

def keyedHex (key : String) (n : Nat) : String := "#" ++ key ++ hex 1 n
def keyedBits (x : Double) : String := keyedHex "F" x.bits.toNat

end Retarget.Text

namespace Retarget.IR
open Lit Text

structure Reading where
  prog : Prog := {}
  unknownKind : Bool := false

abbrev ReadM := StateT Reading Res

namespace ReadM

def fail {α : Type} (why : String) : ReadM α := throw (.rejected why)
def require (cond : Bool) (why : String) : ReadM PUnit := if cond then pure ⟨⟩ else fail why

def get! {α : Type} (why : String) : Option α → ReadM α
  | some a => pure a
  | none => fail why

def prog : ReadM Prog := return (← get).prog
def fnAt (f : FnId) : ReadM Fn := return (← prog).fn f
def setProg (p : Prog) : ReadM PUnit := modify fun r => { r with prog := p }

def modifyProg (g : Prog → Prog) : ReadM PUnit :=
  modify fun r => { r with prog := g r.prog }

def modifyFn (f : FnId) (g : Fn → Fn) : ReadM PUnit := modifyProg (·.modifyFn f g)
def currentFn : ReadM FnId := do get! "statement outside of a function" (← prog).fnOrder.getLast?

def mentionFn (name : String) : ReadM FnId := do
  let p ← prog
  match p.findFn? name with
  | some f => return f
  | none =>
    setProg { p with fns := p.fns.push { name } }
    return p.fns.size

def mentionBlk (f : FnId) (name : String) : ReadM BlkId := do
  let x ← fnAt f
  match x.findBlk? name with
  | some b => return b
  | none =>
    modifyFn f fun x => { x with blks := x.blks.push { name, forward := true } }
    return x.blks.size

def addReg (f : FnId) (r : Reg) : ReadM RegId := do
  let x ← fnAt f
  require (x.findReg? r.name).isNone "duplicate register"
  modifyFn f fun x => { x with regs := x.regs.push r }
  return x.regs.size

end ReadM

open ReadM

def splitAtChar? (c : Char) (s : String) : Option (String × String) :=
  let cs := s.toList
  match cs.dropWhile (· != c) with
  | [] => none
  | _ :: r => some (String.ofList (cs.takeWhile (· != c)), String.ofList r)

variable (cpu : List CpuReg)

def readKind (s : String) : ReadM Kind := get! "unknown kind" (Kind.ofName? s)

def readHome (s : String) : ReadM Home := do
  if s = "STK" then return .stack 0
  return .cpu (← get! "unknown processor register" (cpu.find? (·.name == s)))

/-- A register operand `name`, `name:KIND`, each with an optional `@home`. -/
def readReg (f : FnId) (cpu : List CpuReg) (prev : Kind) (c : Constr) (s : String) :
  ReadM RegId := do
  let (s, home) ← match splitAtChar? '@' s with
    | some (a, b) => if a.isEmpty then pure (s, none) else pure (a, some (← readHome cpu b))
    | none => pure (s, none)
  let r ← match splitAtChar? ':' s with
    | none => get! "unknown register" ((← fnAt f).findReg? s)
    | some (name, kindName) =>
      let kind := Kind.ofName? kindName
      let r ← addReg f { name, kind := kind.getD .invalid }
      match kind with
      | some k => require (c.holds? prev k == some true) "register kind"
      | none =>
        require (c == .any || (c == .sameAsPrev && prev == .invalid)) "unknown kind"
        modify fun x => { x with unknownKind := true }
      pure r
  match home with
  | none => return r
  | some h =>
    let old := ((← fnAt f).reg r).home
    if old = .free then modifyFn f (·.modifyReg r fun x => { x with home := h })
    else require (old = h) "inconsistent home"
    return r

/-- A literal operand; without a kind of its own it takes the previous one, or that of an
offset. -/
def readLit (prev : Kind) (c : Constr) (s : String) : ReadM Lit := do
  match splitAtChar? ':' s with
  | some (v, k) => (read v (← readKind k) : Res Lit)
  | none =>
    match c with
    | .sameAsPrev => (read s prev : Res Lit)
    | .off => (readOff s : Res Lit)
    | .uint =>
      require (!s.startsWith "-") "negative number"
      (readOff s : Res Lit)
    | _ => fail "literal without kind"

def addLit (f : FnId) (c : Lit) : ReadM LitId := do
  let n := (← fnAt f).lits.size
  modifyFn f fun x => { x with lits := x.lits.push c }
  return n

def ReadM.word : Item → ReadM String
  | .word s => pure s
  | .list _ => fail "no word"

def readInt (x : Item) : ReadM Int := do get! "not an integer" (integer? (← word x))

def listed : Item → ReadM (List String)
  | .list xs => pure xs
  | .word s => do
    require (s.startsWith "\"" && s.endsWith "\"") "no list"
    return s.toList.map (·.toString)

def readElement (s : String) : Res Text.Bytes := do
  match s.toList with
  | [] => throw .pastEnd
  | '"' :: _ => unquote s
  | _ =>
    let (v, width) := match s.splitOn ":" with
      | [] => (s, "u8")
      | [v] => (v, "u8")
      | v :: w :: _ => (v, w)
    match width.toList with
    | [] => throw .pastEnd
    | 'f' :: _ =>
      let x ← Double.read v
      if width = "f32" then packReal true x
      else if width = "f64" then packReal false x
      else throw .wrongSort
    | sign :: _ =>
      let n ← Text.readInt v
      match [("u8", 1), ("s8", 1), ("u16", 2), ("s16", 2), ("u32", 4), ("s32", 4), ("u64", 8),
          ("s64", 8)].lookup width with
      | some count => packInt (sign == 'u') count n
      | none => throw .wrongSort

def readBytes : Item → Res Text.Bytes
  | .word s => readElement s
  | .list xs => do return (← xs.mapM readElement).flatten

def readData (x : Item) : ReadM Text.Bytes := do
  match x with
  | .list _ => pure ()
  | .word s => require (s.startsWith "\"" && s.endsWith "\"") "data of no form"
  (readBytes x : Res Text.Bytes)

def readKinds (x : Item) : ReadM (List Kind) := do (← listed x).mapM readKind

def readName (x : Item) : ReadM String := do
  let s ← word x
  require (isName s) "bad name"
  return s

/-- Add an entry to a table of cases; a later entry for the same number replaces the earlier. -/
def insertCase (n : Int) (b : BlkId) : List (Int × BlkId) → List (Int × BlkId)
  | [] => [(n, b)]
  | (m, c) :: r => if m = n then (m, b) :: r else (m, c) :: insertCase n b r

def readCases (f : FnId) : List String → List (Int × BlkId) → ReadM (List (Int × BlkId))
  | [], acc => pure acc
  | n :: b :: r, acc => do
    let n ← readInt (.word n)
    readCases f r (insertCase n (← mentionBlk f b) acc)
  | _, _ => fail "odd table"

def declareFn (name kind outs ins : Item) : ReadM PUnit := do
  let name ← readName name
  let kind ← get! "unknown kind of function" (FnKind.ofName? (← word kind))
  let outputs ← readKinds outs
  let inputs ← readKinds ins
  require (inputs.length ≤ 64 && outputs.length ≤ 64) "too many parameters"
  let p ← prog
  match p.findFn? name with
  | none =>
    let x := if kind = .invalid then { name } else { name, kind, inputs, outputs }
    setProg { p with fns := p.fns.push x, fnOrder := p.fnOrder ++ [p.fns.size] }
  | some f =>
    let old := (p.fn f).kind
    if old = .invalid then
      require (kind != .invalid) "function without kind"
      setProg { p.modifyFn f (fun x => { x with kind, inputs, outputs }) with
        fnOrder := p.fnOrder ++ [f] }
    else if old = .external || kind = .external then
      require ((p.fn f).outputs = outputs && (p.fn f).inputs = inputs) "different signature"
      if kind = .external then return
      setProg { p.modifyFn f (fun x => { x with kind }) with
        fnOrder := p.fnOrder.erase f ++ [f] }
    else fail "duplicate function"

def declareBlk (name : Item) : ReadM PUnit := do
  let name ← readName name
  let f ← currentFn
  let x ← fnAt f
  match x.findBlk? name with
  | none =>
    modifyFn f fun x =>
      { x with blks := x.blks.push { name }, order := x.order ++ [x.blks.size] }
  | some b =>
    require (x.blk b).forward "duplicate block"
    modifyFn f fun x =>
      { x.modBlk b (fun y => { y with forward := false }) with order := x.order ++ [b] }

def declareMem (name alignment kind : Item) : ReadM PUnit := do
  let name ← readName name
  let alignment ← readInt alignment
  let kind ← get! "unknown kind of memory" (MemKind.ofName? (← word kind))
  let p ← prog
  match p.findMem? name with
  | none =>
    setProg { p with
      mems := p.mems.push { name, alignment, kind }, memOrder := p.memOrder ++ [p.mems.size] }
  | some m =>
    if kind = .external then return
    else if (p.mem m).kind = .external then
      setProg { p.modifyMem m (fun x => { x with kind, alignment }) with
        memOrder := p.memOrder.erase m ++ [m] }
    else fail "duplicate memory"

def addDatum (d : Datum) : ReadM PUnit := do
  let m ← get! "content outside of a memory region" (← prog).memOrder.getLast?
  modifyProg fun p => p.modifyMem m fun x => { x with data := x.data ++ [d] }

def memNamed (x : Item) : ReadM MemId := do
  get! "unknown memory" ((← prog).findMem? (← word x))

def runDirective (d : Directive) (args : List Item) : ReadM PUnit := do
  match d, args with
  | .mem, [name, alignment, kind] => declareMem name alignment kind
  | .data, [count, data] => addDatum (.bytes (← readInt count) (← readData data))
  | .addrFun, [size, f] => addDatum (.fnAddr (← readInt size) (← mentionFn (← word f)))
  | .addrMem, [size, m, off] =>
    addDatum (.memAddr (← readInt size) (← memNamed m) (← readInt off))
  | .fn, [name, kind, outs, ins] => declareFn name kind outs ins
  | .blk, [name] => declareBlk name
  | .reg, [kind, names] =>
    let kind ← readKind (← word kind)
    let names ← listed names
    require (names.all isName) "bad name"
    let f ← currentFn
    names.forM fun name => discard (addReg f { name, kind })
  | .slot, [name, alignment, count] =>
    let name ← readName name
    let alignment ← readInt alignment
    let count ← readInt count
    let f ← currentFn
    require (alignment > 0) "alignment"
    require (((← fnAt f).findArea? name).isNone) "duplicate area"
    modifyFn f fun x => { x with areas := x.areas.push { name, alignment, count } }
  | .table, [name, size, fallback, cases] =>
    let name ← readName name
    let size ← readInt size
    let f ← currentFn
    let fallback ← mentionBlk f (← word fallback)
    let cases ← readCases f (← listed cases) []
    require (((← fnAt f).findTable? name).isNone) "duplicate table"
    modifyFn f fun x => { x with tables := x.tables.push { name, size, fallback, cases } }
  | _, _ => fail "number of operands"

def readOpnd (f : FnId) (cpu : List CpuReg) (prev : Kind) (k : OpndKind) (c : Constr)
  (x : Item) : ReadM (Opnd × Kind) := do
  let regOpnd s := do
    let r ← readReg f cpu prev c s
    return (.reg r, ((← fnAt f).reg r).kind)
  let litOpnd s := do
    let v ← readLit prev c s
    return (.lit (← addLit f v), v.kind)
  match k with
  | .reg => regOpnd (← word x)
  | .lit => litOpnd (← word x)
  | .regOrLit =>
    let s ← word x
    if looksNumeric s then litOpnd s else regOpnd s
  | .blk => return (.blk (← mentionBlk f (← word x)), prev)
  | .mem => return (.mem (← memNamed x), prev)
  | .slot => return (.area (← get! "unknown area" ((← fnAt f).findArea? (← word x))), prev)
  | .fn => return (.fn (← mentionFn (← word x)), prev)
  | .table => return (.table (← get! "unknown table" ((← fnAt f).findTable? (← word x))), prev)
  | .bytes => return (.bytes (← readData x), prev)
  | _ => fail "operand of a directive"

def readOpnds (f : FnId) (cpu : List CpuReg) : OpndKinds → List Item → Kind → ReadM (List Opnd)
  | [], [], _ => pure []
  | (k, c) :: ks, x :: xs, prev => do
    let (o, prev) ← readOpnd f cpu prev k c x
    return o :: (← readOpnds f cpu ks xs prev)
  | _, _, _ => fail "number of operands"

/-- An address computation takes the form that fits what its base names; a missing offset is
zero. -/
def resolveLea (p : Prog) (f : FnId) (args : List Item) : ReadM (Op × List Item) := do
  match args with
  | _ :: .word base :: rest =>
    let x := p.fn f
    let op :=
      if (x.findReg? base).isSome then .lea
      else if (p.findFn? base).isSome then .leaFun
      else if (p.findMem? base).isSome then .leaMem
      else if (x.findArea? base).isSome then .leaStk
      else .lea
    return (op, if op != .leaFun && rest.isEmpty then args ++ [.word "0"] else args)
  | _ => fail "address without base"

def runInstruction (op : Op) (args : List Item) : ReadM PUnit := do
  let f ← currentFn
  let (op, args) ← if op = .lea then resolveLea (← prog) f args else pure (op, args)
  let opnds ← readOpnds f cpu op.opnds args .invalid
  let x ← fnAt f
  let b ← get! "instruction outside of a block" x.order.getLast?
  let i := x.code.size
  modifyFn f fun x =>
    { x.modBlk b (fun y => { y with code := y.code ++ [i] }) with
      code := x.code.push (.of op opnds) }
  checkTyping (← fnAt f) (.of op opnds)

def runStatement : List Item → ReadM PUnit
  | .word s :: args =>
    match Directive.ofName? s, Op.ofName? s with
    | some d, _ => runDirective d args
    | none, some op => runInstruction cpu op args
    | none, none => fail "unknown statement"
  | _ => fail "statement without name"

def readLines (cpu : List CpuReg) : List String → Nat → Reading → Res Reading
  | [], _, r => .ok r
  | l :: ls, n, r => do
    match groupTokens (← lineTokens l) false [] with
    | [] => readLines cpu ls (n + 1) r
    | items =>
      match (runStatement cpu items).run r with
      | .ok (_, r) => readLines cpu ls (n + 1) r
      | .error _ => .error (.badLine n)

def readProg (text : String) : Res Prog := do
  let r ← readLines cpu (lines text) 0 {}
  let p := r.prog
  p.fnOrder.forM fun f => do
    ensure ((p.fn f).kind != .invalid) "no definition"
    (p.fn f).order.forM fun b => ensure (!((p.fn f).blk b).forward) "no definition"
  if r.unknownKind then throw .missingPart
  return p

end Retarget.IR
