import Retarget.IR.Flow

/-!
# C source of a program

Registers become local variables, branches jumps to labels. Arguments are collected until the call;
results are assigned to a variable per called function and fetched from there.

Text is written piece by piece, and what has been written stays when something fails.
-/

namespace Retarget.CSource
open IR

/-! ## Names and types

A percent sign, which begins generated names, becomes a mark for the sort of thing it names. -/

def typeName (k : Kind) : Res String :=
  match k.flavor with
  | .signed => .ok s!"int{k.bits}_t"
  | .unsigned => .ok s!"uint{k.bits}_t"
  | .addr => .ok "void*"
  | .code => .ok "FUN_POINTER"
  | _ => if k = .f32 then .ok "float" else if k = .f64 then .ok "double" else unknown k.name

variable (p : Prog) (f : Fn)

def fnName : String := if f.kind = .builtin || f.name == "main" then f.name else "A_" ++ f.name
def resultType : String := s!"struct {fnName f}_output"

def marked (mark : Char) : List Char → List Char
  | [] => []
  | c :: cs => (if c = '%' then [mark, '_'] else [c]) ++ marked mark cs

def mangle (mark : Char) (s : String) : String := .ofList (marked mark s.toList)
def regName (r : Reg) : String := mangle 'L' r.name
def blkName (b : Blk) : String := mangle 'B' b.name
def memName (m : Mem) : String := mangle 'M' m.name
def areaName (a : Area) : String := mangle 'S' a.name

variable (x : Opnd)

def valueText : Res String :=
  match x with
  | .reg r => .ok (regName (f.reg r))
  | .lit c =>
    let l := f.lit c
    .ok (l.value.render ++ if l.kind = .s64 || l.kind = .u64 then "LL" else "")
  | _ => broken "no value"

def plusOff : Res String := do
  let s ← valueText f x
  return if s == "0" then "" else " + " ++ s

/-- Arithmetic. Shifts use as many bits of the amount as tell the width. -/
def aluExpr (op : Op) (k : Kind) (a b : String) : Res String :=
  let sign s b := .ok s!"{a} {s} {b}"
  let amount := s!"({b} & {(k.bits - 1 : Int)})"
  match op, k.isFloat with
  | .sub, _ => sign "-" b
  | .add, _ => sign "+" b
  | .mul, _ => sign "*" b
  | .div, _ => sign "/" b
  | .and, false => sign "&" b
  | .or, false => sign "|" b
  | .xor, false => sign "^" b
  | .shl, false => sign "<<" amount
  | .shr, false => sign ">>" amount
  | .rem, false => sign "%" b
  | .rem, true => .ok s!"fmod({a}, {b})"
  | .copysign, true => .ok s!"copysign({a}, {b})"
  | op, _ => unknown op.name

def maskText (width : Nat) : String := "0x" ++ "".pushn 'f' (width / 4)

def countExpr (op : Op) (width : Nat) (a : String) : Res String :=
  let w := decimal width
  let masked := s!"{a} & {maskText width}"
  if width = 64 then unknown op.name
  else match op with
    | .cntlz =>
      let excess := if width < 32 then s!" - {(32 - width : Int)}" else ""
      .ok s!"({a} == 0) ? {w} : __builtin_clz({masked}){excess}"
    | .cnttz => .ok s!"({a} == 0) ? {w}:  __builtin_ctz({masked})"
    | .cntpop => .ok s!"__builtin_popcount({masked})"
    | op => unknown op.name

def compareSign : Op → Res String
  | .beq | .cmpeq => .ok "=="
  | .bne => .ok "!="
  | .blt | .cmplt => .ok "<"
  | .ble => .ok "<="
  | op => unknown op.name

def baseText : Res String :=
  match x with
  | .mem m => .ok ("&" ++ memName (p.mem m))
  | .area a => .ok ("&" ++ areaName (f.area a))
  | .reg r => .ok (regName (f.reg r))
  | _ => broken "no base of an access"

def accessText (k : Kind) (base off : Opnd) : Res String := do
  let b ← baseText p f base
  let o ← valueText f off
  return s!"*({← typeName k}*)(((char*){b}) + {o})"

open Text Report

def line (s : String) : Report PUnit := say (s ++ "\n")
def statement (s : String) : Report PUnit := line s!"    {s};"

/-! ## Memory -/

def alignment (n : Int) : String := if n = 0 then "" else s!"__attribute__ ((aligned ({n})))"

def isZeroed (m : Mem) : Bool :=
  m.data.all fun
    | .bytes _ data => data.all (· == 0)
    | _ => false

def memberText (d : Datum) (n : Nat) : String :=
  let name := s!"X_{n}"
  match d with
  | .bytes .. => s!"    char {name}[{d.size}];"
  | .fnAddr .. => s!"    FUN_POINTER {name};"
  | .memAddr .. => s!"    char* {name};"

def stringLimit : Nat := 30

def contentText : Datum → String
  | .bytes count data => quoteLines stringLimit (List.replicate count.toNat data).flatten
  | .fnAddr _ f => "(FUN_POINTER)&" ++ fnName (p.fn f)
  | .memAddr _ m off => s!"((char*)&{memName (p.mem m)}) + {off}"

def emitMem (m : Mem) : Report PUnit := do
  line "struct \x7b"
  m.data.zipIdx.forM fun (d, n) => line (memberText d n)
  say s!"\x7d {alignment m.alignment} {memName m}"
  if isZeroed m then line ";\n"
  else
    line "= \x7b"
    m.data.zipIdx.forM fun (d, n) => line ("    " ++ (if n = 0 then "" else ",") ++ contentText p d)
    line "\x7d;\n"

/-! ## Calls -/

structure CallState where
  rets : List String := []
  passed : List Opnd := []
  /-- The functions for whose results there is a variable. -/
  declared : List String := []

def valuesText (xs : List Opnd) : Res String := do
  return ", ".intercalate (← xs.mapM (valueText f))

def emitCall (s : CallState) (callee : Fn) (expr : String) : Report CallState := do
  let args ← valuesText f s.passed
  let call var type := do
    if !s.declared.contains callee.name then statement s!"{← type} {var}"
    say s!"    {var} = {expr} ("
    line (args ++ ");")
    return callee.name :: s.declared
  match callee.outputs with
  | [] =>
    line s!"    {expr} ("
    line (args ++ ");")
    return { s with passed := [] }
  | [k] =>
    let var := fnName callee ++ "_result"
    return ⟨[var], [], ← call var (typeName k)⟩
  | ks =>
    let var := fnName callee ++ "_results"
    let parts := (List.range ks.length).map fun (n : Nat) => s!"{var}.output{n}"
    return ⟨parts, [], ← call var (.ok (resultType callee))⟩

def emitReturn (s : CallState) : Report CallState := do
  match s.passed with
  | [] => statement "return"
  | [x] => statement s!"return {← valueText f x}"
  | xs =>
    xs.zipIdx.forM fun (x, n) => do
      statement s!"L_out.output{n} = {← valueText f x}"
    statement "return L_out"
  return { s with passed := [] }

/-! ## Instructions -/

variable (i : Ins)

def aluText : Res String := do
  let k := f.kindOf (i.arg 0)
  let a ← valueText f (i.arg 1)
  let b ← valueText f (i.arg 2)
  ensure (k.isInt || k.isFloat) "kind of arithmetic"
  aluExpr i.op k a b

def alu1Text : Res String := do
  match (f.kindOf (i.arg 0)).flavor with
  | .signed | .unsigned => countExpr i.op (f.kindOf (i.arg 1)).bits (← valueText f (i.arg 1))
  | .float => unknown i.op.name
  | _ => broken "kind of arithmetic"

def addrText : Res String := do
  match i.arg 1 with
  | .fn g => return "(FUN_POINTER)&" ++ fnName (p.fn g)
  | .mem m =>
    let x := p.mem m
    let base := if x.kind = .fix then s!"((char*) {x.alignment})" else
      s!"((char*)&{x.name})"
    return base ++ (← plusOff f (i.arg 2))
  | .area a => return s!"((char*)&{(f.area a).name}){← plusOff f (i.arg 2)}"
  | base => return (← valueText f base) ++ (← plusOff f (i.arg 2))

def assignedText : Res String := do
  match i.op.fam with
  | .alu => aluText f i
  | .alu1 => alu1Text f i
  | .mov => valueText f (i.arg 1)
  | .lea | .lea1 => addrText p f i
  | .ld => accessText p f (f.kindOf (i.arg 0)) (i.arg 1) (i.arg 2)
  | .conv => return s!"({(← typeName (f.kindOf (i.arg 0)))}) {← valueText f (i.arg 1)}"
  | .cmp =>
    let value n := valueText f (i.arg n)
    return s!"({← value 3} {← compareSign i.op} {← value 4})  ? {← value 1} : {← value 2}"
  | _ => broken "no statement"

def tgtName : Res String :=
  match x with
  | .blk b => .ok (blkName (f.blk b))
  | _ => .error .missingPart

def emitSwitch : Report PUnit := do
  match i.arg 1 with
  | .table n =>
    let t := f.table n
    line s!"    switch ({← valueText f (i.arg 0)}) \x7b"
    statement ("default: goto " ++ (f.blk t.fallback).name)
    t.cases.forM fun (k, b) => statement s!"case {k}: goto {(f.blk b).name}"
    line "    \x7d"
  | _ => broken "no jump table"

def emitIns (s : CallState) (i : Ins) : Report CallState := do
  match i.op.fam with
  | .condBra =>
    let a ← valueText f (i.arg 0)
    let b ← valueText f (i.arg 1)
    statement (s!"if ({a} {← compareSign i.op} {b})  goto " ++ (← tgtName f (i.arg 2)))
    return s
  | .bra =>
    statement s!"goto {← tgtName f (i.arg 0)}"
    return s
  | .switch =>
    emitSwitch f i
    return s
  | .bsr =>
    match i.arg 0 with
    | .fn g =>
      if (p.fn g).kind = .invalid then broken "undefined function"
      emitCall f s (p.fn g) (fnName (p.fn g))
    | _ => throw .missingPart
  | .jsr =>
    match i.arg 1 with
    | .fn g => emitCall f s (p.fn g) s!"({← valueText f (i.arg 0)})"
    | _ => throw .missingPart
  | .ret => emitReturn f s
  | .st =>
    let place ← accessText p f (f.kindOf (i.arg 2)) (i.arg 0) (i.arg 1)
    statement s!"{place} = {← valueText f (i.arg 2)}"
    return s
  | .poparg =>
    match s.rets with
    | [] => throw .pastEnd
    | r :: rs =>
      statement s!"{← valueText f (i.arg 0)} = {r}"
      return { s with rets := rs }
  | .pusharg => return { s with passed := i.arg 0 :: s.passed }
  | _ =>
    let value ← assignedText p f i
    statement s!"{← valueText f (i.arg 0)} = {value}"
    return s

/-! ## Functions -/

def inputNames : List String := (List.range f.inputs.length).map fun (n : Nat) => s!"input{n}"

def emitResType : Report PUnit := do
  line (resultType f ++ " \x7b")
  f.outputs.zipIdx.forM fun (k, n) => do statement s!"{← typeName k} output{n}"
  line "\x7d;\n"

def emitHead : Report PUnit := do
  let type ← match f.outputs with
    | [] => pure "void"
    | [k] => typeName k
    | _ => pure (resultType f)
  say s!"{type} {fnName f} ("
  (f.inputs.zip (inputNames f)).zipIdx.forM fun ((k, name), n) => do
    say ((if n = 0 then "" else ", ") ++ s!"{← typeName k} {name}")
  line ")"

def emitDeclaration : Report PUnit := do
  checkFn p f { edges := false, args := true }
  if f.outputs.length > 1 then emitResType f
  emitHead f
  line ";"

/-- Variables for results, registers and stack areas; the latter are in the order of their names. -/
def emitVariables : Report PUnit := do
  if f.outputs.length > 1 then statement (resultType f ++ " L_out")
  f.regIds.forM fun r => do statement s!"{← typeName (f.reg r).kind} {regName (f.reg r)}"
  (f.areas.toList.mergeSort fun a b => a.name ≤ b.name).forM fun a =>
    statement (s!"char {areaName a}[{a.count}] " ++ alignment a.alignment)

/-- Blocks start with nothing under way, but in the first one the parameters are to be fetched. -/
def emitBlks (p : Prog) (f : Fn) : List BlkId → CallState → Report PUnit
  | [], _ => pure ()
  | b :: bs, s => do
    line (blkName (f.blk b) ++ ": ;")
    let s ← (f.blk b).code.foldlM (fun s i => emitIns p f s (f.ins i)) s
    emitBlks p f bs { s with rets := [], passed := [] }

def emitFn : Report PUnit := do
  emitHead f
  line "\x7b"
  emitVariables f
  emitBlks p f f.order { rets := inputNames f }
  line "\x7d"
  line "\n"

def preamble : String :=
  "\n#include \"std_types.h\"\n\ntypedef void (*FUN_POINTER)(void);\n\n" ++
    "#define MIN(a, b) a < b ? a : b\n"

def emitProg : Report PUnit := do
  line preamble
  let fns := (p.fnOrder.map p.fn).filter fun f => f.kind != .builtin
  fns.forM (emitDeclaration p)
  p.memOrder.forM fun m => emitMem p (p.mem m)
  fns.forM (emitFn p)
  line "\n"

def source : String × Option Fault :=
  let (s, e) := (emitProg p).pieces
  (String.join s, e)

end Retarget.CSource
