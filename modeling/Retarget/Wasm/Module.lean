import Retarget.Decimal.Double

/-!
# WebAssembly modules

Instructions are those of the one-byte part of the instruction set; numeric ones are made of a type
and an operation. Blocks are not nested here: `blk`, `loop` and `if` open one and `end` closes it.
-/

namespace Retarget.Wasm

inductive NumType where
  | i32 | i64 | f32 | f64
  deriving DecidableEq

inductive RefType where
  | func | foreign
  deriving DecidableEq

inductive ValType where
  | num (t : NumType)
  | ref (t : RefType)
  deriving DecidableEq

/-- What a block takes from the operand stack and leaves there. -/
inductive BlkType where
  | empty
  | value (t : ValType)
  | typed (idx : Nat)
  deriving DecidableEq

/-- How an operation reads the integers it is given, if that matters. -/
inductive Reading where
  | plain | signed | unsigned
  deriving DecidableEq

inductive Relation where
  | eq | ne | lt | gt | le | ge
  deriving DecidableEq

inductive UnaryOp where
  | clz | ctz | popcnt | abs | neg | ceil | floor | trunc | nearest | sqrt
  deriving DecidableEq

inductive BinaryOp where
  | add | sub | mul | div | rem | and | or | xor | shl | shr | rotl | rotr | min | max | copysign
  deriving DecidableEq

inductive Conversion where
  | wrap | trunc | extend | convert | demote | promote
  deriving DecidableEq

/-- A memory access that is narrower than the value, in bits. -/
structure Narrow where
  bits : Nat
  reading : Reading := .plain
  deriving DecidableEq

/-- The alignment that an access promises, as a power of two, and its offset. -/
structure Access where
  align : Nat
  off : Nat
  deriving DecidableEq

inductive Ins where
  | unreachable
  | nop
  | blk (t : BlkType)
  | loop (t : BlkType)
  | if_ (t : BlkType)
  | else_
  | end_
  | br (depth : Nat)
  | brIf (depth : Nat)
  | brTable (depths : List Nat) (other : Nat)
  | return_
  | call (f : Nat)
  | callIndirect (type table : Nat)
  | drop
  | select
  | localGet (n : Nat)
  | localSet (n : Nat)
  | localTee (n : Nat)
  | globalGet (n : Nat)
  | globalSet (n : Nat)
  | tableGet (n : Nat)
  | tableSet (n : Nat)
  | load (t : NumType) (n : Option Narrow) (a : Access)
  | store (t : NumType) (n : Option Narrow) (a : Access)
  | memorySize (memory : Nat)
  | memoryGrow (memory : Nat)
  | intConst (t : NumType) (n : Int)
  | realConst (t : NumType) (x : Double)
  | eqz (t : NumType)
  | compare (t : NumType) (r : Relation) (s : Reading)
  | unary (t : NumType) (op : UnaryOp)
  | binary (t : NumType) (op : BinaryOp) (s : Reading)
  | convert (c : Conversion) (dst src : NumType) (s : Reading)
  | reinterpret (dst src : NumType)
  deriving DecidableEq

namespace Ins

def isCmp : Ins → Bool
  | eqz _ | compare .. => true
  | _ => false

/-- Does the instruction end the flow of control, so that what follows it is not reached? Returns
and jumps by a table are not counted. -/
def leavesOpen : Ins → Bool
  | unreachable | br _ => true
  | _ => false

variable (t : NumType)

def intCompares : List Ins :=
  [eqz t, compare t .eq .plain, compare t .ne .plain] ++
    [Relation.lt, .gt, .le, .ge].flatMap fun r => [compare t r .signed, compare t r .unsigned]

def realCompares : List Ins :=
  [Relation.eq, .ne, .lt, .gt, .le, .ge].map fun r => compare t r .plain

def intArithmetic : List Ins :=
  [UnaryOp.clz, .ctz, .popcnt].map (unary t) ++
    [(BinaryOp.add, Reading.plain), (.sub, .plain), (.mul, .plain), (.div, .signed),
      (.div, .unsigned), (.rem, .signed), (.rem, .unsigned), (.and, .plain), (.or, .plain),
      (.xor, .plain), (.shl, .plain), (.shr, .signed), (.shr, .unsigned), (.rotl, .plain),
      (.rotr, .plain)].map fun (op, s) => binary t op s

def realArithmetic : List Ins :=
  [UnaryOp.abs, .neg, .ceil, .floor, .trunc, .nearest, .sqrt].map (unary t) ++
    [BinaryOp.add, .sub, .mul, .div, .min, .max, .copysign].map fun op => binary t op .plain

def truncations : List Ins :=
  [NumType.f32, .f64].flatMap fun s => [convert .trunc t s .signed, convert .trunc t s .unsigned]

def conversions : List Ins :=
  [NumType.i32, .i64].flatMap fun s =>
    [convert .convert t s .signed, convert .convert t s .unsigned]

/-- The instructions from comparisons to reinterpretations, in the order of their codes. They are
given nothing but operands. -/
def numeric : List Ins :=
  intCompares .i32 ++ intCompares .i64 ++ realCompares .f32 ++ realCompares .f64 ++
  intArithmetic .i32 ++ intArithmetic .i64 ++ realArithmetic .f32 ++ realArithmetic .f64 ++
  [convert .wrap .i32 .i64 .plain] ++ truncations .i32 ++
  [convert .extend .i64 .i32 .signed, convert .extend .i64 .i32 .unsigned] ++ truncations .i64 ++
  conversions .f32 ++ [convert .demote .f32 .f64 .plain] ++
  conversions .f64 ++ [convert .promote .f64 .f32 .plain] ++
  [reinterpret .i32 .f32, reinterpret .i64 .f64, reinterpret .f32 .i32, reinterpret .f64 .i64]

def numericBase : Nat := 0x45

def loads : List (NumType × Option Narrow) :=
  let narrow t bits := [(t, some ⟨bits, .signed⟩), (t, some ⟨bits, .unsigned⟩)]
  [(.i32, none), (.i64, none), (.f32, none), (.f64, none)] ++
    narrow .i32 8 ++ narrow .i32 16 ++ narrow .i64 8 ++ narrow .i64 16 ++ narrow .i64 32

def loadBase : Nat := 0x28

def stores : List (NumType × Option Narrow) :=
  [(.i32, none), (.i64, none), (.f32, none), (.f64, none), (.i32, some ⟨8, .plain⟩),
    (.i32, some ⟨16, .plain⟩), (.i64, some ⟨8, .plain⟩), (.i64, some ⟨16, .plain⟩),
    (.i64, some ⟨32, .plain⟩)]

def storeBase : Nat := 0x36

end Ins

/-! ## Modules

A module is a list of sections, of which there is at most one of each sort, and sections of its own
making. They refer to each other by position.
-/

structure FnType where
  params : List ValType
  rets : List ValType

/-- The sizes of a table or memory; a most of zero is none. -/
structure Limits where
  least : Nat
  most : Nat

structure TableType where
  element : RefType
  limits : Limits

structure GlobalType where
  value : ValType
  isMutable : Bool

/-- A sequence of instructions with the `end` that closes it. -/
abbrev Expr := List Ins

inductive ImportDesc where
  | fn (type : Nat)
  | table (t : TableType)
  | memory (limits : Limits)
  | global (t : GlobalType)

structure Import where
  module : String
  name : String
  desc : ImportDesc

structure Global where
  type : GlobalType
  init : Expr

inductive ExportDesc where
  | fn (n : Nat)
  | table (n : Nat)
  | memory (n : Nat)
  | global (n : Nat)

structure Export where
  name : String
  desc : ExportDesc

/-- The body of a function: counts of local variables with their types, and instructions. -/
structure Code where
  locals : List (Nat × ValType)
  body : Expr

/-- Bytes for a memory; without a place they are not put there at the start. -/
structure Data where
  place : Option (Nat × Expr)
  init : Text.Bytes

structure Elem where
  start : Expr
  fns : List Nat

/-- The sorts of sections apart from those of a module's own making, in the order of their codes. -/
inductive SecSort where
  | type | import_ | function | table | memory | global | export_ | start | element | code | data
  | dataCount

def SecSort.all : List SecSort :=
  [type, import_, function, table, memory, global, export_, start, element, code, data, dataCount]

structure Function where
  name : String
  type : FnType
  code : Option Code

/-- A module. A section that is not there is not the same as one without items. -/
structure Module where
  types : Option (List FnType) := none
  imports : Option (List Import) := none
  functions : Option (List Nat) := none
  tables : Option (List TableType) := none
  memories : Option (List Limits) := none
  globals : Option (List Global) := none
  exports : Option (List Export) := none
  start : Option Nat := none
  elements : Option (List Elem) := none
  code : Option (List Code) := none
  data : Option (List Data) := none
  hasDataCount : Bool := false
  custom : List (String × Text.Bytes) := []

/-! ## Reading modules

A `Decoder` takes bytes from the front of what it is given. Where `fuel` is given, one for each byte
is enough. -/

open Ins
open Text (Bytes)

abbrev Decoder := StateT Bytes Res

variable {α : Type}

namespace Decoder

def byte : Decoder Nat := fun bs =>
  match bs with
  | [] => .error .wrongSort
  | b :: r => .ok (b.toNat, r)

def nat : Decoder Nat := Enc.Leb128.readU
def integer : Decoder Int := Enc.Leb128.readSigned
def atMost (n : Nat) : Decoder Bytes := fun bs => .ok (bs.take n, bs.drop n)

def word (n : Nat) : Decoder Nat := do
  let bs ← atMost n
  if bs.length = n then return ofLeBytes bs else throw .packing

def sized : Decoder Bytes := do
  let n ← nat
  let bs ← atMost n
  if bs.length = n then return bs else broken "bytes cut short"

def string : Decoder String := do
  match String.fromUTF8? ⟨(← sized).toArray⟩ with
  | some s => return s
  | none => throw .undecodable

def repeated (item : Decoder α) : Nat → Decoder (List α)
  | 0 => return []
  | n + 1 => return (← item) :: (← repeated item n)

def vector (item : Decoder α) : Decoder (List α) := do repeated item (← nat)

def whole (d : Decoder α) (bs : Bytes) : Res α := do
  let (a, rest) ← d bs
  if rest.isEmpty then return a else throw (.unreadable "bytes left over")

def inside (d : Decoder α) : Decoder α := do whole d (← sized)

end Decoder

open Decoder

/-! ## Types -/

def refType : Decoder RefType := do
  match ← byte with
  | 0x6f => return .foreign
  | 0x70 => return .func
  | _ => throw (.malformed "reference type")

def ValType.ofCode? : Int → Option ValType
  | 0x6f => some (.ref .foreign)
  | 0x70 => some (.ref .func)
  | 0x7c => some (.num .f64)
  | 0x7d => some (.num .f32)
  | 0x7e => some (.num .i64)
  | 0x7f => some (.num .i32)
  | _ => none

def valType : Decoder ValType := do
  orFault (.malformed "value type") (ValType.ofCode? (← byte))

def fnType : Decoder FnType := do
  if (← byte) ≠ 0x60 then broken "function type"
  .mk <$> vector valType <*> vector valType

def limits : Decoder Limits := do
  let flag ← byte
  return ⟨← nat, ← if flag = 0 then pure 0 else nat⟩

def tableType : Decoder TableType := .mk <$> refType <*> limits

def globalType : Decoder GlobalType := do
  let t ← valType
  match ← byte with
  | 0 => return ⟨t, false⟩
  | 1 => return ⟨t, true⟩
  | _ => throw (.malformed "mutability")

def blkType : Decoder BlkType := do
  match ← integer with
  | .ofNat n => return .typed n
  | n =>
    if n + 0x80 = 0x40 then return .empty
    else return .value (← orFault (.malformed "value type") (ValType.ofCode? (n + 0x80)))

/-! ## Instructions -/

def access : Decoder Access := .mk <$> nat <*> nat

def tabulated (code : Nat) : Decoder Ins := do
  if numericBase ≤ code then defined "instruction" (numeric[code - numericBase]?)
  else if storeBase ≤ code then
    let (t, n) ← defined "instruction" (stores[code - storeBase]?)
    return .store t n (← access)
  else if loadBase ≤ code then
    let (t, n) ← defined "instruction" (loads[code - loadBase]?)
    return .load t n (← access)
  else unknown "instruction"

def ins : Decoder Ins := do
  match ← byte with
  | 0x00 => return .unreachable
  | 0x01 => return .nop
  | 0x02 => .blk <$> blkType
  | 0x03 => .loop <$> blkType
  | 0x04 => .if_ <$> blkType
  | 0x05 => return .else_
  | 0x0b => return .end_
  | 0x0c => .br <$> nat
  | 0x0d => .brIf <$> nat
  | 0x0e => .brTable <$> vector nat <*> nat
  | 0x0f => return .return_
  | 0x10 => .call <$> nat
  | 0x11 => .callIndirect <$> nat <*> nat
  | 0x1a => return .drop
  | 0x1b => return .select
  | 0x20 => .localGet <$> nat
  | 0x21 => .localSet <$> nat
  | 0x22 => .localTee <$> nat
  | 0x23 => .globalGet <$> nat
  | 0x24 => .globalSet <$> nat
  | 0x25 => .tableGet <$> nat
  | 0x26 => .tableSet <$> nat
  | 0x3f => .memorySize <$> byte
  | 0x40 => .memoryGrow <$> byte
  | 0x41 => .intConst .i32 <$> integer
  | 0x42 => .intConst .i64 <$> integer
  | 0x43 => return .realConst .f32 (.ofSingleBits (UInt32.ofNat (← word 4)))
  | 0x44 => return .realConst .f64 ⟨UInt64.ofNat (← word 8)⟩
  | code => tabulated code

/-- Instructions up to the `end` that closes `depth + 1` blocks. -/
def exprFrom : (fuel depth : Nat) → Decoder Expr
  | 0, _ => throw .wrongSort
  | fuel + 1, depth => do
    let i ← ins
    if i = .end_ then
      match depth with
      | 0 => return [i]
      | depth + 1 => return i :: (← exprFrom fuel depth)
    else return i :: (← exprFrom fuel (depth + (i matches .blk _ | .loop _ | .if_ _).toNat))

/-- Instructions up to the `end` that belongs to none of the blocks they open. -/
def expr : Decoder Expr := do exprFrom ((← get).length + 1) 0

/-! ## Items of sections -/

def sorted (fn table memory global : Decoder α) : Decoder α := do
  match ← byte with
  | 0 => fn
  | 1 => table
  | 2 => memory
  | 3 => global
  | _ => throw (.malformed "sort")

def import_ : Decoder Import := .mk <$> string <*> string <*>
  sorted (.fn <$> nat) (.table <$> tableType) (.memory <$> limits) (.global <$> globalType)

def global : Decoder Global := .mk <$> globalType <*> expr

def export_ : Decoder Export := .mk <$> string <*>
  sorted (.fn <$> nat) (.table <$> nat) (.memory <$> nat) (.global <$> nat)

def code : Decoder Code := inside (.mk <$> vector (Prod.mk <$> nat <*> valType) <*> expr)

def data : Decoder Data := do
  match ← byte with
  | 0 =>
    return ⟨some (0, ← expr), ← sized⟩
  | 1 => return ⟨none, ← sized⟩
  | 2 =>
    let n ← nat
    return ⟨some (n, ← expr), ← sized⟩
  | _ => broken "sort of data"

def elem : Decoder Elem := do
  if (← byte) ≠ 0 then broken "sort of elements"
  .mk <$> expr <*> vector nat

/-! ## Sections -/

def setKey (k : String) (v : α) : List (String × α) → List (String × α)
  | [] => [(k, v)]
  | (k', v') :: r => if k' == k then (k, v) :: r else (k', v') :: setKey k v r

variable (m : Module)

def readSec : SecSort → Decoder Module
  | .type => return { m with types := some (← vector fnType) }
  | .import_ => return { m with imports := some (← vector import_) }
  | .function => return { m with functions := some (← vector nat) }
  | .table => return { m with tables := some (← vector tableType) }
  | .memory => return { m with memories := some (← vector limits) }
  | .global => return { m with globals := some (← vector global) }
  | .export_ => return { m with exports := some (← vector export_) }
  | .start => return { m with start := some (← nat) }
  | .element => return { m with elements := some (← vector elem) }
  | .code => return { m with code := some (← vector code) }
  | .data => return { m with data := some (← vector data) }
  | .dataCount => return { m with hasDataCount := true }

def readCustom : Decoder Module := do
  let name ← string
  let bytes ← modifyGet fun bs => (bs, [])
  return { m with custom := setKey name bytes m.custom }

def secReader (code : UInt8) : Res (Decoder Module) :=
  match code.toNat with
  | 0 => .ok (readCustom m)
  | n + 1 => readSec m <$> orFault (.malformed "section") (SecSort.all[n]?)

/-- Add sections until the bytes end. -/
def readSecs : (fuel : Nat) → Module → Bytes → Res Module
  | _, m, [] => .ok m
  | 0, m, _ => .ok m
  | fuel + 1, m, code :: r => do
    let reader ← secReader m code
    let (bs, r) ← sized r
    readSecs fuel (← whole reader bs) r

def magic : Bytes := [0x00, 0x61, 0x73, 0x6d]

def Module.ofBytes (bs : Bytes) : Res Module :=
  if bs.take 4 = magic then readSecs bs.length {} (bs.drop 8)
  else .error (.unreadable "no module")

/-!
## The functions of a module

Imported functions are named for what they are imported from, others for what they are exported as,
or else for what a section of debug names calls them, or else for their number.
-/

/-- The position that an index stands for in a sequence of the given length. Negative indices count
from the end. -/
def wrapIdx (i : Int) (length : Nat) : Res Nat :=
  let j := if i < 0 then i + length else i
  if 0 ≤ j ∧ j < length then .ok j.toNat else .error .pastEnd

def itemAt (items : Option (List α)) (n : Nat) : Res α := do
  orFault .pastEnd ((← orFault .missingPart items)[n]?)

/-! ## Debug names -/

/-- The function names in a section of debug names, which is made of parts. -/
def debugNames : (fuel : Nat) → Text.Bytes → Res (List (Nat × String))
  | _, [] => .ok []
  | 0, _ => .ok []
  | fuel + 1, b :: r => do
    let (bytes, r) ← sized r
    let names ← if b = 1 then Prod.fst <$> vector (Prod.mk <$> nat <*> string) bytes else pure []
    return names ++ (← debugNames fuel r)

def plainName (s : String) : String :=
  let cs := (s.replace "undefined:" "").toList
  "_" ++ String.ofList ((cs.takeWhile (· ≠ '(')).takeWhile (· ≠ ' '))

/-! ## Names -/

def importName (i : Import) : String :=
  (s!"${i.module}${i.name}".replace "wasi_snapshot_preview1" "wasi").replace "wasi_unstable" "wasi"

def exportNames (first : Nat) : List Export → List String → Texts
  | [], names => .ok names
  | ⟨name, .fn n⟩ :: es, names => do
    exportNames first es (names.set (← wrapIdx ((n : Int) - first) names.length) name)
  | _ :: es, names => exportNames first es names

def innerName (debug : List (Nat × String)) (n : Nat) : String :=
  match debug.reverse.lookup n with
  | none | some "" => s!"$fun_{n}"
  | some s => plainName s

/-- Append marks to a name until it is none of the taken ones. There are fewer taken names than
tries. -/
def freshName (taken : List String) (s : String) : String := go taken.length s
where
  go : Nat → String → String
    | 0, s => s
    | n + 1, s => if taken.contains s then go n (s ++ "_") else s

/-! ## Functions -/

def importedFns : List Import → List Function → Res (List Function)
  | [], out => .ok out
  | i :: is, out => do
    match i.desc with
    | .fn t =>
      let name := importName i
      ensure (!out.any fun f => f.name == name) "function imported twice"
      importedFns is (out ++ [⟨name, ← itemAt m.types t, none⟩])
    | _ => importedFns is out

def definedFns : List (String × Code × Nat) → List Function → Res (List Function)
  | [], out => .ok out
  | (name, c, t) :: r, out => do
    let name := freshName (out.map Function.name) name
    definedFns r (out ++ [⟨name, ← itemAt m.types t, some c⟩])

def Module.fnTable : Res (List Function) := do
  let nameBytes := (m.custom.lookup "name").getD []
  let debug ← debugNames nameBytes.length nameBytes
  let imported ← importedFns m (m.imports.getD []) []
  match m.functions with
  | none => return imported
  | some types =>
    let code ← orFault .missingPart m.code
    ensure (code.length == types.length) "number of functions"
    let first := imported.length
    let inner := (List.range code.length).map fun i => innerName debug (i + first)
    let names ← exportNames first (m.exports.getD []) inner
    definedFns m (names.zip (code.zip types)) imported

end Retarget.Wasm
