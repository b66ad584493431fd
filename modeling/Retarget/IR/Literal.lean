import Retarget.Decimal.Double

/-!
# Opcodes and literals

The shape of an opcode is its row in the opcode table: name, family, operands with their typing
constraints, and attributes. Within a family operands have the same order.
-/

namespace Retarget.IR

inductive Flavor where
  | none | signed | unsigned | float | addr | code
  deriving DecidableEq

/-- The kind of a register or literal. `invalid` is a kind of its own: it has no flavour, and the
narrowest width. -/
inductive Kind where
  | invalid
  | s8 | s16 | s32 | s64
  | u8 | u16 | u32 | u64
  | f8 | f16 | f32 | f64
  | a32 | a64
  | c32 | c64
  deriving DecidableEq, Inhabited

namespace Kind

def flavor : Kind → Flavor
  | invalid => .none
  | s8 | s16 | s32 | s64 => .signed
  | u8 | u16 | u32 | u64 => .unsigned
  | f8 | f16 | f32 | f64 => .float
  | a32 | a64 => .addr
  | c32 | c64 => .code

def bits : Kind → Nat
  | invalid | s8 | u8 | f8 => 8
  | s16 | u16 | f16 => 16
  | s32 | u32 | f32 | a32 | c32 => 32
  | s64 | u64 | f64 | a64 | c64 => 64

def bytes (k : Kind) : Nat := k.bits / 8

def all : List Kind :=
  [invalid, s8, s16, s32, s64, u8, u16, u32, u64, f8, f16, f32, f64, a32, a64, c32, c64]

/-- The number of a kind: sixteen times its flavour plus the logarithm of its width in bytes. -/
def code (k : Kind) : Nat := 16 * k.flavor.ctorIdx + k.bytes.log2

def name : Kind → String
  | invalid => "INVALID"
  | s8 => "S8" | s16 => "S16" | s32 => "S32" | s64 => "S64"
  | u8 => "U8" | u16 => "U16" | u32 => "U32" | u64 => "U64"
  | f8 => "F8" | f16 => "F16" | f32 => "F32" | f64 => "F64"
  | a32 => "A32" | a64 => "A64"
  | c32 => "C32" | c64 => "C64"

def ofName? (s : String) : Option Kind := all.find? (·.name == s)
def isFloat (k : Kind) : Bool := k.flavor == .float
def isInt (k : Kind) : Bool := k.flavor == .signed || k.flavor == .unsigned
def isAddrInt (k : Kind) : Bool := k.isInt || k.flavor == .addr

end Kind

inductive Constr where
  | invalid | any | addrNum | addrInt | num | flt | int | addr | code | uint | sint | off
  | sameAsPrev | sameSizeAsPrev
  deriving DecidableEq

namespace Constr

/-- Does a kind satisfy the constraint after an operand of kind `prev`? `none` if the constraint is
one that no operand with a kind may carry. -/
def holds? (c : Constr) (prev this : Kind) : Option Bool :=
  match c with
  | invalid => none
  | any => some true
  | addrNum => some (this.flavor != .code)
  | addrInt => some this.isAddrInt
  | num => some (this.isInt || this.isFloat)
  | flt => some this.isFloat
  | int | off => some this.isInt
  | addr => some (this.flavor == .addr)
  | code => some (this.flavor == .code)
  | uint => some (this.flavor == .unsigned)
  | sint => some (this.flavor == .signed)
  | sameAsPrev => some (prev == this)
  | sameSizeAsPrev => some (prev.bits == this.bits)

end Constr

/-! ## Opcodes -/

inductive Fam where
  | alu | alu1 | mov | lea | lea1 | condBra | bra | bsr | jsr | switch | ret | syscall | st | ld
  | pusharg | poparg | nop | nop1 | conv | cmp | bcopy | bzero | cas | getSpecial | inline | line
  | directive
  deriving DecidableEq

namespace Fam

def opndCount : Fam → Nat
  | ret | nop | directive => 0
  | bra | bsr | nop1 | pusharg | poparg | getSpecial | inline => 1
  | alu1 | conv | mov | switch | jsr | syscall | lea1 | line | bzero => 2
  | alu | condBra | lea | ld | st | bcopy => 3
  | cmp | cas => 5

def defCount : Fam → Nat
  | bsr | jsr | syscall | switch | bra | condBra | ret | st | bcopy | bzero | pusharg | nop
  | inline | line | directive => 0
  | _ => 1

end Fam

inductive OpndKind where
  | reg | lit | regOrLit | blk | mem | slot | fn | table
  | typeList | dataKind | memKind | funKind | name | nameList | int | blkTable | bytes
  deriving DecidableEq

inductive Attribute where
  | terminator | noFallThrough | call | commutative | memRead | memWrite | special
  deriving DecidableEq

abbrev OpndKinds := List (OpndKind × Constr)

structure Shape where
  name : String
  fam : Fam
  opnds : OpndKinds
  attributes : List Attribute

def Shape.hasSideEffect (s : Shape) : Bool :=
  s.attributes.any fun a => a != .commutative && a != .noFallThrough

inductive Op where
  | add | sub | mul | div | xor | and | or | shl | shr | rem | clmul
  | beq | bne | blt | ble
  | switch | bra | ret | bsr | jsr | syscall | trap
  | pusharg | poparg | conv | bitcast | mov | cmpeq | cmplt
  | lea | leaMem | leaStk | leaFun
  | ld | ldMem | ldStk | st | stMem | stStk
  | cas | casMem | casStk
  | ceil | floor | round | trunc | copysign | sqrt
  | sin | cos | tan | asin | acos | atan | exp | log
  | cntlz | cnttz | cntpop
  | nop | nop1 | line | inline | getfp | getsp | gettp
  | bcopy | bzero
  deriving DecidableEq, Inhabited

namespace Op
section
open OpndKind

abbrev same : OpndKind × Constr := (regOrLit, .sameAsPrev)
abbrev off : OpndKind × Constr := (regOrLit, .off)
def binary (c : Constr) : OpndKinds := [(reg, c), same, same]
def unary (c : Constr) : OpndKinds := [(reg, c), same]
def branch (c : Constr) : OpndKinds := [(regOrLit, c), same, (blk, .invalid)]
def select (c : Constr) : OpndKinds := [(reg, .any), same, same, (regOrLit, c), same]
def swap (base : OpndKind × Constr) : OpndKinds := [(reg, .any), same, same, base, off]
@[simp] def math (s : String) : Shape := ⟨s, .alu1, unary .flt, []⟩

def shape : Op → Shape
  | add => ⟨"add", .alu, binary .num, [.commutative]⟩
  | sub => ⟨"sub", .alu, binary .num, []⟩
  | mul => ⟨"mul", .alu, binary .num, [.commutative]⟩
  | div => ⟨"div", .alu, binary .num, []⟩
  | xor => ⟨"xor", .alu, binary .int, [.commutative]⟩
  | and => ⟨"and", .alu, binary .int, [.commutative]⟩
  | or => ⟨"or", .alu, binary .int, [.commutative]⟩
  | shl => ⟨"shl", .alu, binary .int, []⟩
  | shr => ⟨"shr", .alu, binary .int, []⟩
  | rem => ⟨"rem", .alu, binary .int, []⟩
  | clmul => ⟨"clmul", .alu, binary .int, []⟩
  | beq => ⟨"beq", .condBra, branch .any, [.terminator, .commutative]⟩
  | bne => ⟨"bne", .condBra, branch .any, [.terminator, .commutative]⟩
  | blt => ⟨"blt", .condBra, branch .addrNum, [.terminator]⟩
  | ble => ⟨"ble", .condBra, branch .addrNum, [.terminator]⟩
  | switch => ⟨"switch", .switch, [(reg, .uint), (table, .invalid)], [.terminator, .noFallThrough]⟩
  | bra => ⟨"bra", .bra, [(blk, .invalid)], [.terminator, .noFallThrough]⟩
  | ret => ⟨"ret", .ret, [], [.terminator, .noFallThrough]⟩
  | bsr => ⟨"bsr", .bsr, [(fn, .invalid)], [.call]⟩
  | jsr => ⟨"jsr", .jsr, [(reg, .code), (fn, .invalid)], [.call]⟩
  | syscall => ⟨"syscall", .syscall, [(fn, .invalid), (lit, .uint)], [.call]⟩
  | trap => ⟨"trap", .ret, [], [.terminator, .noFallThrough]⟩
  | pusharg => ⟨"pusharg", .pusharg, [(regOrLit, .any)], [.special]⟩
  | poparg => ⟨"poparg", .poparg, [(reg, .any)], [.special]⟩
  | conv => ⟨"conv", .conv, [(reg, .num), (regOrLit, .num)], []⟩
  | bitcast => ⟨"bitcast", .conv, [(reg, .any), (regOrLit, .sameSizeAsPrev)], []⟩
  | mov => ⟨"mov", .mov, unary .any, []⟩
  | cmpeq => ⟨"cmpeq", .cmp, select .any, [.commutative]⟩
  | cmplt => ⟨"cmplt", .cmp, select .addrNum, []⟩
  | lea => ⟨"lea", .lea, [(reg, .addr), same, off], []⟩
  | leaMem => ⟨"lea.mem", .lea, [(reg, .addr), (mem, .invalid), off], []⟩
  | leaStk => ⟨"lea.stk", .lea, [(reg, .addr), (slot, .invalid), off], []⟩
  | leaFun => ⟨"lea.fun", .lea1, [(reg, .code), (fn, .invalid)], []⟩
  | ld => ⟨"ld", .ld, [(reg, .any), (regOrLit, .addr), off], [.memRead]⟩
  | ldMem => ⟨"ld.mem", .ld, [(reg, .any), (mem, .invalid), off], [.memRead]⟩
  | ldStk => ⟨"ld.stk", .ld, [(reg, .any), (slot, .invalid), off], [.memRead]⟩
  | st => ⟨"st", .st, [(reg, .addr), off, (regOrLit, .any)], [.memWrite]⟩
  | stMem => ⟨"st.mem", .st, [(mem, .invalid), off, (regOrLit, .any)], [.memWrite]⟩
  | stStk => ⟨"st.stk", .st, [(slot, .invalid), off, (regOrLit, .any)], [.memWrite]⟩
  | cas => ⟨"cas", .cas, swap (reg, .addr), [.memWrite]⟩
  | casMem => ⟨"cas.mem", .cas, swap (mem, .invalid), [.memWrite]⟩
  | casStk => ⟨"cas.stk", .cas, swap (slot, .invalid), [.memWrite]⟩
  | ceil => math "ceil"
  | floor => math "floor"
  | round => math "round"
  | trunc => math "trunc"
  | copysign => ⟨"copysign", .alu, binary .flt, []⟩
  | sqrt => math "sqrt"
  | sin => math "sin"
  | cos => math "cos"
  | tan => math "tan"
  | asin => math "asin"
  | acos => math "acos"
  | atan => math "atan"
  | exp => math "exp"
  | log => math "log"
  | cntlz => ⟨"cntlz", .alu1, unary .int, []⟩
  | cnttz => ⟨"cnttz", .alu1, unary .int, []⟩
  | cntpop => ⟨"cntpop", .alu1, unary .int, []⟩
  | nop => ⟨"nop", .nop, [], []⟩
  | nop1 => ⟨"nop1", .nop1, [(reg, .any)], [.special]⟩
  | line => ⟨"line", .line, [(bytes, .invalid), (lit, .uint)], [.special]⟩
  | inline => ⟨"inline", .inline, [(bytes, .invalid)], [.special]⟩
  | getfp => ⟨"getfp", .getSpecial, [(reg, .addr)], []⟩
  | getsp => ⟨"getsp", .getSpecial, [(reg, .addr)], []⟩
  | gettp => ⟨"gettp", .getSpecial, [(reg, .addr)], []⟩
  | bcopy => ⟨"bcopy", .bcopy, [(reg, .addr), (reg, .sameAsPrev), off], [.memRead, .memWrite]⟩
  | bzero => ⟨"bzero", .bzero, [(reg, .addr), off], [.memWrite]⟩

end

def all : List Op := (List.range (bzero.ctorIdx + 1)).map ofNat

variable (o : Op)

def name : String := o.shape.name
def ofName? (s : String) : Option Op := all.find? (·.name == s)
def fam : Fam := o.shape.fam
def opnds : OpndKinds := o.shape.opnds
def has (a : Attribute) : Bool := o.shape.attributes.contains a
def isCall : Bool := o.has .call
def isTerm : Bool := o.has .terminator
def fallsThrough : Bool := !o.has .noFallThrough

/-- Must the instruction stay even if nothing reads its result? -/
def hasSideEffect : Bool := o.shape.hasSideEffect
def defCount : Nat := o.fam.defCount

end Op

inductive Directive where
  | mem | data | addrFun | addrMem | fn | blk | reg | slot | table

namespace Directive
open OpndKind in
def shape (d : Directive) : Shape :=
  let row s ks := ⟨s, .directive, ks.map (·, .invalid), []⟩
  match d with
  | .mem => row ".mem" [name, int, memKind]
  | .data => row ".data" [int, bytes]
  | .addrFun => row ".addr.fun" [int, .fn]
  | .addrMem => row ".addr.mem" [int, .mem, int]
  | .fn => row ".fun" [name, funKind, typeList, typeList]
  | .blk => row ".bbl" [name]
  | .reg => row ".reg" [dataKind, nameList]
  | .slot => row ".stk" [name, int, int]
  | .table => row ".jtb" [name, int, .blk, blkTable]

def all : List Directive := [mem, data, addrFun, addrMem, fn, blk, reg, slot, table]
def ofName? (s : String) : Option Directive := all.find? (·.shape.name == s)

end Directive

/-! ## Literals

Integers are unbounded and kept within the range of their kind by whoever makes them; floating point
values are doubles also for the narrow kinds. -/

inductive Scalar where
  | int (n : Int)
  | real (x : Double)
  deriving DecidableEq, Inhabited

namespace Scalar

def toDouble : Scalar → Double
  | int n => Double.ofInt n
  | real x => x

def same : Scalar → Scalar → Bool
  | int a, int b => a == b
  | a, b => a.toDouble.eq b.toDouble

def less : Scalar → Scalar → Bool
  | int a, int b => a < b
  | a, b => a.toDouble.lt b.toDouble

def lessEq : Scalar → Scalar → Bool
  | int a, int b => a ≤ b
  | a, b => a.toDouble.le b.toDouble

def isZero (s : Scalar) : Bool := s.same (int 0)
def isOne (s : Scalar) : Bool := s.same (int 1)

def render : Scalar → String
  | int n => decimal n
  | real x => x.render

end Scalar

def bitWidth : Int → Nat
  | .ofNat 0 => 0
  | .ofNat n => Nat.log2 n + 1
  | .negSucc 0 => 0
  | .negSucc n => Nat.log2 n + 1

/-- The bitwise and of two integers in two's complement. -/
def andInt : Int → Int → Int
  | .ofNat a, .ofNat b => .ofNat (a &&& b)
  | .ofNat a, .negSucc b => .ofNat (a - (a &&& b))
  | .negSucc a, .ofNat b => .ofNat (b - (a &&& b))
  | .negSucc a, .negSucc b => .negSucc (a ||| b)

def notInt (a : Int) : Int := -a - 1
def orInt (a b : Int) : Int := notInt (andInt (notInt a) (notInt b))
def xorInt (a b : Int) : Int := andInt (orInt a b) (notInt (andInt a b))

structure Lit where
  kind : Kind
  value : Scalar
  deriving DecidableEq, Inhabited

namespace Lit

def ofInt (k : Kind) (n : Int) : Lit := ⟨k, .int n⟩

variable (c : Lit)

def isZero : Bool := c.value.isZero
def isOne : Bool := c.value.isOne

def int? : Option Int :=
  match c.value with
  | .int n => some n
  | .real _ => none

/-- No two bits are set. Zero counts, floating point values do not. -/
def isPowerOfTwo : Bool :=
  match c.value with
  | .int n => andInt n (n - 1) == 0
  | .real _ => false

def log2 : Res Nat :=
  match c.value with
  | .int n => if n > 0 then .ok (Nat.log2 n.toNat) else broken "logarithm"
  | .real _ => broken "logarithm"

def render : String := c.value.render ++ ":" ++ c.kind.name
def same (a b : Lit) : Bool := a.kind == b.kind && a.value.same b.value

/-- The narrowest kind for an offset: unsigned unless it is negative, with a bit to spare. -/
def off (n : Int) : Res Lit :=
  let w := 1 + bitWidth n
  let pick (s u : Kind) : Res Lit := .ok (ofInt (if n < 0 then s else u) n)
  if w ≤ 8 then pick .s8 .u8
  else if w ≤ 16 then pick .s16 .u16
  else if w ≤ 32 then pick .s32 .u32
  else if w ≤ 64 then pick .s64 .u64
  else broken "offset too wide"

def readOff (s : String) : Res Lit := do off (← readInt s)

def inRange (isUnsigned : Bool) (width : Nat) (n : Int) : Bool :=
  if isUnsigned then 0 ≤ n && n < span width
  else if n ≥ 0 then n < span (width - 1) else -n ≤ span (width - 1)

/-- Read a literal of the given kind. A hexadecimal numeral of a signed kind may give its bits. -/
def read (s : String) (k : Kind) : Res Lit :=
  if k.isFloat then do return ⟨k, .real (← Double.read s)⟩
  else do
    let n ← readInt s
    if k.flavor == .unsigned then
      ensure (inRange true k.bits n) "literal out of range"
      return ofInt k n
    else
      let n := if s.startsWith "0x" && n ≥ span (k.bits - 1) then n - span k.bits else n
      ensure (inRange false k.bits n) "literal out of range"
      return ofInt k n

def packInt (isUnsigned : Bool) (count : Nat) (n : Int) : Res Text.Bytes :=
  if inRange isUnsigned (8 * count) n then .ok (leBytes count n) else .error .packing

def packReal (single : Bool) (x : Double) : Res Text.Bytes :=
  if single then
    match x.toSingleBits? with
    | some b => .ok (leBytes 4 b.toNat)
    | none => .error .overflow
  else .ok (leBytes 8 x.bits.toNat)

def toBytes : Res Text.Bytes :=
  match c.kind with
  | .f32 => packReal true c.value.toDouble
  | .f64 => packReal false c.value.toDouble
  | k =>
    if k.isInt then
      match c.value with
      | .int n => packInt (k.flavor == .unsigned) k.bytes n
      | .real _ => .error .packing
    else unknown k.name

end Lit

/-! ## Evaluation

Integer results wrap to the width of their kind; division rounds down. -/

def wrap (k : Kind) (n : Int) : Int :=
  match k.flavor with
  | .float => n
  | .unsigned => lowBits n k.bits
  | _ => signedOf n k.bits

def wrapScalar (k : Kind) : Scalar → Scalar
  | .int n => .int (wrap k n)
  | .real x => .real x

def onScalars (ints : Int → Int → Int) (reals : Double → Double → Double) : Scalar → Scalar → Scalar
  | .int a, .int b => .int (ints a b)
  | a, b => .real (reals a.toDouble b.toDouble)

def onInts (ints : Int → Int → Int) : Scalar → Scalar → Res Scalar
  | .int a, .int b => .ok (.int (ints a b))
  | _, _ => .error .wrongSort

def divScalars (a b : Scalar) : Res Scalar :=
  if b.isZero then .error .divByZero else .ok (onScalars Int.fdiv Double.floorDiv a b)

def shiftLeft (width : Nat) : Scalar → Scalar → Res Scalar
  | .int a, .int b =>
    if b < 0 then .error (.malformed "negative shift")
    else if a = 0 then .ok (.int 0)
    else if span 40 ≤ b then .error .outOfMemory
    else if b ≥ width then .ok (.int 0)
    else .ok (.int (a * span b.toNat))
  | _, _ => .error .wrongSort

def evalAlu (op : Op) (a b : Lit) : Res Lit := do
  let v ← match op with
    | .add => pure (onScalars (· + ·) Double.add a.value b.value)
    | .sub => pure (onScalars (· - ·) Double.sub a.value b.value)
    | .mul => pure (onScalars (· * ·) Double.mul a.value b.value)
    | .div => divScalars a.value b.value
    | .shl => shiftLeft a.kind.bits a.value b.value
    | .or => onInts orInt a.value b.value
    | .and => onInts andInt a.value b.value
    | .xor => onInts xorInt a.value b.value
    | _ => broken "no evaluator"
  return ⟨a.kind, wrapScalar a.kind v⟩

/-- How many of the bits below position `n` are set, from the top to the first that is not. -/
def leadingOnes (v : Nat) : Nat → Nat
  | 0 => 0
  | n + 1 => if v.testBit n then leadingOnes v n + 1 else 0

/-- How many bits from position `n` up are clear, to the first that is set. -/
def trailingZeros (v : Nat) : Nat → Nat → Nat
  | 0, _ => 0
  | fuel + 1, n => if v.testBit n then 0 else trailingZeros v fuel (n + 1) + 1

def countLeading (width : Nat) (n : Int) : Nat :=
  if n = 0 then width else leadingOnes (lowBits n width).toNat width

def countTrailing (width : Nat) (n : Int) : Nat :=
  if n = 0 then width else trailingZeros n.natAbs (Nat.log2 n.natAbs + 1) 0

def evalAlu1 (op : Op) (a : Lit) : Res Lit := do
  let count ← match op with
    | .cntlz => pure countLeading
    | .cnttz => pure countTrailing
    | _ => broken "no evaluator"
  match a.value with
  | .int n => return .ofInt a.kind (wrap a.kind (count a.kind.bits n))
  | .real x => if x.isZero then return .ofInt a.kind a.kind.bits else throw .wrongSort

def evalBranch (op : Op) (a b : Lit) : Res Bool :=
  match op with
  | .beq => .ok (a.value.same b.value)
  | .bne => .ok (!a.value.same b.value)
  | .blt => .ok (a.value.less b.value)
  | .ble => .ok (a.value.lessEq b.value)
  | _ => broken "no evaluator"

def addOffs (a b : Lit) : Res Lit :=
  match a.value, b.value with
  | .int m, .int n => Lit.off (m + n)
  | _, _ => .error .wrongSort

/-- Convert an integer to another kind: unsigned kinds keep the low bits, wider kinds the value,
others reinterpret the low bits. -/
def convertInt (k : Kind) (a : Lit) : Res Lit :=
  match a.value with
  | .real _ => .error .wrongSort
  | .int n =>
    let masked := lowBits n k.bits
    if k.flavor == .unsigned then .ok (.ofInt k (andInt n masked))
    else if k.bits > a.kind.bits then .ok (.ofInt k n)
    else .ok (.ofInt k (signedOf n k.bits))

end Retarget.IR
