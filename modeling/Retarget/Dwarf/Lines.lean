import Retarget.Elf.Executable
import Retarget.Wasm.Module

/-!
# Line number programs

Instructions for a machine whose registers are the columns of a table of source positions: some of
them add a row. A program is read and run, and one is written for the table it makes.
-/

namespace Retarget.Dwarf
open Enc.Leb128 (writeU writeS)
open Wasm Decoder Report

/-- What the header of a program says about its instructions. -/
structure Params where
  unit : Nat
  lineBase : Int
  lineRange : Nat
  opcodeBase : Nat
  isStmt : Bool

structure Registers where
  address : Int := 0
  file : Nat := 1
  line : Int := 1
  column : Nat := 0
  isStmt : Bool
  endSequence : Bool := false
  discriminator : Nat := 0
  deriving DecidableEq

inductive Ins where
  | special (code : Int)
  | copy
  | advancePc (n : Int)
  | advanceLine (n : Int)
  | setFile (n : Nat)
  | setColumn (n : Nat)
  | negateStmt
  | constAddPc
  | endSequence
  | setAddr (a : Int)
  | setDiscriminator (n : Nat)

/-- What is left of so many bytes after the first; of no bytes, all there is. -/
def behind (size : Nat) : Decoder Text.Bytes := fun bs =>
  atMost (if size = 0 then bs.length else size - 1) bs

section
variable (p : Params)

def Params.start : Registers := { isStmt := p.isStmt }

/-- Special opcodes count through the line advances first. -/
def Params.pcAdvance (code : Int) : Int := (code - p.opcodeBase) / p.lineRange * p.unit
def Params.lineAdvance (code : Int) : Int := p.lineBase + (code - p.opcodeBase) % p.lineRange

namespace Ins

def set (r : Registers) : Ins → Registers
  | special c => { r with address := r.address + p.pcAdvance c, line := r.line + p.lineAdvance c }
  | copy => r
  | advancePc n => { r with address := r.address + n }
  | advanceLine n => { r with line := r.line + n }
  | setFile n => { r with file := n }
  | setColumn n => { r with column := n }
  | negateStmt => { r with isStmt := !r.isStmt }
  | constAddPc => { r with address := r.address + p.pcAdvance 255 }
  | endSequence => { r with endSequence := true }
  | setAddr a => { r with address := a }
  | setDiscriminator n => { r with discriminator := n }

/-- The row that is added, and the registers after it. -/
def reset (r : Registers) : Ins → List Registers × Registers
  | special _ | copy => ([r], { r with discriminator := 0 })
  | endSequence => ([r], p.start)
  | _ => ([], r)

def text (r : Registers) : Ins → String
  | special c => s!"Special opcode {decimal (c - p.opcodeBase)}: advance Address by " ++
    s!"{p.pcAdvance c}{dest r.address} and Line by {p.lineAdvance c} to {r.line}"
  | copy => "Copy"
  | advancePc n => s!"Advance PC by {n}{dest r.address}"
  | advanceLine n => s!"Advance Line by {n} to {r.line}"
  | setFile n => s!"Set File Name to entry {n} in the File Name Table"
  | setColumn n => s!"Set column to {n}"
  | negateStmt => s!"Set is_stmt to {r.isStmt.toNat}"
  | constAddPc => s!"Advance PC by constant {p.pcAdvance 255}{dest r.address}"
  | endSequence => "Extended opcode 1: End of Sequence\n"
  | setAddr a => "Extended opcode 2: set Address" ++ dest a
  | setDiscriminator n => s!"Extended opcode 4: set Discriminator to {n}"
where
  dest (a : Int) : String := " to 0x" ++ hex 1 a.toNat

def read : Decoder Ins := do
  let b ← byte
  if b = 0 then
    let size ← nat
    match ← byte with
    | 1 => return endSequence
    | 2 => return setAddr (ofLeBytes (← behind size))
    | 4 => return setDiscriminator (← nat)
    | n => throw (if [3, 0x80, 0xff].contains n then .broken "opcode" else .malformed "opcode")
  else if p.opcodeBase ≤ b then advance (special b)
  else match b with
    | 1 => return copy
    | 2 => return advancePc (← nat)
    | 3 => return advanceLine (← integer)
    | 4 => return setFile (← nat)
    | 5 => return setColumn (← nat)
    | 6 => return negateStmt
    | 8 => advance constAddPc
    | n => throw (if n ≤ 12 then .broken "opcode" else .malformed "opcode")
where
  advance (i : Ins) : Decoder Ins := if p.unit = 0 then throw .divByZero else return i

def write : Ins → Res (List Int)
  | special c => .ok [c]
  | copy => .ok [1]
  | advancePc n => if n < 0 then .error .outOfMemory else bytes (2 :: writeU n.toNat)
  | advanceLine n => bytes (3 :: writeS n)
  | setFile n => bytes (4 :: writeU n)
  | setColumn n => bytes (5 :: writeU n)
  | negateStmt => .ok [6]
  | constAddPc => .ok [8]
  | endSequence => .ok [0, 1, 1]
  | setAddr a => if span 64 ≤ a then .error .overflow else bytes ([0, 9, 2] ++ leBytes 8 a)
  | setDiscriminator n =>
    let number := writeU n
    bytes (0 :: writeU (1 + number.length) ++ 4 :: number)
where
  bytes (bs : List UInt8) : Res (List Int) := .ok (bs.map fun b => b.toNat)

end Ins

/-! ## Tables -/

/-- The rows of the program in front of `beyond` bytes, which is listed with positions among `total`
bytes. The bound is above the number of instructions. -/
def decode (beyond : Int) (total : Nat) : Nat → List UInt8 → Registers → Report (List Registers)
  | 0, _, _ => return []
  | bound + 1, bs, r => do
    if bs.length ≤ beyond then return []
    say s!"[0x{hex 8 (total - bs.length)}]  "
    let (i, rest) ← Ins.read p bs
    let r := i.set p r
    say (i.text p r ++ "\n")
    let (row, r) := i.reset p r
    return row ++ (← decode beyond total bound rest r)

abbrev Emitter := StateT (Registers × List Int) Report

def emit (i : Ins) : Emitter PUnit := do
  let (r, out) ← get
  let r := i.set p r
  say s!"@@@ {i.text p r}\n"
  set ((i.reset p r).2, out ++ (← i.write))

/-- A special opcode for two advances, after a constant advance of the address if that is needed. -/
def Params.specials (ad ld : Int) : Res (Option (List Ins)) := do
  if ld < p.lineBase ∨ p.lineBase + p.lineRange ≤ ld then return none
  if p.unit = 0 then throw .divByZero
  ensure (ad % p.unit == 0) "address inside an instruction"
  let code := ld - p.lineBase + ad / p.unit * p.lineRange + p.opcodeBase
  let most : Int := (255 - p.opcodeBase) / p.lineRange * p.lineRange
  return if code ≤ 255 then some [.special code]
    else if code - most ≤ 255 then some [.constAddPc, .special (code - most)]
    else none

def encodeRow (next : Registers) : Emitter PUnit := do
  let cur := (← get).1
  if next.file ≠ cur.file then emit p (.setFile next.file)
  if next.column ≠ cur.column then emit p (.setColumn next.column)
  if next.discriminator ≠ cur.discriminator then emit p (.setDiscriminator next.discriminator)
  if next.isStmt ≠ cur.isStmt then emit p .negateStmt
  let ad := next.address - cur.address
  let ld := next.line - cur.line
  if cur.address = 0 then
    [.setAddr next.address, .advanceLine ld, .copy].forM (emit p)
    ensure (!next.endSequence) "end at address zero"
  else if next.endSequence then
    if ad ≠ 0 then emit p (.advancePc ad)
    if ld ≠ 0 then emit p (.advanceLine ld)
    emit p .endSequence
  else
    let near := p.lineBase ≤ ld && ld < p.lineBase + p.lineRange
    unless near do emit p (.advanceLine ld)
    let ld := if near then ld else 0
    if ad = 0 ∧ ld = 0 then emit p .copy
    else if let some is ← p.specials ad ld then is.forM (emit p)
    else
      emit p (.advancePc ad)
      let some is ← p.specials 0 ld | throw .wrongSort
      is.forM (emit p)

def check (beyond : Int) (total : Nat) (bs : List UInt8) : Report PUnit := do
  let table ← decode p beyond total (bs.length + 1) bs p.start
  let (_, _, out) ← (table.forM (encodeRow p)).run (p.start, [])
  if out.any (· < 0) then throw (.malformed "byte")
  let out := out.map fun n => UInt8.ofNat n.toNat
  let again ← decode p 0 out.length (out.length + 1) out p.start
  say s!"matrix length: {table.length}\n"
  ensure (table == again) "another table"

end

/-! ## Files -/

/-- A list of entries, whose parts are in the formats given before it. -/
def skipEntries : Decoder PUnit := do
  discard (repeated ((← repeated format (← byte)).forM skip) (← nat))
where
  format : Decoder Nat := do
    let content ← nat
    let form ← nat
    if [1, 2, 3, 4, 5, 8192, 8193, 16383].contains content && form != 2 && 1 ≤ form &&
      form ≤ 0x2c then return form
    throw (.malformed "format")
  skip (form : Nat) : Decoder PUnit := do
    if form = 0x0f then discard nat
    else match [(0x0b, 1), (0x05, 2), (0x06, 4), (0x1f, 4), (0x07, 8)].lookup form with
      | some n => discard (atMost n)
      | none => broken "format"

/-- The parameters of a program, how far it goes and whether its statements are marked. -/
def readHeader : Decoder (Params × Int × Int) := do
  match ← Elf.unpack [.u32, .u16, .u8, .u8, .u32, .u8, .u8, .u8, .i8, .u8] (← atMost 17) with
  | [length, ver, _, _, _, unit, operations, isStmt, lineBase, lineRange] =>
    ensure (operations == 1) "parallel instructions"
    ensure (ver == 5) "version"
    let opcodeBase ← byte
    discard (behind opcodeBase)
    skipEntries
    skipEntries
    if lineRange = 0 then throw .divByZero
    return (⟨unit.toNat, lineBase, lineRange.toNat, opcodeBase, isStmt != 0⟩, length + 4, isStmt)
  | _ => throw .packing

/-- The line number program of a file; false if the file does not have the sections of one. -/
def report (file : Elf.Image) : Report Bool := do
  let e ← Elf.Exe.load file
  let named n := e.secs.toList.reverse.find? (·.name == n)
  match named ".debug_line", named ".debug_line_str" with
  | some s, some _ =>
    if s.data.isEmpty then return true
    let ((p, size, isStmt), bs) ← readHeader s.data.toList
    say (s!"# opcode_base={p.opcodeBase} min_instruction_length={p.unit}" ++
      s!" line_base={p.lineBase} line_range={p.lineRange} default_is_stmt={isStmt}\n")
    check p (s.data.size - size) s.data.size bs
    return true
  | _, _ => return false

end Retarget.Dwarf
