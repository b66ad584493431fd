import Retarget.Elf.Executable

/-!
# Assembly units

The code and data of a program in four sections, symbols that name places in them, and references to
symbols, resolved when the unit is linked. Labels inside a function are local to it.
-/

namespace Retarget.Asm
open Elf (Image)

inductive Part where
  | text | rodata | data | bss
  deriving DecidableEq

def Part.name : Part → String
  | text => ".text"
  | rodata => ".rodata"
  | data => ".data"
  | bss => ".bss"

def Part.ofMemKind? : String → Option Part
  | "rodata" => some rodata
  | "data" => some data
  | "bss" => some bss
  | _ => none

structure Chunk where
  align : Int := 1
  bytes : Image := #[]

/-- A symbol; without a section it is not defined yet and its value is `-1`. -/
structure Sym where
  name : String
  isLocal : Bool
  part : Option Part
  value : Int

structure Ref where
  kind : Nat
  part : Part
  off : Int
  symbol : Nat
  addend : Int

structure Unit where
  text : Chunk := {}
  rodata : Chunk := {}
  data : Chunk := {}
  bss : Chunk := {}
  syms : Array Sym := #[]
  references : Array Ref := #[]
  globals : List (String × Nat) := []
  locals : List (String × Nat) := []
  mem : Option Part := none
  fn : Option String := none

/-- Filler after `size` bytes, up to a multiple of `align` that is `gap` bytes away. -/
abbrev Padding := Nat → Nat → Nat → Res (List UInt8)

def repeated (pattern : List UInt8) : Padding := fun size align gap => do
  ensure (size % pattern.length == 0 && align % pattern.length == 0) "alignment of filler"
  return (List.replicate (gap / pattern.length) pattern).flatten

def zeros : Padding := repeated [0]
def gapTo (align size : Nat) : Nat := if align ≤ 1 then 0 else (align - size % align) % align

def Chunk.pad (c : Chunk) (align : Int) (fill : Padding) : Res Chunk := do
  let c := if c.align < align then { c with align } else c
  if align ≤ 0 then return c
  let size := c.bytes.size
  let gap := gapTo align.toNat size
  let filler ← fill size align.toNat gap
  ensure (filler.length == gap) "length of filler"
  return { c with bytes := c.bytes ++ filler.toArray }

namespace Unit
variable (u : Unit)

def chunk : Part → Chunk
  | .text => u.text
  | .rodata => u.rodata
  | .data => u.data
  | .bss => u.bss

def setChunk (p : Part) (c : Chunk) : Unit :=
  match p with
  | .text => { u with text := c }
  | .rodata => { u with rodata := c }
  | .data => { u with data := c }
  | .bss => { u with bss := c }

def size (u : Unit) (p : Part) : Nat := (u.chunk p).bytes.size

def pad (u : Unit) (p : Part) (align : Int) (fill : Padding) : Res Unit := do
  return u.setChunk p (← (u.chunk p).pad align fill)

def append (p : Part) (bs : Image) : Unit :=
  let c := u.chunk p
  u.setChunk p { c with bytes := c.bytes ++ bs }

variable (name : String)

def find? (isLocal : Bool) : Option Nat := (if isLocal then u.locals else u.globals).lookup name

def addSym (s : Sym) : Nat × Unit :=
  let n := u.syms.size
  let u := { u with syms := u.syms.push s }
  (n, if s.isLocal then { u with locals := (s.name, n) :: u.locals }
    else { u with globals := (s.name, n) :: u.globals })

def reference (isLocal : Bool) : Nat × Unit :=
  match u.find? name isLocal with
  | some n => (n, u)
  | none => u.addSym ⟨name, isLocal, none, -1⟩

def define (p : Part) (isLocal : Bool) : Res Unit := do
  match u.find? name isLocal with
  | none => return (u.addSym ⟨name, isLocal, some p, u.size p⟩).2
  | some n =>
    ensure ((u.syms[n]?.bind Sym.part).isNone) "symbol defined twice"
    return { u with syms := u.syms.modify n fun s =>
      { s with part := some p, value := u.size p } }

/-- Record a reference `dist` bytes after the end of a section. -/
def refer (kind : Nat) (p : Part) (symbol : Nat) (addend dist : Int) : Unit :=
  { u with references := u.references.push ⟨kind, p, u.size p + dist, symbol, addend⟩ }

def startFn (align : Int) (fill : Padding) : Res Unit := do
  let u ← (← u.pad .text align fill).define name .text false
  ensure u.fn.isNone "nested function"
  return { u with fn := some name }

def endFn : Res Unit := do
  ensure u.fn.isSome "no function to end"
  return { u with fn := none, locals := [] }

def startMem (align : Int) (kind : String) (isLocal : Bool) : Res Unit := do
  ensure u.mem.isNone "memory inside memory"
  let p ← need "kind of memory" (Part.ofMemKind? kind)
  ({ (← u.pad p align zeros) with mem := some p }).define name p isLocal

def endMem : Res Unit := do
  ensure u.mem.isSome "no memory to end"
  return { u with mem := none }

def memPart : Res Part := need "outside of memory" u.mem

def repeatBytes (n : Int) (bs : List UInt8) : Res Image := do
  if span 63 ≤ n then throw .overflow
  if span 32 ≤ n * bs.length then throw .outOfMemory
  return (List.replicate (if bs.isEmpty then 0 else n.toNat) bs).foldl
    (fun out b => out ++ b.toArray) #[]

def addData (count : Int) (bs : List UInt8) : Res Unit := do
  return u.append (← u.memPart) (← repeatBytes count bs)

def addAddr (kind : Nat) (size : Int) (name : String) (isLocal : Bool)
  (addend : Int) : Res Unit := do
  let p ← u.memPart
  let (n, u) := u.reference name isLocal
  return (u.refer kind p n addend 0).append p (← repeatBytes size [0])

def addBlkAddr (kind : Nat) (size : Int) (name : String) : Res Unit := do
  ensure u.fn.isSome "outside of a function"
  u.addAddr kind size name true 0

def addLabel (align : Int) (fill : Padding) : Res Unit := do
  let u ← u.pad .text align fill
  ensure u.fn.isSome "outside of a function"
  u.define name .text true

def finish : Res Unit := do
  if 0 < u.size .bss then (← u.pad .bss 16 zeros).define "$$rw_data_end" .bss false
  else if 0 < u.size .data then (← u.pad .data 16 zeros).define "$$rw_data_end" .data false
  else return u

end Unit

/-! ## Assembly text

A line is a directive, which starts with a dot, or an instruction. -/

structure Dialect where
  filler : Padding
  addrKind : Nat
  instruction : String → List String → Unit → Res Unit

section
variable (d : Dialect)

def directive (u : Unit) : String → List String → Res Unit
  | ".fun", [name, align] => do u.startFn name (← readInt align) d.filler
  | ".endfun", [] => u.endFn
  | ".mem", [name, align, kind] => do u.startMem name (← readInt align) kind false
  | ".localmem", [name, align, kind] => do u.startMem name (← readInt align) kind true
  | ".endmem", [] => u.endMem
  | ".data", [count, bytes] => do u.addData (← readInt count) (← Text.unquote bytes)
  | ".addr.fun", [size, name] => do u.addAddr d.addrKind (← readInt size) name false 0
  | ".addr.bbl", [size, name] => do u.addBlkAddr d.addrKind (← readInt size) name
  | ".addr.mem", [size, name, addend] => do
    u.addAddr d.addrKind (← readInt size) name false (← readInt addend)
  | ".bbl", [name, align] => do u.addLabel name (← readInt align) d.filler
  | name, _ =>
    if [".fun", ".endfun", ".mem", ".localmem", ".endmem", ".data", ".addr.fun", ".addr.bbl",
        ".addr.mem", ".bbl"].contains name then .error .wrongSort
    else broken "unknown directive"

def line (u : Unit) (n : Nat) : List String → Res Unit
  | [] => .ok u
  | word :: words =>
    if word.startsWith "#" then .ok u
    else if word.startsWith "." then directive d u word words
    else (d.instruction word words u).mapError fun _ => .badLine n

def readLines : List String → Nat → Unit → Res Unit
  | [], _, u => .ok u
  | l :: ls, n, u => do readLines ls (n + 1) (← line d u n (← Text.lineTokens l))

def readUnit (text : String) : Res Unit := do
  (← readLines d (Text.lines text) 0 {}).finish

/-!
## References to symbols

An operand that depends on the address of a symbol is written `expr:kind:symbol:addend`.
-/

variable {κ φ σ α : Type}

/-- A reference to a symbol. The operand at `pos` holds what is added to its address. -/
structure Reloc (κ : Type) where
  kind : κ
  isLocal : Bool
  pos : Nat
  symbol : String

namespace Reloc

def text (r : Reloc κ) (kind : String) (addend : Int) : String :=
  "expr:" ++ (if r.isLocal then "loc_" else "") ++ kind ++ ":" ++ r.symbol ++
    if addend = 0 then "" else ":" ++ decimal addend

/-- The kind that a word of an expression names, and whether its symbol is local: always for jumps,
for others if the word is marked. -/
def kindOf? (word : κ → String) (jumps others : List κ) (s : String) : Option (κ × Bool) :=
  (jumps.find? (word · == s)).map (·, true) <|> (others.find? (word · == s)).map (·, false) <|>
    (others.find? ("loc_" ++ word · == s)).map (·, true)

variable (kind : String → Res (κ × Bool))

def parse (pos : Nat) (parts : List String) : Res (Reloc κ × Int) := do
  let (kind, isLocal) ← kind (parts.headD "")
  let symbol ← orFault .pastEnd parts[1]?
  let addend ← match parts[2]? with
    | none => pure 0
    | some s => readInt s
  return (⟨kind, isLocal, pos, symbol⟩, addend)

/-- Read operand words, from position `pos` on; the last reference counts. -/
def parseOpnds (opnd : φ → String → Res α) (ofAddend : Int → α) :
    Nat → List φ → List String → Option (Reloc κ) → Res (List α × Option (Reloc κ))
  | pos, f :: fs, s :: ss, reloc => do
    if s.startsWith "expr:" then
      let (r, addend) ← parse kind pos ((s.splitOn ":").drop 1)
      let (ops, reloc) ← parseOpnds opnd ofAddend (pos + 1) fs ss (some r)
      return (ofAddend addend :: ops, reloc)
    else
      let v ← opnd f s
      let (ops, reloc) ← parseOpnds opnd ofAddend (pos + 1) fs ss reloc
      return (v :: ops, reloc)
  | _, _, _, reloc => .ok ([], reloc)

/-- The operands that slots stand for, from position `pos` on; the first reference counts. -/
def fill (value : σ → Res α) (refer : Nat → σ → Res (Option (Int × Reloc κ)))
    (ofAddend : Int → α) : Nat → List σ → Res (List α × Option (Reloc κ))
  | pos, s :: ss => do
    let v ← value s
    let ref ← refer pos s
    let (rest, later) ← fill value refer ofAddend (pos + 1) ss
    match ref with
    | some (addend, r) => return (ofAddend addend :: rest, some r)
    | none => return (v :: rest, later)
  | _, [] => .ok ([], none)

end Reloc
end

/-! ## Linking

Sections are laid out, symbols get addresses, references are resolved and the symbol table is
written. -/

open Elf (FileClass Exe Image Sec Seg)

structure Linker where
  cls : FileClass
  machine : Int
  flags : Int
  start : Int
  attributes : Option (List UInt8)
  /-- Resolve a reference of the given kind at an offset of a section: the address of that place,
  the address that is referred to, the bytes of the section. -/
  resolve : Nat → Nat → Int → Int → Image → Res Image

def splice (bytes : Image) (off n : Nat) (new : List UInt8) : Image :=
  bytes.extract 0 off ++ new.toArray ++ bytes.extract (off + n) bytes.size

def replaceWord (n off : Nat) (new : Nat → Res Int) (bytes : Image) : Res Image := do
  ensure (off + n ≤ bytes.size) "reference at the end"
  let w ← new (ofLeBytes (bytes.extract off (off + n)).toList)
  if w < 0 || span (8 * n) ≤ w then throw .overflow
  return splice bytes off n (leBytes n w)

def secOf (name : String) (kind flags align : Int) (data : Image) : Sec :=
  { name, kind, flags, align, data, size := data.size }

def Unit.secFor (u : Unit) (p : Part) : Sec :=
  let c := u.chunk p
  match p with
  | .text => secOf p.name 1 6 c.align c.bytes
  | .rodata => secOf p.name 1 2 c.align c.bytes
  | .data => secOf p.name 1 3 c.align c.bytes
  | .bss => secOf p.name 8 3 c.align c.bytes

/-- A table of strings, each with a zero byte behind it; the empty string is at offset zero. Also
the offsets of the strings. -/
def stringTable (names : List String) : Image × List Int :=
  names.foldl (fun (out, offs) s =>
    if s.isEmpty then (out, offs ++ [0])
    else ((out ++ s.toUTF8.data).push 0, offs ++ [(out.size : Int)])) (#[0], [])

def withNames (ss : List Sec) : List Sec :=
  let names := secOf ".shstrtab" Elf.stringsKind 0 1 #[]
  let (table, offs) := stringTable ((ss ++ [names]).map Sec.name)
  let names := { names with data := table, size := table.size }
  ((ss ++ [names]).zip offs).map fun (s, n) => { s with nameOff := n }

def Unit.loadedParts (u : Unit) : List Part :=
  .text :: [Part.rodata, .data, .bss].filter fun p => 0 < u.size p

def segsFor (parts : List Part) (total : Nat) : List Seg :=
  let number p : Option Nat := (parts.findIdx? (· == p)).map (· + 1)
  let exe := { Seg.executable 65536 with secs := [0, 1] }
  let ro := (number .rodata).toList.map fun n => { Seg.readOnly 65536 with secs := [n] }
  let rwSecs := (number .data).toList ++ (number .bss).toList
  let rw := if rwSecs.isEmpty then [] else
    [{ Seg.writable 65536 with secs := rwSecs }]
  let first := parts.length + 1
  let rest := { Seg.pseudo with
    secs := (List.range (total - first)).map (· + first) }
  exe :: ro ++ rw ++ [rest]

def symSecs (c : FileClass) (u : Unit) (before : Nat) : List Sec :=
  let size := (Elf.Sym.format c).size
  let table := secOf ".symtab" Elf.symsKind 0 4 (Array.replicate (u.syms.size * size) 0)
  let names := (stringTable (u.syms.toList.map Sym.name)).1
  [{ table with link := before + 1, info := u.syms.size, entrySize := size },
    secOf ".strtab" Elf.stringsKind 0 1 names]

variable (l : Linker)

def Linker.header (secs segs : Nat) : Elf.Header :=
  { kind := 2, machine := l.machine, ver := 1, flags := l.flags
    size := Elf.Ident.format.size + (Elf.Header.format l.cls).size
    segSize := (Seg.format l.cls).size
    secSize := (Sec.format l.cls).size
    secCount := secs, segCount := segs, namesIdx := (secs : Int) - 1 }

def Linker.executable (secs : List Sec) (segs : List Seg) : Exe :=
  { cls := l.cls, ident := Elf.Ident.standard l.cls
    header := l.header secs.length (segs.filter fun s => !s.isPseudo).length
    secs := secs.toArray, segs, start := l.start }

def addrSyms (u : Unit) (addr : Part → Int) : Res (Array Sym) :=
  u.syms.mapM fun s => do
    match s.part with
    | none => return s
    | some p =>
      ensure (0 < addr p) "symbol is not loaded"
      ensure (s.value != -1) "symbol without value"
      return { s with value := s.value + addr p }

def resolveAll (u : Unit) (syms : Array Sym) (number : Part → Nat) (e : Exe) : Res Exe :=
  u.references.foldlM (fun e r => do
    let i := number r.part
    let s := e.sec i
    let tgt := (syms.getD r.symbol ⟨"", false, none, -1⟩).value + r.addend
    let bytes ← l.resolve r.kind r.off.toNat (s.addr + r.off) tgt s.data
    return { e with secs := e.secs.setIfInBounds i { s with data := bytes } }) e

def packSyms (c : FileClass) (syms : Array Sym) (number : Part → Nat) : Res Image := do
  let offs := (stringTable (syms.toList.map Sym.name)).2
  let records ← (syms.toList.zip offs).mapM fun (s, nameOff) =>
    Elf.Sym.pack c { nameOff, value := s.value, bind := if s.isLocal then 0 else 1
                     secIdx := (s.part.map number).getD 0 }
  return records.flatten.toArray

def Linker.link (u : Unit) (withSyms : Bool) : Res Exe := do
  ensure (0 < u.size .text) "no code"
  let parts := u.loadedParts
  let number p := ((parts.findIdx? (· == p)).map (· + 1)).getD 0
  let attributes := l.attributes.toList.map fun bs =>
    secOf ".ARM.attributes" 0x70000003 0 1 bs.toArray
  let secs := ({ name := "", off := -1, addr := -1 } : Sec) :: parts.map u.secFor ++ attributes
  let symTable := if withSyms then symSecs l.cls u secs.length else []
  let all := withNames (secs ++ symTable)
  let e ← (l.executable all (segsFor parts all.length)).layout
  let addr p := if parts.contains p then (e.sec (number p)).addr else -1
  let syms ← addrSyms u addr
  let e ← resolveAll l u syms number e
  let e ← if withSyms then do
      let bytes ← packSyms l.cls syms number
      pure { e with secs := e.secs.modify secs.length fun s =>
        { s with data := bytes, size := bytes.size } }
    else pure e
  let start ← defined "_start" (u.find? "_start" false)
  let entry ← orFault .pastEnd syms[start]?
  ensure entry.part.isSome "undefined start"
  return { e with header := { e.header with entry := entry.value } }

end Retarget.Asm
