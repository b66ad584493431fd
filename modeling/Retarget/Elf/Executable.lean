import Retarget.Text.Token
import Retarget.Encoding.Word

/-!
# Executables

A list of sections, spread over segments. `layout` gives every section its address and its place in
the file, `save` writes the file, `load` reads it, `verify` compares it with its layout, and
`listing` describes it.
-/

namespace Retarget.Elf

abbrev Image := Array UInt8

/-- The two classes of files, by the width of their addresses. -/
inductive FileClass where
  | c32 | c64
  deriving DecidableEq

/-- An integer field: its number of bytes and whether it is signed. -/
structure Wire where
  bytes : Nat
  signed : Bool

namespace Wire

def i8 : Wire := ⟨1, true⟩
def u8 : Wire := ⟨1, false⟩
def u16 : Wire := ⟨2, false⟩
def u32 : Wire := ⟨4, false⟩
def u64 : Wire := ⟨8, false⟩

def holds (w : Wire) (v : Int) : Bool :=
  if w.signed then -(span (8 * w.bytes - 1) : Int) ≤ v && v < span (8 * w.bytes - 1)
  else 0 ≤ v && v < span (8 * w.bytes)

end Wire

def recordSize (ws : List Wire) : Nat := ws.foldr (·.bytes + ·) 0

def pack : List Wire → List Int → Res (List UInt8)
  | w :: ws, v :: vs => do
    if w.holds v then return leBytes w.bytes v ++ (← pack ws vs) else throw .packing
  | [], [] => .ok []
  | _, _ => .error .packing

def readField (w : Wire) (bs : List UInt8) : Int :=
  let n := ofLeBytes (bs.take w.bytes)
  if w.signed then signedOf n (8 * w.bytes) else n

def readFields : List Wire → List UInt8 → List Int
  | [], _ => []
  | w :: ws, bs => readField w bs :: readFields ws (bs.drop w.bytes)

def unpack (ws : List Wire) (bs : List UInt8) : Res (List Int) :=
  if bs.length = recordSize ws then .ok (readFields ws bs) else .error .packing

/-- How a record is stored: the formats of its numbers, and the numbers of a record. -/
structure Format (α : Type) where
  wires : List Wire
  values : α → List Int
  make : List Int → Option α

section
variable {α : Type} (f : Format α)

def Format.size : Nat := recordSize f.wires
def Format.pack (x : α) : Res (List UInt8) := Elf.pack f.wires (f.values x)

def Format.unpack (bs : List UInt8) : Res α := do
  orFault .packing (f.make (← Elf.unpack f.wires bs))

end

structure Ident where
  magic : List UInt8
  cls : Int
  encoding : Int
  ver : Int
  osAbi : Int
  abiVersion : Int

namespace Ident

def magicBytes : List UInt8 := [0x7f, 0x45, 0x4c, 0x46]
def standard (c : FileClass) : Ident := ⟨magicBytes, if c = .c32 then 1 else 2, 1, 1, 0, 0⟩
def fitted (n : Nat) (bs : List UInt8) : List UInt8 := bs.take n ++ List.replicate (n - bs.length) 0

/-- After the magic bytes and the numbers there are seven bytes that are not used. -/
def format : Format Ident where
  wires := List.replicate 4 .u8 ++ List.replicate 5 .i8 ++ List.replicate 7 .u8
  values x := (fitted 4 x.magic).map (fun b => (b.toNat : Int)) ++
    [x.cls, x.encoding, x.ver, x.osAbi, x.abiVersion] ++ List.replicate 7 0
  make
    | a :: b :: c :: d :: cls :: encoding :: ver :: osAbi :: abiVersion :: _ =>
      some ⟨[a, b, c, d].map fun n => UInt8.ofNat n.toNat, cls, encoding, ver, osAbi, abiVersion⟩
    | _ => none

def class? (x : Ident) : Option FileClass :=
  if x.magic = magicBytes && (x.encoding = 1 || x.encoding = 2) then
    if x.cls = 1 then some .c32 else if x.cls = 2 then some .c64 else none
  else none

end Ident

structure Header where
  kind : Int := 0
  machine : Int := 0
  ver : Int := 0
  entry : Int := -1
  segsOff : Int := -1
  secsOff : Int := -1
  flags : Int := 0
  size : Int := 0
  segSize : Int := 0
  segCount : Int := -1
  secSize : Int := 0
  secCount : Int := -1
  namesIdx : Int := -1

def Header.format (c : FileClass) : Format Header where
  wires := match c with
    | .c32 => [.u16, .u16, .u32, .u32, .u32, .u32, .u32, .u16, .u16, .u16, .u16, .u16, .u16]
    | .c64 => [.u16, .u16, .u32, .u64, .u64, .u64, .u32, .u16, .u16, .u16, .u16, .u16, .u16]
  values x := [x.kind, x.machine, x.ver, x.entry, x.segsOff, x.secsOff,
    x.flags, x.size, x.segSize, x.segCount, x.secSize, x.secCount, x.namesIdx]
  make
    | [kind, machine, ver, entry, segsOff, secsOff, flags, size, segSize,
        segCount, secSize, secCount, namesIdx] =>
      some ⟨kind, machine, ver, entry, segsOff, secsOff, flags, size, segSize,
        segCount, secSize, secCount, namesIdx⟩
    | _ => none

structure Sec where
  nameOff : Int := -1
  kind : Int := 0
  flags : Int := 0
  addr : Int := -1
  off : Int := -1
  size : Int := 0
  link : Int := 0
  info : Int := 0
  align : Int := 0
  entrySize : Int := 0
  name : String := ""
  data : Image := #[]

def Sec.format (c : FileClass) : Format Sec where
  wires := match c with
    | .c32 => [.u32, .u32, .u32, .u32, .u32, .u32, .u32, .u32, .u32, .u32]
    | .c64 => [.u32, .u32, .u64, .u64, .u64, .u64, .u32, .u32, .u64, .u64]
  values x := [x.nameOff, x.kind, x.flags, x.addr, x.off, x.size, x.link, x.info, x.align,
    x.entrySize]
  make
    | [nameOff, kind, flags, addr, off, size, link, info, align, entrySize] =>
      some { nameOff, kind, flags, addr, off, size, link, info, align, entrySize }
    | _ => none

structure Seg where
  kind : Int := -1
  off : Int := -1
  vaddr : Int := -1
  paddr : Int := -1
  fileSize : Int := -1
  memSize : Int := -1
  flags : Int := -1
  align : Int := -1
  /-- Holds the sections that are not loaded and has no header in the file. -/
  isPseudo : Bool := false
  /-- Repeats sections of other segments. -/
  isAuxiliary : Bool := false
  /-- Starts at a multiple of its alignment. -/
  hardAlign : Bool := false
  secs : List Nat := []
  deriving DecidableEq

def Seg.format : FileClass → Format Seg
  | .c32 => {
    wires := [.u32, .u32, .u32, .u32, .u32, .u32, .u32, .u32]
    values x := [x.kind, x.off, x.vaddr, x.paddr, x.fileSize, x.memSize, x.flags, x.align]
    make
      | [kind, off, vaddr, paddr, fileSize, memSize, flags, align] =>
        some { kind, off, vaddr, paddr, fileSize, memSize, flags, align }
      | _ => none }
  | .c64 => {
    wires := [.u32, .u32, .u64, .u64, .u64, .u64, .u64, .u64]
    values x := [x.kind, x.flags, x.off, x.vaddr, x.paddr, x.fileSize, x.memSize, x.align]
    make
      | [kind, flags, off, vaddr, paddr, fileSize, memSize, align] =>
        some { kind, off, vaddr, paddr, fileSize, memSize, flags, align }
      | _ => none }

structure Sym where
  nameOff : Int := 0
  value : Int := 0
  size : Int := 0
  bind : Int := 0
  kind : Int := 0
  other : Int := 0
  secIdx : Int := 0
  name : String := ""

/-- Binding and kind share a byte. -/
def Sym.format : FileClass → Format Sym
  | .c32 => {
    wires := [.u32, .u32, .u32, .u8, .u8, .u16]
    values x := [x.nameOff, x.value, x.size, x.bind * 16 + x.kind, x.other, x.secIdx]
    make
      | [nameOff, value, size, info, other, secIdx] =>
        some ⟨nameOff, value, size, info / 16, info % 16, other, secIdx, ""⟩
      | _ => none }
  | .c64 => {
    wires := [.u32, .u8, .u8, .u16, .u64, .u64]
    values x := [x.nameOff, x.bind * 16 + x.kind, x.other, x.secIdx, x.value, x.size]
    make
      | [nameOff, info, other, secIdx, value, size] =>
        some ⟨nameOff, value, size, info / 16, info % 16, other, secIdx, ""⟩
      | _ => none }

/-- An undefined symbol cannot be stored. -/
def Sym.pack (c : FileClass) (x : Sym) : Res (List UInt8) := do
  ensure (x.value != -1) "undefined symbol"
  (format c).pack x

/-! ## Sections and segments -/

open Text

/-! ## Names of codes -/

abbrev Codes := List (Nat × String)

/-- The codes from `first` on. -/
def codesFrom (first : Nat) (names : String) : Codes :=
  ((names.splitOn " ").zipIdx first).map Prod.swap

def secKinds : Codes :=
  codesFrom 0 "X_NULL PROGBITS SYMTAB STRTAB RELA HASH DYNAMIC NOTE NOBITS REL SHLIB DYNSYM" ++
    codesFrom 14 "INIT_ARRAY FINI_ARRAY PREINIT_ARRAY GROUP SYMTAB_SHNDX NUM" ++
    codesFrom 0x6ffffff5 "GNU_ATTRIBUTES GNU_HASH GNU_LIBLIST" ++
    codesFrom 0x6ffffffd "GNU_verdef GNU_verneed GNU_versym" ++
    codesFrom 0x70000001 "ARM_EXIDX ARM_PREEMPTMAP ARM_ATTRIBUTES ARM_DEBUGOVERLAY"

def segKinds : Codes :=
  codesFrom 0 "X_NULL LOAD DYNAMIC INTERP NOTE SHLIB PHDR TLS" ++
    codesFrom 0x6474e550 "GNU_EH_FRAME GNU_STACK GNU_RELRO GNU_PROPERTY" ++
    codesFrom 0x70000000 "ARM_ARCHEXT ARM_EXIDX" ++ [(0x70000003, "ABIFLAGS")]

def secFlags : Codes :=
  [(0x1, "W"), (0x2, "A"), (0x4, "E"), (0x10, "M"), (0x20, "S"), (0x40, "I"), (0x80, "L"),
    (0x100, "O"), (0x200, "G"), (0x400, "T"), (0x800, "C"), (0x200000, "K")]

def segFlags : Codes := [(0x1, "X"), (0x2, "W"), (0x4, "R")]
def symBinds : Codes := codesFrom 0 "LOCAL GLOBAL WEAK NUM" ++ [(10, "GNU_UNIQUE")]

def symKinds : Codes :=
  codesFrom 0 "NOTYPE OBJECT FUNC SECTION FILE COMMON TLS NUM RELC SRELC LOOS" ++
    [(12, "HIOS"), (13, "LOPROC"), (15, "HIPROC")]

def codeName (table : Codes) (v : Int) : Res String :=
  orFault (.malformed "code without name")
    ((table.find? fun (n, _) => Int.ofNat n == v).map Prod.snd)

def flagLetters (table : Codes) (v : Int) : Res String := do
  let known := (table.map Prod.fst).foldl (· ||| ·) 0
  if 0 ≤ v && v.toNat ||| known = known then
    return String.join ((table.filter fun (n, _) => v.toNat &&& n != 0).map Prod.snd)
  else throw (.malformed "unknown flag")

def hexColumn (width : Nat) (v : Int) : String :=
  padLeft width ((if v < 0 then "-" else "") ++ hex 1 v.natAbs)

variable (s : Sec)

def Sec.describe : Res String := do
  let kind ← codeName secKinds s.kind
  let flags ← flagLetters secFlags s.flags
  return " ".intercalate [padRight 20 s.name, padRight 12 kind, padRight 5 flags,
    hexColumn 7 s.addr, hexColumn 7 s.off, hexColumn 7 s.size, hexColumn 2 s.link,
    hexColumn 4 s.info, hexColumn 3 s.align, hexColumn 2 s.entrySize]

def Seg.describe (s : Seg) : Res String := do
  let kind ← codeName segKinds s.kind
  let flags ← flagLetters segFlags s.flags
  return " ".intercalate [padRight 12 kind, padRight 3 flags, hexColumn 7 s.off,
    hexColumn 7 s.vaddr, hexColumn 7 s.paddr, hexColumn 7 s.fileSize, hexColumn 7 s.memSize,
    hexColumn 4 s.align]

def Sym.describe (s : Sym) : Res String := do
  let bind ← codeName symBinds s.bind
  let kind ← codeName symKinds s.kind
  return s!"{padRight 20 s.name} {hexColumn 7 s.value} " ++
    s!"{s.secIdx} {padRight 10 bind}{padRight 10 kind}"

def describeFields (title : String) (fields : List (String × String)) : String :=
  title ++ "(" ++ ", ".intercalate (fields.map fun (k, v) => s!"{k}={v}") ++ ")"

def quotedByte (b : UInt8) : String :=
  if b == 9 then "\\t" else if b == 10 then "\\n" else if b == 13 then "\\r"
  else if b == 39 then "\\'" else if b == 92 then "\\\\"
  else if 32 ≤ b && b < 127 then (Char.ofNat b.toNat).toString else "\\x" ++ hex 2 b.toNat

def Ident.describe (x : Ident) : String :=
  describeFields "EHdrIdent" [("ei_magic", s!"b'{String.join (x.magic.map quotedByte)}'"),
    ("ei_class", decimal x.cls), ("ei_data", decimal x.encoding),
    ("ei_version", decimal x.ver), ("ei_osabi", decimal x.osAbi),
    ("ei_abiversion", decimal x.abiVersion)]

def Header.describe (x : Header) : String :=
  describeFields "EHdr" ([("e_type", x.kind), ("e_machine", x.machine), ("e_version", x.ver),
    ("e_entry", x.entry), ("e_phoff", x.segsOff), ("e_shoff", x.secsOff),
    ("e_flags", x.flags), ("e_ehsize", x.size), ("e_phentsize", x.segSize),
    ("e_phnum", x.segCount), ("e_shentsize", x.secSize), ("e_shnum", x.secCount),
    ("e_shstrndx", x.namesIdx)].map fun (k, v) => (k, decimal v))

def alignUp (x align : Int) : Int := if align ≤ 1 then x else (x + align - 1) / align * align
def nullKind : Int := 0
def symsKind : Int := 2
def stringsKind : Int := 3
def noBitsKind : Int := 8
def loadKind : Int := 1
def allocFlag : Nat := 2
def auxiliaryKinds : List Int := [0x6474e551, 0x6474e553, 0x6474e552, 0x6474e550, 2, 7, 4, 3]

structure Exe where
  cls : FileClass
  ident : Ident
  header : Header := {}
  secs : Array Sec := #[]
  segs : List Seg := []
  start : Int := 0
  syms : List Sym := []

namespace Sec

def isLoaded : Res Bool := do
  let _ ← flagLetters secFlags s.flags
  return s.flags.toNat &&& allocFlag != 0

def fileSize : Int := if s.kind = noBitsKind then 0 else s.size

/-- Place a section at or after the given address and file offset; also what comes after it. -/
def place (vaddr off : Int) : Res (Sec × Int × Int) := do
  if s.kind = nullKind then return ({ s with addr := 0, off := 0 }, vaddr, off)
  if s.kind = noBitsKind then
    if s.name = ".tbss" then return (s, vaddr, off)
    let vaddr := alignUp vaddr s.align
    return ({ s with addr := vaddr, off }, vaddr + s.size, off)
  ensure (s.size == s.data.size) "size of section"
  let off := alignUp off s.align
  let vaddr := alignUp vaddr s.align
  let addr := if ← s.isLoaded then vaddr else 0
  return ({ s with addr, off }, vaddr + s.size, off + s.size)

def verify (vaddr off : Int) : Res (Int × Int) := do
  if s.kind = nullKind then
    ensure (s.addr == 0 && s.off == 0) "place of a section"
    return (vaddr, off)
  if s.kind = noBitsKind then
    if s.name = ".tbss" then return (vaddr, off)
    let vaddr := alignUp vaddr s.align
    ensure (s.off == off && s.addr == vaddr) "place of a section"
    return (vaddr + s.size, off)
  let off := alignUp off s.align
  let vaddr := alignUp vaddr s.align
  ensure (s.off == off) "section offset"
  ensure (s.addr == if ← s.isLoaded then vaddr else 0) "address of section"
  return (vaddr + s.size, off + s.size)

end Sec

namespace Seg

def pseudo : Seg := { isPseudo := true, kind := 0, align := 0, flags := 0 }
def loaded (flags align : Int) : Seg := { kind := loadKind, flags, align }
def executable (align : Int) : Seg := loaded 5 align
def writable (align : Int) : Seg := loaded 6 align
def readOnly (align : Int) : Seg := loaded 4 align

def advance (s : Seg) (vaddr off : Int) : Int × Int :=
  if s.hardAlign then (alignUp (vaddr + 1) s.align, alignUp (off + 1) s.align)
  else (vaddr + s.align, off)

end Seg

namespace Exe
variable (e : Exe)

def sec (i : Nat) : Sec := e.secs.getD i {}

def headerSize : Nat :=
  Ident.format.size + (Header.format e.cls).size +
    (e.segs.filter fun s => !s.isPseudo).length * (Seg.format e.cls).size

def segHeadersOff : Int := Ident.format.size + (Header.format e.cls).size
def secHeadersAlign : Int := if e.cls = .c64 then 16 else 4

def segStart (s : Seg) (vaddr off : Int) : Int × Int :=
  if off = 0 then (e.headerSize + e.start, e.headerSize) else s.advance vaddr off

def placeSecs : Res (Exe × Int) := do
  let (e, _, off) ← (e.segs.filter fun s => !s.isAuxiliary).foldlM (fun (e, vaddr, off) s => do
      let (vaddr, off) := e.segStart s vaddr off
      s.secs.foldlM (fun (e, vaddr, off) i => do
        let (placed, vaddr, off) ← (e.sec i).place vaddr off
        return ({ e with secs := e.secs.setIfInBounds i placed }, vaddr, off))
        (e, vaddr, off))
    (e, (0 : Int), (0 : Int))
  return (e, alignUp off e.secHeadersAlign)

/-- Set the header of a segment from its sections; the first loaded one starts with the file. -/
def placeSeg (s : Seg) (firstLoad : Bool) : Res Seg := do
  let first ← orFault .pastEnd s.secs.head?
  let last := e.sec (s.secs.getLastD 0)
  let atStart := s.kind = loadKind && firstLoad
  let off := if atStart then 0 else (e.sec first).off
  let vaddr := if atStart then e.start else (e.sec first).addr
  return { s with
    off, vaddr, paddr := vaddr
    fileSize := last.off + last.fileSize - off
    memSize := last.addr + last.size - vaddr }

/-- Set the headers of the segments; the flag tells whether no loaded segment came before. -/
def placeSegs (e : Exe) : List Seg → Bool → Res (List Seg)
  | [], _ => .ok []
  | s :: ss, firstLoad => do
    if s.isPseudo then return s :: (← placeSegs e ss firstLoad)
    let placed ← e.placeSeg s firstLoad
    return placed :: (← placeSegs e ss (firstLoad && s.kind != loadKind))

def layout : Res Exe := do
  let (e, secsOff) ← e.placeSecs
  let segs ← e.placeSegs e.segs true
  return { e with
    segs
    header := { e.header with secsOff, segsOff := e.segHeadersOff } }

def verifySeg (s : Seg) (firstLoad : Bool) : Res Unit := do
  let t ← e.placeSeg s firstLoad
  ensure (s.off == t.off && s.vaddr == t.vaddr && s.paddr == s.vaddr) "place of segment"
  ensure (s.fileSize == t.fileSize && s.memSize == t.memSize) "size of segment"

def verifySegs (e : Exe) : List Seg → Bool → Res Unit
  | [], _ => .ok ()
  | s :: ss, firstLoad => do
    if s.isPseudo then verifySegs e ss firstLoad
    else
      e.verifySeg s firstLoad
      verifySegs e ss (firstLoad && s.kind != loadKind)

/-- Check that all addresses and offsets are those that `layout` computes. -/
def verify (e : Exe) : Res Unit := do
  let (_, off) ← (e.segs.filter fun s => !s.isAuxiliary).foldlM (fun (vaddr, off) s => do
      let start := e.segStart s vaddr off
      s.secs.foldlM (fun (vaddr, off) i => (e.sec i).verify vaddr off) start)
    ((0 : Int), (0 : Int))
  ensure (e.header.secsOff == alignUp off e.secHeadersAlign) "section headers"
  ensure (e.header.segsOff == e.segHeadersOff) "segment headers"
  e.verifySegs e.segs true

/-- The bytes up to the section headers, given those before the sections. -/
def writeSecs (out : Image) : Res Image :=
  ((e.segs.filter fun s => !s.isAuxiliary).flatMap Seg.secs).foldlM
    (fun out i => do
      let s := e.sec i
      if s.size = 0 || s.kind = noBitsKind then return out
      ensure (out.size ≤ s.off) "overlapping sections"
      let out := out ++ Array.replicate (s.off.toNat - out.size) 0
      ensure (s.size == s.data.size) "size of section"
      return out ++ s.data)
    out

def save : Res Image := do
  let ident ← Ident.format.pack e.ident
  let header ← (Header.format e.cls).pack e.header
  let start := (ident ++ header).toArray
  ensure (e.header.segsOff == start.size) "segment headers"
  let segs ← (e.segs.filter fun s => !s.isPseudo).mapM (Seg.format e.cls).pack
  let out ← e.writeSecs (start ++ segs.flatten.toArray)
  let out := out ++ Array.replicate ((alignUp out.size e.secHeadersAlign).toNat - out.size) 0
  ensure (e.header.secsOff == out.size) "section headers"
  let secs ← ((e.segs.filter fun s => !s.isAuxiliary).flatMap Seg.secs).mapM
    fun i => (Sec.format e.cls).pack (e.sec i)
  return out ++ secs.flatten.toArray

end Exe

/-!
## Reading executables

A file is read header by header. Then each section is assigned to the segments whose bytes and
addresses contain it; sections outside of all segments have to come last.
-/

def readAt (file : Image) (off n : Int) : Res (List UInt8) :=
  if off < span 63 && n < span 63 then
    .ok (file.extract off.toNat (min file.size off.toNat + n.toNat)).toList
  else .error .overflow

def readRecords {α : Type} (file : Image) (size : Nat) (unpack : List UInt8 → Res α) :
    Nat → Int → Res (List α)
  | 0, _ => .ok []
  | n + 1, off => do
    let x ← unpack (← readAt file off size)
    return x :: (← readRecords file size unpack n (off + size))

def stringAt (table : Image) (off : Nat) : Res (List UInt8) :=
  let bs := (table.extract off table.size).toList
  match bs.dropWhile (· != 0) with
  | [] => .error .pastEnd
  | _ => .ok (bs.takeWhile (· != 0))

def nameAt (table : Image) (off : Int) : Res String := do
  orFault .undecodable (String.fromUTF8? ⟨(← stringAt table off.toNat).toArray⟩)

def isInside (start size outer outerSize : Int) : Bool :=
  outer ≤ start && start ≤ outer + outerSize && outer ≤ start + size &&
    start + size ≤ outer + outerSize

def Seg.contains (g : Seg) (s : Sec) : Bool :=
  isInside s.off s.fileSize g.off g.fileSize &&
    (s.addr == 0 || isInside s.addr s.size g.vaddr g.memSize)

namespace Exe

def completeSeg (g : Seg) : Res Seg := do
  if g.align = 0 then throw .divByZero
  return { g with
    hardAlign := g.vaddr % g.align == 0
    isAuxiliary := auxiliaryKinds.contains g.kind }

def loadSegs (c : FileClass) (h : Header) (file : Image) : Res (List Seg) := do
  let format := Seg.format c
  ensure (h.segSize == format.size) "size of segment headers"
  if span 63 ≤ h.segsOff then throw .overflow
  readRecords file format.size (fun bs => do completeSeg (← format.unpack bs))
    h.segCount.toNat h.segsOff

def startOf (gs : List Seg) : Int :=
  ((gs.filter fun g => g.kind == loadKind && g.vaddr != 0).head?.map Seg.vaddr).getD 0

def loadSecs (c : FileClass) (h : Header) (file : Image) : Res (List Sec) := do
  let format := Sec.format c
  ensure (h.secSize == format.size) "size of section headers"
  if span 63 ≤ h.secsOff then throw .overflow
  let ss ← readRecords file format.size format.unpack h.secCount.toNat h.secsOff
  let ss ← ss.mapM fun s => do
    if s.kind = noBitsKind then return s
    return { s with data := (← readAt file s.off s.size).toArray }
  let names ← orFault .pastEnd ss[h.namesIdx.toNat]?
  ss.mapM fun s => do return { s with name := ← nameAt names.data s.nameOff }

def loadSyms (c : FileClass) (ss : List Sec) (file : Image) : Res (List Sym) := do
  match ss.filter fun s => s.kind == symsKind && s.name == ".symtab" with
  | [] => return []
  | [t] =>
    let names ← orFault .pastEnd ss[t.link.toNat]?
    let size := (Sym.format c).size
    ensure (t.size % size == 0) "size of symbol table"
    if span 63 ≤ t.off then throw .overflow
    readRecords file size (fun bs => do
      let s ← (Sym.format c).unpack bs
      return { s with name := ← nameAt names.data s.nameOff }) (t.size / size).toNat t.off
  | _ => broken "two symbol tables"

def assignSec (gs : List Seg) (unloaded : List Nat) (i : Nat) (s : Sec) :
  Res (List Seg × List Nat) := do
  let owners := gs.filter fun g => g.contains s
  if owners.isEmpty then
    if s.kind = nullKind then
      let _ ← s.describe
      broken "section outside of segments"
    return (gs, unloaded ++ [i])
  if !unloaded.isEmpty then
    let _ ← s.describe
    broken "order of sections"
  if 1 < owners.length then
    owners.forM fun g => do
      if g.kind != loadKind && !g.isAuxiliary then
        let _ ← g.describe
        broken "segments overlap"
  return (gs.map fun g => if g.contains s then { g with secs := g.secs ++ [i] } else g, unloaded)

def load (file : Image) : Res Exe := do
  let ident ← Ident.format.unpack (← readAt file 0 Ident.format.size)
  let c ← need "identification" ident.class?
  ensure (ident.encoding == 1) "byte order"
  let format := Header.format c
  let header ← format.unpack (← readAt file Ident.format.size format.size)
  let segs ← loadSegs c header file
  let secs ← loadSecs c header file
  let syms ← loadSyms c secs file
  let (segs', unloaded) ← secs.zipIdx.foldlM
    (fun (gs, unloaded) (s, i) => assignSec gs unloaded i s) (segs, [])
  let rest := if unloaded.isEmpty then [] else [{ Seg.pseudo with secs := unloaded }]
  return { cls := c, ident, header, secs := secs.toArray, segs := segs' ++ rest,
           start := startOf segs, syms }

def numbered (width : Nat) (xs : List (Res String)) : Texts :=
  xs.zipIdx.mapM fun (x, i) => return s!"[{padLeft width (decimal i)}] {← x}"

def listing (e : Exe) : Texts := do
  let segs ← numbered 2 (e.segs.map Seg.describe)
  let secs ← numbered 2 (e.secs.toList.map Sec.describe)
  let syms ← numbered 3 (e.syms.map Sym.describe)
  return [e.ident.describe, e.header.describe,
      "PHDR type      flags   offset    vaddr  paddr  filesz   memsz align"] ++ segs ++
    ["SHDR  name                  type      flags     addr  offset    size"] ++ secs ++
    ["HEADER SIZE: " ++ hex 1 e.headerSize,
      "SYM  name                  type      flags     addr  offset    size"] ++ syms

end Exe
end Retarget.Elf
