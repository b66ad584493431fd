import Retarget.A32.Compile
import Retarget.A64.Compile
import Retarget.X64.Compile

/-!
# Processors

What a tool needs to know of a processor: its registers and calling convention, how its assembly
language is read and linked, and how programs are compiled for it.
-/

namespace Retarget.Asm
open Elf (Exe Image Sec Seg)

/-! ## The smallest executables that print a greeting -/

def wordBytes (ws : List Nat) : Image := (ws.flatMap fun (w : Nat) => leBytes 4 w).toArray

def smallExe (l : Linker) (secs : List Sec) (segs : List Seg) : Res Exe :=
  let all := withNames (({ name := "" } : Sec) :: secs)
  let numbered := segs.zipIdx.map fun (g, i) =>
    { g with secs := if i == 0 then [0, 1] else [i + 1] }
  let rest := { Seg.pseudo with secs := [segs.length + 1] }
  (l.executable all (numbered ++ [rest])).layout

def startAt (e : Exe) (i : Nat) (patch : Image → Image) : Exe :=
  let s := e.sec i
  { e with
    header := { e.header with entry := s.addr }
    secs := e.secs.setIfInBounds i { s with data := patch s.data } }

def greetingA32 : Res Exe := do
  let text := wordBytes [0xe3a00001, 0xe28f1014, 0xe3a02012, 0xe3a07004, 0xef000000, 0xe3a00000,
    0xe3a07001, 0xef000000, 0x6c6c6548, 0x6f77206f, 0x20646c72, 0x32336128, 0x00000a29]
  let e ← smallExe A32.linker [secOf ".text" 1 6 1 text] [Seg.executable 65536]
  return startAt e 1 id

def greetingA64 : Res Exe := do
  let text := wordBytes [0xd2800020, 0x90000001, 0x91035021, 0xd2800242, 0xd2800808, 0xd4000001,
    0xd2800000, 0xd2800ba8, 0xd4000001, 0x6c6c6548, 0x6f77206f, 0x20646c72, 0x34366128,
    0x00000a29]
  let e ← smallExe A64.linker [secOf ".text" 1 6 1 text] [Seg.executable 65536]
  let msg := ((e.sec 1).addr + 36).toNat
  let add := (0x91035021 &&& 0xff0003ff) ||| ((msg % 4096) <<< 10)
  return startAt e 1 fun bytes => splice bytes 8 4 (leBytes 4 add)

def greetingX64 : Res Exe := do
  let text : Image := #[0x48, 0xc7, 0xc0, 0x01, 0x00, 0x00, 0x00, 0x48, 0xc7, 0xc7, 0x01, 0x00,
    0x00, 0x00, 0x48, 0xc7, 0xc6, 0x00, 0x20, 0x40, 0x00, 0x48, 0xc7, 0xc2, 0x13, 0x00, 0x00,
    0x00, 0x0f, 0x05, 0x48, 0xc7, 0xc0, 0x3c, 0x00, 0x00, 0x00, 0x48, 0x31, 0xff, 0x0f, 0x05]
  let e ← smallExe X64.linker
    [secOf ".rodata" 1 2 1 "Hello, world (x64)\n".toUTF8.data, secOf ".text" 1 6 1 text]
    [Seg.readOnly 4096, Seg.executable 4096]
  return startAt e 2 fun bytes => splice bytes 17 4 (leBytes 4 (e.sec 1).addr)

end Retarget.Asm

namespace Retarget

structure Processor where
  registers : List IR.CpuReg
  convention : IR.CallConv
  dialect : Asm.Dialect
  linker : Asm.Linker
  tgt : Backend.Tgt
  /-- The code for each instruction of a program whose registers are assigned. -/
  selectionReport : IR.Prog → List String × Option Fault
  greeting : Res Elf.Exe

namespace Processor

def a32 : Processor :=
  ⟨A32.registers, A32.convention, A32.dialect, A32.linker, A32.tgt, A32.selectionReport,
    Asm.greetingA32⟩

def a64 : Processor :=
  ⟨A64.registers, A64.convention, A64.dialect, A64.linker, A64.tgt, A64.selectionReport,
    Asm.greetingA64⟩

def x64 : Processor :=
  ⟨X64.registers, X64.convention, X64.dialect, X64.linker, X64.tgt, X64.selectionReport,
    Asm.greetingX64⟩

end Processor
end Retarget
