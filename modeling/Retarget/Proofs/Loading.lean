import Mathlib.Data.List.Sublists
import Retarget.A32.Instruction
import Retarget.A64.Instruction
import Retarget.X64.Instruction
import Retarget.Proofs.Linking

/-!
# Where sections are loaded

Sections are aligned and inside their segments, they do not overlap, and no two segments share a
page. An address and its offset differ by a multiple of the page size as long as both are rounded up
alike. They are not for a section without bytes that starts a segment.
-/

/-! ## The length of code

The length of an instruction is known before it is assembled: that of its format, and a REX prefix
where the operands need one. Gaps in code are filled with bytes that execution runs through; there
`NOP`s are read off the bytes by the rules of the processor. -/

namespace Retarget.X64
open List
open IR.Pass (bind_ok foldlM_cons_ok)

/-- A register operand is a number of the register file; nothing is asked of other operands. -/
def Field.Admits (v : Int) : Field → Prop
  | rmReg _ | reg _ | regInOp _ | rmXreg _ | xreg _ | rmBase | sibBase | sibIdx
  | sibIdxAsBase => 0 ≤ v ∧ v < 16
  | _ => True

namespace Op

/-- Are the bytes there that a number takes? -/
def hasRoom (o : Op) : Field → Bool
  | .imm stored _ => o.immPos.getD 0 + stored / 8 ≤ o.bytes.length
  | .off w | .dist w => o.offPos.getD 0 + w / 8 ≤ o.bytes.length
  | _ => true

lemma hasRoom_of_mem : ∀ o ∈ opcodes, ∀ f ∈ o.fields, o.hasRoom f := by decide +kernel

variable {o : Op} {d d' : Draft} {f : Field} {v : Int} {pos : Option Nat} {shift rexBit w : Nat}

namespace Draft

lemma rex_setReg (h : 0 ≤ v ∧ v < 16) :
  (d.setReg pos shift rexBit v).rex = 0 ↔ d.rex = 0 ∧ (v / 8 != 0) = false := by
  rw [setReg, Nat.or_eq_zero_iff, Nat.shiftLeft_eq_zero_iff, bne_eq_false_iff_eq]
  omega

lemma rex_setSizedReg (h : 0 ≤ v ∧ v < 16) : (d.setSizedReg w pos shift rexBit v).rex = 0 ↔
  d.rex = 0 ∧ ((w == 8 && 4 ≤ v && v ≤ 7) || v / 8 != 0) = false := by
  rw [setSizedReg, rex_setReg h]
  split <;> simp_all

lemma length_setSizedReg : (d.setSizedReg w pos shift rexBit v).bytes.length = d.bytes.length := by
  rw [setSizedReg, setReg, length_modify]
  split <;> rfl

lemma length_setInt {n : Nat} (hbytes : d.bytes.length = n) (h : pos.getD 0 + w / 8 ≤ n) :
  (d.setInt pos w v).bytes.length = n := by
  simp only [setInt, length_append, length_take, length_drop, Asm.length_leBytes]
  omega

lemma length_finish (d : Draft) :
  d.finish.length = d.bytes.length + if d.rex == 0 then 0 else 1 := by
  rw [finish]
  split
  · rfl
  · rw [length_append, length_cons, ← Nat.add_assoc, ← length_append, takeWhile_append_dropWhile]

end Draft

/-- Placing an operand keeps the number of bytes, and it sets bits of the prefix exactly if the
operand needs one. -/
lemma place_spec (hroom : o.hasRoom f) (hbytes : d.bytes.length = o.bytes.length)
  (hv : f.Admits v) (h : o.place d f v = .ok d') :
  d'.bytes.length = o.bytes.length ∧ (d'.rex = 0 ↔ d.rex = 0 ∧ fieldNeedsRex f v = false) := by
  cases f with
  | rmReg | reg | regInOp =>
    cases h
    exact ⟨Draft.length_setSizedReg.trans hbytes, Draft.rex_setSizedReg hv⟩
  | rmXreg | xreg | rmBase | sibBase | sibIdx =>
    cases h
    exact ⟨(length_modify ..).trans hbytes, Draft.rex_setReg hv⟩
  | sibIdxAsBase =>
    obtain ⟨_, -, ⟨⟩⟩ := bind_ok.1 h
    exact ⟨(length_modify ..).trans hbytes, Draft.rex_setReg hv⟩
  | sibScale =>
    obtain ⟨_, -, ⟨⟩⟩ := bind_ok.1 h
    exact ⟨(length_modify ..).trans hbytes, (and_iff_left rfl).symm⟩
  | imm | off | dist =>
    cases h
    exact ⟨Draft.length_setInt hbytes (of_decide_eq_true hroom), (and_iff_left rfl).symm⟩
  | implicit | ripBase =>
    cases h
    exact ⟨hbytes, (and_iff_left rfl).symm⟩

lemma places_spec {l : List (Field × Int)}
  (hl : ∀ x ∈ l, o.hasRoom x.1 ∧ x.1.Admits x.2) (hbytes : d.bytes.length = o.bytes.length)
  (h : l.foldlM (fun d (f, v) => o.place d f v) d = .ok d') : d'.bytes.length = o.bytes.length ∧
  (d'.rex = 0 ↔ d.rex = 0 ∧ l.any (fun (f, v) => fieldNeedsRex f v) = false) := by
  induction l generalizing d with
  | nil =>
    cases h
    exact ⟨hbytes, (and_iff_left rfl).symm⟩
  | cons x l ih =>
    obtain ⟨e, he, h⟩ := foldlM_cons_ok.1 h
    obtain ⟨hx, hl⟩ := forall_mem_cons.1 hl
    obtain ⟨hlen, hrex⟩ := place_spec hx.1 hbytes hx.2 he
    obtain ⟨hlen', hrex'⟩ := ih hl hlen h
    rw [hrex, and_assoc, ← Bool.or_eq_false_iff] at hrex'
    exact ⟨hlen', hrex'⟩

end Op

/-- The length of an instruction is the number of bytes that it is assembled to. -/
theorem Ins.length_of_asm {i : Ins} {bs : List UInt8} (hopcode : i.opcode ∈ opcodes)
  (hrange : ∀ x ∈ i.opcode.fields.zip i.opnds, x.1.Admits x.2) (h : i.asm = .ok bs) :
  i.length = .ok bs.length := by
  obtain ⟨_, -, h⟩ := bind_ok.1 h
  obtain ⟨_, hcnt, h⟩ := bind_ok.1 h
  obtain ⟨d, hd, ⟨⟩⟩ := bind_ok.1 h
  obtain ⟨hlen, hrex⟩ := Op.places_spec (fun x hx =>
    ⟨Op.hasRoom_of_mem _ hopcode _ (of_mem_zip hx).1, hrange x hx⟩) (length_map _) hd
  rw [length, Op.needsRex, hcnt, d.length_finish, hlen]
  refine congrArg (fun n => Except.ok (i.opcode.bytes.length + n)) ?_
  generalize (i.opcode.fields.zip i.opnds).any _ = needs at hrex ⊢
  cases hrexw : i.opcode.rexw <;> cases needs <;> simp_all

/-- `add rax, 5` takes a prefix. -/
theorem Ins.length_of_asm_add : ∃ o ∈ opcodes,
  (⟨o, [0, 5], none⟩ : Ins).asm = .ok [0x48, 0x05, 5, 0, 0, 0] ∧
    (⟨o, [0, 5], none⟩ : Ins).length = .ok 6 := by
  have ho : (sized "add" 64 [0x05] [.implicit .rax, .imm 32 64 .signed]).opcode .plain ∈ opcodes :=
    mem_flatMap.2 ⟨_, .tail _ (.tail _ (.tail _ (.head _))), mem_singleton.2 rfl⟩
  exact ⟨_, ho, rfl, length_of_asm (i := ⟨_, [0, 5], none⟩) ho
    (by rintro x (_ | ⟨_, _ | ⟨_, ⟨⟩⟩⟩) <;> trivial) rfl⟩

/-! ## Padding

A `NOP` is `90`, or `0f 1f` with a ModRM byte whose register bits are zero and the bytes that it asks
for; a size prefix may stand before either. -/

/-- How many bytes a ModRM byte asks for: a SIB byte and a displacement, or neither. -/
def addrBytes (modrm : Nat) (bs : List UInt8) : Nat :=
  let mode := modrm / 64
  let sib := if modrm % 8 = 4 ∧ mode < 3 then 1 else 0
  let base := if sib = 1 then (bs.headD 0).toNat % 8 else modrm % 8
  sib + if mode = 1 then 1 else if mode = 2 ∨ mode = 0 ∧ base = 5 then 4 else 0

/-- The length of the `NOP` at the start of the code. -/
def nopLength? : List UInt8 → Option Nat
  | 0x90 :: _ => some 1
  | 0x66 :: bs => (nopLength? bs).map (· + 1)
  | 0x0f :: 0x1f :: m :: bs =>
    if m.toNat / 8 % 8 = 0 then some (3 + addrBytes m.toNat bs) else none
  | _ => none

@[mk_iff] inductive Nops : List UInt8 → Prop
  | nil : Nops []
  | cons {n : Nat} {code : List UInt8} (first : nopLength? code = some n) (fits : n ≤ code.length)
      (rest : Nops (code.drop n)) : Nops code

lemma nops_append_iff {nop rest : List UInt8} (h : nopLength? (nop ++ rest) = some nop.length) :
  Nops (nop ++ rest) ↔ Nops rest := by
  rw [nops_iff, h]
  constructor
  · rintro (hnil | ⟨_, ⟨⟩, -, hrest⟩)
    · exact (append_eq_nil_iff.1 hnil).2 ▸ .nil
    · rwa [drop_left] at hrest
  · exact fun hrest => .inr ⟨_, rfl, by simp, by rwa [drop_left]⟩

lemma nopLength?_nops : ∀ n < 10, (nops.getD n []).length = n ∧
  nopLength? (nops.getD n []) = if n = 0 ∨ n = 7 then none else some n := by
  decide

/-- Padding has the length asked for, and it can be executed unless seven bytes are left over after
the longest forms. -/
theorem textFiller_nops_iff (n : Nat) :
  (textFiller n).length = n ∧ (Nops (textFiller n) ↔ n % 9 ≠ 7) := by
  fun_induction textFiller n with
  | case1 n hn ih =>
    rw [length_append, ih.1, nops_append_iff rfl, ih.2]
    simp only [longestNop, length_cons, length_nil]
    omega
  | case2 n hn =>
    obtain ⟨hlen, hfst⟩ := nopLength?_nops n (by omega)
    refine ⟨hlen, ?_⟩
    rw [nops_iff, hfst, ← length_eq_zero_iff, hlen]
    split
    · simp
      omega
    · have hdone : Nops (drop n (nops.getD n [])) := by
        rw [drop_of_length_le hlen.le]
        exact .nil
      exact iff_of_true (.inr ⟨n, rfl, le_rfl, hdone⟩) (by omega)

end Retarget.X64

namespace Retarget.Elf
open List Int
variable {a x : Int} {js : List Nat} {i : Nat} {s : Sec} {g : Seg}

/-! ## Multiples -/

lemma alignUp_spec (ha : 0 < a) (x : Int) :
  x ≤ alignUp x a ∧ alignUp x a < x + a ∧ a ∣ alignUp x a := by
  rw [alignUp]
  split
  · obtain rfl : a = 1 := by omega
    exact ⟨Int.le_refl x, Int.lt_succ x, Int.one_dvd x⟩
  · have hdiv := Int.mul_ediv_add_emod (x + a - 1) a
    have hnonneg := Int.emod_nonneg (x + a - 1) (Int.ne_of_gt ha)
    have hlt := Int.emod_lt_of_pos (x + a - 1) ha
    rw [mul_comm] at hdiv
    exact ⟨by omega, by omega, dvd_mul_left _ _⟩

/-- Numbers that leave the same remainder are moved by the same distance. -/
lemma alignUp_sub_alignUp {y : Int} (ha : 0 < a) (h : a ∣ x - y) :
  alignUp x a - alignUp y a = x - y := by
  obtain ⟨hx, hx', hdvd⟩ := alignUp_spec ha x
  obtain ⟨hy, hy', hdvd'⟩ := alignUp_spec ha y
  have hzero := eq_zero_of_dvd_of_natAbs_lt_natAbs (Int.dvd_sub (Int.dvd_sub hdvd hdvd') h) (by omega)
  omega

lemma alignUp_eq_self_iff (ha : 0 < a) : alignUp x a = x ↔ a ∣ x := by
  obtain ⟨hle, hlt, hdvd⟩ := alignUp_spec ha x
  refine ⟨fun h => h ▸ hdvd, fun h => ?_⟩
  have hsub := alignUp_sub_alignUp ha (show a ∣ x - 0 by simpa using h)
  have hzero : alignUp 0 a = 0 := by
    rw [alignUp]
    split
    · rfl
    · rw [ediv_eq_zero_of_lt (by omega) (by omega), zero_mul]
  omega

/-! ## One section -/

namespace Sec

/-- The section takes up memory when the program runs. -/
def loads (s : Sec) : Bool := s.flags.toNat &&& allocFlag != 0

/-- The section can be placed, on pages of 64 KiB. -/
structure Fit (s : Sec) : Prop where
  flags : s.isLoaded = .ok s.loads
  size : 0 ≤ s.size
  bytes : s.kind ≠ noBitsKind → s.size = s.data.size
  name : s.name ≠ ".tbss"
  align : s.kind ≠ nullKind → 0 < s.align ∧ s.align ∣ 65536
  null : s.kind = nullKind → s.loads = false

/-- The section has been placed behind the address `v` and the file offset `o`, and what comes next is
placed behind `v'` and `o'`. -/
structure Placed (s : Sec) (v o v' o' : Int) : Prop where
  memory : s.loads → v ≤ s.addr ∧ s.addr + s.size = v' ∧ s.align ∣ s.addr
  file : s.kind ≠ nullKind → o ≤ s.off ∧ s.off + s.fileSize = o' ∧
    (s.kind ≠ noBitsKind → s.align ∣ s.off)
  grows : v ≤ v' ∧ o ≤ o' ∧ 0 ≤ s.size
  steady : s.kind ≠ noBitsKind → 65536 ∣ v - o →
    v' - o' = v - o ∧ (s.loads → s.addr - s.off = v - o)
  noBits : s.kind = noBitsKind → s.addr = alignUp v s.align ∧ s.off = o

lemma place_placed (hs : s.Fit) (v o : Int) :
  ∃ a b v' o', s.place v o = .ok ({ s with addr := a, off := b }, v', o') ∧
      Placed { s with addr := a, off := b } v o v' o' := by
  have hsize := hs.size
  by_cases hnull : s.kind = nullKind
  · have hbits : s.kind ≠ noBitsKind := by rw [hnull]; decide
    have hloads : s.loads ≠ true := by simp [hs.null hnull]
    exact ⟨0, 0, v, o, by rw [place, if_pos hnull]; rfl, fun h => absurd h hloads,
      fun h => absurd hnull h, ⟨le_refl v, le_refl o, hsize⟩,
      fun _ _ => ⟨rfl, fun h => absurd h hloads⟩, fun h => absurd h hbits⟩
  obtain ⟨hpos, hpage⟩ := hs.align hnull
  obtain ⟨hv, -, hdvd⟩ := alignUp_spec hpos v
  by_cases hbits : s.kind = noBitsKind
  · -- the offset is not rounded up with the address
    have hfile : s.fileSize = 0 := if_pos hbits
    exact ⟨alignUp v s.align, o, alignUp v s.align + s.size, o,
      by rw [place, if_neg hnull, if_pos hbits, if_neg hs.name]; rfl, fun _ => ⟨hv, rfl, hdvd⟩,
      fun _ => ⟨le_refl o, (congrArg (o + ·) hfile).trans (add_zero o), fun h => absurd hbits h⟩,
      ⟨by omega, le_refl o, hsize⟩, fun h => absurd hbits h, fun _ => ⟨rfl, rfl⟩⟩
  · obtain ⟨ho, -, hdvd'⟩ := alignUp_spec hpos o
    have hbytes : (s.size == (s.data.size : Int)) := beq_iff_eq.2 (hs.bytes hbits)
    have hfile : s.fileSize = s.size := if_neg hbits
    refine ⟨if s.loads then alignUp v s.align else 0, alignUp o s.align, alignUp v s.align + s.size,
      alignUp o s.align + s.size, ?_, fun h => ?_,
      fun _ => ⟨ho, congrArg (alignUp o s.align + ·) hfile, fun _ => hdvd'⟩,
      ⟨by omega, by omega, hsize⟩, fun _ hmod => ?_, fun h => absurd h hbits⟩
    · rw [place, if_neg hnull, if_neg hbits, hs.flags, hbytes]
      rfl
    · rw [show s.loads from h]
      exact ⟨hv, rfl, hdvd⟩
    · have hsub := alignUp_sub_alignUp hpos (dvd_trans hpage hmod)
      refine ⟨by omega, fun h => ?_⟩
      rw [show s.loads from h]
      exact hsub

/-- If the section is without bytes, its offset is aligned even so. -/
def NoBitsAligned (s : Sec) : Prop := s.kind = noBitsKind → s.align ∣ s.off

/-- Only the offset of a section without bytes may go wrong. -/
lemma Placed.congruent_iff {v o v' o' : Int} (h : s.Placed v o v' o') (hs : s.Fit)
  (hloads : s.loads) (hmod : 65536 ∣ v - o) : 65536 ∣ s.addr - s.off ↔ s.NoBitsAligned := by
  unfold NoBitsAligned
  by_cases hbits : s.kind = noBitsKind
  · obtain ⟨hpos, hpage⟩ := hs.align (by rw [hbits]; decide)
    obtain ⟨haddr, hoff⟩ := h.noBits hbits
    have hsub := alignUp_sub_alignUp hpos (hpage.trans hmod)
    obtain ⟨hle, hlt, -⟩ := alignUp_spec hpos o
    have hbound := le_of_dvd (by decide) hpage
    rw [hoff, ← alignUp_eq_self_iff hpos]
    constructor
    · intro hdvd _
      omega
    · intro hself
      omega
  · have hsub := (h.steady hbits hmod).2 hloads
    exact ⟨fun _ hno => absurd hno hbits, fun _ => hsub ▸ hmod⟩

end Sec

/-! ## All sections -/

namespace Exe

/-- Sections are placed one after the other, from an address and a file offset on. -/
inductive Trail (e : Exe) : List Nat → Int → Int → Int → Int → Prop where
  | nil (v o : Int) : Trail e [] v o v o
  | cons {i : Nat} {is : List Nat} {v o v1 o1 v' o' : Int} (first : (e.sec i).Placed v o v1 o1)
      (rest : Trail e is v1 o1 v' o') : Trail e (i :: is) v o v' o'

/-- The sections of some segments are placed one segment after the other. -/
inductive Tour (e : Exe) : List Seg → Int → Int → Prop where
  | nil (v o : Int) : Tour e [] v o
  | cons {g : Seg} {gs : List Seg} {v o v' o' : Int}
      (first : Trail e g.secs (e.segStart g v o).1 (e.segStart g v o).2 v' o')
      (rest : Tour e gs v' o') : Tour e (g :: gs) v o

variable {e e1 e' : Exe} {is : List Nat} {gs : List Seg} {v o v' o' : Int}

lemma Trail.congr (h : Trail e is v o v' o') (hsec : ∀ i ∈ is, e'.sec i = e.sec i) :
  Trail e' is v o v' o' := by
  induction h with
  | nil => exact .nil _ _
  | cons first rest ih =>
    obtain ⟨hi, his⟩ := forall_mem_cons.1 hsec
    exact .cons (by rwa [hi]) (ih his)

/-- Only the places of some sections may have changed. -/
structure Alike (e e' : Exe) (is : List Nat) : Prop where
  rest : e' = { e with secs := e'.secs }
  size : e'.secs.size = e.secs.size
  sec : ∀ j, j ∉ is → e'.sec j = e.sec j
  same : ∀ j, e'.sec j = { e.sec j with addr := (e'.sec j).addr, off := (e'.sec j).off }

lemma Alike.refl (e : Exe) : Alike e e [] := ⟨rfl, rfl, fun _ _ => rfl, fun _ => rfl⟩

lemma Alike.trans (h : Alike e e1 is) (h' : Alike e1 e' js) : Alike e e' (is ++ js) where
  rest := by rw [h'.rest, h.rest]
  size := h'.size.trans h.size
  sec j hj := by
    rw [mem_append, not_or] at hj
    rw [h'.sec j hj.2, h.sec j hj.1]
  same j := (h'.same j).trans (by rw [h.same j])

def placeStep (t : Exe × Int × Int) (i : Nat) : Res (Exe × Int × Int) := do
  let (s, v, o) ← (t.1.sec i).place t.2.1 t.2.2
  return (t.1.setSec i s, v, o)

lemma foldlM_placeStep (hfit : ∀ i ∈ is, (e.sec i).Fit) (hsize : ∀ i ∈ is, i < e.secs.size)
  (hnd : is.Nodup) (v o : Int) : ∃ e' v' o', is.foldlM placeStep (e, v, o) = .ok (e', v', o') ∧
    Alike e e' is ∧ Trail e' is v o v' o' := by
  induction is generalizing e v o with
  | nil => exact ⟨e, v, o, rfl, .refl e, .nil v o⟩
  | cons i is ih =>
    obtain ⟨hi, his⟩ := forall_mem_cons.1 hfit
    obtain ⟨hlt, hlts⟩ := forall_mem_cons.1 hsize
    obtain ⟨hnot, hnd⟩ := nodup_cons.1 hnd
    obtain ⟨a, b, v1, o1, hplace, hpl⟩ := Sec.place_placed hi v o
    have hsec := sec_setSec hlt { e.sec i with addr := a, off := b }
    have hstep : Alike e (e.setSec i { e.sec i with addr := a, off := b }) [i] := by
      refine ⟨rfl, by simp [setSec], fun j hj => ?_, fun j => ?_⟩
      · rw [hsec, if_neg fun h => hj (by simp [h])]
      · rw [hsec]
        split
        next h => rw [h]
        next => rfl
    obtain ⟨e', v', o', hfold, halk, htrail⟩ := ih
      (fun j hj => (hstep.sec j (by simpa using fun h : j = i => hnot (h ▸ hj))).symm ▸ his j hj)
      (fun j hj => hstep.size.symm ▸ hlts j hj) hnd v1 o1
    refine ⟨e', v', o', ?_, hstep.trans halk, .cons ?_ htrail⟩
    · rw [foldlM_cons, placeStep, hplace]
      exact hfold
    · rwa [halk.sec i hnot, hsec, if_pos rfl]

def placeSegStep (t : Exe × Int × Int) (g : Seg) : Res (Exe × Int × Int) :=
  g.secs.foldlM placeStep (t.1, t.1.segStart g t.2.1 t.2.2)

lemma Alike.segStart_eq (h : Alike e e' is) (g : Seg) (v o : Int) :
  e'.segStart g v o = e.segStart g v o := by
  rw [h.rest]
  rfl

lemma foldlM_placeSegStep (hfit : ∀ i ∈ gs.flatMap Seg.secs, (e.sec i).Fit)
  (hsize : ∀ i ∈ gs.flatMap Seg.secs, i < e.secs.size)
  (hnd : (gs.flatMap Seg.secs).Nodup) (v o : Int) :
  ∃ e' v' o', gs.foldlM placeSegStep (e, v, o) = .ok (e', v', o') ∧
    Alike e e' (gs.flatMap Seg.secs) ∧ Tour e' gs v o := by
  induction gs generalizing e v o with
  | nil => exact ⟨e, v, o, rfl, .refl e, .nil v o⟩
  | cons g gs ih =>
    obtain ⟨hfit, hfits⟩ := forall_mem_append.1 hfit
    obtain ⟨hlt, hlts⟩ := forall_mem_append.1 hsize
    obtain ⟨hg, hgs, hdisj⟩ := nodup_append.1 hnd
    obtain ⟨e1, v1, o1, hfold, halk, htrail⟩ := foldlM_placeStep hfit hlt hg
      (e.segStart g v o).1 (e.segStart g v o).2
    obtain ⟨e', v', o', hfolds, halikes, htour⟩ := ih (fun j hj => (halk.sec j fun h => hdisj j h j
      hj rfl).symm ▸ hfits j hj) (fun j hj => halk.size ▸ hlts j hj) hgs v1 o1
    have hboth := halk.trans halikes
    refine ⟨e', v', o', ?_, hboth, .cons ?_ htour⟩
    · rw [foldlM_cons, placeSegStep, hfold]
      exact hfolds
    · rw [hboth.segStart_eq]
      exact htrail.congr fun j hj => halikes.sec j fun h => hdisj j hj j h rfl

/-! ## What is where -/

section
variable (h : Trail e is v o v' o')
include h

lemma Trail.grows : v ≤ v' ∧ o ≤ o' := by
  induction h with
  | nil => exact ⟨le_refl _, le_refl _⟩
  | cons first rest ih => exact ⟨first.grows.1.trans ih.1, first.grows.2.1.trans ih.2⟩

lemma Trail.mem (hi : i ∈ is) : ∃ v1 o1 v2 o2,
  v ≤ v1 ∧ o ≤ o1 ∧ v2 ≤ v' ∧ o2 ≤ o' ∧ (e.sec i).Placed v1 o1 v2 o2 := by
  induction h with
  | nil => cases hi
  | cons first rest ih =>
    rcases mem_cons.1 hi with rfl | hi
    · exact ⟨_, _, _, _, le_refl _, le_refl _, rest.grows.1, rest.grows.2, first⟩
    · obtain ⟨v1, o1, v2, o2, hv, ho, hv', ho', hpl⟩ := ih hi
      exact ⟨v1, o1, v2, o2, first.grows.1.trans hv, first.grows.2.1.trans ho, hv', ho', hpl⟩

/-- The last section ends where the trail does. -/
lemma Trail.ends (hne : is ≠ [])
  (hlast : (e.sec (is.getLastD 0)).loads ∧ (e.sec (is.getLastD 0)).kind ≠ nullKind) :
  (e.sec (is.getLastD 0)).addr + (e.sec (is.getLastD 0)).size = v' ∧
    (e.sec (is.getLastD 0)).off + (e.sec (is.getLastD 0)).fileSize = o' := by
  induction h with
  | nil => exact absurd rfl hne
  | cons first rest ih =>
    cases rest with
    | nil => exact ⟨(first.memory hlast.1).2.1, (first.file hlast.2).2.1⟩
    | cons second rest => exact ih (cons_ne_nil _ _) hlast

end

/-- A section comes before another one, in memory with a gap between them. -/
def Before (e : Exe) (gap : Int) (i j : Nat) : Prop :=
  ((e.sec i).loads → (e.sec j).loads → (e.sec i).addr + (e.sec i).size + gap ≤ (e.sec j).addr) ∧
  ((e.sec i).kind ≠ nullKind → (e.sec j).kind ≠ nullKind →
    (e.sec i).off + (e.sec i).fileSize ≤ (e.sec j).off)

section
variable (h : Trail e is v o v' o')
include h

lemma before_of_mem {gap v1 o1 v2 o2 : Int} (h' : Trail e js v1 o1 v2 o2) (hv : v' + gap ≤ v1)
  (ho : o' ≤ o1) {j : Nat} (hi : i ∈ is) (hj : j ∈ js) : Before e gap i j := by
  obtain ⟨_, _, _, _, -, -, hv', ho', hpl⟩ := h.mem hi
  obtain ⟨_, _, _, _, hv1, ho1, -, -, hpl'⟩ := h'.mem hj
  refine ⟨fun hl hl' => ?_, fun hk hk' => ?_⟩
  · have hend := (hpl.memory hl).2.1
    have hsta := (hpl'.memory hl').1
    omega
  · have hend := (hpl.file hk).2.1
    have hsta := (hpl'.file hk').1
    omega

lemma Trail.pairwise : is.Pairwise (Before e 0) := by
  induction h with
  | nil => exact .nil
  | cons first rest ih =>
    exact pairwise_cons.2 ⟨fun j hj => before_of_mem (.cons first (.nil _ _)) rest
      (add_zero _).le (le_refl _) (.head _) hj, ih⟩

/-- Address and file offset go on together until there is a section without bytes. -/
lemma Trail.steady (hbits : ∀ i ∈ is, (e.sec i).kind ≠ noBitsKind) (hmod : 65536 ∣ v - o) :
  v' - o' = v - o := by
  induction h with
  | nil => rfl
  | cons first rest ih =>
    obtain ⟨hi, his⟩ := forall_mem_cons.1 hbits
    have hfst := (first.steady hi hmod).1
    rw [ih his (hfst ▸ hmod), hfst]

end

lemma headerSize_pos (e : Exe) : (0 : Int) < e.headerSize :=
  natCast_pos.2 (Nat.add_pos_left (Nat.add_pos_left (by decide) _) _)

/-- The segments leave gaps of whole pages. -/
def Paged (gs : List Seg) : Prop :=
  ∀ g ∈ gs, g.hardAlign = false ∧ 0 ≤ g.align ∧ 65536 ∣ g.align

/-- Sections without bytes are in the last segment that is loaded. -/
def BitsFirst (e : Exe) (gs : List Seg) : Prop :=
  gs.Pairwise fun g g' => g'.isPseudo = false → ∀ i ∈ g.secs, (e.sec i).kind ≠ noBitsKind

lemma headerSize_le_segStart (hg : g.hardAlign = false)
  (ho : o = 0 ∨ e.headerSize ≤ o) : e.headerSize ≤ (e.segStart g v o).2 := by
  rw [segStart]
  split
  · exact le_refl _
  · rw [Seg.advance, hg]
    show (e.headerSize : Int) ≤ o
    omega

section
variable (h : Tour e gs v o) (hgs : Paged gs)
include h hgs

lemma Tour.leg (ho : o = 0 ∨ e.headerSize ≤ o) (hg : g ∈ gs) :
  ∃ v1 o1 v2 o2 : Int, e.headerSize ≤ o1 ∧ Trail e g.secs v1 o1 v2 o2 := by
  induction h with
  | nil => cases hg
  | @cons _ _ v o _ _ first rest ih =>
    obtain ⟨⟨hhard, -, -⟩, hgs⟩ := forall_mem_cons.1 hgs
    have hsta := headerSize_le_segStart (v := v) hhard ho
    rcases mem_cons.1 hg with rfl | hg
    · exact ⟨_, _, _, _, hsta, first⟩
    · exact ih hgs (.inr (hsta.trans first.grows.2)) hg

/-- A later segment starts behind a gap in memory. -/
lemma Tour.trail (hbits : BitsFirst e gs) (ho : 0 < o) (hg : g ∈ gs) :
  ∃ v1 o1 v2 o2, Trail e g.secs v1 o1 v2 o2 ∧ v + g.align ≤ v1 ∧
    o ≤ o1 ∧ (g.isPseudo = false → 65536 ∣ v - o → 65536 ∣ v1 - o1) := by
  induction h with
  | nil => cases hg
  | @cons g1 gs v o v' o' first rest ih =>
    obtain ⟨⟨hhard, halg, hdvd⟩, hgs⟩ := forall_mem_cons.1 hgs
    obtain ⟨hbit, hbits⟩ := pairwise_cons.1 hbits
    have hsta : e.segStart g1 v o = (v + g1.align, o) := by
      rw [segStart, if_neg (by omega), Seg.advance, hhard]
      rfl
    rw [hsta] at first
    -- the gap is made of whole pages, so it does not part the address from the offset
    have hmod : 65536 ∣ v - o → 65536 ∣ v + g1.align - o := fun h => by omega
    rcases mem_cons.1 hg with rfl | hg
    · exact ⟨_, _, _, _, first, le_refl _, le_refl _, fun _ => hmod⟩
    · have hgrows := first.grows
      obtain ⟨v1, o1, v2, o2, htrail, hv, ho', hcong⟩ := ih hgs hbits (by omega) hg
      refine ⟨v1, o1, v2, o2, htrail, by omega, by omega, fun hp h => hcong hp ?_⟩
      rw [first.steady (hbit g hg hp) (hmod h)]
      exact hmod h

lemma Tour.pairwise (hbits : BitsFirst e gs) (ho : o = 0 ∨ e.headerSize ≤ o) :
  gs.Pairwise fun g g' => ∀ i ∈ g.secs, ∀ j ∈ g'.secs, Before e g'.align i j := by
  induction h with
  | nil => exact .nil
  | @cons g1 gs v o v' o' first rest ih =>
    obtain ⟨⟨hhard, -, -⟩, hgs⟩ := forall_mem_cons.1 hgs
    have hbits := (pairwise_cons.1 hbits).2
    have hpos := e.headerSize_pos
    have hsta := headerSize_le_segStart (v := v) hhard ho
    have hgrows := first.grows.2
    refine pairwise_cons.2 ⟨fun g hg i hi j hj => ?_, ih hgs hbits (.inr (by omega))⟩
    obtain ⟨v1, o1, v2, o2, htrail, hv, ho', -⟩ := rest.trail hgs hbits (by omega) hg
    exact before_of_mem first htrail hv ho' hi hj

end
end Exe

/-! ## Segments -/

/-- The segment takes in the section, in memory and in the file. -/
def Seg.Holds (g : Seg) (s : Sec) : Prop :=
  (g.vaddr ≤ s.addr ∧ s.addr + s.size ≤ g.vaddr + g.memSize) ∧
    (s.kind ≠ noBitsKind → g.off ≤ s.off ∧ s.off + s.size ≤ g.off + g.fileSize)

namespace Exe

/-- The file can be loaded, as far as the places of sections in segments are concerned. -/
structure Loadable (e : Exe) : Prop where
  aligned : ∀ i < e.secs.size, (e.sec i).loads → (e.sec i).align ∣ (e.sec i).addr ∧
    ((e.sec i).kind ≠ noBitsKind → (e.sec i).align ∣ (e.sec i).off)
  inside : ∀ i < e.secs.size, (e.sec i).loads →
    ∃ g ∈ e.segs, g.kind = loadKind ∧ i ∈ g.secs ∧ g.Holds (e.sec i)
  apart : (List.range e.secs.size).Pairwise (Before e 0)
  headers : ∀ i < e.secs.size, (e.sec i).kind ≠ nullKind → e.headerSize ≤ (e.sec i).off
  pages : e.segs.Pairwise fun g g' => g.kind = loadKind → g'.kind = loadKind →
    ∀ a b, a < g.vaddr + g.memSize → g'.vaddr ≤ b → a / g.align ≠ b / g'.align

/-- Addresses and file offsets of loaded segments fall on the same places of pages. -/
def Congruent (e : Exe) : Prop :=
  ∀ g ∈ e.segs, g.kind = loadKind → g.align ∣ g.vaddr - g.off

/-- Loaded segments, the first one with the empty section and the code, then the sections that are
not loaded. -/
structure Planned (e : Exe) (exe : Seg) (mid : List Seg) (rest : Seg) :
    Prop where
  segs : e.segs = exe :: (mid ++ [rest])
  loaded : ∀ g ∈ exe :: mid, ∃ f, g = { Seg.loaded f 65536 with secs := g.secs }
  pseudo : rest = { Seg.pseudo with secs := rest.secs }
  nums : e.segs.flatMap Seg.secs = List.range e.secs.size
  exe : exe.secs = [0, 1]
  start : 65536 ∣ e.start
  fit : ∀ i < e.secs.size, (e.sec i).Fit
  null : (e.sec 0).kind = nullKind
  text : (e.sec 1).loads
  mid : ∀ g ∈ mid, g.secs ≠ [] ∧ ∀ i ∈ g.secs, (e.sec i).loads
  rest : ∀ i ∈ rest.secs, (e.sec i).loads = false
  bits : BitsFirst e e.segs

/-- The header of a segment, which may start with the file. -/
def headed (e : Exe) (atStart : Bool) (g : Seg) : Seg :=
  let last := e.sec (g.secs.getLastD 0)
  let off := if atStart then 0 else (e.sec (g.secs.headD 0)).off
  let vaddr := if atStart then e.start else (e.sec (g.secs.headD 0)).addr
  { g with
    off, vaddr, paddr := vaddr
    fileSize := last.off + last.fileSize - off
    memSize := last.addr + last.size - vaddr }

variable {e e' : Exe} {exe rest : Seg} {mid : List Seg}

lemma placeSeg_eq (hg : g.kind = loadKind) (hne : g.secs ≠ [])
  (atStart : Bool) : e.placeSeg g atStart = .ok (e.headed atStart g) := by
  obtain ⟨i, is, his⟩ := exists_cons_of_ne_nil hne
  simp [placeSeg, headed, his, orFault, hg]

lemma placeSegs_eq {gs : List Seg} (hrest : rest.isPseudo)
  (hgs : ∀ g ∈ gs, g.kind = loadKind ∧ g.isPseudo = false ∧ g.secs ≠ []) :
  e.placeSegs (gs ++ [rest]) false = .ok (gs.map (e.headed false) ++ [rest]) := by
  induction gs with
  | nil =>
    rw [nil_append, placeSegs, if_pos hrest]
    rfl
  | cons g gs ih =>
    obtain ⟨⟨hkind, hpseudo, hne⟩, hgs⟩ := forall_mem_cons.1 hgs
    rw [cons_append, placeSegs, if_neg (by simp [hpseudo]), placeSeg_eq hkind hne,
      Bool.false_and, ih hgs]
    rfl

/-- The executable with all its headers, once the sections are placed. -/
def finished (e : Exe) (exe : Seg) (mid : List Seg) (rest : Seg) (n : Int) : Exe :=
  { e with
    segs := e.headed true exe :: (mid.map (e.headed false) ++ [rest])
    header := { e.header with secsOff := n, segsOff := e.segHeadersOff } }

namespace Planned
section
variable (h : Planned e exe mid rest)
include h

lemma plain (hg : g ∈ exe :: mid) : g.kind = loadKind ∧ g.align = 65536 ∧
  g.isPseudo = false ∧ g.isAuxiliary = false ∧ g.hardAlign = false := by
  obtain ⟨f, hf⟩ := h.loaded g hg
  rw [hf]
  exact ⟨rfl, rfl, rfl, rfl, rfl⟩

lemma last : rest.kind ≠ loadKind ∧ rest.align = 0 ∧ rest.isPseudo ∧
  rest.isAuxiliary = false ∧ rest.hardAlign = false := by
  rw [h.pseudo]
  exact ⟨(by decide : Seg.pseudo.kind ≠ loadKind), rfl, rfl, rfl, rfl⟩

lemma mem_segs : g ∈ e.segs ↔ g ∈ exe :: mid ∨ g = rest := by
  rw [h.segs]
  simp [or_assoc]

lemma paged : Paged e.segs := by
  intro g hg
  rcases h.mem_segs.1 hg with hg | rfl
  · simp [h.plain hg]
  · simp [h.last]

lemma lt_size (hg : g ∈ exe :: mid) (hi : i ∈ g.secs) : i < e.secs.size :=
  mem_range.1 (h.nums ▸ mem_flatMap.2 ⟨g, h.mem_segs.2 (.inl hg), hi⟩)

lemma ne_null (hi : i < e.secs.size) (hl : (e.sec i).loads) : (e.sec i).kind ≠ nullKind :=
  fun hnull => by simp [(h.fit i hi).null hnull] at hl

lemma last_loads (hg : g ∈ exe :: mid) : g.secs ≠ [] ∧
  g.secs.getLastD 0 ∈ g.secs ∧ (e.sec (g.secs.getLastD 0)).loads := by
  rcases mem_cons.1 hg with rfl | hg
  · rw [h.exe]
    exact ⟨by simp, by simp, h.text⟩
  · obtain ⟨hne, hloads⟩ := h.mid g hg
    obtain ⟨i, is, his⟩ := exists_cons_of_ne_nil hne
    have hmem : g.secs.getLastD 0 ∈ g.secs := by
      rw [his, getLastD_cons, ← getLast_eq_getLastD (cons_ne_nil i is)]
      exact getLast_mem _
    exact ⟨hne, hmem, hloads _ hmem⟩

/-- The last section of a segment ends a page before the first section of a later one. -/
lemma gap {g' : Seg} (hg : g ∈ exe :: mid) (hg' : g' ∈ mid)
  (hbef : ∀ i ∈ g.secs, ∀ j ∈ g'.secs, Before e g'.align i j) (atStart : Bool)
  (a b : Int) (ha : a < (e.headed atStart g).vaddr + (e.headed atStart g).memSize)
  (hb : (e.headed false g').vaddr ≤ b) :
  a / (e.headed atStart g).align ≠ b / (e.headed false g').align := by
  obtain ⟨-, hmem, hlast⟩ := h.last_loads hg
  obtain ⟨hne, hloads⟩ := h.mid g' hg'
  obtain ⟨j, js, hjs⟩ := exists_cons_of_ne_nil hne
  have hj : g'.secs.headD 0 ∈ g'.secs := by simp [hjs]
  have hgap := (hbef _ hmem _ hj).1 hlast (hloads _ hj)
  have halg : g'.align = 65536 := (h.plain (.tail _ hg')).2.1
  have ha : a < (e.sec (g.secs.getLastD 0)).addr + (e.sec (g.secs.getLastD 0)).size :=
    ha.trans_eq (add_sub_cancel ..)
  have hb : (e.sec (g'.secs.headD 0)).addr ≤ b := hb
  show a / g.align ≠ b / g'.align
  rw [(h.plain hg).2.1, halg]
  omega

/-- Sections may be moved. -/
lemma congr {is : List Nat} (halk : Alike e e' is) : Planned e' exe mid rest := by
  have hsegs : e'.segs = e.segs := by rw [halk.rest]
  have hkind : ∀ i, (e'.sec i).kind = (e.sec i).kind := fun i => by rw [halk.same i]
  have hloads : ∀ i, (e'.sec i).loads = (e.sec i).loads := fun i => by rw [halk.same i]; rfl
  refine ⟨hsegs.trans h.segs, h.loaded, h.pseudo, ?_, h.exe, ?_, fun i hi => ?_,
    (hkind 0).trans h.null, (hloads 1).trans h.text, fun g hg => ⟨(h.mid g hg).1, fun i hi => ?_⟩,
    fun i hi => (hloads i).trans (h.rest i hi), ?_⟩
  · rw [hsegs, halk.size, h.nums]
  · rw [halk.rest]
    exact h.start
  · have hfit := h.fit i (halk.size ▸ hi)
    rw [halk.same i]
    exact ⟨hfit.flags, hfit.size, hfit.bytes, hfit.name, hfit.align, hfit.null⟩
  · exact (hloads i).trans ((h.mid g hg).2 i hi)
  · rw [hsegs]
    exact h.bits.imp fun hbits hp i hi => hkind i ▸ hbits hp i hi

lemma placeSecs : ∃ e' n, e.placeSecs = .ok (e', n) ∧
  (∃ is, Alike e e' is) ∧ Tour e' e'.segs 0 0 := by
  have hmem : ∀ i ∈ e.segs.flatMap Seg.secs, i < e.secs.size :=
    fun i hi => mem_range.1 (h.nums ▸ hi)
  have hfilter : (e.segs.filter fun s => !s.isAuxiliary) = e.segs := by
    refine filter_eq_self.2 fun g hg => ?_
    rcases h.mem_segs.1 hg with hg | rfl
    · simp [h.plain hg]
    · simp [h.last]
  obtain ⟨e', v, o, hfold, halk, htour⟩ := foldlM_placeSegStep
    (fun i hi => h.fit i (hmem i hi)) hmem (h.nums ▸ nodup_range) 0 0
  refine ⟨e', alignUp o e'.secHeadersAlign, ?_, ⟨_, halk⟩, ?_⟩
  · rw [Exe.placeSecs, hfilter]
    show (e.segs.foldlM placeSegStep (e, 0, 0) >>= _) = _
    rw [hfold]
    rfl
  · rwa [show e'.segs = e.segs by rw [halk.rest]]

lemma placeSegs : e.placeSegs e.segs true =
  .ok (e.headed true exe :: (mid.map (e.headed false) ++ [rest])) := by
  obtain ⟨hkind, -, hpseudo, -, -⟩ := h.plain (.head _)
  rw [h.segs, Exe.placeSegs, if_neg (by simp [hpseudo]),
    placeSeg_eq hkind (by simp [h.exe]),
    show (true && exe.kind != loadKind) = false by simp [hkind],
    placeSegs_eq h.last.2.2.1 fun g hg => ?_]
  · rfl
  · have hplain := h.plain (.tail _ hg)
    exact ⟨hplain.1, hplain.2.2.1, (h.mid g hg).1⟩

lemma headerSize_finished (n : Int) : (e.finished exe mid rest n).headerSize = e.headerSize := by
  have hcnt : ((e.finished exe mid rest n).segs.filter fun s => !s.isPseudo).length =
      (e.segs.filter fun s => !s.isPseudo).length := by
    rw [h.segs, finished, ← countP_eq_length_filter, ← countP_eq_length_filter,
      countP_cons, countP_cons, countP_append, countP_append, countP_map]
    rfl
  rw [headerSize, hcnt]
  rfl

end

section
variable (h : Planned e exe mid rest) (ht : Tour e e.segs 0 0)
include h ht

lemma apart : (List.range e.secs.size).Pairwise (Before e 0) := by
  rw [← h.nums, pairwise_flatMap]
  constructor
  · intro g hg
    obtain ⟨_, _, _, _, -, htrail⟩ := ht.leg h.paged (.inl rfl) hg
    exact htrail.pairwise
  · refine (ht.pairwise h.paged h.bits (.inl rfl)).imp_of_mem fun _ hg' hbef i hi j hj => ?_
    have hbef := hbef i hi j hj
    have halg := (h.paged _ hg').2.1
    exact ⟨fun hl hl' => by have := hbef.1 hl hl'; omega, hbef.2⟩

lemma placed (hi : i < e.secs.size) : ∃ v1 o1 v2 o2 : Int,
  e.headerSize ≤ o1 ∧ (e.sec i).Placed v1 o1 v2 o2 := by
  obtain ⟨g, hg, hig⟩ := mem_flatMap.1 (h.nums ▸ mem_range.2 hi)
  obtain ⟨_, _, _, _, hhead, htrail⟩ := ht.leg h.paged (.inl rfl) hg
  obtain ⟨v1, o1, v2, o2, -, ho, -, -, hpl⟩ := htrail.mem hig
  exact ⟨v1, o1, v2, o2, hhead.trans ho, hpl⟩

/-- No section of a segment ends behind the last one. -/
lemma le_last (hg : g ∈ exe :: mid) (hi : i ∈ g.secs) (hloads : (e.sec i).loads) :
  (e.sec i).addr + (e.sec i).size ≤ (e.sec (g.secs.getLastD 0)).addr +
  (e.sec (g.secs.getLastD 0)).size ∧ (e.sec i).off + (e.sec i).fileSize ≤
  (e.sec (g.secs.getLastD 0)).off + (e.sec (g.secs.getLastD 0)).fileSize := by
  obtain ⟨_, _, _, _, -, htrail⟩ := ht.leg h.paged (.inl rfl) (h.mem_segs.2 (.inl hg))
  obtain ⟨hne, hmem, hlast⟩ := h.last_loads hg
  obtain ⟨hend, hend'⟩ := htrail.ends hne ⟨hlast, h.ne_null (h.lt_size hg hmem) hlast⟩
  obtain ⟨_, _, _, _, -, -, hv, ho, hpl⟩ := htrail.mem hi
  rw [hend, hend', (hpl.memory hloads).2.1, (hpl.file (h.ne_null (h.lt_size hg hi) hloads)).2.1]
  exact ⟨hv, ho⟩

lemma holds (hg : g ∈ exe :: mid) (hi : i ∈ g.secs)
  (hloads : (e.sec i).loads) {atStart : Bool} (hle : (e.headed atStart g).vaddr ≤ (e.sec i).addr)
  (hle' : (e.headed atStart g).off ≤ (e.sec i).off) : (e.headed atStart g).Holds (e.sec i) := by
  obtain ⟨hend, hend'⟩ := h.le_last ht hg hi hloads
  refine ⟨⟨hle, hend.trans_eq (add_sub_cancel ..).symm⟩, fun hbits => ⟨hle', ?_⟩⟩
  rw [← show (e.sec i).fileSize = (e.sec i).size from if_neg hbits]
  exact hend'.trans_eq (add_sub_cancel ..).symm

/-- The code is behind the start of the file. -/
lemma start_le : e.start ≤ (e.sec 1).addr ∧ 0 ≤ (e.sec 1).off := by
  have hone : 1 ∈ exe.secs := by simp [h.exe]
  have hnull := h.ne_null (h.lt_size (.head _) hone) h.text
  rw [h.segs] at ht
  cases ht with
  | cons first others =>
    obtain ⟨v, o, _, _, hv, ho, -, -, hpl⟩ := first.mem hone
    have hv : e.headerSize + e.start ≤ v := hv
    have ho : e.headerSize ≤ o := ho
    have haddr := (hpl.memory h.text).1
    have hoff := (hpl.file hnull).1
    omega

/-- The sections after the first segment are placed from an address and an offset on that differ by a
multiple of the page size. -/
lemma mid_trail (hg : g ∈ mid) : ∃ v1 o1 v2 o2, Trail e g.secs v1 o1 v2 o2 ∧ 65536 ∣ v1 - o1 := by
  have hbits := h.bits
  have hpaged := h.paged
  rw [h.segs] at ht hbits hpaged
  cases ht with
  | @cons _ _ _ _ v o first others =>
    have hpos := e.headerSize_pos
    have ho : e.headerSize ≤ o := first.grows.2
    have hpseudo := (h.plain (.tail _ hg)).2.2.1
    have hmem : g ∈ mid ++ [rest] := mem_append_left _ hg
    obtain ⟨hfst, hbits⟩ := pairwise_cons.1 hbits
    obtain ⟨v1, o1, v2, o2, htrail, -, -, hmod⟩ :=
      others.trail (forall_mem_cons.1 hpaged).2 hbits (by omega) hmem
    refine ⟨v1, o1, v2, o2, htrail, hmod hpseudo ?_⟩
    have hbegin : (e.segStart exe 0 0).1 - (e.segStart exe 0 0).2 = e.start := by
      show (e.headerSize + e.start : Int) - e.headerSize = e.start
      omega
    rw [first.steady (hfst g hmem hpseudo) (hbegin ▸ h.start), hbegin]
    exact h.start

lemma inside {n : Int} (hi : i < e.secs.size) (hloads : (e.sec i).loads) :
  ∃ g ∈ (e.finished exe mid rest n).segs, g.kind = loadKind ∧ i ∈ g.secs ∧ g.Holds (e.sec i) := by
  obtain ⟨g, hg, hig⟩ := mem_flatMap.1 (h.nums ▸ mem_range.2 hi)
  rcases h.mem_segs.1 hg with hg | rfl
  · rcases mem_cons.1 hg with rfl | hmid
    · have hone : i = 1 := by
        rw [h.exe, mem_cons, mem_singleton] at hig
        exact hig.resolve_left fun hzero => h.ne_null hi hloads (hzero ▸ h.null)
      subst hone
      obtain ⟨haddr, hoff⟩ := h.start_le ht
      exact ⟨_, .head _, (h.plain hg).1, hig, h.holds ht hg hig hloads haddr hoff⟩
    · refine ⟨e.headed false g, .tail _ (mem_append_left _
        (mem_map_of_mem hmid)), (h.plain hg).1, hig, ?_⟩
      obtain ⟨v, o, v1, o1, htrail, -⟩ := h.mid_trail ht hmid
      have hbef := htrail.pairwise
      suffices hle : (e.sec (g.secs.headD 0)).addr ≤ (e.sec i).addr ∧
          (e.sec (g.secs.headD 0)).off ≤ (e.sec i).off from
        h.holds ht hg hig hloads hle.1 hle.2
      obtain ⟨j, js, hjs⟩ := exists_cons_of_ne_nil (h.mid g hmid).1
      have hj : j ∈ g.secs := hjs ▸ mem_cons_self
      rw [hjs] at hbef hig
      rw [hjs, headD_cons]
      rcases mem_cons.1 hig with rfl | hig
      · exact ⟨le_refl _, le_refl _⟩
      · have hloads' := (h.mid g hmid).2 j hj
        have hfit := h.fit j (h.lt_size hg hj)
        have hfile : 0 ≤ (e.sec j).fileSize := by
          rw [Sec.fileSize]
          split
          · exact le_refl _
          · exact hfit.size
        obtain ⟨haddr, hoff⟩ := (pairwise_cons.1 hbef).1 i hig
        have haddr := haddr hloads' hloads
        have hoff := hoff (h.ne_null (h.lt_size hg hj) hloads') (h.ne_null hi hloads)
        have hsize := hfit.size
        omega
  · rw [h.rest i hig] at hloads
    cases hloads

lemma pages (n : Int) : (e.finished exe mid rest n).segs.Pairwise fun g g' =>
    g.kind = loadKind → g'.kind = loadKind →
      ∀ a b, a < g.vaddr + g.memSize → g'.vaddr ≤ b → a / g.align ≠ b / g'.align := by
  have hbef := ht.pairwise h.paged h.bits (.inl rfl)
  rw [h.segs] at hbef
  obtain ⟨hexe, hbef⟩ := pairwise_cons.1 hbef
  have hmid := (pairwise_append.1 hbef).1
  have hlast : ∀ g ∈ [rest], g.kind ≠ loadKind := forall_mem_singleton.2 h.last.1
  refine pairwise_cons.2 ⟨forall_mem_append.2 ⟨forall_mem_map.2 fun g' hg' => ?_, fun g' hg' _ hkind
    => absurd hkind (hlast g' hg')⟩, pairwise_append.2 ⟨pairwise_map.2 (hmid.imp_of_mem fun hg hg'
    hb => ?_), pairwise_singleton _ _, fun g _ g' hg' _ hkind => absurd hkind (hlast g' hg')⟩⟩
  · exact fun _ _ => h.gap (.head _) hg' (hexe g' (mem_append_left _ hg')) true
  · exact fun _ _ => h.gap (.tail _ hg) hg' hb false

/-- Addresses and file offsets agree but for a segment that starts with a section without bytes. -/
lemma congruent_iff (n : Int) : (e.finished exe mid rest n).Congruent ↔
  ∀ g ∈ mid, (e.sec (g.secs.headD 0)).NoBitsAligned := by
  have hmid : ∀ g ∈ mid, g.align ∣ (e.headed false g).vaddr - (e.headed false g).off ↔
      (e.sec (g.secs.headD 0)).NoBitsAligned := by
    intro g hg
    have hg' := mem_cons_of_mem exe hg
    obtain ⟨hne, hloads⟩ := h.mid g hg
    obtain ⟨i, is, his⟩ := exists_cons_of_ne_nil hne
    have hi : i ∈ g.secs := his ▸ mem_cons_self
    obtain ⟨v, o, v1, o1, htrail, hmod⟩ := h.mid_trail ht hg
    show g.align ∣ (e.sec (g.secs.headD 0)).addr - (e.sec (g.secs.headD 0)).off ↔ _
    rw [(h.plain hg').2.1]
    rw [his] at htrail ⊢
    cases htrail with
    | cons first others => exact first.congruent_iff (h.fit i (h.lt_size hg' hi)) (hloads i hi) hmod
  constructor
  · intro hcong g hg
    exact (hmid g hg).1 (hcong (e.headed false g) (.tail _ (mem_append_left _
      (mem_map_of_mem hg))) (h.plain (.tail _ hg)).1)
  · refine fun hcond => forall_mem_cons.2 ⟨fun _ => ?_, forall_mem_append.2 ⟨forall_mem_map.2 fun g
      hg _ => (hmid g hg).2 (hcond g hg), forall_mem_singleton.2 fun hkind => absurd hkind
      h.last.1⟩⟩
    show exe.align ∣ e.start - 0
    rw [(h.plain (.head _)).2.1, sub_zero]
    exact h.start

end

/-- A planned executable is laid out, and can be loaded. -/
lemma layout (h : Planned e exe mid rest) : ∃ e' : Exe, e.layout = .ok e' ∧ e'.Loadable ∧
  (∀ i, e'.sec i = { e.sec i with addr := (e'.sec i).addr, off := (e'.sec i).off }) ∧
    (e'.Congruent ↔ ∀ g ∈ mid, (e'.sec (g.secs.headD 0)).NoBitsAligned) := by
  obtain ⟨e', n, hpl, ⟨is, halk⟩, ht⟩ := h.placeSecs
  have h' := h.congr halk
  have hlayout : e.layout = .ok (e'.finished exe mid rest n) := by
    rw [Exe.layout, hpl]
    show (e'.placeSegs e'.segs true >>= _) = _
    rw [h'.placeSegs]
    rfl
  refine ⟨_, hlayout, ⟨fun i hi hl => ?_, fun i hi hl => h'.inside ht hi hl, (h'.apart ht :),
    fun i hi hk => ?_, h'.pages ht n⟩, halk.same, h'.congruent_iff ht n⟩
  · obtain ⟨_, _, _, _, -, hpl⟩ := h'.placed ht hi
    exact ⟨(hpl.memory hl).2.2, (hpl.file (h'.ne_null hi hl)).2.2⟩
  · obtain ⟨_, _, _, _, ho, hpl⟩ := h'.placed ht hi
    rw [h'.headerSize_finished]
    exact ho.trans (hpl.file hk).1

end Planned
end Exe
end Retarget.Elf

/-! ## Units -/

namespace Retarget.Asm
open List
open Elf (Exe Sec Seg)
variable {i : Nat} {s : Sec}

def partLists : List (List Part) := [Part.rodata, .data, .bss].sublists'.map (.text :: ·)

lemma Unit.loadedParts_mem (u : Unit) : u.loadedParts ∈ partLists :=
  mem_map_of_mem (mem_sublists'.2 filter_sublist)

/-- The segments between the first one and the one with what is not loaded. -/
def dataSegs (parts : List Part) : List Seg := (segsFor parts 0).tail.dropLast

/-- The segment with the sections that are not loaded. -/
def restSeg (parts : List Part) (total : Nat) : Seg :=
  { Seg.pseudo with
    secs := (range (total - (parts.length + 1))).map (· + (parts.length + 1)) }

lemma segsFor_eq (parts : List Part) (total : Nat) : segsFor parts total =
  { Seg.executable 65536 with secs := [0, 1] } ::
      (dataSegs parts ++ [restSeg parts total]) := by
  simp [segsFor, dataSegs, restSeg]

lemma dataSegs_secs : ∀ parts ∈ partLists,
  [0, 1] ++ (dataSegs parts).flatMap Seg.secs = range (parts.length + 1) ∧
  (∀ g ∈ dataSegs parts, g = { Seg.loaded g.flags 65536 with secs := g.secs } ∧
      g.secs ≠ [] ∧ 0 ∉ g.secs) ∧
    ([0, 1] :: (dataSegs parts).map Seg.secs).Pairwise
      (fun is _ => ∀ i ∈ is, parts[i - 1]? ≠ some .bss) ∧
    ((dataSegs parts).map (·.secs.headD 0)).filter (fun i => parts[i - 1]? = some .bss) =
      if .data ∉ parts ∧ .bss ∈ parts then
        [((parts.findIdx? (· == .bss)).map (· + 1)).getD 0] else [] := by
  decide

structure Unloaded (s : Sec) : Prop where
  flags : s.flags = 0
  kind : s.kind ≠ Elf.nullKind ∧ s.kind ≠ Elf.noBitsKind
  align : s.align = 1 ∨ s.align = 4
  size : s.size = s.data.size
  name : s.name ≠ ".tbss"

lemma fit_of_flags (hflags : s.flags ∈ [(0 : Int), 2, 3, 6]) (hsize : s.size = s.data.size)
  (hname : s.name ≠ ".tbss") (halg : s.kind ≠ Elf.nullKind → 0 < s.align ∧ s.align ∣ 65536)
  (hnull : s.kind = Elf.nullKind → s.flags = 0) : s.Fit where
  flags := by
    rw [Sec.isLoaded, Sec.loads]
    generalize s.flags = f at hflags
    simp only [mem_cons, not_mem_nil, or_false] at hflags
    rcases hflags with rfl | rfl | rfl | rfl <;> rfl
  size := hsize ▸ Int.natCast_nonneg _
  bytes := fun _ => hsize
  name := hname
  align := halg
  null := fun h => by
    rw [Sec.loads, hnull h]
    rfl

lemma Unloaded.fit (h : Unloaded s) : s.Fit :=
  fit_of_flags (by simp [h.flags]) h.size h.name
    (fun _ => by rcases h.align with h | h <;> rw [h] <;> decide) fun hnull => absurd hnull h.kind.1

lemma Unloaded.loads (h : Unloaded s) : s.loads = false := by
  rw [Sec.loads, h.flags]
  rfl

def Part.kind (p : Part) : Int := if p = .bss then 8 else 1

def Part.flags : Part → Int
  | .text => 6
  | .rodata => 2
  | .data | .bss => 3

lemma Unit.secFor_eq (u : Unit) (p : Part) :
  u.secFor p = secOf p.name p.kind p.flags (u.chunk p).align (u.chunk p).bytes := by
  cases p <;> rfl

lemma Part.loads (p : Part) : p.flags.toNat &&& Elf.allocFlag != 0 := by
  cases p <;> decide

lemma Part.kind_ne_null (p : Part) : p.kind ≠ Elf.nullKind := by cases p <;> decide

lemma Part.kind_eq_noBits_iff {p : Part} : p.kind = Elf.noBitsKind ↔ p = .bss := by
  cases p <;> decide

lemma Linker.exists_unloaded (l : Linker) (u : Unit) (withSyms : Bool) : ∃ others,
  l.namedSecs u withSyms ++ [namesOf (l.namedSecs u withSyms)] =
    ({ name := "", off := -1, addr := -1 } : Sec) ::
        (u.loadedParts.map u.secFor ++ others) ∧ ∀ s ∈ others, Unloaded s := by
  have hsection : ∀ {name kind} {data : Elf.Image}, kind ≠ Elf.nullKind ∧ kind ≠ Elf.noBitsKind →
      name ≠ ".tbss" → Unloaded (secOf name kind 0 1 data) :=
    fun hkind hname => ⟨rfl, hkind, .inl rfl, rfl, hname⟩
  refine ⟨(l.attributes.toList.map fun bs => secOf ".ARM.attributes" 0x70000003 0 1 bs.toArray) ++
    ((if withSyms then symSecs l.cls u (l.secs u).length else []) ++
      [namesOf (l.namedSecs u withSyms)]), ?_, ?_⟩
  · simp [namedSecs, secs]
  · simp only [mem_append, mem_map, mem_singleton]
    rintro s (⟨bs, -, rfl⟩ | hs | rfl)
    · exact hsection (by decide) (by decide)
    · split at hs
      · rw [symSecs, mem_cons, mem_singleton] at hs
        rcases hs with rfl | rfl
        · exact ⟨rfl, (by decide : Elf.symsKind ≠ Elf.nullKind ∧ Elf.symsKind ≠ Elf.noBitsKind),
            .inr rfl, rfl, (by decide : ".symtab" ≠ ".tbss")⟩
        · exact hsection (by decide) (by decide)
      · cases hs
    · exact hsection (by decide) (by decide)

lemma length_withNames (ss : List Sec) : (withNames ss).length = ss.length + 1 := by
  simp [withNames, length_stringTable]

section
variable (l : Linker) (u : Unit) (withSyms : Bool)

/-- The sections after those of the loaded parts are not loaded. -/
lemma Linker.unloaded_of_le (hi : u.loadedParts.length + 1 ≤ i)
  (hsize : i < (l.unlinked u withSyms).secs.size) : Unloaded ((l.unlinked u withSyms).sec i) := by
  obtain ⟨others, heq, hoths⟩ := l.exists_unloaded u withSyms
  have hlen := congrArg length heq
  have hsize : i < (l.namedSecs u withSyms).length + 1 := by
    rw [← length_withNames]
    exact hsize
  rw [length_append, length_singleton, length_cons, length_append, length_map] at hlen
  have hlt : i - (u.loadedParts.length + 1) < others.length := by omega
  have hget : (l.namedSecs u withSyms ++ [namesOf (l.namedSecs u withSyms)])[i]? =
      some others[i - (u.loadedParts.length + 1)] := by
    obtain ⟨j, rfl⟩ : ∃ j, i = j + 1 := ⟨i - 1, by omega⟩
    rw [heq, getElem?_cons_succ, getElem?_append_right (by rw [length_map]; omega),
      length_map, ← getElem?_eq_getElem hlt, Nat.add_sub_add_right]
  obtain ⟨n, hn⟩ := sec_unlinked hget
  have hoth := hoths _ (getElem_mem hlt)
  rw [hn]
  exact ⟨hoth.flags, hoth.kind, hoth.align, hoth.size, hoth.name⟩

lemma Linker.kind_unlinked (hi : i ≤ u.loadedParts.length) :
  ((l.unlinked u withSyms).sec i).kind = Elf.noBitsKind → u.loadedParts[i - 1]? = some .bss := by
  cases i with
  | zero =>
    obtain ⟨n, hn⟩ := l.unlinked_sec_zero u withSyms
    rw [hn]
    exact fun hkind => absurd hkind (by decide : Elf.nullKind ≠ Elf.noBitsKind)
  | succ j =>
    obtain ⟨n, hn⟩ := l.unlinked_sec_succ withSyms (getElem?_eq_getElem hi)
    rw [hn, Nat.add_sub_cancel, getElem?_eq_getElem hi, u.secFor_eq]
    exact fun hkind => congrArg some (Part.kind_eq_noBits_iff.1 hkind)

variable (hsta : 65536 ∣ l.start) (halg : ∀ p, ∃ k ≤ 16, (u.chunk p).align = 2 ^ k)
include hsta halg

lemma Linker.planned : (l.unlinked u withSyms).Planned
  { Seg.executable 65536 with secs := [0, 1] } (dataSegs u.loadedParts)
    (restSeg u.loadedParts (l.allSecs u withSyms).length) := by
  obtain ⟨hnumbers, hdata, hbits, -⟩ := dataSegs_secs _ u.loadedParts_mem
  obtain ⟨n, hzero⟩ := l.unlinked_sec_zero u withSyms
  obtain ⟨m, hone⟩ := l.unlinked_sec_succ withSyms (i := 0) rfl
  have hsegs := segsFor_eq u.loadedParts (l.allSecs u withSyms).length
  have hsize : (l.unlinked u withSyms).secs.size = (l.allSecs u withSyms).length := rfl
  have hlen : u.loadedParts.length + 1 ≤ (l.allSecs u withSyms).length := by
    rw [allSecs, length_withNames, namedSecs, secs]
    simp
    omega
  have hmem : ∀ g ∈ dataSegs u.loadedParts, ∀ i ∈ g.secs, i ≤ u.loadedParts.length :=
    fun g hg i hi => Nat.le_of_lt_succ (mem_range.1
      (hnumbers ▸ mem_append_right _ (mem_flatMap.2 ⟨g, hg, hi⟩)))
  constructor
  case segs => exact hsegs
  case loaded => exact forall_mem_cons.2 ⟨⟨5, rfl⟩, fun g hg => ⟨g.flags, (hdata g hg).1⟩⟩
  case pseudo => rfl
  case exe => rfl
  case start => exact hsta
  case nums =>
    obtain ⟨k, hk⟩ := Nat.exists_eq_add_of_le hlen
    have hrest : [restSeg u.loadedParts (l.allSecs u withSyms).length].flatMap
        Seg.secs = (range k).map (u.loadedParts.length + 1 + ·) := by
      simp [restSeg, hk, Nat.add_comm]
    rw [show (l.unlinked u withSyms).segs = _ from hsegs, flatMap_cons,
      flatMap_append, ← append_assoc, hnumbers, hrest, hsize, hk, ← range_add]
  case fit =>
    intro i hi
    by_cases hle : u.loadedParts.length + 1 ≤ i
    · exact (l.unloaded_of_le u withSyms hle hi).fit
    cases i with
    | zero =>
      rw [hzero]
      exact fit_of_flags (.head _) rfl (by decide : "" ≠ ".tbss") (fun h => absurd rfl h)
        fun _ => rfl
    | succ j =>
      have hj : j < u.loadedParts.length := by omega
      obtain ⟨k, hk⟩ := l.unlinked_sec_succ withSyms (getElem?_eq_getElem hj)
      rw [hk, u.secFor_eq]
      generalize u.loadedParts[j] = p
      obtain ⟨k, hk, halg⟩ := halg p
      refine fit_of_flags (?_ : p.flags ∈ _) rfl (?_ : p.name ≠ _) (fun _ => ?_)
        fun hnull => absurd hnull p.kind_ne_null
      · cases p <;> decide
      · cases p <;> decide
      · rw [show (secOf _ _ _ (u.chunk p).align _).align = _ from halg]
        exact ⟨Int.pow_pos (by decide), pow_dvd_pow (2 : Int) hk⟩
  case null => rw [hzero]; rfl
  case text =>
    rw [hone]
    exact Part.loads .text
  case mid =>
    refine fun g hg => ⟨(hdata g hg).2.1, fun i hi => ?_⟩
    obtain ⟨j, rfl⟩ : ∃ j, i = j + 1 :=
      Nat.exists_eq_succ_of_ne_zero fun hzero => (hdata g hg).2.2 (hzero ▸ hi)
    obtain ⟨k, hk⟩ := l.unlinked_sec_succ withSyms (getElem?_eq_getElem (hmem g hg _ hi))
    rw [hk, u.secFor_eq]
    exact Part.loads _
  case rest =>
    intro i hi
    obtain ⟨j, hj, rfl⟩ := mem_map.1 hi
    have hj := mem_range.1 hj
    exact (l.unloaded_of_le u withSyms (Nat.le_add_left _ _) (by omega)).loads
  case bits =>
    rw [show (l.unlinked u withSyms).segs = _ from hsegs, ← cons_append]
    refine pairwise_append.2 ⟨?_, pairwise_singleton _ _, fun g _ g' hg' hpseudo => ?_⟩
    · have hpairs : ({ Seg.executable 65536 with secs := [0, 1] } ::
          dataSegs u.loadedParts).Pairwise fun g _ => ∀ i ∈ g.secs,
            u.loadedParts[i - 1]? ≠ some .bss :=
        (pairwise_map (R := fun is _ => ∀ i ∈ is, u.loadedParts[i - 1]? ≠ some .bss)).1 hbits
      refine hpairs.imp_of_mem fun {g _} hg _ hne _ i hi hkind => hne i hi ?_
      refine l.kind_unlinked u withSyms ?_ hkind
      rcases mem_cons.1 hg with rfl | hg
      · have : 1 ≤ u.loadedParts.length := Nat.le_add_left _ _
        rcases mem_cons.1 hi with rfl | hi
        · exact Nat.zero_le _
        · rw [mem_singleton.1 hi]
          exact this
      · exact hmem g hg i hi
    · rw [mem_singleton.1 hg'] at hpseudo
      cases hpseudo

omit hsta halg

lemma Unit.mem_loadedParts {u : Unit} {p : Part} (hp : p ≠ .text) :
  p ∈ u.loadedParts ↔ 0 < u.size p := by
  cases p <;> simp [Unit.loadedParts] at hp ⊢

lemma Linker.bss_unlinked (hi : u.loadedParts[i]? = some .bss) :
  ((l.unlinked u withSyms).sec (i + 1)).kind = Elf.noBitsKind ∧
    ((l.unlinked u withSyms).sec (i + 1)).align = (u.chunk .bss).align := by
  obtain ⟨n, hn⟩ := l.unlinked_sec_succ withSyms hi
  rw [hn]
  exact ⟨rfl, rfl⟩

include hsta halg

lemma Linker.layout_unlinked : ∃ e, (l.unlinked u withSyms).layout = .ok e ∧ e.Loadable ∧
  (e.Congruent ↔ (u.size .data = 0 → 0 < u.size .bss →
    (u.chunk .bss).align ∣ (e.sec (u.secNum .bss)).off)) := by
  have hplanned := l.planned u withSyms hsta halg
  obtain ⟨e, hlayout, hloadable, hsame, hcongruent⟩ := hplanned.layout
  obtain ⟨hnumbers, hdata, -, hheads⟩ := dataSegs_secs _ u.loadedParts_mem
  refine ⟨e, hlayout, hloadable, hcongruent.trans ?_⟩
  have hhead : ∀ g ∈ dataSegs u.loadedParts,
      (e.sec (g.secs.headD 0)).NoBitsAligned ↔ (u.loadedParts[g.secs.headD 0 - 1]? = some .bss →
        (u.chunk .bss).align ∣ (e.sec (g.secs.headD 0)).off) := by
    intro g hg
    obtain ⟨-, hne, hzero⟩ := hdata g hg
    obtain ⟨i, is, his⟩ := exists_cons_of_ne_nil hne
    have hi : i ∈ g.secs := his ▸ mem_cons_self
    have hle : i ≤ u.loadedParts.length := Nat.le_of_lt_succ (mem_range.1
      (hnumbers ▸ mem_append_right _ (mem_flatMap.2 ⟨g, hg, hi⟩)))
    obtain ⟨j, rfl⟩ : ∃ j, i = j + 1 := Nat.exists_eq_succ_of_ne_zero fun h => hzero (h ▸ hi)
    rw [his, headD_cons]
    have hkind : (e.sec (j + 1)).kind = ((l.unlinked u withSyms).sec (j + 1)).kind := by
      rw [hsame]
    have halg : (e.sec (j + 1)).align = ((l.unlinked u withSyms).sec (j + 1)).align := by
      rw [hsame]
    rw [Sec.NoBitsAligned, hkind, halg]
    constructor
    · intro h hbss
      obtain ⟨hbits, hbound⟩ := l.bss_unlinked u withSyms hbss
      exact hbound ▸ h hbits
    · intro h hbits
      have hbss : u.loadedParts[j]? = some .bss := l.kind_unlinked u withSyms hle hbits
      rw [(l.bss_unlinked u withSyms hbss).2]
      exact h hbss
  -- a segment starts with `.bss` only if there is no `.data`
  have hlist : (∀ g ∈ dataSegs u.loadedParts, u.loadedParts[g.secs.headD 0 - 1]? = some .bss →
        (u.chunk .bss).align ∣ (e.sec (g.secs.headD 0)).off) ↔
      ∀ i ∈ ((dataSegs u.loadedParts).map (·.secs.headD 0)).filter
        (fun i => u.loadedParts[i - 1]? = some .bss), (u.chunk .bss).align ∣ (e.sec i).off := by
    simp
  have hcond : (.data ∉ u.loadedParts ∧ .bss ∈ u.loadedParts) ↔
      u.size .data = 0 ∧ 0 < u.size .bss := by
    rw [Unit.mem_loadedParts (by decide), Unit.mem_loadedParts (by decide), Nat.not_lt, Nat.le_zero]
  rw [forall₂_congr hhead, hlist, hheads]
  by_cases hbss : .data ∉ u.loadedParts ∧ .bss ∈ u.loadedParts
  · rw [if_pos hbss, forall_mem_singleton]
    exact ⟨fun h _ _ => h, fun h => h (hcond.1 hbss).1 (hcond.1 hbss).2⟩
  · rw [if_neg hbss]
    exact ⟨fun _ hdata hsize => absurd (hcond.2 ⟨hdata, hsize⟩) hbss, fun _ i hi => nomatch hi⟩

end

def linkers : List Linker := [A32.linker, A64.linker, X64.linker]

/-- What is laid out for a unit can be loaded. Addresses and file offsets agree, except that a section
without bytes may be alone in its segment, at an offset that is not aligned. -/
theorem layout_loadable {l : Linker} (hl : l ∈ linkers) {u : Unit}
  (halg : ∀ p, ∃ k ≤ 16, (u.chunk p).align = 2 ^ k) (withSyms : Bool) :
  ∃ e, (l.unlinked u withSyms).layout = .ok e ∧ e.Loadable ∧
    (e.Congruent ↔ (u.size .data = 0 → 0 < u.size .bss →
      (u.chunk .bss).align ∣ (e.sec (u.secNum .bss)).off)) := by
  have hsta : ∀ l ∈ linkers, (65536 : Int) ∣ l.start := by decide
  exact l.layout_unlinked u withSyms (hsta l hl) halg

/-- A unit with all parts, none of which ends at a multiple of what the next one needs. -/
def mixed : Unit :=
  { text := ⟨16, #[0xc3]⟩, rodata := ⟨4, #[1, 2, 3]⟩, data := ⟨8, #[4, 5, 6, 7, 8]⟩
    bss := ⟨64, Array.replicate 32 0⟩ }

theorem layout_loadable_mixed :
  (A64.linker ∈ linkers ∧ ∀ p, ∃ k ≤ 16, (mixed.chunk p).align = 2 ^ k) ∧ ∃ e,
    (A64.linker.unlinked mixed true).layout = .ok e ∧ e.Loadable ∧ e.Congruent := by
  have hl : A64.linker ∈ linkers := by simp [linkers]
  have halg : ∀ p, ∃ k ≤ 16, (mixed.chunk p).align = 2 ^ k
    | .text => ⟨4, by decide, rfl⟩
    | .rodata => ⟨2, by decide, rfl⟩
    | .data => ⟨3, by decide, rfl⟩
    | .bss => ⟨6, by decide, rfl⟩
  obtain ⟨e, hlayout, hloadable, hcongruent⟩ := layout_loadable hl halg true
  exact ⟨⟨hl, halg⟩, e, hlayout, hloadable, hcongruent.2 fun h => absurd h (by decide)⟩

/-- A unit whose only variable has no bytes in the file. -/
def sparse : Unit := { text := ⟨16, #[0xc3]⟩, bss := ⟨16, Array.replicate 16 0⟩ }

theorem layout_incongruent_sparse :
  ∃ e, (X64.linker.unlinked sparse false).layout = .ok e ∧ ¬e.Congruent := by
  have hoff : (X64.linker.unlinked sparse false).layout.toOption.map
      (fun e => (e.sec (sparse.secNum .bss)).off) = some 0xb1 := by decide +kernel
  have halg : ∀ p, ∃ k ≤ 16, (sparse.chunk p).align = 2 ^ k
    | .text | .bss => ⟨4, by decide, rfl⟩
    | .rodata | .data => ⟨0, by decide, rfl⟩
  obtain ⟨e, hlayout, -, hcongruent⟩ := X64.linker.layout_unlinked sparse false (by decide) halg
  rw [hlayout] at hoff
  have hoff : (e.sec (sparse.secNum .bss)).off = 0xb1 := Option.some.inj hoff
  refine ⟨e, hlayout, fun h => ?_⟩
  have hdvd := hcongruent.1 h (by decide) (by decide)
  rw [hoff] at hdvd
  exact absurd hdvd (by decide)

end Retarget.Asm
