import Retarget.Proofs.Linking
import Retarget.A32.Instruction
import Retarget.A64.Instruction

/-!
# Words of the ARM families

In every format of the tables, the fixed bits and the operands share the bits of the word among
them. If a word fits two A32 formats, the one with more fixed bits decodes it, except that floating
point formats for several registers give way to those for one or a pair. No word fits two A64
formats, and the one that it fits is listed under its top byte.
-/

namespace Retarget.A32
open List Op
open Enc (Pat Tiled placed)
variable {w : Nat} {o : Op}

/-! ## The table of formats -/

namespace Op

/-- Every bit that is fixed in the other format is fixed in this one, and so are more. -/
def refines (o o' : Op) : Bool :=
  o.pattern.mask &&& o'.pattern.mask == o'.pattern.mask && o.pattern.mask != o'.pattern.mask

def isFloatMulti (o : Op) : Bool := o.traits.contains .vfp && o.traits.contains .multiple

/-- A floating point format that does not load or store several registers, before one that does. Every
bit that is fixed in the other format is fixed in this one, but for the lowest one. -/
def overrides (o o' : Op) : Bool :=
  o.traits.contains .vfp && !o.isFloatMulti && o'.isFloatMulti &&
    (o.pattern.mask ||| 1) &&& o'.pattern.mask == o'.pattern.mask

/-- Several floating point registers are loaded or stored at addresses that are stepped before each
access, and the base register is not updated. -/
def isShadowed (o : Op) : Bool :=
  o.isFloatMulti && o.traits.contains .addrPre && !o.traits.contains .addrUpdate

def mayPrecede (o o' : Op) : Bool :=
  !o.pattern.agrees o'.pattern || (o.refines o' || o.overrides o') &&
    (o'.isShadowed || !o.fits o'.pattern.value)

def group (o : Op) : Nat := o.pattern.value >>> 25 % 8

/-- Every word of the second format fits the first one. -/
def covers (o o' : Op) : Bool :=
  o.pattern.mask &&& o'.pattern.mask == o.pattern.mask &&
    o'.pattern.value &&& o.pattern.mask == o.pattern.value

end Op

def inOrder : List Op → Bool
  | [] => true
  | o :: os => os.all (o.mayPrecede ·) && inOrder os

def beforeFloatMulti : List Op := opcodes.takeWhile (!·.isFloatMulti)

/-- What is checked for the whole table at once: the fields and fixed bits of a format make up a word,
formats fix the bits of their group and are in order there, and formats that are never found are
covered. -/
lemma opcodes_checked : (∀ o ∈ opcodes, Tiled 32 o.pattern (o.fields.map Field.ranges)) ∧
  (∀ o ∈ opcodes, o.pattern.mask &&& (7 <<< 25) = 7 <<< 25) ∧
  (∀ k < 8, inOrder (opcodes.filter (·.group == k))) ∧
  ∀ o ∈ opcodes, o.isShadowed → ∃ o' ∈ beforeFloatMulti, o'.covers o := by
  decide +kernel

lemma opcodes_tiled : ∀ o ∈ opcodes, Tiled 32 o.pattern (o.fields.map Field.ranges) :=
  opcodes_checked.1

/-! ## From words to instructions and back -/

lemma Op.placeOpnds_map_some (fs : List Field) (vs : List Int) :
  placeOpnds fs (vs.map some) = .ok (placed (fs.map Field.ranges) vs) := by
  induction fs generalizing vs with
  | nil => rfl
  | cons f fs ih =>
    cases vs with
    | nil => rfl
    | cons v vs =>
      rw [map_cons, placeOpnds, ih]
      rfl

lemma Op.asm_map_some {vs : List Int} (h : vs.length = o.fields.length) :
  o.asm (vs.map some) = .ok (o.pattern.value ||| placed (o.fields.map Field.ranges) vs) := by
  rw [asm, placeOpnds_map_some, length_map, h, beq_self_eq_true]
  rfl

lemma Op.opndsOf_map_some (o : Op) (w : Nat) : ((o.opndsOf w).map fun n => some (Int.ofNat n)) =
  ((o.fields.map Field.ranges).map fun rs => (Enc.extract rs w : Int)).map some := by
  simp [opndsOf]

lemma mem_of_decodeOp? (h : decodeOp? w = some o) : o ∈ opcodes ∧ o.fits w := by
  have hfits := @find?_some Op (fun o => o.fits w) o opcodes h
  exact ⟨mem_of_find?_eq_some h, hfits⟩

lemma Ins.asm_of_decode? (hw : w < 2 ^ 32) {i : Ins} (h : decode? w = some i) : i.asm = .ok w := by
  obtain ⟨o, ho, rfl⟩ := Option.map_eq_some_iff.1 h
  obtain ⟨hmem, hfits⟩ := mem_of_decodeOp? ho
  show o.asm _ = .ok w
  rw [opndsOf_map_some, asm_map_some (by simp)]
  exact congrArg Except.ok ((opcodes_tiled o hmem).placed_extract hw hfits)

/-! ## The order of the formats -/

lemma inOrder_pairwise {os : List Op} (h : inOrder os) :
  os.Pairwise fun o o' => o.mayPrecede o' := by
  induction os with
  | nil => exact List.Pairwise.nil
  | cons o os ih =>
    rw [inOrder, Bool.and_eq_true, all_eq_true] at h
    exact pairwise_cons.2 ⟨h.1, ih h.2⟩

lemma Op.group_eq_of_agrees {o' : Op} (ho : o ∈ opcodes) (ho' : o' ∈ opcodes)
  (h : o.pattern.agrees o'.pattern) : o.group = o'.group := by
  have hmask : (o.pattern.mask &&& o'.pattern.mask) &&& (7 <<< 25) = 7 <<< 25 := by
    rw [Nat.and_assoc, opcodes_checked.2.1 o' ho', opcodes_checked.2.1 o ho]
  have hxor : (o.pattern.value ^^^ o'.pattern.value) &&& (7 <<< 25) = 0 := by
    rw [← hmask, ← Nat.and_assoc, beq_iff_eq.1 h, Nat.zero_and]
  rw [Nat.and_xor_distrib_right, Nat.xor_eq_zero_iff] at hxor
  exact (Enc.BitRange.mk 3 25).get_congr hxor

lemma opcodes_pairwise : opcodes.Pairwise fun o o' => o.mayPrecede o' := by
  rw [pairwise_iff_forall_sublist]
  intro o o' hsub
  have ho : o ∈ opcodes := hsub.subset (.head _)
  have ho' : o' ∈ opcodes := hsub.subset (.tail _ (.head _))
  cases hagr : o.pattern.agrees o'.pattern with
  | false => rw [mayPrecede, hagr, Bool.not_false, Bool.true_or]
  | true =>
    have hgroup := group_eq_of_agrees ho ho' hagr
    have hlt : o'.group < 8 := Nat.mod_lt _ (by decide)
    have hfilter : [o, o'].filter (·.group == o'.group) = [o, o'] := by simp [hgroup]
    have hclass := inOrder_pairwise (opcodes_checked.2.2.1 o'.group hlt)
    exact pairwise_iff_forall_sublist.1 hclass (hfilter ▸ hsub.filter _)

lemma decodeOp?_or_precedes (ho : o ∈ opcodes) (hfits : o.fits w) :
  ∃ o', decodeOp? w = some o' ∧ o'.fits w ∧ (o' = o ∨ o'.mayPrecede o) := by
  obtain ⟨o', ho'⟩ := Option.isSome_iff_exists.1
    (find?_isSome (p := fun o => o.fits w).2 ⟨o, ho, hfits⟩)
  obtain ⟨hfits', before, after, hsplit, hbef⟩ := find?_eq_some_iff_append.1 ho'
  refine ⟨o', ho', hfits', ?_⟩
  rw [hsplit, mem_append, mem_cons] at ho
  rcases ho with ho | rfl | ho
  · have := hbef o ho
    rw [hfits] at this
    cases this
  · exact .inl rfl
  · have hpair := opcodes_pairwise
    rw [hsplit] at hpair
    exact .inr ((pairwise_cons.1 (pairwise_append.1 hpair).2.1).1 o ho)

lemma decodeOp?_of_fits (ho : o ∈ opcodes) (hfits : o.fits w) :
  ∃ o', decodeOp? w = some o' ∧ (o' = o ∨ o'.refines o ∨ o'.overrides o) := by
  obtain ⟨o', ho', hfits', hpre⟩ := decodeOp?_or_precedes ho hfits
  refine ⟨o', ho', hpre.imp_right fun hpre => ?_⟩
  rw [mayPrecede, Pat.agrees_of_fits hfits' hfits, Bool.not_true, Bool.false_or,
    Bool.and_eq_true, Bool.or_eq_true] at hpre
  exact hpre.1

/-! ## Formats that are never found -/

/-- The fixed bits of a format decode to it, unless it is never found. -/
lemma decodeOp?_value (ho : o ∈ opcodes) (h : o.isShadowed = false) :
  decodeOp? o.pattern.value = some o := by
  have hfits : o.fits o.pattern.value := beq_iff_eq.2 (opcodes_tiled o ho).value
  obtain ⟨o', ho', hfits', rfl | hpre⟩ := decodeOp?_or_precedes ho hfits
  · exact ho'
  · rw [mayPrecede, Pat.agrees_of_fits hfits' hfits, h, hfits'] at hpre
    simp at hpre

lemma Op.fits_of_covers {o' : Op} (h : o.covers o') (hfits : o'.fits w) : o.fits w := by
  rw [covers, Bool.and_eq_true, beq_iff_eq, beq_iff_eq] at h
  rw [fits, Pat.fits, beq_iff_eq] at hfits ⊢
  rw [← h.1, Nat.and_comm o.pattern.mask, ← Nat.and_assoc, hfits, h.2]

lemma decodeOp?_ne_of_isShadowed (ho : o ∈ opcodes) (h : o.isShadowed)
  (w : Nat) : decodeOp? w ≠ some o := by
  intro hw
  obtain ⟨o', ho', hcovers⟩ := opcodes_checked.2.2.2 o ho h
  have hfits := fits_of_covers hcovers (mem_of_decodeOp? hw).2
  obtain ⟨o'', ho''⟩ := Option.isSome_iff_exists.1
    (find?_isSome (p := fun o => o.fits w).2 ⟨o', ho', hfits⟩)
  -- What is found among the earlier formats is found in the whole table.
  have hfound : decodeOp? w = some o'' := by
    rw [decodeOp?, ← takeWhile_append_dropWhile
      (l := opcodes), find?_append, show opcodes.takeWhile _ = beforeFloatMulti from rfl, ho'']
    rfl
  have hmulti := all_eq_true.1 (all_takeWhile ) o'' (mem_of_find?_eq_some ho'')
  rw [← Option.some.inj (hfound.symm.trans hw)] at h
  rw [isShadowed, Bool.and_assoc, Bool.and_eq_true] at h
  simp [h.1] at hmulti

/-- Words are decoded without loss. An instruction that is read from a word assembles to it; of two
formats that a word fits, the one with more fixed bits decodes it, except that formats for several
floating point registers give way to other floating point formats; and the formats that decode no
word are those for several floating point registers that step the address before each access and do
not update the base register. -/
theorem decode_exact : (∀ w < 2 ^ 32, ∀ i, Ins.decode? w = some i → i.asm = .ok w) ∧
  (∀ w, ∀ o ∈ opcodes, o.fits w = true →
    ∃ o', decodeOp? w = some o' ∧ (o' = o ∨ o'.refines o = true ∨ o'.overrides o = true)) ∧
  ∀ o ∈ opcodes, (o.isShadowed = true ↔ ∀ w < 2 ^ 32, decodeOp? w ≠ some o) := by
  refine ⟨fun w hw i h => Ins.asm_of_decode? hw h, fun w o ho h => decodeOp?_of_fits ho h,
    fun o ho => ⟨fun h w _ => decodeOp?_ne_of_isShadowed ho h w, fun h => ?_⟩⟩
  by_contra hnot
  have hval : o.pattern.value < 2 ^ 32 := by
    have hwhole := (opcodes_tiled o ho).whole
    have hle : o.pattern.value ≤ 2 ^ 32 - 1 := by
      rw [← (opcodes_tiled o ho).value, ← hwhole]
      exact Nat.le_trans Nat.and_le_right Nat.left_le_or
    omega
  exact h _ hval (decodeOp?_value ho (Bool.eq_false_iff.2 hnot))

/-- A word that fits two formats, for the extension of a byte without and with an addition. -/
theorem decode_exact_uxtb : (∃ i, Ins.decode? 0xe6ef1072 = some i ∧ i.asm = .ok 0xe6ef1072) ∧
  (∃ o ∈ opcodes, o.name = "uxtab" ∧ o.fits 0xe6ef1072 = true ∧ ∃ o',
    decodeOp? 0xe6ef1072 = some o' ∧ (o' = o ∨ o'.refines o = true ∨ o'.overrides o = true)) ∧
  ∃ o ∈ opcodes, o.name = "vldmdb_s" ∧ ∀ w < 2 ^ 32, decodeOp? w ≠ some o := by
  obtain ⟨i, hi⟩ : ∃ i, Ins.decode? 0xe6ef1072 = some i :=
    Option.isSome_iff_exists.1 (by decide +kernel)
  obtain ⟨o, ho, hname, hfits⟩ : ∃ o ∈ opcodes, o.name = "uxtab" ∧ o.fits 0xe6ef1072 = true := by
    decide +kernel
  obtain ⟨s, hs, hshadowed, hs'⟩ : ∃ o ∈ opcodes, o.isShadowed = true ∧ o.name = "vldmdb_s" := by
    decide +kernel
  exact ⟨⟨i, hi, decode_exact.1 _ (by decide) i hi⟩,
    ⟨o, ho, hname, hfits, decode_exact.2.1 _ o ho hfits⟩,
    s, hs, hs', (decode_exact.2.2 s hs).1 hshadowed⟩

/-- A word that is decoded by the format with fewer fixed bits. The other one decodes no word. -/
theorem decode_prefers_vldr : ∃ o o', decodeOp? 0xed110b04 = some o ∧ o.name = "vldr_f64_sub" ∧
  o' ∈ opcodes ∧ o'.name = "vldmdb_f" ∧ o'.fits 0xed110b04 = true ∧ o'.refines o = true ∧
  ∀ w, decodeOp? w ≠ some o' := by
  obtain ⟨o, ho⟩ : ∃ o, decodeOp? 0xed110b04 = some o :=
    Option.isSome_iff_exists.1 (by decide +kernel)
  obtain ⟨o', ho', hname, hfits, hshadowed, hrefines⟩ : ∃ o' ∈ opcodes, o'.name = "vldmdb_f" ∧
      o'.fits 0xed110b04 = true ∧ o'.isShadowed = true ∧
      (decodeOp? 0xed110b04).all (fun o => o.name == "vldr_f64_sub" && o'.refines o) = true := by
    decide +kernel
  rw [ho, Option.all_some, Bool.and_eq_true, beq_iff_eq] at hrefines
  exact ⟨o, o', ho, hrefines.1, ho', hname, hfits, hrefines.2,
    decodeOp?_ne_of_isShadowed ho' hshadowed⟩

end Retarget.A32

namespace Retarget.A64
open Enc (Pat Tiled placed extract insert)
variable {w : Nat}

/-! ## A64 -/

lemma foldl_insert_eq_or_placed (fs : List Field) (vs : List Int) (w : Nat) : (fs.zip vs).foldl
  (fun w (f, v) => w ||| insert f.ranges v) w = w ||| placed (fs.map Field.ranges) vs := by
  induction fs generalizing vs w with
  | nil => exact (Nat.or_zero w).symm
  | cons f fs ih =>
    cases vs with
    | nil => exact (Nat.or_zero w).symm
    | cons v vs => rw [List.zip_cons_cons, List.foldl_cons, ih, List.map_cons, placed, Nat.or_assoc]

lemma Op.asm_eq {o : Op} {vs : List Int} (h : vs.length = o.fields.length) :
  o.asm vs = .ok (o.pattern.value ||| placed (o.fields.map Field.ranges) vs) := by
  rw [asm, foldl_insert_eq_or_placed, h, beq_self_eq_true]
  rfl

lemma Op.opndsOf_map_ofNat (o : Op) (w : Nat) : (o.opndsOf w).map Int.ofNat =
  (o.fields.map Field.ranges).map fun rs => (extract rs w : Int) := by
  simp [opndsOf]

/-- Bits of words in an order in which they tell formats apart. What only few formats fix comes up
twice: it is fixed in all formats that are left when others have been told apart. -/
def tellingBits : List Nat :=
  let order := [28, 27, 26, 31, 30, 29, 25, 24, 23, 22, 21, 15, 14, 13, 12, 11, 10, 20, 19, 18, 17,
    16, 4, 3, 2, 1, 0, 9, 8, 7, 6, 5]
  order ++ order

lemma opcodes_tiled_and_toldApart :
  (∀ o ∈ opcodes, Tiled 32 o.pattern (o.fields.map Field.ranges)) ∧
    Pat.toldApart tellingBits (opcodes.map Op.pattern) := by
  decide +kernel

lemma countP_opcodes_le_one (w : Nat) : opcodes.countP (·.fits w) ≤ 1 := by
  have hcnt := Pat.countP_fits_le_one opcodes_tiled_and_toldApart.2 w
  rwa [List.countP_map] at hcnt

lemma eq_of_fits {o o' : Op} (ho : o ∈ opcodes) (ho' : o' ∈ opcodes) (hfits : o.fits w)
  (hfits' : o'.fits w) : o = o' := by
  have hle := countP_opcodes_le_one w
  rw [List.countP_eq_length_filter] at hle
  have hmem : o ∈ opcodes.filter (·.fits w) := List.mem_filter.2 ⟨ho, hfits⟩
  have hmem' : o' ∈ opcodes.filter (·.fits w) := List.mem_filter.2 ⟨ho', hfits'⟩
  rcases h : opcodes.filter (·.fits w) with _ | ⟨a, _ | ⟨b, rest⟩⟩
  · rw [h] at hmem
    cases hmem
  · rw [h, List.mem_singleton] at hmem hmem'
    rw [hmem, hmem']
  · rw [h] at hle
    simp at hle

/-- A format is listed under the top byte of every word that fits it. -/
lemma Op.isListed_of_fits {o : Op} (hw : w < span 32) (h : o.fits w) : o.isListed (w >>> 24) := by
  have hspan : span 32 = 2 ^ 32 := IR.span_eq 32
  have htop : w >>> 24 < 256 := by
    omega
  refine List.any_eq_true.2 ⟨w >>> 24, List.mem_range.2 htop, beq_iff_eq.2 ?_⟩
  rw [← beq_iff_eq.1 h]
  apply Nat.eq_of_testBit_eq
  intro i
  simp only [Nat.testBit_or, Nat.testBit_and, Nat.testBit_xor, Nat.testBit_shiftRight]
  rw [show (255 : Nat) = 2 ^ 8 - 1 from rfl, Nat.testBit_two_pow_sub_one]
  by_cases hi : i < 8
  · cases w.testBit (24 + i) <;> cases o.pattern.mask.testBit (24 + i) <;> simp [hi]
  · have hbit : w.testBit (24 + i) = false :=
      Nat.testBit_lt_two_pow ((hspan ▸ hw).trans_le (Nat.pow_le_pow_right Nat.two_pos (by omega)))
    simp [hbit]

lemma decodeOp?_eq_some_iff (hw : w < span 32) {o : Op} :
  decodeOp? w = some o ↔ o ∈ opcodes ∧ o.fits w := by
  have hsound : ∀ {o'}, decodeOp? w = some o' → o' ∈ opcodes ∧ o'.fits w := by
    intro o' h
    have hfits := @List.find?_some Op (fun o => o.fits w) o' (bucket (w >>> 24)) h
    exact ⟨(List.mem_filter.1 (List.mem_of_find?_eq_some h)).1, hfits⟩
  refine ⟨hsound, fun ⟨ho, hfits⟩ => ?_⟩
  have hlisted : o ∈ bucket (w >>> 24) := List.mem_filter.2 ⟨ho, Op.isListed_of_fits hw hfits⟩
  obtain ⟨o', ho'⟩ := Option.isSome_iff_exists.1
    (List.find?_isSome (p := fun o => o.fits w).2 ⟨o, hlisted, hfits⟩)
  obtain ⟨hmem, hfits'⟩ := hsound ho'
  rw [eq_of_fits ho hmem hfits hfits']
  exact ho'

lemma Ins.asm_of_decode {i : Ins} (h : decode w = .ok (some i)) : i.asm = .ok w := by
  rw [decode] at h
  split at h
  · rename_i hw
    obtain ⟨o, ho, rfl⟩ := Option.map_eq_some_iff.1 (Except.ok.inj h)
    obtain ⟨hmem, hfits⟩ := (decodeOp?_eq_some_iff hw).1 ho
    show o.asm _ = .ok w
    rw [o.opndsOf_map_ofNat, Op.asm_eq (by simp)]
    have htiled := opcodes_tiled_and_toldApart.1 o hmem
    exact congrArg Except.ok (htiled.placed_extract (IR.span_eq 32 ▸ hw) hfits)
  · cases h

/-- Words are decoded without loss and without doubt. An instruction read from a word assembles to it;
a word fits one format of the table at most; and this format is listed under the top byte of the
word and decodes it, so a word that is not decoded fits none. -/
theorem decode_unambiguous : (∀ w i, Ins.decode w = .ok (some i) → i.asm = .ok w) ∧
  (∀ w, opcodes.countP (·.fits w) ≤ 1) ∧
  ∀ w < 2 ^ 32, (∀ o ∈ opcodes, o.fits w = true → o ∈ bucket (w >>> 24)) ∧
    (∀ o, decodeOp? w = some o ↔ o ∈ opcodes ∧ o.fits w = true) ∧
    (Ins.decode w = .ok none ↔ ∀ o ∈ opcodes, o.fits w = false) := by
  refine ⟨fun w i => Ins.asm_of_decode, countP_opcodes_le_one, fun w hw => ?_⟩
  have hw : w < span 32 := IR.span_eq 32 ▸ hw
  refine ⟨fun o ho hfits => List.mem_filter.2 ⟨ho, Op.isListed_of_fits hw hfits⟩,
    fun o => decodeOp?_eq_some_iff hw, ?_⟩
  rw [Ins.decode, if_pos hw, Except.ok.injEq, Option.map_eq_none_iff, Option.eq_none_iff_forall_ne_some]
  simp only [ne_eq, decodeOp?_eq_some_iff hw, not_and, Bool.not_eq_true]

/-- An addition, and a word that is no instruction. -/
theorem decode_unambiguous_add :
  (∃ i, Ins.decode 0x8b030041 = .ok (some i) ∧ i.opcode.name = "add_x_reg" ∧
    i.asm = .ok 0x8b030041 ∧ i.opcode ∈ bucket 0x8b) ∧ Ins.decode 0 = .ok none := by
  obtain ⟨⟨o, hmem, hname, hfits⟩, hnone⟩ : (∃ o ∈ opcodes, o.name = "add_x_reg" ∧
      o.fits 0x8b030041 = true) ∧ ∀ o ∈ opcodes, o.fits 0 = false := by
    decide +kernel
  obtain ⟨hlisted, hdecoded, -⟩ := decode_unambiguous.2.2 0x8b030041 (by decide)
  have hdecode : Ins.decode 0x8b030041 =
      .ok (some ⟨o, (o.opndsOf 0x8b030041).map Int.ofNat, none⟩) := by
    rw [Ins.decode, if_pos (by decide), (hdecoded o).2 ⟨hmem, hfits⟩]
    rfl
  exact ⟨⟨_, hdecode, hname, decode_unambiguous.1 _ _ hdecode, hlisted o hmem hfits⟩,
    (decode_unambiguous.2.2 0 (by decide)).2.2.2 hnone⟩

end Retarget.A64

/-! ## References

Linking changes one operand of an instruction. The distance of a branch is cut to the width of its
operand without a check, and so are its two low bits: the instruction goes to its target exactly if
that is aligned and in reach. -/

namespace Retarget
open Enc Except Int
open Elf (Image)
open IR (ensure_ok orFault_ok)
open IR.Pass (bind_ok)
variable {bytes bytes' : Image} {place tgt v : Int} {kind off pos w w' width : Nat} {name : String}

/-! ## Distances -/

lemma branch_eq_iff (hwidth : 0 < width) (base tgt : Int) :
  base + 4 * signedOf (lowBits (dropBits (tgt - base) 2) width) width = tgt ↔
    4 ∣ tgt - base ∧ InRange width ((tgt - base) / 4) := by
  have hdrop : dropBits (tgt - base) 2 = (tgt - base) / 4 := rfl
  rw [hdrop, InRange, ← signedOf_lowBits_eq_iff _ hwidth]
  constructor
  · intro h
    have hdiv : tgt - base = 4 * signedOf (lowBits ((tgt - base) / 4) width) width := by omega
    exact ⟨⟨_, hdiv⟩, by omega⟩
  · rintro ⟨hdvd, heq⟩
    omega

lemma lowBits_lowBits_of_le (n : Int) {j k : Nat} (h : j ≤ k) :
  lowBits (lowBits n j) k = lowBits n j := by
  have hle : span j ≤ span k := by
    rw [IR.span_eq, IR.span_eq]
    exact Nat.pow_le_pow_right Nat.two_pos h
  have hnonneg := lowBits_nonneg n j
  have hlt := lowBits_lt n j
  exact emod_eq_of_lt hnonneg (by omega)

lemma Asm.replaceWord_ok {n : Nat} {new : Nat → Res Int}
  (h : replaceWord n off new bytes = .ok bytes') : off + n ≤ bytes.size ∧ ∃ w : Nat, w < 256 ^ n ∧
  new (wordAt bytes off n) = .ok (w : Int) ∧ bytes' = splice bytes off n (leBytes n w) := by
  obtain ⟨_, hsize, h⟩ := bind_ok.1 h
  obtain ⟨v, hv, h⟩ := bind_ok.1 h
  refine ⟨of_decide_eq_true (ensure_ok.1 hsize), ?_⟩
  split at h
  · cases h
  · rename_i hrange
    rw [Bool.or_eq_true, decide_eq_true_eq, decide_eq_true_eq, not_or, not_lt, not_le] at hrange
    obtain ⟨w, rfl⟩ := eq_ofNat_of_zero_le hrange.1
    have hspan : (w : Int) < span (8 * n) := hrange.2
    rw [IR.span_eq, Nat.pow_mul] at hspan
    exact ⟨w, by exact_mod_cast hspan, hv, (ok.inj h).symm⟩

namespace A32

/-! ## A32 -/

lemma Op.patch_ok {o : Op} (h : o.patch w pos v = .ok w') :
  o.fits w ∧ w' = o.pattern.value ||| placed (o.fields.map Field.ranges)
    (((o.fields.map Field.ranges).map fun rs => (extract rs w : Int)).set pos v) := by
  obtain ⟨_, hfits, h⟩ := bind_ok.1 h
  refine ⟨ensure_ok.1 hfits, ?_⟩
  dsimp only at h
  split at h
  · cases h
  · rw [o.opndsOf_map_some, ← List.map_set, asm_map_some (by simp)] at h
    exact (ok.inj h).symm

def Op.Patchable (o : Op) (pos width : Nat) : Prop :=
  totalWidth ((o.fields.map Field.ranges).getD pos []) = width ∧
    (opcodes.filter fun b => b.pattern.agrees o.pattern).length = 1

instance (o : Op) (pos width : Nat) : Decidable (o.Patchable pos width) :=
  inferInstanceAs (Decidable (_ ∧ _))

/-- Two words stand for the same instruction except for one operand. -/
def Altered (name : String) (pos : Nat) (opnd : Int) (w w' : Nat) : Prop :=
  ∃ i, Ins.decode? w = some i ∧ i.opcode.name = name ∧
    Ins.decode? w' = some { i with opnds := i.opnds.set pos (some opnd) }

lemma Op.Patchable.altered {o : Op} (ho : o ∈ opcodes) (hp : o.Patchable pos width)
  (h : o.patch w pos v = .ok w') : Altered o.name pos (lowBits v width) w w' := by
  obtain ⟨hwidth, halone⟩ := hp
  have htiled := opcodes_tiled o ho
  obtain ⟨hfits, rfl⟩ := Op.patch_ok h
  have hdecode : ∀ w, o.fits w → decodeOp? w = some o := fun w hw =>
    find?_fits_of_alone Op.pattern ho halone hw
  refine ⟨⟨o, (o.opndsOf w).map fun n => some (ofNat n), none⟩, ?_, rfl, ?_⟩
  · rw [Ins.decode?, hdecode w hfits]
    rfl
  · rw [Ins.decode?, hdecode _ (htiled.fits_placed _), Option.map_some]
    simp only [o.opndsOf_map_some, htiled.extract_set, hwidth, List.map_set]

def patchedOpnds : List (String × Nat × Nat) :=
  [("movw", 2, 16), ("movt", 2, 16), ("b", 1, 24), ("bl", 1, 24)]

lemma patchedOpnds_patchable : ∀ p ∈ patchedOpnds,
  (findOp? p.1).all (fun o => decide (o.Patchable p.2.1 p.2.2)) := by
  decide +kernel

lemma patchNamed_altered (hname : (name, pos, width) ∈ patchedOpnds)
  (h : patchNamed name w pos v = .ok w') : Altered name pos (lowBits v width) w w' := by
  have hname := patchedOpnds_patchable _ hname
  obtain ⟨o, ho, h⟩ := bind_ok.1 h
  have hfind := orFault_ok.1 ho
  have honame := @List.find?_some Op (fun o => o.name == name) o opcodes hfind
  rw [← beq_iff_eq.1 honame]
  rw [hfind, Option.all_some, decide_eq_true_eq] at hname
  exact hname.altered (List.mem_of_find?_eq_some hfind) h

/-- Where a branch goes; the program counter is two instructions ahead. -/
def branchTgt (place opnd : Int) : Int := place + 8 + 4 * signedOf opnd 24

def InReach (place tgt : Int) : Prop :=
  4 ∣ tgt - (place + 8) ∧ InRange 24 ((tgt - (place + 8)) / 4)

/-- What has become of the word at the place of a reference. -/
def Resolved (kind : Nat) (place tgt : Int) (w w' : Nat) : Prop :=
  ∃ k : RelocKind, k.code = kind ∧
    match k with
    | .abs32 => (w' : Int) = tgt
    | .movwAbsNc => Altered "movw" 2 (lowBits tgt 16) w w'
    | .movtAbs => Altered "movt" 2 (lowBits (dropBits tgt 16) 16) w w'
    | .jump24 => ∃ opnd, Altered "b" 1 opnd w w' ∧
      (branchTgt place opnd = tgt ↔ InReach place tgt)
    | .call => ∃ opnd, Altered "bl" 1 opnd w w' ∧
      (branchTgt place opnd = tgt ↔ InReach place tgt)

lemma branchTgt_eq_iff (place tgt : Int) :
  branchTgt place (lowBits (branchDist place tgt) 24) = tgt ↔ InReach place tgt := by
  rw [branchTgt, branchDist, sub_sub, branch_eq_iff (by decide)]
  rfl

lemma patchNamed_of_ofNat (h : (do return ofNat (← patchNamed name w pos v)) = ok (w' : Int)) :
  patchNamed name w pos v = .ok w' := by
  obtain ⟨n, hn, h⟩ := bind_ok.1 h
  rw [hn, ofNat.inj (ok.inj h)]

lemma resolved_of_resolveWord (h : resolveWord kind place tgt w = .ok (w' : Int)) :
  Resolved kind place tgt w w' := by
  unfold resolveWord at h
  split at h
  · rename_i hkind
    have haltered := patchNamed_altered (by decide : ("movw", 2, 16) ∈ patchedOpnds)
      (patchNamed_of_ofNat h)
    rw [lowBits_lowBits_of_le _ le_rfl] at haltered
    exact ⟨.movwAbsNc, (beq_iff_eq.1 hkind).symm, haltered⟩
  split at h
  · rename_i hkind
    have haltered := patchNamed_altered (by decide : ("movt", 2, 16) ∈ patchedOpnds)
      (patchNamed_of_ofNat h)
    rw [lowBits_lowBits_of_le _ le_rfl] at haltered
    exact ⟨.movtAbs, (beq_iff_eq.1 hkind).symm, haltered⟩
  split at h
  · rename_i hkind
    exact ⟨.jump24, (beq_iff_eq.1 hkind).symm, _,
      patchNamed_altered (by decide) (patchNamed_of_ofNat h), branchTgt_eq_iff place tgt⟩
  split at h
  · rename_i hkind
    exact ⟨.call, (beq_iff_eq.1 hkind).symm, _,
      patchNamed_altered (by decide) (patchNamed_of_ofNat h), branchTgt_eq_iff place tgt⟩
  split at h
  · rename_i hkind
    exact ⟨.abs32, (beq_iff_eq.1 hkind).symm, (ok.inj h).symm⟩
  · cases h

lemma linker_patches : linker.Patches (fun _ => 4) Resolved := by
  intro kind off place tgt bytes bytes' h
  obtain ⟨hsize, w, hw, hresolve, hbytes⟩ := Asm.replaceWord_ok h
  exact ⟨Nat.succ_pos 3, hsize, w, hw, resolved_of_resolveWord hresolve, hbytes⟩

end A32

namespace A64

/-! ## A64 -/

lemma Op.patch_ok {o : Op} (h : o.patch w pos v = .ok w') :
  o.fits w ∧ w' = o.pattern.value ||| placed (o.fields.map Field.ranges)
    (((o.fields.map Field.ranges).map fun rs => (extract rs w : Int)).set pos v) := by
  obtain ⟨_, hfits, h⟩ := bind_ok.1 h
  refine ⟨ensure_ok.1 hfits, ?_⟩
  dsimp only at h
  split at h
  · cases h
  · rw [o.opndsOf_map_ofNat, asm_eq (by simp)] at h
    exact (ok.inj h).symm

def Altered (name : String) (pos : Nat) (opnd : Int) (w w' : Nat) : Prop :=
  ∃ i, Ins.decode w = .ok (some i) ∧ i.opcode.name = name ∧
    Ins.decode w' = .ok (some { i with opnds := i.opnds.set pos opnd })

lemma Op.altered_of_patch {o : Op} (ho : o ∈ opcodes)
  (hwidth : totalWidth ((o.fields.map Field.ranges).getD pos []) = width) (hw : w < span 32)
  (hw' : w' < span 32) (h : o.patch w pos v = .ok w') :
  Altered o.name pos (lowBits v width) w w' := by
  have htiled := opcodes_tiled_and_toldApart.1 o ho
  obtain ⟨hfits, rfl⟩ := Op.patch_ok h
  have hdecode : ∀ w < span 32, o.fits w → decodeOp? w = some o := fun w hw hfits =>
    (decodeOp?_eq_some_iff hw).2 ⟨ho, hfits⟩
  refine ⟨⟨o, (o.opndsOf w).map ofNat, none⟩, ?_, rfl, ?_⟩
  · rw [Ins.decode, if_pos hw, hdecode w hw hfits]
    rfl
  · rw [Ins.decode, if_pos hw', hdecode _ hw' (htiled.fits_placed _), Option.map_some]
    simp only [o.opndsOf_map_ofNat, htiled.extract_set, hwidth]

def patchedOpnds : List (String × Nat × Nat) :=
  [("adrp", 1, 21), ("add_x_imm", 2, 13), ("b", 0, 26), ("bl", 0, 26)] ++
    conds.map fun c => ("b_" ++ c, 0, 19)

lemma patchedOpnds_width : ∀ p ∈ patchedOpnds, (findOp? p.1).all (fun o =>
    totalWidth ((o.fields.map Field.ranges).getD p.2.1 []) == p.2.2) := by
  decide +kernel

lemma patchNamed_altered (hname : (name, pos, width) ∈ patchedOpnds) (hw : w < span 32)
  (hw' : w' < span 32) (h : patchNamed name w pos v = .ok (w' : Int)) :
  Altered name pos (lowBits v width) w w' := by
  have hname := patchedOpnds_width _ hname
  obtain ⟨o, ho, h⟩ := bind_ok.1 h
  obtain ⟨n, hn, h⟩ := bind_ok.1 h
  rw [ofNat.inj (ok.inj h)] at hn
  have hfind := orFault_ok.1 ho
  have honame := @List.find?_some Op (fun o => o.name == name) o opcodes hfind
  rw [← beq_iff_eq.1 honame]
  rw [hfind, Option.all_some, beq_iff_eq] at hname
  exact Op.altered_of_patch (List.mem_of_find?_eq_some hfind) hname hw hw' hn

def branchTgt (width : Nat) (place opnd : Int) : Int := place + 4 * signedOf opnd width

def InReach (width : Nat) (place tgt : Int) : Prop :=
  4 ∣ tgt - place ∧ InRange width ((tgt - place) / 4)

def pageTgt (place opnd : Int) : Int := dropBits place 12 + signedOf opnd 21

def Branches (name : String) (width : Nat) (place tgt : Int) (w w' : Nat) : Prop :=
  ∃ opnd, Altered name 0 opnd w w' ∧ (branchTgt width place opnd = tgt ↔ InReach width place tgt)

def Resolved (kind : Nat) (place tgt : Int) (w w' : Nat) : Prop :=
  ∃ k : RelocKind, k.code = kind ∧
    match k with
    | .abs32 | .abs64 => (w' : Int) = tgt
    | .adrPrelPgHi21 => ∃ opnd, Altered "adrp" 1 opnd w w' ∧
      (pageTgt place opnd = dropBits tgt 12 ↔ InRange 21 (pageDist place tgt))
    | .addAbsLo12Nc => Altered "add_x_imm" 2 (lowBits tgt 12) w w'
    | .condBr19 => ∃ c ∈ conds, Branches ("b_" ++ c) 19 place tgt w w'
    | .jump26 => Branches "b" 26 place tgt w w'
    | .call26 => Branches "bl" 26 place tgt w w'

lemma branches_of_patchNamed (hwidth : 0 < width) (hname : (name, 0, width) ∈ patchedOpnds)
  (hw : w < span 32) (hw' : w' < span 32)
  (h : patchNamed name w 0 (branchDist place tgt) = .ok (w' : Int)) :
  Branches name width place tgt w w' := by
  refine ⟨_, patchNamed_altered hname hw hw' h, ?_⟩
  rw [branchTgt, branchDist, branch_eq_iff hwidth]
  rfl

lemma pageTgt_eq_iff (place tgt : Int) : pageTgt place (lowBits (pageDist place tgt) 21) =
  dropBits tgt 12 ↔ InRange 21 (pageDist place tgt) := by
  rw [pageTgt, InRange, ← signedOf_lowBits_eq_iff _ (by decide : 0 < 21), pageDist]
  omega

def refWidth (kind : Nat) : Nat := if kind == RelocKind.code .abs64 then 8 else 4

lemma resolved_of_resolveWord (hw : w < 256 ^ refWidth kind) (hw' : w' < 256 ^ refWidth kind)
  (h : resolveWord kind place tgt w = .ok (w' : Int)) : Resolved kind place tgt w w' := by
  unfold resolveWord at h
  split at h
  · rename_i hkind
    cases beq_iff_eq.1 hkind
    exact ⟨.adrPrelPgHi21, rfl, _, patchNamed_altered (by decide) hw hw' h,
      pageTgt_eq_iff place tgt⟩
  split at h
  · rename_i hkind
    cases beq_iff_eq.1 hkind
    have haltered := patchNamed_altered (by decide : ("add_x_imm", 2, 13) ∈ patchedOpnds) hw hw' h
    rw [lowBits_lowBits_of_le _ (by decide)] at haltered
    exact ⟨.addAbsLo12Nc, rfl, haltered⟩
  split at h
  · rename_i hkind
    cases beq_iff_eq.1 hkind
    obtain ⟨c, hc, h⟩ := bind_ok.1 h
    have hmem : c ∈ conds := List.mem_of_getElem? (orFault_ok.1 hc)
    exact ⟨.condBr19, rfl, c, hmem, branches_of_patchNamed (by decide)
        (List.mem_append_right _ (List.mem_map_of_mem hmem)) hw hw' h⟩
  split at h
  · rename_i hkind
    cases beq_iff_eq.1 hkind
    exact ⟨.jump26, rfl, branches_of_patchNamed (by decide) (by decide) hw hw' h⟩
  split at h
  · rename_i hkind
    cases beq_iff_eq.1 hkind
    exact ⟨.call26, rfl, branches_of_patchNamed (by decide) (by decide) hw hw' h⟩
  split at h
  · rename_i hkind
    rcases Bool.or_eq_true_iff.1 hkind with hkind | hkind
    · exact ⟨.abs32, (beq_iff_eq.1 hkind).symm, (ok.inj h).symm⟩
    · exact ⟨.abs64, (beq_iff_eq.1 hkind).symm, (ok.inj h).symm⟩
  · cases h

lemma refWidth_pos (kind : Nat) : 0 < refWidth kind := by
  rw [refWidth]
  split <;> decide

lemma linker_patches : linker.Patches refWidth Resolved := by
  intro kind off place tgt bytes bytes' h
  obtain ⟨hsize, w, hw, hresolve, hbytes⟩ := Asm.replaceWord_ok h
  exact ⟨refWidth_pos _, hsize, w, hw,
    resolved_of_resolveWord (Asm.wordAt_lt _ _ _) hw hresolve, hbytes⟩

end A64

/-! ## Linked units -/

/-- What linking makes of references that do not overlap. Each one has been resolved for the addresses
that the executable gives to its place and to its symbol. -/
theorem link_resolves {u : Asm.Unit} {withSyms : Bool} {e : Elf.Exe} :
  (A32.linker.link u withSyms = .ok e → u.Separate (fun _ => 4) →
    ∀ r ∈ u.references, A32.Resolved r.kind (u.placeIn e r) (u.tgtIn e r)
      (u.wordOf (fun _ => 4) r) (u.wordIn (fun _ => 4) e r)) ∧
  (A64.linker.link u withSyms = .ok e → u.Separate A64.refWidth →
    ∀ r ∈ u.references, A64.Resolved r.kind (u.placeIn e r) (u.tgtIn e r)
      (u.wordOf A64.refWidth r) (u.wordIn A64.refWidth e r)) :=
  ⟨Asm.Linker.link_patches A32.linker_patches, Asm.Linker.link_patches A64.linker_patches⟩

def lone (word : Image) (kind symbol : Nat) (addend : Int) : Asm.Unit where
  text := { align := 4, bytes := word }
  syms := #[⟨"_start", false, some .text, 0⟩, ⟨"missing", false, none, -1⟩]
  references := #[⟨kind, .text, 0, symbol, addend⟩]
  globals := [("missing", 1), ("_start", 0)]

def selfCall : Asm.Unit := lone #[0, 0, 0, 0xeb] (A32.RelocKind.code .call) 0 0
def selfBranch : Asm.Unit := lone #[0, 0, 0, 0x14] (A64.RelocKind.code .jump26) 0 0

/-- A call to the third byte of itself. -/
def skewedCall : Asm.Unit := lone #[0, 0, 0, 0xeb] (A32.RelocKind.code .call) 0 2
def strayWord : Asm.Unit := lone #[0, 0, 0, 0] (A32.RelocKind.code .abs32) 1 5

lemma exists_ok {α : Type} {x : Res α} (h : x.toBool) : ∃ a, x = .ok a := by
  cases x with
  | error f => cases h
  | ok a => exact ⟨a, rfl⟩

theorem lone_resolves : (∃ e, A32.linker.link selfCall false = .ok e ∧ ∀ r ∈ selfCall.references,
    A32.Resolved r.kind (selfCall.placeIn e r) (selfCall.tgtIn e r)
      (selfCall.wordOf (fun _ => 4) r) (selfCall.wordIn (fun _ => 4) e r)) ∧
  (∃ e, A64.linker.link selfBranch false = .ok e ∧ ∀ r ∈ selfBranch.references,
    A64.Resolved r.kind (selfBranch.placeIn e r) (selfBranch.tgtIn e r)
      (selfBranch.wordOf A64.refWidth r) (selfBranch.wordIn A64.refWidth e r)) := by
  constructor
  · obtain ⟨e, he⟩ := exists_ok (x := A32.linker.link selfCall false) (by decide +kernel)
    exact ⟨e, he, link_resolves.1 he (by decide)⟩
  · obtain ⟨e, he⟩ := exists_ok (x := A64.linker.link selfBranch false) (by decide +kernel)
    exact ⟨e, he, link_resolves.2 he (by decide)⟩

/-- A call to the third byte of a function goes to its first one, and a reference to a symbol that is
not defined is resolved as if the symbol were at address `-1`. -/
theorem link_accepts_lost_tgts :
  (∃ e, A32.linker.link skewedCall false = .ok e ∧ ∀ r ∈ skewedCall.references, ∃ opnd,
    A32.Altered "bl" 1 opnd (skewedCall.wordOf (fun _ => 4) r)
      (skewedCall.wordIn (fun _ => 4) e r) ∧
    A32.branchTgt (skewedCall.placeIn e r) opnd ≠ skewedCall.tgtIn e r) ∧
  (∃ e, A32.linker.link strayWord false = .ok e ∧ ∀ r ∈ strayWord.references,
    strayWord.wordIn (fun _ => 4) e r = 4) := by
  constructor
  · obtain ⟨e, he⟩ := exists_ok (x := A32.linker.link skewedCall false) (by decide +kernel)
    refine ⟨e, he, fun r hr => ?_⟩
    obtain ⟨k, hk, hresolved⟩ := Asm.Linker.link_patches A32.linker_patches he (by decide) r hr
    cases List.mem_singleton.1 (Array.mem_toList_iff.2 hr)
    cases k with
    | call =>
      obtain ⟨opnd, haltered, hreach⟩ := hresolved
      refine ⟨opnd, haltered, fun heq => ?_⟩
      -- The distance from two instructions ahead is -6.
      have hdvd := (hreach.1 heq).1
      have hdistance : skewedCall.tgtIn e ⟨A32.RelocKind.code .call, .text, 0, 0, 2⟩ -
          (skewedCall.placeIn e ⟨A32.RelocKind.code .call, .text, 0, 0, 2⟩ + 8) = -6 := by
        simp only [Asm.Unit.tgtIn, Asm.Unit.placeIn, Asm.Unit.valueIn, skewedCall,
          lone, List.getElem?_toArray, List.getElem?_cons_zero]
        omega
      rw [hdistance] at hdvd
      omega
    | _ => cases hk
  · obtain ⟨e, he⟩ := exists_ok (x := A32.linker.link strayWord false) (by decide +kernel)
    refine ⟨e, he, fun r hr => ?_⟩
    obtain ⟨k, hk, hresolved⟩ := Asm.Linker.link_patches A32.linker_patches he (by decide) r hr
    cases List.mem_singleton.1 (Array.mem_toList_iff.2 hr)
    cases k with
    | abs32 => exact Int.ofNat.inj hresolved
    | _ => cases hk

end Retarget
