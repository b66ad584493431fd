import Mathlib.Data.List.Induction
import Mathlib.Data.Nat.Bitwise
import Mathlib.Tactic.Ring
import Retarget.Proofs.Control

/-!
# Integer arithmetic

What integer instructions compute: results wrap around to the width of their kind, and shift amounts
count modulo that width. The laws replace one instruction by a cheaper one.
-/

namespace Retarget.IR
open Int Lit Nat
variable {w : Nat}

/-! ## Bits -/

lemma span_eq (w : Nat) : span w = 2 ^ w := by rw [span, Nat.shiftLeft_eq, Nat.one_mul]

section
variable (n : Int)

lemma andInt_mask (w : Nat) : andInt n ((2 ^ w - 1 : Nat) : Int) = n % (2 ^ w : Nat) := by
  have hpos : 0 < 2 ^ w := Nat.two_pow_pos w
  cases n with
  | ofNat a =>
    show ((a &&& (2 ^ w - 1) : Nat) : Int) = _
    rw [and_two_pow_sub_one_eq_mod]
    rfl
  | negSucc a =>
    show (((2 ^ w - 1) - (a &&& (2 ^ w - 1)) : Nat) : Int) = _
    rw [and_two_pow_sub_one_eq_mod, negSucc_emod _ (by exact_mod_cast hpos)]
    omega

lemma andInt_neg_one : andInt n (-1) = n := by
  cases n with
  | ofNat a => show ((a - (a &&& 0) : Nat) : Int) = a; simp
  | negSucc a => show negSucc (a ||| 0) = _; rw [or_zero]

lemma neg_one_andInt : andInt (-1) n = n := by
  cases n with
  | ofNat a => show ((a - (0 &&& a) : Nat) : Int) = a; simp
  | negSucc a => show negSucc (0 ||| a) = _; rw [zero_or]

lemma andInt_zero : andInt n 0 = 0 := by
  cases n with
  | ofNat a => show ((a &&& 0 : Nat) : Int) = 0; simp
  | negSucc a => show ((0 - (a &&& 0) : Nat) : Int) = 0; simp

lemma zero_andInt : andInt 0 n = 0 := by
  cases n with
  | ofNat a => show ((0 &&& a : Nat) : Int) = 0; simp
  | negSucc a => show ((0 - (0 &&& a) : Nat) : Int) = 0; simp

lemma andInt_self : andInt n n = n := by
  cases n with
  | ofNat a => show ((a &&& a : Nat) : Int) = a; rw [Nat.and_self]
  | negSucc a => show negSucc (a ||| a) = _; rw [Nat.or_self]

lemma notInt_notInt : notInt (notInt n) = n := by
  unfold notInt
  omega

lemma andInt_notInt : andInt n (notInt n) = 0 := by
  cases n with
  | ofNat a =>
    have h : notInt (.ofNat a) = .negSucc a := by simp only [notInt, ofNat_eq_natCast]; omega
    rw [h]
    show ((a - (a &&& a) : Nat) : Int) = 0
    simp
  | negSucc a =>
    have h : notInt (.negSucc a) = .ofNat a := by simp only [notInt, ofNat_eq_natCast]; omega
    rw [h]
    show ((a - (a &&& a) : Nat) : Int) = 0
    simp

lemma orInt_zero : orInt n 0 = n := by
  rw [orInt, show notInt 0 = -1 from rfl, andInt_neg_one, notInt_notInt]

lemma zero_orInt : orInt 0 n = n := by
  rw [orInt, show notInt 0 = -1 from rfl, neg_one_andInt, notInt_notInt]

lemma xorInt_zero : xorInt n 0 = n := by
  rw [xorInt, orInt_zero, andInt_zero, show notInt 0 = -1 from rfl, andInt_neg_one]

lemma zero_xorInt : xorInt 0 n = n := by
  rw [xorInt, zero_orInt, zero_andInt, show notInt 0 = -1 from rfl, andInt_neg_one]

lemma xorInt_self : xorInt n n = 0 := by
  rw [xorInt, orInt, andInt_self, notInt_notInt, andInt_self, andInt_notInt]

end

/-- A number other than zero without two bits set is a power of two. -/
lemma eq_two_pow_of_andInt {n : Int} (hne : n ≠ 0) (h : andInt n (n - 1) = 0) :
  0 < n ∧ n = (2 ^ log2 n.toNat : Nat) := by
  cases n with
  | negSucc a =>
    cases h
  | ofNat a =>
    have ha : a ≠ 0 := fun h0 => hne (by rw [h0]; rfl)
    rw [show ofNat a - 1 = .ofNat (a - 1) by simp only [ofNat_eq_natCast]; omega] at h
    obtain ⟨w, hw⟩ := (and_sub_one_eq_zero_iff_isPowerOfTwo ha).1 (ofNat.inj h)
    subst hw
    have hnat : (ofNat (2 ^ w)).toNat = 2 ^ w := rfl
    rw [hnat, log2_two_pow]
    exact ⟨natCast_pos.2 (Nat.two_pow_pos w), rfl⟩

/-! ## Numbers of a kind -/

def Kind.Spans (k : Kind) (n : Int) : Prop := inRange (k.flavor == .unsigned) k.bits n
instance (k : Kind) (n : Int) : Decidable (k.Spans n) := inferInstanceAs (Decidable (_ = true))
def Lit.Proper (c : Lit) : Prop := c = .ofInt c.kind c.number ∧ c.kind.Spans c.number
instance (c : Lit) : Decidable c.Proper := inferInstanceAs (Decidable (_ ∧ _))

section
variable {k : Kind} {n : Int}

lemma Kind.bits_eq (k : Kind) : ∃ w, k.bits = 2 ^ w ∧ w ≤ 6 := by
  cases k
  case s8 | u8 | f8 | invalid => exact ⟨3, rfl, by decide⟩
  case s16 | u16 | f16 => exact ⟨4, rfl, by decide⟩
  case s32 | u32 | f32 | a32 | c32 => exact ⟨5, rfl, by decide⟩
  case s64 | u64 | f64 | a64 | c64 => exact ⟨6, rfl, by decide⟩

lemma Kind.isFloat_of_isInt (h : k.isInt) : k.isFloat = false := by
  cases k <;> first | rfl | cases h

lemma signedOf_of_inRange (hw : 0 < w) (h : inRange false w n) : signedOf n w = n := by
  obtain ⟨v, rfl⟩ : ∃ v, w = v + 1 := ⟨w - 1, by omega⟩
  have hspan : span (v + 1) = 2 * span v := by rw [span_eq, span_eq, pow_succ, mul_comm]
  simp only [inRange, Bool.false_eq_true, if_false] at h
  simp only [signedOf, lowBits, Nat.add_sub_cancel]
  split at h
  · have hlt : n < span v := by simpa using h
    have hmod : n % (span (v + 1) : Nat) = n := emod_eq_of_lt ‹_› (by omega)
    rw [hmod, if_neg (by omega)]
  · have hle : -n ≤ span v := by simpa using h
    have hmod : n % (span (v + 1) : Nat) = n + span (v + 1) := by
      rw [← add_emod_right, emod_eq_of_lt (by omega) (by omega)]
    omega

/-- A number in range is not changed by wrapping around. -/
lemma wrap_of_spans (hk : k.isFloat = false) (h : k.Spans n) : wrap k n = n := by
  have hpos : 0 < k.bits := by cases k <;> decide
  unfold wrap
  split
  · rename_i hfloat
    simp [Kind.isFloat, hfloat] at hk
  · rename_i huns
    simp only [Kind.Spans, huns, inRange, beq_self_eq_true, if_true, Bool.and_eq_true,
      decide_eq_true_eq] at h
    exact emod_eq_of_lt h.1 h.2
  · rename_i hflavor huns
    have hne : (k.flavor == .unsigned) = false := by simpa using huns
    rw [Kind.Spans, hne] at h
    exact signedOf_of_inRange hpos h

lemma spans_zero (k : Kind) : k.Spans 0 := by cases k <;> decide

lemma spans_of_lt_bits (h0 : 0 ≤ n) (hn : n < k.bits) : k.Spans n := by
  cases k <;> simp only [Kind.bits] at hn <;>
    simp [Kind.Spans, Kind.flavor, inRange, Kind.bits, span_eq, h0] <;> omega

end

/-! ## What integer instructions compute -/

/-- The result of an instruction on integers of kind `k`, before it wraps around, where it is settled.
Inexact quotients are not, nor is division by zero or by minus one. -/
def Op.result? (op : Op) (k : Kind) (x y : Int) : Option Int :=
  match op with
  | .add => some (x + y)
  | .sub => some (x - y)
  | .mul => some (x * y)
  | .div => if y ≠ 0 ∧ y ≠ -1 ∧ y ∣ x then some (x / y) else none
  | .and => some (andInt x y)
  | .or => some (orInt x y)
  | .xor => some (xorInt x y)
  | .shl => some (x * (2 ^ (y % k.bits).toNat : Nat))
  | .shr => some (x / (2 ^ (y % k.bits).toNat : Nat))
  | _ => none

/-- Integer instructions compute what they should, and wrap around. -/
def Sem.Wraps (m : Sem) : Prop :=
  ∀ op k x y v, k.isInt → k.Spans x → k.Spans y → op.result? k x y = some v →
    m.alu op (.ofInt k x) (.ofInt k y) = .ofInt k (wrap k v)

namespace Sem.Wraps
variable {m : Sem} {k : Kind} {op : Op} {x y : Int}

section
variable (hm : m.Wraps) (hk : k.isInt) (hx : k.Spans x)
include hm hk hx

lemma alu_of_result (hy : k.Spans y) {v : Int} (hv : op.result? k x y = some v)
  (hspans : k.Spans v) : m.alu op (.ofInt k x) (.ofInt k y) = .ofInt k v := by
  rw [hm op k x y v hk hx hy hv, wrap_of_spans (Kind.isFloat_of_isInt hk) hspans]

lemma alu_shift (hy : k.Spans y) (hop : op = .shl ∨ op = .shr) :
  m.alu op (.ofInt k x) (.ofInt k (y % k.bits)) = m.alu op (.ofInt k x) (.ofInt k y) := by
  have hbits : 0 < (k.bits : Int) := by cases k <;> decide
  have hspans : k.Spans (y % k.bits) :=
    spans_of_lt_bits (emod_nonneg _ (by omega)) (emod_lt_of_pos _ hbits)
  have hmod : y % k.bits % k.bits = y % k.bits := emod_emod_of_dvd _ (dvd_refl _)
  rcases hop with rfl | rfl
  · rw [hm .shl k x _ _ hk hx hspans rfl, hm .shl k x y _ hk hx hy rfl, hmod]
  · rw [hm .shr k x _ _ hk hx hspans rfl, hm .shr k x y _ hk hx hy rfl, hmod]

lemma mul_two_pow (hw : k.Spans (2 ^ w : Nat)) : m.alu .shl (.ofInt k x) (.ofInt k w) =
  m.alu .mul (.ofInt k x) (.ofInt k (2 ^ w : Nat)) := by
  have hlt : w < k.bits := by
    have hpow : 2 ^ w < 2 ^ k.bits := by
      simp only [Kind.Spans, inRange, span_eq] at hw
      split at hw
      · have := (Bool.and_eq_true _ _ ▸ hw).2
        exact_mod_cast of_decide_eq_true this
      · have hhalf : 2 ^ w < 2 ^ (k.bits - 1) := by exact_mod_cast of_decide_eq_true hw
        exact hhalf.trans_le (Nat.pow_le_pow_right (by decide) (Nat.sub_le _ _))
    exact (Nat.pow_lt_pow_iff_right (by decide)).1 hpow
  have hspans : k.Spans (w : Int) := spans_of_lt_bits (natCast_nonneg _) (by exact_mod_cast hlt)
  have hmod : ((w : Int) % k.bits).toNat = w := by
    rw [emod_eq_of_lt (natCast_nonneg _) (by exact_mod_cast hlt), toNat_natCast]
  rw [hm .shl k x w _ hk hx hspans rfl, hm .mul k x _ _ hk hx hw rfl, hmod]

lemma two_pow_mul (hw : k.Spans (2 ^ w : Nat)) : m.alu .shl (.ofInt k x) (.ofInt k w) =
  m.alu .mul (.ofInt k (2 ^ w : Nat)) (.ofInt k x) := by
  rw [hm.mul_two_pow hk hx hw, hm .mul k x _ _ hk hx hw rfl, hm .mul k _ x _ hk hw hx rfl, mul_comm]

lemma alu_keeps_first (hy : k.Spans y)
  (h : (op = .add ∨ op = .sub ∨ op = .shl ∨ op = .shr ∨ op = .or ∨ op = .xor) ∧ y = 0 ∨
    (op = .mul ∨ op = .div) ∧ y = 1) : m.alu op (.ofInt k x) (.ofInt k y) = .ofInt k x := by
  refine hm.alu_of_result hk hx hy ?_ hx
  rcases h with ⟨rfl | rfl | rfl | rfl | rfl | rfl, rfl⟩ | ⟨rfl | rfl, rfl⟩ <;>
    simp [Op.result?, orInt_zero, xorInt_zero]

lemma alu_keeps_second (hy : k.Spans y)
  (h : (op = .add ∨ op = .or ∨ op = .xor) ∧ x = 0 ∨ op = .mul ∧ x = 1) :
  m.alu op (.ofInt k x) (.ofInt k y) = .ofInt k y := by
  refine hm.alu_of_result hk hx hy ?_ hy
  rcases h with ⟨rfl | rfl | rfl, rfl⟩ | ⟨rfl, rfl⟩ <;> simp [Op.result?, zero_orInt, zero_xorInt]

lemma alu_zero (hy : k.Spans y)
  (h : (op = .xor ∨ op = .sub) ∧ x = y ∨ (op = .shl ∨ op = .shr ∨ op = .mul) ∧ x = 0 ∨
    op = .mul ∧ y = 0) : m.alu op (.ofInt k x) (.ofInt k y) = .ofInt k 0 := by
  refine hm.alu_of_result hk hx hy ?_ (spans_zero k)
  rcases h with ⟨rfl | rfl, rfl⟩ | ⟨rfl | rfl | rfl, rfl⟩ | ⟨rfl, rfl⟩ <;>
    simp [Op.result?, xorInt_self]

end
end Sem.Wraps

/-! ## Evaluation -/

variable {k : Kind} {op : Op} {x y v : Int}

lemma spans_wrap (hk : k.isInt) (v : Int) :
  k.Spans (wrap k v) ∧ (2 ^ k.bits : Int) ∣ v - wrap k v := by
  cases k <;> cases hk <;> simp [Kind.Spans, Kind.flavor, inRange, Kind.bits, span_eq, wrap,
    signedOf, lowBits] <;> grind

/-- Integers are computed as they should be if shift amounts are within the width, and results wrap
around. Quotients are rounded down. -/
theorem evalAlu_wraps (hk : k.isInt = true) (hop : op ≠ .shr)
  (hshl : op = .shl → 0 ≤ y ∧ y < k.bits)
  (hv : op.result? k x y = some v ∨ op = .div ∧ y ≠ 0 ∧ v = x.fdiv y) :
  evalAlu op (.ofInt k x) (.ofInt k y) = .ok (.ofInt k (wrap k v)) ∧ k.Spans (wrap k v) ∧
    (2 ^ k.bits : Int) ∣ v - wrap k v := by
  have hdiv (hy : y ≠ 0) : evalAlu .div (.ofInt k x) (.ofInt k y) =
      .ok (.ofInt k (wrap k (x.fdiv y))) := by
    have hquotient : divScalars (.int x) (.int y) = .ok (.int (x.fdiv y)) := by
      simp [divScalars, Scalar.isZero, Scalar.same, hy, onScalars]
    rw [evalAlu, ofInt, ofInt, hquotient]
    rfl
  refine ⟨?_, spans_wrap hk v⟩
  rcases hv with hv | ⟨rfl, hy, rfl⟩
  · unfold Op.result? at hv
    split at hv
    case h_4 =>
      split at hv
      · rename_i hy
        cases hv
        rw [hdiv hy.1, fdiv_eq_ediv_of_dvd hy.2.2]
      · cases hv
    case h_8 =>
      obtain ⟨h0, hlt⟩ := hshl rfl
      obtain ⟨n, rfl⟩ := eq_ofNat_of_zero_le h0
      cases hv
      have hbits : n < span 40 := (by exact_mod_cast hlt : n < k.bits).trans (by cases k <;> decide)
      have hshift : shiftLeft k.bits (.int x) (.int n) = .ok (.int (x * (2 ^ n : Nat))) := by
        by_cases hx : x = 0 <;>
          simp [shiftLeft, hx, hlt.not_ge, hbits.not_ge, Int.not_lt.2, ← span_eq]
      rw [evalAlu, ofInt, ofInt, hshift, emod_eq_of_lt h0 hlt]
      rfl
    case h_9 => exact absurd rfl hop
    all_goals cases hv <;> rfl
  · exact hdiv hy

theorem evalAlu_wraps_neg : Kind.s32.isInt = true ∧
  evalAlu .div (.ofInt .s32 (-7)) (.ofInt .s32 2) = .ok (.ofInt .s32 (-4)) :=
  ⟨rfl, (@evalAlu_wraps .s32 .div (-7) 2 _ rfl nofun nofun (.inr ⟨rfl, by decide, rfl⟩)).1⟩

lemma trailingZeros_dvd {v fuel p : Nat} (hv : v ≠ 0) (hfuel : v.log2 < p + fuel) (h : 2 ^ p ∣ v) :
  2 ^ (p + trailingZeros v fuel p) ∣ v ∧ ¬ 2 ^ (p + trailingZeros v fuel p + 1) ∣ v := by
  induction fuel generalizing p with
  | zero => exact absurd (eq_zero_of_dvd_of_lt h ((log2_lt hv).1 hfuel)) hv
  | succ fuel ih =>
    have hbit : v.testBit p ↔ ¬ 2 ^ (p + 1) ∣ v := by
      obtain ⟨q, rfl⟩ := h
      rw [pow_succ, Nat.mul_dvd_mul_iff_left (Nat.two_pow_pos p), Nat.testBit_eq_decide_div_mod_eq,
        Nat.mul_div_cancel_left q (Nat.two_pow_pos p), decide_eq_true_eq]
      omega
    rw [trailingZeros]
    split
    · exact ⟨h, hbit.1 ‹_›⟩
    · have hnext := ih (by omega) (not_not.1 (mt hbit.2 ‹_›))
      rwa [add_right_comm, add_assoc] at hnext

/-- Zeros at the end of a number are counted, whatever its sign. -/
theorem evalAlu1_cnttz (k : Kind) (n : Int) :
  ∃ t : Nat, evalAlu1 .cnttz (.ofInt k n) = .ok (.ofInt k (wrap k t)) ∧ (n = 0 → t = k.bits) ∧
    (n ≠ 0 → (2 ^ t : Int) ∣ n ∧ ¬ (2 ^ (t + 1) : Int) ∣ n) := by
  refine ⟨countTrailing k.bits n, rfl, fun h0 => if_pos h0, fun h0 => ?_⟩
  have ht := trailingZeros_dvd (natAbs_ne_zero.2 h0)
    (Nat.lt_add_left 0 (Nat.lt_succ_self _)) (one_dvd _)
  rw [countTrailing, if_neg h0]
  rw [zero_add, ← natCast_dvd, ← natCast_dvd] at ht
  exact_mod_cast ht

/-- Ones at its beginning are counted, not zeros. -/
theorem evalAlu1_cntlz_ones : evalAlu1 .cntlz (.ofInt .u8 0xe1) = .ok (.ofInt .u8 3) := rfl

end Retarget.IR

/-! ## Operands in words

Reading an operand and placing it undo each other: what is placed is read up to the width of the
operand, and placing what was read gives the bits it was read from. -/

namespace Retarget.Enc
open List Int Nat
open IR (span_eq)
variable {rss : List (List BitRange)} {rs : List BitRange} {vs : List Int} {a b m size w w' : Nat}
  {p : Pat}

/-! ## Low bits -/

lemma lowBits_nonneg (v : Int) (k : Nat) : 0 ≤ lowBits v k :=
  emod_nonneg v (by exact_mod_cast ne_of_gt (span_pos k))

lemma lowBits_lt (v : Int) (k : Nat) : lowBits v k < span k :=
  emod_lt_of_pos v (by exact_mod_cast span_pos k)

lemma toNat_lowBits_lt (v : Int) (k : Nat) : (lowBits v k).toNat < span k := by
  have := lowBits_nonneg v k
  have := lowBits_lt v k
  omega

lemma lowBits_add (v : Int) (j k : Nat) :
  lowBits v (j + k) = span k * lowBits (dropBits v k) j + lowBits v k := by
  have hk : (0 : Int) < span k := by exact_mod_cast span_pos k
  have hspan : ((span (j + k) : Nat) : Int) = span k * span j := by
    rw [span_eq, span_eq, span_eq, pow_add, mul_comm]
    push_cast
    rfl
  rw [lowBits, lowBits, lowBits, dropBits, hspan, emod_def, emod_def v, emod_def (v / _),
    ← ediv_ediv_of_nonneg (le_of_lt hk)]
  ring

/-! ## One range -/

namespace BitRange
section
variable (r : BitRange)

lemma testBit_mask (i : Nat) :
  r.mask.testBit i = (decide (r.pos ≤ i) && decide (i < r.pos + r.width)) := by
  rw [mask, span_eq, testBit_shiftLeft, testBit_two_pow_sub_one]
  by_cases h : r.pos ≤ i
  · have hiff : i - r.pos < r.width ↔ i < r.pos + r.width := by omega
    simp only [hiff]
  · simp [h]

lemma get_shiftLeft (w : Nat) : r.get w <<< r.pos = w &&& r.mask := by
  apply eq_of_testBit_eq
  intro i
  rw [testBit_and, r.testBit_mask, get, span_eq, testBit_shiftLeft, testBit_mod_two_pow]
  by_cases h : r.pos ≤ i
  · have hiff : i - r.pos < r.width ↔ i < r.pos + r.width := by omega
    have hi : r.pos + (i - r.pos) = i := by omega
    simp [h, hiff, Bool.and_comm]
  · simp [h]

lemma put_natCast (n : Nat) : r.put n = (n % span r.width) <<< r.pos := by
  rw [put, lowBits, ← natCast_emod, toNat_natCast]

lemma get_put (v : Int) : r.get (r.put v) = (lowBits v r.width).toNat := by
  rw [get, put, shiftLeft_shiftRight, mod_eq_of_lt (toNat_lowBits_lt v r.width)]

lemma get_and_mask (w : Nat) : r.get (w &&& r.mask) = r.get w := by
  rw [← r.get_shiftLeft, get, shiftLeft_shiftRight, mod_eq_of_lt (r.get_lt w)]

lemma get_congr (h : w &&& r.mask = w' &&& r.mask) : r.get w = r.get w' := by
  rw [← r.get_and_mask, h, r.get_and_mask]

lemma put_and_mask (v : Int) : r.put v &&& r.mask = r.put v := by
  rw [← r.get_shiftLeft, r.get_put]
  rfl

end
end BitRange

/-! ## One operand -/

def covered (rs : List BitRange) : Nat := rs.foldl (fun m r => m ||| r.mask) 0

section
variable (rs : List BitRange) (r : BitRange)

lemma covered_concat : covered (rs ++ [r]) = covered rs ||| r.mask := by
  rw [covered, foldl_append]
  rfl

lemma extract_concat (w : Nat) : extract (rs ++ [r]) w = extract rs w <<< r.width ||| r.get w := by
  rw [extract, foldl_append]
  rfl

lemma insert_concat (v : Int) :
  insert (rs ++ [r]) v = r.put v ||| insert rs (dropBits v r.width) := by
  rw [insert, reverse_append]
  rfl

lemma totalWidth_concat : totalWidth (rs ++ [r]) = totalWidth rs + r.width := by
  rw [totalWidth, map_append, foldl_append]
  rfl

lemma extract_concat_eq (w : Nat) :
  extract (rs ++ [r]) w = span r.width * extract rs w + r.get w := by
  have hlt : r.get w < 2 ^ r.width := by
    rw [← span_eq]
    exact r.get_lt w
  rw [extract_concat, ← Nat.shiftLeft_add_eq_or_of_lt hlt, Nat.shiftLeft_eq, span_eq, Nat.mul_comm]

end

/-- What is read from a word and placed again is the bits that were read. -/
lemma insert_extract (rs : List BitRange) (w : Nat) :
  insert rs (extract rs w) = w &&& covered rs := by
  induction rs using reverseRecOn with
  | nil => exact (and_zero w).symm
  | append_singleton rs r ih =>
    have hlow : extract (rs ++ [r]) w % span r.width = r.get w := by
      rw [extract_concat_eq, mul_add_mod, mod_eq_of_lt (r.get_lt w)]
    have hhigh : dropBits (extract (rs ++ [r]) w) r.width = extract rs w := by
      rw [dropBits, ← natCast_div, extract_concat_eq, mul_add_div (span_pos _),
        div_eq_of_lt (r.get_lt w), add_zero]
    rw [insert_concat, r.put_natCast, hlow, hhigh, ih, covered_concat, r.get_shiftLeft,
      Nat.and_or_distrib_left, Nat.or_comm]

lemma and_eq_of_and_or (h : w &&& (a ||| b) = w' &&& (a ||| b)) : w &&& a = w' &&& a := by
  have ha : (a ||| b) &&& a = a := by
    apply eq_of_testBit_eq
    intro i
    rw [testBit_and]
    grind
  rw [← ha, ← Nat.and_assoc, h, Nat.and_assoc]

lemma extract_congr (rs : List BitRange) (h : w &&& covered rs = w' &&& covered rs) :
  extract rs w = extract rs w' := by
  induction rs using reverseRecOn with
  | nil => rfl
  | append_singleton rs r ih =>
    rw [covered_concat] at h
    have hrs : w &&& covered rs = w' &&& covered rs := and_eq_of_and_or h
    have hr : w &&& r.mask = w' &&& r.mask := by
      rw [Nat.or_comm] at h
      exact and_eq_of_and_or h
    rw [extract_concat, extract_concat, ih hrs, r.get_congr hr]

lemma insert_and_covered (rs : List BitRange) (v : Int) :
  insert rs v &&& covered rs = insert rs v := by
  induction rs using reverseRecOn generalizing v with
  | nil => exact and_zero _
  | append_singleton rs r ih =>
    rw [insert_concat, covered_concat, ← r.put_and_mask v]
    apply eq_of_testBit_eq
    intro i
    simp only [testBit_or]
    grind

lemma or_and_of_disjoint (h : b &&& m = 0) : (a ||| b) &&& m = a &&& m := by
  rw [and_or_distrib_right, h, or_zero]

/-- No two ranges have a bit in common. -/
def Apart (rs : List BitRange) : Prop := rs.Pairwise fun r s => r.mask &&& s.mask = 0
instance (rs : List BitRange) : Decidable (Apart rs) := inferInstanceAs (Decidable (rs.Pairwise _))

lemma covered_and_of_forall (h : ∀ r ∈ rs, r.mask &&& m = 0) : covered rs &&& m = 0 := by
  induction rs using reverseRecOn with
  | nil => exact zero_and m
  | append_singleton rs r ih =>
    have hr := h r (mem_append_right _ (.head _))
    have hrs := ih fun s hs => h s (mem_append_left _ hs)
    rw [covered_concat, and_or_distrib_right, hrs, hr, or_zero]

/-- What is placed is read again, up to the width of the operand. -/
lemma extract_insert (h : Apart rs) (v : Int) :
  (extract rs (insert rs v) : Int) = lowBits v (totalWidth rs) := by
  induction rs using reverseRecOn generalizing v with
  | nil =>
    show (0 : Int) = v % ((1 : Nat) : Int)
    omega
  | append_singleton rs r ih =>
    obtain ⟨hrs, -, hr⟩ := pairwise_append.1 h
    have hdisj : covered rs &&& r.mask = 0 :=
      covered_and_of_forall fun s hs => hr s hs r (.head _)
    -- Neither part of what is placed gets in the way of the other.
    have hlow : r.put v &&& covered rs = 0 := by
      rw [← r.put_and_mask, Nat.and_assoc, Nat.and_comm r.mask, hdisj, Nat.and_zero]
    have hhigh : insert rs (dropBits v r.width) &&& r.mask = 0 := by
      rw [← insert_and_covered, Nat.and_assoc, hdisj, Nat.and_zero]
    have hget : r.get (r.put v ||| insert rs (dropBits v r.width)) = (lowBits v r.width).toNat := by
      rw [← r.get_put]
      exact r.get_congr (or_and_of_disjoint hhigh)
    have hrest : extract rs (r.put v ||| insert rs (dropBits v r.width)) =
        extract rs (insert rs (dropBits v r.width)) := by
      rw [Nat.or_comm]
      exact extract_congr rs (or_and_of_disjoint hlow)
    rw [insert_concat, extract_concat_eq, hget, hrest, totalWidth_concat, lowBits_add,
      ← ih hrs (dropBits v r.width)]
    push_cast
    rw [toNat_of_nonneg (lowBits_nonneg v r.width)]

/-! ## Whole words -/

def placed : List (List BitRange) → List Int → Nat
  | rs :: rss, v :: vs => insert rs v ||| placed rss vs
  | _, _ => 0

def coveredAll : List (List BitRange) → Nat
  | [] => 0
  | rs :: rss => covered rs ||| coveredAll rss

/-- Fixed bits and operands share the low `size` bits of a word among them. -/
structure Tiled (size : Nat) (p : Pat) (rss : List (List BitRange)) : Prop where
  value : p.value &&& p.mask = p.value
  whole : p.mask ||| coveredAll rss = 2 ^ size - 1
  within : ∀ rs ∈ rss, Apart rs
  apart : (p.mask :: rss.map covered).Pairwise fun m n => m &&& n = 0

instance (size : Nat) (p : Pat) (rss : List (List BitRange)) : Decidable (Tiled size p rss) :=
  decidable_of_iff ((p.value &&& p.mask = p.value ∧ p.mask ||| coveredAll rss = 2 ^ size - 1) ∧
      (∀ rs ∈ rss, Apart rs) ∧ (p.mask :: rss.map covered).Pairwise fun m n => m &&& n = 0)
    ⟨fun h => ⟨h.1.1, h.1.2, h.2.1, h.2.2⟩, fun h => ⟨⟨h.value, h.whole⟩, h.within, h.apart⟩⟩

lemma placed_extract (rss : List (List BitRange)) (w : Nat) :
  placed rss (rss.map fun rs => (extract rs w : Int)) = w &&& coveredAll rss := by
  induction rss with
  | nil => exact (and_zero w).symm
  | cons rs rss ih => rw [map_cons, placed, ih, insert_extract, coveredAll, and_or_distrib_left]

lemma Tiled.placed_extract (h : Tiled size p rss) (hw : w < 2 ^ size) (hfits : p.fits w) :
  p.value ||| placed rss (rss.map fun rs => (extract rs w : Int)) = w := by
  rw [Enc.placed_extract, ← beq_iff_eq.1 hfits, ← and_or_distrib_left, h.whole,
    and_two_pow_sub_one_eq_mod, mod_eq_of_lt hw]

lemma placed_and_of_forall (h : ∀ rs ∈ rss, covered rs &&& m = 0) (vs : List Int) :
  placed rss vs &&& m = 0 := by
  induction rss generalizing vs with
  | nil => exact zero_and m
  | cons rs rss ih =>
    obtain ⟨hrs, hrss⟩ := forall_mem_cons.1 h
    cases vs with
    | nil => exact zero_and m
    | cons v vs =>
      rw [placed, Nat.and_or_distrib_right, ih hrss, ← insert_and_covered, Nat.and_assoc, hrs,
        and_zero, or_zero]

lemma Tiled.fits_placed (h : Tiled size p rss) (vs : List Int) :
  p.fits (p.value ||| placed rss vs) := by
  have hdisj : ∀ rs ∈ rss, covered rs &&& p.mask = 0 := by
    intro rs hrs
    rw [Nat.and_comm]
    exact (pairwise_cons.1 h.apart).1 _ (mem_map_of_mem hrs)
  rw [Pat.fits, or_and_of_disjoint (placed_and_of_forall hdisj vs), h.value]
  exact beq_self_eq_true _

/-- What is placed beside other operands is read again. -/
lemma extract_placed (hwithin : ∀ rs ∈ rss, Apart rs)
  (hapart : (rss.map covered).Pairwise fun m n => m &&& n = 0) (hlen : vs.length = rss.length) :
  (rss.map fun rs => (extract rs (placed rss vs) : Int)) =
    zipWith (fun rs v => lowBits v (totalWidth rs)) rss vs := by
  induction rss generalizing vs with
  | nil => rfl
  | cons rs rss ih =>
    obtain ⟨hrs, hrss⟩ := forall_mem_cons.1 hwithin
    obtain ⟨hhead, htail⟩ := pairwise_cons.1 hapart
    cases vs with
    | nil => cases hlen
    | cons v vs =>
      have hfst : extract rs (insert rs v ||| placed rss vs) = extract rs (insert rs v) := by
        refine extract_congr rs (or_and_of_disjoint (placed_and_of_forall (fun ss hss => ?_) vs))
        rw [Nat.and_comm]
        exact hhead _ (mem_map_of_mem hss)
      have hrest : ∀ ss ∈ rss, extract ss (insert rs v ||| placed rss vs) =
          extract ss (placed rss vs) := by
        intro ss hss
        rw [Nat.or_comm]
        refine extract_congr ss (or_and_of_disjoint ?_)
        rw [← insert_and_covered, Nat.and_assoc, hhead _ (mem_map_of_mem hss), Nat.and_zero]
      rw [placed, map_cons, hfst, extract_insert hrs, zipWith_cons_cons,
        ← ih hrss htail (succ.inj hlen)]
      congr 1
      exact map_congr_left fun ss hss => by rw [hrest ss hss]

/-- The operands of a word that was made of the fixed bits and some operands. -/
lemma Tiled.extract_placed (h : Tiled size p rss) (hlen : vs.length = rss.length) :
  (rss.map fun rs => (extract rs (p.value ||| placed rss vs) : Int)) =
    zipWith (fun rs v => lowBits v (totalWidth rs)) rss vs := by
  obtain ⟨hfixed, hapart⟩ := pairwise_cons.1 h.apart
  rw [← Enc.extract_placed h.within hapart hlen]
  refine map_congr_left fun rs hrs => ?_
  have hval : p.value &&& covered rs = 0 := by
    rw [← h.value, Nat.and_assoc, hfixed _ (mem_map_of_mem hrs), Nat.and_zero]
  rw [Nat.or_comm, extract_congr rs (or_and_of_disjoint hval)]

/-! ## Tables of patterns -/

namespace Pat

def agrees (p q : Pat) : Bool := (p.value ^^^ q.value) &&& (p.mask &&& q.mask) == 0

lemma agrees_of_fits {q : Pat} (hp : p.fits w) (hq : q.fits w) : p.agrees q := by
  rw [fits, beq_iff_eq] at hp hq
  rw [agrees, beq_iff_eq]
  apply eq_of_testBit_eq
  intro i
  simp only [zero_testBit]
  grind

/-- The patterns can be told apart by fixed bits. Of the given bits, each one is looked at that is
fixed in all patterns that are left. -/
def toldApart : List Nat → List Pat → Bool
  | _, [] | _, [_] => true
  | [], _ => false
  | i :: is, ps =>
    if ps.all (·.mask.testBit i) then
      toldApart is (ps.filter (·.value.testBit i)) && toldApart is (ps.filter (!·.value.testBit i))
    else toldApart is ps

lemma testBit_of_fits {i : Nat} (h : p.fits w) (hfixed : p.mask.testBit i) :
  p.value.testBit i = w.testBit i := by
  rw [← beq_iff_eq.1 h, testBit_and, hfixed, Bool.and_true]

lemma countP_fits_le_one {is : List Nat} {ps : List Pat} (h : toldApart is ps)
  (w : Nat) : ps.countP (·.fits w) ≤ 1 := by
  fun_induction toldApart is ps with
  | case1 => simp
  | case2 => exact countP_le_length
  | case3 => cases h
  | case4 i is ps _ _ hfixed ihOne ihZero =>
    rw [Bool.and_eq_true] at h
    rw [all_eq_true] at hfixed
    have hval : ∀ p ∈ ps, p.fits w → p.value.testBit i = w.testBit i :=
      fun p hp hfits => testBit_of_fits hfits (hfixed p hp)
    cases hbit : w.testBit i with
    | true =>
      refine le_of_eq_of_le (countP_congr fun p hp => ?_) (countP_filter ▸ ihOne h.1)
      grind
    | false =>
      refine le_of_eq_of_le (countP_congr fun p hp => ?_) (countP_filter ▸ ihZero h.2)
      grind
  | case5 i is ps _ _ _ ih => exact ih h

end Pat

lemma find?_fits_of_alone {α : Type} (pattern : α → Pat) {table : List α} {a : α}
  (ha : a ∈ table) (halone : (table.filter fun b => (pattern b).agrees (pattern a)).length = 1)
  (hfits : (pattern a).fits w) : table.find? (fun b => (pattern b).fits w) = some a := by
  obtain ⟨b, hb⟩ := length_eq_one_iff.1 halone
  have heq : ∀ c ∈ table, (pattern c).agrees (pattern a) → c = b := by
    intro c hc hagr
    have hmem : c ∈ table.filter fun b => (pattern b).agrees (pattern a) :=
      mem_filter.2 ⟨hc, hagr⟩
    rw [hb] at hmem
    exact mem_singleton.1 hmem
  obtain ⟨c, hc⟩ := Option.isSome_iff_exists.1
    (find?_isSome (p := fun b => (pattern b).fits w).2 ⟨a, ha, hfits⟩)
  have hcfits : (pattern c).fits w := @find?_some α (fun b => (pattern b).fits w) c table hc
  have hca := heq c (mem_of_find?_eq_some hc) (Pat.agrees_of_fits hcfits hfits)
  have hself := heq a ha (Pat.agrees_of_fits hfits hfits)
  rw [hc, hca, hself]

/-! ## Replacing one operand -/

lemma extract_lt (rs : List BitRange) (w : Nat) : extract rs w < span (totalWidth rs) := by
  induction rs using reverseRecOn with
  | nil => exact zero_lt_one
  | append_singleton rs r ih =>
    have hget := r.get_lt w
    rw [extract_concat_eq, totalWidth_concat, span_eq (_ + _), pow_add, ← span_eq, ← span_eq]
    calc span r.width * extract rs w + r.get w < span r.width * (extract rs w + 1) := by
          rw [mul_add]
          omega
      _ ≤ span r.width * span (totalWidth rs) := mul_le_mul_left _ ih
      _ = span (totalWidth rs) * span r.width := mul_comm _ _

lemma lowBits_extract (rs : List BitRange) (w : Nat) :
  lowBits (extract rs w) (totalWidth rs) = extract rs w := by
  rw [lowBits, ← natCast_emod, mod_eq_of_lt (extract_lt rs w)]

lemma zipWith_lowBits_set (rss : List (List BitRange)) (w pos : Nat) (v : Int) :
  zipWith (fun rs v => lowBits v (totalWidth rs)) rss
      ((rss.map fun rs => (extract rs w : Int)).set pos v) =
    (rss.map fun rs => (extract rs w : Int)).set pos
      (lowBits v (totalWidth (rss.getD pos []))) := by
  induction rss generalizing pos with
  | nil => rfl
  | cons rs rss ih =>
    cases pos with
    | zero =>
      rw [map_cons, set_cons_zero, zipWith_cons_cons, set_cons_zero]
      congr 1
      rw [zipWith_map_right, zipWith_self]
      exact map_congr_left fun ss _ => lowBits_extract ss w
    | succ pos =>
      rw [map_cons, set_cons_succ, zipWith_cons_cons, ih, lowBits_extract, set_cons_succ]
      rfl

lemma Tiled.extract_set (h : Tiled size p rss) (w pos : Nat) (v : Int) :
  (rss.map fun rs => (extract rs (p.value ||| placed rss
      ((rss.map fun rs => (extract rs w : Int)).set pos v)) : Int)) =
    (rss.map fun rs => (extract rs w : Int)).set pos
      (lowBits v (totalWidth (rss.getD pos []))) := by
  rw [h.extract_placed (by simp), zipWith_lowBits_set]

def InRange (width : Nat) (n : Int) : Prop := -span (width - 1) ≤ n ∧ n < span (width - 1)

/-- A signed operand can be read again exactly if it is in range. -/
lemma signedOf_lowBits_eq_iff (v : Int) {k : Nat} (hk : 0 < k) :
  signedOf (lowBits v k) k = v ↔ -span (k - 1) ≤ v ∧ v < span (k - 1) := by
  have hspan : span k = 2 * span (k - 1) := by
    rw [span_eq, span_eq, mul_pow_sub_one (by omega)]
  have hlow : lowBits (lowBits v k) k = lowBits v k := emod_emod_of_dvd v (dvd_refl _)
  rw [IR.signedOf_congr hlow]
  constructor
  · intro h
    have hnonneg := lowBits_nonneg v k
    have hlt := lowBits_lt v k
    rw [signedOf] at h
    split at h <;> omega
  · intro h
    apply IR.signedOf_of_inRange hk
    rw [IR.Lit.inRange]
    grind

end Retarget.Enc
