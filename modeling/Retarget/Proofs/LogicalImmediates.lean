import Mathlib.Data.Nat.Count
import Retarget.A64.Instruction
import Retarget.Proofs.Wrapping
import Retarget.A32.Instruction

/-!
# Immediates of ARM instructions

A rotated immediate is a byte rotated right in a word by an even number of places. The encoder tries
the rotations in ascending order: it finds a code for rotated bytes and for nothing else, and of the
codes of a word the one with the smallest rotation.
-/

namespace Retarget.A32
open BitVec List
open IR (span_eq)
variable {x y : BitVec 32} {c s : Nat}

/-- A word that is written twice and shifted is the word rotated. -/
lemma shiftRight_twice (x : BitVec 32) (hs : s ≤ 32) :
  ((x.toNat + x.toNat <<< 32) >>> s) % span 32 = (x.rotateRight s).toNat := by
  rw [add_comm, Nat.shiftLeft_add_eq_or_of_lt x.isLt, span_eq]
  apply Nat.eq_of_testBit_eq
  intro i
  have := x.getLsbD_of_ge i
  have := x.getLsbD_of_ge (s + i)
  simp only [Nat.testBit_mod_two_pow, Nat.testBit_shiftRight, Nat.testBit_or,
    testBit_toNat, getLsbD_rotateRight]
  grind

lemma rotateRight_eq_iff (hs : s ≤ 32) : y.rotateRight s = x ↔ x.rotateRight (32 - s) = y := by
  constructor <;>
  · rintro rfl
    ext i hi
    simp only [getElem_rotateRight]
    split <;> split <;> congr 1 <;> omega

lemma decodeRotated_eq_iff (hc : c < 4096) :
  decodeRotated c = x.toNat ↔ (BitVec.ofNat 32 (c % 256)).rotateRight (2 * (c / 256)) = x := by
  have hbyte : (BitVec.ofNat 32 (c % 256)).toNat = c % 256 := by simp; omega
  have hrot := shiftRight_twice (s := 2 * (c / 256)) (BitVec.ofNat 32 (c % 256)) (by omega)
  rw [hbyte] at hrot
  rw [decodeRotated, Nat.mod_eq_of_lt (a := c / 256) (by omega), mul_comm (c / 256), hrot, toNat_inj]

lemma rotatedAt_eq_some_iff (hs : s < 16) :
  rotatedAt x.toNat s = some c ↔ c < 4096 ∧ c / 256 = s ∧ decodeRotated c = x.toNat := by
  rw [rotatedAt, shiftRight_twice x (by omega), Option.ite_none_right_eq_some, Option.some_inj]
  constructor
  · rintro ⟨hbyte, rfl⟩
    have hdiv : (s * 256 + (x.rotateRight (32 - 2 * s)).toNat) / 256 = s := by omega
    rw [decodeRotated_eq_iff (by omega), rotateRight_eq_iff (by omega), hdiv, ← toNat_inj, toNat_ofNat]
    omega
  · rintro ⟨hc, rfl, h⟩
    rw [decodeRotated_eq_iff hc, rotateRight_eq_iff (by omega)] at h
    rw [h, toNat_ofNat]
    omega

lemma decodeRotated_ne (hc : c < 4096) (h : rotatedAt x.toNat (c / 256) = none) :
  decodeRotated c ≠ x.toNat := by
  intro hx
  rw [(rotatedAt_eq_some_iff (by omega)).2 ⟨hc, rfl, hx⟩] at h
  cases h

lemma exists_code_iff : (∃ c < 4096, decodeRotated c = x.toNat) ↔
  ∃ b < 256, ∃ n, (BitVec.ofNat 32 b).rotateRight (2 * n) = x := by
  constructor
  · rintro ⟨c, hc, h⟩
    exact ⟨c % 256, by omega, c / 256, (decodeRotated_eq_iff hc).1 h⟩
  · rintro ⟨b, hb, n, h⟩
    have hdiv : (n % 16 * 256 + b) / 256 = n % 16 := by omega
    have hmod : (n % 16 * 256 + b) % 256 = b := by omega
    have hround : 2 * (n % 16) = 2 * n % 32 := by omega
    refine ⟨n % 16 * 256 + b, by omega, (decodeRotated_eq_iff (by omega)).2 ?_⟩
    rw [hdiv, hmod, hround, rotateRight_mod_eq_rotateRight, h]

theorem encodeRotated?_least (x : BitVec 32) : (encodeRotated? x.toNat = none ↔
    ¬∃ b < 256, ∃ n, (BitVec.ofNat 32 b).rotateRight (2 * n) = x) ∧
  ∀ c, encodeRotated? x.toNat = some c → c < 4096 ∧ decodeRotated c = x.toNat ∧
    ∀ d < 4096, decodeRotated d = x.toNat → c / 256 ≤ d / 256 := by
  constructor
  · rw [← exists_code_iff, encodeRotated?, findSome?_eq_none_iff]
    constructor
    · rintro hnone ⟨c, hc, h⟩
      exact decodeRotated_ne hc (hnone _ (mem_range.2 (by omega))) h
    · intro hno s hs
      rw [Option.eq_none_iff_forall_ne_some]
      intro c hc
      obtain ⟨hlt, -, h⟩ := (rotatedAt_eq_some_iff (mem_range.1 hs)).1 hc
      exact hno ⟨c, hlt, h⟩
  · intro c hc
    obtain ⟨l, s, l', hl, hs, hnone⟩ := findSome?_eq_some_iff.1 hc
    obtain ⟨k, -, rfl, hl'⟩ := range'_eq_append_iff.1 (range_eq_range' ▸ hl)
    obtain ⟨rfl, hk, -⟩ := range'_eq_cons_iff.1 hl'.symm
    obtain ⟨hlt, hk', h⟩ := (rotatedAt_eq_some_iff (by omega)).1 hs
    refine ⟨hlt, h, fun d hd hdx => le_of_not_gt fun hless => ?_⟩
    exact decodeRotated_ne hd (hnone _ (mem_range'_1.2 (by omega))) hdx

end Retarget.A32

/-! ## Logical immediates

A logical immediate is a run of ones in an element of 2, 4, ... bits, rotated and repeated. The
encoder looks for the smallest element that a value repeats; it finds a code exactly for logical
immediates, and decoding undoes it. -/

namespace Retarget.A64
open Nat
open IR (span_eq)
variable {W m n p q x i j k r ones : Nat}

/-- The `W` bits of `x` are its lowest `n` bits, over and over. -/
def Repeats (x W n : Nat) : Prop := ∀ i, x.testBit i = (decide (i < W) && x.testBit (i % n))

/-- The `W` bits of `x` have `ones` ones in every `n` bits, rotated right by `r`. -/
def Run (W n ones r x : Nat) : Prop :=
  ∀ i, x.testBit i = (decide (i < W) && decide ((i + r) % n < ones))

/-- A run of ones, neither empty nor full, is repeated in `W` bits. -/
def IsLogical (W x : Nat) : Prop :=
  ∃ k ones r, 2 ^ (k + 1) ∣ W ∧ 0 < ones ∧ ones < 2 ^ (k + 1) ∧ r < 2 ^ (k + 1) ∧
    Run W (2 ^ (k + 1)) ones r x

/-! ## Repetition -/

lemma Repeats.lt (h : Repeats x W n) : x < 2 ^ W :=
  lt_pow_two_of_testBit x fun i hi => by simp [h i, not_lt.2 hi]

lemma repeats_self (hx : x < 2 ^ n) : Repeats x n n := by
  intro i
  by_cases h : i < n
  · simp [h, mod_eq_of_lt]
  · simp [h, testBit_lt_two_pow (hx.trans_le (Nat.pow_le_pow_right two_pos (not_lt.1 h)))]

lemma Repeats.mono (h : Repeats x W p) (hpq : p ∣ q) : Repeats x W q := by
  intro i
  have := mod_le i q
  rw [h i, h (i % q), mod_mod_of_dvd i hpq]
  grind

lemma Repeats.half (h : Repeats x W (n * 2)) (hW : n * 2 ≤ W) (hn : 0 < n) :
  x % 2 ^ n = (x % 2 ^ (n * 2)) >>> n ↔ Repeats x W n := by
  constructor
  · intro heq i
    have hi := mod_lt i hn
    have hbit := testBit_mod_two_pow x n (i % n)
    rw [h i, mod_mul]
    obtain h | h := mod_two_eq_zero_or_one (i / n) <;> grind
  · intro h
    apply eq_of_testBit_eq
    intro i
    rw [testBit_mod_two_pow, testBit_shiftRight, testBit_mod_two_pow, h (n + i), add_mod_left]
    grind [mod_eq_of_lt]

lemma testBit_spread (hp : p < 2 ^ n) (hn : 0 < n) :
  (spread p n k).testBit i = (decide (i < n * 2 ^ k) && p.testBit (i % n)) := by
  induction k generalizing p n with
  | zero => simpa [spread] using repeats_self hp i
  | succ k ih =>
    have hlow : p < 2 ^ (n * 2) := hp.trans_le (Nat.pow_le_pow_right two_pos (by omega))
    have hhigh : p <<< n < 2 ^ (n * 2) := by
      rw [shiftLeft_eq, mul_two, pow_add]
      exact Nat.mul_lt_mul_of_pos_right hp (Nat.two_pow_pos n)
    have hi := mod_lt i hn
    have hzero : p.testBit (i % n + n) = false := by
      rw [repeats_self hp]
      simp
    rw [spread, ih (or_lt_two_pow hlow hhigh) (by omega), testBit_or, mod_mul,
      pow_succ', ← mul_assoc]
    obtain h | h := mod_two_eq_zero_or_one (i / n) <;> simp [h, not_le.2 hi, hzero]

/-- The search stops at the smallest `2 ^ j` bits that are repeated. -/
lemma smallestPat_least (hW : 2 ^ k ≤ W) (hx : Repeats x W (2 ^ k)) :
  ∃ j ≤ k, Repeats x W (2 ^ j) ∧ (∀ i < j, ¬Repeats x W (2 ^ i)) ∧
    smallestPat (x % 2 ^ 2 ^ k) k = if j = 0 then none else some (j, x % 2 ^ 2 ^ j) := by
  induction k with
  | zero => exact ⟨0, le_rfl, hx, by simp, rfl⟩
  | succ k ih =>
    have hhalf := (pow_succ 2 k ▸ hx).half (by omega) (Nat.two_pow_pos k)
    rw [← pow_succ] at hhalf
    rw [smallestPat, span_eq, span_eq,
      mod_mod_of_dvd x (pow_dvd_pow 2 (Nat.pow_le_pow_right two_pos (le_succ k)))]
    by_cases h : Repeats x W (2 ^ k)
    · obtain ⟨j, hj, hleast⟩ := ih (by omega) h
      rw [if_pos (hhalf.2 h)]
      exact ⟨j, by omega, hleast⟩
    · rw [if_neg (hhalf.not.2 h)]
      exact ⟨k + 1, le_rfl, hx, fun i hi hrep => h (hrep.mono (pow_dvd_pow 2 (by omega))), rfl⟩

/-! ## Runs -/

lemma testBit_rotateRight (hx : x < 2 ^ W) (hr : r ≤ W) :
  (rotateRight x W r).testBit i = (decide (i < W) && x.testBit ((i + r) % W)) := by
  have := repeats_self hx (r + i)
  rw [rotateRight, span_eq, testBit_or, testBit_shiftRight, testBit_shiftLeft, testBit_mod_two_pow]
  by_cases h : i + r < W
  · rw [add_comm r]
    grind
  · by_cases hi : i < W
    · rw [mod_eq_sub_mod (by omega), mod_eq_of_lt (by omega)]
      grind
    · grind

lemma ones_lt (h : ones ≤ n) : 2 ^ ones - 1 < 2 ^ n :=
  Nat.sub_one_lt_of_le (Nat.two_pow_pos ones) (Nat.pow_le_pow_right two_pos h)

lemma run_iff (h : Repeats x W n) (hW : n ≤ W) (hones : ones ≤ n) (hr : r < n) :
  x % 2 ^ n = rotateRight (2 ^ ones - 1) n r ↔ Run W n ones r x := by
  have hbit i := @testBit_rotateRight n _ i r (ones_lt hones) hr.le
  constructor
  · intro heq i
    have hi := testBit_mod_two_pow x n (i % n)
    rw [heq, hbit, mod_add_mod] at hi
    have := mod_lt i (zero_lt_of_lt hr)
    rw [h i]
    grind
  · intro hrun
    apply eq_of_testBit_eq
    intro i
    rw [testBit_mod_two_pow, hrun i]
    grind

namespace Run

lemma repeats (h : Run W n ones r x) : Repeats x W n := by
  intro i
  have := mod_le i n
  rw [h i, h (i % n), mod_add_mod]
  grind

/-- A run repeats its half only if it is empty or full. -/
lemma repeats_half_iff (h : Run W m ones r x) (hm : m = n * 2) (hW : m ≤ W) (hr : r < m)
  (hones : ones ≤ m) : Repeats x W n ↔ ones = 0 ∨ ones = m := by
  subst hm
  have hn : 0 < n * 2 := by omega
  constructor
  · intro hx
    -- The bit that the rotation brings to place `i` is the same for `i` and `i + n`.
    have hbit i : x.testBit ((i + (n * 2 - r)) % n) = decide (i % (n * 2) < ones) := by
      have hi := h ((i + (n * 2 - r)) % (n * 2))
      rw [hx, mod_mod_of_dvd _ (Dvd.intro 2 rfl), mod_add_mod, add_assoc, Nat.sub_add_cancel hr.le,
        add_mod_right] at hi
      grind [mod_lt (i + (n * 2 - r)) hn]
    have hshift i : i % (n * 2) < ones ↔ (i + n) % (n * 2) < ones := by
      rw [← decide_eq_decide, ← hbit, ← hbit, add_right_comm, add_mod_right]
    have h0 := hshift 0
    have h1 := hshift (n - 1)
    rw [mod_eq_of_lt, mod_eq_of_lt] at h0 h1 <;> omega
  · intro hall i
    rw [h i, h (i % n)]
    grind [mod_le i n, mod_lt (i + r) hn, mod_lt (i % n + r) hn]

end Run

lemma bitCount_eq_count (hx : x < 2 ^ n) : bitCount x = n.count fun i => x.testBit i := by
  have hadd {a : Nat} (ha : x < 2 ^ a) (b : Nat) :
      (a + b).count (fun i => x.testBit i) = a.count fun i => x.testBit i := by
    rw [count_add, add_eq_left]
    apply count_of_forall_not
    intro i _
    simp [testBit_lt_two_pow (ha.trans_le (Nat.pow_le_pow_right two_pos (Nat.le_add_right a i)))]
  have h := hadd lt_log2_self n
  rw [add_comm, hadd hx] at h
  simpa [bitCount, count] using h.symm

lemma Run.bitCount_low (h : Run W n ones r x) (hW : n ≤ W) (hones : ones ≤ n) :
  bitCount (x % 2 ^ n) = ones := by
  obtain ⟨m, rfl⟩ := Nat.exists_eq_add_of_le hones
  let low i := i % (ones + m) < ones
  have hfront : ones.count low = ones := count_of_forall fun i hi => by
    simpa [low, mod_eq_of_lt (show i < ones + m by omega)] using hi
  have hback : m.count (fun i => low (ones + i)) = 0 := count_of_forall_not fun i hi => by
    simp [low, mod_eq_of_lt (show ones + i < ones + m by omega)]
  -- Counting on from `r` instead of from zero leaves out as many ones as it adds.
  have hturn := count_add low (ones + m) r
  rw [count_add', count_add low ones m] at hturn
  have hbit : ∀ i < ones + m, (x % 2 ^ (ones + m)).testBit i ↔ low (i + r) := by
    intro i hi
    simp [h i, hi, hi.trans_le hW, low]
  rw [bitCount_eq_count (mod_lt x (Nat.two_pow_pos _)), le_antisymm
    (count_mono_left fun i hi => (hbit i hi).1) (count_mono_left fun i hi => (hbit i hi).2)]
  simp only [low, add_mod_left] at *
  omega

/-! ## Codes -/

lemma rotateRight_spread (h : Run (2 ^ k) (2 ^ j) ones r x) (hjk : j ≤ k) (hones : ones ≤ 2 ^ j)
  (hr : r < 2 ^ j) : rotateRight (spread (2 ^ ones - 1) (2 ^ j) (k - j)) (2 ^ k) r = x := by
  have hW := Nat.pow_le_pow_right two_pos hjk
  have hbit i := @testBit_spread _ _ i (k - j) (ones_lt hones) (Nat.two_pow_pos j)
  simp only [← pow_add, Nat.add_sub_cancel' hjk] at hbit
  have hlt : spread (2 ^ ones - 1) (2 ^ j) (k - j) < 2 ^ 2 ^ k :=
    lt_pow_two_of_testBit _ fun i hi => by simp [hbit, not_lt.2 hi]
  apply eq_of_testBit_eq
  intro i
  rw [testBit_rotateRight hlt (by omega), hbit, h i, mod_mod_of_dvd _ (pow_dvd_pow 2 hjk)]
  simp [mod_lt]

/-- The length field tells the element size and the number of ones. -/
lemma lengthField : ∀ j ≤ 6, ∀ o < 2 ^ j - 1, (64 - 2 * 2 ^ j ||| o) < 64 ∧
  (64 - 2 * 2 ^ j ||| o) % 2 ^ j = o ∧ (j < 6 → patLog (64 - 2 * 2 ^ j ||| o) 6 = j) := by
  decide

lemma decodeLogical_code (h : Run (2 ^ k) (2 ^ j) ones r x) (hjk : j ≤ k) (hk : k ≤ 6)
  (h0 : 0 < ones) (h1 : ones < 2 ^ j) (hr : r < 2 ^ j) :
  decodeLogical k ((if j = 6 then 1 else 0) <<< 12 |||
    (r <<< 6 ||| (64 - 2 * 2 ^ j ||| (ones - 1)))) = .ok x := by
  obtain ⟨hs, hlow, hlog⟩ := lengthField j (hjk.trans hk) (ones - 1) (by omega)
  generalize 64 - 2 * 2 ^ j ||| (ones - 1) = s at *
  have hj := Nat.pow_le_pow_right two_pos (hjk.trans hk)
  have hjk' := Nat.pow_le_pow_right two_pos hjk
  rw [← @shiftLeft_add_eq_or_of_lt 6 s hs, shiftLeft_eq r, ← shiftLeft_add_eq_or_of_lt (by omega),
    shiftLeft_eq]
  generalize hc : (if j = 6 then 1 else 0) * 2 ^ 12 + (r * 2 ^ 6 + s) = c
  have hcr : c / 64 % 64 = r := by omega
  have hcs : c % 64 = s := by omega
  have hcj : c / 4096 = 1 ↔ j = 6 := by split at hc <;> omega
  have hsize : (if j = 6 then 6 else patLog s 6) = j := by grind
  simp only [decodeLogical, hcr, hcs, hcj, hsize, span_eq, hlow, Nat.sub_add_cancel h0,
    rotateRight_spread h hjk h1.le hr]
  simp [h1.ne]
  omega

lemma IsLogical.run (h : IsLogical (2 ^ k) x) (hrep : Repeats x (2 ^ k) (2 ^ j))
  (hleast : ∀ i < j, ¬Repeats x (2 ^ k) (2 ^ i)) :
  0 < j ∧ ∃ ones ≤ 2 ^ j, ∃ r < 2 ^ j, Run (2 ^ k) (2 ^ j) ones r x := by
  obtain ⟨i, ones, r, hdvd, h0, h1, hr, h⟩ := h
  have hle : ¬i + 1 < j := fun hlt => hleast _ hlt h.repeats
  have hge : ¬j ≤ i := fun hji => by
    have := (h.repeats_half_iff (pow_succ 2 i) (le_of_dvd (Nat.two_pow_pos k) hdvd) hr h1.le).1
      (hrep.mono (pow_dvd_pow 2 hji))
    omega
  obtain rfl : j = i + 1 := by omega
  exact ⟨by omega, ones, h1.le, r, hr, h⟩

lemma encodeLogical?_iff {g : LogicalFault → Fault} (hk : k ≤ 6) (hx : x < 2 ^ 2 ^ k) :
  ((∃ c, encodeLogical? k x = some c) ↔ IsLogical (2 ^ k) x) ∧
    ∀ c, encodeLogical? k x = some c → (decodeLogical k c).mapError g = .ok x := by
  obtain ⟨j, hjk, hrep, hleast, heq⟩ := smallestPat_least le_rfl (repeats_self hx)
  have hW := Nat.pow_le_pow_right two_pos hjk
  have hlogical (h : IsLogical (2 ^ k) x) := h.run hrep hleast
  rw [mod_eq_of_lt hx] at heq
  cases j with
  | zero => simpa [encodeLogical?, heq] using hlogical
  | succ j =>
    have hle : bitCount (x % 2 ^ 2 ^ (j + 1)) ≤ 2 ^ (j + 1) :=
      bitCount_eq_count (mod_lt x (Nat.two_pow_pos _)) ▸ count_le _
    have hfound {c : Nat} (hc : encodeLogical? k x = some c) :
        IsLogical (2 ^ k) x ∧ decodeLogical k c = .ok x := by
      simp only [encodeLogical?, heq, succ_ne_zero, if_false, span_eq, Option.bind_some] at hc
      obtain ⟨r, hfind, rfl⟩ := Option.map_eq_some_iff.1 hc
      have hr : r < 2 ^ (j + 1) := by simpa using List.mem_of_find?_eq_some hfind
      have hbits := List.find?_some hfind
      have hrun := (run_iff hrep hW hle hr).1 (beq_iff_eq.1 hbits)
      have := (hrun.repeats_half_iff (pow_succ 2 j) hW hr hle).not.1 (hleast j (by omega))
      exact ⟨⟨j, _, r, pow_dvd_pow 2 hjk, by omega, by omega, hr, hrun⟩,
        decodeLogical_code hrun hjk hk (by omega) (by omega) hr⟩
    refine ⟨⟨fun ⟨c, hc⟩ => (hfound hc).1, fun h => ?_⟩, fun c hc => ?_⟩
    · obtain ⟨-, ones, hones, r, hr, hrun⟩ := hlogical h
      simp only [encodeLogical?, heq, succ_ne_zero, if_false, span_eq, Option.bind_some]
      rw [← Option.isSome_iff_exists, Option.isSome_map, List.find?_isSome,
        hrun.bitCount_low hW hones]
      exact ⟨r, List.mem_range.2 hr, beq_iff_eq.2 ((run_iff hrep hW hones hr).2 hrun)⟩
    · rw [(hfound hc).2]
      rfl

theorem encodes_iff_isLogical {f : Field}
  (hf : (f, W) ∈ [(Field.logical32, 32), (Field.logical64, 64)])
  (hx : f = .logical64 → x < span 64) :
  ((∃ c, f.encodeSpecial? x = some c) ↔ IsLogical W x) ∧
    ∀ c, f.encodeSpecial? x = some c → f.decodeSpecial c = .ok x := by
  simp only [List.mem_cons, Prod.mk.injEq, List.not_mem_nil, or_false] at hf
  obtain ⟨rfl, rfl⟩ | ⟨rfl, rfl⟩ := hf
  · by_cases hlt : x < span 32
    · rw [Field.encodeSpecial?, if_pos hlt]
      exact encodeLogical?_iff (k := 5) (by omega) hlt
    · have hwide : ¬IsLogical 32 x := fun ⟨_, _, _, _, _, _, _, h⟩ => hlt (span_eq 32 ▸ h.repeats.lt)
      simp [Field.encodeSpecial?, hlt, hwide]
  · exact encodeLogical?_iff (k := 6) le_rfl (hx rfl)

theorem encodes_iff_isLogical_ff0 : IsLogical 64 0x0ff00ff00ff00ff0 ∧
  Field.logical64.decodeSpecial 0x327 = .ok 0x0ff00ff00ff00ff0 := by
  have hcode : Field.logical64.encodeSpecial? 0x0ff00ff00ff00ff0 = some 0x327 := by decide +kernel
  obtain ⟨hsome, hval⟩ := @encodes_iff_isLogical 64 0x0ff00ff00ff00ff0 .logical64
    (by simp) (fun _ => by decide)
  exact ⟨hsome.1 ⟨_, hcode⟩, hval _ hcode⟩

end Retarget.A64
