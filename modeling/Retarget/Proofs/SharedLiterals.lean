import Retarget.Proofs.Accesses
import Retarget.Proofs.Wrapping

/-!
# Cheaper instructions

An integer instruction may be replaced by a move or a shift that computes the same. Shift amounts
are reduced in place: every operand that holds the literal sees the reduced number.
-/

namespace Retarget.IR
open Pass List Ins Constr Option
variable {c : Constr} {y : Ins} {prev this : Kind}

/-- The kinds of the operands of moves, of arithmetic and of address computations go together. -/
structure Fn.Kinded (f : Fn) (x : Ins) : Prop where
  mov : x.op = .mov → f.kindOf (x.arg 1) = f.kindOf (x.arg 0)
  alu : x.op.fam = .alu → f.kindOf (x.arg 1) = f.kindOf (x.arg 0) ∧
    f.kindOf (x.arg 2) = f.kindOf (x.arg 0) ∧
    ((f.kindOf (x.arg 0)).isInt ∨ (f.kindOf (x.arg 0)).isFloat)
  shift : x.op = .shl ∨ x.op = .shr → (f.kindOf (x.arg 0)).isInt
  lea : x.op = .lea → f.kindOf (x.arg 1) = f.kindOf (x.arg 0) ∧ (f.kindOf (x.arg 0)).flavor = .addr

section
variable {f : Fn} {x : Ins}

lemma Constr.eq_of_sameAsPrev (h : sameAsPrev.holds? prev this = some true) : this = prev :=
  (beq_iff_eq.1 (some.inj h)).symm

lemma Op.opnds_alu {op : Op} (h : op.fam = .alu) :
  ∃ c, (c = .num ∨ c = .int ∨ c = .flt) ∧ op.opnds = binary c := by
  cases op <;> first
    | exact ⟨.num, by decide, rfl⟩
    | exact ⟨.int, by decide, rfl⟩
    | exact ⟨.flt, by decide, rfl⟩
    | cases h

lemma Kind.isInt_or_isFloat (hc : c = .num ∨ c = .int ∨ c = .flt)
  (h : c.holds? prev this = some true) : this.isInt ∨ this.isFloat := by
  rcases hc with rfl | rfl | rfl
  · simpa using some.inj h
  · exact .inl (some.inj h)
  · exact .inr (some.inj h)

lemma Ins.Fits.ternary {c' : Constr} (hx : x.Fits) (h : checkTyping.{0} f x = .ok ())
  (hops : x.op.opnds = [(.reg, c), (.regOrLit, .sameAsPrev), (.regOrLit, c')]) :
  (∃ prev, c.holds? prev (f.kindOf (x.arg 0)) = some true) ∧
    f.kindOf (x.arg 1) = f.kindOf (x.arg 0) ∧
    c'.holds? (f.kindOf (x.arg 1)) (f.kindOf (x.arg 2)) = some true := by
  have h0 := hx.arg_isValue (n := 0) (by rw [hops]; rfl) (.inl rfl)
  have h1 := hx.arg_isValue (n := 1) (by rw [hops]; rfl) (.inr (.inr rfl))
  have h2 := hx.arg_isValue (n := 2) (by rw [hops]; rfl) (.inr (.inr rfl))
  obtain ⟨a0, a1, a2, hargs⟩ := length_eq_three.1 (hx.length.trans (by rw [hops]; rfl))
  rw [checkTyping, hops, hargs] at h
  simp only [arg, hargs, Opnd.isValue, getD_cons_zero, getD_cons_succ] at h0 h1 h2 ⊢
  obtain ⟨-, hfst, h⟩ := checkOpnds_cons.1 h
  rw [if_pos h0, checkOpnds_cons, if_pos h1, checkOpnds_cons] at h
  obtain ⟨-, hsame, -, hthird, -⟩ := h
  exact ⟨⟨_, hfst h0⟩, eq_of_sameAsPrev (hsame h1), hthird h2⟩

/-- What the check of an instruction says about the kinds of its operands. -/
lemma Ins.Fits.kinded (hx : x.Fits) (h : checkTyping.{0} f x = .ok ()) : f.Kinded x := by
  refine ⟨fun hop => ?_, fun hfam => ?_, fun hop => ?_, fun hop => ?_⟩
  · obtain ⟨d, a, hargs, ha⟩ := hx.mov_args hop
    have hops : x.op.opnds = Op.unary .any := by rw [hop]; rfl
    rw [checkTyping, hops, hargs] at h
    obtain ⟨-, -, h⟩ := checkOpnds_cons.1 h
    obtain ⟨-, hsame, -⟩ := checkOpnds_cons.1 h
    rw [arg, arg, hargs]
    exact eq_of_sameAsPrev (hsame ha)
  · obtain ⟨c, hc, hops⟩ := Op.opnds_alu hfam
    obtain ⟨⟨_, hnum⟩, h1, h2⟩ := hx.ternary h hops
    exact ⟨h1, (eq_of_sameAsPrev h2).trans h1, Kind.isInt_or_isFloat hc hnum⟩
  · have hops : x.op.opnds = Op.binary .int := by rcases hop with hop | hop <;> rw [hop] <;> rfl
    obtain ⟨⟨_, hint⟩, -⟩ := hx.ternary h hops
    exact some.inj hint
  · obtain ⟨⟨_, haddr⟩, h1, -⟩ := hx.ternary h (by rw [hop]; rfl)
    exact ⟨h1, beq_iff_eq.1 (some.inj haddr)⟩

end

/-! ## Literals that stand for registers -/

def Fn.Moved (f : Fn) (c : LitId) : Prop :=
  ∃ b ∈ f.order, ∃ j ∈ (f.blk b).code, (f.ins j).op = .mov ∧ (f.ins j).args[1]? = some (.lit c)

/-- Literals that are moved somewhere stand for registers of their kind. -/
def Fills (f : Fn) (x y : Ins) : Prop :=
  y.op = x.op ∧ ∀ n : Nat, y.args[n]? = x.args[n]? ∨
    ∃ r c, x.args[n]? = some (.reg r) ∧ x.op.defCount ≤ n ∧ y.args[n]? = some (.lit c) ∧
      (f.lit c).kind = (f.reg r).kind ∧ f.Moved c

/-- In `g` literals stand for registers of `f`, and nothing else has changed. -/
structure Filled (f g : Fn) : Prop where
  lits : g.lits = f.lits
  code : ∀ b ∈ f.order, (g.blk b).code = (f.blk b).code
  ins : ∀ b ∈ f.order, ∀ i ∈ (f.blk b).code, Fills f (f.ins i) (g.ins i)

section
variable {sem : Sem → Prop} {f g : Fn} {first b : BlkId} {entry : BlkId → DefMap}
  {pre : List InsId} {i : InsId} {x : Ins} {n : Nat}

lemma Fills.refl (x : Ins) : Fills f x x := ⟨rfl, fun _ => .inl rfl⟩

section
variable (h : Fills f x y) (hlits : g.lits = f.lits) (hregs : g.regs = f.regs)
include h hlits hregs

lemma Fills.kindOf (n : Nat) : g.kindOf (y.arg n) = f.kindOf (x.arg n) := by
  rw [Fn.kindOf_congr hregs hlits]
  rcases h.2 n with harg | ⟨r, c, hr, -, hc, hkind, -⟩
  · rw [arg, arg, getD_eq_getElem?_getD, getD_eq_getElem?_getD, harg]
  · rw [arg_of_getElem? hr, arg_of_getElem? hc]
    exact hkind

lemma Fills.kinded (hx : f.Kinded x) : g.Kinded y := by
  obtain ⟨hmov, halu, hshift, hlea⟩ := hx
  refine ⟨?_, ?_, ?_, ?_⟩ <;> simp only [h.kindOf hlits hregs] <;> rw [h.1] <;> assumption

end

lemma Ins.Fits.eq_of_mov_written (hx : x.Fits) (hop : x.op = .mov) {r : RegId}
  (hr : r ∈ x.written) : x.arg 0 = .reg r := by
  obtain ⟨d, a, hargs, -⟩ := hx.mov_args hop
  have hwr : x.written = [d] := by simp [written, hargs, hop]; rfl
  rw [hwr, mem_singleton] at hr
  rw [arg, hargs, hr]
  rfl

/-- A literal that one operand was moved from may stand for its register. -/
lemma Filled.moved {c : LitId} (h : Filled f g)
  (ht : Tracks sem f first entry g) (hf : f.Connected first) (hs : Solved f first entry)
  (hkinded : ∀ b ∈ f.order, ∀ i ∈ (f.blk b).code, f.Kinded (f.ins i)) (hb : b ∈ f.order)
  (hi : f.At b pre i) (hc : movedLit? g (g.ins i) n = some c) : ∃ r, (f.ins i).args[n]? =
  some (.reg r) ∧ (f.ins i).op.defCount ≤ n ∧ (f.lit c).kind = (f.reg r).kind ∧ f.Moved c := by
  obtain ⟨j, hdef, hmov, hlit⟩ := movedLit?_eq_some.1 hc
  obtain ⟨r, hr, hkn⟩ := (ht.stands b hb pre i hi).knows n (.exec j) (by rw [hdef]; rfl)
  rw [hdef] at hkn
  obtain ⟨e, pre', he, hj, hwr, -⟩ := hkn.site hf hs hb hi
  have hmoves := ht.stands e he pre' j hj
  obtain ⟨hopi, hargsi⟩ := h.ins b hb i hi.mem
  obtain ⟨hopj, hargsj⟩ := h.ins e he j hj.mem
  have hreg : (f.ins i).args[n]? = some (.reg r) := by
    rcases hargsi n with harg | ⟨-, c', -, -, hc', -⟩
    · rw [← harg, hr.1]
    · rw [hr.1] at hc'
      cases hc'
  have hopf : (f.ins j).op = .mov := hopj ▸ hmov
  -- The move writes the register that is read, and what it moves is of the same kind.
  have hdest : g.kindOf ((g.ins j).arg 0) = g.kindOf (.reg r) := by
    rw [hmoves.fits.eq_of_mov_written hmov (hmoves.written ▸ hwr)]
  have hkind : g.kindOf (.lit c) = g.kindOf (.reg r) := by
    rw [← hlit, ← hdest]
    exact ((h.ins e he j hj.mem).kinded h.lits ht.regs (hkinded e he j hj.mem)).mov hmov
  simp only [Fn.kindOf, Fn.lit, Fn.reg, h.lits, ht.regs] at hkind
  refine ⟨r, hreg, hopi ▸ hr.2, hkind, ?_⟩
  have hone : (g.ins j).args[1]? = some (.lit c) := by
    obtain ⟨d, a, hargs, -⟩ := hmoves.fits.mov_args hmov
    rw [← hlit]
    exact getElem?_of_arg (by simp [hargs])
  rcases hargsj 1 with harg | ⟨-, c', -, -, hc', -, hmoved⟩
  · exact ⟨e, he, j, hj.mem, hopf, by rw [← harg, hone]⟩
  · obtain rfl : c' = c := by simpa using hc'.symm.trans hone
    exact hmoved

lemma propagateLits_filled {bad : Fault → Prop} (hf : f.Connected first)
  (hs : Solved f first entry)
  (hkinded : ∀ b ∈ f.order, ∀ i ∈ (f.blk b).code, f.Kinded (f.ins i))
  (ht : Tracks sem f first entry g) (h : Filled f g) :
  Ens propagateLits g bad fun _ g' => Tracks sem f first entry g' ∧ Filled f g' := by
  refine propagateLits_keeps hf hs (fun g' h' => h'.1) ?_ ⟨ht, h⟩
  rintro b hb pre i hi g' ⟨htrk, hfil⟩ htrk'
  refine ⟨htrk', hfil.lits, hfil.code, fun c hc j hj => ?_⟩
  by_cases hji : j = i
  · subst hji
    have hlt : j < g'.code.size := htrk.codeSize ▸ hf.sites c hc j hj
    rw [Fn.ins_setIns_self _ hlt]
    refine withLits_induct (hfil.ins c hc j hj) ?_
    rintro y n lit ⟨hop, hargs⟩ - - hlit
    refine ⟨hop, fun k => ?_⟩
    by_cases hk : n = k
    · subst hk
      obtain ⟨r, hr, hn, hkind, hmoved⟩ := hfil.moved htrk hf hs hkinded hb hi hlit
      by_cases hlen : n < y.args.length
      · exact .inr ⟨r, lit, hr, hn, getElem?_set_self hlen, hkind, hmoved⟩
      · rcases hargs n with harg | ⟨-, c', -, -, hc', -⟩
        · rw [hr, getElem?_eq_none (not_lt.1 hlen)] at harg
          cases harg
        · rw [getElem?_eq_none (not_lt.1 hlen)] at hc'
          cases hc'
    · show (y.args.set n (.lit lit))[k]? = _ ∨ ∃ r c, _ ∧ _ ∧ (y.args.set n (.lit lit))[k]? = _ ∧ _
      rw [getElem?_set_ne hk]
      exact hargs k
  · rw [Fn.ins_setIns_ne _ hji]
    exact hfil.ins c hc j hj

end

/-! ## Reductions -/

open Lit Fn
variable {n u v : Int} {kind : Kind} {c : Lit} {a : Opnd} {d : RegId}

/-- The registers hold numbers of their kind. -/
def Fn.Holding (f : Fn) (s : Regs Lit) : Prop :=
  ∀ r, (f.reg r).kind.isFloat = false → (s r).kind = (f.reg r).kind ∧ (s r).Proper

/-- Registers for addresses are as wide as addresses. -/
def Sem.Wide (m : Sem) (f : Fn) : Prop :=
  ∀ r, (f.reg r).kind.flavor = .addr → (f.reg r).kind.bits = m.width

/-- No operand of the instruction is a floating point number. -/
def Fn.Integral (f : Fn) (x : Ins) : Prop := ∀ a ∈ x.args, (f.kindOf a).isFloat = false

/-! ## Operands and their numbers -/

section
variable {k : Fn} {x y : Ins} {s : Regs Lit} {m : Sem} {new : Option Lit}

lemma Fn.argOf_eq_ofInt (hs : k.Holding s) (ha : a.isValue)
  (hlit : ∀ c : Nat, a = .lit c → (k.lit c).kind.isFloat = false → (k.lit c).Proper)
  (hfloat : (k.kindOf a).isFloat = false) :
  ∃ n, k.argOf s a = .val (.ofInt (k.kindOf a) n) ∧ (k.kindOf a).Spans n := by
  rcases Opnd.isValue_iff.1 ha with ⟨r, rfl⟩ | ⟨c, rfl⟩
  · obtain ⟨hkind, hint, hspans⟩ := hs r hfloat
    rw [hkind] at hint hspans
    exact ⟨_, congrArg Arg.val hint, hspans⟩
  · obtain ⟨hint, hspans⟩ := hlit c rfl hfloat
    exact ⟨_, congrArg Arg.val hint, hspans⟩

/-- The instruction is well formed, and its operands are numbers that go together. -/
structure Fn.Sound (k : Fn) (x : Ins) : Prop where
  fits : x.Fits
  lits : ∀ c : Nat, .lit c ∈ x.args → c < k.lits.size
  proper : ∀ c : Nat, .lit c ∈ x.args → (k.lit c).kind.isFloat = false → (k.lit c).Proper
  kinded : k.Kinded x

/-- The destination of an integer operation and the numbers it operates on. -/
structure Opnds (k : Fn) (s : Regs Lit) (x : Ins) (d : RegId) (u v : Int) : Prop where
  args : ∃ a b, x.args = [.reg d, a, b]
  written : x.written = [d]
  first : k.argOf s (x.arg 1) = .val (.ofInt (k.reg d).kind u)
  second : k.argOf s (x.arg 2) = .val (.ofInt (k.reg d).kind v)
  isInt : (k.reg d).kind.isInt
  spans1 : (k.reg d).kind.Spans u
  spans2 : (k.reg d).kind.Spans v

lemma Ins.Fits.three_args (hx : x.Fits) {fam : Fam} (hfam : x.op.fam = fam)
  (hcnt : fam.defCount = 1) (hthree : fam.opndCount = 3) :
  ∃ d a b, x.args = [.reg d, a, b] ∧ x.written = [d] := by
  obtain ⟨a0, a, b, hargs⟩ := length_eq_three.1 ((hx.length_args hfam).trans hthree)
  obtain ⟨d, rest, hdest, hwr⟩ := hx.dest_args (by rwa [Op.defCount, hfam]) (by simp [hargs])
  obtain rfl : a0 = .reg d := by simpa [hargs] using congrArg List.head? hdest
  exact ⟨d, a, b, hargs, hwr⟩

lemma Fn.Sound.opnds (hx : k.Sound x) (hs : k.Holding s) (hint : k.Integral x)
  (hfam : x.op.fam = .alu) : ∃ d u v, Opnds k s x d u v := by
  obtain ⟨d, a, b, hargs, hwr⟩ := hx.fits.three_args hfam rfl rfl
  obtain ⟨c, hc, hops⟩ := Op.opnds_alu hfam
  have ha := hx.fits.arg_isValue (n := 1) (by rw [hops]; rfl) (.inr (.inr rfl))
  have hb := hx.fits.arg_isValue (n := 2) (by rw [hops]; rfl) (.inr (.inr rfl))
  obtain ⟨hkind1, hkind2, hnum⟩ := hx.kinded.alu hfam
  have harg : ∀ n < 3, x.arg n ∈ x.args := fun n hn =>
    mem_of_getElem? (getElem?_of_arg (by simpa [hargs] using hn))
  have hzero : x.arg 0 = .reg d := by rw [arg, hargs]; rfl
  have hval : ∀ n, n < 3 → (x.arg n).isValue → k.kindOf (x.arg n) = k.kindOf (x.arg 0) →
      ∃ u, k.argOf s (x.arg n) = .val (.ofInt (k.reg d).kind u) ∧ (k.reg d).kind.Spans u := by
    intro n hn hisValue hkind
    obtain ⟨u, hu⟩ := argOf_eq_ofInt hs hisValue
      (fun c hc => hx.proper c (hc ▸ harg n hn)) (hint _ (harg n hn))
    rw [hkind, hzero] at hu
    exact ⟨u, hu⟩
  obtain ⟨u, hu, hspans1⟩ := hval 1 (by decide) ha hkind1
  obtain ⟨v, hv, hspans2⟩ := hval 2 (by decide) hb hkind2
  refine ⟨d, u, v, ⟨a, b, hargs⟩, hwr, hu, hv, ?_, hspans1, hspans2⟩
  have hfloat := hint _ (harg 0 (by decide))
  rw [hzero] at hnum hfloat
  rcases hnum with h | h
  · exact h
  · exact absurd h (by rw [hfloat]; decide)

lemma Opnds.does (h : Opnds k s x d u v) (hfam : x.op.fam = .alu) : m.does k x s =
  .set [d] (m.alu x.op (.ofInt (k.reg d).kind u) (.ofInt (k.reg d).kind v)) := by
  obtain ⟨a, b, hargs⟩ := h.args
  have hfst := h.first
  have hsecond := h.second
  rw [arg, hargs] at hfst hsecond
  rw [m.does_alu hfam hargs hfst hsecond, h.written]

/-! ## Cheaper forms -/

/-- A cheaper instruction, and the literal that it needs. -/
inductive Cheaper (k : Fn) (x : Ins) : Ins → Option Lit → Prop where
  | first (h : keepsFirst k x) : Cheaper k x (.of .mov [x.arg 0, x.arg 1]) none
  | second (h : keepsSecond k x) : Cheaper k x (.of .mov [x.arg 0, x.arg 2]) none
  | zero (h : isZeroRes k x) : Cheaper k x (.of .mov [x.arg 0, .lit k.lits.size])
      (some (.ofInt (k.kindOf (x.arg 0)) 0))
  | shift {n p w : Nat} {c : Lit} (hn : n = 1 ∧ p = 2 ∨ n = 2 ∧ p = 1)
      (hc : powerOfTwo? k x p = some c) (hw : c.value = .int (2 ^ w : Nat)) :
      Cheaper k x (.of .shl [x.arg 0, x.arg n, .lit k.lits.size])
        (some (.ofInt (k.kindOf (x.arg 0)) w))

def Fn.adding (k : Fn) : Option Lit → Fn
  | none => k
  | some v => { k with lits := k.lits.push v }

lemma keepsFirst_cases (h : keepsFirst k x) : ∃ v, k.litOf? (x.arg 2) = some v ∧ 2 < x.args.length ∧
  ((x.op = .lea ∨ x.op = .add ∨ x.op = .sub ∨ x.op = .shl ∨ x.op = .shr ∨ x.op = .or ∨
    x.op = .xor) ∧ v.isZero ∨ (x.op = .mul ∨ x.op = .div) ∧ v.isOne) := by
  unfold keepsFirst at h
  split at h
  · rename_i a0 a1 c rest hargs
    split at h
    · rename_i v hv
      refine ⟨v, by rw [arg, hargs]; exact hv, by simp [hargs], ?_⟩
      split at h <;> simp_all
    · cases h
  · cases h

lemma keepsSecond_cases (h : keepsSecond k x) : ∃ v, k.litOf? (x.arg 1) =
  some v ∧ ((x.op = .add ∨ x.op = .or ∨ x.op = .xor) ∧ v.isZero ∨ x.op = .mul ∧ v.isOne) := by
  unfold keepsSecond at h
  split at h
  · rename_i a0 c rest hargs
    split at h
    · rename_i v hv
      refine ⟨v, by rw [arg, hargs]; exact hv, ?_⟩
      split at h <;> simp_all
    · cases h
  · cases h

lemma isZeroRes_cases (h : isZeroRes k x) :
  (x.op = .xor ∨ x.op = .sub) ∧ k.sameOpnd (x.arg 1) (x.arg 2) ∨
    (x.op = .shl ∨ x.op = .shr ∨ x.op = .mul) ∧ (k.litOf? (x.arg 1)).any isZero ∨
    x.op = .mul ∧ (k.litOf? (x.arg 2)).any isZero := by
  unfold isZeroRes at h
  split at h <;> simp_all

lemma powerOfTwo?_eq_some {p : Nat} (h : powerOfTwo? k x p = some c) :
  x.op = .mul ∧ (k.kindOf (x.arg 0)).isInt ∧ k.litOf? (x.arg p) = some c ∧ c.isPowerOfTwo := by
  unfold powerOfTwo? at h
  split at h
  · rename_i hcond
    simp only [Bool.and_eq_true, decide_eq_true_eq] at hcond
    obtain ⟨hc, hpow⟩ := Option.filter_eq_some_iff.1 h
    exact ⟨hcond.1, hcond.2, hc, hpow⟩
  · cases h

lemma Lit.log2_of_isPowerOfTwo (h : c.isPowerOfTwo) (hne : c.isZero = false) :
  ∃ w, c.log2 = .ok w ∧ c.value = .int (2 ^ w : Nat) := by
  obtain ⟨kind, n | v⟩ := c
  · have hn : n ≠ 0 := by simpa [isZero, Scalar.isZero, Scalar.same] using hne
    obtain ⟨hpos, hpow⟩ := eq_two_pow_of_andInt hn (by simpa [isPowerOfTwo] using h)
    exact ⟨Nat.log2 n.toNat, by simp [log2, hpos], congrArg Scalar.int hpow⟩
  · cases h

lemma reduceIns_ensures {i : InsId} {bad : Fault → Prop} (hx : (k.ins i).Fits) :
  Ens (reduceIns i) k bad fun r k' => r.getD [i] = [i] ∧ (k' = reduceAmount k (k.ins i) ∨
      ∃ y new, Cheaper (reduceAmount k (k.ins i)) (k.ins i) y new ∧
        k' = ((reduceAmount k (k.ins i)).adding new).setIns i y) := by
  have hins : (reduceAmount k (k.ins i)).ins i = k.ins i := by
    unfold reduceAmount
    split
    · split <;> rfl
    · rfl
  refine ens_modify_bind (ens_get_bind ?_)
  generalize hk1 : reduceAmount k (k.ins i) = k1 at *
  dsimp only
  rw [hins]
  generalize k.ins i = x at *
  have hset : ∀ {op : Op} {args : List Opnd} {y : Ins} (new : Option Lit),
      args.length = op.opnds.length → of op args = y → Cheaper k1 x y new →
      Ens (do resetIns i op args; return some [i]) (k1.adding new) bad fun r k' =>
        r.getD [i] = [i] ∧ (k' = k1 ∨ ∃ y new, Cheaper k1 x y new ∧
          k' = (k1.adding new).setIns i y) := by
    rintro op args y new hlen rfl hcheap
    exact ens_bind_of_ok (a := ⟨⟩) (run_resetIns_ok.2 ⟨hlen, rfl⟩)
      (ens_pure ⟨rfl, .inr ⟨_, new, hcheap, rfl⟩⟩)
  have hthree : x.op.opnds.length = 3 → ∃ a0 a1 a2, x.args = [a0, a1, a2] := fun h =>
    length_eq_three.1 (hx.length.trans h)
  split
  · rename_i hfst
    obtain ⟨v, -, -, hop⟩ := keepsFirst_cases hfst
    obtain ⟨a0, a1, a2, hargs⟩ := hthree (by
      rcases hop with ⟨h | h | h | h | h | h | h, -⟩ | ⟨h | h, -⟩ <;> rw [h] <;> rfl)
    exact hset none (by rw [hargs]; rfl) (by simp [arg, hargs]) (.first hfst)
  · split
    · rename_i hsecond
      obtain ⟨v, -, hop⟩ := keepsSecond_cases hsecond
      obtain ⟨a0, a1, a2, hargs⟩ := hthree (by
        rcases hop with ⟨h | h | h, -⟩ | ⟨h, -⟩ <;> rw [h] <;> rfl)
      exact hset none (by rw [hargs]; rfl) (by simp [arg, hargs]) (.second hsecond)
    · split
      · rename_i hzero
        exact hset (some _) rfl rfl (.zero hzero)
      · rename_i hzero
        -- A factor that is a power of two is not zero, or the result would be known.
        have hshift : ∀ {n p : Nat} {c : Lit}, n = 1 ∧ p = 2 ∨ n = 2 ∧ p = 1 →
            powerOfTwo? k1 x p = some c → Ens (do
              let w ← attempt c.log2
              resetIns i .shl [x.arg 0, x.arg n, ← newLit (k1.kindOf (x.arg 0)) w]
              return some [i]) k1 bad fun r k' => r.getD [i] = [i] ∧
              (k' = k1 ∨ ∃ y new, Cheaper k1 x y new ∧ k' = (k1.adding new).setIns i y) := by
          intro n p c hn hc
          obtain ⟨hop, -, hlit, hpow⟩ := powerOfTwo?_eq_some hc
          have hne : c.isZero = false := by
            by_contra hcz
            refine hzero ?_
            rcases hn with ⟨-, rfl⟩ | ⟨-, rfl⟩ <;> simp_all [isZeroRes]
          obtain ⟨w, hw, hval⟩ := log2_of_isPowerOfTwo hpow hne
          refine ens_attempt_bind hw ?_
          exact hset (some _) rfl rfl (.shift hn hc hval)
        split
        · exact hshift (.inl ⟨rfl, rfl⟩) ‹_›
        · exact hshift (.inr ⟨rfl, rfl⟩) ‹_›
        · exact ens_pure ⟨rfl, .inl rfl⟩

/-! ## Cheaper forms compute the same -/

lemma Sem.does_move (m : Sem) {v : Lit} (hd : x.arg 0 = .reg d)
  (ha : k.argOf s a = .val v) : m.does k (.of .mov [x.arg 0, a]) s = .set [d] v := by
  rw [m.does_mov rfl rfl ha, hd]
  rfl

section
variable (h : Opnds k s x d u v)
include h

lemma Opnds.arg_zero : x.arg 0 = .reg d := by
  obtain ⟨a, b, hargs⟩ := h.args
  rw [arg, hargs]
  rfl

lemma Opnds.second_eq (hc : k.litOf? (x.arg 2) = some c) : c = .ofInt (k.reg d).kind v := by
  have hval := h.second
  rw [argOf_of_litOf? hc] at hval
  exact Arg.val.inj hval

lemma Opnds.first_eq (hc : k.litOf? (x.arg 1) = some c) : c = .ofInt (k.reg d).kind u := by
  have hval := h.first
  rw [argOf_of_litOf? hc] at hval
  exact Arg.val.inj hval

end

lemma Lit.eq_zero_of_isZero (h : (ofInt kind n).isZero) : n = 0 := by
  simpa [isZero, Scalar.isZero, Scalar.same, ofInt] using h

lemma Lit.eq_one_of_isOne (h : (ofInt kind n).isOne) : n = 1 := by
  simpa [isOne, Scalar.isOne, Scalar.same, ofInt] using h

lemma Opnds.eq_of_same (h : Opnds k s x d u v)
  (hsame : k.sameOpnd (x.arg 1) (x.arg 2)) : u = v := by
  have hfst := h.first
  have hsecond := h.second
  unfold sameOpnd at hsame
  split at hsame
  · rename_i c e hc he
    rw [hc] at hfst
    rw [he] at hsecond
    have hc' : k.lit c = .ofInt (k.reg d).kind u := Arg.val.inj hfst
    have he' : k.lit e = .ofInt (k.reg d).kind v := Arg.val.inj hsecond
    rcases (Bool.or_eq_true_iff).1 hsame with heq | heq
    · rw [beq_iff_eq.1 heq, he'] at hc'
      simpa [ofInt] using hc'.symm
    · rw [hc', he'] at heq
      simpa [same, ofInt, Scalar.same] using heq
  · rw [beq_iff_eq.1 hsame, hsecond] at hfst
    simpa [ofInt] using hfst.symm

/-- An address computation without offset. -/
lemma Fn.Sound.does_lea (hx : k.Sound x) (hs : k.Holding s) (hint : k.Integral x) (hwide : m.Wide k)
  (hop : x.op = .lea) {v : Lit} (hv : k.litOf? (x.arg 2) = some v) (hzero : v.isZero) :
  ∃ d u, x.arg 0 = .reg d ∧ k.argOf s (x.arg 1) = .val u ∧ m.does k x s = .set [d] u := by
  have hfam : x.op.fam = .lea := by rw [hop]; rfl
  obtain ⟨d, a, b, hargs, hwr⟩ := hx.fits.three_args hfam rfl rfl
  have ha := hx.fits.arg_isValue (n := 1) (by rw [hop]; rfl) (.inr (.inr rfl))
  obtain ⟨hkind, haddr⟩ := hx.kinded.lea hop
  simp only [arg, hargs, getD_cons_zero, getD_cons_succ] at ha hkind haddr hv ⊢
  obtain ⟨u, hu, hspans⟩ := argOf_eq_ofInt hs ha
    (fun c hc => hx.proper c (by simp [hargs, hc])) (hint a (by simp [hargs]))
  rw [hkind] at hu hspans
  simp only [kindOf] at hu hspans haddr
  refine ⟨d, _, rfl, hu, ?_⟩
  have hsources : k.srcs x s = [.val (.ofInt (k.reg d).kind u), .val v] := by
    rw [← hu, ← argOf_of_litOf? hv s]
    simp [srcs, Op.defCount, hfam, hargs, Fam.defCount]
  have hspans' : inRange false (k.reg d).kind.bits u := by rwa [Kind.Spans, haddr] at hspans
  have hbits : 0 < (k.reg d).kind.bits := by cases (k.reg d).kind <;> decide
  simp only [Sem.does, hsources, Sem.perform, hfam, destKind, hwr, Sem.pointer,
    Sem.base, number_of_isZero hzero, ← hwide d haddr]
  rw [Int.add_zero]
  exact congrArg _ (congrArg _ (signedOf_of_inRange hbits hspans'))

lemma Cheaper.does (h : Cheaper k x y new) (hm : m.Wraps) (hwide : m.Wide k) (hx : k.Sound x)
  (hs : k.Holding s) (hint : k.Integral x) : m.does (k.adding new) y s = m.does k x s := by
  have halu : ∀ {op : Op}, x.op = op → op.fam = .alu → ∃ d u v, Opnds k s x d u v ∧
      m.does k x s = .set [d] (m.alu op (.ofInt (k.reg d).kind u) (.ofInt (k.reg d).kind v)) := by
    rintro _ rfl hfam
    obtain ⟨d, u, v, hops⟩ := hx.opnds hs hint hfam
    exact ⟨d, u, v, hops, hops.does hfam⟩
  cases h with
  | first h =>
    obtain ⟨c, hc, -, hop⟩ := keepsFirst_cases h
    by_cases hlea : x.op = .lea
    · have hzero : c.isZero := by
        rcases hop with ⟨-, hzero⟩ | ⟨hmul | hdiv, -⟩
        · exact hzero
        · rw [hlea] at hmul
          cases hmul
        · rw [hlea] at hdiv
          cases hdiv
      obtain ⟨d, u, hd, hu, hdoes⟩ := hx.does_lea hs hint hwide hlea hc hzero
      rw [hdoes]
      exact m.does_move hd hu
    · obtain ⟨d, u, v, hops, hdoes⟩ := halu rfl (by
        rcases hop with ⟨h | h | h | h | h | h | h, -⟩ | ⟨h | h, -⟩ <;>
          first | exact absurd h hlea | (rw [h]; rfl))
      rw [hops.second_eq hc] at hop
      rw [hdoes, hm.alu_keeps_first hops.isInt hops.spans1 hops.spans2
        (hop.imp (.imp (·.resolve_left hlea) eq_zero_of_isZero) (.imp_right eq_one_of_isOne))]
      exact m.does_move hops.arg_zero hops.first
  | second h =>
    obtain ⟨c, hc, hop⟩ := keepsSecond_cases h
    obtain ⟨d, u, v, hops, hdoes⟩ := halu rfl (by
      rcases hop with ⟨h | h | h, -⟩ | ⟨h, -⟩ <;> rw [h] <;> rfl)
    rw [hops.first_eq hc] at hop
    rw [hdoes, hm.alu_keeps_second hops.isInt hops.spans1 hops.spans2
      (hop.imp (.imp_right eq_zero_of_isZero) (.imp_right eq_one_of_isOne))]
    exact m.does_move hops.arg_zero hops.second
  | zero h =>
    have hcases := isZeroRes_cases h
    obtain ⟨d, u, v, hops, hdoes⟩ := halu rfl (by
      rcases hcases with ⟨h | h, -⟩ | ⟨h | h | h, -⟩ | ⟨h, -⟩ <;> rw [h] <;> rfl)
    have hnumbers : (x.op = .xor ∨ x.op = .sub) ∧ u = v ∨
        (x.op = .shl ∨ x.op = .shr ∨ x.op = .mul) ∧ u = 0 ∨ x.op = .mul ∧ v = 0 := by
      refine hcases.imp (.imp_right hops.eq_of_same) (.imp (.imp_right fun hany => ?_)
        (.imp_right fun hany => ?_))
      · obtain ⟨c, hc, hzero⟩ := (Option.any_eq_true _ _).1 hany
        exact eq_zero_of_isZero (hops.first_eq hc ▸ hzero)
      · obtain ⟨c, hc, hzero⟩ := (Option.any_eq_true _ _).1 hany
        exact eq_zero_of_isZero (hops.second_eq hc ▸ hzero)
    rw [hdoes, hm.alu_zero hops.isInt hops.spans1 hops.spans2 hnumbers]
    refine m.does_move hops.arg_zero ?_
    rw [hops.arg_zero]
    simp [adding, argOf, lit, kindOf]
  | @shift n p w c hn hc hw =>
    obtain ⟨hop, hisInt, hlit, -⟩ := powerOfTwo?_eq_some hc
    obtain ⟨d, u, v, hops, hdoes⟩ := halu hop rfl
    have hlen : x.args.length = 3 := hx.fits.length_args (show x.op.fam = .alu by rw [hop]; rfl)
    -- The other factor has the value that it had, and is shifted by the new literal.
    have hshifted : ∀ {t : Int}, n < 3 → k.argOf s (x.arg n) = .val (.ofInt (k.reg d).kind t) →
        m.does (k.adding (some (.ofInt (k.kindOf (x.arg 0)) w)))
          (.of .shl [x.arg 0, x.arg n, .lit k.lits.size]) s =
        .set [d] (m.alu .shl (.ofInt (k.reg d).kind t) (.ofInt (k.reg d).kind w)) := by
      intro t hn hval
      have hkept : (k.adding (some (.ofInt (k.kindOf (x.arg 0)) w))).argOf s (x.arg n) =
          k.argOf s (x.arg n) := by
        have hmem := mem_of_getElem? (getElem?_of_arg (x := x) (n := n) (by omega))
        cases harg : x.arg n with
        | lit e => exact congrArg Arg.val (lit_push (hx.lits e (harg ▸ hmem)))
        | _ => rfl
      have hnew : (k.adding (some (.ofInt (k.kindOf (x.arg 0)) w))).argOf s (.lit k.lits.size) =
          .val (.ofInt (k.reg d).kind w) := by
        rw [hops.arg_zero]
        simp [adding, argOf, lit, kindOf]
      rw [m.does_alu rfl rfl (hkept.trans hval) hnew, hops.arg_zero]
      rfl
    rcases hn with ⟨rfl, rfl⟩ | ⟨rfl, rfl⟩
    · obtain rfl : v = (2 ^ w : Nat) := by
        rw [hops.second_eq hlit] at hw
        exact Scalar.int.inj hw
      rw [hshifted (by decide) hops.first, hdoes, hm.mul_two_pow hops.isInt hops.spans1 hops.spans2]
    · obtain rfl : u = (2 ^ w : Nat) := by
        rw [hops.first_eq hlit] at hw
        exact Scalar.int.inj hw
      rw [hshifted (by decide) hops.second, hdoes, hm.two_pow_mul hops.isInt hops.spans2 hops.spans1]

end

/-! ## Literals that are shared

Once literals have been propagated, several operands hold the same one. `Apart` says that literals
which change are held by shifts only; then every integer instruction still computes what it did.
Otherwise some move gives its register another value. -/

variable {c n : Nat} {bad : Fault → Prop}

/-! ## Amounts -/

def Ins.isAmount (x : Ins) (n : Nat) : Bool := (x.op = .shl || x.op = .shr) && n = 2
def Lit.reduced (v : Lit) : Lit := .ofInt v.kind (v.number % v.kind.bits)

namespace Fn

def Has (g : Fn) (i : InsId) : Prop := ∃ b ∈ g.order, i ∈ (g.blk b).code

def Amount (g : Fn) (c : LitId) : Prop :=
  ∃ i, g.Has i ∧ ∃ n : Nat, (g.ins i).isAmount n ∧ (g.ins i).args[n]? = some (.lit c)

def Stable (g : Fn) (c : LitId) : Prop := g.Amount c → (g.lit c).reduced = g.lit c

/-- Literals that are held by anything but shifts as their amount do not change. -/
def Apart (g : Fn) : Prop :=
  ∀ i, g.Has i → ∀ (n : Nat) (c : LitId), (g.ins i).args[n]? = some (.lit c) →
    (g.ins i).isAmount n = false → g.Stable c

def Unshared (f : Fn) : Prop :=
  ∀ i j, f.Has i → f.Has j → ∀ (n n' : Nat) (c : LitId), (f.ins i).args[n]? = some (.lit c) →
    (f.ins j).args[n']? = some (.lit c) → i = j ∧ n = n'

def amounts (g : Fn) : List LitId :=
  (g.order.flatMap fun b => (g.blk b).code).filterMap fun i =>
    if (g.ins i).isAmount 2 then ((g.ins i).args[2]?).bind Opnd.lit? else none

lemma mem_amounts {g : Fn} {c : LitId} : c ∈ g.amounts ↔ g.Amount c := by
  simp only [amounts, mem_filterMap, mem_flatMap]
  refine exists_congr fun i => and_congr_right fun _ => ?_
  constructor
  · intro h
    split at h
    · obtain ⟨a, ha, hc⟩ := Option.bind_eq_some_iff.1 h
      cases a with
      | lit e =>
        cases hc
        exact ⟨2, ‹_›, ha⟩
      | _ => cases hc
    · cases h
  · rintro ⟨n, hn, harg⟩
    obtain rfl : n = 2 := by
      simp only [isAmount, Bool.and_eq_true, decide_eq_true_eq] at hn
      exact hn.2
    rw [if_pos hn, harg]
    rfl

lemma apart_iff {g : Fn} : g.Apart ↔ ∀ b ∈ g.order, ∀ i ∈ (g.blk b).code,
  ∀ p ∈ (g.ins i).args.zipIdx, ∀ c ∈ p.1.lit?, (g.ins i).isAmount p.2 = false →
    c ∈ g.amounts → (g.lit c).reduced = g.lit c := by
  constructor
  · rintro h b hb i hi ⟨a, n⟩ hp c hc hn hamount
    refine h i ⟨b, hb, hi⟩ n c ?_ hn (mem_amounts.1 hamount)
    cases a with
    | lit e =>
      cases hc
      exact mem_zipIdx_iff_getElem?.1 hp
    | _ => cases hc
  · rintro h i ⟨b, hb, hi⟩ n c harg hn hamount
    exact h b hb i hi (.lit c, n) (mem_zipIdx_iff_getElem?.2 harg) c rfl hn (mem_amounts.2 hamount)

instance (g : Fn) : Decidable g.Apart := decidable_of_iff _ apart_iff.symm

end Fn

section
variable {v : Lit}

@[simp] lemma Lit.reduced_kind (v : Lit) : v.reduced.kind = v.kind := rfl

lemma Lit.reduced_reduced (v : Lit) : v.reduced.reduced = v.reduced := by
  show ofInt v.kind (v.number % v.kind.bits % v.kind.bits) = _
  rw [Int.emod_emod_of_dvd _ (Int.dvd_refl _)]
  rfl

lemma Lit.reduced_proper (v : Lit) : v.reduced.Proper := by
  have hbits : 0 < (v.kind.bits : Int) := by cases v.kind <;> decide
  exact ⟨rfl, spans_of_lt_bits (Int.emod_nonneg _ (by omega)) (Int.emod_lt_of_pos _ hbits)⟩

lemma Lit.andInt_eq_reduced (hv : v.Proper) : (match v.value with
      | .int n => { v with value := .int (andInt n (v.kind.bits - 1 : Nat)) }
      | .real _ => v) = v.reduced := by
  obtain ⟨w, hw, -⟩ := v.kind.bits_eq
  rw [hv.1, ofInt, reduced, hw]
  simp only [andInt_mask]
  rfl

end

section
variable {g k k' : Fn} {x : Ins} {i : InsId} {todo : List InsId} {s : Regs Lit} {m : Sem}
  {new : Option Lit}

/-! ## Reducing one amount -/

lemma Ins.getElem?_of_arg_lit {c : LitId} (h : x.arg n = .lit c) : x.args[n]? = some (.lit c) := by
  rw [arg, getD_eq_getElem?_getD] at h
  cases harg : x.args[n]? with
  | none =>
    rw [harg] at h
    cases h
  | some a =>
    rw [harg] at h
    exact congrArg some h

lemma Fn.lit_modifyLit_self (φ : Lit → Lit) (h : c < k.lits.size) :
  (k.modifyLit c φ).lit c = φ (k.lit c) := by
  simp [modifyLit, lit, h, Array.getElem_modify]

lemma Fn.lit_modifyLit_ne {e : Nat} (φ : Lit → Lit) (h : e ≠ c) :
  (k.modifyLit c φ).lit e = k.lit e := by
  simp [modifyLit, lit, Array.getElem?_modify, Ne.symm h]

/-- Reducing the amount of an instruction changes one literal at most. -/
lemma reduceAmount_lits (hx : k.Sound x) :
  ∃ lits, reduceAmount k x = { k with lits } ∧ lits.size = k.lits.size ∧
    ∀ c : Nat, (reduceAmount k x).lit c =
      if x.isAmount 2 ∧ x.arg 2 = .lit c then (k.lit c).reduced else k.lit c := by
  unfold reduceAmount isAmount
  split
  · rename_i hop
    have hshift : x.op = .shl ∨ x.op = .shr := by simpa using hop
    have hfam : x.op.fam = .alu := by rcases hshift with h | h <;> rw [h] <;> rfl
    split
    · rename_i e he
      have hmem : .lit e ∈ x.args := mem_of_getElem? (getElem?_of_arg_lit he)
      have hkind : k.kindOf (x.arg 0) = (k.lit e).kind := by
        rw [← (hx.kinded.alu hfam).2.1, he]
        rfl
      have hproper : (k.lit e).Proper := by
        have hint := hx.kinded.shift hshift
        rw [hkind] at hint
        exact hx.proper e hmem (Kind.isFloat_of_isInt hint)
      refine ⟨_, rfl, by simp, fun c => ?_⟩
      by_cases hc : c = e
      · subst hc
        rw [lit_modifyLit_self _ (hx.lits c hmem), if_pos (by simp [hop, he]), hkind]
        exact andInt_eq_reduced hproper
      · rw [lit_modifyLit_ne _ hc, if_neg]
        rintro ⟨-, hce⟩
        rw [he] at hce
        exact hc (Opnd.lit.inj hce).symm
    · rename_i hlit
      refine ⟨k.lits, rfl, rfl, fun c => ?_⟩
      rw [if_neg (fun h => hlit c h.2)]
  · rename_i hop
    refine ⟨k.lits, rfl, rfl, fun c => ?_⟩
    rw [if_neg (by simp [hop])]

/-! ## Reducing all of them -/

/-- A cheaper instruction computes what the old one did, and holds no literal that may change. -/
structure Settled (g k : Fn) (i : InsId) : Prop where
  lits : ∀ c : Nat, .lit c ∈ (k.ins i).args → c < k.lits.size ∧ (c < g.lits.size → g.Stable c)
  does : ∀ (m : Sem) (s : Regs Lit), m.Wraps → m.Wide g → g.Holding s →
    g.Integral (g.ins i) → m.does k (k.ins i) s = m.does g (g.ins i) s

/-- If the instruction is a shift, its amount has been reduced. -/
def Shifted (g k : Fn) (i : InsId) : Prop :=
  ∀ c : Nat, (g.ins i).isAmount 2 → (g.ins i).arg 2 = .lit c → k.lit c = (g.lit c).reduced

/-- How far the reduction of `g` has come: the instructions `todo` have not been visited. -/
structure Reducing (g k : Fn) (todo : List InsId) : Prop where
  frame : k = { g with lits := k.lits, code := k.code }
  codeSize : k.code.size = g.code.size
  litsSize : g.lits.size ≤ k.lits.size
  lits : ∀ c : Nat, c < g.lits.size → k.lit c = g.lit c ∨ g.Amount c ∧ k.lit c = (g.lit c).reduced
  nodup : todo.Nodup
  within : ∀ i ∈ todo, g.Has i
  waiting : ∀ i ∈ todo, k.ins i = g.ins i
  moves : ∀ i, g.Has i → (g.ins i).op = .mov → k.ins i = g.ins i
  shifted : ∀ i, g.Has i → i ∉ todo → Shifted g k i
  kept : g.Apart → ∀ i, g.Has i → k.ins i = g.ins i ∨ Settled g k i

namespace Reducing
variable (h : Reducing g k todo)
include h

lemma regs : k.regs = g.regs := by rw [h.frame]
lemma tables : k.tables = g.tables := by rw [h.frame]
lemma blk (b : BlkId) : k.blk b = g.blk b := by rw [h.frame]; rfl

lemma lit_kind (hc : c < g.lits.size) : (k.lit c).kind = (g.lit c).kind := by
  rcases h.lits c hc with hsame | ⟨-, hred⟩
  · rw [hsame]
  · rw [hred, reduced_kind]

lemma lit_eq (hc : c < g.lits.size) (hstable : g.Stable c) : k.lit c = g.lit c := by
  rcases h.lits c hc with hsame | ⟨hamount, hred⟩
  · exact hsame
  · rw [hred, hstable hamount]

lemma kindOf_arg (hx : g.Sound x) : k.kindOf (x.arg n) = g.kindOf (x.arg n) := by
  cases harg : x.arg n with
  | lit c => exact h.lit_kind (hx.lits c (mem_of_getElem? (getElem?_of_arg_lit harg)))
  | _ => simp only [kindOf, reg, h.regs]

lemma sound (hx : g.Sound x) : k.Sound x := by
  refine ⟨hx.fits, fun c hc => (hx.lits c hc).trans_le h.litsSize, fun c hc hfloat => ?_, ?_⟩
  · rw [h.lit_kind (hx.lits c hc)] at hfloat
    rcases h.lits c (hx.lits c hc) with hsame | ⟨-, hred⟩
    · rw [hsame]
      exact hx.proper c hc hfloat
    · rw [hred]
      exact reduced_proper _
  · obtain ⟨hmov, halu, hshift, hlea⟩ := hx.kinded
    refine ⟨?_, ?_, ?_, ?_⟩ <;> simp only [h.kindOf_arg hx] <;> assumption

lemma holding (hs : g.Holding s) : k.Holding s := by
  intro r
  rw [reg, h.regs]
  exact hs r

section
variable (hapart : g.Apart) (hi : g.Has i) (hx : g.Sound (g.ins i))
include hapart hi hx

lemma argOf_eq (ha : (g.ins i).args[n]? = some a)
  (hn : (g.ins i).isAmount n = false) : k.argOf s a = g.argOf s a := by
  cases a with
  | lit c =>
    exact congrArg Arg.val (h.lit_eq (hx.lits c (mem_of_getElem? ha)) (hapart i hi n c ha hn))
  | _ => rfl

section
variable (hm : m.Wraps) (hs : g.Holding s) (hint : g.Integral (g.ins i))
include hm hs hint

lemma does_shift (hop : (g.ins i).op = .shl ∨ (g.ins i).op = .shr) :
  m.does k (g.ins i) s = m.does g (g.ins i) s := by
  have hfam : (g.ins i).op.fam = .alu := by rcases hop with h | h <;> rw [h] <;> rfl
  obtain ⟨d, u, v, hops⟩ := hx.opnds hs hint hfam
  obtain ⟨a, b, hargs⟩ := hops.args
  have hfst : k.argOf s a = .val (.ofInt (g.reg d).kind u) := by
    rw [h.argOf_eq hapart hi hx (n := 1) (by rw [hargs]; rfl) (by simp [isAmount])]
    have hval := hops.first
    rwa [arg, hargs] at hval
  obtain ⟨w, hw, hcases⟩ : ∃ w, k.argOf s b = .val (.ofInt (g.reg d).kind w) ∧
      (w = v ∨ w = v % (g.reg d).kind.bits) := by
    have hval := hops.second
    rw [arg, hargs] at hval
    cases b with
    | lit c =>
      have hlit : g.lit c = .ofInt (g.reg d).kind v := Arg.val.inj hval
      rcases h.lits c (hx.lits c (by simp [hargs])) with hsame | ⟨-, hred⟩
      · exact ⟨v, congrArg Arg.val (hsame.trans hlit), .inl rfl⟩
      · rw [hlit] at hred
        exact ⟨_, congrArg Arg.val hred, .inr rfl⟩
    | _ => exact ⟨v, hval, .inl rfl⟩
  rw [m.does_alu hfam hargs hfst hw, hops.does hfam, hops.written]
  rcases hcases with rfl | rfl
  · rfl
  · rw [hm.alu_shift hops.isInt hops.spans1 hops.spans2 hop]

lemma does_ins : m.does k (g.ins i) s = m.does g (g.ins i) s := by
  by_cases hop : (g.ins i).op = .shl ∨ (g.ins i).op = .shr
  · exact h.does_shift hapart hi hx hm hs hint hop
  · refine m.does_congr h.regs h.tables rfl rfl (map_congr_left fun a ha => ?_)
    obtain ⟨n, hn⟩ := mem_iff_getElem?.1 (mem_of_mem_drop ha)
    refine h.argOf_eq hapart hi hx hn ?_
    rw [not_or] at hop
    simp [isAmount, hop.1, hop.2]

end

lemma does (hm : m.Wraps) (hwide : m.Wide g) (hs : g.Holding s) (hint : g.Integral (g.ins i)) :
  m.act k i s = m.act g i s := by
  rcases h.kept hapart i hi with hsame | hsettled
  · rw [Sem.act, hsame]
    exact h.does_ins hapart hi hx hm hs hint
  · exact hsettled.does m s hm hwide hs hint

end
end Reducing

/-- A cheaper instruction is not affected by changes to other literals. -/
lemma Settled.congr (h : Settled g k i) (hins : k'.ins i = k.ins i) (hregs : k'.regs = k.regs)
  (htbs : k'.tables = k.tables) (hsize : k.lits.size ≤ k'.lits.size)
  (hlit : ∀ c, c < k.lits.size → (c < g.lits.size → g.Stable c) → k'.lit c = k.lit c) :
  Settled g k' i := by
  refine ⟨fun c hc => ?_, fun m s hm hwide hs hint => ?_⟩
  · rw [hins] at hc
    exact (h.lits c hc).imp_left fun hlt => hlt.trans_le hsize
  · rw [← h.does m s hm hwide hs hint, hins]
    refine m.does_congr hregs htbs rfl rfl (map_congr_left fun a ha => ?_)
    cases a with
    | lit c =>
      obtain ⟨hlt, hstable⟩ := h.lits c (mem_of_mem_drop ha)
      exact congrArg Arg.val (hlit c hlt hstable)
    | _ => rfl

/-- What the reduction relies on: instructions are well formed, and each is in one place. -/
structure Fn.Numeric (g : Fn) : Prop where
  sound : ∀ i, g.Has i → g.Sound (g.ins i)
  sites : ∀ i : Nat, g.Has i → i < g.code.size
  once : (g.order.flatMap fun b => (g.blk b).code).Nodup

namespace Reducing

lemma refl (hg : g.Numeric) : Reducing g g (g.order.flatMap fun b => (g.blk b).code) where
  frame := rfl
  codeSize := rfl
  litsSize := le_rfl
  lits _ _ := .inl rfl
  nodup := hg.once
  within _ hi := mem_flatMap.1 hi
  waiting _ _ := rfl
  moves _ _ _ := rfl
  shifted _ hi hnot := absurd (mem_flatMap.2 hi) hnot
  kept _ _ _ := .inl rfl

lemma amount (h : Reducing g k (i :: todo)) (hg : g.Numeric) :
  Reducing g (reduceAmount k (g.ins i)) (i :: todo) ∧ Shifted g (reduceAmount k (g.ins i)) i := by
  have hi := h.within i (.head _)
  have hx := hg.sound i hi
  obtain ⟨lits, hframe, hsize, hlit⟩ := reduceAmount_lits (h.sound hx)
  generalize hk1 : reduceAmount k (g.ins i) = k1 at *
  have hreduced : ∀ c, c < g.lits.size → (k.lit c).reduced = (g.lit c).reduced := by
    intro c hc
    rcases h.lits c hc with hsame | ⟨-, hred⟩
    · rw [hsame]
    · rw [hred, reduced_reduced]
  have hlits : ∀ c, c < g.lits.size →
      k1.lit c = g.lit c ∨ g.Amount c ∧ k1.lit c = (g.lit c).reduced := by
    intro c hc
    rw [hlit c]
    split
    · rename_i hcond
      exact .inr ⟨⟨i, hi, 2, hcond.1, getElem?_of_arg_lit hcond.2⟩, hreduced c hc⟩
    · exact h.lits c hc
  have hins : ∀ j, k1.ins j = k.ins j := fun j => by rw [hframe]; rfl
  refine ⟨⟨?_, ?_, ?_, hlits, h.nodup, h.within, ?_, ?_, ?_, ?_⟩, ?_⟩
  · rw [hframe, h.frame]
  · rw [hframe]
    exact h.codeSize
  · rw [hframe]
    exact h.litsSize.trans hsize.ge
  · intro j hj
    rw [hins, h.waiting j hj]
  · intro j hj hop
    rw [hins, h.moves j hj hop]
  · intro j hj hnot c hamount harg
    rw [hlit c, h.shifted j hj hnot c hamount harg, reduced_reduced, ite_self]
  · intro hapart j hj
    rcases h.kept hapart j hj with hsame | hsettled
    · exact .inl (by rw [hins, hsame])
    · refine .inr (hsettled.congr (hins j) (by rw [hframe]) (by rw [hframe])
        (by rw [hframe]; exact hsize.ge) fun c _ hstable => ?_)
      rw [hlit c]
      split
      · rename_i hcond
        have harg := getElem?_of_arg_lit hcond.2
        have hc : c < g.lits.size := hx.lits c (mem_of_getElem? harg)
        rw [h.lit_eq hc (hstable hc), hstable hc ⟨i, hi, 2, hcond.1, harg⟩]
      · rfl
  · intro c hamount harg
    rw [hlit c, if_pos ⟨hamount, harg⟩]
    exact hreduced c (hx.lits c (mem_of_getElem? (getElem?_of_arg_lit harg)))

lemma stay (h : Reducing g k (i :: todo)) (hshifted : Shifted g k i) : Reducing g k todo where
  frame := h.frame
  codeSize := h.codeSize
  litsSize := h.litsSize
  lits := h.lits
  nodup := (nodup_cons.1 h.nodup).2
  within j hj := h.within j (.tail _ hj)
  waiting j hj := h.waiting j (.tail _ hj)
  moves := h.moves
  shifted j hj hnot := by
    by_cases hji : j = i
    · exact hji ▸ hshifted
    · exact h.shifted j hj (by simp [hji, hnot])
  kept := h.kept

end Reducing

/-! ## The whole pass -/

lemma Cheaper.lits (h : Cheaper k x y new) (hc : .lit c ∈ y.args) : c = k.lits.size ∧ new.isSome ∨
  ∃ n, x.args[n]? = some (.lit c) ∧ x.isAmount n = false := by
  have hold : ∀ n, .lit c = x.arg n → x.isAmount n = false →
      ∃ n, x.args[n]? = some (.lit c) ∧ x.isAmount n = false :=
    fun n harg hn => ⟨n, getElem?_of_arg_lit harg.symm, hn⟩
  have hzero : x.isAmount 0 = false := by simp [isAmount]
  have hone : x.isAmount 1 = false := by simp [isAmount]
  cases h <;> simp only [of, mem_cons, not_mem_nil, or_false] at hc
  case first => exact .inr (hc.elim (hold 0 · hzero) (hold 1 · hone))
  case second h =>
    obtain ⟨v, -, hop⟩ := keepsSecond_cases h
    have htwo : x.isAmount 2 = false := by
      rcases hop with ⟨h | h | h, -⟩ | ⟨h, -⟩ <;> simp [isAmount, h]
    exact .inr (hc.elim (hold 0 · hzero) (hold 2 · htwo))
  case zero =>
    exact hc.elim (fun hc => .inr (hold 0 hc hzero)) (fun hc => .inl ⟨Opnd.lit.inj hc, rfl⟩)
  case shift n p _ _ _ hv _ =>
    have hop := (powerOfTwo?_eq_some hv).1
    rcases hc with hc | hc | hc
    · exact .inr (hold 0 hc hzero)
    · exact .inr (hold n hc (by simp [isAmount, hop]))
    · exact .inl ⟨Opnd.lit.inj hc, rfl⟩

lemma Cheaper.op_ne_mov (h : Cheaper k x y new) : x.op ≠ .mov := by
  intro hmov
  cases h with
  | first h =>
    obtain ⟨_, -, -, hop⟩ := keepsFirst_cases h
    simp [hmov] at hop
  | second h =>
    obtain ⟨_, -, hop⟩ := keepsSecond_cases h
    simp [hmov] at hop
  | zero h =>
    have hop := isZeroRes_cases h
    simp [hmov] at hop
  | shift hn hv hw =>
    have hop := (powerOfTwo?_eq_some hv).1
    simp [hmov] at hop

lemma Fn.adding_size (k : Fn) (new : Option Lit) :
  (k.adding new).lits.size = k.lits.size + if new.isSome then 1 else 0 := by
  cases new <;> simp [adding]

lemma Fn.adding_lit (h : c < k.lits.size) : (k.adding new).lit c = k.lit c := by
  cases new with
  | none => rfl
  | some v => exact lit_push h

lemma Fn.adding_frame (k : Fn) (new : Option Lit) :
  k.adding new = { k with lits := (k.adding new).lits } := by
  cases new <;> rfl

namespace Reducing
section
variable (h : Reducing g k (i :: todo)) (hg : g.Numeric)
include h hg

lemma cheaper (hshifted : Shifted g k i) (hcheap : Cheaper k (g.ins i) y new) :
  Reducing g ((k.adding new).setIns i y) todo := by
  have hi := h.within i (.head _)
  have hx := hg.sound i hi
  have hframe := k.adding_frame new
  have hsize : k.lits.size ≤ (k.adding new).lits.size := by
    rw [adding_size]
    exact Nat.le_add_right _ _
  have hlit : ∀ c, c < k.lits.size → ((k.adding new).setIns i y).lit c = k.lit c :=
    fun c hc => adding_lit hc
  have hold : ∀ c, c < g.lits.size → ((k.adding new).setIns i y).lit c = k.lit c :=
    fun c hc => hlit c (hc.trans_le h.litsSize)
  have hself : ((k.adding new).setIns i y).ins i = y := by
    refine ins_setIns_self _ ?_
    rw [hframe]
    exact h.codeSize ▸ hg.sites i hi
  have hoth : ∀ j, j ≠ i → ((k.adding new).setIns i y).ins j = k.ins j := by
    intro j hji
    rw [ins_setIns_ne _ hji, hframe]
    rfl
  have hnext := h.stay hshifted
  have hne : ∀ j ∈ todo, j ≠ i := fun j hj hji => (nodup_cons.1 h.nodup).1 (hji ▸ hj)
  refine ⟨?_, ?_, h.litsSize.trans hsize, ?_, hnext.nodup, hnext.within, ?_, ?_, ?_, ?_⟩
  · rw [hframe, h.frame]
    rfl
  · rw [code_size_setIns, hframe]
    exact h.codeSize
  · intro c hc
    rw [hold c hc]
    exact h.lits c hc
  · intro j hj
    rw [hoth j (hne j hj), hnext.waiting j hj]
  · intro j hj hop
    have hji : j ≠ i := by
      rintro rfl
      exact hcheap.op_ne_mov hop
    rw [hoth j hji, h.moves j hj hop]
  · intro j hj hnot c hamount harg
    rw [hold c ((hg.sound j hj).lits c (mem_of_getElem? (getElem?_of_arg_lit harg)))]
    exact hnext.shifted j hj hnot c hamount harg
  · intro hapart j hj
    by_cases hji : j = i
    · subst hji
      refine .inr ⟨fun c hc => ?_, fun m s hm hwide hs hint => ?_⟩
      · rw [hself] at hc
        rcases hcheap.lits hc with ⟨rfl, hnew⟩ | ⟨n, harg, hn⟩
        · refine ⟨?_, fun hlt => absurd hlt h.litsSize.not_gt⟩
          show k.lits.size < (k.adding new).lits.size
          rw [adding_size, hnew]
          exact Nat.lt_succ_self _
        · have hlt := hx.lits c (mem_of_getElem? harg)
          exact ⟨hlt.trans_le (h.litsSize.trans hsize), fun _ => hapart j hj n c harg hn⟩
      · rw [hself, ← h.does_ins hapart hj hx hm hs hint]
        refine hcheap.does hm ?_ (h.sound hx) (h.holding hs) ?_
        · intro r
          rw [reg, h.regs]
          exact hwide r
        · intro a ha
          obtain ⟨n, hn⟩ := mem_iff_getElem?.1 ha
          rw [← arg_of_getElem? hn, h.kindOf_arg hx, arg_of_getElem? hn]
          exact hint a ha
    · rcases h.kept hapart j hj with hsame | hsettled
      · exact .inl (by rw [hoth j hji, hsame])
      · exact .inr (hsettled.congr (hoth j hji) (by rw [hframe]; rfl) (by rw [hframe]; rfl) hsize
          fun c hc _ => hlit c hc)

lemma visit : Ens (reduceIns i) k bad fun r k' => r.getD [i] = [i] ∧ Reducing g k' todo := by
  have hins : k.ins i = g.ins i := h.waiting i (.head _)
  have hx := hg.sound i (h.within i (.head _))
  obtain ⟨hnext, hshifted⟩ := h.amount hg
  refine (reduceIns_ensures (hins ▸ hx.fits)).mono fun r k' hk' => ⟨hk'.1, ?_⟩
  rw [hins] at hk'
  rcases hk'.2 with rfl | ⟨y, new, hcheap, rfl⟩
  · exact hnext.stay hshifted
  · exact hnext.cheaper hg hshifted hcheap

end
end Reducing

lemma reduceStrength_ensures (hg : g.Numeric) :
  Ens reduceStrength g bad fun _ k => Reducing g k [] := by
  have hcode : ∀ todo k, Reducing g k todo → ∀ b, (k.blk b).code = (g.blk b).code :=
    fun _ _ h b => by rw [h.blk]
  exact ens_rewrite hcode (fun _ _ _ h => h.visit hg) (.refl hg)

end

/-! ## Propagated literals -/

/-- The operands of instructions are where they may be and have the kinds that they should have. -/
def Fn.Checked (f : Fn) : Prop :=
  ∀ b ∈ f.order, ∀ i ∈ (f.blk b).code, checkTyping.{0} f (f.ins i) = .ok ()

/-- The operands of instructions have the kinds that they should have, and literals are numbers of
their kind. -/
def Fn.Typed (f : Fn) : Prop :=
  ∀ b ∈ f.order, ∀ i ∈ (f.blk b).code, checkTyping.{0} f (f.ins i) = .ok () ∧
    ∀ c : Nat, .lit c ∈ (f.ins i).args → (f.lit c).kind.isFloat = false → (f.lit c).Proper

section
variable {sem : Sem → Prop} {f g k : Fn} {first : BlkId} {entry : BlkId → DefMap}
  {i j : InsId}
  {c : LitId} {n' : Nat}

lemma Fn.Has.exists_at (h : f.Has i) : ∃ b ∈ f.order, ∃ pre, f.At b pre i := by
  obtain ⟨b, hb, hi⟩ := h
  obtain ⟨pre, post, hcode⟩ := append_of_mem hi
  exact ⟨b, hb, pre, post, hcode⟩

lemma Annotated.filled (h : Annotated f g entry f.order) : Filled f g := by
  refine ⟨by rw [h.frame], fun b hb => by rw [h.blk b hb], fun b hb i hi => ?_⟩
  obtain ⟨pre, post, hcode⟩ := append_of_mem hi
  rw [h.ins b hb pre i ⟨post, hcode⟩]
  exact Fills.refl _

lemma Fills.integral {x : Ins} (h : Fills f x y) (hlits : g.lits = f.lits)
  (hregs : g.regs = f.regs) (hx : f.Integral x) : g.Integral y := by
  intro a ha
  obtain ⟨n, hn⟩ := mem_iff_getElem?.1 ha
  rw [← arg_of_getElem? hn, h.kindOf hlits hregs]
  rcases h.2 n with hsame | ⟨r, -, hr, -⟩
  · rw [arg_of_getElem? (hsame ▸ hn)]
    exact hx a (mem_of_getElem? (hsame ▸ hn))
  · rw [arg_of_getElem? hr]
    exact hx _ (mem_of_getElem? hr)

section
variable (h : Filled f g)
include h

lemma Filled.has_iff (hord : g.order = f.order) : g.Has i ↔ f.Has i := by
  simp only [Fn.Has, hord]
  constructor
  · rintro ⟨b, hb, hi⟩
    exact ⟨b, hb, h.code b hb ▸ hi⟩
  · rintro ⟨b, hb, hi⟩
    exact ⟨b, hb, (h.code b hb).symm ▸ hi⟩

/-- A function whose literals have been propagated is ready for reduction. -/
lemma Filled.numeric (ht : Tracks sem f first entry g) (hf : f.Connected first)
  (hfits : f.Fitting) (htyped : f.Typed) : g.Numeric := by
  refine ⟨fun i hi => ?_, fun i hi => ?_, ?_⟩
  · obtain ⟨b, hb, pre, hat⟩ := ((h.has_iff ht.order).1 hi).exists_at
    have hstd := ht.stands b hb pre i hat
    have hins := h.ins b hb i hat.mem
    refine ⟨hstd.fits, hstd.lits, fun c hc hfloat => ?_, ?_⟩
    · rw [lit, h.lits] at hfloat ⊢
      obtain ⟨n, hn⟩ := mem_iff_getElem?.1 hc
      rcases hins.2 n with harg | ⟨-, e, -, -, he, -, b', hb', j, hj, -, hmoved⟩
      · exact (htyped b hb i hat.mem).2 c (mem_of_getElem? (harg ▸ hn)) hfloat
      · obtain rfl : e = c := by simpa using he.symm.trans hn
        exact (htyped b' hb' j hj).2 e (mem_of_getElem? hmoved) hfloat
    · exact hins.kinded h.lits ht.regs ((hfits b hb i hat.mem).1.kinded (htyped b hb i hat.mem).1)
  · obtain ⟨b, hb, hmem⟩ := (h.has_iff ht.order).1 hi
    rw [ht.codeSize]
    exact hf.sites b hb i hmem
  · have hcode : (g.order.flatMap fun b => (g.blk b).code) =
        f.order.flatMap fun b => (f.blk b).code := by
      rw [ht.order]
      exact flatMap_congr fun b hb => h.code b hb
    rw [hcode]
    exact hf.once

/-- Two operands hold the same literal only if it is moved somewhere. -/
lemma Filled.moved_of_shared (hunshared : f.Unshared) (hi : f.Has i) (hj : f.Has j)
  (hargi : (g.ins i).args[n]? = some (.lit c)) (hargj : (g.ins j).args[n']? = some (.lit c))
  (hne : ¬ (i = j ∧ n = n')) : f.Moved c := by
  have hcases : ∀ {i : InsId} {n : Nat}, f.Has i → (g.ins i).args[n]? = some (.lit c) →
      (f.ins i).args[n]? = some (.lit c) ∨ f.Moved c := by
    rintro i n ⟨b, hb, hi⟩ harg
    rcases (h.ins b hb i hi).2 n with hsame | ⟨-, e, -, -, he, -, hmoved⟩
    · exact .inl (hsame ▸ harg)
    · obtain rfl : e = c := by simpa using he.symm.trans harg
      exact .inr hmoved
  rcases hcases hi hargi with hold | hmoved
  · rcases hcases hj hargj with hold' | hmoved
    · exact absurd (hunshared i j hi hj n n' c hold hold') hne
    · exact hmoved
  · exact hmoved

lemma Filled.mov_arg (hi : f.Has i) (hop : (f.ins i).op = .mov)
  (harg : (f.ins i).args[1]? = some (.lit c)) :
  (g.ins i).op = .mov ∧ (g.ins i).args[1]? = some (.lit c) := by
  obtain ⟨b, hb, hmem⟩ := hi
  obtain ⟨hopg, hargs⟩ := h.ins b hb i hmem
  refine ⟨hopg.trans hop, ?_⟩
  rcases hargs 1 with hsame | ⟨r, -, hr, -⟩
  · rw [hsame, harg]
  · rw [harg] at hr
    cases hr

end

lemma Fn.Sound.amount_isInt {x : Ins} (hx : g.Sound x) (hop : x.op = .shl ∨ x.op = .shr)
  (harg : x.args[2]? = some (.lit c)) : (g.lit c).kind.isInt := by
  have hfam : x.op.fam = .alu := by rcases hop with h | h <;> rw [h] <;> rfl
  have hkind : g.kindOf (.lit c) = g.kindOf (x.arg 0) :=
    arg_of_getElem? harg ▸ (hx.kinded.alu hfam).2.1
  have hint := hx.kinded.shift hop
  rwa [← hkind] at hint

/-- An amount that is shared and changes is moved somewhere as another number. -/
lemma Reducing.mov_differs (hr : Reducing g k []) (h : Filled f g) (hord : g.order = f.order)
  (hg : g.Numeric) (hfits : f.Fitting) (htyped : f.Typed) (hunshared : f.Unshared)
  (hshared : ¬ g.Apart) : ∃ j, f.Has j ∧ (f.ins j).op = .mov ∧ f.Integral (f.ins j) ∧
    ∀ (m : Sem) s, m.act k j s ≠ m.act f j s := by
  simp only [Fn.Apart, Fn.Stable, not_forall] at hshared
  obtain ⟨i, hi, n, c, hargi, hn, ⟨i', hi', n', hn', hargi'⟩, hchanges⟩ := hshared
  have hhas : ∀ {i}, g.Has i ↔ f.Has i := h.has_iff hord
  obtain ⟨b, hb, j, hj, hop, hargj⟩ :=
    h.moved_of_shared hunshared (hhas.1 hi) (hhas.1 hi') hargi hargi' (by
      rintro ⟨rfl, rfl⟩
      rw [hn] at hn'
      cases hn')
  have hhasj : f.Has j := ⟨b, hb, hj⟩
  obtain ⟨hshift, rfl⟩ : ((g.ins i').op = .shl ∨ (g.ins i').op = .shr) ∧ n' = 2 := by
    simpa [isAmount] using hn'
  have hgf : g.lit c = f.lit c := by rw [lit, h.lits]; rfl
  have hint : (f.lit c).kind.isFloat = false :=
    Kind.isFloat_of_isInt (hgf ▸ (hg.sound i' hi').amount_isInt hshift hargi')
  obtain ⟨hfitsj, -⟩ := hfits b hb j hj
  obtain ⟨d, a, hargs, -⟩ := hfitsj.mov_args hop
  obtain rfl : a = .lit c := by simpa [hargs] using hargj
  refine ⟨j, hhasj, hop, ?_, fun m s hsame => hchanges ?_⟩
  · have hkind := (hfitsj.kinded (htyped b hb j hj).1).mov hop
    simp only [arg, hargs, getD_cons_zero] at hkind
    intro a ha
    rw [hargs, mem_cons, mem_singleton] at ha
    rcases ha with rfl | rfl
    · rw [← hkind]
      exact hint
    · exact hint
  · -- The move has the same literal as its operand, which has become another number.
    obtain ⟨hopg, hargg⟩ := h.mov_arg hhasj hop hargj
    obtain ⟨d', a, hargs', -⟩ := (hg.sound j (hhas.2 hhasj)).fits.mov_args hopg
    obtain rfl : a = .lit c := by simpa [hargs'] using hargg
    have hlit : k.lit c = (g.lit c).reduced :=
      hr.shifted i' hi' not_mem_nil c hn' (arg_of_getElem? hargi')
    rw [Sem.act, Sem.act, hr.moves j (hhas.2 hhasj) hopg, m.does_mov hopg hargs' rfl,
      m.does_mov hop hargs rfl, Act.set.injEq] at hsame
    rw [← hlit, hgf]
    exact hsame.2

/-- Literals can be propagated, and then stand for registers of their kind. -/
lemma propagateLits_ok (hf : f.Connected first) (hfits : f.Fitting) (hchecked : f.Checked) :
  ∃ g₀ n g entry, reaching.run f = .ok ((), g₀) ∧ propagateLits.run g₀ = .ok (n, g) ∧
    Tracks (fun _ => True) f first entry g ∧ Filled f g := by
  obtain ⟨-, hs⟩ := solveReaching_solved hf.lt hf.nodup hf.inside hf.first_mem
  obtain ⟨g₀, hrun, hann⟩ := reaching_ok hf
  obtain ⟨htrk, -⟩ : Tracks (fun _ => True) f first _ g₀ ∧ Complete f g₀ := hann.tracks hf hs hfits
  have hkinded : ∀ b ∈ f.order, ∀ i ∈ (f.blk b).code, f.Kinded (f.ins i) :=
    fun b hb i hi => (hfits b hb i hi).1.kinded (hchecked b hb i hi)
  obtain ⟨n, g, hprop, hg⟩ := (propagateLits_filled hf hs hkinded htrk hann.filled).exists_ok
  exact ⟨g₀, n, g, _, hrun, hprop, hg⟩

/-- Propagating literals succeeds and keeps the kinds of all operands. An operand changes only if it
is a register that is read, and then to a literal, whether or not one may be in its place. -/
theorem propagateLits_kindOf (hf : f.Connected first) (hfits : f.Fitting) (hchecked : f.Checked) :
  ∃ g₀ n g, reaching.run f = .ok ((), g₀) ∧ propagateLits.run g₀ = .ok (n, g) ∧
    ∀ b ∈ f.order, ∀ i ∈ (f.blk b).code, Fills f (f.ins i) (g.ins i) ∧
      ∀ n, g.kindOf ((g.ins i).arg n) = f.kindOf ((f.ins i).arg n) := by
  obtain ⟨g₀, n, g, _, hrun, hprop, htrk, hfil⟩ := propagateLits_ok hf hfits hchecked
  refine ⟨g₀, n, g, hrun, hprop, fun b hb i hi => ?_⟩
  have hfills := hfil.ins b hb i hi
  exact ⟨hfills, hfills.kindOf hfil.lits htrk.regs⟩

end

/-- Propagating literals and then replacing instructions by cheaper ones succeeds. If a literal that
is the amount of a shift and not less than the width is held by nothing else, every integer
instruction then computes what it did. Otherwise an integer move gives another number than before,
provided that operands did not share literals to begin with. -/
theorem reduceStrength_act {f : Fn} {first : BlkId} (hf : f.Connected first)
  (hfits : f.Fitting) (htyped : f.Typed) :
  ∃ g₀ n g n' k, reaching.run f = .ok ((), g₀) ∧ propagateLits.run g₀ = .ok (n, g) ∧
    reduceStrength.run g = .ok (n', k) ∧
    (g.Apart → ∀ m : Sem, m.Wraps → m.Wide f → ∀ h, ∀ b ∈ f.order, ∀ pre i s, f.At b pre i →
      f.Run first (m.Steps f) h b pre s → f.Holding s → f.Integral (f.ins i) →
      m.act k i s = m.act f i s) ∧
    (f.Unshared → ¬ g.Apart → ∃ j, f.Has j ∧ (f.ins j).op = .mov ∧ f.Integral (f.ins j) ∧
      ∀ (m : Sem) s, m.act k j s ≠ m.act f j s) := by
  obtain ⟨g₀, n, g, _, hrun, hprop, htrk, hfil⟩ :=
    propagateLits_ok hf hfits fun b hb i hi => (htyped b hb i hi).1
  have hg := hfil.numeric htrk hf hfits htyped
  obtain ⟨n', k, hreduce, hreducing⟩ := (reduceStrength_ensures hg).exists_ok
  refine ⟨g₀, n, g, n', k, hrun, hprop, hreduce, ?_, ?_⟩
  · intro hapart m hm hwide h b hb pre i s hat hreach hs hint
    have hi : g.Has i := (hfil.has_iff htrk.order).2 ⟨b, hb, hat.mem⟩
    have hsame := (htrk.stands b hb pre i hat).does m trivial h s hreach
    rw [← hsame]
    have hreg : ∀ r, g.reg r = f.reg r := fun r => by rw [Fn.reg, htrk.regs]; rfl
    refine hreducing.does hapart hi (hg.sound i hi) hm (fun r => ?_) (fun r => ?_)
      ((hfil.ins b hb i hat.mem).integral hfil.lits htrk.regs hint)
    · rw [hreg]
      exact hwide r
    · rw [hreg]
      exact hs r
  · exact hreducing.mov_differs hfil htrk.order hg hfits htyped

/-- What the three passes make of a given function. -/
lemma exists_runs {f : Fn} {φ : Fn → Fn → Prop} [∀ g k, Decidable (φ g k)]
  (h : ((reaching.run f).toOption.any fun r => (propagateLits.run r.2).toOption.any
    fun q => (reduceStrength.run q.2).toOption.any fun p => decide (φ q.2 p.2))) :
  ∃ g0 n g n' k, reaching.run f = .ok ((), g0) ∧ propagateLits.run g0 = .ok (n, g) ∧
    reduceStrength.run g = .ok (n', k) ∧ φ g k := by
  obtain ⟨⟨⟨⟩, g0⟩, h0, h⟩ := ok_of_any h
  obtain ⟨⟨n, g⟩, h1, h⟩ := ok_of_any h
  obtain ⟨⟨n', k⟩, h2, h⟩ := ok_of_any h
  exact ⟨g0, n, g, n', k, h0, h1, h2, of_decide_eq_true h⟩

/-- An amount that is too large, a factor that is moved to a register first, and a sum with zero. -/
def scaled : Fn where
  name := "main"
  kind := .normal
  regs := #[{ name := "a", kind := .u32 }, { name := "x", kind := .u32 },
    { name := "y", kind := .u32 }, { name := "z", kind := .u32 }]
  lits := #[.ofInt .u32 8, .ofInt .u32 33, .ofInt .u32 0]
  code := #[.of .poparg [.reg 2], .of .mov [.reg 0, .lit 0], .of .shl [.reg 1, .reg 2, .lit 1],
    .of .mul [.reg 3, .reg 1, .reg 0], .of .add [.reg 3, .reg 3, .lit 2], .of .pusharg [.reg 3],
    .of .ret []]
  blks := #[{ name := "start", code := [0, 1, 2, 3, 4, 5, 6] }]
  order := [0]

lemma scaled_connected : scaled.Connected 0 where
  head := rfl
  nodup := by decide
  lt := by decide
  inside := by decide
  paired := paired_of_blks (by decide) (by decide)
  reached := reached_of_rounds 0 (by decide)
  once := by decide
  sites := by decide
  regs := regs_of_args (by decide)

lemma scaled_fitting : scaled.Fitting := by decide

lemma scaled_checked : scaled.Checked := by
  have hchecks : ∀ b ∈ scaled.order, ∀ i ∈ (scaled.blk b).code,
      (checkTyping.{0} scaled (scaled.ins i)).toOption.any (fun _ => true) := by decide
  intro b hb i hi
  obtain ⟨⟨⟩, h, -⟩ := ok_of_any (hchecks b hb i hi)
  exact h

theorem propagateLits_kindOf_scaled : scaled.Connected 0 ∧ scaled.Fitting ∧ scaled.Checked ∧
  ∃ g₀ n g, reaching.run scaled = .ok ((), g₀) ∧ propagateLits.run g₀ = .ok (n, g) ∧
    ∀ b ∈ scaled.order, ∀ i ∈ (scaled.blk b).code, Fills scaled (scaled.ins i) (g.ins i) ∧
      ∀ n, g.kindOf ((g.ins i).arg n) = scaled.kindOf ((scaled.ins i).arg n) :=
  ⟨scaled_connected, scaled_fitting, scaled_checked,
    propagateLits_kindOf scaled_connected scaled_fitting scaled_checked⟩

lemma scaled_typed : scaled.Typed := by
  have hlits : ∀ c < 3, (scaled.lit c).Proper := by decide
  intro b hb i hi
  exact ⟨scaled_checked b hb i hi, fun c hc _ => hlits c ((scaled_fitting b hb i hi).2 c hc)⟩

def wrapping : Sem where
  width := 64
  alu op a b := ((op.result? a.kind a.number b.number).map fun v =>
    .ofInt a.kind (wrap a.kind v)).getD a
  alu1 _ a := a
  convert _ _ a := a
  holds _ _ _ := false
  memBase _ := 0
  areaBase _ := 0
  fnAddr _ := default
  special _ := default

lemma wrapping_wraps : wrapping.Wraps := by
  intro op k x y v _ _ _ hv
  show ((op.result? k x y).map fun v => ofInt k (wrap k v)).getD _ = _
  rw [hv]
  rfl

/-- The amount is reduced, the product becomes a shift and the sum a move, all to the same effect. -/
theorem reduceStrength_act_scaled : scaled.Connected 0 ∧ scaled.Fitting ∧ scaled.Typed ∧
  wrapping.Wraps ∧ wrapping.Wide scaled ∧ ∃ g₀ n g n' k,
    reaching.run scaled = .ok ((), g₀) ∧ propagateLits.run g₀ = .ok (n, g) ∧
    reduceStrength.run g = .ok (n', k) ∧ g.Apart ∧ k.lit 1 = .ofInt .u32 1 ∧
    (k.ins 3).op = .shl ∧ k.litOf? ((k.ins 3).arg 2) = some (.ofInt .u32 3) ∧
    (k.ins 4).op = .mov ∧ ∀ h, ∀ b ∈ scaled.order, ∀ pre i s, scaled.At b pre i →
      scaled.Run 0 (wrapping.Steps scaled) h b pre s → scaled.Holding s →
      scaled.Integral (scaled.ins i) → wrapping.act k i s = wrapping.act scaled i s := by
  have hwide : wrapping.Wide scaled := by
    have hregs : ∀ r < 4, (scaled.reg r).kind.flavor ≠ .addr := by decide
    intro r hr
    by_cases hlt : r < 4
    · exact absurd hr (hregs r hlt)
    · rw [Fn.reg, Array.getD_eq_getD_getElem?, Array.getElem?_eq_none (Nat.le_of_not_lt hlt)] at hr
      cases hr
  obtain ⟨g₀, n, g, n', k, hrun, hprop, hreduce, hkept, -⟩ :=
    reduceStrength_act scaled_connected scaled_fitting scaled_typed
  obtain ⟨g0', m, g', m', k', hrun', hprop', hreduce', hapart, hlit, hop, hthree, hmov⟩ :=
    exists_runs (f := scaled) (φ := fun g k => g.Apart ∧ k.lit 1 = .ofInt .u32 1 ∧
      (k.ins 3).op = .shl ∧ k.litOf? ((k.ins 3).arg 2) = some (.ofInt .u32 3) ∧
      (k.ins 4).op = .mov) (by decide +kernel)
  cases hrun.symm.trans hrun'
  cases hprop.symm.trans hprop'
  cases hreduce.symm.trans hreduce'
  exact ⟨scaled_connected, scaled_fitting, scaled_typed, wrapping_wraps, hwide, g₀, n, g, n', k, hrun,
    hprop, hreduce, hapart, hlit, hop, hthree, hmov, hkept hapart wrapping wrapping_wraps hwide⟩

/-- A literal is moved to a register that is the amount of a shift and an operand of a sum. -/
def spread : Fn where
  name := "main"
  kind := .normal
  regs := #[{ name := "a", kind := .u32 }, { name := "x", kind := .u32 },
    { name := "y", kind := .u32 }, { name := "z", kind := .u32 }]
  lits := #[.ofInt .u32 33]
  code := #[.of .poparg [.reg 2], .of .mov [.reg 0, .lit 0], .of .shl [.reg 1, .reg 2, .reg 0],
    .of .add [.reg 3, .reg 1, .reg 0], .of .pusharg [.reg 3], .of .ret []]
  blks := #[{ name := "start", code := [0, 1, 2, 3, 4, 5] }]
  order := [0]

/-- Reducing the amount changes the number that is moved. -/
theorem reduceStrength_spread_differs : ∃ g₀ n g n' k,
  reaching.run spread = .ok (⟨⟩, g₀) ∧ propagateLits.run g₀ = .ok (n, g) ∧
    reduceStrength.run g = .ok (n', k) ∧ ∀ (m : Sem) s,
      m.act spread 1 s = .set [0] (.ofInt .u32 33) ∧
      m.act k 1 s = .set [0] (.ofInt .u32 1) := by
  obtain ⟨g₀, n, g, n', k, hrun, hprop, hreduce, hop, hargs, hlit⟩ :=
    exists_runs (f := spread) (φ := fun _ k => (k.ins 1).op = .mov ∧
      (k.ins 1).args = [.reg 0, .lit 0] ∧ k.lit 0 = .ofInt .u32 1) (by decide +kernel)
  refine ⟨g₀, n, g, n', k, hrun, hprop, hreduce, fun m s => ⟨rfl, ?_⟩⟩
  rw [Sem.act, m.does_mov hop hargs rfl, hlit, Ins.written, hop, hargs]
  rfl

end Retarget.IR
