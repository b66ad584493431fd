import Retarget.Proofs.Reaching
import Mathlib.Tactic.Ring

/-!
# Live registers and the loop that finds them

The analysis keeps sets of registers for the start and the end of each block, which only hold live
ones. A block whose set at the end has grown is looked at again; a set can grow no more often than
there are registers, so the loop ends, and then nothing is missing.
-/

namespace Retarget.IR
open List RegSet
variable {f : Fn} {r : Nat} {s t : RegSet}

namespace Fn
variable (f : Fn)
variable (b : BlkId)
variable (r : RegId)

def Writes : Prop := ∃ i ∈ (f.blk b).code, r ∈ (f.ins i).written

def ReadsFirst : Prop :=
  ∃ pre i, f.At b pre i ∧ r ∈ (f.ins i).read ∧ ∀ j ∈ pre, r ∉ (f.ins j).written

/-- Control can go through all of `a`, without writing the register, and on to `c`. -/
def Passes (a c : BlkId) : Prop := ¬ f.Writes a r ∧ c ∈ (f.blk a).succs

/-- A path from the start of the block leads to an instruction that reads the register, and nothing
before it on the path writes the register. -/
def LiveIn : Prop := ∃ c, Relation.ReflTransGen (f.Passes r) b c ∧ f.ReadsFirst c r

/-- The same for a path from the end of the block. -/
def LiveOut : Prop := ∃ s ∈ (f.blk b).succs, f.LiveIn s r

/-- A function with consistent edges whose registers are not yet those of a processor. -/
structure Consistent (f : Fn) : Prop where
  nodup : f.order.Nodup
  lt : ∀ b : Nat, b ∈ f.order → b < f.blks.size
  inside : ∀ b ∈ f.order, ∀ s ∈ (f.blk b).succs, s ∈ f.order
  entered : ∀ b ∈ f.order, ∀ a ∈ (f.blk b).preds, a ∈ f.order
  paired : Paired f
  regs : ∀ b ∈ f.order, ∀ i ∈ (f.blk b).code, ∀ r : Nat, .reg r ∈ (f.ins i).args → r < f.regs.size
  calls : ∀ b ∈ f.order, ∀ i ∈ (f.blk b).code, (f.ins i).op.isCall → ∃ g, callee (f.ins i) = .ok g
  free : ∀ r ∈ f.regIds, (f.reg r).cpuReg? = none

end Fn

section
variable {b s : BlkId} {r : RegId}

lemma Fn.Consistent.mem_preds_iff (hf : f.Consistent) (a b : BlkId) :
  a ∈ (f.blk b).preds ↔ b ∈ (f.blk a).succs := by
  rw [← count_pos_iff, ← count_pos_iff, hf.paired a b]

lemma Fn.LiveIn.of_readsFirst (h : f.ReadsFirst b r) : f.LiveIn b r := ⟨b, .refl, h⟩

lemma Fn.LiveIn.of_liveOut (h : f.LiveOut b r) (hb : ¬ f.Writes b r) : f.LiveIn b r := by
  obtain ⟨s, hs, c, hpath, hread⟩ := h
  exact ⟨c, .head ⟨hb, hs⟩ hpath, hread⟩

lemma Fn.Consistent.lt_of_liveIn (hf : f.Consistent) (hb : b ∈ f.order) (h : f.LiveIn b r) :
  r < f.regs.size := by
  obtain ⟨c, hpath, pre, i, hi, hread, -⟩ := h
  have hc : c ∈ f.order := by
    clear hi
    induction hpath with
    | refl => exact hb
    | tail _ hstep ih => exact hf.inside _ ih _ hstep.2
  obtain ⟨x, hx, hxr⟩ := mem_filterMap.1 hread
  cases x with
  | reg q =>
    cases hxr
    exact hf.regs c hc i hi.mem r (mem_of_mem_drop hx)
  | _ => cases hxr

end

/-! ## The loop -/

/-- The registers live at the start of a block with this effect, given those live at its end. -/
def Effect.flow (e : Effect) (out : RegSet) : RegSet := (out.diff e.defs).union e.uses

inductive Drains (f : Fn) (effects : Array Effect) : List BlkId → LiveSets → LiveSets → Prop where
  | done (s : LiveSets) : Drains f effects [] s s
  | same {b : BlkId} {work : List BlkId} {s t : LiveSets}
      (h : ((effects.getD b {}).flow (s.liveOut.getD b ∅)).size ≤ (s.liveIn.getD b ∅).size)
      (rest : Drains f effects work s t) : Drains f effects (b :: work) s t
  | news {b : BlkId} {work work' : List BlkId} {live : RegSet} {outs : Array RegSet}
      {s t : LiveSets} (hlive : (effects.getD b {}).flow (s.liveOut.getD b ∅) = live)
      (h : ¬ live.size ≤ (s.liveIn.getD b ∅).size)
      (hinform : informPreds live (f.blk b).preds s.liveOut work = (outs, work'))
      (rest : Drains f effects work' ⟨s.liveIn.setIfInBounds b live, outs⟩ t) :
      Drains f effects (b :: work) s t

lemma liveLoop_cons (f : Fn) (effects : Array Effect) (fuel : Nat) (b : BlkId)
  (work : List BlkId) (s : LiveSets) : liveLoop f effects (fuel + 1) (b :: work) s =
    let live := (effects.getD b {}).flow (s.liveOut.getD b ∅)
      let told := informPreds live (f.blk b).preds s.liveOut work
      if live.size ≤ (s.liveIn.getD b ∅).size then liveLoop f effects fuel work s
      else liveLoop f effects fuel told.2 ⟨s.liveIn.setIfInBounds b live, told.1⟩ := by
  rfl

/-- The effects of the blocks say what they write and what they read first. -/
def Summarizes (f : Fn) (effects : Array Effect) : Prop :=
  ∀ b ∈ f.order, ∀ r, (r ∈ (effects.getD b {}).defs ↔ f.Writes b r) ∧
    (r ∈ (effects.getD b {}).uses ↔ f.ReadsFirst b r)

lemma RegSet.mem_toList_log2 : r ∈ s.toList (s.mask.log2 + 1) ↔ r ∈ s := by
  rw [toList, mem_filter, mem_range]
  refine ⟨And.right, fun h => ⟨?_, h⟩⟩
  by_contra hlarge
  have hsmall : s.mask < 2 ^ r :=
    Nat.lt_log2_self.trans_le (Nat.pow_le_pow_right (by omega) (not_lt.1 hlarge))
  have hin : s.mask.testBit r := h
  rw [Nat.testBit_lt_two_pow hsmall] at hin
  cases hin

lemma RegSet.eq_of_subset_of_size_le (hsub : ∀ r, r ∈ s → r ∈ t) (h : t.size ≤ s.size) : s = t := by
  have hnd : (s.toList (s.mask.log2 + 1)).Nodup := nodup_range.filter _
  have hperm : (s.toList (s.mask.log2 + 1)).Perm (t.toList (t.mask.log2 + 1)) := by
    refine (subperm_of_subset hnd ?_).perm_of_length_le h
    intro r hr
    exact mem_toList_log2.2 (hsub r (mem_toList_log2.1 hr))
  apply ext
  intro r
  rw [← mem_toList_log2, hperm.mem_iff, mem_toList_log2]

/-! ## How far sets can grow -/

def missing (n : Nat) (s : RegSet) : Nat := ((Finset.range n).filter (· ∉ s)).card

def missingAll (f : Fn) (sets : Array RegSet) : Nat :=
  ∑ b ∈ Finset.range f.blks.size, missing f.regs.size (sets.getD b ∅)

lemma missing_le (n : Nat) (s : RegSet) : missing n s ≤ n := by
  refine (Finset.card_filter_le _ _).trans ?_
  rw [Finset.card_range]

lemma missing_lt {n : Nat} (hsub : ∀ q, q ∈ s → q ∈ t) (hr : r < n) (hs : r ∉ s) (ht : r ∈ t) :
  missing n t < missing n s := by
  refine Finset.card_lt_card ⟨fun q hq => ?_, fun hsup => ?_⟩
  · rw [Finset.mem_filter] at hq ⊢
    exact ⟨hq.1, fun hin => hq.2 (hsub q hin)⟩
  · have hmem : r ∈ (Finset.range n).filter (· ∉ s) :=
      Finset.mem_filter.2 ⟨Finset.mem_range.2 hr, hs⟩
    exact (Finset.mem_filter.1 (hsup hmem)).2 ht

lemma missingAll_lt {sets : Array RegSet} {b : Nat} {x : RegSet} (hb : b < f.blks.size)
  (hsize : sets.size = f.blks.size)
  (h : missing f.regs.size x < missing f.regs.size (sets.getD b ∅)) :
  missingAll f (sets.setIfInBounds b x) < missingAll f sets := by
  have hmem : b ∈ Finset.range f.blks.size := Finset.mem_range.2 hb
  refine Finset.sum_lt_sum (fun c _ => ?_) ⟨b, hmem, ?_⟩
  · by_cases hc : c = b
    · subst hc
      rw [getD_set_self (hsize ▸ hb)]
      exact h.le
    · rw [getD_set_ne hc]
  · rw [getD_set_self (hsize ▸ hb)]
    exact h

lemma missingAll_le (f : Fn) (sets : Array RegSet) :
  missingAll f sets ≤ f.blks.size * f.regs.size := by
  calc missingAll f sets ≤ ∑ _b ∈ Finset.range f.blks.size, f.regs.size :=
        Finset.sum_le_sum fun b _ => missing_le _ _
    _ = f.blks.size * f.regs.size := by
        rw [Finset.sum_const_nat fun _ _ => rfl, Finset.card_range]

/-! ## Informing predecessors -/

/-- What happens when the blocks `as` are told that `live` is live after them. -/
structure Informed (f : Fn) (live : RegSet) (as : List BlkId) (outs : Array RegSet)
    (work : List BlkId) (outs' : Array RegSet) (work' : List BlkId) : Prop where
  size : outs'.size = outs.size
  mem : ∀ a r, r ∈ outs'.getD a ∅ ↔ r ∈ outs.getD a ∅ ∨ a ∈ as ∧ r ∈ live
  same : ∀ a, a ∉ work' → outs'.getD a ∅ = outs.getD a ∅
  keeps : ∀ a ∈ work, a ∈ work'
  adds : ∀ a ∈ work', a ∈ as ∨ a ∈ work
  measure : missingAll f outs' + work'.length ≤ missingAll f outs + work.length

lemma informed_one {live : RegSet} {a : Nat} {outs : Array RegSet} (work : List BlkId)
  (ha : a < f.blks.size) (hsize : outs.size = f.blks.size)
  (hlive : ∀ r, r ∈ live → r < f.regs.size)
  (hnew : ¬ ((outs.getD a ∅).union live).size ≤ (outs.getD a ∅).size) :
  Informed f live [a] outs work (outs.setIfInBounds a ((outs.getD a ∅).union live))
    (if work.contains a then work else a :: work) := by
  have hmeasure : missingAll f (outs.setIfInBounds a ((outs.getD a ∅).union live)) <
      missingAll f outs := by
    obtain ⟨r, hr, hnot⟩ : ∃ r, r ∈ live ∧ r ∉ outs.getD a ∅ := by
      by_contra hall
      have heq : (outs.getD a ∅).union live = outs.getD a ∅ := by
        apply ext
        intro r
        rw [mem_union]
        refine ⟨fun h => h.elim id fun hin => ?_, .inl⟩
        by_contra hnot
        exact hall ⟨r, hin, hnot⟩
      exact hnew (by rw [heq])
    refine missingAll_lt ha hsize (missing_lt (fun q hq => ?_) (hlive r hr) hnot ?_)
    · exact mem_union.2 (.inl hq)
    · exact mem_union.2 (.inr hr)
  refine ⟨by simp, fun c r => ?_, fun c hc => ?_, fun c hc => ?_, fun c hc => ?_, ?_⟩
  · by_cases hca : c = a
    · subst hca
      rw [getD_set_self (hsize ▸ ha)]
      simp
    · rw [getD_set_ne hca]
      simp [hca]
  · refine getD_set_ne fun hca => hc ?_
    split <;> simp_all
  · split
    · exact hc
    · exact .tail _ hc
  · split at hc
    · exact .inr hc
    · exact (mem_cons.1 hc).imp_left fun h => by simp [h]
  · split
    · omega
    · rw [length_cons]
      omega

lemma informed_informPreds {live : RegSet} {as : List BlkId} {outs : Array RegSet}
  {work : List BlkId} (has : ∀ a : Nat, a ∈ as → a < f.blks.size)
  (hsize : outs.size = f.blks.size) (hlive : ∀ r, r ∈ live → r < f.regs.size) :
  Informed f live as outs work (informPreds live as outs work).1
    (informPreds live as outs work).2 := by
  induction as generalizing outs work with
  | nil =>
    refine ⟨rfl, fun a r => ?_, fun _ _ => rfl, fun _ h => h, fun _ h => .inr h, le_rfl⟩
    simp [informPreds]
  | cons a as ih =>
    have has' : ∀ c : Nat, c ∈ as → c < f.blks.size := fun c hc => has c (.tail _ hc)
    rw [informPreds]
    split
    · -- The block knows already.
      rename_i hsize'
      have hold := eq_of_subset_of_size_le (fun r hr => mem_union.2 (.inl hr)) hsize'
      have hrest := @ih _ work has' hsize
      refine ⟨hrest.size, fun c r => ?_, hrest.same, hrest.keeps,
        fun c hc => (hrest.adds c hc).imp_left (mem_cons_of_mem _), hrest.measure⟩
      rw [hrest.mem, mem_cons]
      refine or_congr_right' fun hnot => ?_
      constructor
      · exact fun h => ⟨.inr h.1, h.2⟩
      · rintro ⟨rfl | hc, hr⟩
        · refine absurd ?_ hnot
          rw [hold]
          exact mem_union.2 (.inr hr)
        · exact ⟨hc, hr⟩
    · rename_i hnew
      have hone := informed_one work (has a (.head _)) hsize hlive hnew
      have hrest := @ih _ (if work.contains a then work else a :: work) has' (hone.size.trans hsize)
      refine ⟨hrest.size.trans hone.size, fun c r => ?_, fun c hc => ?_, fun c hc => hrest.keeps c
        (hone.keeps c hc), fun c hc => ?_, hrest.measure.trans hone.measure⟩
      · rw [hrest.mem, hone.mem, or_assoc, ← or_and_right, ← mem_append, singleton_append]
      · rw [hrest.same c hc, hone.same c fun hin => hc (hrest.keeps c hin)]
      · rcases hrest.adds c hc with hc | hc
        · exact .inl (.tail _ hc)
        · exact (hone.adds c hc).imp_left fun h => by simp [mem_singleton.1 h]

/-! ## The invariant of the loop -/

/-- What holds while the blocks on the list still have to be looked at. -/
structure Flowing (f : Fn) (work : List BlkId) (s : LiveSets) : Prop where
  inSize : s.liveIn.size = f.blks.size
  outSize : s.liveOut.size = f.blks.size
  inside : ∀ b ∈ work, b ∈ f.order
  grown : ∀ b ∈ f.order, ∀ r, r ∈ s.liveIn.getD b ∅ →
    r ∈ s.liveOut.getD b ∅ ∧ ¬ f.Writes b r ∨ f.ReadsFirst b r
  done : ∀ b ∈ f.order, b ∉ work → ∀ r, r ∈ s.liveIn.getD b ∅ ↔
    r ∈ s.liveOut.getD b ∅ ∧ ¬ f.Writes b r ∨ f.ReadsFirst b r
  passed : ∀ b ∈ f.order, ∀ a ∈ (f.blk b).preds, ∀ r, r ∈ s.liveIn.getD b ∅ → r ∈ s.liveOut.getD a ∅
  liveIn : ∀ b ∈ f.order, ∀ r, r ∈ s.liveIn.getD b ∅ → f.LiveIn b r
  liveOut : ∀ b ∈ f.order, ∀ r, r ∈ s.liveOut.getD b ∅ → f.LiveOut b r

namespace Flowing
variable {effects : Array Effect} {b : BlkId} {work work' : List BlkId}
  {s : LiveSets} {live : RegSet} {outs : Array RegSet}

lemma mem_flow (he : Summarizes f effects) (hb : b ∈ f.order) (out : RegSet) (r : RegId) :
  r ∈ (effects.getD b {}).flow out ↔ r ∈ out ∧ ¬ f.Writes b r ∨ f.ReadsFirst b r := by
  rw [Effect.flow, mem_union, mem_diff, (he b hb r).1, (he b hb r).2]

lemma sound (he : Summarizes f effects) (h : Flowing f work s) (hb : b ∈ f.order)
  (hr : r ∈ (effects.getD b {}).flow (s.liveOut.getD b ∅)) : f.LiveIn b r := by
  rcases (mem_flow he hb _ r).1 hr with ⟨hout, hnot⟩ | hread
  · exact .of_liveOut (h.liveOut b hb r hout) hnot
  · exact .of_readsFirst hread

lemma same (he : Summarizes f effects) (h : Flowing f (b :: work) s)
  (hsize : ((effects.getD b {}).flow (s.liveOut.getD b ∅)).size ≤ (s.liveIn.getD b ∅).size) :
  Flowing f work s where
  inSize := h.inSize
  outSize := h.outSize
  inside c hc := h.inside c (.tail _ hc)
  grown := h.grown
  done c hc hnot r := by
    by_cases hcb : c = b
    · subst hcb
      have hsame := eq_of_subset_of_size_le
        (fun q hq => (mem_flow he hc _ q).2 (h.grown c hc q hq)) hsize
      rw [hsame, mem_flow he hc]
    · exact h.done c hc (fun hin => (mem_cons.1 hin).elim hcb hnot) r
  passed := h.passed
  liveIn := h.liveIn
  liveOut := h.liveOut

lemma news (hf : f.Consistent) (he : Summarizes f effects) (h : Flowing f (b :: work) s)
  (hlive : (effects.getD b {}).flow (s.liveOut.getD b ∅) = live)
  (hinf : Informed f live (f.blk b).preds s.liveOut work outs work') :
  Flowing f work' ⟨s.liveIn.setIfInBounds b live, outs⟩ := by
  have hb : b ∈ f.order := h.inside b (.head _)
  have hbs : b < s.liveIn.size := h.inSize ▸ hf.lt b hb
  have hmem : ∀ r, r ∈ live ↔ r ∈ s.liveOut.getD b ∅ ∧ ¬ f.Writes b r ∨ f.ReadsFirst b r :=
    fun r => by rw [← hlive, mem_flow he hb]
  have hsound : ∀ r, r ∈ live → f.LiveIn b r := fun r hr => h.sound he hb (hlive ▸ hr)
  refine ⟨?_, ?_, ?_, ?_, ?_, ?_, ?_, ?_⟩
  · rw [Array.size_setIfInBounds, h.inSize]
  · rw [hinf.size, h.outSize]
  · intro c hc
    rcases hinf.adds c hc with hc | hc
    · exact hf.entered b hb c hc
    · exact h.inside c (.tail _ hc)
  · intro c hc r hr
    have hgrown : r ∈ s.liveOut.getD c ∅ ∧ ¬ f.Writes c r ∨ f.ReadsFirst c r := by
      by_cases hcb : c = b
      · subst hcb
        rwa [getD_set_self hbs, hmem] at hr
      · rw [getD_set_ne hcb] at hr
        exact h.grown c hc r hr
    exact hgrown.imp_left (And.imp_left fun hout => (hinf.mem c r).2 (.inl hout))
  · intro c hc hnot r
    have hout : outs.getD c ∅ = s.liveOut.getD c ∅ := hinf.same c hnot
    rw [hout]
    by_cases hcb : c = b
    · subst hcb
      rw [getD_set_self hbs, hmem]
    · rw [getD_set_ne hcb]
      refine h.done c hc (fun hin => ?_) r
      exact (mem_cons.1 hin).elim hcb fun hin => hnot (hinf.keeps c hin)
  · intro c hc a ha r hr
    rw [hinf.mem]
    by_cases hcb : c = b
    · subst hcb
      rw [getD_set_self hbs] at hr
      exact .inr ⟨ha, hr⟩
    · rw [getD_set_ne hcb] at hr
      exact .inl (h.passed c hc a ha r hr)
  · intro c hc r hr
    by_cases hcb : c = b
    · subst hcb
      rw [getD_set_self hbs] at hr
      exact hsound r hr
    · rw [getD_set_ne hcb] at hr
      exact h.liveIn c hc r hr
  · intro a ha r hr
    rcases (hinf.mem a r).1 hr with hr | ⟨hpred, hr⟩
    · exact h.liveOut a ha r hr
    · exact ⟨b, (hf.mem_preds_iff a b).1 hpred, hsound r hr⟩

lemma drains (hf : f.Consistent) (he : Summarizes f effects) {fuel : Nat} (h : Flowing f work s)
  (hfuel : missingAll f s.liveOut + work.length ≤ fuel) : Drains f effects work s
  (liveLoop f effects fuel work s) ∧ Flowing f [] (liveLoop f effects fuel work s) := by
  induction fuel generalizing work s with
  | zero =>
    obtain rfl : work = [] := eq_nil_of_length_eq_zero (by omega)
    exact ⟨.done s, h⟩
  | succ fuel ih =>
    cases work with
    | nil => exact ⟨.done s, h⟩
    | cons b work =>
      have hb : b ∈ f.order := h.inside b (.head _)
      rw [length_cons] at hfuel
      simp only [liveLoop_cons]
      generalize hlive : (effects.getD b {}).flow (s.liveOut.getD b ∅) = live
      split
      · rename_i hold
        rw [← hlive] at hold
        obtain ⟨hdrains, hdone⟩ := ih (h.same he hold) (by omega)
        exact ⟨.same hold hdrains, hdone⟩
      · rename_i hnew
        have hbound : ∀ r, r ∈ live → r < f.regs.size := fun r hr =>
          hf.lt_of_liveIn hb (h.sound he hb (hlive ▸ hr))
        have hinf := @informed_informPreds f live _ _ work
          (fun a ha => hf.lt a (hf.entered b hb a ha)) h.outSize hbound
        obtain ⟨hdrains, hdone⟩ := ih (h.news hf he hlive hinf) (hinf.measure.trans (by omega))
        exact ⟨.news hlive hnew rfl hdrains, hdone⟩

section
variable (hf : f.Consistent) (h : Flowing f [] s) (hb : b ∈ f.order) (r : RegId)
include hf h hb

lemma liveIn_iff : r ∈ s.liveIn.getD b ∅ ↔ f.LiveIn b r := by
  refine ⟨h.liveIn b hb r, ?_⟩
  rintro ⟨c, hpath, hread⟩
  -- From the end of the path back to its start.
  induction hpath using Relation.ReflTransGen.head_induction_on with
  | refl => exact (h.done c hb not_mem_nil r).2 (.inr hread)
  | @head a c hstep hpath ih =>
    have hc : c ∈ f.order := hf.inside a hb c hstep.2
    have hout := h.passed c hc a ((hf.mem_preds_iff a c).2 hstep.2) r (ih hc)
    exact (h.done a hb not_mem_nil r).2 (.inl ⟨hout, hstep.1⟩)

lemma liveOut_iff : r ∈ s.liveOut.getD b ∅ ↔ f.LiveOut b r := by
  refine ⟨h.liveOut b hb r, ?_⟩
  rintro ⟨c, hc, hlive⟩
  have hin := (h.liveIn_iff hf (hf.inside b hb c hc) r).2 hlive
  exact h.passed c (hf.inside b hb c hc) b ((hf.mem_preds_iff b c).2 hc) r hin

end
end Flowing

def noneLive (f : Fn) : LiveSets :=
  ⟨Array.replicate f.blks.size ∅, Array.replicate f.blks.size ∅⟩

lemma flowing_start (f : Fn) : Flowing f f.order.reverse (noneLive f) := by
  have hnone : ∀ b r, r ∉ (Array.replicate f.blks.size (∅ : RegSet)).getD b ∅ := by
    intro b r
    rw [Array.getD_eq_getD_getElem?, Array.getElem?_replicate]
    split <;> simp
  refine ⟨Array.size_replicate, Array.size_replicate, fun b hb => mem_reverse.1 hb,
    ?_, fun b hb hnot => absurd (mem_reverse.2 hb) hnot, ?_, ?_, ?_⟩
  · exact fun b _ r hr => absurd hr (hnone b r)
  · exact fun b _ a _ r hr => absurd hr (hnone b r)
  · exact fun b _ r hr => absurd hr (hnone b r)
  · exact fun b _ r hr => absurd hr (hnone b r)

lemma missingAll_le_liveBound (hf : f.Consistent) (sets : Array RegSet) :
  missingAll f sets + f.order.reverse.length ≤ liveBound f := by
  have hlen := f.length_order_le hf.lt hf.nodup
  have hmissing := missingAll_le f sets
  have hexpand : liveBound f = f.blks.size * f.regs.size + 2 * f.blks.size + f.regs.size + 3 := by
    rw [liveBound]
    ring
  rw [length_reverse]
  omega

/-! ## Exactness

The effect of a block says which registers it writes and which it reads before writing them. The
analysis insists that the first of several blocks has an outgoing edge; apart from that it always
succeeds. -/

open Pass

/-! ## Effects of code -/

/-- The code reads the register before anything in it has written it. -/
def Fn.Exposes (f : Fn) (is : List InsId) (r : RegId) : Prop :=
  ∃ pre i post, is = pre ++ i :: post ∧ r ∈ (f.ins i).read ∧ ∀ j ∈ pre, r ∉ (f.ins j).written

section
variable {r : RegId} {i : InsId} {is : List InsId}

lemma Fn.not_exposes_nil : ¬ f.Exposes [] r := by
  rintro ⟨pre, i, post, heq, -⟩
  simp at heq

lemma Fn.exposes_cons : f.Exposes (i :: is) r ↔
  r ∈ (f.ins i).read ∨ r ∉ (f.ins i).written ∧ f.Exposes is r := by
  constructor
  · rintro ⟨pre, k, post, heq, hread, hpre⟩
    cases pre with
    | nil =>
      cases heq
      exact .inl hread
    | cons j pre =>
      cases heq
      refine .inr ⟨hpre i (.head _), pre, k, post, rfl, hread, ?_⟩
      intro j hj
      exact hpre j (.tail _ hj)
  · rintro (hread | ⟨hnot, pre, k, post, rfl, hread, hpre⟩)
    · exact ⟨[], i, is, rfl, hread, by simp⟩
    · refine ⟨i :: pre, k, post, rfl, hread, ?_⟩
      intro j hj
      rcases mem_cons.1 hj with rfl | hj
      · exact hnot
      · exact hpre j hj

lemma Fn.readsFirst_iff {b : BlkId} : f.ReadsFirst b r ↔ f.Exposes (f.blk b).code r := by
  constructor
  · rintro ⟨pre, i, ⟨post, hcode⟩, hread, hpre⟩
    exact ⟨pre, i, post, hcode, hread, hpre⟩
  · rintro ⟨pre, i, post, hcode, hread, hpre⟩
    exact ⟨pre, i, ⟨post, hcode⟩, hread, hpre⟩

end

lemma RegSet.mem_foldl_insert (rs : List Nat) (s : RegSet) (q : Nat) :
  q ∈ rs.foldl insert s ↔ q ∈ s ∨ q ∈ rs := by
  induction rs generalizing s with
  | nil => simp
  | cons r rs ih => rw [foldl_cons, ih, mem_insert, mem_cons, or_assoc]

lemma RegSet.mem_foldl_erase (rs : List Nat) (s : RegSet) (q : Nat) :
  q ∈ rs.foldl erase s ↔ q ∈ s ∧ q ∉ rs := by
  induction rs generalizing s with
  | nil => simp
  | cons r rs ih => rw [foldl_cons, ih, mem_erase, mem_cons, not_or, and_assoc]

/-- The two parts of an effect go their own ways. -/
lemma Effect.before_eq (e : Effect) (i : Ins) : e.before [] i = ⟨i.written.foldl insert e.defs,
  i.read.foldl insert (i.written.foldl erase e.uses)⟩ := by
  have hdefine : ∀ (rs : List RegId) (e : Effect),
      rs.foldl (fun e r => (⟨e.defs.insert r, e.uses.erase r⟩ : Effect)) e =
        ⟨rs.foldl insert e.defs, rs.foldl erase e.uses⟩ := by
    intro rs
    induction rs with
    | nil => intro e; rfl
    | cons r rs ih => intro e; rw [foldl_cons, ih]; rfl
  simp only [before, foldl_nil, hdefine]

section
variable {p : Prog} {is : List InsId}

section
variable (hfree : ∀ r ∈ f.regIds, (f.reg r).cpuReg? = none)
include hfree

lemma resultRegs_eq_nil {i : Ins} (hcall : i.op.isCall → ∃ g, callee i = .ok g) :
  resultRegs p f i = .ok [] := by
  unfold resultRegs
  split
  · rename_i hop
    obtain ⟨g, hg⟩ := hcall hop
    have hnone : (f.regIds.filter fun r => (f.reg r).cpuReg?.any (p.fn g).cpuLiveOut.contains) = [] := by
      rw [filter_eq_nil_iff]
      intro r hr
      rw [hfree r hr]
      simp
    rw [hg]
    show (if (p.fn g).cpuLiveOut.isEmpty then pure [] else pure _) = Except.ok []
    rw [hnone]
    split <;> rfl
  · rfl

lemma codeEffect_ok
  (hcalls : ∀ i ∈ is, (f.ins i).op.isCall → ∃ g, callee (f.ins i) = .ok g) :
  ∃ e, codeEffect p f is = .ok e ∧ ∀ r,
    (r ∈ e.defs ↔ ∃ i ∈ is, r ∈ (f.ins i).written) ∧ (r ∈ e.uses ↔ f.Exposes is r) := by
  induction is with
  | nil =>
    refine ⟨{}, rfl, fun r => ⟨by simp, ?_⟩⟩
    simp [Fn.not_exposes_nil]
  | cons i is ih =>
    obtain ⟨e, he, hmem⟩ := ih fun j hj => hcalls j (.tail _ hj)
    refine ⟨e.before [] (f.ins i), ?_, fun r => ⟨?_, ?_⟩⟩
    · rw [codeEffect, he, resultRegs_eq_nil hfree (hcalls i (.head _))]
      rfl
    · rw [Effect.before_eq, mem_foldl_insert, (hmem r).1]
      simp [or_comm]
    · rw [Effect.before_eq, mem_foldl_insert, mem_foldl_erase, (hmem r).2,
        Fn.exposes_cons, and_comm, or_comm]

end
end

/-! ## The analysis as a whole -/

/-- What the analysis leaves behind: the live registers are recorded and nothing else has changed. -/
structure Analyzed (f g : Fn) : Prop where
  liveOut : ∀ b ∈ f.order, ∀ r, r ∈ (g.blk b).liveOut ↔ f.LiveOut b r
  blk : ∀ b, ∃ live, g.blk b = { f.blk b with liveOut := live }
  rest : ∃ blks : Array Blk, blks.size = f.blks.size ∧
    g = { f with blks := blks, livenessValid := true }

/-- The first of several blocks has an outgoing edge. -/
def Fn.LeavesFirst (f : Fn) : Prop :=
  ∀ first second rest, f.order = first :: second :: rest → (f.blk first).succs ≠ []

section
variable {p : Prog}

lemma effects_ok (hf : f.Consistent) : ∃ effects, (List.range f.blks.size).mapM (fun b =>
      if f.order.contains b then codeEffect p f (f.blk b).code else .ok ⟨∅, ∅⟩) = .ok effects ∧
    Summarizes f effects.toArray := by
  have hblk : ∀ b, ∃ e, (if f.order.contains b then codeEffect p f (f.blk b).code
      else .ok ⟨∅, ∅⟩) = .ok e ∧ (b ∈ f.order → ∀ r,
        (r ∈ e.defs ↔ f.Writes b r) ∧ (r ∈ e.uses ↔ f.ReadsFirst b r)) := by
    intro b
    by_cases hb : b ∈ f.order
    · obtain ⟨e, he, hmem⟩ := codeEffect_ok hf.free (hf.calls b hb)
      refine ⟨e, by simpa [hb] using he, fun _ r => ⟨(hmem r).1, ?_⟩⟩
      rw [(hmem r).2, Fn.readsFirst_iff]
    · exact ⟨⟨∅, ∅⟩, by simp [hb], fun hin => absurd hin hb⟩
  choose effect hrun hmem using hblk
  refine ⟨_, mapM_ok fun b _ => hrun b, ?_⟩
  intro b hb r
  have hlt : b < f.blks.size := hf.lt b hb
  have hget : ((List.range f.blks.size).map effect).toArray.getD b {} = effect b := by simp [hlt]
  rw [hget]
  exact hmem b hb r

def Fn.withLiveOut (f : Fn) (outs : Array RegSet) : Fn :=
  { f with
    blks := f.blks.mapIdx fun b x =>
      if f.order.contains b then { x with liveOut := outs.getD b ∅ } else x
    livenessValid := true }

lemma Fn.blk_withLiveOut (hf : f.Consistent) (outs : Array RegSet) (b : BlkId) :
  (f.withLiveOut outs).blk b =
    if b ∈ f.order then { f.blk b with liveOut := outs.getD b ∅ } else f.blk b := by
  by_cases hlt : b < f.blks.size
  · simp [withLiveOut, Fn.blk, hlt]
  · have hout : b ∉ f.order := fun hb => hlt (hf.lt b hb)
    simp [withLiveOut, Fn.blk, hout]

lemma liveLoop_exact (hf : f.Consistent) {effects : Array Effect} (he : Summarizes f effects) :
  Drains f effects f.order.reverse (noneLive f) (liveLoop f effects (liveBound f)
    f.order.reverse (noneLive f)) ∧
  ∀ b ∈ f.order, ∀ r, r ∈ (liveLoop f effects (liveBound f) f.order.reverse
    (noneLive f)).liveOut.getD b ∅ ↔ f.LiveOut b r := by
  obtain ⟨hdrains, hdone⟩ := (flowing_start f).drains hf he (missingAll_le_liveBound hf _)
  exact ⟨hdrains, fun b hb r => hdone.liveOut_iff hf hb r⟩

lemma liveness_ok_iff {effects : List Effect} {g : Fn}
  (hrun : (List.range f.blks.size).mapM (fun b =>
      if f.order.contains b then codeEffect p f (f.blk b).code else .ok ⟨∅, ∅⟩) = .ok effects) :
    (liveness p).run f = .ok ((), g) ↔ f.LeavesFirst ∧
      f.withLiveOut (liveLoop f effects.toArray (liveBound f) f.order.reverse
        (noneLive f)).liveOut = g := by
  have heffects := run_attempt_ok (f := f).2 ⟨hrun, rfl⟩
  rw [liveness, run_get_bind]
  split
  · rename_i first second rest hord
    have hguard : f.LeavesFirst ↔ (!(f.blk first).succs.isEmpty) := by
      simp [Fn.LeavesFirst, hord]
    rw [run_seq_ok, hguard]
    simp only [run_require_ok]
    constructor
    · rintro ⟨h, ⟨hfst, rfl⟩, hrest⟩
      rw [run_bind_of_ok heffects] at hrest
      exact ⟨hfst, run_set_ok.1 hrest⟩
    · rintro ⟨hfst, hg⟩
      refine ⟨f, ⟨hfst, rfl⟩, ?_⟩
      rw [run_bind_of_ok heffects]
      exact run_set_ok.2 hg
  · rename_i hfew
    have hguard : f.LeavesFirst := by
      intro first second rest hord
      exact absurd hord (hfew first second rest)
    rw [run_bind_of_ok heffects]
    exact ⟨fun h => ⟨hguard, run_set_ok.1 h⟩, fun h => run_set_ok.2 h.2⟩

lemma liveness_run_iff (hf : f.Consistent) :
  (∃ g, (liveness p).run f = .ok ((), g)) ↔ f.LeavesFirst := by
  obtain ⟨effects, hrun, -⟩ := effects_ok (p := p) hf
  simp only [liveness_ok_iff hrun]
  exact ⟨fun h => h.elim fun _ h => h.1, fun h => ⟨_, h, rfl⟩⟩

lemma analyzed_withLiveOut (hf : f.Consistent) {outs : Array RegSet}
  (h : ∀ b ∈ f.order, ∀ r, r ∈ outs.getD b ∅ ↔ f.LiveOut b r) :
  Analyzed f (f.withLiveOut outs) := by
  refine ⟨?_, ?_, ⟨_, by simp, rfl⟩⟩
  · intro b hb r
    rw [← h b hb, Fn.blk_withLiveOut hf, if_pos hb]
  · intro b
    rw [Fn.blk_withLiveOut hf]
    split
    · exact ⟨_, rfl⟩
    · exact ⟨(f.blk b).liveOut, rfl⟩

lemma liveness_analyzed (hf : f.Consistent) {g : Fn}
  (h : (liveness p).run f = .ok ((), g)) : Analyzed f g := by
  obtain ⟨effects, hrun, he⟩ := effects_ok hf
  obtain ⟨-, rfl⟩ := (liveness_ok_iff hrun).1 h
  exact analyzed_withLiveOut hf (liveLoop_exact hf he).2

end

/-- The loop of the analysis ends for every consistent function. The analysis succeeds exactly if the
first of several blocks has an outgoing edge, and it then records for the end of a block the registers
for which a path leads from there to a read without a write before it. -/
theorem liveness_exact {p : Prog} {f : Fn} (hf : f.Consistent) :
  (∃ effects found, Summarizes f effects ∧ Drains f effects f.order.reverse (noneLive f) found) ∧
  ((∃ g, (liveness p).run f = .ok ((), g)) ↔ f.LeavesFirst) ∧
  ∀ g, (liveness p).run f = .ok ((), g) →
    ∀ b ∈ f.order, ∀ r, r ∈ (g.blk b).liveOut ↔ f.LiveOut b r := by
  obtain ⟨effects, hrun, he⟩ := effects_ok (p := p) hf
  refine ⟨⟨_, _, he, (liveLoop_exact hf he).1⟩, liveness_run_iff hf, ?_⟩
  intro g hg
  exact (liveness_analyzed hf hg).liveOut

lemma summing_consistent : summing.Consistent where
  nodup := by decide
  lt := by decide
  inside := by decide
  entered := by decide
  paired := summing_connected.paired
  regs := summing_connected.regs
  calls := calls_of_none (by decide)
  free := by decide

/-- What is read in the loop is live at its end, but not what is written there before. -/
theorem liveness_exact_summing : summing.Consistent ∧
  ∃ g, (liveness {}).run summing = .ok ((), g) ∧
    (∀ b ∈ summing.order, ∀ r, r ∈ (g.blk b).liveOut ↔ summing.LiveOut b r) ∧
    summing.LiveOut 1 0 ∧ ¬ summing.LiveOut 1 2 := by
  obtain ⟨-, hok, hexact⟩ := liveness_exact (p := {}) summing_consistent
  have hfst : summing.LeavesFirst := by
    intro first second rest hord
    cases hord
    decide
  obtain ⟨g, hg⟩ := hok.2 hfst
  have hfound : ((liveness {}).run summing).toOption.map (fun r => (r.2.blk 1).liveOut) =
      some (RegSet.ofList [0, 1]) := by decide +kernel
  rw [hg] at hfound
  have hlive : (g.blk 1).liveOut = RegSet.ofList [0, 1] := Option.some.inj hfound
  refine ⟨summing_consistent, g, hg, hexact g hg, ?_, ?_⟩
  · rw [← hexact g hg 1 (by decide), hlive]
    decide
  · rw [← hexact g hg 1 (by decide), hlive]
    decide

/-- A block that returns, and one that nothing leads to. -/
def twoReturns : Fn where
  name := "main"
  kind := .normal
  code := #[.of .ret [], .of .ret []]
  blks := #[{ name := "start", code := [0] }, { name := "other", code := [1] }]
  order := [0, 1]

/-- The guard refuses a function although its edges are consistent. -/
theorem liveness_twoReturns_fails : twoReturns.Consistent ∧
  ¬ ∃ g, (liveness {}).run twoReturns = .ok ((), g) := by
  have hret : ∀ b ∈ twoReturns.order, ∀ i ∈ (twoReturns.blk b).code,
      (twoReturns.ins i).op = .ret ∧ (twoReturns.ins i).args = [] := by decide
  refine ⟨⟨by decide, by decide, by decide, by decide, paired_of_blks (by decide) (by decide),
    ?_, ?_, by decide⟩, ?_⟩
  · intro b hb i hi r hr
    rw [(hret b hb i hi).2] at hr
    cases hr
  · intro b hb i hi hcall
    rw [(hret b hb i hi).1] at hcall
    cases hcall
  · rintro ⟨g, hg⟩
    have hfail : ((liveness {}).run twoReturns).toOption.isNone = true := by decide +kernel
    rw [hg] at hfail
    cases hfail

/-! ## Live ranges -/

/-- The scan for live ranges gets past the instruction: a call says what it calls, and where a
two-address register is written there is a second operand to compare it with. -/
def Fn.Scannable (f : Fn) (x : Ins) : Prop :=
  (x.op ≠ .ret → x.op.isCall → ∃ g, callee x = .ok g) ∧
    ∀ r ∈ x.written, ¬(f.reg r).isSpilled → (f.reg r).twoAddr → 2 ≤ x.args.length

namespace RangeScan
variable {p : Prog} {x : Ins} {pos : Int} (s : RangeScan)

lemma atCall_ok_iff : (∃ t, s.atCall p f pos x = .ok t) ↔
  (x.op ≠ .ret → x.op.isCall → ∃ g, callee x = .ok g) := by
  unfold atCall
  split
  · simp_all [pure, Except.pure]
  · split
    · cases callee x <;> simp_all [bind, Except.bind, pure, Except.pure]
    · simp_all [pure, Except.pure]

lemma overwrites_ok_iff {r : RegId} : (∃ o, overwrites f x r = .ok o) ↔
  ((f.reg r).twoAddr → 2 ≤ x.args.length) := by
  unfold overwrites
  match x.args with
  | [] | [_] | _ :: _ :: _ => split <;> simp_all

lemma step_ok_iff : (∃ t, s.step p f pos x = .ok t) ↔ f.Scannable x := by
  unfold step Fn.Scannable
  rw [bind_ok_iff, atCall_ok_iff]
  intro s
  -- only the writes can fail after that
  rw [bind_ok_iff, and_true, foldlM_ok_iff]
  · intro s r
    rw [← overwrites_ok_iff]
    cases (f.reg r).isSpilled with
    | true => simp [pure, Except.pure]
    | false =>
      cases overwrites f x r with
      | error e => simp [bind, Except.bind]
      | ok o => cases o <;> simp [bind, Except.bind, pure, Except.pure]
  · intro s
    split
    simp only [pure, Except.pure]
    split <;> simp

lemma walk_ok_iff (is : List InsId) :
  (∃ t, s.walk p f pos is = .ok t) ↔ ∀ i ∈ is, f.Scannable (f.ins i) := by
  induction is generalizing pos with
  | nil => simp [walk]
  | cons i is ih => rw [walk, bind_ok_iff step_ok_iff, ih, and_comm, forall_mem_cons]

end RangeScan

/-- Live ranges are found exactly if every instruction of the block can be scanned. -/
theorem liveRanges_ok_iff (p : Prog) (f : Fn) (b : Blk) :
  (∃ ranges, liveRanges p f b = .ok ranges) ↔ ∀ i ∈ b.code, f.Scannable (f.ins i) := by
  unfold liveRanges
  rw [bind_ok_iff (φ := True), and_true, RangeScan.walk_ok_iff]
  simp [pure, Except.pure]

/-! ## Removing useless instructions

Executions with and without an instruction that writes nothing live agree on the live registers, and
so on the instructions with a side effect and what the registers they read hold. -/

open Trace Fn
variable {g h : Fn} {x : Ins} {i : InsId} {done : List BlkId} {op : Op} {p : Prog} {V : Type}

/-! ## Accounts of values -/

/-- What instructions compute from the registers that they read. -/
structure Account (V : Type) where
  /-- What an instruction without a side effect writes. -/
  result : Ins → List V → V
  holds : Ins → List V → Bool
  idx : Ins → List V → Int

/-- What an instruction does. Of an instruction with a side effect it is seen which one it is and
what the registers hold that it reads; what it writes is the answer. -/
def Account.act {V : Type} (m : Account V) (f : Fn) (i : InsId) (s : Regs V) :
  Act V (Event × List V) :=
  let x := f.ins i
  let vs := x.read.map s
  let e := (f.event i, vs)
  if x.op.hasSideEffect then
    match x.ctrl with
    | .next => .ask e x.written
    | .stop => .stop e
    | .jump t => .goto (some e) t
    | .branch _ _ _ t => if m.holds x vs then .goto (some e) t else .skip (some e) t
    | .select _ t => .goto (some e) ((f.table t).tgt (m.idx x vs))
  else .set x.written (m.result x vs)

def Account.machine {V : Type} (m : Account V) (f : Fn) :
  Fn.State V → Move (Seen (Event × List V)) V (Fn.State V) :=
  f.machine (m.act f)

/-- What accesses memory, calls, takes or passes on a value or may leave a block is never removed. -/
lemma Op.hasSideEffect_iff (op : Op) : op.hasSideEffect ↔
  op.fam ∉ [Fam.alu, .alu1, .cmp, .mov, .conv, .lea, .lea1, .nop, .getSpecial] := by
  cases op <;> decide

lemma Op.defCount_of_isTerm (h : op.isTerm) : op.defCount = 0 := by
  cases op <;> first | rfl | cases h

lemma Account.act_congr (m : Account V) (f : Fn) {s t : Regs V}
  (h : ∀ r ∈ (f.ins i).read, s r = t r) : m.act f i s = m.act f i t := by
  have hmap : (f.ins i).read.map s = (f.ins i).read.map t := map_congr_left h
  simp only [act, hmap]

lemma Account.act_suits (m : Account V) (f : Fn) (i : InsId) (s : Regs V) :
  (m.act f i s).Suits (f.ins i) := by
  have hterm : (f.ins i).ctrl ≠ .next → (f.ins i).op.isTerm := by
    intro hcon
    by_contra hno
    exact hcon (Ins.ctl_eq_next (by simpa using hno))
  by_cases hside : (f.ins i).op.hasSideEffect
  · simp only [act, if_pos hside]
    cases hcon : (f.ins i).ctrl with
    | next => rfl
    | stop | jump => exact hterm (by simp [hcon])
    | branch op x y t =>
      dsimp only
      split <;> exact hterm (by simp [hcon])
    | select x t => exact hterm (by simp [hcon])
  · simp only [act, if_neg hside]
    rfl

lemma Account.act_of_pure (m : Account V) (h : (f.ins i).op.hasSideEffect = false) (s : Regs V) :
  m.act f i s = .set (f.ins i).written (m.result (f.ins i) ((f.ins i).read.map s)) := by
  simp [act, h]

lemma Ins.written_of_isTerm (h : x.op.isTerm) : x.written = [] := by
  rw [written, Op.defCount_of_isTerm h]
  rfl

/-! ## Which instructions stay -/

/-- From the code, with `live` live after it, `kept` remains, and `before` is live before it. -/
inductive Prunes (f : Fn) (live : RegSet) : List InsId → RegSet → List InsId → Prop where
  | nil : Prunes f live [] live []
  | keep {i : InsId} {is kept : List InsId} {after before : RegSet}
      (rest : Prunes f live is after kept)
      (hbef : ∀ r, r ∈ before ↔ r ∈ (f.ins i).read ∨ r ∈ after ∧ r ∉ (f.ins i).written) :
      Prunes f live (i :: is) before (i :: kept)
  | drop {i : InsId} {is kept : List InsId} {after before : RegSet}
      (rest : Prunes f live is after kept) (hpure : (f.ins i).op.hasSideEffect = false)
      (hdead : ∀ r ∈ after, r ∉ (f.ins i).written) (hbef : ∀ r, r ∈ before ↔ r ∈ after) :
      Prunes f live (i :: is) before kept

section
variable {live before : RegSet} {is kept : List InsId}

lemma Prunes.sublist (h : Prunes f live is before kept) : kept.Sublist is := by
  induction h with
  | nil => exact .slnil
  | keep _ _ ih => exact ih.cons_cons _
  | drop _ _ _ _ ih => exact ih.cons _

lemma Prunes.congr (h : Prunes f live is before kept) (hins : ∀ i, g.ins i = f.ins i) :
  Prunes g live is before kept := by
  induction h with
  | nil => exact .nil
  | keep _ hbef ih => exact .keep ih (by simpa only [hins] using hbef)
  | drop _ hpure hdead hbef ih =>
    exact .drop ih (by rwa [hins]) (by simpa only [hins] using hdead) hbef

lemma Prunes.exposes_or (h : Prunes f live is before kept) {r : RegId} (hr : r ∈ before) :
  f.Exposes is r ∨ r ∈ live ∧ ∀ i ∈ is, r ∉ (f.ins i).written := by
  induction h with
  | nil => exact .inr ⟨hr, by simp⟩
  | @keep i is kept after before _ hbef ih =>
    rw [exposes_cons]
    rcases (hbef r).1 hr with hread | ⟨hafter, hnot⟩
    · exact .inl (.inl hread)
    · rcases ih hafter with hexposed | ⟨hlive, hnone⟩
      · exact .inl (.inr ⟨hnot, hexposed⟩)
      · exact .inr ⟨hlive, by simpa using ⟨hnot, hnone⟩⟩
  | @drop i is kept after before _ _ hdead hbef ih =>
    rw [exposes_cons]
    have hafter := (hbef r).1 hr
    rcases ih hafter with hexposed | ⟨hlive, hnone⟩
    · exact .inl (.inr ⟨hdead r hafter, hexposed⟩)
    · exact .inr ⟨hlive, by simpa using ⟨hdead r hafter, hnone⟩⟩

/-- The two parts of what comes before an instruction, if it returns no results in registers. -/
lemma liveBefore_eq (live : RegSet) (x : Ins) : liveBefore live [] x =
  let needed := x.op.hasSideEffect || x.written.any live.contains
  let rest := x.written.foldl erase live
  (if needed then x.read.foldl insert rest else rest, needed) := rfl

lemma mem_liveBefore (live : RegSet) (x : Ins) (r : RegId) : r ∈ (liveBefore live [] x).1 ↔
  (liveBefore live [] x).2 ∧ r ∈ x.read ∨ r ∈ live ∧ r ∉ x.written := by
  rw [liveBefore_eq]
  cases hneeded : x.op.hasSideEffect || x.written.any live.contains with
  | true => simp [mem_foldl_insert, mem_foldl_erase, or_comm]
  | false => simp [mem_foldl_erase]

lemma liveBefore_not_needed (h : (liveBefore live [] x).2 = false) :
  x.op.hasSideEffect = false ∧ ∀ r ∈ live, r ∉ x.written := by
  rw [liveBefore_eq] at h
  simp only [Bool.or_eq_false_iff, any_eq_false] at h
  exact ⟨h.1, fun r hr hw => h.2 r hw (contains_iff.2 hr)⟩

lemma usefulCode_prunes (p : Prog) (live : RegSet)
  (hfree : ∀ r ∈ f.regIds, (f.reg r).cpuReg? = none)
  (hcalls : ∀ i ∈ is, (f.ins i).op.isCall → ∃ g, callee (f.ins i) = .ok g) :
  ∃ before kept, usefulCode p f live is = .ok (before, kept) ∧ Prunes f live is before kept := by
  induction is with
  | nil => exact ⟨live, [], rfl, .nil⟩
  | cons i is ih =>
    obtain ⟨after, kept, hrun, hrest⟩ := ih fun j hj => hcalls j (.tail _ hj)
    have hret := resultRegs_eq_nil (p := p) hfree (hcalls i (.head _))
    refine ⟨(liveBefore after [] (f.ins i)).1,
      if (liveBefore after [] (f.ins i)).2 then i :: kept else kept, ?_, ?_⟩
    · rw [usefulCode, hrun, hret]
      rfl
    · cases hneeded : (liveBefore after [] (f.ins i)).2 with
      | true =>
        refine .keep hrest fun r => ?_
        rw [mem_liveBefore, hneeded]
        simp
      | false =>
        obtain ⟨hpure, hdead⟩ := liveBefore_not_needed hneeded
        refine .drop hrest hpure hdead fun r => ?_
        rw [mem_liveBefore, hneeded]
        simpa using hdead r

end

/-! ## The pass -/

/-- Nothing has changed but the code and the live registers of blocks. -/
structure Unmoved (f g : Fn) : Prop where
  ins : ∀ i, g.ins i = f.ins i
  table : ∀ t, g.table t = f.table t
  order : g.order = f.order
  regs : g.regs = f.regs
  size : g.blks.size = f.blks.size
  succs : ∀ b, (g.blk b).succs = (f.blk b).succs
  preds : ∀ b, (g.blk b).preds = (f.blk b).preds

lemma Unmoved.refl (f : Fn) : Unmoved f f :=
  ⟨fun _ => rfl, fun _ => rfl, rfl, rfl, rfl, fun _ => rfl, fun _ => rfl⟩

lemma Unmoved.trans (hfg : Unmoved f g) (hgh : Unmoved g h) : Unmoved f h where
  ins i := (hgh.ins i).trans (hfg.ins i)
  table t := (hgh.table t).trans (hfg.table t)
  order := hgh.order.trans hfg.order
  regs := hgh.regs.trans hfg.regs
  size := hgh.size.trans hfg.size
  succs b := (hgh.succs b).trans (hfg.succs b)
  preds b := (hgh.preds b).trans (hfg.preds b)

lemma Unmoved.setCode (f : Fn) (b : BlkId) (is : List InsId) : Unmoved f (f.setCode b is) :=
  ⟨fun _ => rfl, fun _ => rfl, rfl, rfl, blks_size_setCode b is,
    fun c => succs_setCode b c is, fun c => preds_setCode b c is⟩

lemma Analyzed.unmoved (h : Analyzed f g) : Unmoved f g := by
  have hblk : ∀ b, (g.blk b).succs = (f.blk b).succs ∧ (g.blk b).preds = (f.blk b).preds := by
    intro b
    obtain ⟨live, hlive⟩ := h.blk b
    rw [hlive]
    exact ⟨rfl, rfl⟩
  obtain ⟨blks, hsize, rfl⟩ := h.rest
  exact ⟨fun _ => rfl, fun _ => rfl, rfl, rfl, hsize, fun b => (hblk b).1, fun b => (hblk b).2⟩

lemma Analyzed.code (h : Analyzed f g) (b : BlkId) : (g.blk b).code = (f.blk b).code := by
  obtain ⟨live, hlive⟩ := h.blk b
  rw [hlive]

/-- A function that has only lost instructions is still consistent. -/
lemma Fn.Consistent.of_unmoved (hf : f.Consistent) (h : Unmoved f g)
  (hcode : ∀ b ∈ f.order, ∀ i ∈ (g.blk b).code, i ∈ (f.blk b).code) : g.Consistent := by
  refine ⟨?_, ?_, ?_, ?_, ?_, ?_, ?_, ?_⟩
  · rw [h.order]
    exact hf.nodup
  · intro b hb
    rw [h.size]
    exact hf.lt b (h.order ▸ hb)
  · intro b hb s hs
    rw [h.order] at hb ⊢
    exact hf.inside b hb s (h.succs b ▸ hs)
  · intro b hb a ha
    rw [h.order] at hb ⊢
    exact hf.entered b hb a (h.preds b ▸ ha)
  · intro a b
    rw [h.preds, h.succs]
    exact hf.paired a b
  · intro b hb i hi r hr
    rw [h.order] at hb
    rw [h.ins] at hr
    rw [h.regs]
    exact hf.regs b hb i (hcode b hb i hi) r hr
  · intro b hb i hi hcall
    rw [h.order] at hb
    rw [h.ins] at hcall ⊢
    exact hf.calls b hb i (hcode b hb i hi) hcall
  · intro r hr
    simp only [regIds, reg, h.regs] at hr ⊢
    exact hf.free r hr

/-- Useless instructions have been removed from the blocks `done`, given which registers are live. -/
structure Pruned (f g : Fn) (done : List BlkId) : Prop where
  unmoved : Unmoved f g
  code : ∀ b ∈ done, ∃ before, Prunes f (f.blk b).liveOut (f.blk b).code before (g.blk b).code
  same : ∀ b, b ∉ done → g.blk b = f.blk b

lemma Pruned.sublist (h : Pruned f g done) (b : BlkId) : (g.blk b).code.Sublist (f.blk b).code := by
  by_cases hb : b ∈ done
  · obtain ⟨before, hprn⟩ := h.code b hb
    exact hprn.sublist
  · rw [h.same b hb]

lemma Pruned.setCode (h : Pruned f g done) {b : Nat} {kept : List InsId} {before : RegSet}
  (hlt : b < f.blks.size) (hprn : Prunes f (f.blk b).liveOut (f.blk b).code before kept) :
  Pruned f (g.setCode b kept) (done ++ [b]) := by
  have hltg : b < g.blks.size := h.unmoved.size ▸ hlt
  refine ⟨h.unmoved.trans (.setCode g b kept), fun c hc => ?_, fun c hc => ?_⟩
  · by_cases hcb : c = b
    · subst hcb
      rw [code_setCode_self kept hltg]
      exact ⟨before, hprn⟩
    · rw [blk_setCode_ne _ hcb]
      exact h.code c (by simpa [hcb] using hc)
  · rw [mem_append, mem_singleton, not_or] at hc
    rw [blk_setCode_ne _ hc.2, h.same c hc.1]

lemma removeUseless_pruned (hf : f.Consistent) (hlive : f.livenessValid) :
  ∃ n g, (removeUseless p).run f = .ok (n, g) ∧ Pruned f g f.order := by
  apply Pass.Ens.exists_ok
  refine Pass.ens_get_bind (Pass.ens_require_bind hlive ?_)
  let inv (done rest : List BlkId) (g : Fn) : Prop := Pruned f g done ∧ f.order = done ++ rest
  have hsta : inv [] f.order f := ⟨⟨.refl f, by simp, fun _ _ => rfl⟩, rfl⟩
  refine (Pass.ens_overBlks ?_ hsta).mono fun n g h => h.1
  rintro done b rest g ⟨hpruned, hord⟩
  have hb : b ∈ f.order := by simp [hord]
  have hfresh : b ∉ done := by
    have hnd := hf.nodup
    rw [hord] at hnd
    exact fun hin => (nodup_append.1 hnd).2.2 b hin b (.head _) rfl
  have hg : g.Consistent := hf.of_unmoved hpruned.unmoved fun c _ i hi => (hpruned.sublist c).mem hi
  have hbg : b ∈ g.order := hpruned.unmoved.order ▸ hb
  obtain ⟨before, kept, hrun, hprn⟩ :=
    usefulCode_prunes p (g.blk b).liveOut hg.free (hg.calls b hbg)
  refine Pass.ens_get_bind (Pass.ens_attempt_bind hrun (Pass.ens_set_bind ?_))
  have hpruned' := hprn.congr fun i => (hpruned.unmoved.ins i).symm
  rw [hpruned.same b hfresh] at hpruned'
  exact Pass.ens_pure ⟨hpruned.setCode (hf.lt b hb) hpruned', by simp [hord]⟩

/-! ## Executions with and without useless instructions -/

/-- Nothing has changed but that useless instructions are gone. -/
structure Thinned (f g : Fn) : Prop where
  unmoved : Unmoved f g
  code : ∀ b ∈ f.order, ∃ live before, (∀ r, r ∈ live ↔ f.LiveOut b r) ∧
    Prunes f live (f.blk b).code before (g.blk b).code

lemma Analyzed.thinned {f' : Fn} (hlive : Analyzed f f') (h : Pruned f' g f'.order) :
  Thinned f g := by
  refine ⟨hlive.unmoved.trans h.unmoved, fun b hb => ?_⟩
  obtain ⟨before, hprn⟩ := h.code b (hlive.unmoved.order ▸ hb)
  rw [hlive.code] at hprn
  exact ⟨_, before, hlive.liveOut b hb, hprn.congr fun i => (hlive.unmoved.ins i).symm⟩

/-- Both executions are at the same place, and agree on what is live there. -/
inductive Agrees {V : Type} (f : Fn) : Fn.State V → Fn.State V → Prop where
  | mk {b : BlkId} {pre is kept : List InsId} {live before : RegSet} {s t : Regs V}
      (hb : b ∈ f.order) (hcode : (f.blk b).code = pre ++ is)
      (hlive : ∀ r, r ∈ live ↔ f.LiveOut b r) (hprn : Prunes f live is before kept)
      (hregs : ∀ r ∈ before, s r = t r) : Agrees f (⟨b, is⟩, s) (⟨b, kept⟩, t)

namespace Thinned
variable {b c : BlkId} {s t : Regs V} {m : Account V}

lemma agrees_start (h : Thinned f g) (hb : b ∈ f.order) (s : Regs V) :
  Agrees f (f.enter b, s) (g.enter b, s) := by
  obtain ⟨live, before, hlive, hprn⟩ := h.code b hb
  exact .mk hb (nil_append _).symm hlive hprn fun _ _ => rfl

lemma agree_leave {ε : Type} (hf : f.Consistent) (h : Thinned f g) (hb : b ∈ f.order)
  (hregs : ∀ r, f.LiveOut b r → s r = t r) (e : Option ε) (c : BlkId) :
  (f.leave b s e c).Agree (Agrees f) (g.leave b t e c) := by
  refine .emit fun _ => ?_
  rw [h.unmoved.succs]
  split
  · rename_i hc
    have hcin := hf.inside b hb c hc
    obtain ⟨live, before, hlive, hprn⟩ := h.code c hcin
    refine .some (.mk hcin (nil_append _).symm hlive hprn fun r hr => ?_)
    refine hregs r ⟨c, hc, ?_⟩
    rcases hprn.exposes_or hr with hexposed | ⟨hout, hnone⟩
    · exact .of_readsFirst (readsFirst_iff.2 hexposed)
    · refine .of_liveOut ((hlive r).1 hout) ?_
      rintro ⟨i, hi, hw⟩
      exact hnone i hi hw
  · exact .none

lemma act_eq (h : Thinned f g) (i : InsId) (s : Regs V) : m.act g i s = m.act f i s := by
  have hevent : g.event i = f.event i := by simp only [event, h.unmoved.ins]
  simp only [Account.act, h.unmoved.ins, h.unmoved.table, hevent]

/-- Both machines do the same, or the first one executes an instruction that the second lacks. -/
lemma agree_or_skip (hf : f.Consistent) (hin : f.LeavesEnd) (h : Thinned f g) {a a' : Fn.State V}
  (hagr : Agrees f a a') : (m.machine f a).Agree (Agrees f) (m.machine g a') ∨ ∃ a'',
  m.machine f a = .silent (some a'') ∧ Agrees f a'' a' ∧ a''.1.code.length < a.1.code.length := by
  obtain @⟨b, pre, is, kept, live, before, s, t, hb, hcode, hlive, hprn, hregs⟩ := hagr
  cases hprn with
  | nil =>
    left
    have hout : ∀ r, f.LiveOut b r → s r = t r := fun r hr => hregs r ((hlive r).2 hr)
    simp only [Account.machine, machine, h.unmoved.succs]
    cases (f.blk b).succs.head? with
    | none => exact .silent .none
    | some c => exact h.agree_leave hf hb hout none c
  | @drop i is _ after _ rest hpure hdead hbef =>
    right
    refine ⟨_, by rw [Account.machine, machine, m.act_of_pure hpure], ?_, by simp⟩
    have hcode' : (f.blk b).code = (pre ++ [i]) ++ is := by simp [hcode]
    refine .mk hb hcode' hlive rest fun r hr => ?_
    rw [Regs.write_of_notMem (hdead r hr)]
    exact hregs r ((hbef r).2 hr)
  | @keep i is kept after _ rest hbef =>
    left
    have hact : m.act g i t = m.act f i s := by
      rw [h.act_eq]
      exact m.act_congr f fun r hr => (hregs r ((hbef r).2 (.inl hr))).symm
    have hsuits := m.act_suits f i s
    -- Where control goes on in the block, both hold the same in what is written and in the rest.
    have hnext : ∀ v, Agrees f (⟨b, is⟩, s.write (f.ins i).written v)
        (⟨b, kept⟩, t.write (f.ins i).written v) := by
      intro v
      have hcode' : (f.blk b).code = (pre ++ [i]) ++ is := by simp [hcode]
      refine .mk hb hcode' hlive rest fun r hr => ?_
      by_cases hw : r ∈ (f.ins i).written
      · rw [Regs.write_of_mem hw, Regs.write_of_mem hw]
      · rw [Regs.write_of_notMem hw, Regs.write_of_notMem hw]
        exact hregs r ((hbef r).2 (.inr ⟨hr, hw⟩))
    have hoth : ∀ c, g.otherSucc b c = f.otherSucc b c := by
      intro c
      simp only [otherSucc, h.unmoved.succs]
    -- A terminator is the last instruction, so what is live after it is live after the block.
    have hleave : ∀ (e : Option (Event × List V)) c, (f.ins i).op.isTerm →
        (f.leave b s e c).Agree (Agrees f) (g.leave b t e c) := by
      intro e c hterm
      obtain rfl := hin.eq_nil hb hcode hterm
      cases rest
      refine h.agree_leave hf hb (fun r hr => ?_) e c
      refine hregs r ((hbef r).2 (.inr ⟨(hlive r).2 hr, ?_⟩))
      simp [Ins.written_of_isTerm hterm]
    simp only [Account.machine, machine, hact, hoth]
    cases hdo : m.act f i s with
    | set rs v =>
      rw [hdo] at hsuits
      obtain rfl : rs = (f.ins i).written := hsuits
      exact .silent (.some (hnext v))
    | ask e rs =>
      rw [hdo] at hsuits
      obtain rfl : rs = (f.ins i).written := hsuits
      exact .emit fun v => .some (hnext v)
    | stop e => exact .emit fun _ => .none
    | goto e tgt =>
      rw [hdo] at hsuits
      exact hleave e tgt hsuits
    | skip e tgt =>
      rw [hdo] at hsuits
      exact hleave e _ hsuits

lemma sameTraces (hf : f.Consistent) (hin : f.LeavesEnd) (h : Thinned f g)
  (hb : b ∈ f.order) (s : Regs V) :
  SameTraces (m.machine f) (some (f.enter b, s)) (m.machine g) (some (g.enter b, s)) := by
  have hsta := h.agrees_start hb s
  constructor
  · refine (Simulation.of_answered fun a a' hagr => ?_).refines hsta
    rcases h.agree_or_skip hf hin hagr with hagree | ⟨a'', hstep, hrest, -⟩
    · exact .of_agree hagree
    · exact .of_silent hstep hrest
  · refine (Simulation.of_answered (R := fun a' a => Agrees f a a') fun a' a hagr => ?_).refines
      hsta
    -- The first machine catches up with the second one, by induction on the code that is left.
    induction hlen : a.1.code.length using Nat.strong_induction_on generalizing a with
    | _ n ih =>
      rcases h.agree_or_skip hf hin hagr with hagree | ⟨a'', hstep, hrest, hlt⟩
      · exact .of_agree hagree.flip
      · exact .of_quiet (.single hstep) (ih _ (hlen ▸ hlt) a'' hrest rfl)

lemma sublist (h : Thinned f g) (hb : b ∈ f.order) : (g.blk b).code.Sublist (f.blk b).code := by
  obtain ⟨live, before, -, hprn⟩ := h.code b hb
  exact hprn.sublist

lemma consistent (h : Thinned f g) (hf : f.Consistent) : g.Consistent :=
  hf.of_unmoved h.unmoved fun _ hb _ hi => (h.sublist hb).mem hi

lemma leavesFirst (h : Thinned f g) (hf : f.LeavesFirst) : g.LeavesFirst := by
  intro first second rest hord
  rw [h.unmoved.succs]
  exact hf first second rest (h.unmoved.order ▸ hord)

lemma leavesAtEnd (h : Thinned f g) (hf : f.LeavesEnd) : g.LeavesEnd := by
  intro b hb j hj
  rw [h.unmoved.order] at hb
  rw [h.unmoved.ins]
  have hsub := (h.sublist hb).reverse.tail
  rw [tail_reverse, tail_reverse, reverse_sublist] at hsub
  exact hf b hb j (hsub.mem hj)

end Thinned

lemma removeUseless_thinned {f1 : Fn} (hf : f.Consistent)
  (hlive : (liveness p).run f = .ok ((), f1)) :
  ∃ n g, (removeUseless p).run f1 = .ok (n, g) ∧ Thinned f g := by
  have hanalyzed := liveness_analyzed hf hlive
  have hvalid : f1.livenessValid := by
    obtain ⟨blks, -, rfl⟩ := hanalyzed.rest
    rfl
  have hf1 : f1.Consistent := hf.of_unmoved hanalyzed.unmoved fun b _ i hi => hanalyzed.code b ▸ hi
  obtain ⟨n, g, hrun, hpruned⟩ := removeUseless_pruned hf1 hvalid
  exact ⟨n, g, hrun, hanalyzed.thinned hpruned⟩

/-- The second function is the first with fewer instructions. Started at any block, with anything in
the registers, whatever instructions compute and the environment answers, both execute the same
instructions with a side effect on the same values. -/
structure SeenAlike (f g : Fn) : Prop where
  ins : ∀ i, g.ins i = f.ins i
  sublist : ∀ b ∈ f.order, (g.blk b).code.Sublist (f.blk b).code
  sameTraces : ∀ (V : Type) (m : Account V) (s : Regs V), ∀ b ∈ f.order,
    SameTraces (m.machine f) (some (f.enter b, s)) (m.machine g) (some (g.enter b, s))

lemma Thinned.seenAlike (hf : f.Consistent) (hin : f.LeavesEnd) (h : Thinned f g) : SeenAlike f g :=
  ⟨h.unmoved.ins, fun _ hb => h.sublist hb, fun _ _ s _ hb => h.sameTraces hf hin hb s⟩

lemma SeenAlike.trans (hord : g.order = f.order) (hfg : SeenAlike f g) (hgh : SeenAlike g h) :
  SeenAlike f h where
  ins i := (hgh.ins i).trans (hfg.ins i)
  sublist b hb := (hgh.sublist b (hord ▸ hb)).trans (hfg.sublist b hb)
  sameTraces V m s b hb := (hfg.sameTraces V m s b hb).trans (hgh.sameTraces V m s b (hord ▸ hb))

/-- After the analysis the pass succeeds, and nobody can tell the functions apart. The same can be
done once more, and then neither: an instruction that has gone is not missed later. -/
theorem removeUseless_seenAlike {p : Prog} {f f₁ : Fn} (hf : f.Consistent)
  (hin : f.LeavesEnd) (hlive : (liveness p).run f = .ok ((), f₁)) :
  ∃ n g, (removeUseless p).run f₁ = .ok (n, g) ∧ SeenAlike f g ∧
    ∃ g1 k h, (liveness p).run g = .ok ((), g1) ∧
      (removeUseless p).run g1 = .ok (k, h) ∧ SeenAlike g h ∧ SeenAlike f h := by
  obtain ⟨n, g, hrun, hthin⟩ := removeUseless_thinned hf hlive
  have hg := hthin.consistent hf
  have hin' := hthin.leavesAtEnd hin
  have hfst := hthin.leavesFirst ((liveness_run_iff (p := p) hf).1 ⟨f₁, hlive⟩)
  obtain ⟨g1, hlive'⟩ := (liveness_run_iff (p := p) hg).2 hfst
  obtain ⟨k, h, hrun', hthin'⟩ := removeUseless_thinned hg hlive'
  have hfg := hthin.seenAlike hf hin
  have hgh := hthin'.seenAlike hg hin'
  exact ⟨n, g, hrun, hfg, g1, k, h, hlive', hrun', hgh, hfg.trans hthin.unmoved.order hgh⟩

/-- A loop that counts, and copies the count to a register that is not read but by the next copy. -/
def counting : Fn where
  name := "main"
  kind := .normal
  regs := #[{ name := "x", kind := .s32 }, { name := "y", kind := .s32 },
    { name := "z", kind := .s32 }]
  lits := #[.ofInt .s32 0, .ofInt .s32 1, .ofInt .s32 10]
  code := #[.of .mov [.reg 0, .lit 0], .of .add [.reg 0, .reg 0, .lit 1],
    .of .mov [.reg 1, .reg 0], .of .mov [.reg 2, .reg 1], .of .blt [.reg 0, .lit 2, .blk 1],
    .of .pusharg [.reg 0], .of .ret []]
  blks := #[{ name := "start", code := [0], succs := [1] },
    { name := "loop", code := [1, 2, 3, 4], succs := [1, 2], preds := [0, 1] },
    { name := "end", code := [5, 6], preds := [1] }]
  order := [0, 1, 2]

lemma counting_consistent : counting.Consistent where
  nodup := by decide
  lt := by decide
  inside := by decide
  entered := by decide
  paired := paired_of_blks (by decide) (by decide)
  regs := regs_of_args (by decide)
  calls := calls_of_none (by decide)
  free := by decide

/-- Both copies go, the second because the first one is not needed without it. -/
theorem removeUseless_seenAlike_counting : counting.Consistent ∧ counting.LeavesEnd ∧
  ∃ f₁ n g, (liveness {}).run counting = .ok ((), f₁) ∧
    (removeUseless {}).run f₁ = .ok (n, g) ∧ n = 2 ∧ (g.blk 1).code = [1, 4] ∧
    SeenAlike counting g := by
  have hin : counting.LeavesEnd := by decide
  have hfst : counting.LeavesFirst := by
    intro first second rest hord
    cases hord
    decide
  obtain ⟨f₁, hlive⟩ := (liveness_run_iff (p := {}) counting_consistent).2 hfst
  obtain ⟨n, g, hrun, hsame, -⟩ := removeUseless_seenAlike counting_consistent hin hlive
  have hleft : (((liveness {}).run counting).toOption.bind fun r =>
      ((removeUseless {}).run r.2).toOption.map fun q => (q.1, (q.2.blk 1).code)) =
      some (2, [1, 4]) := by decide +kernel
  rw [hlive, Except.toOption, Option.bind_some, hrun, Except.toOption, Option.map_some] at hleft
  obtain ⟨hn, hcode⟩ := Prod.mk.inj (Option.some.inj hleft)
  exact ⟨counting_consistent, hin, f₁, n, g, hlive, hrun, hn, hcode, hsame⟩

end Retarget.IR
