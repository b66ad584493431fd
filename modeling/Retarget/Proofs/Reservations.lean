import Retarget.A32.Compile
import Retarget.Proofs.Passes
import Mathlib.Data.List.TakeWhile
import Mathlib.Data.Int.Order.Basic

/-!
# Reserved ranges and register pools

A query looks at one reserved range only, the first one that is not behind it. What was passed over
ends before any later query starts, and what comes after starts no earlier, so the answer is the same
as if every reserved range were compared.

A linear scan takes registers for ranges in order of their starts and gives each one back once. What
is free at any time is what may be used and is not held.
-/

namespace Retarget.IR
open List

/-- Each of the two ranges starts before the other one ends. -/
def LiveRange.overlaps (x y : LiveRange) : Bool := x.first < y.last && y.first < x.last

namespace Reserved
variable {r : Reserved} {x y : LiveRange} {xs qs : List LiveRange} {pos : Int}

lemma first_le_of_before (h : x.before y) : x.first ≤ y.first := by
  simp only [LiveRange.before, Bool.or_eq_true, decide_eq_true_eq, Bool.and_eq_true] at h
  exact h.elim le_of_lt fun h => (beq_iff_eq.1 h.1).le

lemma not_overlaps_of_last_le (h : y.last ≤ x.first) : x.overlaps y = false := by
  simp [LiveRange.overlaps, h.not_gt]

/-- Of ranges in order of their starts, the first one that does not end too early decides. -/
lemma head_dropWhile_any (h : xs.Pairwise (·.first ≤ ·.first)) :
  (xs.dropWhile (·.last ≤ x.first)).head?.any (·.first < x.last) = xs.any x.overlaps := by
  induction h with
  | nil => rfl
  | @cons y ys hy _ ih =>
    by_cases hend : y.last ≤ x.first
    · simp [hend, ih, not_overlaps_of_last_le hend]
    by_cases hsta : y.first < x.last
    · simp [hsta, LiveRange.overlaps, not_le.1 hend]
    -- the ranges that follow start no earlier
    have hfst : ∀ z ∈ y :: ys, y.first ≤ z.first := forall_mem_cons.2 ⟨le_rfl, hy⟩
    have hnone : (y :: ys).any x.overlaps = false := by
      refine any_eq_false.2 fun z hz => ?_
      simp [LiveRange.overlaps, ((not_lt.1 hsta).trans (hfst z hz)).not_gt]
    simp [hend, hsta, hnone]

lemma ahead_advance : (r.advance x).ahead = r.ahead.dropWhile (·.last ≤ x.first) := by
  let p (y : LiveRange) : Bool := y.last ≤ x.first
  calc (r.advance x).ahead
    _ = r.ahead.drop (r.ahead.takeWhile p).length := drop_drop.symm
    _ = (r.ahead.takeWhile p ++ r.ahead.dropWhile p).drop (r.ahead.takeWhile p).length := by
      rw [takeWhile_append_dropWhile]
    _ = r.ahead.dropWhile p := drop_left

/-- What the cursor has passed ends no later than `pos`. -/
def PassedUpTo (r : Reserved) (pos : Int) : Prop :=
  ∀ y ∈ r.ranges.toList, y ∈ r.ahead ∨ y.last ≤ pos

lemma PassedUpTo.advance (h : r.PassedUpTo x.first) (hpos : x.first ≤ pos) :
  (r.advance x).PassedUpTo pos := by
  intro y hy
  rw [ahead_advance]
  obtain hahead | hlast := h y hy
  · rw [← takeWhile_append_dropWhile (p := (·.last ≤ x.first)) (l := r.ahead), mem_append] at hahead
    refine hahead.symm.imp_right fun htaken => ?_
    exact le_trans (by simpa using mem_takeWhile_imp htaken) hpos
  · exact .inr (hlast.trans hpos)

section
variable (hsorted : r.ranges.toList.Pairwise (·.first ≤ ·.first))
include hsorted

lemma run_conflicts (h : r.PassedUpTo x.first) :
  (conflicts x).run r = (r.ranges.toList.any x.overlaps, r.advance x) := by
  have hsub : r.ahead.Sublist r.ranges.toList := drop_sublist ..
  have hahead : r.ahead.any x.overlaps = r.ranges.toList.any x.overlaps := by
    rw [Bool.eq_iff_iff, any_eq_true, any_eq_true]
    refine ⟨fun ⟨y, hy, hover⟩ => ⟨y, hsub.mem hy, hover⟩, fun ⟨y, hy, hover⟩ => ?_⟩
    refine ⟨y, (h y hy).resolve_right fun hlast => ?_, hover⟩
    simp [not_overlaps_of_last_le hlast] at hover
  rw [← hahead, ← head_dropWhile_any (hsorted.sublist hsub), ← ahead_advance]
  rfl

lemma mapM_conflicts (h : ∀ q ∈ qs, r.PassedUpTo q.first) (hqs : qs.Pairwise (·.first ≤ ·.first)) :
  ((qs.mapM conflicts).run r).1 = qs.map fun q => r.ranges.toList.any q.overlaps := by
  induction hqs generalizing r with
  | nil => rfl
  | @cons q qs hq _ ih =>
    have hpassed := h q mem_cons_self
    have htail := ih hsorted (r := r.advance q) fun _ hmem => hpassed.advance (hq _ hmem)
    have hrun : (((q :: qs).mapM conflicts).run r).1 =
        ((conflicts q).run r).1 :: ((qs.mapM conflicts).run ((conflicts q).run r).2).1 := by
      rw [mapM_cons]
      rfl
    rw [hrun, run_conflicts hsorted hpassed, htail]
    rfl

end

lemma foldlM_reserve (h : (r.ranges.toList ++ xs).Pairwise (·.before ·)) :
  xs.foldlM reserve r = .ok { r with ranges := r.ranges ++ xs } := by
  induction xs generalizing r with
  | nil => simp; rfl
  | cons x xs ih =>
    have hback : r.ranges.back?.all (·.before x) := by
      simp only [Option.all_eq_true]
      intro y hy
      exact (pairwise_append.1 h).2.2 y (Array.mem_of_back? hy).val x mem_cons_self
    rw [foldlM_cons, reserve]
    simp only [hback]
    exact (ih (by simpa using h)).trans (by simp)

/-- After ranges have been reserved in order, each of any number of queries in order of their starts
tells whether it overlaps one of them. The reserved ranges may even overlap one another. -/
theorem conflicts_eq_any_overlaps (xs qs : List LiveRange) (hxs : xs.Pairwise (·.before ·))
  (hqs : qs.Pairwise (·.first ≤ ·.first)) : ∃ r, xs.foldlM reserve {} = .ok r ∧
    ((qs.mapM conflicts).run r).1 = qs.map fun q => xs.any q.overlaps := by
  have hreserved : xs.foldlM reserve {} = .ok { ranges := xs.toArray } := by
    simpa using foldlM_reserve (r := {}) (by simpa using hxs)
  exact ⟨_, hreserved, mapM_conflicts (hxs.imp first_le_of_before) (fun _ _ _ => .inl) hqs⟩

theorem conflicts_eq_any_overlaps_two :
  let range (first last : Int) : LiveRange := { first, last, reg := none }
  let xs := [range 0 3, range 5 9]
  let qs := [range 1 2, range 3 5, range 4 6, range 8 8]
  (xs.Pairwise (·.before ·) ∧ qs.Pairwise (·.first ≤ ·.first)) ∧
  ∃ r, xs.foldlM reserve {} = .ok r ∧ ((qs.mapM conflicts).run r).1 = [true, false, true, true] :=
  ⟨by decide, conflicts_eq_any_overlaps _ _ (by decide) (by decide)⟩

/-- No range is behind, and each starts no earlier than those before it. -/
def Unused (r : Reserved) : Prop :=
  r.passed = 0 ∧ r.ranges.toList.Pairwise (·.first ≤ ·.first)

lemma unused_reserve {s : Reserved} (h : r.reserve x = .ok s) :
  s = { r with ranges := r.ranges.push x } ∧ (r.Unused → s.Unused) := by
  obtain ⟨_, hback, ⟨⟩⟩ := Pass.bind_ok.1 h
  refine ⟨rfl, fun ⟨hpassed, hsorted⟩ => ⟨hpassed, ?_⟩⟩
  rw [Array.toList_push]
  refine pairwise_append.2 ⟨hsorted, pairwise_singleton .., fun y hy z hz => ?_⟩
  obtain ⟨front, b, hb⟩ := (eq_nil_or_concat r.ranges.toList).resolve_left (ne_nil_of_mem hy)
  cases mem_singleton.1 hz
  rw [concat_eq_append] at hb
  have hlast : b.first ≤ x.first := by
    refine first_le_of_before ?_
    simpa [← Array.getLast?_toList, hb, ensure] using hback
  rw [hb] at hy hsorted
  obtain hy | hy := mem_append.1 hy
  · exact ((pairwise_append.1 hsorted).2.2 y hy b (by simp)).trans hlast
  · exact mem_singleton.1 hy ▸ hlast

end Reserved

def Assigned.taken : Assigned → List CpuReg
  | .cpu c => [c]
  | _ => []

end Retarget.IR

namespace Retarget.Backend
open IR List
open IR.Pass (bind_ok)

/-! ## Searching with a state -/

section
variable {σ α : Type} {P : σ → Prop} {f : α → StateM σ Bool} {g : α → Bool} {s : σ}
  (hf : ∀ a s, P s → ∃ t, f a s = (g a, t) ∧ P t) (as : List α) (hs : P s)
include hf hs

lemma anyM_run : ∃ t, as.anyM f s = (as.any g, t) ∧ P t := by
  induction as generalizing s with
  | nil => exact ⟨s, rfl, hs⟩
  | cons a as ih =>
    obtain ⟨t, hrun, ht⟩ := hf a s hs
    cases hg : g a with
    | true => exact ⟨t, by simp [anyM, bind, StateT.bind, hrun, hg]; rfl, ht⟩
    | false =>
      obtain ⟨u, hrest, hu⟩ := ih ht
      exact ⟨u, by simpa [anyM, bind, StateT.bind, hrun, hg] using hrest, hu⟩

lemma findM?_run : ∃ t, as.findM? f s = (as.find? g, t) ∧ P t := by
  induction as generalizing s with
  | nil => exact ⟨s, rfl, hs⟩
  | cons a as ih =>
    obtain ⟨t, hrun, ht⟩ := hf a s hs
    cases hg : g a with
    | true => exact ⟨t, by simp [findM?, bind, StateT.bind, hrun, hg]; rfl, ht⟩
    | false =>
      obtain ⟨u, hrest, hu⟩ := ih ht
      exact ⟨u, by simpa [findM?, bind, StateT.bind, hrun, hg] using hrest, hu⟩

end

/-- What holds of each step and lasts holds of all of them in the end. -/
lemma foldlM_grows {σ α : Type} {f : σ → α → Res σ} {L : σ → σ → Prop} {Q : α → σ → Prop}
  {as : List α} {s t : σ} (hrefl : ∀ s, L s s) (htrans : ∀ s t u, L s t → L t u → L s u)
  (hstep : ∀ s a t, f s a = .ok t → L s t ∧ Q a t) (hlast : ∀ a s t, Q a s → L s t → Q a t)
  (h : as.foldlM f s = .ok t) : L s t ∧ ∀ a ∈ as, Q a t := by
  induction as generalizing s with
  | nil =>
    cases h
    exact ⟨hrefl _, by simp⟩
  | cons a as ih =>
    obtain ⟨u, hu, h⟩ := bind_ok.1 h
    obtain ⟨hle, hQ⟩ := hstep s a u hu
    obtain ⟨hrest, hall⟩ := ih h
    exact ⟨htrans _ _ _ hle hrest, forall_mem_cons.2 ⟨hlast _ _ _ hQ hrest, hall⟩⟩

/-! ## One file -/

namespace FilePool
variable {p q : FilePool} {x : LiveRange} {pos : Int} {R : Nat → Array LiveRange}

lemma lookup_filter_ne {n k : Nat} (h : n ≠ k) (l : List (Nat × Reserved)) :
  (l.filter (·.1 != k)).lookup n = l.lookup n := by
  induction l with
  | nil => rfl
  | cons y l ih =>
    obtain ⟨a, r⟩ := y
    by_cases ha : a = k
    · have hne : (n == a) = false := by simp [ha, h]
      rw [filter_cons_of_neg (by simp [ha]), ih, lookup_cons, hne]
    · simp [ha, lookup_cons, ih]

@[simp] lemma reserved_setReserved (n k : Nat) (r : Reserved) :
  (p.setReserved k r).reserved n = if n = k then r else p.reserved n := by
  by_cases h : n = k
  · simp [reserved, setReserved, h]
  · have hne : (n == k) = false := by simp [h]
    simp [reserved, setReserved, lookup_cons, h, hne, lookup_filter_ne h]

lemma offers_eq (units : List Nat) : offers x units p =
  if units.all (p.free x.lac).contains then (units.anyM (conflicts x) p).map (!·) id
  else (false, p) := by
  change (if units.all (p.free x.lac).contains then _ else _ : StateM FilePool Bool) p = _
  split <;> rfl

/-- Units are reserved for the given ranges, and none that does not end by `pos` is behind. -/
def Ready (R : Nat → Array LiveRange) (pos : Int) (p : FilePool) : Prop :=
  ∀ n, (p.reserved n).ranges = R n ∧ (p.reserved n).PassedUpTo pos

/-- The pool is the same but for how far reservations have been looked at. -/
def Looked (R : Nat → Array LiveRange) (pos : Int) (p q : FilePool) : Prop :=
  q.lac = p.lac ∧ q.notLac = p.notLac ∧ q.Ready R pos

lemma Looked.free (h : Looked R pos p q) (lac : Bool) : q.free lac = p.free lac := by
  cases lac <;> simp [FilePool.free, h.1, h.2.1]

section
variable (hR : ∀ n, (R n).toList.Pairwise (·.first ≤ ·.first))
include hR

lemma conflicts_run (n : Nat) (h : Looked R x.first p q) :
  ∃ t, conflicts x n q = ((R n).toList.any x.overlaps, t) ∧ Looked R x.first p t := by
  obtain ⟨hlac, hnotLac, hready⟩ := h
  have hrun := Reserved.run_conflicts (by rw [(hready n).1]; exact hR n) (hready n).2
  rw [(hready n).1] at hrun
  refine ⟨_, congrArg (Prod.map id (q.setReserved n)) hrun, hlac, hnotLac, fun k => ?_⟩
  rw [reserved_setReserved]
  split
  · next hk =>
    subst hk
    exact ⟨(hready k).1, (hready k).2.advance le_rfl⟩
  · exact hready k

lemma offers_run (units : List Nat) (h : Looked R x.first p q) :
  ∃ t, offers x units q = (units.all (p.free x.lac).contains &&
    !units.any fun n => (R n).toList.any x.overlaps, t) ∧ Looked R x.first p t := by
  rw [offers_eq, h.free]
  split
  · next hfree =>
    obtain ⟨t, hrun, ht⟩ := anyM_run (fun n _ => conflicts_run hR n) units h
    exact ⟨t, by rw [hrun, hfree]; rfl, ht⟩
  · next hfree => exact ⟨q, by simp [hfree], h⟩

end

lemma free_remove (lac l : Bool) (us : List Nat) (n : Nat) :
  n ∈ (p.remove lac us).free l ↔ n ∈ p.free l ∧ (l = lac → n ∉ us) := by
  cases lac <;> cases l <;> simp [remove, setFree, FilePool.free]

lemma free_add (lac l : Bool) (us : List Nat) (n : Nat) :
  n ∈ (p.add lac us).free l ↔ n ∈ p.free l ∨ l = lac ∧ n ∈ us := by
  cases lac <;> cases l <;> simp [add, setFree, FilePool.free] <;> grind

lemma Ready.mono {pos' : Int} (h : p.Ready R pos) (hpos : pos ≤ pos') : p.Ready R pos' :=
  fun n => ⟨(h n).1, fun y hy => ((h n).2 y hy).imp_right fun hlast => hlast.trans hpos⟩

lemma Ready.setFree (h : p.Ready R pos) (lac : Bool) (us : List Nat) :
  (p.setFree lac us).Ready R pos := by
  cases lac <;> exact h

/-- What reserving ranges leads to: more is reserved, in order, and as much is free. -/
structure Grows (p q : FilePool) : Prop where
  free : ∀ lac, q.free lac = p.free lac
  sub : ∀ n, (p.reserved n).ranges.toList ⊆ (q.reserved n).ranges.toList
  sorted : ∀ n, (p.reserved n).Unused → (q.reserved n).Unused

lemma Grows.refl (p : FilePool) : Grows p p := ⟨fun _ => rfl, fun _ _ h => h, fun _ h => h⟩

lemma Grows.trans {r : FilePool} (h : Grows p q) (h' : Grows q r) : Grows p r where
  free lac := (h'.free lac).trans (h.free lac)
  sub n _ hy := h'.sub n (h.sub n hy)
  sorted n hn := h'.sorted n (h.sorted n hn)

lemma reserve_grows {n : Nat} (h : reserve x p n = .ok q) :
  Grows p q ∧ x ∈ (q.reserved n).ranges.toList := by
  obtain ⟨r, hr, ⟨⟩⟩ := bind_ok.1 ((map_eq_pure_bind ..).symm.trans h)
  obtain ⟨rfl, hunused⟩ := Reserved.unused_reserve hr
  refine ⟨⟨fun lac => rfl, fun k y hy => ?_, fun k hk => ?_⟩, by simp⟩
  · rw [reserved_setReserved]
    split <;> simp_all
  · rw [reserved_setReserved]
    split
    · next hk' => exact hunused (hk' ▸ hk)
    · exact hk

end FilePool

/-! ## Legal calls -/

def Registers.file (m : Registers) (gpr : Bool) : RegFile := if gpr then m.gpr else m.flt

/-- The registers have units in common. -/
def Registers.overlap (m : Registers) (c d : CpuReg) : Prop :=
  m.isGpr c = m.isGpr d ∧ ∃ n ∈ m.units c, n ∈ m.units d

/-- Candidates are registers of the right file that can be given back. There are none for short
floating point numbers. -/
def Registers.Lawful (m : Registers) : Prop := ∀ k ∉ [Kind.f8, .f16], ∀ c ∈ m.candidates k,
  m.isGpr c = !k.isFloat ∧ m.units c ≠ [] ∧ m.isReserved c = false

namespace BlkPool

/-- The pools that a linear scan comes to, with the position that it has reached and the registers
that it holds: after `xs` have been reserved, registers are taken for ranges in order of their starts,
and those that are held may be given back. -/
inductive Served (m : Registers) (xs : List LiveRange) : BlkPool → Int → List CpuReg → Prop
  | start {p pos} (h : xs.foldlM (reserve m) (full m) = .ok p) : Served m xs p pos []
  | take {p q pos held spilling x a} (hp : Served m xs p pos held) (hpos : pos ≤ x.first)
      (hk : x.kind ∉ [.f8, .f16]) (h : take m spilling x p = .ok (a, q)) :
      Served m xs q x.first (a.taken ++ held)
  | give {p q pos held c} (hp : Served m xs p pos held) (hc : c ∈ held)
      (h : give m (.cpu c) p = .ok q) : Served m xs q pos (held.erase c)

/-- Free is what may be used and is not held, and registers that are held have no units in common. -/
structure Consistent (m : Registers) (R : Bool → Nat → Array LiveRange) (p : BlkPool) (pos : Int)
    (held : List CpuReg) : Prop where
  free : ∀ g lac n, n ∈ (p.file g).free lac ↔ n ∈ (m.file g).usable ∧
    (m.file g).survives n = lac ∧ ∀ c ∈ held, m.isGpr c = g → n ∉ m.units c
  apart : held.Pairwise (¬m.overlap · ·)
  proper : ∀ c ∈ held, m.isReserved c = false ∧ ∀ n ∈ m.units c, n ∈ (m.file (m.isGpr c)).usable ∧
    (m.file (m.isGpr c)).survives n = (m.units c).any (m.file (m.isGpr c)).survives
  ready : ∀ g, (p.file g).Ready (R g) pos

variable {m : Registers} {p q : BlkPool} {x y : LiveRange} {xs : List LiveRange} {c d : CpuReg}
  {held : List CpuReg} {pos : Int} {R : Bool → Nat → Array LiveRange} {a : Assigned}
  {spilling : Bool}

lemma file_setFile (g k : Bool) (r : FilePool) :
  (p.setFile k r).file g = if g = k then r else p.file g := by
  cases g <;> cases k <;> rfl

lemma setFile_setFile (g : Bool) (r s : FilePool) :
  (p.setFile g r).setFile g s = p.setFile g s := by
  cases g <;> rfl

lemma ready_setFile {g : Bool} {r : FilePool} (hr : r.Ready (R g) pos)
  (h : ∀ g, (p.file g).Ready (R g) pos) (k : Bool) :
  ((p.setFile g r).file k).Ready (R k) pos := by
  rw [file_setFile]
  split
  · next hk => exact hk ▸ hr
  · exact h k

lemma reserve_grows (h : reserve m p x = .ok q) : (∀ g, (p.file g).Grows (q.file g)) ∧
  ∀ c, x.reg.bind RangeReg.cpu = some c → m.isReserved c = false → ∀ n ∈ m.units c,
    x ∈ ((q.file (m.isGpr c)).reserved n).ranges.toList := by
  obtain ⟨c, hc, h⟩ := bind_ok.1 h
  have hreg : x.reg.bind RangeReg.cpu = some c := by
    cases hx : x.reg.bind RangeReg.cpu <;> simp_all [need, orFault]
  cases hres : m.isReserved c with
  | true =>
    simp only [hres] at h
    cases h
    refine ⟨fun g => .refl _, fun d hd hfree => ?_⟩
    cases hreg.symm.trans hd
    simp [hres] at hfree
  | false =>
    simp only [hres] at h
    obtain ⟨r, hr, ⟨⟩⟩ := bind_ok.1 h
    obtain ⟨hgrows, hmem⟩ := foldlM_grows (Q := fun n r => x ∈ (r.reserved n).ranges.toList)
      FilePool.Grows.refl (fun _ _ _ => FilePool.Grows.trans)
      (fun _ _ _ => FilePool.reserve_grows) (fun n _ _ hn h => h.sub n hn) hr
    refine ⟨fun g => ?_, fun d hd _ n hn => ?_⟩
    · rw [file_setFile]
      split
      · next hg => exact hg ▸ hgrows
      · exact .refl _
    · cases hreg.symm.trans hd
      rw [file_setFile, if_pos rfl]
      exact hmem n hn

/-- The ranges that the units of a file are reserved for. -/
def reserved (p : BlkPool) (g : Bool) (n : Nat) : Array LiveRange :=
  ((p.file g).reserved n).ranges

lemma consistent_start (h : xs.foldlM (reserve m) (full m) = .ok p) :
  Consistent m p.reserved p pos [] ∧
  (∀ g n, (p.reserved g n).toList.Pairwise (·.first ≤ ·.first)) ∧
  ∀ y ∈ xs, ∀ c, y.reg.bind RangeReg.cpu = some c → m.isReserved c = false → ∀ n ∈ m.units c,
    y ∈ (p.reserved (m.isGpr c) n).toList := by
  obtain ⟨hgrows, hmem⟩ := foldlM_grows (L := fun p q => ∀ g, (p.file g).Grows (q.file g)) (fun p g
    => .refl (p.file g)) (fun _ _ _ h h' g => (h g).trans (h' g)) (fun _ _ _ => reserve_grows) (fun
    _ _ _ hy h c hc hfree n hn => (h _).sub n (hy c hc hfree n hn)) h
  have hunused (g n) : ((p.file g).reserved n).Unused :=
    (hgrows g).sorted n (by cases g <;> exact ⟨rfl, .nil⟩)
  refine ⟨⟨fun g lac n => ?_, .nil, by simp, fun g n => ⟨rfl, fun y hy => .inl ?_⟩⟩,
    fun g n => (hunused g n).2, hmem⟩
  · rw [(hgrows g).free]
    cases g <;> cases lac <;>
      simp [full, file, Registers.file, FilePool.free, RegFile.lac, RegFile.notLac]
  · rwa [Reserved.ahead, (hunused g n).1, drop_zero]

section
variable (hR : ∀ g n, (R g n).toList.Pairwise (·.first ≤ ·.first)) (hp : Consistent m R p pos held)
include hp

lemma Consistent.setFile {g : Bool} {r : FilePool} (hpos : pos ≤ x.first)
  (hr : FilePool.Looked (R g) x.first (p.file g) r) :
  Consistent m R (p.setFile g r) x.first held where
  free k lac n := by
    rw [file_setFile, ← hp.free]
    split
    · next hk => rw [hr.free, hk]
    · rfl
  apart := hp.apart
  proper := hp.proper
  ready := ready_setFile hr.2.2 fun k => (hp.ready k).mono hpos

/-- A register all of whose units are free can be held. -/
lemma Consistent.hold (lac : Bool) (hfree : ∀ n ∈ m.units c, n ∈ (p.file (m.isGpr c)).free lac)
  (hne : m.units c ≠ []) (hres : m.isReserved c = false) : (∀ d ∈ held, ¬m.overlap c d) ∧
    Consistent m R (p.setFile (m.isGpr c) ((p.file (m.isGpr c)).remove lac (m.units c))) pos
      (c :: held) := by
  have hapart : ∀ d ∈ held, ¬m.overlap c d := by
    rintro d hd ⟨hg, n, hc, hn⟩
    exact ((hp.free _ _ n).1 (hfree n hc)).2.2 d hd hg.symm hn
  have hsurvives : ∀ n ∈ m.units c, (m.file (m.isGpr c)).survives n = lac :=
    fun n hn => ((hp.free _ _ n).1 (hfree n hn)).2.1
  refine ⟨hapart, fun g l n => ?_, hp.apart.cons hapart, ?_,
    ready_setFile ((hp.ready _).setFree _ _) hp.ready⟩
  · rw [file_setFile, forall_mem_cons]
    split
    · next hg =>
      subst hg
      rw [FilePool.free_remove, hp.free]
      grind
    · rw [hp.free]
      grind
  · refine forall_mem_cons.2 ⟨⟨hres, fun n hn => ⟨((hp.free _ _ n).1 (hfree n hn)).1, ?_⟩⟩, hp.proper⟩
    obtain ⟨k, hk⟩ := exists_mem_of_ne_nil _ hne
    rw [hsurvives n hn, Bool.eq_iff_iff, any_eq_true]
    exact ⟨fun h => ⟨k, hk, (hsurvives k hk).trans h⟩, fun ⟨i, hi, h⟩ => (hsurvives i hi).symm.trans h⟩

/-- What is given back was not free, and nothing else becomes free. -/
lemma Consistent.give (hc : c ∈ held) : ∃ q, give m (.cpu c) p = .ok q ∧
  Consistent m R q pos (held.erase c) ∧ ∀ g lac n, n ∈ (q.file g).free lac ↔
    n ∈ (p.file g).free lac ∨ g = m.isGpr c ∧ (m.file g).survives n = lac ∧ n ∈ m.units c := by
  obtain ⟨hres, hproper⟩ := hp.proper c hc
  have hfree (g lac n) : n ∈ ((p.setFile (m.isGpr c) ((p.file (m.isGpr c)).add
      ((m.units c).any (m.file (m.isGpr c)).survives) (m.units c))).file g).free lac ↔
      n ∈ (p.file g).free lac ∨ g = m.isGpr c ∧ (m.file g).survives n = lac ∧ n ∈ m.units c := by
    rw [file_setFile]
    split
    · next hg =>
      subst hg
      rw [FilePool.free_add]
      grind
    · simp [*]
  have hapart : ∀ d ∈ held.erase c, ¬m.overlap c d := by
    have hsymm {d e : CpuReg} (h : ¬m.overlap d e) : ¬m.overlap e d :=
      fun ⟨hg, n, hn, hn'⟩ => h ⟨hg.symm, n, hn', hn⟩
    exact (pairwise_cons.1 (((perm_cons_erase hc).pairwise_iff hsymm).1 hp.apart)).1
  refine ⟨_, by rw [BlkPool.give, hres]; rfl, ⟨fun g lac n => ?_, hp.apart.sublist erase_sublist,
    fun d hd => hp.proper d (mem_of_mem_erase hd),
    ready_setFile ((hp.ready _).setFree _ _) hp.ready⟩, hfree⟩
  refine (hfree g lac n).trans ?_
  rw [hp.free]
  constructor
  · rintro (⟨husable, hlac, hheld⟩ | ⟨rfl, hlac, hn⟩)
    · exact ⟨husable, hlac, fun d hd => hheld d (mem_of_mem_erase hd)⟩
    · exact ⟨(hproper n hn).1, hlac, fun d hd hg hn' => hapart d hd ⟨hg.symm, n, hn, hn'⟩⟩
  · rintro ⟨husable, hlac, hheld⟩
    by_cases hn : g = m.isGpr c ∧ n ∈ m.units c
    · exact .inr ⟨hn.1, hlac, hn.2⟩
    · refine .inl ⟨husable, hlac, fun d hd hg hn' => ?_⟩
      by_cases hdc : d = c
      · exact hn ⟨hdc ▸ hg.symm, hdc ▸ hn'⟩
      · exact hheld d ((mem_erase_of_ne hdc).2 hd) hg hn'

include hR

lemma take_cases (hpos : pos ≤ x.first) (h : take m spilling x p = .ok (a, q)) :
  let g := !x.kind.isFloat
  ∃ r, FilePool.Looked (R g) x.first (p.file g) r ∧ (a = .spilled ∧ q = p.setFile g r ∨
    ∃ c ∈ m.candidates x.kind, a = .cpu c ∧ q = p.setFile g (r.remove x.lac (m.units c)) ∧
      ∀ n ∈ m.units c, n ∈ (p.file g).free x.lac ∧
        ∀ y ∈ (R g n).toList, x.overlaps y = false) := by
  obtain ⟨r, hrun, hr⟩ := findM?_run (fun c _ => FilePool.offers_run (hR _) (m.units c))
    (m.candidates x.kind) ⟨rfl, rfl, (hp.ready _).mono hpos⟩
  refine ⟨r, hr, ?_⟩
  rw [take, hrun] at h
  split at h
  · next c q' hpair =>
    obtain ⟨hfound, rfl⟩ := Prod.mk.inj hpair
    cases hk : m.holds x.kind <;> simp only [hk] at h <;> cases h
    refine .inr ⟨c, mem_of_find?_eq_some hfound, rfl, rfl, fun n hn => ?_⟩
    have hoffers := find?_some hfound
    simp only [Bool.and_eq_true, all_eq_true, Bool.not_eq_true', any_eq_false] at hoffers
    refine ⟨by simpa using hoffers.1 n hn, fun y hy => ?_⟩
    exact Bool.not_eq_true _ ▸ fun hover => hoffers.2 n hn (any_eq_true.2 ⟨y, hy, hover⟩)
  · next q' hpair =>
    obtain ⟨-, rfl⟩ := Prod.mk.inj hpair
    obtain ⟨_, -, ⟨⟩⟩ := bind_ok.1 h
    exact .inl ⟨rfl, rfl⟩

lemma Consistent.take (hm : m.Lawful) (hpos : pos ≤ x.first) (hk : x.kind ∉ [.f8, .f16])
  (h : take m spilling x p = .ok (a, q)) : Consistent m R q x.first (a.taken ++ held) ∧
    ∀ c ∈ a.taken, (∀ d ∈ held, ¬m.overlap c d) ∧
      ∀ n ∈ m.units c, ∀ y ∈ (R (m.isGpr c) n).toList, x.overlaps y = false := by
  obtain ⟨r, hr, ⟨rfl, rfl⟩ | ⟨c, hmem, rfl, rfl, hunits⟩⟩ := take_cases hR hp hpos h
  · exact ⟨hp.setFile hpos hr, by simp [Assigned.taken]⟩
  · obtain ⟨hg, hne, hres⟩ := hm _ hk c hmem
    rw [← hg] at hr hunits ⊢
    obtain ⟨hapart, hheld⟩ := (hp.setFile hpos hr).hold (c := c) x.lac
      (fun n hn => by simpa [file_setFile, hr.free] using (hunits n hn).1) hne hres
    rw [file_setFile, if_pos rfl, setFile_setFile] at hheld
    exact ⟨hheld, forall_mem_singleton.2 ⟨hapart, fun n hn => (hunits n hn).2⟩⟩

end

/-- Along every legal sequence of calls the pool stays consistent. -/
lemma Served.consistent (hm : m.Lawful) (h : Served m xs p pos held) : ∃ R, Consistent m R p pos held ∧
  (∀ g n, (R g n).toList.Pairwise (·.first ≤ ·.first)) ∧
  ∀ y ∈ xs, ∀ c, y.reg.bind RangeReg.cpu = some c → m.isReserved c = false → ∀ n ∈ m.units c,
    y ∈ (R (m.isGpr c) n).toList := by
  induction h with
  | start h => exact ⟨_, consistent_start h⟩
  | take _ hpos hk h ih =>
    obtain ⟨R, hp, hR, hxs⟩ := ih
    exact ⟨R, (hp.take hR hm hpos hk h).1, hR, hxs⟩
  | give _ hc h ih =>
    obtain ⟨R, hp, hrest⟩ := ih
    obtain ⟨q, hq, hgiven, -⟩ := hp.give hc
    cases hq.symm.trans h
    exact ⟨R, hgiven, hrest⟩

end BlkPool
end Retarget.Backend

namespace Retarget.A32
open Backend Backend.BlkPool IR

end Retarget.A32
