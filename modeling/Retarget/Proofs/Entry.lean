import Retarget.IR.Optimize
import Mathlib.Data.List.Flatten
import Mathlib.Data.List.Nodup
import Mathlib.Data.List.Pairwise
import Retarget.Proofs.Redirect
import Mathlib.Data.List.Induction

/-!
# Where a function starts

`initFlow` splits blocks, replaces unconditional branches by edges and removes empty blocks. The
graph reading of the result, entered at the first block that has something to do, is the linear
reading of the function as it was. That need not be the first block of the result.
-/

namespace Retarget.IR
open Pass Trace List Fn
variable {a b : BlkId} {f g : Fn} {live : List BlkId}

/-! ## One empty block -/

/-- The block `b` has been taken out: what went to it goes to `s`. -/
structure Bypassed (f g : Fn) (b s : BlkId) : Prop where
  redirected : Redirected b s f g
  paired : Paired g
  self : (g.blk b).succs = []
  succs : ∀ a, a ≠ b → (g.blk a).succs = (f.blk a).succs.map (redir b s)
  aimed : ∀ a i, b ∈ (f.blk a).succs → (f.blk a).code.getLast? = some i → Aimed b s f g i
  name : ∀ a, (g.blk a).name = (f.blk a).name
  named : ∀ a, (g.blk a).named = ((f.blk a).named && a != b)

lemma Linked.succs_of_nil (h : Linked f live) (hb : b ∈ live) (hcode : (f.blk b).code = []) :
  ∃ s, (f.blk b).succs = [s] := by
  obtain ⟨ns, hns, hlen⟩ := h.succs b hb
  rw [hcode] at hns hlen
  obtain ⟨s, rfl⟩ := length_eq_one_iff.1 hlen
  exact ⟨s, hns⟩

lemma Paired.mem_preds_iff (h : Paired f) : a ∈ (f.blk b).preds ↔ b ∈ (f.blk a).succs := by
  rw [← count_pos_iff, ← count_pos_iff, h a b]

lemma lt_of_mem_succs {a s : Nat} (h : s ∈ (f.blk a).succs) : a < f.blks.size := by
  by_contra hlt
  rw [blk_eq_default (not_lt.1 hlt)] at h
  cases h

lemma nodup_eraseDups (bs : List BlkId) : bs.eraseDups.Nodup := by
  induction bs using reverseRecOn with
  | nil => simp
  | append_singleton bs b ih =>
    by_cases b ∈ bs <;> simp_all [eraseDups_append, removeAll, nodup_append]
    grind

lemma bypassed_of_forward {k : Fn} {b s : Nat} (hf : Linked f live) (hb : b ∈ live)
  (hs : (f.blk b).succs = [s]) (hne : s ≠ b)
  (hremove : (f.modBlk b fun x => { x with named := false }).removeEdge b s = .ok k)
    (hforward : (k.blk b).preds.eraseDups.foldlM (forward b s) k = .ok g) : Bypassed f g b s := by
  generalize hφ : (fun x : Blk => { x with named := false }) = φ at hremove
  have hcode : SameCode f (f.modBlk b φ) :=
    ⟨by simp, rfl, rfl, rfl, blk_mod_field Blk.code (fun _ => hφ ▸ rfl) b⟩
  have hsuc : ∀ c, ((f.modBlk b φ).blk c).succs = (f.blk c).succs :=
    blk_mod_field Blk.succs (fun _ => hφ ▸ rfl) b
  have hpreds : ∀ c, ((f.modBlk b φ).blk c).preds = (f.blk c).preds :=
    blk_mod_field Blk.preds (fun _ => hφ ▸ rfl) b
  have hpr : Paired (f.modBlk b φ) := fun c d => by
    rw [hsuc, hpreds]
    exact hf.paired c d
  have hblt := hf.lt b hb
  have hslt := hf.lt s (hf.inside b hb s (by rw [hs]; exact .head _))
  have hname : ∀ c, ((f.modBlk b φ).blk c).name = (f.blk c).name :=
    blk_mod_field Blk.name (fun _ => hφ ▸ rfl) b
  have hnmd : ∀ c, ((f.modBlk b φ).blk c).named = ((f.blk c).named && c != b) := by
    intro c
    by_cases hc : c = b
    · rw [hc, blk_mod_self _ hblt, ← hφ]
      simp
    · simp [hc]
  obtain ⟨heds, hpr', hself, hoths, hkeep⟩ :=
    removeEdge_spec (hcode.size ▸ hblt) (hcode.size ▸ hslt) hpr hremove
  have hsame := hcode.trans heds.sameCode
  -- The predecessors of the block are the blocks that go to it, and it is none of them.
  have hmem : ∀ a, a ∈ (k.blk b).preds.eraseDups ↔ b ∈ (f.blk a).succs := fun a => by
    rw [mem_eraseDups, hkeep b (Ne.symm hne), hpreds, hf.paired.mem_preds_iff]
  have hnot : b ∉ (k.blk b).preds.eraseDups := by
    rw [hmem, hs, mem_singleton]
    exact Ne.symm hne
  have hlive : ∀ a ∈ (k.blk b).preds.eraseDups, a ∈ live := by
    intro a ha
    by_contra hout
    have := (hmem a).1 ha
    rw [hf.outside a hout] at this
    cases this
  have htbs : HasTables k (k.blk b).preds.eraseDups :=
    (hsame.redirected b s).hasTables fun a ha => hf.tables a (hlive a ha)
  have hfor := foldlM_forward hne (fun a ha => hsame.size ▸ hf.lt a (hlive a ha))
    (hsame.size ▸ hblt) (hsame.size ▸ hslt) (nodup_eraseDups _) hpr' htbs hforward
  refine ⟨(hsame.redirected b s).trans hne hfor.redirected, hfor.paired, ?_, fun a ha => ?_,
    fun a i ha hi => ?_, fun a => by rw [hfor.name, heds.name_eq, hname],
    fun a => by rw [hfor.named, heds.named_eq, hnmd]⟩
  · rw [hfor.others b hnot, hself, hsuc, hs]
    simp
  · by_cases hgoes : b ∈ (f.blk a).succs
    · rw [hfor.succs a ((hmem a).2 hgoes), hoths a ha, hsuc]
    · rw [hfor.others a (fun h => hgoes ((hmem a).1 h)), hoths a ha, hsuc, map_redir_of_notMem hgoes]
  · exact .of_trans hne (hsame.redirected b s)
      (hfor.aimed a ((hmem a).2 ha) i (by rw [hsame.blk]; exact hi))

lemma bypassBlk_cases {b : Nat}
  {stays : Bool} (hf : Linked f live) (hb : b ∈ live) (h : (bypassBlk b).run f = .ok (stays, g)) :
  (stays = true ∧ g = f ∧ ((f.blk b).code = [] → (f.blk b).succs = [b])) ∨ (stays =
  false ∧ (f.blk b).code = [] ∧ ∃ s, (f.blk b).succs = [s] ∧ s ≠ b ∧ Bypassed f g b s) := by
  simp only [bypassBlk, run_bind_ok] at h
  obtain ⟨_, _, ⟨rfl, rfl⟩, h⟩ := h
  by_cases hcode : (f.blk b).code = []
  · obtain ⟨s, hs⟩ := hf.succs_of_nil hb hcode
    simp only [hcode, hs, isEmpty_nil, Bool.not_true, Bool.false_eq_true, if_false] at h
    by_cases hsb : s = b
    · rw [if_pos hsb, run_pure_ok] at h
      exact .inl ⟨h.1.symm, h.2.symm, fun _ => hsb ▸ hs⟩
    · rw [if_neg hsb] at h
      split at h
      · rw [run_bind_ok] at h
        obtain ⟨_, _, hthrow, -⟩ := h
        exact absurd hthrow run_throw_ok
      · simp only [run_bind_ok, run_attempt_ok, run_set_ok] at h
        obtain ⟨-, _, ⟨-, rfl⟩, k, _, ⟨hremove, rfl⟩, _, _, ⟨hforward, rfl⟩, -, _, rfl, rfl,
          rfl⟩ := h
        exact .inr ⟨rfl, hcode, s, hs, hsb, bypassed_of_forward hf hb hs hsb hremove hforward⟩
  · have hnonempty : (f.blk b).code.isEmpty = false := by simpa using hcode
    rw [hnonempty] at h
    simp only [Bool.not_false, if_true, run_pure_ok] at h
    exact .inl ⟨h.1.symm, h.2.symm, fun hnil => absurd hnil hcode⟩

namespace Bypassed
variable {s : BlkId}

section
variable (h : Bypassed f g b s) (hf : Linked f live)
include h hf

/-- Whether or not a block went to the one that is gone, its jumps are now those that they should
be: either they have been redirected, or there was nothing to redirect. -/
lemma last_aimed (ha : a ∈ live) {i : InsId} (hi : (f.blk a).code.getLast? = some i) :
  (g.ins i).ctrl = (f.ins i).ctrl.redir b s ∧ ∀ x t, (f.ins i).ctrl = .select x t →
      (g.table t).tgts = (f.table t).tgts.map (redir b s) ∧
        ∀ n, (g.table t).tgt n = redir b s ((f.table t).tgt n) := by
  by_cases hgoes : b ∈ (f.blk a).succs
  · obtain ⟨hcon, htbl⟩ := h.aimed a i hgoes hi
    refine ⟨hcon, fun x t ht => ?_⟩
    rw [htbl x t ht]
    exact ⟨JumpTable.tgts_redir _, JumpTable.tgt_redir _⟩
  · -- No target of the block is `b`.
    obtain ⟨ns, hns, -⟩ := hf.succs a ha
    rw [jumpTgts_eq, hi, Option.map_some] at hns
    have hsame : (f.ins i).ctrl.redir b s = (f.ins i).ctrl := by
      have hne : ∀ t, t ∈ (f.blk a).succs → redir b s t = t := fun t ht =>
        redir_of_ne fun htb => hgoes (htb ▸ ht)
      cases hcon : (f.ins i).ctrl with
      | jump t | branch op x y t =>
        rw [Ctrl.redir, hne t (by rw [hns, hcon]; exact .head _)]
      | next | stop | select => rfl
    constructor
    · rcases h.redirected.ctrl i with hc | hc
      · rw [hc, hsame]
      · exact hc
    · intro x t ht
      rw [ht] at hns
      have hnot : b ∉ (f.table t).tgts := fun hmem =>
        hgoes (by rw [hns]; exact mem_append_left _ hmem)
      rw [map_redir_of_notMem hnot]
      have hkeep : ∀ n, redir b s ((f.table t).tgt n) = (f.table t).tgt n := fun n =>
        redir_of_ne fun htb => hnot (htb ▸ (f.table t).tgt_mem n)
      rcases h.redirected.table t with htbl | htbl
      · rw [htbl]
        exact ⟨rfl, fun n => (hkeep n).symm⟩
      · rw [htbl]
        obtain ⟨htargets, htgt⟩ := @JumpTable.redir_of_notMem b s _ hnot
        exact ⟨htargets, fun n => (htgt n).trans (hkeep n).symm⟩

lemma jumpTgts_eq (ha : a ∈ live) : jumpTgts g (f.blk a).code =
  ((jumpTgts f (f.blk a).code).1.map (redir b s), (jumpTgts f (f.blk a).code).2) := by
  rw [IR.jumpTgts_eq, IR.jumpTgts_eq]
  cases hlast : (f.blk a).code.getLast? with
  | none => rfl
  | some i =>
    obtain ⟨hcon, htbl⟩ := h.last_aimed hf ha hlast
    rw [Option.map_some, Option.map_some, hcon]
    cases hc : (f.ins i).ctrl with
    | next | stop | jump | branch => rfl
    | select x t => simp only [Ctrl.redir, (htbl x t hc).1]

lemma linked (hs : s ∈ live) (hne : s ≠ b) : Linked g (live.filter (· != b)) := by
  have hmem : ∀ {a}, a ∈ live.filter (· != b) ↔ a ∈ live ∧ a ≠ b := by simp
  have hcode := h.redirected.code
  refine ⟨fun a ha => ?_, fun a ha i hi => ?_, fun a ha => ?_, fun a ha c hc => ?_, fun a ha => ?_,
    h.paired, ?_⟩
  · exact h.redirected.blks ▸ hf.lt a (hmem.1 ha).1
  · rw [hcode] at hi
    rw [h.redirected.op]
    exact hf.ends a (hmem.1 ha).1 i hi
  · obtain ⟨hlive, hab⟩ := hmem.1 ha
    obtain ⟨ns, hns, hlen⟩ := hf.succs a hlive
    rw [hcode, h.jumpTgts_eq hf hlive, h.succs a hab, hns, map_append]
    exact ⟨_, rfl, by rw [length_map, hlen]⟩
  · obtain ⟨hlive, hab⟩ := hmem.1 ha
    rw [h.succs a hab, mem_map] at hc
    obtain ⟨d, hd, rfl⟩ := hc
    by_cases hdb : d = b
    · rw [hdb, redir_old]
      exact hmem.2 ⟨hs, hne⟩
    · rw [redir_of_ne hdb]
      exact hmem.2 ⟨hf.inside a hlive d hd, hdb⟩
  · by_cases hab : a = b
    · rw [hab]
      exact h.self
    · have hout : a ∉ live := fun hlive => ha (hmem.2 ⟨hlive, hab⟩)
      rw [h.succs a hab, hf.outside a hout]
      rfl
  · exact h.redirected.hasTables fun a ha => hf.tables a (hmem.1 ha).1

end

/-! ## The graph reading without the block -/

/-- Where the reading without the block is: at the same spot, or at the start of the block that
follows the missing one. -/
inductive Skips (f g : Fn) (live : List BlkId) (b s : BlkId) : Fn.Spot → Fn.Spot → Prop
  | same {a : BlkId} {c : List InsId} (ha : a ∈ live) (hab : a ≠ b)
      (hc : c <:+ (f.blk a).code) : Skips f g live b s ⟨a, c⟩ ⟨a, c⟩
  | gone : Skips f g live b s ⟨b, []⟩ (g.enter s)

lemma skips_enter (h : Bypassed f g b s) (hcode : (f.blk b).code = []) (ha : a ∈ live) :
  Skips f g live b s (f.enter a) (g.enter (redir b s a)) := by
  by_cases hab : a = b
  · rw [hab, redir_old, enter, hcode]
    exact .gone
  · rw [redir_of_ne hab, enter, enter, h.redirected.code]
    exact .same ha hab (suffix_refl _)

lemma rel_along (h : Bypassed f g b s) (hf : Linked f live) (hcode : (f.blk b).code = [])
  {t : BlkId} (ha : a ∈ live) (hab : a ≠ b) (ht : t ∈ (f.blk a).succs) :
  Option.Rel (Skips f g live b s) (f.along a t) (g.along a (redir b s t)) := by
  have ht' : redir b s t ∈ (g.blk a).succs := by
    rw [h.succs a hab]
    exact mem_map_of_mem ht
  rw [along, along, if_pos ht, if_pos ht']
  exact .some (h.skips_enter hcode (hf.inside a ha t ht))

section
variable (h : Bypassed f g b s) (hf : Linked f live) (hno : NoJumps f live)
  (hcode : (f.blk b).code = [])
include h hf hno hcode

lemma agree_same {c : List InsId} (ha : a ∈ live) (hab : a ≠ b) (hc : c <:+ (f.blk a).code) :
  (f.graphStep ⟨a, c⟩).Agree (Skips f g live b s) (g.graphStep ⟨a, c⟩) := by
  cases c with
  | nil =>
    simp only [graphStep, h.succs a hab]
    refine .silent ?_
    cases hsuc : (f.blk a).succs with
    | nil => exact .none
    | cons t ts =>
      exact .some (h.skips_enter hcode (hf.inside a ha t (by rw [hsuc]; exact .head _)))
  | cons i is =>
    have hsuffix : is <:+ (f.blk a).code := (suffix_cons i is).trans hc
    rcases last_or_next (hf.ends a ha) hc with ⟨rfl, hlast⟩ | ⟨-, hnext⟩
    · obtain ⟨hcon, htbl⟩ := h.last_aimed hf ha hlast
      obtain ⟨ns, hns, hlen⟩ := hf.succs a ha
      rw [IR.jumpTgts_eq, hlast, Option.map_some] at hns hlen
      simp only [graphStep, hcon, h.redirected.event]
      cases hctl : (f.ins i).ctrl with
      | next => exact .emit fun _ => .some (.same ha hab hsuffix)
      | stop => exact .emit fun _ => .none
      | jump t => exact absurd (Ins.fam_of_jump hctl).1 (hno a ha i (hc.mem (.head _)))
      | branch op x y t =>
        rw [hctl] at hns hlen
        obtain ⟨n, rfl⟩ := length_eq_one_iff.1 hlen
        have hoth : f.otherSucc a t = n := by
          rw [otherSucc, hns]
          by_cases htn : t = n <;> simp
        have hoth' : g.otherSucc a (redir b s t) = redir b s n := by
          rw [otherSucc, h.succs a hab, hns]
          by_cases htn : redir b s t = redir b s n <;> simp
        refine .emit fun o => ?_
        simp only [hoth, hoth']
        by_cases ho : o.holds op x y
        · rw [if_pos ho, if_pos ho]
          exact h.rel_along hf hcode ha hab (by simp [hns])
        · rw [if_neg ho, if_neg ho]
          exact h.rel_along hf hcode ha hab (by simp [hns])
      | select x t =>
        rw [hctl] at hns
        refine .emit fun o => ?_
        rw [(htbl x t hctl).2]
        refine h.rel_along hf hcode ha hab ?_
        rw [hns]
        exact mem_append_left _ (JumpTable.tgt_mem _ _)
    · have hnext' : (g.ins i).ctrl = .next := by
        rcases h.redirected.ctrl i with hctl | hctl
        · rw [hctl, hnext]
        · rw [hctl, hnext]
          rfl
      simp only [graphStep, hnext, hnext', h.redirected.event]
      exact .emit fun _ => .some (.same ha hab hsuffix)

/-- Taking out an empty block does not show in the graph reading. -/
lemma sameTraces (hsuc : (f.blk b).succs = [s]) (hs : s ∈ live) (hne : s ≠ b) (ha : a ∈ live) :
  SameTraces f.graphStep (some (f.enter a)) g.graphStep (some (g.enter (redir b s a))) := by
  have hgo : f.graphStep ⟨b, []⟩ = .silent (some (f.enter s)) := by
    simp only [graphStep, hsuc, head?_cons, Option.map_some]
  have henter : g.enter s = f.enter s := by rw [enter, enter, h.redirected.code]
  constructor
  · refine (Simulation.of_answered fun x y hxy => ?_).refines (h.skips_enter hcode ha)
    cases hxy with
    | same ha hab hc => exact .of_agree (h.agree_same hf hno hcode ha hab hc)
    | gone =>
      refine .of_silent hgo ?_
      rw [henter]
      exact .same hs hne (suffix_refl _)
  · refine (Simulation.of_answered (R := fun y x => Skips f g live b s x y)
      fun y x hxy => ?_).refines (h.skips_enter hcode ha)
    cases hxy with
    | same ha hab hc => exact .of_agree (h.agree_same hf hno hcode ha hab hc).flip
    | gone =>
      rw [henter]
      exact .of_quiet (.single hgo)
        (.of_agree (h.agree_same hf hno hcode hs hne (suffix_refl _)).flip)

end
end Bypassed

/-! ## All empty blocks -/

/-- Some blocks have been taken out, and `live'` are left. Whoever goes to a block `b` now ends up
at `dest b`, and sees nothing of the change. -/
structure Collapsed (f g : Fn) (live live' : List BlkId) (dest : BlkId → BlkId) : Prop where
  linked : Linked g live'
  noJumps : NoJumps g live'
  code : ∀ b, (g.blk b).code = (f.blk b).code
  op : ∀ i, (g.ins i).op = (f.ins i).op
  next : ∀ i, (g.ins i).ctrl = .next → (f.ins i).ctrl = .next
  size : g.blks.size = f.blks.size
  sites : g.code.size = f.code.size
  name : ∀ b, (g.blk b).name = (f.blk b).name
  unnamed : ∀ b, (g.blk b).named → (f.blk b).named
  named : ∀ b ∈ live', (g.blk b).named = (f.blk b).named
  mem : ∀ b ∈ live, dest b ∈ live'
  self : ∀ b ∈ live', dest b = b
  loop : ∀ b, (f.blk b).succs = [b] → (g.blk b).succs = [b]
  traces : ∀ b ∈ live,
    SameTraces f.graphStep (some (f.enter b)) g.graphStep (some (g.enter (dest b)))

namespace Collapsed
variable {k : Fn} {live' live'' : List BlkId} {dest dest' : BlkId → BlkId}

lemma refl (hf : Linked f live) (hno : NoJumps f live) : Collapsed f f live live id :=
  ⟨hf, hno, fun _ => rfl, fun _ => rfl, fun _ => id, rfl, rfl, fun _ => rfl, fun _ => id,
    fun _ _ => rfl,
    fun _ hb => hb, fun _ _ => rfl, fun _ h => h, fun _ _ => .refl _ _⟩

lemma trans (h1 : Collapsed f g live live' dest) (h2 : Collapsed g k live' live'' dest')
  (hsub : ∀ b ∈ live'', b ∈ live') : Collapsed f k live live'' (dest' ∘ dest) := by
  refine ⟨h2.linked, h2.noJumps, fun b => (h2.code b).trans (h1.code b), fun i => (h2.op i).trans
    (h1.op i), fun i hi => h1.next i (h2.next i hi), h2.size.trans h1.size, h2.sites.trans h1.sites,
    fun b => (h2.name b).trans (h1.name b), fun b hb => h1.unnamed b (h2.unnamed b hb), fun b hb =>
    (h2.named b hb).trans (h1.named b (hsub b hb)), fun b hb => h2.mem _ (h1.mem b hb), fun b hb =>
    ?_, fun b hb => h2.loop b (h1.loop b hb), fun b hb => (h1.traces b hb).trans (h2.traces _
    (h1.mem b hb))⟩
  rw [Function.comp_apply, h1.self b (hsub b hb), h2.self b hb]

end Collapsed

lemma Bypassed.collapsed {s : BlkId} (h : Bypassed f g b s) (hf : Linked f live)
  (hno : NoJumps f live) (hcode : (f.blk b).code = []) (hsuc : (f.blk b).succs = [s])
  (hb : b ∈ live) (hne : s ≠ b) : Collapsed f g live (live.filter (· != b)) (redir b s) := by
  have hs : s ∈ live := hf.inside b hb s (by rw [hsuc]; exact .head _)
  have hmem : ∀ {a}, a ∈ live.filter (· != b) ↔ a ∈ live ∧ a ≠ b := by simp
  refine ⟨h.linked hf hs hne, fun a ha i hi => ?_, h.redirected.code, h.redirected.op,
    fun i => h.redirected.next, h.redirected.blks, h.redirected.sites, h.name, fun a ha => ?_,
      fun a ha => by simp [h.named, (hmem.1 ha).2],
    fun a ha => ?_, fun a ha => redir_of_ne (hmem.1 ha).2, fun a ha => ?_,
    fun a ha => h.sameTraces hf hno hcode hsuc hs hne ha⟩
  · rw [h.redirected.code] at hi
    rw [h.redirected.op]
    exact hno a (hmem.1 ha).1 i hi
  · rw [h.named, Bool.and_eq_true] at ha
    exact ha.1
  · by_cases hab : a = b
    · rw [hab, redir_old]
      exact hmem.2 ⟨hs, hne⟩
    · rw [redir_of_ne hab]
      exact hmem.2 ⟨ha, hab⟩
  · have hab : a ≠ b := by
      rintro rfl
      rw [ha] at hsuc
      exact hne (singleton_inj.1 hsuc).symm
    rw [h.succs a hab, ha, map_singleton, redir_of_ne hab]

lemma filterM_bypassBlk {bs keep : List BlkId} (hf : Linked f live) (hno : NoJumps f live)
  (hbs : ∀ b ∈ bs, b ∈ live) (hnd : bs.Nodup)
  (h : (bs.filterM bypassBlk).run f = .ok (keep, g)) :
  ∃ live' dest, Collapsed f g live live' dest ∧
    (∀ b, b ∈ live' ↔ b ∈ live ∧ (b ∈ bs → b ∈ keep)) ∧ keep.Sublist bs ∧
    (∀ b ∈ bs, (f.blk b).code ≠ [] → b ∈ keep) ∧
    ∀ b ∈ keep, (f.blk b).code = [] → (g.blk b).succs = [b] := by
  induction bs generalizing f keep live with
  | nil =>
    obtain ⟨rfl, rfl⟩ := run_filterM_nil.1 h
    exact ⟨live, id, .refl hf hno, by simp, List.Sublist.refl _, by simp, by simp⟩
  | cons b bs ih =>
    obtain ⟨stays, k, rest, hb, hrest, rfl⟩ := run_filterM_cons.1 h
    obtain ⟨hnot, hnd⟩ := nodup_cons.1 hnd
    have hblive := hbs b (.head _)
    have hbs' : ∀ c ∈ bs, c ∈ live := fun c hc => hbs c (.tail _ hc)
    rcases bypassBlk_cases hf hblive hb with
      ⟨rfl, rfl, hloop⟩ | ⟨rfl, hcode, s, hsuc, hne, hbypassed⟩
    · obtain ⟨live', dest, hcol, hlive', hsub, hfull, hempty⟩ := ih hf hno hbs' hnd hrest
      refine ⟨live', dest, hcol, fun c => ?_, hsub.cons_cons b, fun c hc hne => ?_,
        fun c hc hnil => ?_⟩
      · rw [hlive']
        have hcase : c ∈ bs → c ≠ b := fun hc h => hnot (h ▸ hc)
        simp only [mem_cons]
        grind
      · rcases mem_cons.1 hc with rfl | hc
        · exact .head _
        · exact .tail _ (hfull c hc hne)
      · rcases mem_cons.1 hc with rfl | hc
        · exact hcol.loop c (hloop hnil)
        · exact hempty c hc hnil
    · have hfst := hbypassed.collapsed hf hno hcode hsuc hblive hne
      have hmem : ∀ {a}, a ∈ live.filter (· != b) ↔ a ∈ live ∧ a ≠ b := by simp
      obtain ⟨live', dest, hcol, hlive', hsub, hfull, hempty⟩ := ih hfst.linked hfst.noJumps
        (fun c hc => hmem.2 ⟨hbs' c hc, fun h => hnot (h ▸ hc)⟩) hnd hrest
      refine ⟨live', dest ∘ redir b s, hfst.trans hcol fun c hc => ((hlive' c).1 hc).1,
        fun c => ?_, hsub.cons b, fun c hc hfil => ?_, fun c hc hnil => ?_⟩
      · have hkeep : c ∈ rest → c ≠ b := fun hc h => hnot (h ▸ hsub.mem hc)
        rw [hlive']
        simp only [mem_cons]
        grind
      · rcases mem_cons.1 hc with rfl | hc
        · exact absurd hcode hfil
        · exact hfull c hc (by rw [hfst.code]; exact hfil)
      · exact hempty c hc (by rw [hfst.code]; exact hnil)

lemma Linked.congr {live' : List BlkId} (h : Linked f live) (hmem : ∀ b, b ∈ live' ↔ b ∈ live) :
  Linked f live' where
  lt b hb := h.lt b ((hmem b).1 hb)
  ends b hb := h.ends b ((hmem b).1 hb)
  succs b hb := h.succs b ((hmem b).1 hb)
  inside b hb s hs := (hmem s).2 (h.inside b ((hmem b).1 hb) s hs)
  outside b hb := h.outside b fun hlive => hb ((hmem b).2 hlive)
  paired := h.paired
  tables b hb := h.tables b ((hmem b).1 hb)

lemma removeEmptyBlks_collapsed {n : Nat} (hf : Linked f f.order) (hno : NoJumps f f.order)
  (hnd : f.order.Nodup) (h : removeEmptyBlks.run f = .ok (n, g)) :
  ∃ dest, Collapsed f g f.order g.order dest ∧ g.order.Sublist f.order ∧
    (∀ b ∈ f.order, (f.blk b).code ≠ [] → b ∈ g.order) ∧
    ∀ b ∈ g.order, (f.blk b).code = [] → (g.blk b).succs = [b] := by
  simp only [removeEmptyBlks, run_bind_ok, run_modify_ok] at h
  obtain ⟨_, _, ⟨rfl, rfl⟩, keep, k, hloop, -, _, rfl, -, rfl⟩ := h
  obtain ⟨live', dest, hcol, hlive', hsub, hfull, hempty⟩ :=
    filterM_bypassBlk hf hno (fun _ hb => hb) hnd hloop
  have hmem : ∀ b, b ∈ keep ↔ b ∈ live' := fun b => by
    rw [hlive']
    exact ⟨fun hb => ⟨hsub.mem hb, fun _ => hb⟩, fun hb => hb.2 hb.1⟩
  have hlinked := hcol.linked.congr hmem
  refine ⟨dest, ⟨⟨hlinked.lt, hlinked.ends, hlinked.succs, hlinked.inside, hlinked.outside,
    hlinked.paired, hlinked.tables⟩, fun b hb => hcol.noJumps b ((hmem b).1 hb), hcol.code, hcol.op,
    hcol.next, hcol.size, hcol.sites, hcol.name, hcol.unnamed, fun b hb => hcol.named b ((hmem b).1 hb),
    fun b hb => (hmem _).2 (hcol.mem b hb), fun b hb => hcol.self b ((hmem b).1 hb), hcol.loop,
    hcol.traces⟩, hsub, hfull, hempty⟩

/-! ## The block that is reached first -/

open Split
variable {first : BlkId} {i : InsId} {u : PUnit} {p : Prog} {α : Type}

/-- Control does not run out of the last block. -/
def Fn.Closed (f : Fn) : Prop :=
  ∀ b ∈ f.order.getLast?, (jumpTgts f (reachPart f (f.blk b).code)).2 = false

/-! ## Split functions -/

lemma reachPart_sublist (f : Fn) (is : List InsId) : (reachPart f is).Sublist is := by
  induction is with
  | nil => exact List.Sublist.refl _
  | cons i is ih =>
    simp only [reachPart]
    split
    · exact List.Sublist.cons_cons i (nil_sublist is)
    · exact ih.cons_cons i

/-- The last piece ends like the whole. -/
lemma getLast?_cutAtTerms (f : Fn) (is : List InsId) :
  ∀ c, (cutAtTerms f is).getLast? = some c → c.getLast? = is.getLast? := by
  fun_induction cutAtTerms f is with
  | case1 | case2 => simp
  | case3 i is hne hterm ih =>
    intro c hc
    obtain ⟨d, ds, hd⟩ := exists_cons_of_ne_nil (cutAtTerms_ne_nil f is)
    obtain ⟨j, js, rfl⟩ := exists_cons_of_ne_nil hne
    rw [hd, getLast?_cons_cons, ← hd] at hc
    rw [getLast?_cons_cons, ih c hc]
  | case4 i is hne hterm hnil ih => exact absurd hnil (cutAtTerms_ne_nil _ _)
  | case5 i is hne hterm d ds hcons ih =>
    intro c hc
    obtain ⟨j, js, rfl⟩ := exists_cons_of_ne_nil hne
    rw [getLast?_cons_cons]
    cases ds with
    | nil =>
      obtain rfl : i :: d = c := by simpa using hc
      have hlast := ih d (by rw [hcons]; rfl)
      cases d with
      | nil => simp [getLast?_eq_some_getLast] at hlast
      | cons k ks => rw [getLast?_cons_cons, hlast]
    | cons e es => exact ih c (by rw [hcons]; simpa using hc)

/-- The first piece begins like the whole. -/
lemma head_cutAtTerms {is c : List InsId} {cs : List (List InsId)}
  (h : cutAtTerms f (i :: is) = c :: cs) : ∃ js, c = i :: js := by
  cases is with
  | nil =>
    exact ⟨[], (List.cons.inj h).1.symm⟩
  | cons j js =>
    rw [cutAtTerms] at h
    · split at h
      · exact ⟨[], (List.cons.inj h).1.symm⟩
      · split at h
        · exact ⟨[], (List.cons.inj h).1.symm⟩
        · exact ⟨_, (List.cons.inj h).1.symm⟩
    · simp

namespace Split
variable {f k : Fn} {pieces : BlkId → List BlkId}

section
variable (h : Split f k f.order pieces)
include h

lemma mem_code {q : BlkId} (hb : b ∈ f.order) (hq : q ∈ pieces b) (hi : i ∈ (k.blk q).code) :
  i ∈ (f.blk b).code := by
  have hmem : (k.blk q).code ∈ cutAtTerms f (reachPart f (f.blk b).code) := by
    rw [← h.cut b hb]
    exact mem_map_of_mem hq
  refine (reachPart_sublist f _).mem ?_
  rw [← flatten_cutAtTerms f (reachPart f (f.blk b).code)]
  exact mem_flatten.2 ⟨_, hmem, hi⟩

lemma codes_eq : ((laidOut f k pieces).order.flatMap fun q => (k.blk q).code) =
  f.order.flatMap fun b => reachPart f (f.blk b).code := by
  show (f.order.flatMap pieces).flatMap _ = _
  rw [flatMap_assoc]
  refine congrArg List.flatten (map_congr_left fun b hb => ?_)
  rw [flatMap_def, h.cut b hb, flatten_cutAtTerms]

lemma runsOut_laidOut (hclosed : f.Closed) :
  runsOut (laidOut f k pieces) (laidOut f k pieces).order none = none := by
  cases hlast : f.order.getLast? with
  | none =>
    rw [getLast?_eq_none_iff] at hlast
    simp [runsOut, hlast]
  | some b =>
    obtain ⟨bs, hord⟩ := getLast?_eq_some_iff.1 hlast
    have hb : b ∈ f.order := by rw [hord]; simp
    -- The last piece of the last block ends like what can be reached of that block.
    obtain ⟨qs, hqs, -⟩ := h.head b hb
    obtain ⟨q, hq⟩ : ∃ q, (pieces b).getLast? = some q :=
      ⟨_, getLast?_eq_some_getLast (by rw [hqs]; exact cons_ne_nil _ _)⟩
    have hlastq : (laidOut f k pieces).order.getLast? = some q := by
      show (f.order.flatMap pieces).getLast? = some q
      rw [hord, flatMap_append, flatMap_singleton, getLast?_append, hq]
      rfl
    have hend : (k.blk q).code.getLast? = (reachPart f (f.blk b).code).getLast? := by
      refine getLast?_cutAtTerms f _ _ ?_
      rw [← h.cut b hb, getLast?_map, hq]
      rfl
    have hthrough := hclosed b hlast
    rw [← jumpTgts_congr h.code h.tables hend] at hthrough
    simp only [runsOut, hlastq]
    exact if_neg (Bool.not_eq_true _ ▸ hthrough)

end

lemma isCut (hf : f.Unlinked) (h : Split f k f.order pieces) : Cut (laidOut f k pieces) := by
  have hins : ∀ i, (laidOut f k pieces).ins i = f.ins i := fun i => by
    show k.ins i = f.ins i
    rw [ins, ins, h.code]
  refine ⟨fun q hq => ?_, h.nodup, h.loose hf.loose, fun q hq i hi => ?_, fun q hq t ht => ?_,
    fun q hq i hi x t ht => ?_⟩
  all_goals obtain ⟨b, hb, hqb⟩ := mem_flatMap.1 hq
  · obtain ⟨qs, hqs, hlt⟩ := h.head b hb
    rw [hqs] at hqb
    rcases mem_cons.1 hqb with rfl | hqb
    · exact (hf.lt q hb).trans_le h.size
    · exact (hlt q hqb).2
  · rw [hins]
    refine isTerm_of_mem_cut f (reachPart f (f.blk b).code) (k.blk q).code ?_ i hi
    rw [← h.cut b hb]
    exact mem_map_of_mem hqb
  · rw [jumpTgts_congr (g := laidOut f k pieces) h.code h.tables rfl] at ht
    obtain ⟨i, hi, ht⟩ := mem_tgts_of_jumpTgts ht
    exact h.mem_order (hf.tgt b hb i (h.mem_code hb hqb (mem_of_getLast? hi)) t ht)
  · rw [hins] at ht
    show t < k.tables.size
    rw [h.tables]
    exact hf.tables b hb i (h.mem_code hb hqb hi) x t ht

lemma trimmed (hf : f.Unlinked) (hclosed : f.Closed) (h : Split f k f.order pieces) :
  Trimmed (laidOut f k pieces) := ⟨h.isCut hf, h.runsOut_laidOut hclosed⟩

end Split

/-! ## The passes in sequence -/

/-- The form in which functions are worked on: edges agree with the code, there are no
unconditional branches, every block and instruction stands in one place, blocks differ in their
names, and the function passes the check. -/
structure Fn.GraphForm (p : Prog) (f : Fn) : Prop where
  linked : Linked f f.order
  noJumps : NoJumps f f.order
  shape : Shaped f f.order
  nodup : f.order.Nodup
  once : (f.order.flatMap fun b => (f.blk b).code).Nodup
  sites : ∀ b ∈ f.order, ∀ i : Nat, i ∈ (f.blk b).code → i < f.code.size
  named : ∀ b ∈ f.order, (f.blk b).named
  unique : f.NamesUnique
  checked : checkFn p f {} = .ok ()

/-- The functions between the passes: blocks are split into pieces, the pieces are linked, `d` is
what is left without branches, and empty blocks are removed from that. -/
structure Stages (p : Prog) (f k d g : Fn) (pieces : BlkId → List BlkId)
    (dest : BlkId → BlkId) : Prop where
  split : Split f k f.order pieces
  trimmed : Trimmed (laidOut f k pieces)
  dropped : Dropped (linkUp (laidOut f k pieces)) d (f.order.flatMap pieces)
  collapsed : Collapsed d g (f.order.flatMap pieces) g.order dest
  sublist : g.order.Sublist (f.order.flatMap pieces)
  full : ∀ b ∈ f.order.flatMap pieces, (d.blk b).code ≠ [] → b ∈ g.order
  loop : ∀ b ∈ g.order, (d.blk b).code = [] → (g.blk b).succs = [b]
  checked : checkFn p g { args := true } = .ok ()

lemma Split.shaped {k : Fn} {pieces : BlkId → List BlkId} (hf : f.Unlinked)
  (h : Split f k f.order pieces) :
  Shaped (linkUp (laidOut f k pieces)) (f.order.flatMap pieces) := by
  intro q hq i hi
  obtain ⟨b, hb, hqb⟩ := mem_flatMap.1 hq
  have hsame := sameCode_linkUp (laidOut f k pieces)
  have hins : (linkUp (laidOut f k pieces)).ins i = f.ins i := by
    rw [hsame.ins_eq]
    show k.ins i = f.ins i
    rw [ins, ins, h.code]
  rw [hsame.blk] at hi
  rw [hins]
  exact hf.shape b hb i (h.mem_code hb hqb hi)

lemma initFlow_stages (hf : f.Unlinked) (hclosed : f.Closed)
  (h : (initFlow p).run f = .ok (u, g)) : ∃ k d pieces dest, Stages p f k d g pieces dest := by
  simp only [initFlow, run_bind_ok, run_discard_ok, run_attempt_ok] at h
  obtain ⟨_, _, hpieces, _, _, heds, _, d, hdrop, _, g, ⟨n, hempty⟩, _, _, ⟨rfl, rfl⟩, hcheck,
    rfl⟩ := h
  obtain ⟨k, pieces, hsplit, rfl⟩ := splitBlks_split hf.lt hf.nodup hpieces
  have htrimmed := hsplit.trimmed hf hclosed
  obtain rfl := htrimmed.initEdges_eq heds
  have hsame := sameCode_linkUp (laidOut f k pieces)
  have hlinked := htrimmed.linked
  have hdropped := dropBranches_dropped (hsame.order ▸ hlinked.lt) (hsame.order ▸ htrimmed.nodup)
    hdrop
  have hord : (linkUp (laidOut f k pieces)).order = f.order.flatMap pieces := hsame.order
  rw [hord] at hdropped
  have hdorder : d.order = f.order.flatMap pieces := hdropped.order.trans hord
  obtain ⟨dest, hcollapsed, hsub, hfull, hloop⟩ := removeEmptyBlks_collapsed
    (hdorder ▸ hdropped.linked hlinked (hsplit.shaped hf)) (hdorder ▸ hdropped.noJumps hlinked)
    (hdorder ▸ htrimmed.nodup) hempty
  rw [hdorder] at hcollapsed hsub hfull
  exact ⟨k, d, pieces, dest, hsplit, htrimmed, hdropped, hcollapsed, hsub, hfull, hloop, hcheck⟩

/-! ## Instructions stand in one place -/

lemma eq_of_mem_of_nodup_flatMap {β : Type} {as : List α} {φ : α → List β}
  (hnd : (as.flatMap φ).Nodup) {a b : α} {x : β} (ha : a ∈ as) (hb : b ∈ as) (hxa : x ∈ φ a)
  (hxb : x ∈ φ b) : a = b := by
  by_contra hne
  have : Std.Symm (Function.onFun Disjoint φ) := ⟨fun _ _ h _ ha hb => h hb ha⟩
  exact (nodup_flatMap.1 hnd).2.forall ha hb hne hxa hxb

lemma head?_of_sublist {a : α} {as bs : List α} (h : bs.Sublist (a :: as)) (ha : a ∈ bs)
  (hnd : (a :: as).Nodup) : bs.head? = some a := by
  cases h with
  | cons _ hsub => exact absurd (hsub.mem ha) (nodup_cons.1 hnd).1
  | cons_cons _ _ => rfl

namespace Stages
variable {f k d g : Fn} {pieces : BlkId → List BlkId} {dest : BlkId → BlkId}

section
variable (h : Stages p f k d g pieces dest) (hb : b ∈ g.order)
include h hb

lemma code_sublist : ((g.blk b).code).Sublist (k.blk b).code := by
  rw [h.collapsed.code, h.dropped.here b (h.sublist.mem hb), (sameCode_linkUp _).blk]
  exact noJump_sublist _ _

lemma mem_piece (hi : i ∈ (g.blk b).code) : i ∈ (k.blk b).code := (h.code_sublist hb).mem hi

end

section
variable (hf : f.Unlinked) (h : Stages p f k d g pieces dest)
include hf h

lemma once : (g.order.flatMap fun b => (g.blk b).code).Nodup := by
  have honce : ((f.order.flatMap pieces).flatMap fun q => (k.blk q).code).Nodup := by
    rw [h.split.codes_eq]
    exact (List.Sublist.flatMap_right _ fun b _ => reachPart_sublist f _).nodup hf.once
  have hpieces := List.Sublist.flatMap_right g.order fun b hb => h.code_sublist hb
  exact (hpieces.trans (h.sublist.flatMap _)).nodup honce

lemma blk_eq (ha : a ∈ g.order) (hb : b ∈ g.order) (hia : i ∈ (g.blk a).code)
  (hib : i ∈ (g.blk b).code) : a = b :=
  eq_of_mem_of_nodup_flatMap (h.once hf) ha hb hia hib

lemma shaped : Shaped g g.order := by
  intro b hb i hi hterm hnext
  have hins : d.ins i = (linkUp (laidOut f k pieces)).ins i := by rw [ins, ins, h.dropped.code]
  have hmem : i ∈ ((linkUp (laidOut f k pieces)).blk b).code := by
    rw [(sameCode_linkUp _).blk]
    exact h.mem_piece hb hi
  rw [h.collapsed.op, hins] at hterm
  exact h.split.shaped hf b (h.sublist.mem hb) i hmem hterm (hins ▸ h.collapsed.next i hnext)

end

section
variable (h : Stages p f k d g pieces dest)
include h

lemma names (hnmd : ∀ b ∈ f.order, (f.blk b).named) (hunique : f.NamesUnique) :
  (∀ b ∈ g.order, (g.blk b).named) ∧ g.NamesUnique := by
  have heds := edgesOnly_linkUp (laidOut f k pieces)
  have hd : ∀ b, (d.blk b).named = (k.blk b).named := fun b =>
    (h.dropped.named b).trans (heds.named_eq b)
  refine ⟨fun b hb => ?_, (h.split.unique hnmd hunique).of_le ?_ (fun b => ?_) fun b hb => ?_⟩
  · obtain ⟨a, ha, hba⟩ := mem_flatMap.1 (h.sublist.mem hb)
    rw [h.collapsed.named b hb, hd]
    exact h.split.named hnmd a ha b hba
  · exact (h.collapsed.size.trans h.dropped.size).trans heds.size
  · exact ((h.collapsed.name b).trans (h.dropped.name b)).trans (heds.name_eq b)
  · exact hd b ▸ h.collapsed.unnamed b hb

lemma sites (hsites : ∀ b ∈ f.order, ∀ i : Nat, i ∈ (f.blk b).code → i < f.code.size) :
  ∀ b ∈ g.order, ∀ i : Nat, i ∈ (g.blk b).code → i < g.code.size := by
  intro b hb i hi
  obtain ⟨a, ha, hba⟩ := mem_flatMap.1 (h.sublist.mem hb)
  have hcode : d.code = f.code := (h.dropped.code.trans (sameCode_linkUp _).code).trans h.split.code
  rw [h.collapsed.sites, hcode]
  exact hsites a ha i (h.split.mem_code ha hba (h.mem_piece hb hi))

lemma head_pieces (hfst : f.order.head? = some first) :
  (f.order.flatMap pieces).head? = some first := by
  obtain ⟨bs, hord⟩ := head?_eq_some_iff.1 hfst
  obtain ⟨qs, hqs, -⟩ := h.split.head first (hord ▸ mem_cons_self)
  rw [hord, flatMap_cons, hqs]
  rfl

lemma sameTraces (hf : f.Unlinked) (hfst : f.order.head? = some first) :
  SameTraces f.linearStep (some f.linearStart) g.graphStep (some (g.enter (dest first))) := by
  have hhead := h.head_pieces hfst
  have hmem : first ∈ f.order.flatMap pieces := mem_of_head? hhead
  have hpieces := h.split.sameTraces hf
  have hlinked := h.trimmed.sameTraces hhead
  have hdropped := h.dropped.sameTraces h.trimmed.linked (h.split.shaped hf) hmem
  exact ((hpieces.trans hlinked).trans hdropped).trans (h.collapsed.traces first hmem)

/-- From a block of the result, the first thing executed is its first instruction. A block without
one is a loop, and nothing is executed. -/
lemma starts_enter (hb : b ∈ g.order) (e : Event) :
  Starts g.graphStep (g.enter b) e ↔ ∃ i, (g.blk b).code.head? = some i ∧ e = g.event i := by
  cases hcode : (g.blk b).code with
  | nil =>
    have hloop := h.loop b hb (by rw [← h.collapsed.code, hcode])
    have hround : g.graphStep (g.enter b) = .silent (some (g.enter b)) := by
      simp only [enter, hcode, graphStep, hloop, head?_cons, Option.map_some]
    simpa using not_starts_of_loop hround e
  | cons i is =>
    have hjump : (g.ins i).op.fam ≠ .bra := h.collapsed.noJumps b hb i (hcode ▸ mem_cons_self)
    obtain ⟨next, hemit⟩ : ∃ next, g.graphStep (g.enter b) = .emit (g.event i) next := by
      simp only [enter, hcode, graphStep]
      cases hcon : (g.ins i).ctrl with
      | jump t => exact absurd (Ins.fam_of_jump hcon).1 hjump
      | _ => exact ⟨_, rfl⟩
    rw [starts_iff_of_emit hemit]
    simp

/-- Two blocks of the result are entered with the same effect exactly if they begin with the same
instruction, or both without one. -/
lemma sameTraces_enter_iff (hf : f.Unlinked) (ha : a ∈ g.order)
  (hb : b ∈ g.order) : SameTraces g.graphStep (some (g.enter a)) g.graphStep (some (g.enter b)) ↔
    (g.blk b).code.head? = (g.blk a).code.head? := by
  constructor
  · intro hsame
    have hiff : ∀ e, (∃ i, (g.blk a).code.head? = some i ∧ e = g.event i) ↔
        ∃ i, (g.blk b).code.head? = some i ∧ e = g.event i := fun e => by
      rw [← h.starts_enter ha, ← h.starts_enter hb, hsame.starts_iff]
    -- An event tells which instruction it comes from.
    have hsite : ∀ i j, g.event i = g.event j → i = j := fun i j hij => congrArg Event.site hij
    cases hheadb : (g.blk b).code.head? with
    | none =>
      cases hheada : (g.blk a).code.head? with
      | none => rfl
      | some i =>
        obtain ⟨j, hj, -⟩ := (hiff (g.event i)).1 ⟨i, hheada, rfl⟩
        rw [hheadb] at hj
        cases hj
    | some j =>
      obtain ⟨i, hi, hji⟩ := (hiff (g.event j)).2 ⟨j, hheadb, rfl⟩
      rw [hi, hsite j i hji]
  · intro hhead
    cases hheada : (g.blk a).code.head? with
    | none =>
      rw [hheada] at hhead
      exact .of_not_starts (fun e => by simp [h.starts_enter ha, hheada])
        (fun e => by simp [h.starts_enter hb, hhead])
    | some i =>
      rw [hheada] at hhead
      obtain rfl := h.blk_eq hf ha hb (mem_of_head? hheada) (mem_of_head? hhead)
      exact .refl _ _

lemma head_of_works (hfst : f.order.head? = some first)
  (hi : (f.blk first).code.head? = some i) (hbra : (f.ins i).op.fam ≠ .bra) :
  g.order.head? = some first ∧ dest first = first := by
  obtain ⟨bs, hord⟩ := head?_eq_some_iff.1 hfst
  have hmem : first ∈ f.order := hord ▸ mem_cons_self
  have hhead := h.head_pieces hfst
  obtain ⟨qs, hqs⟩ := head?_eq_some_iff.1 hhead
  have hpiece : first ∈ f.order.flatMap pieces := hqs ▸ mem_cons_self
  -- The piece that stays in place begins with the instruction.
  obtain ⟨js, hjs⟩ : ∃ js, (k.blk first).code = i :: js := by
    obtain ⟨is, his⟩ := head?_eq_some_iff.1 hi
    obtain ⟨rs, hrs⟩ := reachPart_cons f i is
    obtain ⟨ps, hps, -⟩ := h.split.head first hmem
    have hcut := h.split.cut first hmem
    rw [hps, his, hrs] at hcut
    exact head_cutAtTerms hcut.symm
  have hfull : (d.blk first).code ≠ [] := by
    have hins : (linkUp (laidOut f k pieces)).ins i = f.ins i := by
      rw [(sameCode_linkUp _).ins_eq]
      show k.ins i = f.ins i
      rw [ins, ins, h.split.code]
    have hcode : ((linkUp (laidOut f k pieces)).blk first).code = i :: js := by
      rw [(sameCode_linkUp _).blk]
      exact hjs
    rw [h.dropped.here first hpiece, hcode, noJump_cons fun _ => hins.symm ▸ hbra]
    exact cons_ne_nil _ _
  have hstay := h.full first hpiece hfull
  refine ⟨?_, h.collapsed.self first hstay⟩
  exact head?_of_sublist (hqs ▸ h.sublist) hstay (hqs ▸ h.split.nodup)

end
end Stages

lemma initFlow_graphForm (hf : f.Unlinked) (hclosed : f.Closed)
  (hsites : ∀ b ∈ f.order, ∀ i : Nat, i ∈ (f.blk b).code → i < f.code.size)
  (hnmd : ∀ b ∈ f.order, (f.blk b).named) (hunique : f.NamesUnique)
  (h : (initFlow p).run f = .ok (u, g)) : g.GraphForm p := by
  obtain ⟨k, d, pieces, dest, hstg⟩ := initFlow_stages hf hclosed h
  obtain ⟨hnmd', hunique'⟩ := hstg.names hnmd hunique
  exact ⟨hstg.collapsed.linked, hstg.collapsed.noJumps, hstg.shaped hf,
    hstg.sublist.nodup hstg.split.nodup, hstg.once hf, hstg.sites hsites, hnmd',
    hunique', checkFn_of_args hstg.checked⟩

/-! ## A function that begins with a branch -/

/-- Whether a function without switches is unlinked can be decided. -/
lemma unlinked_of_noSwitch (h : (∀ b : Nat, b ∈ f.order → b < f.blks.size) ∧
  f.order.Nodup ∧ (f.order.flatMap fun b => (f.blk b).code).Nodup ∧ Shaped f f.order ∧
  (∀ x ∈ f.blks.toList, x.succs = [] ∧ x.preds = []) ∧ ∀ b ∈ f.order, ∀ i ∈ (f.blk b).code,
    (f.ins i).op.fam ≠ .switch ∧ ∀ t ∈ f.tgts i, t ∈ f.order) : f.Unlinked := by
  obtain ⟨hlt, hnd, honce, hshp, hloose, hcode⟩ := h
  refine ⟨hlt, hnd, fun b => ?_, honce, hshp, fun b hb i hi => (hcode b hb i hi).2,
    fun b hb i hi x t ht => absurd (Ins.fam_of_select ht).1 (hcode b hb i hi).1⟩
  by_cases hb : b < f.blks.size
  · refine hloose _ ?_
    simp [blk, hb]
  · rw [blk_eq_default (not_lt.1 hb)]
    exact ⟨rfl, rfl⟩

/-- The first block only branches past the second one. -/
def detour : Fn where
  name := "main"
  kind := .normal
  regs := #[{ name := "x", kind := .s32 }]
  lits := #[.ofInt .s32 1, .ofInt .s32 2]
  code := #[.of .bra [.blk 2], .of .mov [.reg 0, .lit 0], .of .ret [],
    .of .mov [.reg 0, .lit 1], .of .ret []]
  blks := #[{ name := "a", code := [0] }, { name := "b", code := [1, 2] },
    { name := "c", code := [3, 4] }]
  order := [0, 1, 2]

lemma detour_unlinked : detour.Unlinked := unlinked_of_noSwitch (by decide)

lemma detour_closed : detour.Closed := by
  intro b hb
  obtain rfl : 2 = b := Option.some.inj hb
  decide

/-- The second block comes first once the branch and its block are gone. -/
lemma initFlow_detour : ∃ g, (initFlow {}).run detour = .ok ((), g) ∧
  g.order.head? = some 1 ∧ (g.blk 1).code = [1, 2] ∧ (g.ins 1).op = .mov := by
  obtain ⟨⟨_, g⟩, hrun, hg⟩ := ok_of_any (x := (initFlow {}).run detour)
    (φ := fun r => decide (r.2.order.head? = some 1 ∧ (r.2.blk 1).code = [1, 2] ∧
      (r.2.ins 1).op = .mov)) (by decide +kernel)
  exact ⟨g, hrun, of_decide_eq_true hg⟩

/-! ## Edges after the last block is dropped -/

/-- Only an empty last block is dropped, and the edges that lead to it stay. -/
lemma initEdges_gone (h : initEdges.run f = .ok (u, g)) : ∃ gone :
  Option BlkId, f.order = g.order ++ gone.toList ∧ (∀ b ∈ gone, (f.blk b).code = []) ∧ ∀ b,
  (g.blk b).succs = ((linkUp f).blk b).succs ∧ (g.blk b).preds = ((linkUp f).blk b).preds := by
  have hsame := sameCode_linkUp f
  simp only [initEdges, run_get_bind, addEdges_eq, run_bind_ok, run_set_ok] at h
  obtain ⟨-, _, rfl, h⟩ := h
  rw [← linkUp] at h
  split at h
  · obtain ⟨-, rfl⟩ := run_pure_ok.1 h
    exact ⟨none, by simp [hsame.order]⟩
  · exact absurd h run_throw_ok
  · rename_i b _ hlast
    simp only [run_bind_ok, run_require_ok] at h
    obtain ⟨-, _, ⟨hnil, rfl⟩, h⟩ := h
    rw [hsame.order] at hlast
    rw [hsame.blk] at hnil
    have hkeep {α : Type} (φ : Blk → α) (hφ : ∀ x, φ { x with named := false } = φ x) :=
      blk_mod_field (f := linkUp f) φ hφ b
    split at h
    · cases h
    · obtain ⟨-, _, -, h⟩ := h
      refine ⟨some b, ?_, by simpa using hnil, fun c =>
        ⟨hkeep Blk.succs (fun _ => rfl) c, hkeep Blk.preds (fun _ => rfl) c⟩⟩
      show f.order = (linkUp f).order.dropLast ++ [b]
      obtain ⟨bs, hbs⟩ := getLast?_eq_some_iff.1 hlast
      simp [hsame.order, hbs]

/-- Edges are recorded at both ends, and a block has one for every way out of it. They lead from
blocks that are laid out to such blocks, or to the last one if it has been dropped. -/
theorem initEdges_edges {f k g : Fn} {v : PUnit} (hf : f.Unlinked) (hsplit : splitBlks.run f = .ok (u, k))
  (h : initEdges.run k = .ok (v, g)) : Paired g ∧
    (∀ b ∈ g.order, (g.blk b).succs = (jumpTgts k (k.blk b).code).1 ++
      if (jumpTgts k (k.blk b).code).2 then (k.following b).head?.toList else []) ∧
    ∃ gone : Option BlkId, k.order = g.order ++ gone.toList ∧
      (∀ b ∈ gone, (k.blk b).code = []) ∧
      ∀ a b, b ∈ (g.blk a).succs → a ∈ g.order ∧ (b ∈ g.order ∨ gone = some b) := by
  have hcut : Cut k := by
    obtain ⟨_, _, hs, rfl⟩ := splitBlks_split hf.lt hf.nodup hsplit
    exact hs.isCut hf
  obtain ⟨gone, hord, hempty, heds⟩ := initEdges_gone h
  have hmem : ∀ c, c ∈ k.order ↔ c ∈ g.order ∨ gone = some c := by simp [hord]
  refine ⟨fun a b => ?_, fun b hb => ?_, gone, hord, hempty, fun a b hb => ?_⟩
  · rw [(heds a).1, (heds b).2, hcut.paired]
  · rw [(heds b).1, hcut.succs_eq ((hmem b).2 (.inl hb))]
  · rw [(heds a).1] at hb
    have ha : a ∈ k.order := by
      by_contra ha
      simp [hcut.outside ha] at hb
    refine ⟨((hmem a).1 ha).resolve_right fun hgone => ?_, (hmem b).1 (hcut.inside ha hb)⟩
    -- The dropped block is empty and last, so it has no edge.
    have hlast : k.following a = [] := following_of_append hcut.nodup (by rw [hord, hgone]; rfl)
    simp [hcut.succs_eq ha, hempty a hgone, hlast, jumpTgts] at hb

/-- A function that branches to an empty block at its end. -/
def runOff : Fn := { detour with blks := detour.blks.modify 2 ({ · with code := [] }) }

/-- The edge to the last block of `runOff` is still there when the block is not. -/
theorem initEdges_edges_runOff : runOff.Unlinked ∧ ∃ k g, splitBlks.run runOff = .ok ((), k) ∧
  initEdges.run k = .ok ((), g) ∧ Paired g ∧ 2 ∉ g.order ∧ (g.blk 0).succs = [2] := by
  have hunlinked : runOff.Unlinked := unlinked_of_noSwitch (by decide)
  have hrun : ((splitBlks.run runOff).toOption.any fun r => (initEdges.run r.2).toOption.any
      fun q => decide (2 ∉ q.2.order ∧ (q.2.blk 0).succs = [2])) = true := by decide +kernel
  obtain ⟨⟨_, k⟩, hsplit, hk⟩ := ok_of_any hrun
  obtain ⟨⟨_, g⟩, heds, hg⟩ := ok_of_any hk
  exact ⟨hunlinked, k, g, hsplit, heds, (initEdges_edges hunlinked hsplit heds).1,
    of_decide_eq_true hg⟩

/-! ## The entry of the result -/

/-- The result of `initFlow`, entered at the block where execution starts to do something, behaves
like the function did. Entered at its first block it does so exactly if that block begins with the
same instruction, as it does if the function begins with anything but a branch. -/
theorem initFlow_sameTraces_iff {p : Prog} {f g : Fn} {first : BlkId} (hf : f.Unlinked)
  (hclosed : f.Closed) (hfst : f.order.head? = some first)
  (h : (initFlow p).run f = .ok ((), g)) :
  ∃ start ∈ g.order, ∃ head, g.order.head? = some head ∧
    SameTraces f.linearStep (some f.linearStart) g.graphStep (some (g.enter start)) ∧
    (∀ e, Starts f.linearStep f.linearStart e ↔
      ∃ i, (g.blk start).code.head? = some i ∧ e = g.event i) ∧
    (SameTraces f.linearStep (some f.linearStart) g.graphStep (some (g.enter head)) ↔
      (g.blk head).code.head? = (g.blk start).code.head?) ∧
    ((∃ i, (f.blk first).code.head? = some i ∧ (f.ins i).op.fam ≠ .bra) →
      head = first ∧ start = first) := by
  obtain ⟨k, d, pieces, dest, hstg⟩ := initFlow_stages hf hclosed h
  have hsta : dest first ∈ g.order :=
    hstg.collapsed.mem first (List.mem_of_head? (hstg.head_pieces hfst))
  obtain ⟨head, rest, hord⟩ := List.exists_cons_of_ne_nil (List.ne_nil_of_mem hsta)
  have hhead : head ∈ g.order := hord ▸ mem_cons_self
  have hsame := hstg.sameTraces hf hfst
  refine ⟨dest first, hsta, head, by rw [hord]; rfl, hsame, fun e => ?_, ?_, ?_⟩
  · rw [hsame.starts_iff, hstg.starts_enter hsta]
  · rw [← hstg.sameTraces_enter_iff hf hsta hhead]
    exact ⟨hsame.symm.trans, hsame.trans⟩
  · rintro ⟨i, hi, hbra⟩
    obtain ⟨hfst', hdest⟩ := hstg.head_of_works hfst hi hbra
    rw [hord] at hfst'
    exact ⟨Option.some.inj hfst', hdest⟩

/-- The third block is where `detour` starts to do something, and it comes second in the result. -/
theorem initFlow_sameTraces_iff_detour : ∃ g, detour.Unlinked ∧ detour.Closed ∧
  detour.order.head? = some 0 ∧ (initFlow {}).run detour = .ok ((), g) ∧
  ∃ start ∈ g.order, ∃ head, g.order.head? = some head ∧
    SameTraces detour.linearStep (some detour.linearStart) g.graphStep (some (g.enter start)) ∧
    (∀ e, Starts detour.linearStep detour.linearStart e ↔
      ∃ i, (g.blk start).code.head? = some i ∧ e = g.event i) ∧
    (SameTraces detour.linearStep (some detour.linearStart) g.graphStep (some (g.enter head)) ↔
      (g.blk head).code.head? = (g.blk start).code.head?) ∧
    ((∃ i, (detour.blk 0).code.head? = some i ∧ (detour.ins i).op.fam ≠ .bra) →
      head = 0 ∧ start = 0) := by
  obtain ⟨g, hrun, -⟩ := initFlow_detour
  exact ⟨g, detour_unlinked, detour_closed, rfl, hrun,
    initFlow_sameTraces_iff detour_unlinked detour_closed rfl hrun⟩

/-- Entered at its first block, the result need not behave like the function as it was. -/
theorem initFlow_detour_differs : detour.Unlinked ∧ detour.Closed ∧
  ∃ g head, (initFlow {}).run detour = .ok ((), g) ∧ g.order.head? = some head ∧
    ¬ SameTraces detour.linearStep (some detour.linearStart) g.graphStep
      (some (g.enter head)) := by
  obtain ⟨g, hrun, hhead, hcode, hop⟩ := initFlow_detour
  refine ⟨detour_unlinked, detour_closed, g, 1, hrun, hhead, fun hsame => ?_⟩
  have hcon : (g.ins 1).ctrl = .next := Ins.ctl_eq_next (by rw [hop]; rfl)
  have hgraph : g.graphStep (g.enter 1) = .emit (g.event 1) fun _ => some ⟨1, [2]⟩ := by
    simp only [Fn.enter, hcode, Fn.graphStep, hcon]
  -- The branch at the start leads to the third block.
  have hlinear : Starts detour.linearStep detour.linearStart (detour.event 3) := by
    refine ⟨⟨[3, 4], []⟩, fun _ => some ⟨[4], []⟩, ?_, by rfl⟩
    exact .head (b := ⟨[0], [1, 2]⟩) rfl (.single rfl)
  rw [hsame.starts_iff, starts_iff_of_emit hgraph] at hlinear
  have hsite : (3 : InsId) = 1 := congrArg Event.site hlinear
  exact absurd hsite (by decide)

end Retarget.IR
