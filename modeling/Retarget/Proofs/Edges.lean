import Retarget.Proofs.Control
import Retarget.Proofs.Passes

/-!
# Blocks and edges

`splitBlks` cuts every block after each instruction that ends a block, and drops what control cannot
reach. `Split` says that each block has become a sequence of pieces, which hold the part of it that
can be reached. In the linear reading nothing changes.
-/

namespace Retarget.IR
open Pass Trace List Function Fn
variable {b : BlkId} {f g : Fn} {i : InsId} {bs ps qs : List BlkId} {is : List InsId}

/-! ## Cutting a sequence of instructions -/

section
variable (f : Fn) (is : List InsId)

lemma flatten_cutAtTerms : (cutAtTerms f is).flatten = is := by
  fun_induction cutAtTerms f is with
  | case1 | case2 => rfl
  | case3 i is hne hterm ih => simp [ih]
  | case4 i is hne hterm hnil ih =>
    rw [hnil] at ih
    simp [← ih]
  | case5 i is hne hterm c cs hcons ih =>
    rw [hcons] at ih
    simp [← ih]

lemma isTerm_of_mem_cut : ∀ c ∈ cutAtTerms f is, ∀ i ∈ c.dropLast, (f.ins i).op.isTerm = false := by
  fun_induction cutAtTerms f is with
  | case1 | case2 => simp
  | case3 j is hne hterm ih =>
    intro c hc
    rcases mem_cons.1 hc with rfl | hc
    · simp
    · exact ih c hc
  | case4 j is hne hterm hnil ih => simp
  | case5 j is hne hterm d ds hcons ih =>
    intro c hc i hi
    rw [hcons] at ih
    rcases mem_cons.1 hc with rfl | hc
    · cases d with
      | nil => simp at hi
      | cons k ks =>
        rcases mem_cons.1 hi with rfl | hi
        · simpa using hterm
        · exact ih _ (.head _) i hi
    · exact ih c (.tail _ hc) i hi

lemma cutAtTerms_ne_nil : cutAtTerms f is ≠ [] := by
  fun_cases cutAtTerms f is <;> simp_all

end

lemma reachPart_eq_nil_iff : reachPart f is = [] ↔ is = [] := by
  cases is with
  | nil => simp [reachPart]
  | cons i is =>
    simp only [reachPart]
    split <;> simp

lemma reachPart_cons (f : Fn) (i : InsId) (is : List InsId) :
  ∃ js, reachPart f (i :: is) = i :: js := by
  simp only [reachPart]
  split
  · exact ⟨[], rfl⟩
  · exact ⟨_, rfl⟩

lemma reachPart_cons_of_runsOn (is : List InsId) (hret : (f.ins i).op.fam ≠ .ret)
  (hbra : (f.ins i).op.fam ≠ .bra) : reachPart f (i :: is) = i :: reachPart f is := by
  simp [reachPart, hret, hbra]

/-! ## One block -/

/-- What adding pieces does: new blocks at the end of the table, one for each piece. -/
structure Added (f g : Fn) (qs : List BlkId) (cs : List (List InsId)) : Prop where
  ids : qs = List.range' f.blks.size cs.length
  size : g.blks.size = f.blks.size + cs.length
  code : g.code = f.code
  tables : g.tables = f.tables
  order : g.order = f.order
  old : ∀ b : Nat, b < f.blks.size → g.blk b = f.blk b
  pieces : qs.map (fun q => (g.blk q).code) = cs
  loose : ∀ q ∈ qs, (g.blk q).succs = [] ∧ (g.blk q).preds = []
  named : ∀ q ∈ qs, (g.blk q).named
  unique : f.NamesUnique → g.NamesUnique

lemma addPieces_added {stem : String} {cs : List (List InsId)}
  (h : (addPieces stem cs).run f = .ok (qs, g)) : Added f g qs cs := by
  induction cs generalizing f g qs with
  | nil =>
    obtain ⟨rfl, rfl⟩ := run_pure_ok.1 h
    exact ⟨rfl, rfl, rfl, rfl, rfl, fun _ _ => rfl, rfl, by simp, by simp, id⟩
  | cons c cs ih =>
    simp only [addPieces, newBlk, run_bind_ok, run_attempt_ok, run_modifyGet_ok,
      run_modify_ok, Prod.mk.injEq] at h
    obtain ⟨_, _, ⟨rfl, rfl⟩, name, _, ⟨hname, rfl⟩, _, f1, ⟨rfl, hf1⟩, -, f2, hf2, qs, g, hrest,
      rfl, rfl⟩ := h
    have hadd := ih hrest
    -- The new block is the last one of the table, and its code is the first piece.
    have hsize1 : f1.blks.size = f.blks.size + 1 := by rw [← hf1]; simp
    have hsize2 : f2.blks.size = f.blks.size + 1 := by rw [← hf2]; simpa using hsize1
    have hlt : f.blks.size < f1.blks.size := by omega
    have hnew : f1.blk f.blks.size = { name } := by
      rw [← hf1]
      exact blk_push_size _
    have hblk : g.blk f.blks.size = f2.blk f.blks.size := hadd.old _ (by omega)
    have hold : ∀ b, b < f.blks.size → g.blk b = f.blk b := by
      intro b hb
      rw [hadd.old b (by omega), ← hf2, blk_setCode_ne _ hb.ne, ← hf1]
      exact blk_push_lt _ hb
    refine ⟨?_, ?_, ?_, ?_, ?_, hold, ?_, ?_, ?_, fun hunique => hadd.unique ?_⟩
    · rw [hadd.ids, hsize2, length_cons, range'_succ]
    · rw [hadd.size, length_cons]
      omega
    · rw [hadd.code, ← hf2, ← hf1]
      rfl
    · rw [hadd.tables, ← hf2, ← hf1]
      rfl
    · rw [hadd.order, ← hf2, ← hf1]
      rfl
    · rw [map_cons, hadd.pieces, hblk, ← hf2, code_setCode_self _ hlt]
    · intro q hq
      rcases mem_cons.1 hq with rfl | hq
      · rw [hblk, ← hf2, succs_setCode, preds_setCode, hnew]
        exact ⟨rfl, rfl⟩
      · exact hadd.loose q hq
    · intro q hq
      rcases mem_cons.1 hq with rfl | hq
      · rw [hblk, ← hf2, named_setCode, hnew]
      · exact hadd.named q hq
    · have hpush : f1.NamesUnique := hf1 ▸ hunique.push (freshName_spec hname).1
      rw [← hf2]
      exact hpush.of_le (by simp) (fun b => by simp) (fun b => by simp)

/-- What splitting the blocks `bs` does. A block keeps its place in the table, its further pieces
are new, and together they hold what can be reached of it. -/
structure Split (f g : Fn) (bs : List BlkId) (pieces : BlkId → List BlkId) : Prop where
  size : f.blks.size ≤ g.blks.size
  code : g.code = f.code
  tables : g.tables = f.tables
  order : g.order = f.order
  old : ∀ b : Nat, b < f.blks.size → b ∉ bs → g.blk b = f.blk b
  head : ∀ b ∈ bs, ∃ qs, pieces b = b :: qs ∧ ∀ q : Nat, q ∈ qs → f.blks.size ≤ q ∧ q < g.blks.size
  cut : ∀ b ∈ bs, (pieces b).map (fun q => (g.blk q).code) =
    cutAtTerms f (reachPart f (f.blk b).code)
  nodup : (bs.flatMap pieces).Nodup
  loose : (∀ b, (f.blk b).succs = [] ∧ (f.blk b).preds = []) →
    ∀ b : Nat, (g.blk b).succs = [] ∧ (g.blk b).preds = []
  named : (∀ b ∈ bs, (f.blk b).named) → ∀ b ∈ bs, ∀ q ∈ pieces b, (g.blk q).named
  unique : (∀ b ∈ bs, (f.blk b).named) → f.NamesUnique → g.NamesUnique

lemma splitBlk_split {b : Nat} (hb : b < f.blks.size) (h : (splitBlk b).run f = .ok (ps, g)) :
  Split f g [b] fun _ => ps := by
  simp only [splitBlk, run_bind_ok] at h
  obtain ⟨_, _, ⟨rfl, rfl⟩, h⟩ := h
  cases hcut : cutAtTerms f (reachPart f (f.blk b).code) with
  | nil => exact absurd hcut (cutAtTerms_ne_nil _ _)
  | cons c cs =>
    rw [hcut] at h
    simp only [run_bind_ok, run_modify_ok] at h
    obtain ⟨-, f1, hf1, -, f2, hf2, qs, g, hadd, rfl, rfl⟩ := h
    replace hadd := addPieces_added hadd
    have hsize : f2.blks.size = f.blks.size := by
      rw [← hf2, ← hf1]
      simp
    have hlt : b < f1.blks.size := by
      rw [← hf1]
      simpa using hb
    have hmem : ∀ q : Nat, q ∈ qs → f.blks.size ≤ q ∧ q < g.blks.size := by
      intro q hq
      rw [hadd.ids, mem_range'_1] at hq
      rw [hadd.size]
      omega
    have hcode : (g.blk b).code = c := by
      rw [hadd.old b (by omega), ← hf2, blk_mod_self _ hlt, ← hf1]
      exact code_setCode_self c hb
    have heds : ∀ a, a < f.blks.size →
        (g.blk a).succs = (f.blk a).succs ∧ (g.blk a).preds = (f.blk a).preds := by
      intro a ha
      rw [hadd.old a (by omega), ← hf2,
        blk_mod_field Blk.succs (g := fun x => { x with named := true })
          (fun _ => rfl), blk_mod_field Blk.preds
          (g := fun x => { x with named := true }) (fun _ => rfl), ← hf1]
      exact ⟨succs_setCode b a c, preds_setCode b a c⟩
    refine ⟨?_, ?_, ?_, ?_, ?_, ?_, ?_, ?_, ?_, fun _ a ha q hq => ?_, fun hnmd hunique => ?_⟩
    · rw [hadd.size]
      omega
    · rw [hadd.code, ← hf2, ← hf1]
      rfl
    · rw [hadd.tables, ← hf2, ← hf1]
      rfl
    · rw [hadd.order, ← hf2, ← hf1]
      rfl
    · intro a ha hne
      have hab : a ≠ b := by simpa using hne
      rw [hadd.old a (by omega), ← hf2, blk_mod_ne _ hab, ← hf1]
      exact blk_setCode_ne c hab
    · intro a ha
      obtain rfl := mem_singleton.1 ha
      exact ⟨qs, rfl, hmem⟩
    · intro a ha
      obtain rfl := mem_singleton.1 ha
      rw [map_cons, hadd.pieces, hcode, hcut]
    · have hnotin : b ∉ qs := fun hq => by have := hmem b hq; omega
      simp only [flatMap_cons, flatMap_nil, append_nil, nodup_cons]
      exact ⟨hnotin, hadd.ids ▸ nodup_range'⟩
    · intro hloose a
      by_cases ha : a < f.blks.size
      · rw [(heds a ha).1, (heds a ha).2]
        exact hloose a
      · by_cases hlast : a < g.blks.size
        · refine hadd.loose a ?_
          rw [hadd.ids, mem_range'_1]
          rw [hadd.size] at hlast
          omega
        · rw [blk_eq_default (not_lt.1 hlast)]
          exact ⟨rfl, rfl⟩
    · rcases mem_cons.1 hq with rfl | hq
      · rw [hadd.old q (by omega), ← hf2, blk_mod_self _ hlt]
      · exact hadd.named q hq
    · refine hadd.unique (hunique.of_le hsize (fun a => ?_) fun a ha => ?_)
      · rw [← hf2, blk_mod_field Blk.name (g := fun x => { x with named := true })
          (fun _ => rfl), ← hf1, name_setCode]
      · by_cases hab : a = b
        · exact hab ▸ hnmd b (.head _)
        · rwa [← hf2, blk_mod_ne _ hab, ← hf1, named_setCode] at ha

/-! ## All blocks -/

lemma reachPart_congr (h : g.code = f.code) (is : List InsId) :
  reachPart g is = reachPart f is := by
  have hins : ∀ i, g.ins i = f.ins i := fun i => by rw [ins, ins, h]
  induction is with
  | nil => rfl
  | cons i is ih => simp only [reachPart, hins, ih]

lemma cutAtTerms_congr (h : g.code = f.code) (is : List InsId) :
  cutAtTerms g is = cutAtTerms f is := by
  have hins : ∀ i, g.ins i = f.ins i := fun i => by rw [ins, ins, h]
  fun_induction cutAtTerms f is <;> simp_all [cutAtTerms]

/-- Blocks that are split one after the other do not get in each other's way. -/
lemma Split.cons {k : Fn} {b : Nat} {pieces : BlkId → List BlkId} (hb : b < f.blks.size)
  (hbs : ∀ c : Nat, c ∈ bs → c < f.blks.size) (hnot : b ∉ bs) (h1 : Split f g [b] fun _ => ps)
  (h2 : Split g k bs pieces) : Split f k (b :: bs) (Function.update pieces b ps) := by
  obtain ⟨qs, rfl, hqs⟩ := h1.head b (.head _)
  have hsize := h1.size
  have hsize' := h2.size
  have hne : ∀ c ∈ bs, c ≠ b := fun c hc h => hnot (h ▸ hc)
  have hoth : ∀ c ∈ bs, Function.update pieces b (b :: qs) c = pieces c := fun c hc =>
    update_of_ne (hne c hc) _ _
  -- The pieces of `b` are not touched when the other blocks are split.
  have hkeep : ∀ q ∈ b :: qs, k.blk q = g.blk q := by
    intro q hq
    rcases mem_cons.1 hq with rfl | hq
    · exact h2.old q (by omega) hnot
    · refine h2.old q (hqs q hq).2 fun hmem => ?_
      have := hbs q hmem
      have := (hqs q hq).1
      omega
  have hflat : (b :: bs).flatMap (Function.update pieces b (b :: qs)) =
      (b :: qs) ++ bs.flatMap pieces := by
    rw [flatMap_cons, update_self]
    rw [flatMap_def, flatMap_def, map_congr_left hoth]
  have hrest : ∀ c ∈ bs, g.blk c = f.blk c := fun c hc =>
    h1.old c (hbs c hc) (by simpa using hne c hc)
  refine ⟨by omega, h2.code.trans h1.code, h2.tables.trans h1.tables, h2.order.trans h1.order,
    ?_, ?_, ?_, ?_, fun hl => h2.loose (h1.loose hl), fun hnmd => ?_, fun hnmd hunique => ?_⟩
  · intro a ha hne
    rw [mem_cons, not_or] at hne
    rw [h2.old a (by omega) hne.2, h1.old a ha (by simpa using hne.1)]
  · intro c hc
    rcases mem_cons.1 hc with rfl | hc
    · refine ⟨qs, update_self _ _ _, fun q hq => ?_⟩
      have := hqs q hq
      omega
    · obtain ⟨rs, hrs, hlt⟩ := h2.head c hc
      refine ⟨rs, (hoth c hc).trans hrs, fun q hq => ?_⟩
      have := hlt q hq
      omega
  · intro c hc
    rcases mem_cons.1 hc with rfl | hc
    · rw [update_self, ← h1.cut c (.head _)]
      exact map_congr_left fun q hq => by rw [hkeep q hq]
    · rw [hoth c hc, h2.cut c hc, cutAtTerms_congr h1.code, reachPart_congr h1.code, hrest c hc]
  · rw [hflat]
    refine nodup_append.2 ⟨by simpa using h1.nodup, h2.nodup, ?_⟩
    rintro q hq q' hq' rfl
    obtain ⟨c, hc, hqc⟩ := mem_flatMap.1 hq'
    obtain ⟨rs, hrs, hlt⟩ := h2.head c hc
    have hcf := hbs c hc
    rw [hrs] at hqc
    rcases mem_cons.1 hq with rfl | hq
    · rcases mem_cons.1 hqc with rfl | hqc
      · exact hnot hc
      · have := hlt q hqc
        omega
    · have := hqs q hq
      rcases mem_cons.1 hqc with rfl | hqc
      · omega
      · have := hlt q hqc
        omega
  · have hb' : ∀ c ∈ [b], (f.blk c).named := fun c hc =>
      hnmd c (mem_singleton.1 hc ▸ mem_cons_self)
    have hbs' : ∀ c ∈ bs, (g.blk c).named := fun c hc => hrest c hc ▸ hnmd c (.tail _ hc)
    intro c hc q hq
    rcases mem_cons.1 hc with rfl | hc
    · rw [update_self] at hq
      rw [hkeep q hq]
      exact h1.named hb' c (.head _) q hq
    · rw [hoth c hc] at hq
      exact h2.named hbs' c hc q hq
  · refine h2.unique (fun c hc => hrest c hc ▸ hnmd c (.tail _ hc))
      (h1.unique (fun c hc => ?_) hunique)
    exact hnmd c (mem_singleton.1 hc ▸ mem_cons_self)

lemma mapM_splitBlk {pss : List (List BlkId)} (hlt : ∀ b : Nat, b ∈ bs → b < f.blks.size)
  (hnd : bs.Nodup) (h : (bs.mapM splitBlk).run f = .ok (pss, g)) :
  ∃ pieces, pss = bs.map pieces ∧ Split f g bs pieces := by
  induction bs generalizing f g pss with
  | nil =>
    obtain ⟨rfl, rfl⟩ := run_mapM_nil.1 h
    exact ⟨fun _ => [], rfl, le_rfl, rfl, rfl, rfl, fun _ _ _ => rfl, by simp, by simp,
      by simp, id, by simp, fun _ => id⟩
  | cons b bs ih =>
    obtain ⟨ps, f1, qss, hb, hbs, rfl⟩ := run_mapM_cons.1 h
    obtain ⟨hnot, hnd⟩ := nodup_cons.1 hnd
    have hfst := splitBlk_split (hlt b (.head _)) hb
    have hlt' : ∀ c : Nat, c ∈ bs → c < f.blks.size := fun c hc => hlt c (.tail _ hc)
    obtain ⟨pieces, rfl, hrest⟩ := ih (fun c hc => (hlt' c hc).trans_le hfst.size) hnd hbs
    refine ⟨Function.update pieces b ps, ?_, Split.cons (hlt b (.head _)) hlt' hnot hfst hrest⟩
    rw [map_cons, update_self]
    congr 1
    refine map_congr_left fun c hc => ?_
    have hne : c ≠ b := fun h => hnot (h ▸ hc)
    rw [update_of_ne hne]

lemma splitBlks_split {u : PUnit} (hlt : ∀ b ∈ f.order, b < f.blks.size)
  (hnd : f.order.Nodup) (h : splitBlks.run f = .ok (u, g)) :
  ∃ k pieces, Split f k f.order pieces ∧ g = { k with order := f.order.flatMap pieces } := by
  simp only [splitBlks, run_bind_ok, run_require_ok, run_modify_ok] at h
  obtain ⟨_, _, ⟨rfl, rfl⟩, -, _, ⟨-, rfl⟩, pss, k, hmap, rfl⟩ := h
  obtain ⟨pieces, rfl, hsplit⟩ := mapM_splitBlk hlt hnd hmap
  exact ⟨k, pieces, hsplit, by rw [flatMap_def]⟩

/-! ## The linear reading -/

namespace Split
variable {k : Fn} {pieces : BlkId → List BlkId}

/-- The function with its new sequence of blocks. -/
abbrev laidOut (f k : Fn) (pieces : BlkId → List BlkId) : Fn :=
  { k with order := f.order.flatMap pieces }

section
variable (h : Split f k f.order pieces) (hb : b ∈ f.order)
include h hb

lemma mem_order : b ∈ (laidOut f k pieces).order := by
  obtain ⟨qs, hqs, -⟩ := h.head b hb
  exact mem_flatMap.2 ⟨b, hb, by rw [hqs]; exact .head _⟩

/-- After a block come its further pieces, and then the pieces of the blocks after it. -/
lemma following_eq (hqs : pieces b = b :: qs) :
  (laidOut f k pieces).following b = qs ++ (f.following b).flatMap pieces := by
  have hnd := h.nodup
  have hhead := h.head
  unfold following laidOut
  generalize f.order = bs at hb hnd hhead
  induction bs with
  | nil => simp at hb
  | cons a bs ih =>
    rw [flatMap_cons] at hnd ⊢
    by_cases hab : a = b
    · subst hab
      simp [hqs]
    · have hbs : b ∈ bs := (mem_cons.1 hb).resolve_left (Ne.symm hab)
      have hskip : ∀ q ∈ pieces a, (q != b) := by
        intro q hq
        have hmem : b ∈ bs.flatMap pieces := mem_flatMap.2 ⟨b, hbs, by simp [hqs]⟩
        have := (nodup_append.1 hnd).2.2 q hq b hmem
        simpa using this
      rw [dropWhile_append_of_pos hskip,
        ih hbs (nodup_append.1 hnd).2.1 fun c hc => hhead c (.tail _ hc)]
      simp [hab]

end

/-- The place in the split function where a place of the function has gone: the current piece and
the pieces after it hold what can be reached of the rest of the block. -/
def Corresponds (f k : Fn) (pieces : BlkId → List BlkId) (p q : Fn.Point) : Prop :=
  (∀ i ∈ p.code, ∃ b ∈ f.order, i ∈ (f.blk b).code) ∧ (∀ b ∈ p.next, b ∈ f.order) ∧
    ∃ ps, q.next = ps ++ p.next.flatMap pieces ∧
      reachPart f p.code = q.code ++ (ps.map fun b => (k.blk b).code).flatten

section
variable (h : Split f k f.order pieces) (hb : b ∈ f.order)
include h hb

lemma corresponds_enter (hbs : ∀ c ∈ bs, c ∈ f.order) (hqs : pieces b = b :: qs) :
  Corresponds f k pieces ⟨(f.blk b).code, bs⟩ ⟨(k.blk b).code, qs ++ bs.flatMap pieces⟩ := by
  refine ⟨fun i hi => ⟨b, hb, hi⟩, hbs, qs, rfl, ?_⟩
  have hcut := congrArg List.flatten (h.cut b hb)
  rw [flatten_cutAtTerms, hqs] at hcut
  simpa using hcut.symm

lemma corresponds_pointAt : ∃ p q, f.pointAt b = some p ∧ (laidOut f k pieces).pointAt b = some q ∧
  Corresponds f k pieces p q := by
  obtain ⟨qs, hqs, -⟩ := h.head b hb
  refine ⟨_, _, if_pos hb, if_pos (h.mem_order hb), ?_⟩
  rw [h.following_eq hb hqs]
  exact h.corresponds_enter hb (fun _ hc => mem_of_mem_following hc) hqs

end

lemma quiet_skip (ps rest : List BlkId) (hps : (ps.map fun b => (g.blk b).code).flatten = []) :
  Quiet g.linearStep ⟨[], ps ++ rest⟩ ⟨[], rest⟩ := by
  induction ps with
  | nil => exact .refl
  | cons p ps ih =>
    simp only [map_cons, flatten_cons, append_eq_nil_iff] at hps
    refine .head ?_ (ih hps.2)
    show Move.silent (some (⟨(g.blk p).code, ps ++ rest⟩ : Fn.Point)) = _
    rw [hps.1]

/-- The next instruction is found at the end of the pieces without code. -/
lemma quiet_find (rest : List BlkId) : ∀ (ps : List BlkId) (c : List InsId),
      i :: is = c ++ (ps.map fun b => (g.blk b).code).flatten →
      ∃ d ps', Quiet g.linearStep ⟨c, ps ++ rest⟩ ⟨i :: d, ps' ++ rest⟩ ∧
        is = d ++ (ps'.map fun b => (g.blk b).code).flatten
  | ps, j :: c, h => by
    simp only [cons_append, List.cons.injEq] at h
    obtain ⟨rfl, rfl⟩ := h
    exact ⟨c, ps, .refl, rfl⟩
  | [], [], h => by simp at h
  | p :: ps, [], h => by
    obtain ⟨d, ps', hquiet, his⟩ := quiet_find rest ps (g.blk p).code (by simpa using h)
    exact ⟨d, ps', .head rfl hquiet, his⟩

section
variable (hf : f.Unlinked) (h : Split f k f.order pieces)
include hf h

/-- At corresponding places that are about to execute something, both readings do the same. -/
lemma agree {d : List InsId} {ns : List BlkId}
  (hc : Corresponds f k pieces ⟨i :: is, bs⟩ ⟨i :: d, ns⟩) : (f.linearStep ⟨i :: is, bs⟩).Agree
  (Corresponds f k pieces) ((laidOut f k pieces).linearStep ⟨i :: d, ns⟩) := by
  obtain ⟨hcode, hnext, ps, rfl, hpart⟩ := hc
  obtain ⟨b, hb, hi⟩ := hcode i (.head _)
  have hins : (laidOut f k pieces).ins i = f.ins i := by
    show k.ins i = f.ins i
    rw [ins, ins, h.code]
  have hevent : (laidOut f k pieces).event i = f.event i := by rw [event, event, hins]
  have htbl : ∀ t, (laidOut f k pieces).table t = f.table t := by
    intro t
    show k.table t = f.table t
    rw [table, table, h.tables]
  -- A jump leads to the start of a block that is laid out in both.
  have hjump : ∀ t ∈ f.tgts i, Option.Rel (Corresponds f k pieces) (f.pointAt t)
      ((laidOut f k pieces).pointAt t) := by
    intro t ht
    obtain ⟨p, q, hp, hq, hpq⟩ := h.corresponds_pointAt (hf.tgt b hb i hi t ht)
    rw [hp, hq]
    exact .some hpq
  -- Running on stays in the same block.
  have hrun : (f.ins i).op.fam ≠ .ret → (f.ins i).op.fam ≠ .bra →
      Corresponds f k pieces ⟨is, bs⟩ ⟨d, ps ++ bs.flatMap pieces⟩ := by
    intro hret hbra
    rw [reachPart_cons_of_runsOn is hret hbra, cons_append, List.cons.injEq] at hpart
    exact ⟨fun j hj => hcode j (.tail _ hj), hnext, ps, rfl, hpart.2⟩
  unfold tgts at hjump
  simp only [linearStep, hins, hevent]
  cases hcon : (f.ins i).ctrl with
  | next =>
    have hret : (f.ins i).op.fam ≠ .ret := by
      intro hret
      rw [Ins.ctl_eq_stop_iff.2 hret] at hcon
      cases hcon
    have hbra : (f.ins i).op.fam ≠ .bra := by
      exact fun hbra => hf.shape b hb i hi (Op.isTerm_of_bra hbra) hcon
    exact .emit fun _ => .some (hrun hret hbra)
  | stop => exact .emit fun _ => .none
  | jump t =>
    rw [hcon] at hjump
    exact .silent (hjump t (.head _))
  | branch op x y t =>
    rw [hcon] at hjump
    obtain ⟨hfam, -⟩ := Ins.fam_of_branch hcon
    refine .emit fun o => ?_
    split
    · exact hjump t (.head _)
    · exact .some (hrun (by rw [hfam]; decide) (by rw [hfam]; decide))
  | select x t =>
    rw [hcon] at hjump
    refine .emit fun o => ?_
    rw [htbl]
    exact hjump _ (JumpTable.tgt_mem _ _)

lemma simulation :
  Simulation f.linearStep (laidOut f k pieces).linearStep (Corresponds f k pieces) := by
  refine Simulation.of_answered fun p q hpq => .inr ?_
  obtain ⟨code, next⟩ := p
  cases code with
  | cons i is =>
    obtain ⟨hcode, hnext, ps, hq, hpart⟩ := hpq
    obtain ⟨js, hjs⟩ := reachPart_cons f i is
    rw [hjs] at hpart
    obtain ⟨d, ps', hquiet, hd⟩ := quiet_find (g := laidOut f k pieces) (next.flatMap pieces) ps
      q.code hpart
    rw [← hq] at hquiet
    exact ⟨_, hquiet, agree hf h ⟨hcode, hnext, ps', rfl, by rw [hjs, hd]; rfl⟩⟩
  | nil =>
    obtain ⟨-, hnext, ps, hq, hpart⟩ := hpq
    have hskip : q.code = [] ∧ (ps.map fun b => (k.blk b).code).flatten = [] :=
      append_eq_nil_iff.1 hpart.symm
    have hquiet : Quiet (laidOut f k pieces).linearStep q ⟨[], next.flatMap pieces⟩ := by
      have hq' : q = ⟨[], ps ++ next.flatMap pieces⟩ := by rw [← hskip.1, ← hq]
      rw [hq']
      exact quiet_skip ps (next.flatMap pieces) hskip.2
    refine ⟨_, hquiet, ?_⟩
    cases next with
    | nil => exact .silent .none
    | cons b bs =>
      obtain ⟨qs, hqs, -⟩ := h.head b (hnext b (.head _))
      simp only [flatMap_cons, hqs]
      refine .silent (.some ?_)
      exact h.corresponds_enter (hnext b (.head _)) (fun c hc => hnext c (.tail _ hc)) hqs

lemma simulation_back : Simulation (laidOut f k pieces).linearStep f.linearStep
  (fun q p => Corresponds f k pieces p q) := by
  refine Simulation.of_answered fun q p hpq => ?_
  obtain ⟨hcode, hnext, ps, hq, hpart⟩ := hpq
  obtain ⟨code, ns⟩ := q
  obtain ⟨pcode, pnext⟩ := p
  subst hq
  cases code with
  | cons i d =>
    cases pcode with
    | nil => simp [reachPart] at hpart
    | cons j is =>
      obtain ⟨js, hjs⟩ := reachPart_cons f j is
      have hij : j = i := by
        rw [hjs] at hpart
        exact (List.cons.inj hpart).1
      subst hij
      exact .of_agree (agree hf h ⟨hcode, hnext, ps, rfl, hpart⟩).flip
  | nil =>
    cases ps with
    | cons p ps =>
      -- The next piece belongs to the same block.
      have hstep : (laidOut f k pieces).linearStep ⟨[], (p :: ps) ++ pnext.flatMap pieces⟩ =
          .silent (some ⟨(k.blk p).code, ps ++ pnext.flatMap pieces⟩) := rfl
      refine .of_silent hstep ⟨hcode, hnext, ps, rfl, ?_⟩
      simpa using hpart
    | nil =>
      have hnil : pcode = [] := reachPart_eq_nil_iff.1 hpart
      subst hnil
      refine .of_agree ?_
      cases pnext with
      | nil => exact .silent .none
      | cons b bs =>
        obtain ⟨qs, hqs, -⟩ := h.head b (hnext b (.head _))
        simp only [flatMap_cons, hqs]
        refine .silent (.some ?_)
        exact h.corresponds_enter (hnext b (.head _)) (fun c hc => hnext c (.tail _ hc)) hqs

lemma sameTraces : SameTraces f.linearStep (some f.linearStart) (laidOut f k pieces).linearStep
  (some (laidOut f k pieces).linearStart) := by
  have hsta : Corresponds f k pieces f.linearStart (laidOut f k pieces).linearStart :=
    ⟨by simp [linearStart], fun b hb => hb, [], rfl, rfl⟩
  exact ⟨(simulation hf h).refines hsta, (simulation_back hf h).refines hsta⟩

end
end Split

/-! ## Edges

`initEdges` adds an edge for every way in which control can leave a block. `Linked` says that edges
and code agree in this sense and that both ends of an edge record it. If blocks end at their
terminators, the graph reading is then the linear reading. -/

variable {a t : BlkId} {before : Option BlkId} {es : List (BlkId × BlkId)}

/-- The two functions have the same code, though perhaps different edges. -/
structure SameCode (f g : Fn) : Prop where
  size : g.blks.size = f.blks.size
  code : g.code = f.code
  tables : g.tables = f.tables
  order : g.order = f.order
  blk : ∀ b, (g.blk b).code = (f.blk b).code

namespace SameCode
variable {k : Fn}

lemma trans (h1 : SameCode f g) (h2 : SameCode g k) : SameCode f k :=
  ⟨h2.size.trans h1.size, h2.code.trans h1.code, h2.tables.trans h1.tables,
    h2.order.trans h1.order, fun b => (h2.blk b).trans (h1.blk b)⟩

lemma ins_eq (h : SameCode f g) (i : InsId) : g.ins i = f.ins i := by rw [ins, ins, h.code]

lemma table_eq (h : SameCode f g) (t : TableId) : g.table t = f.table t := by
  rw [table, table, h.tables]

lemma jumpTgts_eq (h : SameCode f g) (code : List InsId) :
  jumpTgts g code = jumpTgts f code := jumpTgts_congr h.code h.tables rfl

end SameCode

structure EdgesOnly (f g : Fn) : Prop where
  size : g.blks.size = f.blks.size
  rest : g = { f with blks := g.blks }
  blk : ∀ b, g.blk b = { f.blk b with succs := (g.blk b).succs, preds := (g.blk b).preds }

namespace EdgesOnly
variable {k : Fn}

lemma refl (f : Fn) : EdgesOnly f f := ⟨rfl, rfl, fun _ => rfl⟩

lemma trans (h1 : EdgesOnly f g) (h2 : EdgesOnly g k) : EdgesOnly f k := by
  refine ⟨h2.size.trans h1.size, ?_, fun b => ?_⟩
  · rw [h2.rest, h1.rest]
  · rw [h2.blk b, h1.blk b]

lemma sameCode (h : EdgesOnly f g) : SameCode f g :=
  ⟨h.size, by rw [h.rest], by rw [h.rest], by rw [h.rest], fun b => by rw [h.blk b]⟩

lemma name_eq (h : EdgesOnly f g) (b : BlkId) : (g.blk b).name = (f.blk b).name := by
  rw [h.blk b]

lemma named_eq (h : EdgesOnly f g) (b : BlkId) : (g.blk b).named = (f.blk b).named := by
  rw [h.blk b]

lemma modBlk (f : Fn) (b : BlkId) {φ : Blk → Blk}
  (hφ : ∀ x, φ x = { x with succs := (φ x).succs, preds := (φ x).preds }) :
    EdgesOnly f (f.modBlk b φ) := by
  refine ⟨by simp, rfl, fun c => ?_⟩
  by_cases hc : c = b
  · subst hc
    by_cases hlt : c < f.blks.size
    · rw [blk_mod_self φ hlt]
      exact hφ _
    · have hle := not_lt.1 hlt
      rw [blk_eq_default hle, blk_eq_default (by simpa using hle)]
  · rw [blk_mod_ne φ hc]

end EdgesOnly

/-! ## Adding edges -/

lemma edgesOnly_addEdge (f : Fn) (a b : BlkId) : EdgesOnly f (f.addEdge a b) :=
  (EdgesOnly.modBlk f b fun _ => rfl).trans (EdgesOnly.modBlk _ a fun _ => rfl)

lemma succs_addEdge (b c : BlkId) (ha : a < f.blks.size) : ((f.addEdge a b).blk c).succs =
  (f.blk c).succs ++ if c = a then [b] else [] := by
  have hkeep : ∀ c, ((f.modBlk b fun x => { x with preds := x.preds ++ [a] }).blk c).succs =
      (f.blk c).succs := blk_mod_field Blk.succs
        (g := fun x => { x with preds := x.preds ++ [a] }) (fun _ => rfl) b
  by_cases hc : c = a
  · subst hc
    rw [addEdge, blk_mod_self _ (by simpa using ha), if_pos rfl, ← hkeep]
  · rw [addEdge, blk_mod_ne _ hc, hkeep, if_neg hc, append_nil]

lemma preds_addEdge (a c : BlkId) (hb : b < f.blks.size) : ((f.addEdge a b).blk c).preds =
  (f.blk c).preds ++ if c = b then [a] else [] := by
  rw [addEdge, blk_mod_field Blk.preds
    (g := fun x => { x with succs := x.succs ++ [b] }) (fun _ => rfl)]
  by_cases hc : c = b
  · subst hc
    rw [blk_mod_self _ hb, if_pos rfl]
  · rw [blk_mod_ne _ hc, if_neg hc, append_nil]

def linkAll (f : Fn) (es : List (BlkId × BlkId)) : Fn :=
  es.foldl (fun f e => f.addEdge e.1 e.2) f

lemma linkAll_append (f : Fn) (es es' : List (BlkId × BlkId)) :
  linkAll f (es ++ es') = linkAll (linkAll f es) es' := foldl_append

lemma edgesOnly_linkAll (f : Fn) (es : List (BlkId × BlkId)) : EdgesOnly f (linkAll f es) := by
  induction es generalizing f with
  | nil => exact .refl f
  | cons e es ih => exact (edgesOnly_addEdge f e.1 e.2).trans (ih _)

lemma succs_linkAll (h : ∀ e ∈ es, e.1 < f.blks.size) (c : BlkId) : ((linkAll f es).blk c).succs =
  (f.blk c).succs ++ (es.filter fun e => e.1 == c).map Prod.snd := by
  induction es generalizing f with
  | nil => simp [linkAll]
  | cons e es ih =>
    have hsize := (edgesOnly_addEdge f e.1 e.2).size
    rw [linkAll, foldl_cons, ← linkAll, ih fun e' he' => hsize ▸ h e' (.tail _ he'),
      succs_addEdge _ _ (h e (.head _))]
    by_cases hc : e.1 = c
    · simp [hc]
    · simp [hc, Ne.symm hc]

lemma preds_linkAll (h : ∀ e ∈ es, e.2 < f.blks.size) (c : BlkId) : ((linkAll f es).blk c).preds =
  (f.blk c).preds ++ (es.filter fun e => e.2 == c).map Prod.fst := by
  induction es generalizing f with
  | nil => simp [linkAll]
  | cons e es ih =>
    have hsize := (edgesOnly_addEdge f e.1 e.2).size
    rw [linkAll, foldl_cons, ← linkAll, ih fun e' he' => hsize ▸ h e' (.tail _ he'),
      preds_addEdge _ _ (h e (.head _))]
    by_cases hc : e.2 = c
    · simp [hc]
    · simp [hc, Ne.symm hc]

/-! ## The edges of a function -/

/-- The block, if control runs out of its end. -/
def runsOn (f : Fn) (b : BlkId) : Option BlkId :=
  if (jumpTgts f (f.blk b).code).2 then some b else none

lemma eq_of_mem_runsOn (h : a ∈ runsOn f b) : a = b := by
  simp_all [runsOn]

def edgeList (f : Fn) : List BlkId → Option BlkId → List (BlkId × BlkId)
  | [], _ => []
  | b :: bs, before =>
    before.toList.map (·, b) ++ (jumpTgts f (f.blk b).code).1.map (b, ·) ++
      edgeList f bs (runsOn f b)

def runsOut (f : Fn) (bs : List BlkId) (before : Option BlkId) : Option BlkId :=
  match bs.getLast? with
  | none => before
  | some b => runsOn f b

section
variable (h : SameCode f g) (bs : List BlkId) (before : Option BlkId)
include h

lemma edgeList_congr : edgeList g bs before = edgeList f bs before := by
  induction bs generalizing before with
  | nil => rfl
  | cons b bs ih => simp only [edgeList, runsOn, h.blk, h.jumpTgts_eq, ih]

lemma runsOut_congr : runsOut g bs before = runsOut f bs before := by
  simp only [runsOut, runsOn, h.blk, h.jumpTgts_eq]

end

lemma runsOut_cons (f : Fn) (b : BlkId) (bs : List BlkId) (before : Option BlkId) :
  runsOut f (b :: bs) before = runsOut f bs (runsOn f b) := by
  cases bs with
  | nil => rfl
  | cons c cs => simp [runsOut, getLast?_eq_some_getLast]

lemma addEdges_cons (b : BlkId) (bs : List BlkId) (before : Option BlkId) (f : Fn) :
  addEdges (b :: bs) before f = addEdges bs (runsOn f b) (linkAll f (before.toList.map (·, b) ++
    (jumpTgts f (f.blk b).code).1.map (b, ·))) := by
  cases before with
  | none => simp [addEdges, linkAll, runsOn, foldl_map]
  | some a =>
    have hsame := (edgesOnly_addEdge f a b).sameCode
    simp [addEdges, linkAll, runsOn, foldl_map, hsame.blk, hsame.jumpTgts_eq]

lemma addEdges_eq (bs : List BlkId) (before : Option BlkId) (f : Fn) :
  addEdges bs before f = (linkAll f (edgeList f bs before), runsOut f bs before) := by
  induction bs generalizing before f with
  | nil => rfl
  | cons b bs ih =>
    have hsame := (edgesOnly_linkAll f (before.toList.map (·, b) ++
      (jumpTgts f (f.blk b).code).1.map (b, ·))).sameCode
    rw [addEdges_cons, ih, edgeList_congr hsame, runsOut_congr hsame, runsOut_cons, edgeList,
      ← linkAll_append]

lemma edgeList_lt (hbs : ∀ b ∈ bs, b < f.blks.size) (hbef : ∀ a ∈ before, a < f.blks.size)
  (htgt : ∀ b ∈ bs, ∀ t ∈ (jumpTgts f (f.blk b).code).1, t < f.blks.size) :
  ∀ e ∈ edgeList f bs before, e.1 < f.blks.size ∧ e.2 < f.blks.size := by
  induction bs generalizing before with
  | nil => simp [edgeList]
  | cons b bs ih =>
    intro e he
    have hb := hbs b (.head _)
    simp only [edgeList, mem_append, mem_map, Option.mem_toList] at he
    rcases he with (⟨a, ha, rfl⟩ | ⟨t, ht, rfl⟩) | he
    · exact ⟨hbef a ha, hb⟩
    · exact ⟨hb, htgt b (.head _) t ht⟩
    · exact ih (fun c hc => hbs c (.tail _ hc)) (fun a ha => eq_of_mem_runsOn ha ▸ hb)
        (fun c hc => htgt c (.tail _ hc)) e he

/-- A block that is not laid out has an edge only if control comes from it at the start. -/
lemma edgeList_filter_of_notMem (before : Option BlkId) (ha : a ∉ bs) :
  ((edgeList f bs before).filter fun e => e.1 == a).map Prod.snd =
    if before = some a then bs.head?.toList else [] := by
  induction bs generalizing before with
  | nil => simp [edgeList]
  | cons b bs ih =>
    rw [mem_cons, not_or] at ha
    have hne : runsOn f b ≠ some a := fun h => ha.1 (eq_of_mem_runsOn h)
    rw [edgeList, filter_append, map_append, ih _ ha.2, if_neg hne]
    cases before with
    | none => simp [Ne.symm ha.1]
    | some c => by_cases hc : c = a <;> simp [Ne.symm ha.1, hc]

lemma edgeList_filter (hnd : bs.Nodup) (hbef : ∀ c ∈ before, c ∉ bs) (ha : a ∈ bs) :
  ((edgeList f bs before).filter fun e => e.1 == a).map Prod.snd =
    (jumpTgts f (f.blk a).code).1 ++ if (jumpTgts f (f.blk a).code).2 then
        (bs.dropWhile (· != a)).tail.head?.toList else [] := by
  induction bs generalizing before with
  | nil => simp at ha
  | cons b bs ih =>
    obtain ⟨hb, hnd⟩ := nodup_cons.1 hnd
    have hfst : ((before.toList.map (·, b)).filter fun e => e.1 == a) = [] := by
      cases before with
      | none => rfl
      | some c =>
        have hca : c ≠ a := fun h => hbef c rfl (h ▸ ha)
        simp [hca]
    rw [edgeList, filter_append, filter_append, hfst, map_append]
    by_cases hab : b = a
    · subst hab
      rw [edgeList_filter_of_notMem _ hb, runsOn]
      cases (jumpTgts f (f.blk b).code).2 <;> simp [filter_map, Function.comp_def]
    · have hmem : a ∈ bs := (mem_cons.1 ha).resolve_left (Ne.symm hab)
      rw [ih hnd (fun c hc => eq_of_mem_runsOn hc ▸ hb) hmem]
      simp [hab]

/-! ## Linked functions -/

/-- Every edge is recorded as often where it ends as where it starts. -/
def Paired (f : Fn) : Prop := ∀ a b, (f.blk b).preds.count a = (f.blk a).succs.count b

/-- The edges of the blocks `live` agree with their code: one leads to each target of the instruction
that ends a block, and one more if control may run on. Edges stay in `live`, and jump tables exist. -/
structure Linked (f : Fn) (live : List BlkId) : Prop where
  lt : ∀ b : Nat, b ∈ live → b < f.blks.size
  ends : ∀ b ∈ live, ∀ i ∈ (f.blk b).code.dropLast, (f.ins i).op.isTerm = false
  succs : ∀ b ∈ live, ∃ ns, (f.blk b).succs = (jumpTgts f (f.blk b).code).1 ++ ns ∧
    ns.length = if (jumpTgts f (f.blk b).code).2 then 1 else 0
  inside : ∀ b ∈ live, ∀ s ∈ (f.blk b).succs, s ∈ live
  outside : ∀ b, b ∉ live → (f.blk b).succs = []
  paired : Paired f
  tables : HasTables f live

def linkUp (f : Fn) : Fn := linkAll f (edgeList f f.order none)
lemma edgesOnly_linkUp (f : Fn) : EdgesOnly f (linkUp f) := edgesOnly_linkAll f _
lemma sameCode_linkUp (f : Fn) : SameCode f (linkUp f) := (edgesOnly_linkUp f).sameCode

/-- A function whose blocks have been split but not yet linked. -/
structure Cut (f : Fn) : Prop where
  lt : ∀ b : Nat, b ∈ f.order → b < f.blks.size
  nodup : f.order.Nodup
  loose : ∀ b, (f.blk b).succs = [] ∧ (f.blk b).preds = []
  ends : ∀ b ∈ f.order, ∀ i ∈ (f.blk b).code.dropLast, (f.ins i).op.isTerm = false
  tgt : ∀ b ∈ f.order, ∀ t ∈ (jumpTgts f (f.blk b).code).1, t ∈ f.order
  tables : HasTables f f.order

/-- Control does not run out of the last block either. -/
structure Trimmed (f : Fn) : Prop extends Cut f where
  closed : runsOut f f.order none = none

lemma last_or_next {code : List InsId}
  (hends : ∀ j ∈ code.dropLast, (f.ins j).op.isTerm = false) (hsuffix : i :: is <:+ code) :
  is = [] ∧ code.getLast? = some i ∨ is ≠ [] ∧ (f.ins i).ctrl = .next := by
  obtain ⟨js, rfl⟩ := hsuffix
  cases is with
  | nil => exact .inl ⟨rfl, by simp⟩
  | cons k ks =>
    refine .inr ⟨by simp, Ins.ctl_eq_next (hends i ?_)⟩
    simp

section
variable (h : Cut f)
include h

lemma Cut.edgeList_lt : ∀ e ∈ edgeList f f.order none, e.1 < f.blks.size ∧ e.2 < f.blks.size :=
  IR.edgeList_lt h.lt (by simp) fun c hc t ht => h.lt t (h.tgt c hc t ht)

lemma Cut.succs_eq (hb : b ∈ f.order) : ((linkUp f).blk b).succs = (jumpTgts f (f.blk b).code).1 ++
    if (jumpTgts f (f.blk b).code).2 then (f.following b).head?.toList else [] := by
  rw [linkUp, succs_linkAll fun e he => (h.edgeList_lt e he).1, (h.loose b).1, nil_append,
    edgeList_filter h.nodup (by simp) hb, following]

lemma Cut.outside (hb : b ∉ f.order) : ((linkUp f).blk b).succs = [] := by
  rw [linkUp, succs_linkAll fun e he => (h.edgeList_lt e he).1, (h.loose b).1,
    edgeList_filter_of_notMem none hb]
  rfl

lemma Cut.inside (hb : b ∈ f.order) (ht : t ∈ ((linkUp f).blk b).succs) : t ∈ f.order := by
  rw [h.succs_eq hb, mem_append] at ht
  rcases ht with ht | ht
  · exact h.tgt b hb t ht
  · split at ht
    · exact mem_of_mem_following (mem_of_mem_head? (Option.mem_toList.1 ht))
    · simp at ht

lemma Cut.paired : Paired (linkUp f) := by
  intro a b
  have hlt := h.edgeList_lt
  rw [linkUp, succs_linkAll (fun e he => (hlt e he).1), preds_linkAll (fun e he => (hlt e he).2),
    (h.loose a).1, (h.loose b).2]
  simp [List.count, countP_filter, Bool.and_comm]

end

namespace Trimmed
section
variable (h : Trimmed f)
include h

lemma following_ne_nil (hb : b ∈ f.order) (hthrough : (jumpTgts f (f.blk b).code).2) :
  f.following b ≠ [] := by
  intro hnil
  obtain ⟨bs, hord⟩ := order_eq_append hb
  have hclosed := h.closed
  rw [hord, hnil, runsOut] at hclosed
  simp [runsOn, hthrough] at hclosed

lemma linked : Linked (linkUp f) f.order := by
  have hsame := sameCode_linkUp f
  refine ⟨fun b hb => hsame.size ▸ h.lt b hb, ?_, ?_, fun _ hb _ => h.inside hb,
    fun _ => h.outside, h.paired, ?_⟩
  · intro b hb i hi
    rw [hsame.blk] at hi
    rw [hsame.ins_eq]
    exact h.ends b hb i hi
  · intro b hb
    rw [hsame.blk, hsame.jumpTgts_eq]
    refine ⟨_, h.succs_eq hb, ?_⟩
    split
    · rename_i hthrough
      obtain ⟨n, ns, hnext⟩ := exists_cons_of_ne_nil (h.following_ne_nil hb hthrough)
      simp [hnext]
    · rfl
  · intro b hb i hi x t ht
    rw [hsame.blk] at hi
    rw [hsame.ins_eq] at ht
    rw [hsame.tables]
    exact h.tables b hb i hi x t ht

lemma initEdges_eq {u : PUnit} (hrun : initEdges.run f = .ok (u, g)) : g = linkUp f := by
  simp only [initEdges, run_bind_ok] at hrun
  obtain ⟨_, _, ⟨rfl, rfl⟩, hrun⟩ := hrun
  rw [addEdges_eq, h.closed] at hrun
  simp only [run_set_ok] at hrun
  obtain ⟨-, _, rfl, -, rfl⟩ := hrun
  rfl

end

/-! ## The graph reading of a linked function -/

/-- Where the linear reading is when the graph reading is at some spot. -/
inductive Follows (f : Fn) : Fn.Point → Fn.Spot → Prop
  | inside {b : BlkId} {c : List InsId} (hb : b ∈ f.order) (hc : c <:+ (f.blk b).code)
      (hend : c = [] → jumpTgts f (f.blk b).code = ([], true)) :
      Follows f ⟨c, f.following b⟩ ⟨b, c⟩
  | before {b : BlkId} (hb : b ∈ f.order) : Follows f ⟨[], b :: f.following b⟩ ⟨b, (f.blk b).code⟩
  /-- The graph reading leaves the block of an unconditional branch in two moves. -/
  | jumping {b t : BlkId} {i : InsId} (hb : b ∈ f.order) (hi : (f.blk b).code.getLast? = some i)
      (ht : (f.ins i).ctrl = .jump t) : Follows f ⟨[i], f.following b⟩ ⟨b, []⟩

lemma Follows.enter (hb : b ∈ f.order) :
  Follows f ⟨(f.blk b).code, f.following b⟩ ((linkUp f).enter b) := by
  rw [Fn.enter, (sameCode_linkUp f).blk]
  refine .inside hb (suffix_refl _) fun hnil => ?_
  rw [hnil]
  rfl

lemma rel_enter (hb : b ∈ f.order) :
  Option.Rel (Follows f) (f.pointAt b) (some ((linkUp f).enter b)) := by
  rw [pointAt, if_pos hb]
  exact .some (.enter hb)

lemma rel_along (ht : t ∈ f.order) (hs : t ∈ ((linkUp f).blk b).succs) :
  Option.Rel (Follows f) (f.pointAt t) ((linkUp f).along b t) := by
  rw [along, if_pos hs]
  exact rel_enter ht

section
variable (h : Trimmed f) (hb : b ∈ f.order)
include h hb

lemma agree_jumping (hi : (f.blk b).code.getLast? = some i) (ht : (f.ins i).ctrl = .jump t) :
  (f.linearStep ⟨[i], f.following b⟩).Agree (Follows f) ((linkUp f).graphStep ⟨b, []⟩) := by
  have hjump : jumpTgts f (f.blk b).code = ([t], false) := by
    rw [jumpTgts_eq, hi, Option.map_some, ht]
  have hsuc := h.succs_eq hb
  rw [hjump] at hsuc
  simp only [linearStep, ht, graphStep, hsuc]
  exact .silent (rel_enter (h.tgt b hb t (by rw [hjump]; exact .head _)))

lemma agree_nil (hend : jumpTgts f (f.blk b).code = ([], true)) :
  (f.linearStep ⟨[], f.following b⟩).Agree (Follows f) ((linkUp f).graphStep ⟨b, []⟩) := by
  obtain ⟨n, ns, hnext⟩ := exists_cons_of_ne_nil (h.following_ne_nil hb (by rw [hend]))
  have hsuc := h.succs_eq hb
  rw [hend, hnext] at hsuc
  have hn : n ∈ f.order := mem_of_mem_following (hnext ▸ mem_cons_self)
  rw [hnext, ← following_of_following h.nodup hb hnext]
  simp only [graphStep, hsuc]
  exact .silent (.some (.enter hn))

lemma agree_cons (hc : i :: is <:+ (f.blk b).code) (hjump : ∀ t, (f.ins i).ctrl ≠ .jump t) :
  (f.linearStep ⟨i :: is, f.following b⟩).Agree (Follows f)
    ((linkUp f).graphStep ⟨b, i :: is⟩) := by
  have hsame := sameCode_linkUp f
  have hevent : (linkUp f).event i = f.event i := by rw [event, event, hsame.ins_eq]
  have hsuffix : is <:+ (f.blk b).code := (suffix_cons i is).trans hc
  have hsuc := h.succs_eq hb
  have htgt := h.tgt b hb
  rw [jumpTgts_eq] at hsuc htgt
  rcases last_or_next (h.ends b hb) hc with ⟨rfl, hlast⟩ | ⟨hne, hnext⟩
  · rw [hlast, Option.map_some] at hsuc htgt
    simp only [linearStep, graphStep, hsame.ins_eq, hevent, hsame.table_eq]
    cases hcon : (f.ins i).ctrl with
    | next =>
      refine .emit fun _ => .some (.inside hb hsuffix fun _ => ?_)
      rw [jumpTgts_eq, hlast, Option.map_some, hcon]
    | stop => exact .emit fun _ => .none
    | jump t => exact absurd hcon (hjump t)
    | branch op x y t =>
      -- If the condition fails, control runs on into the next block.
      have hthrough : (jumpTgts f (f.blk b).code).2 := by
        rw [jumpTgts_eq, hlast, Option.map_some, hcon]
      obtain ⟨n, ns, hnext⟩ := exists_cons_of_ne_nil (h.following_ne_nil hb hthrough)
      have hn : n ∈ f.order := mem_of_mem_following (hnext ▸ mem_cons_self)
      rw [hcon, hnext] at hsuc
      rw [hcon] at htgt
      have hoth : (linkUp f).otherSucc b t = n := by
        rw [otherSucc, hsuc]
        by_cases htn : t = n <;> simp
      refine .emit fun o => ?_
      by_cases ho : o.holds op x y
      · rw [if_pos ho, if_pos ho]
        exact rel_along (htgt t (.head _)) (by simp [hsuc])
      · rw [if_neg ho, if_neg ho, hoth, along, if_pos (by simp [hsuc]), hnext,
          ← following_of_following h.nodup hb hnext, enter, hsame.blk]
        exact .some (.before hn)
    | select x t =>
      rw [hcon] at hsuc htgt
      refine .emit fun o => rel_along (htgt _ (JumpTable.tgt_mem _ _)) ?_
      rw [hsuc]
      exact mem_append_left _ (JumpTable.tgt_mem _ _)
  · simp only [linearStep, graphStep, hsame.ins_eq, hevent, hnext]
    exact .emit fun _ => .some (.inside hb hsuffix fun hnil => absurd hnil hne)

lemma answered_inside {c : List InsId}
  (hc : c <:+ (f.blk b).code) (hend : c = [] → jumpTgts f (f.blk b).code = ([], true)) :
  Answered f.linearStep (linkUp f).graphStep (Follows f) ⟨c, f.following b⟩ ⟨b, c⟩ ∧ Answered
  (linkUp f).graphStep f.linearStep (fun s p => Follows f p s) ⟨b, c⟩ ⟨c, f.following b⟩ := by
  cases c with
  | nil =>
    have hagree := h.agree_nil hb (hend rfl)
    exact ⟨.of_agree hagree, .of_agree hagree.flip⟩
  | cons i is =>
    by_cases hjump : ∃ t, (f.ins i).ctrl = .jump t
    · obtain ⟨t, ht⟩ := hjump
      have hgo : (linkUp f).graphStep ⟨b, i :: is⟩ = .silent (some ⟨b, is⟩) := by
        simp only [graphStep, (sameCode_linkUp f).ins_eq, ht]
      rcases last_or_next (h.ends b hb) hc with ⟨rfl, hlast⟩ | ⟨-, hnext⟩
      · exact ⟨.of_quiet (.single hgo) (.of_agree (h.agree_jumping hb hlast ht)),
          .of_silent hgo (.jumping hb hlast ht)⟩
      · rw [hnext] at ht
        cases ht
    · have hagree := h.agree_cons hb hc (not_exists.1 hjump)
      exact ⟨.of_agree hagree, .of_agree hagree.flip⟩

end

/-- Following the edges of a linked function is the same as running through its blocks. -/
lemma sameTraces (h : Trimmed f) (hb : f.order.head? = some b) : SameTraces f.linearStep
  (some f.linearStart) (linkUp f).graphStep (some ((linkUp f).enter b)) := by
  obtain ⟨bs, hord⟩ := head?_eq_some_iff.1 hb
  have hmem : b ∈ f.order := hord ▸ mem_cons_self
  have hsta : Follows f f.linearStart ((linkUp f).enter b) := by
    have hfollow : f.following b = bs := @Fn.following_of_append b f [] bs h.nodup hord
    rw [linearStart, hord, ← hfollow, enter, (sameCode_linkUp f).blk]
    exact .before hmem
  constructor
  · refine (Simulation.of_answered fun p s hps => ?_).refines hsta
    cases hps with
    | inside hb hc hend => exact (h.answered_inside hb hc hend).1
    | jumping hb hi ht => exact .of_agree (h.agree_jumping hb hi ht)
    | before hb =>
      refine .of_silent rfl (.inside hb (suffix_refl _) fun hnil => ?_)
      rw [hnil]
      rfl
  · refine (Simulation.of_answered (R := fun s p => Follows f p s) fun s p hps => ?_).refines hsta
    cases hps with
    | inside hb hc hend => exact (h.answered_inside hb hc hend).2
    | jumping hb hi ht => exact .of_agree (h.agree_jumping hb hi ht).flip
    | before hb =>
      refine .of_quiet (.single rfl) (h.answered_inside hb (suffix_refl _) fun hnil => ?_).2
      rw [hnil]
      rfl

end Trimmed
end Retarget.IR
