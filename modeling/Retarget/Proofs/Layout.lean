import Retarget.Proofs.Placement

/-!
# Laying out a function

`addBranches` places one block after the other. Placing one does nothing to the others, so every
block is placed as if it were the only one, and the function can be laid out if each of its blocks
can be placed.
-/

namespace Retarget.IR
open Pass Trace List

/-! ## Blocks that stay the same -/

namespace SameBlk
variable {b : BlkId} {f g k : Fn} {i : InsId}

lemma symm (h : SameBlk f g b) : SameBlk g f b :=
  ⟨h.code.symm, h.succs.symm, fun i hi => (h.ins i (h.code ▸ hi)).symm⟩

lemma trans (h1 : SameBlk f g b) (h2 : SameBlk g k b) : SameBlk f k b :=
  ⟨h2.code.trans h1.code, h2.succs.trans h1.succs,
    fun i hi => (h2.ins i (h1.code.symm ▸ hi)).trans (h1.ins i hi)⟩

section
variable (h : SameBlk f g b)
include h

lemma ins_of_last (hi : (f.blk b).code.getLast? = some i) :
  g.ins i = f.ins i := h.ins i (mem_of_getLast? hi)

lemma inner (hin : ∀ j ∈ (f.blk b).code.dropLast, (f.ins j).op.isTerm = false) :
  ∀ j ∈ (g.blk b).code.dropLast, (g.ins j).op.isTerm = false := by
  intro j hj
  rw [h.code] at hj
  rw [h.ins j ((dropLast_sublist _).mem hj)]
  exact hin j hj

lemma leaves (hlvs : f.Leaves b i) : g.Leaves b i :=
  ⟨h.code ▸ hlvs.last, h.inner hlvs.inner, h.ins_of_last hlvs.last ▸ h.succs ▸ hlvs.fam⟩

lemma runsOn {s : BlkId} (hruns : f.RunsOn b s) : g.RunsOn b s := by
  refine ⟨h.succs ▸ hruns.succs, fun j hj => ?_⟩
  rw [h.code] at hj
  rw [h.ins j hj]
  exact hruns.inner j hj

lemma forks {op : Op} {x y : Opnd} {t n : BlkId} (hfks : f.Forks b i op x y t n) :
  g.Forks b i op x y t n :=
  ⟨h.code ▸ hfks.last, h.inner hfks.inner, hfks.fam,
    h.ins_of_last hfks.last ▸ hfks.op, h.ins_of_last hfks.last ▸ hfks.args,
    h.succs ▸ hfks.succs⟩

lemma ends (hends : f.Ends b) : g.Ends b := by
  rcases hends with ⟨i, hlvs⟩ | ⟨s, hruns⟩ | ⟨i, op, x, y, t, n, hfks⟩
  · exact .inl ⟨i, h.leaves hlvs⟩
  · exact .inr (.inl ⟨s, h.runsOn hruns⟩)
  · exact .inr (.inr ⟨i, op, x, y, t, n, h.forks hfks⟩)

end
end SameBlk

lemma Framed.sameBlk {is : List InsId} (h : Framed f g bs is) (hc : c < f.blks.size) (hbs : c ∉ bs)
  (hcode : ∀ i : Nat, i ∈ (f.blk c).code → i < f.code.size ∧ i ∉ is) : SameBlk f g c :=
  ⟨h.code c hc hbs, h.succs c hc hbs, fun i hi => h.ins i (hcode i hi).1 (hcode i hi).2⟩

namespace Placed
variable {f g k : Fn} {b : BlkId} {next : Option BlkId} {here : List BlkId}

section
variable (h : Placed f g b next here)
include h

lemma head? : here.head? = some b := by cases h <;> rfl

lemma mem_here (hc : c ∈ here) : (c = b ∨ f.blks.size ≤ c ∧ c < g.blks.size) ∧
  ∀ i : Nat, i ∈ (g.blk c).code → i ∈ (f.blk b).code ∨ f.code.size ≤ i ∧ i < g.code.size := by
  have hsame : SameBlk f g b → ∀ i : Nat, i ∈ (g.blk b).code → i ∈ (f.blk b).code ∨
      f.code.size ≤ i ∧ i < g.code.size := fun hs i hi => .inl (hs.code ▸ hi)
  cases h with
  | leaves _ same | follows _ _ same | falls _ _ same =>
    obtain rfl := mem_singleton.1 hc
    exact ⟨.inl rfl, hsame same⟩
  | jumps _ hj code _ _ _ =>
    obtain rfl := mem_singleton.1 hc
    refine ⟨.inl rfl, fun i hi => ?_⟩
    rw [code, mem_append, mem_singleton] at hi
    rcases hi with hi | rfl
    · exact .inl hi
    · exact .inr hj
  | flips _ _ _ turned =>
    obtain rfl := mem_singleton.1 hc
    exact ⟨.inl rfl, fun i hi => .inl (turned.code ▸ hi)⟩
  | splits _ hc' hj _ turned relays =>
    rcases mem_cons.1 hc with rfl | hc
    · exact ⟨.inl rfl, fun i hi => .inl (turned.code ▸ hi)⟩
    · obtain rfl := mem_singleton.1 hc
      refine ⟨.inr hc', fun i hi => ?_⟩
      rw [relays.code, mem_singleton] at hi
      exact .inr (hi ▸ hj)

lemma nodup (hb : b < f.blks.size) : here.Nodup := by
  cases h with
  | splits _ hc =>
    have hne : b ≠ _ := (hb.trans_le hc.1).ne
    simpa using hne
  | _ => simp

lemma new_name (hsize : g.blks.size + 1 = f.blks.size + here.length) {a : Nat}
  (ha : f.blks.size ≤ a) (ha' : a < g.blks.size) :
  ∃ m : Nat, (g.blk a).name = (f.blk b).name ++ "bra" ++ decimal m := by
  cases h with
  | @splits i op x y t n c j _ hc _ name =>
    have hlen : [b, (c : BlkId)].length = 2 := rfl
    obtain rfl : a = c := by omega
    exact name
  | _ =>
    have hlen : [b].length = 1 := rfl
    omega

end

lemma of_same (hs : SameBlk f k b) (hname : (k.blk b).name = (f.blk b).name)
  (hbks : f.blks.size ≤ k.blks.size) (hsites : f.code.size ≤ k.code.size)
  (h : Placed k g b next here) : Placed f g b next here := by
  cases h with
  | leaves h same => exact .leaves (hs.symm.leaves h) (hs.trans same)
  | follows h hnext same => exact .follows (hs.symm.runsOn h) hnext (hs.trans same)
  | jumps h hj code succs ins jump =>
    refine .jumps (hs.symm.runsOn h) ⟨hsites.trans hj.1, hj.2⟩ (hs.code ▸ code) succs
      (fun i hi => ?_) jump
    rw [ins i (hs.code.symm ▸ hi), hs.ins i hi]
  | falls h hnext same => exact .falls (hs.symm.forks h) hnext (hs.trans same)
  | flips h hnext opposite turned =>
    refine .flips (hs.symm.forks h) hnext opposite ⟨turned.code.trans hs.code, turned.succs,
      fun j hj => ?_, turned.op, turned.args⟩
    rw [turned.ins j (hs.code.symm ▸ hj), hs.ins j ((dropLast_sublist _).mem hj)]
  | splits h hc hj name turned relays =>
    refine .splits (hs.symm.forks h) ⟨hbks.trans hc.1, hc.2⟩ ⟨hsites.trans hj.1, hj.2⟩ (hname ▸
      name) ⟨turned.code.trans hs.code, turned.succs, fun j hj => ?_, turned.op, turned.args⟩ relays
    rw [turned.ins j (hs.code.symm ▸ hj), hs.ins j ((dropLast_sublist _).mem hj)]

/-- What happens later does not matter if the blocks stay the same. -/
lemma trans_same (h : Placed f g b next here) (hs : ∀ c ∈ here, SameBlk g k c)
  (hname : ∀ c, c < g.blks.size → (k.blk c).name = (g.blk c).name)
  (hbks : g.blks.size ≤ k.blks.size) (hsites : g.code.size ≤ k.code.size) :
  Placed f k b next here := by
  have hturned : ∀ {i op x y t ss}, (f.blk b).code.getLast? = some i → SameBlk g k b →
      Turned f g b i op x y t ss → Turned f k b i op x y t ss := by
    intro i op x y t ss hlast hb turned
    have hins : k.ins i = g.ins i := hb.ins i (turned.code.symm ▸ mem_of_getLast? hlast)
    refine ⟨hb.code.trans turned.code, hb.succs.trans turned.succs, fun j hj => ?_,
      hins ▸ turned.op, hins ▸ turned.args⟩
    rw [hb.ins j (turned.code.symm ▸ (dropLast_sublist _).mem hj), turned.ins j hj]
  cases h with
  | leaves h same => exact .leaves h (same.trans (hs b (.head _)))
  | follows h hnext same => exact .follows h hnext (same.trans (hs b (.head _)))
  | jumps h hj code succs ins jump =>
    have hb := hs b (.head _)
    refine .jumps h ⟨hj.1, hj.2.trans_le hsites⟩ (hb.code.trans code)
      (hb.succs.trans succs) (fun i hi => ?_) ?_
    · rw [hb.ins i (by rw [code]; exact mem_append_left _ hi), ins i hi]
    · rw [hb.ins _ (by rw [code]; simp), jump]
  | falls h hnext same => exact .falls h hnext (same.trans (hs b (.head _)))
  | flips h hnext opposite turned =>
    exact .flips h hnext opposite (hturned h.last (hs b (.head _)) turned)
  | splits h hc hj name turned relays =>
    have hc' := hs _ (.tail _ (.head _))
    refine .splits h ⟨hc.1, hc.2.trans_le hbks⟩ ⟨hj.1, hj.2.trans_le hsites⟩ (hname _ hc.2 ▸ name)
      (hturned h.last (hs b (.head _)) turned) ⟨hc'.code.trans relays.code, hc'.succs.trans
      relays.succs, ?_⟩
    rw [hc'.ins _ (by rw [relays.code]; exact .head _), relays.jump]

end Placed

/-! ## All blocks -/

/-- What has become of the blocks `bs`, one after the other. -/
inductive Laid (f g : Fn) : List BlkId → List BlkId → Prop where
  | nil : Laid f g [] []
  | cons {b : BlkId} {bs here cs : List BlkId} (h : Placed f g b bs.head? here)
      (rest : Laid f g bs cs) : Laid f g (b :: bs) (here ++ cs)

namespace Laid
variable {f g : Fn} {bs cs : List BlkId}

lemma head? (h : Laid f g bs cs) : cs.head? = bs.head? := by
  cases h with
  | nil => rfl
  | cons h _ => rw [head?_append, h.head?]; rfl

lemma mem_or_new (h : Laid f g bs cs) (hc : c ∈ cs) :
  c ∈ bs ∨ f.blks.size ≤ c ∧ c < g.blks.size := by
  induction h with
  | nil => cases hc
  | cons h _ ih =>
    rcases mem_append.1 hc with hc | hc
    · rcases (h.mem_here hc).1 with rfl | hnew
      · exact .inl (.head _)
      · exact .inr hnew
    · exact (ih hc).imp_left (mem_cons_of_mem _)

lemma exists_placed (h : Laid f g bs cs) (hb : b ∈ bs) :
  ∃ here pre post, cs = pre ++ (here ++ post) ∧ Placed f g b post.head? here := by
  induction h with
  | nil => cases hb
  | @cons a bs here cs h rest ih =>
    rcases mem_cons.1 hb with rfl | hb
    · exact ⟨here, [], cs, rfl, rest.head?.symm ▸ h⟩
    · obtain ⟨here', pre, post, rfl, hpl⟩ := ih hb
      exact ⟨here', here ++ pre, post, by rw [append_assoc], hpl⟩

end Laid

namespace Ready
variable {f k : Fn} {b : Nat} {bs : List BlkId}

lemma head (h : Ready f (b :: bs)) : Ready f [b] where
  lt a ha := h.lt a (by rw [mem_singleton.1 ha]; exact .head _)
  inside a ha := h.inside a (by rw [mem_singleton.1 ha]; exact .head _)
  sites a ha := h.sites a (by rw [mem_singleton.1 ha]; exact .head _)
  nodup := by simp
  once := by
    have honce := h.once
    rw [flatMap_cons, nodup_append] at honce
    simpa using honce.1
  ends a ha := h.ends a (by rw [mem_singleton.1 ha]; exact .head _)
  paired := h.paired

section
variable (h : Ready f (b :: bs)) (hk : Framed f k [b] (f.blk b).code)
include h hk

lemma sameBlk {c : BlkId} (hc : c ∈ bs) : SameBlk f k c := by
  have hmem := mem_cons_of_mem b hc
  have honce := h.once
  rw [flatMap_cons, nodup_append] at honce
  refine hk.sameBlk (h.lt c hmem) ?_ fun i hi => ⟨h.sites c hmem i hi, fun hib => ?_⟩
  · intro hcb
    rw [mem_singleton] at hcb
    exact (nodup_cons.1 h.nodup).1 (hcb ▸ hc)
  · exact honce.2.2 i hib i (mem_flatMap.2 ⟨c, hc, hi⟩) rfl

lemma tail (hpr : Paired k) : Ready k bs where
  lt c hc := (h.lt c (.tail _ hc)).trans_le hk.blks
  inside c hc s hs := by
    rw [(h.sameBlk hk hc).succs] at hs
    exact (h.inside c (.tail _ hc) s hs).trans_le hk.blks
  sites c hc i hi := by
    rw [(h.sameBlk hk hc).code] at hi
    exact (h.sites c (.tail _ hc) i hi).trans_le hk.sites
  nodup := (nodup_cons.1 h.nodup).2
  once := by
    have honce := h.once
    rw [flatMap_cons, nodup_append] at honce
    have hcode : (bs.flatMap fun c => (k.blk c).code) = bs.flatMap fun c => (f.blk c).code := by
      rw [flatMap_def, flatMap_def, map_congr_left fun c hc => (h.sameBlk hk hc).code]
    rw [hcode]
    exact honce.2.1
  ends c hc := (h.sameBlk hk hc).ends (h.ends c (.tail _ hc))
  paired := hpr

end
end Ready

lemma layOutBlks_cons_ok : (layOutBlks (b :: bs)).run f = .ok (cs, g) ↔
  ∃ here k rest, (layOutBlk b bs.head?).run f = .ok (here, k) ∧
    (layOutBlks bs).run k = .ok (rest, g) ∧ cs = here ++ rest := by
  simp only [layOutBlks, run_bind_ok, run_pure_ok]
  constructor
  · rintro ⟨here, k, hhere, rest, _, hrest, rfl, rfl⟩
    exact ⟨here, k, rest, hhere, hrest, rfl⟩
  · rintro ⟨here, k, rest, hhere, hrest, rfl⟩
    exact ⟨here, k, hhere, rest, g, hrest, rfl, rfl⟩

lemma Laid.of_same (h : Laid k g bs cs)
  (hs : ∀ b ∈ bs, SameBlk f k b) (hname : ∀ b ∈ bs, (k.blk b).name = (f.blk b).name)
  (hbks : f.blks.size ≤ k.blks.size) (hsites : f.code.size ≤ k.code.size) : Laid f g bs cs := by
  induction h with
  | nil => exact .nil
  | cons h rest ih =>
    exact .cons (.of_same (hs _ (.head _)) (hname _ (.head _)) hbks hsites h)
      (ih (fun b hb => hs b (.tail _ hb)) fun b hb => hname b (.tail _ hb))

lemma layOutBlks_laid (hf : Ready f bs) (h : (layOutBlks bs).run f = .ok (cs, g)) :
  Laid f g bs cs ∧ Framed f g bs (bs.flatMap fun b => (f.blk b).code) ∧ Paired g ∧
    cs.Nodup ∧ g.blks.size + bs.length = f.blks.size + cs.length := by
  induction bs generalizing f cs with
  | nil =>
    obtain ⟨rfl, rfl⟩ := run_pure_ok.1 h
    exact ⟨.nil, .refl _ _ _, hf.paired, nodup_nil, rfl⟩
  | cons b bs ih =>
    obtain ⟨here, k, rest, hhere, hrest, rfl⟩ := layOutBlks_cons_ok.1 h
    obtain ⟨hpl, hfr, hpr, hsize⟩ := layOutBlk_spec hf.head hhere
    obtain ⟨hlaid, hfr', hpr', hnd, hsize'⟩ := ih (hf.tail hfr hpr) hrest
    have hsame : ∀ c ∈ bs, SameBlk f k c := fun c hc => hf.sameBlk hfr hc
    have hb : b ∉ bs := (nodup_cons.1 hf.nodup).1
    have hcodes : (bs.flatMap fun c => (k.blk c).code) = bs.flatMap fun c => (f.blk c).code := by
      rw [flatMap_def, flatMap_def, map_congr_left fun c hc => (hsame c hc).code]
    rw [hcodes] at hfr'
    have honce := hf.once
    rw [flatMap_cons, nodup_append] at honce
    -- What has just been placed is out of reach of what comes later.
    have hkept : ∀ c ∈ here, SameBlk k g c := by
      intro c hc
      obtain ⟨hwhere, hcode⟩ := hpl.mem_here hc
      have hblt : b < k.blks.size := (hf.lt b (.head _)).trans_le hfr.blks
      refine hfr'.sameBlk ?_ ?_ fun i hi => ?_
      · rcases hwhere with rfl | hnew
        · exact hblt
        · exact hnew.2
      · intro hcb
        rcases hwhere with rfl | hnew
        · exact hb hcb
        · exact hnew.1.not_gt (hf.lt c (.tail _ hcb))
      · rcases hcode i hi with hib | hnew
        · refine ⟨(hf.sites b (.head _) i hib).trans_le hfr.sites,
            fun his => honce.2.2 i hib i his rfl⟩
        · refine ⟨hnew.2, fun his => ?_⟩
          obtain ⟨c', hc', hic'⟩ := mem_flatMap.1 his
          exact hnew.1.not_gt (hf.sites c' (.tail _ hc') i hic')
    refine ⟨.cons (hpl.trans_same hkept hfr'.name hfr'.blks hfr'.sites) (hlaid.of_same hsame (fun c
      hc => ?_) hfr.blks hfr.sites), ?_, hpr', ?_, ?_⟩
    · exact hfr.name c (hf.lt c (.tail _ hc))
    · refine (hfr.mono (fun c _ hc => ?_) fun i _ hi => ?_).trans
        (hfr'.mono (fun c _ hc => .tail _ hc) fun i _ hi => ?_)
      · rw [mem_singleton.1 hc]
        exact .head _
      · exact mem_flatMap.2 ⟨b, .head _, hi⟩
      · obtain ⟨c, hc, hi⟩ := mem_flatMap.1 hi
        exact mem_flatMap.2 ⟨c, .tail _ hc, hi⟩
    · refine nodup_append.2 ⟨hpl.nodup (hf.lt b (.head _)), hnd, ?_⟩
      rintro c hc _ hc' rfl
      rcases (hpl.mem_here hc).1 with rfl | hnew <;> rcases hlaid.mem_or_new hc' with hbs | hnew'
      · exact hb hbs
      · exact (hfr.blks.trans hnew'.1).not_gt (hf.lt c (.head _))
      · exact hnew.1.not_gt (hf.lt c (.tail _ hbs))
      · exact hnew'.1.not_gt hnew.2
    · rw [length_append, length_cons]
      omega

/-- Blocks named after another block take no name away. -/
lemma canDerive_iff {b : Nat} {next : Option BlkId} {here : List BlkId} {stem : String}
  (hpl : Placed f k b next here) (hfr : Framed f k [b] (f.blk b).code)
  (hsize : k.blks.size + 1 = f.blks.size + here.length) (hstem : stem ≠ (f.blk b).name) :
  k.CanDerive stem "bra" ↔ f.CanDerive stem "bra" := by
  have hfind : ∀ m : Nat, k.findBlk? (stem ++ "bra" ++ decimal m) = none ↔
      f.findBlk? (stem ++ "bra" ++ decimal m) = none := by
    intro m
    rw [findBlk?_eq_none_iff, findBlk?_eq_none_iff]
    constructor
    · intro h a ha hnmd
      have := h a (ha.trans_le hfr.blks)
      rw [hfr.named a ha, hfr.name a ha] at this
      exact this hnmd
    · intro h a ha hnmd hname
      by_cases hlt : a < f.blks.size
      · rw [hfr.named a hlt] at hnmd
        rw [hfr.name a hlt] at hname
        exact h a hlt hnmd hname
      · obtain ⟨m', hm'⟩ := hpl.new_name hsize (not_lt.1 hlt) ha
        have hsuffix : "bra".toList = ['b', 'r'] ++ ['a'] := rfl
        exact hstem (stem_eq_of_derived hsuffix rfl (hname.symm.trans hm'))
  simp only [Fn.CanDerive, hfind]

lemma layOutBlks_ok_iff (hf : Ready f bs)
  (hnames : ∀ a ∈ bs, ∀ b ∈ bs, (f.blk a).name = (f.blk b).name → a = b) :
  (∃ r, (layOutBlks bs).run f = .ok r) ↔
    ∀ as b rest, bs = as ++ b :: rest → f.CanPlace b rest.head? := by
  induction bs generalizing f with
  | nil => exact ⟨fun _ as b rest h => by simp at h, fun _ => ⟨([], f), rfl⟩⟩
  | cons b bs ih =>
    rw [forall_append_cons fun b rest => f.CanPlace b rest.head?, ← layOutBlk_ok_iff hf.head]
    -- Whatever the first block becomes, the others need the same as before.
    have hrest : ∀ here k, (layOutBlk b bs.head?).run f = .ok (here, k) →
        ((∃ r, (layOutBlks bs).run k = .ok r) ↔
          ∀ as c rest, bs = as ++ c :: rest → f.CanPlace c rest.head?) := by
      intro here k hhere
      obtain ⟨hpl, hfr, hpr, hsize⟩ := layOutBlk_spec hf.head hhere
      have hname : ∀ c ∈ bs, (k.blk c).name = (f.blk c).name := fun c hc =>
        hfr.name c (hf.lt c (.tail _ hc))
      rw [ih (hf.tail hfr hpr) fun a ha c hc hac => hnames a (.tail _ ha) c
        (.tail _ hc) (by rw [← hname a ha, ← hname c hc, hac])]
      refine forall_congr' fun as => forall_congr' fun c => forall_congr' fun rest =>
        forall_congr' fun hbs => ?_
      have hc : c ∈ bs := by rw [hbs]; simp
      have hsame := hf.sameBlk hfr hc
      have hstem : (f.blk c).name ≠ (f.blk b).name := fun h =>
        (nodup_cons.1 hf.nodup).1 (hnames c (.tail _ hc) b (.head _) h ▸ hc)
      simp only [Fn.CanPlace, hname c hc, canDerive_iff hpl hfr hsize hstem]
      exact ⟨fun h i op x y t n hfks => h i op x y t n (hsame.forks hfks),
        fun h i op x y t n hfks => h i op x y t n (hsame.symm.forks hfks)⟩
    constructor
    · rintro ⟨⟨cs, g⟩, h⟩
      obtain ⟨here, k, rest, hhere, hrun, -⟩ := layOutBlks_cons_ok.1 h
      exact ⟨⟨_, hhere⟩, (hrest here k hhere).1 ⟨_, hrun⟩⟩
    · rintro ⟨⟨⟨here, k⟩, hhere⟩, hcan⟩
      obtain ⟨⟨rest, g⟩, hrun⟩ := (hrest here k hhere).2 hcan
      exact ⟨_, layOutBlks_cons_ok.2 ⟨here, k, rest, hhere, hrun, rfl⟩⟩

/-! ## Functions -/

structure Unfolded (f g : Fn) : Prop where
  laid : Laid f g f.order g.order
  framed : Framed f g f.order (f.order.flatMap fun b => (f.blk b).code)
  paired : Paired g
  nodup : g.order.Nodup
  size : g.blks.size + f.order.length = f.blks.size + g.order.length

lemma addBranches_ok : addBranches.run f = .ok (u, g) ↔ ∃ cs k,
  (layOutBlks f.order).run f = .ok (cs, k) ∧ g = { k with order := cs, notLinear := false } := by
  rw [addBranches, run_get_bind]
  simp only [run_bind_ok, run_modify_ok]
  constructor
  · rintro ⟨cs, k, hrun, rfl⟩
    exact ⟨cs, k, hrun, rfl⟩
  · rintro ⟨cs, k, hrun, rfl⟩
    exact ⟨cs, k, hrun, rfl⟩

lemma Laid.trans_same (h : Laid f g bs cs) (hbks : k.blks = g.blks)
  (hcode : k.code = g.code) : Laid f k bs cs := by
  have hblk : ∀ c, k.blk c = g.blk c := fun c => by rw [Fn.blk, Fn.blk, hbks]
  have hsame : ∀ c, SameBlk g k c := fun c =>
    ⟨by rw [hblk], by rw [hblk], fun i _ => by rw [Fn.ins, Fn.ins, hcode]⟩
  induction h with
  | nil => exact .nil
  | cons h _ ih =>
    exact .cons (h.trans_same (fun c _ => hsame c) (fun c _ => by rw [hblk])
      (le_of_eq (by rw [hbks])) (le_of_eq (by rw [hcode]))) ih

namespace Fn.GraphForm
variable {p : Prog} {f g : Fn}

section
variable (hf : f.GraphForm p)
include hf

lemma ready : Ready f f.order where
  lt := hf.linked.lt
  inside b hb s hs := hf.linked.lt s (hf.linked.inside b hb s hs)
  sites := hf.sites
  nodup := hf.nodup
  once := hf.once
  ends _ hb := hf.linked.ends_of_noJumps hf.noJumps hf.shape hb
  paired := hf.linked.paired

lemma names :
  ∀ a ∈ f.order, ∀ b ∈ f.order, (f.blk a).name = (f.blk b).name → a = b := fun a ha b hb =>
  hf.unique a b (hf.linked.lt a ha) (hf.linked.lt b hb) (hf.named a ha) (hf.named b hb)

lemma unfolded (h : addBranches.run f = .ok (u, g)) : Unfolded f g := by
  obtain ⟨cs, k, hrun, rfl⟩ := addBranches_ok.1 h
  obtain ⟨hlaid, hfr, hpr, hnd, hsize⟩ := layOutBlks_laid hf.ready hrun
  exact ⟨hlaid.trans_same rfl rfl, ⟨hfr.kind, hfr.regs, hfr.lits, hfr.tables, hfr.blks, hfr.sites,
    hfr.name, hfr.named, hfr.fresh, hfr.code, hfr.succs, hfr.ins⟩, hpr, hnd, hsize⟩

lemma addBranches_ok_iff : (∃ g, addBranches.run f = .ok ((), g)) ↔
  ∀ as b rest, f.order = as ++ b :: rest → f.CanPlace b rest.head? := by
  rw [← layOutBlks_ok_iff hf.ready hf.names]
  simp only [addBranches_ok]
  constructor
  · rintro ⟨_, cs, k, hrun, -⟩
    exact ⟨_, hrun⟩
  · rintro ⟨⟨cs, k⟩, hrun⟩
    exact ⟨_, cs, k, hrun, rfl⟩

end
end Fn.GraphForm

/-! ## The result is accepted

Control falls through to the next block wherever it is not sent elsewhere, and branches that were
turned round or added are typed and refer to blocks that exist. -/

open Op
variable {b s t : BlkId} {c : Constr} {z : Ins} {i j : InsId} {bs here : List BlkId}
  {is : List InsId} {a : Nat} {op op' : Op} {x x' y y' : Opnd} {next : Option BlkId}
  {p : Prog} {f g : Fn}

/-! ## Typing and references -/

lemma checkTyping_congr (hregs : g.regs = f.regs) (hlits : g.lits = f.lits) (x : Ins) :
  checkTyping g x = checkTyping f x := by
  have hoperands : ∀ ks xs prev, checkOpnds g ks xs prev = checkOpnds f ks xs prev := by
    intro ks
    induction ks with
    | nil => exact fun xs prev => by cases xs <;> rfl
    | cons k ks ih =>
      intro xs prev
      cases xs with
      | nil => rfl
      | cons a xs => simp only [checkOpnds, Fn.kindOf_congr hregs hlits, ih]
  exact hoperands _ _ _

def Fn.Comparable (f : Fn) (c : Constr) (x y : Opnd) : Prop :=
  (x.isReg || x.isLit) ∧ (y.isReg || y.isLit) ∧
    c.holds? .invalid (f.kindOf x) = some true ∧ f.kindOf x = f.kindOf y

lemma checkTyping_branch_iff (hop : z.op.opnds = branch c)
  (hargs : z.args = [x, y, .blk t]) : checkTyping f z = .ok () ↔ f.Comparable c x y := by
  have hplace : ∀ a, fitsPlace .regOrLit a = (a.isReg || a.isLit) := by
    intro a
    cases a <;> rfl
  have htgt : ∀ prev, checkOpnds f [(.blk, .invalid)] [.blk t] prev = .ok () :=
    fun _ => rfl
  rw [checkTyping, hop, hargs, branch, checkOpnds_cons, checkOpnds_cons,
    htgt, Fn.Comparable, hplace, hplace]
  cases x.isReg || x.isLit <;> cases y.isReg || y.isLit <;> simp [Constr.holds?]

lemma Op.opnds_of_condBra (h : op.fam = .condBra) : ∃ c, op.opnds = branch c := by
  cases op with
  | beq | bne => exact ⟨.any, rfl⟩
  | blt | ble => exact ⟨.addrNum, rfl⟩
  | _ => cases h

lemma Opposite.comparable (h : Opposite op x y op' x' y') : ∃ c, op.opnds = branch c ∧
  op'.opnds = branch c ∧ (f.Comparable c x y → f.Comparable c x' y') ∧
  (x' = x ∧ y' = y ∨ x' = y ∧ y' = x) := by
  cases h with
  | beq | bne => exact ⟨.any, rfl, rfl, id, .inl ⟨rfl, rfl⟩⟩
  | blt | ble =>
    refine ⟨.addrNum, rfl, rfl, fun ⟨hx, hy, hkind, hsame⟩ => ⟨hy, hx, ?_, hsame.symm⟩,
      .inr ⟨rfl, rfl⟩⟩
    rw [← hsame]
    exact hkind

lemma checkRef_mono (hregs : g.regs = f.regs)
  (htaken : ∀ b, nameTaken f b → nameTaken g b) {k : OpndKind}
  (h : checkRef p f k x) : checkRef p g k x := by
  cases x with
  | reg r => simpa only [checkRef, Fn.findReg?, Fn.reg, hregs] using h
  | blk b =>
    simp only [checkRef, Bool.and_eq_true] at h ⊢
    exact ⟨h.1, htaken b h.2⟩
  | _ => exact h

lemma Referenced.mono {x : Ins} (hregs : g.regs = f.regs)
  (htaken : ∀ b, nameTaken f b → nameTaken g b) (h : Referenced p f x) :
  Referenced p g x := fun y hy => checkRef_mono hregs htaken (h y hy)

lemma referenced_branch_iff (hop : z.op.opnds = branch c) (hargs : z.args = [x, y, .blk t]) :
  Referenced p f z ↔ checkRef p f .regOrLit x ∧ checkRef p f .regOrLit y ∧ nameTaken f t := by
  have htgt : checkRef p f .blk (.blk t) = nameTaken f t := by simp [checkRef]
  simp only [Referenced, hop, hargs, branch, zip_cons_cons, zip_nil_right,
    forall_mem_cons, not_mem_nil, false_imp_iff, implies_true, and_true, htgt]

lemma referenced_jump (h : nameTaken f t) : Referenced p f (.of .bra [.blk t]) := by
  intro y hy
  obtain rfl : y = (.blk t, .blk, .invalid) := mem_singleton.1 hy
  simpa [checkRef] using h

/-! ## Ends of blocks -/

section
variable {linear : Bool}

lemma checkTyping_of_last (hlast : (f.blk b).code.getLast? = some i)
  (h : checkBlkEnd f b next linear = .ok ()) : checkTyping f (f.ins i) = .ok () := by
  simp only [checkBlkEnd, hlast, except_seq_ok] at h
  exact h.1

lemma Paired.entered (h : Paired f) (hs : s ∈ (f.blk b).succs) : (f.blk s).preds.contains b := by
  rw [contains_iff_mem]
  exact h.mem_preds_iff.2 hs

lemma checkBlkEnd_leaves (h : f.Leaves b i) (htyped : checkTyping f (f.ins i) = .ok ()) :
  checkBlkEnd f b next linear = .ok () := by
  simp only [checkBlkEnd, h.last, except_seq_ok]
  refine ⟨htyped, ?_⟩
  rcases h.fam with hfam | ⟨hfam, hsuc⟩
  · rw [hfam]
    rfl
  · rw [hfam, hsuc]
    rfl

lemma checkBlkEnd_runsOn (h : f.RunsOn b s) (hpr : Paired f)
  (htyped : ∀ i ∈ (f.blk b).code, checkTyping f (f.ins i) = .ok ()) (hnext : next = some s) :
  checkBlkEnd f b next linear = .ok () := by
  have hentered := hpr.entered (b := b) (s := s) (by simp [h.succs])
  cases hlast : (f.blk b).code.getLast? with
  | none => simp only [checkBlkEnd, hlast, h.succs, hentered, ensure_ok]
  | some i =>
    have hmem := mem_of_getLast? hlast
    have hterm := h.inner i hmem
    simp only [isTerm_eq, Bool.or_eq_false_iff, beq_eq_false_iff_ne] at hterm
    obtain ⟨⟨⟨hcond, hswitch⟩, hbra⟩, hret⟩ := hterm
    simp only [checkBlkEnd, hlast, except_seq_ok]
    refine ⟨htyped i hmem, ?_⟩
    rw [h.succs, hnext]
    simp only [except_seq_ok, ensure_ok, hentered, true_and]
    cases linear with
    | false => rfl
    | true => simp [ensure_ok]

lemma checkBlkEnd_jump (hpr : Paired f) (hlast : (f.blk b).code.getLast? = some j)
  (hsuc : (f.blk b).succs = [s]) (hjump : f.ins j = .of .bra [.blk s]) :
  checkBlkEnd f b next linear = .ok () := by
  have hentered := hpr.entered (b := b) (s := s) (by simp [hsuc])
  simp only [checkBlkEnd, hlast, except_seq_ok, hjump]
  refine ⟨rfl, ?_⟩
  have hfam : (Ins.of .bra [.blk s]).op.fam = .bra := rfl
  have harg : (Ins.of .bra [.blk s]).arg 0 = .blk s := rfl
  rw [hfam]
  simp only [hsuc, except_seq_ok, ensure_ok, hentered, harg, beq_self_eq_true, and_self]

lemma checkBlkEnd_branch {s0 s1 m : BlkId} (hpr : Paired f)
  (hlast : (f.blk b).code.getLast? = some i) (hfam : op.fam = .condBra)
  (hop : (f.ins i).op = op) (hargs : (f.ins i).args = [x, y, .blk t])
  (hsuc : (f.blk b).succs = [s0, s1]) (ht : t = s0 ∨ t = s1) (hnext : next = some m)
  (hm : m = s0 ∨ m = s1) (htyped : checkTyping f (f.ins i) = .ok ()) :
  checkBlkEnd f b next linear = .ok () := by
  have hentered0 := hpr.entered (b := b) (s := s0) (by simp [hsuc])
  have hentered1 := hpr.entered (b := b) (s := s1) (by simp [hsuc])
  have harg : (f.ins i).arg 2 = .blk t := by simp [Ins.arg, hargs]
  simp only [checkBlkEnd, hlast, except_seq_ok]
  refine ⟨htyped, ?_⟩
  rw [hop, hfam]
  simp only [hsuc, except_seq_ok, ensure_ok, hentered0, hentered1, harg]
  refine ⟨rfl, by simpa using ht, ?_⟩
  cases linear with
  | false => rfl
  | true =>
    rw [hnext]
    simpa [ensure_ok] using hm

end

/-! ## Names -/

lemma Framed.nameTaken_mono (h : Framed f g bs is) (ha : nameTaken f a) : nameTaken g a := by
  obtain ⟨c, hc, hnmd, hname⟩ := nameTaken_iff.1 ha
  have hlt := hc.trans_le h.blks
  by_cases hold : a < f.blks.size
  · exact nameTaken_iff.2 ⟨c, hlt, by rw [h.named c hc, hnmd],
      by rw [h.name c hc, h.name a hold, hname]⟩
  · have hfresh := h.fresh a (not_lt.1 hold)
    by_cases hnew : a < g.blks.size
    · exact nameTaken_of_named hnew hfresh
    · refine nameTaken_iff.2 ⟨c, hlt, by rw [h.named c hc, hnmd], ?_⟩
      rw [h.name c hc, hname, Fn.blk_eq_default (not_lt.1 hold), Fn.blk_eq_default (not_lt.1 hnew)]

lemma namedCount_eq (f : Fn) :
  f.namedCount = (List.range f.blks.size).countP fun b => (f.blk b).named := by
  have hfold : ∀ (bs : List Blk) (n : Nat),
      bs.foldl (fun n b => if b.named then n + 1 else n) n = n + bs.countP Blk.named := by
    intro bs
    induction bs with
    | nil => simp
    | cons b bs ih =>
      intro n
      rw [foldl_cons, ih, countP_cons]
      cases b.named with
      | false => rfl
      | true =>
        show n + 1 + _ = n + (_ + 1)
        omega
  have hbks : f.blks.toList = (List.range f.blks.size).map f.blk := by
    refine ext_getElem (by simp) fun n h1 h2 => ?_
    have hn : n < f.blks.size := by simpa using h1
    simp [Fn.blk, hn]
  rw [Fn.namedCount, ← Array.foldl_toList, hfold, Nat.zero_add, hbks, countP_map]
  rfl

lemma Framed.namedCount (h : Framed f g bs is) :
  g.namedCount + f.blks.size = f.namedCount + g.blks.size := by
  obtain ⟨d, hd⟩ := Nat.exists_eq_add_of_le h.blks
  have hold : ((List.range f.blks.size).countP fun b => (g.blk b).named) =
      (List.range f.blks.size).countP fun b => (f.blk b).named :=
    countP_congr fun b hb => by rw [h.named b (mem_range.1 hb)]
  have hnew : (((List.range d).map (f.blks.size + ·)).countP fun b => (g.blk b).named) = d := by
    rw [countP_eq_length.2]
    · simp
    · intro b hb
      obtain ⟨n, -, rfl⟩ := mem_map.1 hb
      exact h.fresh _ (Nat.le_add_right _ _)
  rw [namedCount_eq, namedCount_eq, hd, range_add, countP_append]
  omega

/-! ## Accepted functions -/

def Fn.Accepts (p : Prog) (f : Fn) (x : Ins) : Prop :=
  checkTyping f x = .ok () ∧ Referenced p f x

lemma Fn.GraphForm.accepts (hf : f.GraphForm p) (hb : b ∈ f.order)
  (hi : i ∈ (f.blk b).code) : f.Accepts p (f.ins i) := by
  obtain ⟨-, hbks, hcode⟩ := (checkFn_ok_iff (ne_nil_of_mem hb) rfl).1 hf.checked
  refine ⟨?_, checkCode_ok hcode i (mem_flatMap.2 ⟨b, hb, hi⟩)⟩
  obtain ⟨as, hord⟩ := Fn.order_eq_append hb
  have hok := checkBlks_ok_iff.1 hbks as b (f.following b) hord
  obtain ⟨j, hlast⟩ : ∃ j, (f.blk b).code.getLast? = some j :=
    ⟨_, getLast?_eq_some_getLast (ne_nil_of_mem hi)⟩
  obtain ⟨js, hjs⟩ := getLast?_eq_some_iff.1 hlast
  rw [hjs, mem_append, mem_singleton] at hi
  rcases hi with hi | rfl
  · exact (hok.inner i (by rw [hjs, dropLast_concat]; exact hi)).2
  · exact checkTyping_of_last hlast hok.ending

namespace Unfolded

lemma nameTaken_of_mem (hf : f.GraphForm p) (hu : Unfolded f g) {a : BlkId}
  (ha : a ∈ f.order) : nameTaken g a :=
  hu.framed.nameTaken_mono (nameTaken_of_named (hf.linked.lt a ha) (hf.named a ha))

lemma nameTaken_of_new (hu : Unfolded f g) (ha : f.blks.size ≤ a ∧ a < g.blks.size) :
  nameTaken g a :=
  nameTaken_of_named ha.2 (hu.framed.fresh a ha.1)

lemma nameTaken_of_succ (hf : f.GraphForm p) (hu : Unfolded f g) {s : Nat}
  (hs : s ∈ (g.blk a).succs) : nameTaken g a := by
  have hlt := lt_of_mem_succs hs
  by_cases hold : a < f.blks.size
  · by_cases ha : a ∈ f.order
    · exact hu.nameTaken_of_mem hf ha
    · rw [hu.framed.succs a hold ha, hf.linked.outside a ha] at hs
      cases hs
  · exact hu.nameTaken_of_new ⟨not_lt.1 hold, hlt⟩

lemma accepts_of_eq (hu : Unfolded f g) (hsame : g.ins i = f.ins i) (h : f.Accepts p (f.ins i)) :
  g.Accepts p (g.ins i) := by
  rw [hsame]
  exact ⟨(checkTyping_congr hu.framed.regs hu.framed.lits _).trans h.1,
    h.2.mono hu.framed.regs fun _ => hu.framed.nameTaken_mono⟩

lemma accepts_jump (hjump : g.ins j = .of .bra [.blk s]) (hs : nameTaken g s) :
  g.Accepts p (g.ins j) := by
  rw [hjump]
  exact ⟨rfl, referenced_jump hs⟩

lemma accepts_turned (hu : Unfolded f g) {t' : BlkId} {ss : List BlkId}
  (hop : (f.ins i).op.opnds = branch c) (hargs : (f.ins i).args = [x, y, .blk t])
  (hop' : op'.opnds = branch c) (hcomp : f.Comparable c x y → f.Comparable c x' y')
  (hxy : x' = x ∧ y' = y ∨ x' = y ∧ y' = x) (h : f.Accepts p (f.ins i))
  (ht' : nameTaken g t') (turned : Turned f g b i op' x' y' t' ss) :
  g.Accepts p (g.ins i) := by
  have hgop : (g.ins i).op.opnds = branch c := by rw [turned.op, hop']
  obtain ⟨hx, hy, -⟩ := (referenced_branch_iff hop hargs).1 h.2
  have hmono : ∀ {a}, checkRef p f .regOrLit a → checkRef p g .regOrLit a := fun ha =>
    checkRef_mono hu.framed.regs (fun _ => hu.framed.nameTaken_mono) ha
  refine ⟨?_, (referenced_branch_iff hgop turned.args).2 ?_⟩
  · rw [checkTyping_congr hu.framed.regs hu.framed.lits, checkTyping_branch_iff hgop turned.args]
    exact hcomp ((checkTyping_branch_iff hop hargs).1 h.1)
  · rcases hxy with ⟨rfl, rfl⟩ | ⟨rfl, rfl⟩
    · exact ⟨hmono hx, hmono hy, ht'⟩
    · exact ⟨hmono hy, hmono hx, ht'⟩

lemma forall_mem_of_last {P : InsId → Prop} (hlast : is.getLast? = some i)
  (hin : ∀ j ∈ is.dropLast, P j) (hi : P i) : ∀ j ∈ is, P j := by
  obtain ⟨js, rfl⟩ := getLast?_eq_some_iff.1 hlast
  rw [dropLast_concat] at hin
  intro j hj
  rcases mem_append.1 hj with hj | hj
  · exact hin j hj
  · rw [mem_singleton.1 hj]
    exact hi

section
variable (hf : f.GraphForm p) (hu : Unfolded f g)
include hf hu

lemma accepts_placed (hb : b ∈ f.order) (h : Placed f g b next here) :
  ∀ c ∈ here, ∀ i ∈ (g.blk c).code, g.Accepts p (g.ins i) := by
  have hold : ∀ i ∈ (f.blk b).code, g.ins i = f.ins i → g.Accepts p (g.ins i) := fun i hi hsame =>
    hu.accepts_of_eq hsame (hf.accepts hb hi)
  have hsucc : ∀ s ∈ (f.blk b).succs, nameTaken g s := fun s hs =>
    hu.nameTaken_of_mem hf (hf.linked.inside b hb s hs)
  have hsame : SameBlk f g b → ∀ c ∈ [b], ∀ i ∈ (g.blk c).code, g.Accepts p (g.ins i) := by
    intro hs c hc i hi
    rw [mem_singleton.1 hc, hs.code] at hi
    exact hold i hi (hs.ins i hi)
  have hlast : ∀ {i op x y t ss}, (f.blk b).code.getLast? = some i →
      Turned f g b i op x y t ss → g.Accepts p (g.ins i) →
      ∀ j ∈ (g.blk b).code, g.Accepts p (g.ins j) := by
    intro i op x y t ss hlast turned hi
    rw [turned.code]
    exact forall_mem_of_last hlast
      (fun j hj => hold j ((dropLast_sublist _).mem hj) (turned.ins j hj)) hi
  cases h with
  | leaves _ same | follows _ _ same | falls _ _ same => exact hsame same
  | jumps h hj code succs ins jump =>
    intro c hc i hi
    rw [mem_singleton.1 hc, code, mem_append, mem_singleton] at hi
    rcases hi with hi | rfl
    · exact hold i hi (ins i hi)
    · exact accepts_jump jump (hsucc _ (by simp [h.succs]))
  | flips h hnext opposite turned =>
    intro c hc
    obtain rfl := mem_singleton.1 hc
    obtain ⟨k, hop, hop', hcomp, hxy⟩ := opposite.comparable
    exact hlast h.last turned (hu.accepts_turned (h.op ▸ hop) h.args hop' hcomp hxy
      (hf.accepts hb (mem_of_getLast? h.last)) (hsucc _ (by simp [h.succs])) turned)
  | @splits i op x y t n c' j h hc' hj name turned relays =>
    have hnew : nameTaken g c' := hu.nameTaken_of_new hc'
    have htgt : nameTaken g (redir n c' t) := by
      by_cases ht : t = n
      · rw [ht, redir_old]
        exact hnew
      · rw [redir_of_ne ht]
        exact hsucc t (by simp [h.succs])
    obtain ⟨k, hop⟩ := opnds_of_condBra h.fam
    intro c hc
    rcases mem_cons.1 hc with rfl | hc
    · exact hlast h.last turned (hu.accepts_turned (h.op ▸ hop) h.args hop id (.inl ⟨rfl, rfl⟩)
        (hf.accepts hb (mem_of_getLast? h.last)) htgt turned)
    · rw [mem_singleton.1 hc, relays.code]
      intro i hi
      rw [mem_singleton.1 hi]
      exact accepts_jump relays.jump (hsucc n (by simp [h.succs]))

lemma blkOk {c : BlkId} (hname : nameTaken g c)
  (hsuc : ∀ s ∈ (g.blk c).succs, nameTaken g s)
  (haccepts : ∀ i ∈ (g.blk c).code, g.Accepts p (g.ins i))
  (hin : ∀ i ∈ (g.blk c).code.dropLast, (g.ins i).op.isTerm = false)
  (hend : checkBlkEnd g c next true = .ok ()) : BlkOk g true c next where
  name := hname
  succs := hsuc
  preds _ ha := hu.nameTaken_of_succ hf (hu.paired.mem_preds_iff.1 ha)
  inner i hi := ⟨hin i hi, (haccepts i ((dropLast_sublist _).mem hi)).1⟩
  ending := hend

lemma checkBlks_placed {rest : List BlkId} (hb : b ∈ f.order) (h : Placed f g b rest.head? here)
  (hrest : checkBlks g true rest = .ok ()) : checkBlks g true (here ++ rest) = .ok () := by
  have haccepts := hu.accepts_placed hf hb h
  have hname := hu.nameTaken_of_mem hf hb
  have hsucc : ∀ s ∈ (f.blk b).succs, nameTaken g s := fun s hs =>
    hu.nameTaken_of_mem hf (hf.linked.inside b hb s hs)
  -- The case of a single block, which has kept its successors.
  have hone : (∀ i ∈ (g.blk b).code, g.Accepts p (g.ins i)) →
      (g.blk b).succs = (f.blk b).succs →
      (∀ i ∈ (g.blk b).code.dropLast, (g.ins i).op.isTerm = false) →
      checkBlkEnd g b rest.head? true = .ok () → checkBlks g true ([b] ++ rest) = .ok () :=
    fun haccepts hsuc hin hend => checkBlks_cons_ok.2
      ⟨hu.blkOk hf hname (fun s hs => hsucc s (hsuc ▸ hs)) haccepts hin hend, hrest⟩
  have hturned : ∀ {i op x y t ss},
      (∀ j ∈ (f.blk b).code.dropLast, (f.ins j).op.isTerm = false) →
      Turned f g b i op x y t ss →
      ∀ j ∈ (g.blk b).code.dropLast, (g.ins j).op.isTerm = false := by
    intro i op x y t ss hin turned j hj
    rw [turned.code] at hj
    rw [turned.ins j hj]
    exact hin j hj
  cases h with
  | leaves h same =>
    have hlvs := same.leaves h
    have hlast := haccepts b (.head _) _ (mem_of_getLast? hlvs.last)
    exact hone (haccepts b (.head _)) same.succs hlvs.inner (checkBlkEnd_leaves hlvs hlast.1)
  | follows h hnext same =>
    have hruns := same.runsOn h
    have hcode := haccepts b (.head _)
    exact hone hcode same.succs (fun i hi => hruns.inner i ((dropLast_sublist _).mem hi))
      (checkBlkEnd_runsOn hruns hu.paired (fun i hi => (hcode i hi).1) hnext)
  | jumps h hj code succs ins jump =>
    refine hone (haccepts b (.head _)) (succs.trans h.succs.symm) (fun i hi => ?_)
      (checkBlkEnd_jump hu.paired (by rw [code, getLast?_concat]) succs jump)
    rw [code, dropLast_concat] at hi
    rw [ins i hi]
    exact h.inner i hi
  | falls h hnext same =>
    have hfks := same.forks h
    have hlast := haccepts b (.head _) _ (mem_of_getLast? hfks.last)
    exact hone (haccepts b (.head _)) same.succs hfks.inner (checkBlkEnd_branch hu.paired hfks.last
      hfks.fam hfks.op hfks.args hfks.succs (.inl rfl) hnext (.inr rfl) hlast.1)
  | @flips i op op' x x' y y' t n h hnext opposite turned =>
    have hlast : (g.blk b).code.getLast? = some i := turned.code ▸ h.last
    have hfam : op'.fam = .condBra := by cases opposite <;> rfl
    exact hone (haccepts b (.head _)) (turned.succs.trans h.succs.symm) (hturned h.inner turned)
      (checkBlkEnd_branch hu.paired hlast hfam turned.op turned.args turned.succs (.inr rfl) hnext
      (.inl rfl) (haccepts b (.head _) i (mem_of_getLast? hlast)).1)
  | @splits i op x y t n c j h hc hj name turned relays =>
    have hlast : (g.blk b).code.getLast? = some i := turned.code ▸ h.last
    have hnew : nameTaken g c := hu.nameTaken_of_new hc
    have hmem : c ∈ [b, (c : BlkId)] := .tail _ (.head _)
    have hn : nameTaken g n := hsucc n (by simp [h.succs])
    have htgt : nameTaken g (redir n c t) := by
      by_cases ht : t = n
      · rw [ht, redir_old]
        exact hnew
      · rw [redir_of_ne ht]
        exact hsucc t (by simp [h.succs])
    have hb' : BlkOk g true b (some c) := by
      refine hu.blkOk hf hname ?_ (haccepts b (.head _)) (hturned h.inner turned)
        (checkBlkEnd_branch hu.paired hlast h.fam turned.op turned.args turned.succs (.inl rfl) rfl
        (.inr rfl) (haccepts b (.head _) i (mem_of_getLast? hlast)).1)
      rw [turned.succs]
      simp [hnew, htgt]
    have hc' : BlkOk g true c rest.head? := by
      refine hu.blkOk hf hnew ?_ (haccepts c hmem) ?_
        (checkBlkEnd_jump hu.paired (by rw [relays.code]; rfl) relays.succs relays.jump)
      · rw [relays.succs]
        simpa using hn
      · rw [relays.code]
        simp
    exact checkBlks_cons_ok.2 ⟨hb', checkBlks_cons_ok.2 ⟨hc', hrest⟩⟩

lemma checkFn_ok : checkFn p g { linear := true } = .ok () := by
  have hbks : ∀ bs cs, Laid f g bs cs → (∀ b ∈ bs, b ∈ f.order) → checkBlks g true cs = .ok () ∧
        ∀ c ∈ cs, ∀ i ∈ (g.blk c).code, g.Accepts p (g.ins i) := by
    intro bs cs hlaid
    induction hlaid with
    | nil => exact fun _ => ⟨rfl, by simp⟩
    | cons h rest ih =>
      intro hmem
      obtain ⟨hrest, haccepts⟩ := ih fun b hb => hmem b (.tail _ hb)
      have hb := hmem _ (.head _)
      rw [← rest.head?] at h
      refine ⟨hu.checkBlks_placed hf hb h hrest, fun c hc => ?_⟩
      rcases mem_append.1 hc with hc | hc
      · exact hu.accepts_placed hf hb h c hc
      · exact haccepts c hc
  obtain ⟨hcheck, haccepts⟩ := hbks f.order g.order hu.laid fun _ hb => hb
  have hcnt := hu.framed.namedCount
  have hsize := hu.size
  by_cases hnil : f.order = []
  · -- There is nothing to lay out.
    have hg : g.order = [] := by
      have hhead := hu.laid.head?
      rw [hnil] at hhead
      exact head?_eq_none_iff.1 hhead
    rw [hnil, hg] at hsize
    have hsame : checkFn p g { linear := true } = checkFn p f {} := by
      have hnmd : g.namedCount = f.namedCount := by omega
      simp only [checkFn, hnil, hg, hu.framed.kind, hnmd, isEmpty_nil, if_true]
    rw [hsame, hf.checked]
  · have hg : g.order ≠ [] := by
      intro hg
      have hhead := hu.laid.head?
      rw [hg] at hhead
      exact hnil (head?_eq_none_iff.1 hhead.symm)
    have hf' := (checkFn_ok_iff hnil rfl).1 hf.checked
    refine (checkFn_ok_iff hg rfl).2 ⟨by omega, hcheck, checkCode_of_referenced fun i hi => ?_⟩
    obtain ⟨c, hc, hi⟩ := mem_flatMap.1 hi
    exact (haccepts c hc i hi).2

end
end Unfolded

/-! ## Visits

A function that has been laid out visits the same blocks; extra blocks are not seen. Turning a branch
round is right for integers, of which one is less than another or else the other is at most the
one. -/

open Option Fn
variable {n : BlkId} {tail : List Blk}

/-- Opposite conditions turn out in opposite ways, as they do for integers. -/
def Outcome.Coherent (o : Outcome) : Prop :=
  ∀ x y, o.holds .bne x y = !o.holds .beq x y ∧ o.holds .ble x y = !o.holds .blt y x

abbrev IntOutcome := { o : Outcome // o.Coherent }

lemma Opposite.holds (h : Opposite op x y op' x' y')
  (o : IntOutcome) : o.1.holds op' x' y' = !o.1.holds op x y := by
  cases h with
  | beq => exact (o.2 _ _).1
  | bne => rw [(o.2 _ _).1, Bool.not_not]
  | blt => exact (o.2 _ _).2
  | ble => rw [(o.2 _ _).2, Bool.not_not]

namespace Fn
variable (f : Fn)
variable (b : BlkId)

def ending : Option Ctrl := (f.blk b).code.getLast?.map fun i => (f.ins i).ctrl
def edge (b s : BlkId) : Option BlkId := if s ∈ (f.blk b).succs then some s else none

def graphExit (o : Outcome) : Option BlkId :=
  match f.ending b with
  | some .stop => none
  | some (.branch op x y t) => f.edge b (if o.holds op x y then t else f.otherSucc b t)
  | some (.select x t) => f.edge b ((f.table t).tgt (o.idx x))
  | _ => (f.blk b).succs.head?

def goto : Option BlkId := if b ∈ f.order then some b else none

def linearExit (o : Outcome) : Option BlkId :=
  match f.ending b with
  | some .stop => none
  | some (.jump t) => f.goto t
  | some (.branch op x y t) => if o.holds op x y then f.goto t else (f.following b).head?
  | some (.select x t) => f.goto ((f.table t).tgt (o.idx x))
  | _ => (f.following b).head?

def relay : Option BlkId :=
  match f.ending b with
  | some (.jump t) => f.goto t
  | _ => none

def graphVisit : Move BlkId IntOutcome BlkId := .emit b fun o => f.graphExit b o.1

/-- Only the blocks `seen` are shown. -/
def linearVisit (seen : List BlkId) (b : BlkId) : Move BlkId IntOutcome BlkId :=
  if b ∈ seen then .emit b fun o => f.linearExit b o.1 else .silent (f.relay b)

/-- The instructions of a block that do nothing to control. -/
def work : List Ins := ((f.blk b).code.map f.ins).filter fun x => !x.op.isTerm
def Branches : Prop := ∃ i, (f.blk b).code.getLast? = some i ∧ (f.ins i).op.fam = .condBra

/-- The block ends in a branch, and no successor comes next. -/
def NeedsRelay : Prop := f.Branches b ∧ ∀ s ∈ (f.blk b).succs, (f.following b).head? ≠ some s

end Fn

/-! ## Leaving a block -/

section

lemma Fn.RunsOn.ending (h : f.RunsOn b s) : f.ending b = none ∨ f.ending b = some .next := by
  unfold Fn.ending
  cases hlast : (f.blk b).code.getLast? with
  | none => exact .inl rfl
  | some i =>
    rw [map_some, Ins.ctl_eq_next (h.inner i (mem_of_getLast? hlast))]
    exact .inr rfl

lemma Fn.Forks.otherSucc (h : f.Forks b i op x y t n) : f.otherSucc b t = n := by
  simp only [Fn.otherSucc, h.succs]
  split
  · assumption
  · rfl

lemma Fn.Forks.graphExit (h : f.Forks b i op x y t n) (o : Outcome) :
  f.graphExit b o = some (if o.holds op x y then t else n) := by
  have hending : f.ending b = some (.branch op x y t) := by
    rw [Fn.ending, h.last, map_some, h.ctrl]
  rw [Fn.graphExit, hending]
  simp only [Fn.edge, h.otherSucc, h.succs]
  exact if_pos (by split <;> simp)

lemma Fn.RunsOn.graphExit (h : f.RunsOn b s) (o : Outcome) : f.graphExit b o = some s := by
  rcases h.ending with hending | hending <;> rw [Fn.graphExit, hending] <;>
    simp only [h.succs, head?_cons]

lemma Turned.ending {ss : List BlkId} (h : Turned f g b i op x y t ss)
  (hlast : (f.blk b).code.getLast? = some i) (hfam : op.fam = .condBra) :
  g.ending b = some (.branch op x y t) := by
  rw [Fn.ending, h.code, hlast]
  simp [Ins.ctrl, h.op, h.args, hfam]

lemma ending_of_jump (hlast : (f.blk b).code.getLast? = some j)
  (hjump : f.ins j = .of .bra [.blk s]) : f.ending b = some (.jump s) := by
  rw [ending, hlast, map_some, hjump]
  rfl

lemma SameBlk.ending (h : SameBlk f g b) : g.ending b = f.ending b := by
  unfold Fn.ending
  rw [h.code]
  cases hlast : (f.blk b).code.getLast? with
  | none => rfl
  | some i => rw [map_some, map_some, h.ins_of_last hlast]

end

/-! ## The same visits -/

/-- A block of the graph reading, and where the linear reading is: at the same block, or at an extra
block that passes control on to it. -/
def Arrives (f g : Fn) (s c : BlkId) : Prop :=
  s ∈ f.order ∧ (c = s ∨ c ∉ f.order ∧ g.relay c = some s)

lemma Laid.subset {cs : List BlkId} (h : Laid f g bs cs) : ∀ b ∈ bs, b ∈ cs := by
  intro b hb
  obtain ⟨here, pre, post, rfl, hpl⟩ := h.exists_placed hb
  have hmem : b ∈ here := mem_of_head? hpl.head?
  simp [hmem]

namespace Unfolded
section
variable (hf : f.GraphForm p) (hu : Unfolded f g) (hb : b ∈ f.order)
include hf hu hb

/-- Whatever the outcome, both readings leave a block for the same one. -/
lemma exit_rel (o : IntOutcome) :
  Option.Rel (Arrives f g) (f.graphExit b o.1) (g.linearExit b o.1) := by
  obtain ⟨here, pre, post, hord, hpl⟩ := hu.laid.exists_placed hb
  have hgoto : ∀ {s}, s ∈ f.order → g.goto s = some s := fun hs => if_pos (hu.laid.subset _ hs)
  have hsucc : ∀ {s}, s ∈ (f.blk b).succs → s ∈ f.order := fun hs => hf.linked.inside b hb _ hs
  have hsame : ∀ {s}, s ∈ f.order → Option.Rel (Arrives f g) (some s) (some s) := fun hs =>
    .some ⟨hs, .inl rfl⟩
  have hfollowing : ∀ {tl}, here = b :: tl → g.following b = tl ++ post := fun hhere =>
    following_of_append hu.nodup (by rw [hord, hhere]; rfl)
  cases hpl with
  | @leaves i h same =>
    have hending : f.ending b = some (f.ins i).ctrl := by rw [ending, h.last, map_some]
    rcases h.fam with hswitch | ⟨hret, -⟩
    · have hterm : (f.ins i).op.isTerm := by
        rw [Op.isTerm_eq, hswitch]
        rfl
      obtain ⟨x, t, hcon⟩ := Ins.select_of_switch
        (hf.shape b hb i (mem_of_getLast? h.last) hterm) hswitch
      have htgt : (f.table t).tgt (o.1.idx x) ∈ (f.blk b).succs := by
        obtain ⟨ns, hns, -⟩ := hf.linked.succs b hb
        rw [hns, jumpTgts_eq, h.last, map_some, hcon]
        exact mem_append_left _ ((f.table t).tgt_mem _)
      have htbl : g.table t = f.table t := by rw [table, table, hu.framed.tables]
      rw [graphExit, linearExit, same.ending, hending, hcon]
      simp only [htbl, edge, if_pos htgt, hgoto (hsucc htgt)]
      exact hsame (hsucc htgt)
    · rw [graphExit, linearExit, same.ending, hending, Ins.ctl_eq_stop_iff.2 hret]
      exact .none
  | @follows s h hnext same =>
    rw [h.graphExit]
    have hexit : g.linearExit b o.1 = some s := by
      rcases (same.runsOn h).ending with hending | hending <;>
        rw [linearExit, hending, hfollowing rfl, nil_append, hnext]
    rw [hexit]
    exact hsame (hsucc (by simp [h.succs]))
  | @jumps s j h hj code succs ins jump =>
    have hs : s ∈ f.order := hsucc (by simp [h.succs])
    rw [h.graphExit, linearExit, ending_of_jump (by rw [code, getLast?_concat]) jump]
    simp only [hgoto hs]
    exact hsame hs
  | @falls i op x y t n h hnext same =>
    have hending : g.ending b = some (.branch op x y t) := by
      have hfks := same.forks h
      rw [ending, hfks.last, map_some, hfks.ctrl]
    rw [h.graphExit, linearExit, hending]
    simp only [hfollowing rfl, nil_append, hnext, hgoto (hsucc (s := t) (by simp [h.succs]))]
    split
    · exact hsame (hsucc (by simp [h.succs]))
    · exact hsame (hsucc (by simp [h.succs]))
  | @flips i op op' x x' y y' t n h hnext opposite turned =>
    have hfam : op'.fam = .condBra := by cases opposite <;> rfl
    rw [h.graphExit, linearExit, turned.ending h.last hfam]
    simp only [hfollowing rfl, nil_append, hnext, hgoto (hsucc (s := n) (by simp [h.succs])),
      opposite.holds o]
    cases o.1.holds op x y with
    | false | true => exact hsame (hsucc (by simp [h.succs]))
  | @splits i op x y t n c j h hc hj name turned relays =>
    have hn : n ∈ f.order := hsucc (by simp [h.succs])
    have hmem : c ∈ g.order := by rw [hord]; simp
    have hnot : c ∉ f.order := fun hmem => hc.1.not_gt (hf.linked.lt c hmem)
    have hrelay : Arrives f g n c := by
      refine ⟨hn, .inr ⟨hnot, ?_⟩⟩
      rw [relay, ending_of_jump (by rw [relays.code]; rfl) relays.jump]
      exact hgoto hn
    rw [h.graphExit, linearExit, turned.ending h.last h.fam]
    simp only [hfollowing rfl]
    cases o.1.holds op x y with
    | false => exact .some hrelay
    | true =>
      by_cases ht : t = n
      · rw [if_pos rfl, ht, redir_old, goto, if_pos hmem]
        exact .some hrelay
      · rw [if_pos rfl, redir_of_ne ht, hgoto (hsucc (by simp [h.succs]))]
        exact hsame (hsucc (by simp [h.succs]))

lemma sameTraces : SameTraces f.graphVisit (some b) (g.linearVisit f.order) (some b) := by
  have hemit : ∀ s ∈ f.order, (f.graphVisit s).Agree (Arrives f g) (g.linearVisit f.order s) := by
    intro s hs
    rw [linearVisit, if_pos hs]
    exact .emit fun o => hu.exit_rel hf hs o
  have hpass : ∀ {s c}, c ∉ f.order → g.relay c = some s →
      g.linearVisit f.order c = .silent (some s) := fun hc hrelay => by
    rw [linearVisit, if_neg hc, hrelay]
  have hthere : Simulation f.graphVisit (g.linearVisit f.order) (Arrives f g) := by
    refine .of_answered fun s c ⟨hs, hc⟩ => ?_
    rcases hc with rfl | ⟨hc, hrelay⟩
    · exact .of_agree (hemit c hs)
    · exact .of_quiet (.single (hpass hc hrelay)) (.of_agree (hemit s hs))
  have hback : Simulation (g.linearVisit f.order) f.graphVisit fun c s => Arrives f g s c := by
    refine .of_answered fun c s ⟨hs, hc⟩ => ?_
    rcases hc with rfl | ⟨hc, hrelay⟩
    · exact .of_agree (hemit c hs).flip
    · exact .of_silent (hpass hc hrelay) ⟨hs, .inl rfl⟩
  exact ⟨hthere.refines ⟨hb, .inl rfl⟩, hback.refines ⟨hb, .inl rfl⟩⟩

end

lemma work_eq (hu : Unfolded f g) (hb : b ∈ f.order) : g.work b = f.work b := by
  obtain ⟨here, pre, post, -, hpl⟩ := hu.laid.exists_placed hb
  have hsame : SameBlk f g b → g.work b = f.work b := fun hs => by
    rw [work, work, hs.code, map_congr_left hs.ins]
  -- A branch at the end is no work, and what comes before it is the same.
  have hturned : ∀ {i op op' x x' y y' t t' n ss}, f.Forks b i op x y t n →
      Turned f g b i op' x' y' t' ss → op'.fam = .condBra → g.work b = f.work b := by
    intro i op op' x x' y y' t t' n ss h turned hfam
    obtain ⟨js, hjs⟩ := getLast?_eq_some_iff.1 h.last
    have hins : ∀ j ∈ js, g.ins j = f.ins j := fun j hj =>
      turned.ins j (by rw [hjs, dropLast_concat]; exact hj)
    have hterm : ∀ {k}, Op.fam k = .condBra → k.isTerm := fun hk => by
      rw [Op.isTerm_eq, hk]
      rfl
    rw [work, work, turned.code, hjs]
    simp [map_congr_left hins, turned.op, h.op, hterm hfam, hterm h.fam]
  cases hpl with
  | leaves _ same | follows _ _ same | falls _ _ same => exact hsame same
  | @jumps s j _ _ code _ ins jump =>
    have hterm : (Ins.of .bra [.blk s]).op.isTerm := rfl
    rw [work, work, code, map_append, map_congr_left ins]
    simp [jump, hterm]
  | flips h _ opposite turned => exact hturned h turned (by cases opposite <;> rfl)
  | splits h _ _ _ turned _ => exact hturned h turned h.fam

end Unfolded

lemma Fn.GraphForm.canPlace_iff (hf : f.GraphForm p) :
  (∀ as b rest, f.order = as ++ b :: rest → f.CanPlace b rest.head?) ↔
    (∀ b, f.order.getLast? = some b → ¬ f.Branches b) ∧
      ∀ b ∈ f.order, f.NeedsRelay b → f.CanDerive (f.blk b).name "bra" := by
  have hfks : ∀ {b}, b ∈ f.order → f.Branches b → ∃ i op x y t n, f.Forks b i op x y t n := by
    rintro b hb ⟨i, hlast, hfam⟩
    rcases hf.ready.ends b hb with ⟨j, hlvs⟩ | ⟨s, hruns⟩ | hfks
    · rw [hlvs.last] at hlast
      cases hlast
      rcases hlvs.fam with h | ⟨h, -⟩ <;> rw [h] at hfam <;> cases hfam
    · have hterm := hruns.inner i (mem_of_getLast? hlast)
      rw [Op.isTerm_eq, hfam] at hterm
      cases hterm
    · exact hfks
  have hbranches : ∀ {b i op x y t n}, f.Forks b i op x y t n → f.Branches b := fun h =>
    ⟨_, h.last, h.op ▸ h.fam⟩
  constructor
  · intro hcan
    refine ⟨fun b hlast hb => ?_, fun b hb hneeds => ?_⟩
    · obtain ⟨as, hord⟩ := getLast?_eq_some_iff.1 hlast
      obtain ⟨i, op, x, y, t, n, h⟩ := hfks (mem_of_getLast? hlast) hb
      obtain ⟨m, hm, -⟩ := hcan as b [] hord i op x y t n h
      cases hm
    · obtain ⟨as, hord⟩ := order_eq_append hb
      obtain ⟨i, op, x, y, t, n, h⟩ := hfks hb hneeds.1
      obtain ⟨m, hm, hname⟩ := hcan as b _ hord i op x y t n h
      have hne : ∀ s ∈ (f.blk b).succs, m ≠ s := fun s hs hms => hneeds.2 s hs (hms ▸ hm)
      exact hname (hne t (by simp [h.succs])) (hne n (by simp [h.succs]))
  · rintro ⟨hend, hname⟩ as b rest hord i op x y t n h
    have hb : b ∈ f.order := by rw [hord]; simp
    have hfollowing := following_of_append hf.nodup hord
    cases rest with
    | nil => exact absurd (hbranches h) (hend b (by rw [hord, getLast?_concat]))
    | cons m rest =>
      refine ⟨m, rfl, fun hmt hmn => hname b hb ⟨hbranches h, fun s hs hm => ?_⟩⟩
      rw [hfollowing] at hm
      cases hm
      rw [h.succs] at hs
      rcases mem_cons.1 hs with hs | hs
      · exact hmt hs
      · exact hmn (mem_singleton.1 hs)

/-! ## A loop, with and without something after it -/

/-- A loop that starts over when it is left, with the blocks `tail` after it. The block that branches
back is empty once its branch is gone; without `tail` the loop itself then comes last. -/
def loopThen (tail : List Blk) : Fn where
  name := "main"
  kind := .normal
  regs := #[{ name := "x", kind := .s32 }]
  lits := #[.ofInt .s32 0, .ofInt .s32 1, .ofInt .s32 10]
  code := #[.of .mov [.reg 0, .lit 0], .of .add [.reg 0, .reg 0, .lit 1],
    .of .blt [.reg 0, .lit 2, .blk 1], .of .bra [.blk 0], .of .ret []]
  blks := ([{ name := "start", code := [0] }, { name := "loop", code := [1, 2] },
    { name := "end", code := [3] }] ++ tail : List Blk).toArray
  order := List.range (3 + tail.length)

def past : Blk := { name := "past", code := [4] }

/-- Whatever stands after the loop, edges can take the place of branches. -/
lemma loopThen_graphForm (htail : tail = [] ∨ tail = [past])
  (h : (initFlow {}).run (loopThen tail) = .ok ((), g)) : g.GraphForm {} := by
  have hunlinked : (loopThen tail).Unlinked := unlinked_of_noSwitch (by
    rcases htail with rfl | rfl <;> decide)
  have hclosed : (loopThen tail).Closed := by
    rcases htail with rfl | rfl
    · intro b hb
      obtain rfl : 2 = b := Option.some.inj hb
      decide
    · intro b hb
      obtain rfl : 3 = b := Option.some.inj hb
      decide
  have hnames : ∀ a, a < (loopThen tail).blks.size → ∀ b, b < (loopThen tail).blks.size →
      ((loopThen tail).blk a).name = ((loopThen tail).blk b).name → a = b := by
    rcases htail with rfl | rfl <;> decide
  refine initFlow_graphForm hunlinked hclosed ?_ ?_ (fun a b ha hb _ _ => hnames a ha b hb) h
  · rcases htail with rfl | rfl <;> decide
  · rcases htail with rfl | rfl <;> decide

/-- With a block after the loop it can be laid out, without one it cannot. -/
lemma addBranches_loopThen (htail : tail = [] ∨ tail = [past]) : ∃ g, (initFlow {}).run
  (loopThen tail) = .ok ((), g) ∧ (addBranches.run g).toOption.isSome = !tail.isEmpty := by
  obtain ⟨⟨_, g⟩, hrun, hg⟩ := ok_of_any (x := (initFlow {}).run (loopThen tail))
    (φ := fun r => (addBranches.run r.2).toOption.isSome == !tail.isEmpty) (by
      rcases htail with rfl | rfl <;> decide +kernel)
  exact ⟨g, hrun, eq_of_beq hg⟩

/-! ## Laying out -/

/-- A function in graph form can be laid out exactly if its last block does not end in a branch and
every extra block has a name. The result passes the check for linear functions, begins with the same
block, does the same work in each block, and visits the same blocks, however comparisons of integers
turn out. -/
theorem addBranches_sameTraces {p : Prog} {f : Fn} (hf : f.GraphForm p) :
  ((∃ g, addBranches.run f = .ok ((), g)) ↔
    (∀ b, f.order.getLast? = some b → ¬ f.Branches b) ∧
      ∀ b ∈ f.order, f.NeedsRelay b → f.CanDerive (f.blk b).name "bra") ∧
  ∀ g, addBranches.run f = .ok ((), g) →
    checkFn p g { linear := true } = .ok () ∧ g.order.head? = f.order.head? ∧
        ∀ b ∈ f.order, g.work b = f.work b ∧
          SameTraces f.graphVisit (some b) (g.linearVisit f.order) (some b) := by
  refine ⟨hf.addBranches_ok_iff.trans hf.canPlace_iff, fun g hrun => ?_⟩
  have hu := hf.unfolded hrun
  exact ⟨hu.checkFn_ok hf, hu.laid.head?, fun b hb => ⟨hu.work_eq hb, hu.sameTraces hf hb⟩⟩

/-- The loop is left for its start through an extra block. -/
theorem addBranches_sameTraces_loop : ∃ f g, (initFlow {}).run (loopThen [past]) = .ok ((), f) ∧
  f.GraphForm {} ∧ addBranches.run f = .ok ((), g) ∧
  (((∃ g, addBranches.run f = .ok ((), g)) ↔
    (∀ b, f.order.getLast? = some b → ¬ f.Branches b) ∧
      ∀ b ∈ f.order, f.NeedsRelay b → f.CanDerive (f.blk b).name "bra") ∧
  ∀ g, addBranches.run f = .ok ((), g) →
    checkFn {} g { linear := true } = .ok () ∧ g.order.head? = f.order.head? ∧
        ∀ b ∈ f.order, g.work b = f.work b ∧
          SameTraces f.graphVisit (some b) (g.linearVisit f.order) (some b)) := by
  obtain ⟨f, hinit, hsome⟩ := addBranches_loopThen (.inr rfl)
  have hf := loopThen_graphForm (.inr rfl) hinit
  cases h : addBranches.run f with
  | error e =>
    rw [h] at hsome
    cases hsome
  | ok r => exact ⟨f, r.2, hinit, hf, h, addBranches_sameTraces hf⟩

/-- What `initFlow` makes of a function cannot always be laid out. -/
theorem addBranches_spin_fails : ∃ f, (initFlow {}).run (loopThen []) = .ok ((), f) ∧
  f.GraphForm {} ∧ ¬ ∃ g, addBranches.run f = .ok ((), g) := by
  obtain ⟨f, hinit, hnone⟩ := addBranches_loopThen (.inl rfl)
  refine ⟨f, hinit, loopThen_graphForm (.inl rfl) hinit, fun ⟨g, hg⟩ => ?_⟩
  rw [hg] at hnone
  cases hnone

end Retarget.IR
