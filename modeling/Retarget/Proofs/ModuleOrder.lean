import Retarget.FrontEnd.Compile
import Mathlib.Order.WellFoundedSet

/-!
# The order of modules

The next module is always the least one of those whose imports have all been put in order. `Sound`
says what is waited for between two steps.
-/

namespace Retarget.FrontEnd
open List Relation
variable {α : Type} [LinearOrder α] {ms ms' : List (α × List α)} {x : α} {l r done : List α}
  {w : α → List α} {s s' : (α → List α) × List α} {n : Nat}

/-- One module imports another one, directly or through others. -/
def Needs (ms : List (α × List α)) : α → α → Prop := TransGen fun a b => b ∈ imports ms a

lemma count_importers (x k : α) : (importers ms x).count k = (imports ms k).count x := by
  induction ms with
  | nil => rfl
  | cons p ms ih =>
    simp only [importers, imports, flatMap_cons, count_append, count_replicate] at ih ⊢
    rw [ih]
    by_cases h : p.1 = k <;> simp [h]

lemma mem_of_imports {m i : α} (h : i ∈ imports ms m) : m ∈ ms.map Prod.fst := by
  obtain ⟨p, hp, hi⟩ := mem_flatMap.1 h
  grind

/-! ## One step -/

/-- The modules that can be next are those of `todo` that wait for nothing. -/
def Ready (todo : α → Prop) (s : (α → List α) × List α) : Prop :=
  s.2.Nodup ∧ ∀ k, k ∈ s.2 ↔ todo k ∧ s.1 k = []

lemma Ready.foldl_settle {todo : α → Prop} (hl : ∀ k ∈ l, todo k)
  (hcnt : ∀ k, l.count k = (s.1 k).count x) (h : Ready todo s) :
  Ready todo (l.foldl (settle x) s) ∧
    ∀ k y, ((l.foldl (settle x) s).1 k).count y = if y = x then 0 else (s.1 k).count y := by
  induction l generalizing s with
  | nil =>
    refine ⟨h, fun k y => ?_⟩
    have hx := hcnt k
    grind
  | cons m l ih =>
    have hrest : ∀ k y, ((settle x s m).1 k).count y =
        (s.1 k).count y - if y = x ∧ k = m then 1 else 0 := by
      intro k y
      by_cases hk : k = m <;> grind [settle]
    have hm : m ∉ s.2 := fun hm => by simpa [((h.2 m).1 hm).2] using hcnt m
    have hnext : Ready todo (settle x s m) := by
      refine ⟨by grind [settle, Ready], fun k => ?_⟩
      have hk := h.2 k
      have htodo := hl m (.head _)
      by_cases hkm : k = m
      · subst hkm
        grind [settle]
      · grind [settle]
    obtain ⟨hready, hcounts⟩ := ih (fun k hk => hl k (.tail _ hk)) (fun k => by grind) hnext
    exact ⟨hready, fun k y => by grind⟩

/-- After the modules in `done`, the other imports wait, and every module without any can be next. -/
structure Sound (ms : List (α × List α)) (done : List α) (s : (α → List α) × List α) : Prop where
  closed : ∀ k ∈ done, imports ms k ⊆ done
  count : ∀ k y, (s.1 k).count y = if y ∈ done then 0 else (imports ms k).count y
  ready : Ready (fun k => k ∈ ms.map Prod.fst ∧ k ∉ done) s

namespace Sound

lemma nil_iff (h : Sound ms done s) (k : α) : s.1 k = [] ↔ imports ms k ⊆ done := by
  simp only [eq_nil_iff_forall_not_mem, ← count_eq_zero, h.count]
  grind

lemma start (hms : (ms.map Prod.fst).Nodup) :
  Sound ms [] (imports ms, (ms.map Prod.fst).filter fun m => imports ms m = []) :=
  ⟨by simp, by simp, hms.filter _, by simp⟩

lemma step (h : Sound ms done (w, r)) (hx : x ∈ r) :
  Sound ms (x :: done) ((importers ms x).foldl (settle x) (w, r.erase x)) := by
  obtain ⟨⟨hk, hd⟩, hw⟩ := (h.ready.2 x).1 hx
  have hclosed : ∀ k ∈ x :: done, imports ms k ⊆ done :=
    forall_mem_cons.2 ⟨(h.nil_iff x).1 hw, h.closed⟩
  have hsta : Ready (fun k => k ∈ ms.map Prod.fst ∧ k ∉ x :: done) (w, r.erase x) := by
    refine ⟨h.ready.1.erase x, fun k => ?_⟩
    have := h.ready.2 k
    grind [h.ready.1.mem_erase_iff]
  have hl : ∀ k ∈ importers ms x, k ∈ ms.map Prod.fst ∧ k ∉ x :: done := by
    intro k hk
    rw [← count_pos_iff, count_importers, count_pos_iff] at hk
    exact ⟨mem_of_imports hk, fun hmem => hd (hclosed k hmem hk)⟩
  obtain ⟨hready, hcounts⟩ := hsta.foldl_settle hl
    (fun k => by rw [count_importers, h.count, if_neg hd])
  exact ⟨fun k hk i hi => .tail _ (hclosed k hk hi), fun k y => by grind [h.count k y], hready⟩

/-- Something can be next if modules do not import each other in a circle. -/
lemma exists_next (h : Sound ms done s) (hclosed : ∀ m, imports ms m ⊆ ms.map Prod.fst)
  (hacyclic : ∀ m, ¬ Needs ms m m) {m : α} (hm : m ∈ ms.map Prod.fst) (hd : m ∉ done) :
  s.2 ≠ [] := by
  have : IsStrictOrder α (Function.swap (Needs ms)) :=
    { irrefl := hacyclic, trans := fun a b c hab hbc => hbc.trans hab }
  have hwf := ((ms.map Prod.fst).finite_toSet.subset (Set.sep_subset _ (· ∉ done))).wellFoundedOn
    (r := Function.swap (Needs ms))
  obtain ⟨⟨k, hk, hkd⟩, -, hleast⟩ := hwf.has_min Set.univ ⟨⟨m, hm, hd⟩, trivial⟩
  refine ne_nil_of_mem ((h.ready.2 k).2 ⟨⟨hk, hkd⟩, (h.nil_iff k).2 fun i hi => ?_⟩)
  by_contra hid
  exact hleast ⟨i, hclosed k hi, hid⟩ trivial (.single hi)

end Sound

/-! ## Whole runs -/

lemma orderFrom_of_min (hx : s.2.min? = some x) : orderFrom ms (n + 1) s =
  (orderFrom ms n ((importers ms x).foldl (settle x) (s.1, s.2.erase x))).map (x :: ·) := by
  rw [orderFrom, hx]
  rfl

/-- Modules come after those that they import, unless nothing can be next before the end. -/
lemma Sound.order (h : Sound ms done s) :
  (∃ out, orderFrom ms n s = .ok out ∧ out.length = n ∧ out.Nodup ∧
    (∀ m ∈ out, m ∈ ms.map Prod.fst ∧ m ∉ done) ∧
      ∀ m ∈ out, ∀ i ∈ imports ms m, i ∈ done ∨ out.idxOf i < out.idxOf m) ∨
  (∃ f, orderFrom ms n s = .error f) ∧
    ∃ done' s', Sound ms done' s' ∧ s'.2 = [] ∧ done'.length < done.length + n := by
  induction n generalizing done s with
  | zero => exact .inl ⟨[], by simp [orderFrom]⟩
  | succ n ih =>
    cases hx : s.2.min? with
    | none =>
      exact .inr ⟨⟨_, by rw [orderFrom, hx]; rfl⟩, done, s, h, min?_eq_none_iff.1 hx, by omega⟩
    | some x =>
      have hmem : x ∈ s.2 := min?_mem hx
      obtain ⟨htodo, hnil⟩ := (h.ready.2 x).1 hmem
      have himports := (h.nil_iff x).1 hnil
      rw [orderFrom_of_min hx]
      obtain ⟨out, hout, hlen, hnd, hnew, hsorted⟩ | ⟨⟨f, hf⟩, done', s', hs, hstuck, hlt⟩ :=
        ih (h.step hmem)
      · refine .inl ⟨x :: out, by rw [hout]; rfl, by simp [hlen], by grind, by grind, ?_⟩
        intro m hm i hi
        obtain rfl | hm := mem_cons.1 hm
        · exact .inl (himports hi)
        · have := hsorted m hm i hi
          grind
      · exact .inr ⟨⟨f, by rw [hf]; rfl⟩, done', s', hs, hstuck, by grind⟩

/-- Only what is imported counts, not the order of modules or imports. -/
lemma Sound.orderFrom_eq (hnames : ∀ m, m ∈ ms'.map Prod.fst ↔ m ∈ ms.map Prod.fst)
  (himports : ∀ m i, i ∈ imports ms' m ↔ i ∈ imports ms m) (h : Sound ms done s)
  (h' : Sound ms' done s') : orderFrom ms' n s' = orderFrom ms n s := by
  induction n generalizing done s s' with
  | zero => rfl
  | succ n ih =>
    have hmem : ∀ k, k ∈ s'.2 ↔ k ∈ s.2 := fun k => by
      rw [h.ready.2, h'.ready.2, h.nil_iff, h'.nil_iff]
      simp only [hnames, subset_def, himports]
    have hmin : s'.2.min? = s.2.min? := Option.ext fun x => by simp [min?_eq_some_iff, hmem]
    cases hx : s.2.min? with
    | none =>
      rw [orderFrom, orderFrom, hmin, hx]
      rfl
    | some x =>
      have hxs := min?_mem hx
      rw [orderFrom_of_min (hmin.trans hx), orderFrom_of_min hx,
        ih (h.step hxs) (h'.step ((hmem x).2 hxs))]

/-- Modules that do not import each other in a circle are put in an order in which each comes after
those it imports. It depends on which modules there are and what they import, not on how they are
listed. Other modules have no order. -/
theorem inOrder_sorts (hms : (ms.map Prod.fst).Nodup) :
  ((∀ m, imports ms m ⊆ ms.map Prod.fst) → (∀ m, ¬ Needs ms m m) →
    ∃ out, out ~ ms.map Prod.fst ∧
      (∀ m, ∀ i ∈ imports ms m, out.idxOf i < out.idxOf m) ∧
      ∀ ms', ms'.map Prod.fst ~ ms.map Prod.fst →
        (∀ m i, i ∈ imports ms' m ↔ i ∈ imports ms m) → inOrder ms' = .ok out) ∧
  ∀ m, Needs ms m m → ∃ f, inOrder ms = .error f := by
  obtain ⟨out, hout, hlen, hnd, hnew, hsorted⟩ | ⟨herror, done, s, hs, hstuck, hlt⟩ :=
    (Sound.start hms).order (n := ms.length)
  · have hperm : out ~ ms.map Prod.fst :=
      (hnd.subperm fun m hm => (hnew m hm).1).perm_of_length_le (by simp [hlen])
    have hafter : ∀ m, ∀ i ∈ imports ms m, out.idxOf i < out.idxOf m := fun m i hi =>
      (hsorted m (hperm.mem_iff.2 (mem_of_imports hi)) i hi).resolve_left not_mem_nil
    refine ⟨fun _ _ => ⟨out, hperm, hafter, fun ms' hnames himports => ?_⟩, fun m hm => ?_⟩
    · rw [inOrder, ← length_map, hnames.length_eq, length_map, ← hout]
      exact (Sound.start hms).orderFrom_eq (fun _ => hnames.mem_iff) himports
        (.start (hnames.nodup_iff.2 hms))
    · have hless := TransGen.lift (p := (· > ·)) out.idxOf hafter m m hm
      rw [transGen_eq_self] at hless
      exact absurd hless (lt_irrefl _)
  · refine ⟨fun hclosed hacyclic => ?_, fun _ _ => herror⟩
    obtain ⟨m, hm, hd⟩ : ∃ m ∈ ms.map Prod.fst, m ∉ done := by
      by_contra! hall
      have := (hms.subperm hall).length_le
      simp at this hlt
      omega
    exact absurd hstuck (hs.exists_next hclosed hacyclic hm hd)

theorem inOrder_sorts_two : ∃ out, inOrder [(1, [0, 0]), (0, [])] = .ok out := by
  have himports : ∀ a, imports [(1, [0, 0]), (0, [])] a = if 1 = a then [0, 0] else [] := by
    simp [imports]
  have hlt : ∀ a b, b ∈ imports [(1, [0, 0]), (0, [])] a → a > b := by grind
  obtain ⟨out, -, -, hout⟩ :=
    (inOrder_sorts (show ([(1, [0, 0]), (0, [])].map Prod.fst).Nodup by decide)).1 (by grind)
      fun m hm => lt_irrefl m (transGen_minimal hlt m m hm)
  exact ⟨out, hout _ (.refl _) (by simp)⟩

end Retarget.FrontEnd
