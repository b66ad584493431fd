import Mathlib.Order.Nat
import Retarget.IR.Flow

/-!
# Runs of passes

A pass that succeeds has succeeded at each of its steps. The lemmas below say so for the steps that
passes are made of: the run of a composed pass gives the runs of its parts, and a loop is taken apart
one element at a time. Nothing later unfolds the monad.
-/

namespace Retarget.IR.Pass
open List Except
variable {cond : Bool} {g : Fn} {i : InsId} {args : List Opnd} {op : Op} {u : PUnit}
  {why : String} {γ δ : Type}
variable {α β : Type} {f f' : Fn} {a : α} {as : List α} {body : α → PUnit → Pass (ForInStep PUnit)}
  {x : Pass α} {p : α → Pass Bool}

lemma bind_ok {x : Res γ} {k : γ → Res δ} {d : δ} :
  (x >>= k) = .ok d ↔ ∃ c, x = .ok c ∧ k c = .ok d := by
  cases x <;> simp [bind, Except.bind]

/-- What a computation that has been evaluated comes to. -/
lemma ok_of_any {x : Res γ} {φ : γ → Bool} (h : x.toOption.any φ) : ∃ c, x = .ok c ∧ φ c := by
  cases x with
  | error e => cases h
  | ok c => exact ⟨c, rfl, h⟩

lemma bind_ok_iff {x : Res γ} {k : γ → Res δ} {φ : Prop}
  (h : ∀ c, (∃ d, k c = .ok d) ↔ φ) : (∃ d, x >>= k = .ok d) ↔ (∃ c, x = .ok c) ∧ φ := by
  cases x <;> simp [bind, Except.bind, h]

lemma foldlM_ok_iff {step : δ → γ → Res δ} {φ : γ → Prop} {cs : List γ} {s : δ}
  (h : ∀ s c, (∃ t, step s c = .ok t) ↔ φ c) :
  (∃ t, cs.foldlM step s = .ok t) ↔ ∀ c ∈ cs, φ c := by
  induction cs generalizing s with
  | nil => simp [pure, Except.pure]
  | cons c cs ih => rw [foldlM_cons, bind_ok_iff fun _ => ih, h, forall_mem_cons]

lemma foldlM_cons_ok {step : δ → γ → Res δ} {c : γ} {cs : List γ} {s t : δ} :
  (c :: cs).foldlM step s = .ok t ↔ ∃ r, step s c = .ok r ∧ cs.foldlM step r = .ok t := by
  rw [foldlM_cons, bind_ok]

lemma mapM_ok {g : γ → Res δ} {φ : γ → δ} {cs : List γ} (h : ∀ c ∈ cs, g c = .ok (φ c)) :
  cs.mapM g = .ok (cs.map φ) := by
  induction cs with
  | nil => rfl
  | cons c cs ih =>
    rw [mapM_cons, h c (.head _), ih fun d hd => h d (.tail _ hd)]
    rfl

lemma run_bind_ok {k : α → Pass β} {b : β} : (x >>= k).run f = .ok (b, f') ↔
  ∃ a g, x.run f = .ok (a, g) ∧ (k a).run g = .ok (b, f') := by
  rw [StateT.run_bind]
  cases h : x.run f with
  | error e => simp [bind, Except.bind]
  | ok r =>
    constructor
    · intro hk
      exact ⟨r.1, r.2, rfl, hk⟩
    · rintro ⟨a, g, hr, hk⟩
      cases hr
      exact hk

lemma run_seq_ok {x : Pass PUnit} {y : Pass β} {b : β} :
  (do x; y).run f = .ok (b, f') ↔ ∃ g, x.run f = .ok ((), g) ∧ y.run g = .ok (b, f') := by
  rw [run_bind_ok]
  constructor
  · rintro ⟨⟨⟩, g, hx, hy⟩
    exact ⟨g, hx, hy⟩
  · rintro ⟨g, hx, hy⟩
    exact ⟨⟨⟩, g, hx, hy⟩

lemma run_bind_of_ok {k : α → Pass β} (h : x.run f = .ok (a, f')) :
  (x >>= k).run f = (k a).run f' := by
  rw [StateT.run_bind, h]
  rfl

lemma run_pure_ok {b : α} : (pure a : Pass α).run f = .ok (b, f') ↔ a = b ∧ f = f' := by
  show ok (a, f) = ok (b, f') ↔ _
  simp

lemma run_get_ok : (get : Pass Fn).run f = .ok (g, f') ↔ f = g ∧ f = f' := by
  show ok (f, f) = ok (g, f') ↔ _
  simp

lemma run_get_bind {k : Fn → Pass β} : (get >>= k).run f = (k f).run f := rfl

lemma run_set_ok : (set g : Pass PUnit).run f = .ok (u, f') ↔ g = f' := by
  show ok ((⟨⟩ : PUnit), g) = ok (u, f') ↔ _
  simp

lemma run_modify_ok {g : Fn → Fn} : (modify g : Pass PUnit).run f = .ok (u, f') ↔ g f = f' := by
  show ok ((⟨⟩ : PUnit), g f) = ok (u, f') ↔ _
  simp

lemma run_modify (g : Fn → Fn) : (modify g : Pass PUnit).run f = .ok ((), g f) := rfl

lemma run_modifyGet_ok {g : Fn → α × Fn} :
  (modifyGet g : Pass α).run f = .ok (a, f') ↔ g f = (a, f') := by
  show ok ((g f).1, (g f).2) = ok (a, f') ↔ _
  rw [ok.injEq]

lemma run_throw_ok {e : Fault} : ¬ (throw e : Pass α).run f = .ok (a, f') := by
  show ¬ error e = ok (a, f')
  simp

lemma run_require_ok : (require cond why).run f = .ok (u, f') ↔ cond = true ∧ f = f' := by
  cases cond with
  | false => exact ⟨fun h => absurd h run_throw_ok, fun h => absurd h.1 (by decide)⟩
  | true => exact run_pure_ok.trans ⟨fun h => ⟨rfl, h.2⟩, fun h => ⟨rfl, h.2⟩⟩

lemma run_require (h : cond = true) :
  (require cond why).run f = .ok ((), f) := run_require_ok.2 ⟨h, rfl⟩

lemma run_attempt_ok {x : Res α} : (attempt x).run f = .ok (a, f') ↔ x = .ok a ∧ f = f' := by
  cases x with
  | error e =>
    show error e = ok (a, f') ↔ _
    simp
  | ok b =>
    show ok (b, f) = ok (a, f') ↔ _
    simp

lemma run_newIns_ok : (newIns op args).run f = .ok (i, f') ↔
  f.code.size = i ∧ { f with code := f.code.push (.of op args) } = f' := by
  unfold newIns
  rw [run_modifyGet_ok, Prod.mk.injEq]

lemma run_resetIns_ok : (resetIns i op args).run f = .ok (u, f') ↔
  args.length = op.opnds.length ∧ f.setIns i (.of op args) = f' := by
  unfold resetIns
  rw [run_seq_ok]
  simp only [run_modify_ok, run_require_ok, beq_iff_eq]
  constructor
  · rintro ⟨g, ⟨hlen, rfl⟩, rfl⟩
    exact ⟨hlen, rfl⟩
  · rintro ⟨hlen, rfl⟩
    exact ⟨f, ⟨hlen, rfl⟩, rfl⟩

/-! ## Loops -/

lemma run_mapM_nil {g : α → Pass β} {bs : List β} :
  ([].mapM g).run f = .ok (bs, f') ↔ bs = [] ∧ f' = f := by
  rw [mapM_nil, run_pure_ok]
  exact and_congr eq_comm eq_comm

lemma run_mapM_cons {g : α → Pass β} {bs : List β} : ((a :: as).mapM g).run f = .ok (bs, f') ↔
  ∃ b h cs, (g a).run f = .ok (b, h) ∧ (as.mapM g).run h = .ok (cs, f') ∧ bs = b :: cs := by
  rw [mapM_cons]
  simp only [run_bind_ok, run_pure_ok]
  constructor
  · rintro ⟨b, h, hb, cs, f2, hcs, rfl, rfl⟩
    exact ⟨b, h, cs, hb, hcs, rfl⟩
  · rintro ⟨b, h, cs, hb, hcs, rfl⟩
    exact ⟨b, h, hb, cs, f', hcs, rfl, rfl⟩

lemma run_forM_nil {g : α → Pass PUnit} : ([].forM g).run f = .ok (u, f') ↔ f = f' := by
  show (pure ⟨⟩ : Pass PUnit).run f = .ok (u, f') ↔ _
  rw [run_pure_ok]
  simp

lemma run_forM_cons {g : α → Pass PUnit} : ((a :: as).forM g).run f = .ok (u, f') ↔
  ∃ h, (g a).run f = .ok ((), h) ∧ (as.forM g).run h = .ok ((), f') := by
  show (g a >>= fun _ => as.forM g).run f = .ok (u, f') ↔ _
  rw [run_seq_ok]

lemma run_forIn_nil (body : α → PUnit → Pass (ForInStep PUnit)) :
  (forIn [] PUnit.unit body).run f = .ok ((), f) := rfl

lemma run_forIn_cons (h : (body a ⟨⟩).run f = .ok (.yield ⟨⟩, f')) :
  (forIn (a :: as) PUnit.unit body).run f = (forIn as PUnit.unit body).run f' := by
  rw [forIn_cons, run_bind_of_ok h]

lemma run_forIn_same (h : ∀ a ∈ as, (body a ⟨⟩).run f = .ok (.yield ⟨⟩, f)) :
  (forIn as PUnit.unit body).run f = .ok ((), f) := by
  induction as with
  | nil => exact run_forIn_nil body
  | cons a as ih =>
    rw [run_forIn_cons (h a (.head _))]
    exact ih fun b hb => h b (.tail _ hb)

lemma run_map_ok {g : α → β} {b : β} :
  (g <$> x).run f = .ok (b, f') ↔ ∃ a, x.run f = .ok (a, f') ∧ g a = b := by
  rw [map_eq_pure_bind, run_bind_ok]
  simp only [run_pure_ok]
  constructor
  · rintro ⟨a, g, hx, rfl, rfl⟩
    exact ⟨a, hx, rfl⟩
  · rintro ⟨a, hx, rfl⟩
    exact ⟨a, f', hx, rfl, rfl⟩

lemma run_discard_ok : (discard x).run f = .ok (u, f') ↔ ∃ a, x.run f = .ok (a, f') := by
  show ((fun _ => PUnit.unit) <$> x).run f = .ok (u, f') ↔ _
  rw [run_map_ok]
  simp

lemma filterAuxM_eq_map (p : α → Pass Bool) (as acc : List α) :
  as.filterAuxM p acc = (· ++ acc) <$> as.filterAuxM p [] := by
  induction as generalizing acc with
  | nil => simp
  | cons a as ih =>
    simp only [List.filterAuxM, map_bind]
    congr 1
    funext b
    rw [ih (cond b (a :: acc) acc), ih (cond b [a] [])]
    cases b <;> simp

lemma run_filterM_nil {bs : List α} : ([].filterM p).run f = .ok (bs, f') ↔ bs = [] ∧ f' = f := by
  show (pure [] : Pass (List α)).run f = .ok (bs, f') ↔ _
  rw [run_pure_ok]
  exact and_congr eq_comm eq_comm

lemma run_filterM_cons {bs : List α} : ((a :: as).filterM p).run f = .ok (bs, f') ↔
  ∃ b h cs, (p a).run f = .ok (b, h) ∧ (as.filterM p).run h = .ok (cs, f') ∧
    bs = if b then a :: cs else cs := by
  have hcons : (a :: as).filterM p =
      p a >>= fun b => (fun cs => if b then a :: cs else cs) <$> as.filterM p := by
    simp only [List.filterM, List.filterAuxM, bind_assoc]
    congr 1
    funext b
    rw [filterAuxM_eq_map p as (cond b [a] [])]
    cases b <;> simp
  rw [hcons]
  simp only [run_bind_ok, run_map_ok]
  constructor
  · rintro ⟨b, h, hb, cs, hcs, rfl⟩
    exact ⟨b, h, cs, hb, hcs, rfl⟩
  · rintro ⟨b, h, cs, hb, hcs, rfl⟩
    exact ⟨b, h, hb, cs, hcs, rfl⟩

end Retarget.IR.Pass

/-!
## Reading a function after a change

A change at one position of a table shows at that position and nowhere else, and a change of one
table does not show in the others.
-/

namespace Retarget.IR.Fn
open Array
variable {b c : BlkId} {i : InsId} {t : TableId} {γ : Type}
variable {f : Fn}

/-! ## Blocks -/

@[simp] lemma blks_size_modBlk (b : BlkId) (g : Blk → Blk) :
  (f.modBlk b g).blks.size = f.blks.size := by
  simp [modBlk]

lemma blk_mod_self (g : Blk → Blk) (h : b < f.blks.size) : (f.modBlk b g).blk b = g (f.blk b) := by
  simp [modBlk, blk, h, getElem_modify]

@[simp] lemma blk_mod_ne (g : Blk → Blk) (h : c ≠ b) : (f.modBlk b g).blk c = f.blk c := by
  have hne : b ≠ c := Ne.symm h
  simp [modBlk, blk, getElem?_modify, hne]

lemma blk_mod_field (φ : Blk → γ) {g : Blk → Blk} (hg : ∀ x, φ (g x) = φ x)
  (b c : BlkId) : φ ((f.modBlk b g).blk c) = φ (f.blk c) := by
  by_cases hc : c = b
  · subst hc
    by_cases hlt : c < f.blks.size
    · rw [blk_mod_self g hlt, hg]
    · simp [modBlk, blk, hlt]
  · rw [blk_mod_ne g hc]

@[simp] lemma ins_modBlk (b : BlkId) (g : Blk → Blk) (i : InsId) :
  (f.modBlk b g).ins i = f.ins i := rfl

@[simp] lemma code_modBlk (b : BlkId) (g : Blk → Blk) : (f.modBlk b g).code = f.code := rfl

lemma blk_eq_default (h : f.blks.size ≤ b) : f.blk b = default := by
  simp [blk, h]

lemma named_of_size_le (h : f.blks.size ≤ b) : (f.blk b).named := by
  rw [blk_eq_default h]
  rfl

lemma blk_push_lt (x : Blk) (h : b < f.blks.size) :
  ({ f with blks := f.blks.push x } : Fn).blk b = f.blk b := by
  simp [blk, getElem?_push, h.ne]

lemma blk_push_size (x : Blk) : ({ f with blks := f.blks.push x } : Fn).blk f.blks.size = x := by
  simp [blk]

lemma blk_push_field (φ : Blk → γ) {x : Blk} (hx : φ x = φ default) (b : BlkId) :
  φ (({ f with blks := f.blks.push x } : Fn).blk b) = φ (f.blk b) := by
  rcases Nat.lt_trichotomy b f.blks.size with hb | rfl | hb
  · rw [blk_push_lt x hb]
  · rw [blk_push_size, hx, blk_eq_default le_rfl]
  · rw [blk_eq_default hb.le, blk_eq_default]
    rw [size_push]
    exact hb

/-! ## The code of a block -/

@[simp] lemma blks_size_setCode (b : BlkId) (is : List InsId) :
  (f.setCode b is).blks.size = f.blks.size := blks_size_modBlk b _

lemma code_setCode_self (is : List InsId) (h : b < f.blks.size) :
  ((f.setCode b is).blk b).code = is := by
  rw [setCode, blk_mod_self _ h]

@[simp] lemma blk_setCode_ne (is : List InsId) (h : c ≠ b) :
  (f.setCode b is).blk c = f.blk c := blk_mod_ne _ h

section
variable (b c : BlkId) (is : List InsId)

@[simp] lemma succs_setCode : ((f.setCode b is).blk c).succs = (f.blk c).succs :=
  blk_mod_field Blk.succs (g := fun x => { x with code := is }) (fun _ => rfl) b c

@[simp] lemma preds_setCode : ((f.setCode b is).blk c).preds = (f.blk c).preds :=
  blk_mod_field Blk.preds (g := fun x => { x with code := is }) (fun _ => rfl) b c

@[simp] lemma name_setCode : ((f.setCode b is).blk c).name = (f.blk c).name :=
  blk_mod_field Blk.name (g := fun x => { x with code := is }) (fun _ => rfl) b c

@[simp] lemma named_setCode : ((f.setCode b is).blk c).named = (f.blk c).named :=
  blk_mod_field Blk.named (g := fun x => { x with code := is }) (fun _ => rfl) b c

end

@[simp] lemma setCode_code (b : BlkId) : f.setCode b (f.blk b).code = f := by
  have hsame : f.blks.modify b (fun x => { x with code := (f.blk b).code }) = f.blks := by
    apply ext
    · simp
    · intro c hc hc'
      by_cases hcb : b = c
      · subst hcb
        rw [getElem_modify]
        simp [blk, hc']
      · rw [getElem_modify, if_neg hcb]
  rw [setCode, modBlk, hsame]

/-! ## Instructions -/

@[simp] lemma blk_setIns (i : InsId) (x : Ins) (b : BlkId) : (f.setIns i x).blk b = f.blk b := rfl
@[simp] lemma blks_setIns (i : InsId) (x : Ins) : (f.setIns i x).blks = f.blks := rfl

@[simp] lemma code_size_setIns (i : InsId) (x : Ins) : (f.setIns i x).code.size = f.code.size := by
  simp [setIns]

lemma ins_setIns_self (x : Ins) (h : i < f.code.size) : (f.setIns i x).ins i = x := by
  simp [setIns, ins, h]

@[simp] lemma ins_setIns_ne {j : InsId} (x : Ins) (h : j ≠ i) : (f.setIns i x).ins j = f.ins j := by
  have hne : i ≠ j := Ne.symm h
  simp [setIns, ins, hne]

lemma setIns_of_size_le (x : Ins) (h : f.code.size ≤ i) : f.setIns i x = f := by
  simp [setIns, setIfInBounds_eq_of_size_le h]

@[simp] lemma setIns_ins (i : InsId) : f.setIns i (f.ins i) = f := by
  by_cases hi : i < f.code.size
  · have hsame : f.code.setIfInBounds i (f.ins i) = f.code := by simp [ins, hi, setIfInBounds]
    rw [setIns, hsame]
  · exact setIns_of_size_le _ (not_lt.1 hi)

lemma ins_eq_nop (h : f.code.size ≤ i) : f.ins i = .nop := by simp [ins, h]

lemma ins_push_lt (x : Ins) (h : i < f.code.size) :
  ({ f with code := f.code.push x } : Fn).ins i = f.ins i := by
  simp [ins, getElem?_push, h.ne]

lemma ins_push_size (x : Ins) : ({ f with code := f.code.push x } : Fn).ins f.code.size = x := by
  simp [ins]

/-! ## Jump tables -/

section
variable (g : JumpTable → JumpTable)

lemma table_modifyTable_self (h : t < f.tables.size) :
  (f.modifyTable t g).table t = g (f.table t) := by
  simp [modifyTable, table, h, getElem_modify]

@[simp] lemma table_modifyTable_ne {u : TableId} (h : u ≠ t) :
  (f.modifyTable t g).table u = f.table u := by
  have hne : t ≠ u := Ne.symm h
  simp [modifyTable, table, getElem?_modify, hne]

lemma modifyTable_of_size_le (h : f.tables.size ≤ t) : f.modifyTable t g = f := by
  have : f.tables.modify t g = f.tables := by
    apply ext
    · simp
    · intro i hi hi'
      rw [getElem_modify]
      have hne : ¬ t = i := (hi'.trans_le h).ne'
      simp [hne]
  simp [modifyTable, this]

end
end Retarget.IR.Fn

/-! ## What passes ensure

The lemmas follow the structure of passes: a loop over code or over blocks keeps an invariant that
may depend on how far it has come. -/

namespace Retarget.IR.Pass
open List
variable {cond : Bool} {g : Fn} {why : String} {act : BlkId → Pass Nat}
  {inv : List BlkId → List BlkId → Fn → Prop} {visit : InsId → Pass (Option (List InsId))}
variable {α β : Type} {f : Fn} {bad : Fault → Prop} {a : α}

/-- Run on `f`, the pass fails only with faults that are `bad`, and else brings about `post`. -/
def Ens (x : Pass α) (f : Fn) (bad : Fault → Prop) (post : α → Fn → Prop) : Prop :=
  match x.run f with
  | .ok (a, g) => post a g
  | .error e => bad e

variable {x : Pass α} {k : α → Pass β} {post : β → Fn → Prop}

lemma Ens.of_ok {post : α → Fn → Prop} (hrun : x.run f = .ok (a, g))
  (h : post a g) : Ens x f bad post := by
  rw [Ens, hrun]
  exact h

lemma Ens.ok {post : α → Fn → Prop} (h : Ens x f bad post)
  (hrun : x.run f = .ok (a, g)) : post a g := by
  rwa [Ens, hrun] at h

lemma Ens.exists_ok {post : α → Fn → Prop}
  (h : Ens x f (fun _ => False) post) : ∃ a g, x.run f = .ok (a, g) ∧ post a g := by
  unfold Ens at h
  split at h
  · rename_i a g hrun
    exact ⟨a, g, hrun, h⟩
  · exact h.elim

lemma Ens.mono {post post' : α → Fn → Prop} (h : Ens x f bad post)
  (himp : ∀ a g, post a g → post' a g) : Ens x f bad post' := by
  unfold Ens at h ⊢
  split
  · rename_i a g hrun
    rw [hrun] at h
    exact himp a g h
  · rename_i e hrun
    rw [hrun] at h
    exact h

lemma Ens.bind {mid : α → Fn → Prop} (hx : Ens x f bad mid)
  (hk : ∀ a g, mid a g → Ens (k a) g bad post) : Ens (x >>= k) f bad post := by
  unfold Ens at hx
  rw [Ens, StateT.run_bind]
  split at hx
  · rename_i a g hrun
    rw [hrun]
    exact hk a g hx
  · rename_i e hrun
    rw [hrun]
    exact hx

lemma ens_pure {post : α → Fn → Prop} (h : post a f) : Ens (pure a) f bad post := h
lemma ens_get_bind {k : Fn → Pass β} (h : Ens (k f) f bad post) : Ens (get >>= k) f bad post := h

lemma ens_newLit {c : Lit} {post : Opnd → Fn → Prop}
  (h : post (.lit f.lits.size) { f with lits := f.lits.push c }) :
    Ens (newLiteral c) f bad post := h

lemma ens_resetIns {i : InsId} {op : Op} {args : List Opnd}
  {post : PUnit → Fn → Prop} (hlen : args.length = op.opnds.length)
  (h : post ⟨⟩ (f.setIns i (.of op args))) : Ens (resetIns i op args) f bad post :=
  .of_ok (run_resetIns_ok.2 ⟨hlen, rfl⟩) h

/-! ## Steps of which it is known what they do -/

lemma ens_bind_of_ok
  (hx : x.run f = .ok (a, g)) (h : Ens (k a) g bad post) : Ens (x >>= k) f bad post := by
  rw [Ens, run_bind_of_ok hx]
  exact h

lemma ens_require_bind {k : PUnit → Pass β} (hc : cond = true)
  (h : Ens (k ⟨⟩) f bad post) : Ens (require cond why >>= k) f bad post :=
  ens_bind_of_ok (run_require hc) h

lemma ens_attempt_bind {x : Res α}
  (hx : x = .ok a) (h : Ens (k a) f bad post) : Ens (attempt x >>= k) f bad post :=
  ens_bind_of_ok (run_attempt_ok.2 ⟨hx, rfl⟩) h

lemma ens_attempt_cases {x : Res α}
  (hbad : ∀ e, x = .error e → bad e) (hok : ∀ a, x = .ok a → Ens (k a) f bad post) :
  Ens (attempt x >>= k) f bad post := by
  cases x with
  | ok a => exact ens_attempt_bind rfl (hok a rfl)
  | error e => exact hbad e rfl

lemma ens_set_bind {k : PUnit → Pass β} (h : Ens (k ⟨⟩) g bad post) :
  Ens (set g >>= k) f bad post := h

lemma ens_modify_bind {u : Fn → Fn} {k : PUnit → Pass β}
  (h : Ens (k ⟨⟩) (u f) bad post) : Ens (modify u >>= k) f bad post := h

/-! ## Loops -/

/-- A loop over blocks keeps what one round keeps. The invariant may tell the blocks that have been
visited from those that have not. -/
lemma ens_sumBlks (hstep : ∀ done b rest g, inv done (b :: rest) g →
  Ens (act b) g bad fun _ h => inv (done ++ [b]) rest h) {done bs : List BlkId}
  (hinv : inv done bs f) : Ens (sumBlks act bs) f bad fun _ g => inv (done ++ bs) [] g := by
  induction bs generalizing done f with
  | nil =>
    rw [append_nil]
    exact ens_pure hinv
  | cons b bs ih =>
    rw [sumBlks]
    refine (hstep done b bs f hinv).bind fun n g hg => ?_
    refine (ih hg).bind fun k h hh => ?_
    rw [append_assoc] at hh
    exact ens_pure hh

lemma ens_overBlks (hstep : ∀ done b rest g, inv done (b :: rest) g →
    Ens (act b) g bad fun _ h => inv (done ++ [b]) rest h)
  (hinv : inv [] f.order f) : Ens (overBlks act) f bad fun _ g => inv f.order [] g := by
  rw [overBlks]
  exact ens_get_bind (ens_sumBlks hstep hinv)

lemma ens_eachBlk {keep : Fn → Prop}
  (hstep : ∀ b ∈ f.order, ∀ g, keep g → Ens (act b) g bad fun _ h => keep h) (h : keep f) :
  Ens (overBlks act) f bad fun _ g => keep g := by
  let inv (_ rest : List BlkId) (g : Fn) : Prop := (∀ b ∈ rest, b ∈ f.order) ∧ keep g
  have hround : ∀ done b rest g, inv done (b :: rest) g →
      Ens (act b) g bad fun _ h => inv (done ++ [b]) rest h := by
    rintro done b rest g ⟨hrest, hg⟩
    refine (hstep b (hrest b (.head _)) g hg).mono fun _ _ h' => ⟨?_, h'⟩
    exact fun c hc => hrest c (.tail _ hc)
  exact (ens_overBlks hround (⟨fun _ hb => hb, h⟩ : inv [] f.order f)).mono fun _ _ h' => h'.2

/-- Visiting the instructions of a sequence keeps what one visit keeps. The invariant may speak of
what has been visited, what that has become and what is left. -/
lemma ens_rewriteCode {inv : List InsId → List InsId → List InsId → Fn → Prop}
  (hstep : ∀ done out i rest g, inv done out (i :: rest) g →
    Ens (visit i) g bad fun r h => inv (done ++ [i]) (out ++ r.getD [i]) rest h)
  {done out is : List InsId} (hinv : inv done out is f) :
  Ens (rewriteCode visit is) f bad fun r g => inv (done ++ is) (out ++ r.2) [] g := by
  induction is generalizing done out f with
  | nil =>
    refine ens_pure ?_
    rw [append_nil, append_nil]
    exact hinv
  | cons i is ih =>
    rw [rewriteCode]
    refine (hstep done out i is f hinv).bind fun r g hg => ?_
    refine (ih hg).bind fun q h hh => ?_
    rw [append_assoc, append_assoc] at hh
    cases r with
    | none | some => exact ens_pure hh

/-- Visiting all instructions of a function, where each stays in its place. The invariant may speak
of the instructions that are left. -/
lemma ens_rewrite {inv : List InsId → Fn → Prop}
  (hcode : ∀ todo g, inv todo g → ∀ b, (g.blk b).code = (f.blk b).code)
  (hstep : ∀ i todo g, inv (i :: todo) g →
    Ens (visit i) g bad fun r h => r.getD [i] = [i] ∧ inv todo h)
  (hinv : inv (f.order.flatMap fun b => (f.blk b).code) f) :
  Ens (rewrite visit) f bad fun _ g => inv [] g := by
  let left (bs : List BlkId) : List InsId := bs.flatMap fun b => (f.blk b).code
  let ahead (_ rest : List BlkId) (g : Fn) : Prop := inv (left rest) g
  have hround : ∀ done b rest g, ahead done (b :: rest) g →
      Ens (rewriteBlk visit b) g bad fun _ h => ahead (done ++ [b]) rest h := by
    intro _ b rest g hg
    let within (done out is : List InsId) (h : Fn) : Prop := out = done ∧ inv (is ++ left rest) h
    have hvisit : ∀ done out i is h, within done out (i :: is) h →
        Ens (visit i) h bad fun r h' => within (done ++ [i]) (out ++ r.getD [i]) is h' := by
      rintro done _ i is h ⟨rfl, hh⟩
      exact (hstep i _ h hh).mono fun r h' h' => ⟨by rw [h'.1], h'.2⟩
    have hsta : within [] [] (g.blk b).code g := by
      refine ⟨rfl, ?_⟩
      rw [hcode _ g hg b]
      exact hg
    refine ens_get_bind ((ens_rewriteCode hvisit hsta).bind ?_)
    rintro ⟨n, code⟩ h ⟨hout, hh⟩
    obtain rfl : code = (h.blk b).code := by
      rw [hcode _ h hh b, ← hcode _ g hg b]
      simpa using hout
    refine ens_modify_bind (ens_pure ?_)
    rwa [Fn.setCode_code]
  exact ens_overBlks hround (show ahead [] f.order f from hinv)

end Retarget.IR.Pass

/-! ## Checks of functions -/

namespace Retarget.IR
open Pass List Text
variable {fuel n : Nat} {base name suffix : String} {f : Fn}

/-! ## Looking up a name -/

lemma findBlk?_eq_none_iff : f.findBlk? name = none ↔
  ∀ b, b < f.blks.size → (f.blk b).named → (f.blk b).name ≠ name := by
  have hblk : ∀ b (hb : b < f.blks.size), f.blk b = f.blks[b] := fun b hb => by
    simp [Fn.blk, hb]
  rw [Fn.findBlk?, Array.findIdx?_eq_none_iff]
  constructor
  · intro h b hb hnmd hname
    have := h (f.blk b) (by rw [hblk b hb]; exact Array.getElem_mem hb)
    simp [hnmd, hname] at this
  · intro h x hx
    obtain ⟨b, hb, rfl⟩ := Array.getElem_of_mem hx
    have := h b hb
    rw [hblk b hb] at this
    cases hnmd : f.blks[b].named with
    | false => simp
    | true => simpa using this hnmd

lemma nameTaken_iff {b : BlkId} : nameTaken f b ↔ ∃ a, a < f.blks.size ∧ (f.blk a).named ∧
  (f.blk a).name = (f.blk b).name := by
  rw [nameTaken, Option.isSome_iff_ne_none, ne_eq, findBlk?_eq_none_iff]
  simp

lemma nameTaken_of_named {b : Nat} (hb : b < f.blks.size)
  (h : (f.blk b).named) : nameTaken f b := nameTaken_iff.2 ⟨b, hb, h, rfl⟩

/-! ## New names -/

lemma freshName_spec (h : freshName f base fuel n = .ok name) :
  f.findBlk? name = none ∧ ∃ k, name = base ++ decimal (k : Nat) := by
  induction fuel generalizing n with
  | zero => cases h
  | succ fuel ih =>
    simp only [freshName] at h
    split at h
    · rename_i hfree
      cases h
      exact ⟨Option.isNone_iff_eq_none.1 hfree, n, rfl⟩
    · exact ih h

lemma freshName_ok_iff : (∃ name, freshName f base fuel n = .ok name) ↔
  ∃ k, n ≤ k ∧ k < n + fuel ∧ f.findBlk? (base ++ decimal k) = none := by
  induction fuel generalizing n with
  | zero =>
    constructor
    · rintro ⟨name, h⟩
      cases h
    · rintro ⟨k, hle, hlt, -⟩
      omega
  | succ fuel ih =>
    simp only [freshName]
    by_cases hfree : f.findBlk? (base ++ decimal n) = none
    · rw [if_pos (Option.isNone_iff_eq_none.2 hfree)]
      exact ⟨fun _ => ⟨n, le_rfl, by omega, hfree⟩, fun _ => ⟨_, rfl⟩⟩
    · rw [if_neg (by simpa using hfree), ih]
      constructor
      · rintro ⟨k, hle, hlt, hk⟩
        exact ⟨k, by omega, by omega, hk⟩
      · rintro ⟨k, hle, hlt, hk⟩
        have hne : k ≠ n := fun hkn => hfree (hkn ▸ hk)
        exact ⟨k, by omega, by omega, hk⟩

def Fn.CanDerive (f : Fn) (stem suffix : String) : Prop :=
  ∃ k : Nat, 1 ≤ k ∧ k ≤ 99999 ∧ f.findBlk? (stem ++ suffix ++ decimal k) = none

lemma derivedName_ok_iff {stem : String} :
  (∃ name, derivedName f stem suffix = .ok name) ↔ f.CanDerive stem suffix := by
  rw [derivedName, freshName_ok_iff]
  refine exists_congr fun k => and_congr_right fun _ => and_congr_left fun _ => ?_
  omega

/-- The number at the end of a derived name can be read off, and so can the stem. -/
lemma stem_eq_of_derived {s t : String} {m : Nat} {c : Char} {cs : List Char}
  (hsuffix : suffix.toList = cs ++ [c]) (hc : c.isDigit = false)
  (h : s ++ suffix ++ decimal m = t ++ suffix ++ decimal n) : s = t := by
  have hlist := congrArg (List.reverse ∘ String.toList) h
  have hdigits : ∀ k : Nat, ∀ d ∈ (decimal k).toList.reverse, d.isDigit := by
    intro k d hd
    have htext : decimal k = String.ofList (Nat.toDigits 10 k) := rfl
    rw [mem_reverse, htext, String.toList_ofList] at hd
    exact Nat.isDigit_of_mem_toDigits (by decide) (by decide) hd
  simp only [Function.comp_apply, String.toList_append, hsuffix, reverse_append,
    reverse_cons, reverse_nil, nil_append] at hlist
  -- What comes before the suffix is what is left after the digits and the suffix.
  have hrest := congrArg (List.dropWhile Char.isDigit) hlist
  simp only [dropWhile_append_of_pos (hdigits m), dropWhile_append_of_pos (hdigits n), cons_append,
    dropWhile_cons, hc, Bool.false_eq_true, if_false, List.cons.injEq, true_and] at hrest
  exact String.toList_injective (reverse_inj.1 (append_cancel_left hrest))

/-! ## Distinct names -/

def Fn.NamesUnique (f : Fn) : Prop :=
  ∀ a b : Nat, a < f.blks.size → b < f.blks.size → (f.blk a).named →
    (f.blk b).named → (f.blk a).name = (f.blk b).name → a = b

lemma Fn.NamesUnique.of_le {g : Fn} (h : f.NamesUnique) (hsize : g.blks.size = f.blks.size)
  (hname : ∀ b, (g.blk b).name = (f.blk b).name)
  (hnmd : ∀ b, (g.blk b).named → (f.blk b).named) : g.NamesUnique := by
  intro a b ha hb hna hnb hab
  rw [hname, hname] at hab
  exact h a b (hsize ▸ ha) (hsize ▸ hb) (hnmd a hna) (hnmd b hnb) hab

lemma Fn.NamesUnique.push {x : Blk} (h : f.NamesUnique)
  (hx : f.findBlk? x.name = none) : ({ f with blks := f.blks.push x } : Fn).NamesUnique := by
  have hfree := findBlk?_eq_none_iff.1 hx
  have hcases : ∀ a, a < (f.blks.push x).size → a < f.blks.size ∨ a = f.blks.size := by
    intro a ha
    rw [Array.size_push] at ha
    omega
  intro a b ha hb hna hnb hab
  rcases hcases a ha with ha | rfl <;> rcases hcases b hb with hb | rfl
  · rw [Fn.blk_push_lt x ha] at hna hab
    rw [Fn.blk_push_lt x hb] at hnb hab
    exact h a b ha hb hna hnb hab
  · rw [Fn.blk_push_lt x ha] at hna hab
    rw [Fn.blk_push_size x] at hab
    exact absurd hab (hfree a ha hna)
  · rw [Fn.blk_push_lt x hb] at hnb hab
    rw [Fn.blk_push_size x] at hab
    exact absurd hab.symm (hfree b hb hnb)
  · rfl

/-!
## What the check asks for

`checkFn` accepts a function if its blocks and names correspond, if every block satisfies `BlkOk`,
and if instructions refer to things that exist.
-/

variable {s : ArgState} {args linear : Bool} {bs : List BlkId} {is : List InsId}
  {p : Prog} {α : Type}

lemma ensure_ok {c : Bool} {why : String} {u : Unit} : ensure c why = .ok u ↔ c = true := by
  unfold ensure
  cases c <;> simp

lemma orFault_ok {e : Fault} {o : Option α} {a : α} : orFault e o = .ok a ↔ o = some a := by
  cases o <;> simp [orFault]

lemma except_seq_ok {x : Res Unit} {y : Res α} {a : α} :
  (x >>= fun _ => y) = .ok a ↔ x = .ok () ∧ y = .ok a := by
  rw [bind_ok]
  constructor
  · rintro ⟨⟨⟩, hx, hy⟩
    exact ⟨hx, hy⟩
  · rintro ⟨hx, hy⟩
    exact ⟨(), hx, hy⟩

lemma forM_ok {as : List α} {φ : α → Res Unit} : as.forM φ = .ok () ↔ ∀ a ∈ as, φ a = .ok () := by
  induction as with
  | nil => simp [pure, Except.pure]
  | cons a as ih =>
    rw [forall_mem_cons, ← ih]
    exact except_seq_ok

lemma forall_append_cons (P : α → List α → Prop) {c : α} {cs : List α} :
  (∀ as b rest, c :: cs = as ++ b :: rest → P b rest) ↔
    P c cs ∧ ∀ as b rest, cs = as ++ b :: rest → P b rest := by
  constructor
  · intro h
    exact ⟨h [] c cs rfl, fun as b rest hcs => h (c :: as) b rest (by rw [hcs]; rfl)⟩
  · rintro ⟨hc, hrest⟩ as b rest h
    cases as with
    | nil =>
      cases h
      exact hc
    | cons a as => exact hrest as b rest (List.cons.inj h).2

/-! ## Operands -/

lemma Fn.kindOf_congr {g : Fn} (hregs : g.regs = f.regs) (hlits : g.lits = f.lits) (a : Opnd) :
  g.kindOf a = f.kindOf a := by
  cases a <;> simp only [kindOf, reg, lit, hregs, hlits]

lemma checkOpnds_cons {k : OpndKind × Constr} {ks : OpndKinds}
  {a : Opnd} {as : List Opnd} {prev : Kind} :
  checkOpnds.{0} f (k :: ks) (a :: as) prev = .ok () ↔ fitsPlace k.1 a ∧
    ((a.isReg || a.isLit) → k.2.holds? prev (f.kindOf a) = some true) ∧
    checkOpnds.{0} f ks as (if a.isReg || a.isLit then f.kindOf a else prev) = .ok () := by
  rw [checkOpnds]
  cases fitsPlace k.1 a <;> cases a.isReg || a.isLit <;> simp
  split <;> simp [*]

/-! ## References -/

/-- The operands of an instruction are of the sort that their places ask for, and they exist. -/
def Referenced (p : Prog) (f : Fn) (x : Ins) : Prop :=
  ∀ y ∈ x.args.zip x.op.opnds, checkRef p f y.2.1 y.1

lemma checkCode_cons_ok {i : InsId} :
  checkCode p f args (i :: is) s = .ok () ↔ Referenced p f (f.ins i) ∧
    ∃ s', (if args then stepArgs p f (f.ins i) s else pure s) = .ok s' ∧
      checkCode p f args is s' = .ok () := by
  have hargs : (((f.ins i).args.zip (f.ins i).op.opnds).all fun x =>
      checkRef p f x.2.1 x.1) ↔ Referenced p f (f.ins i) := by
    rw [Referenced, all_eq_true]
  cases args with
  | true =>
    simp only [checkCode, except_seq_ok, ensure_ok]
    exact and_congr hargs bind_ok
  | false =>
    simp only [checkCode, except_seq_ok, ensure_ok, Bool.false_eq_true, if_false, pure,
      Except.pure, Except.ok.injEq, exists_eq_left']
    exact and_congr_left fun _ => hargs

lemma checkCode_ok (h : checkCode p f args is s = .ok ()) : ∀ i ∈ is, Referenced p f (f.ins i) := by
  induction is generalizing s with
  | nil => simp
  | cons i is ih =>
    obtain ⟨hi, s', -, hrest⟩ := checkCode_cons_ok.1 h
    exact forall_mem_cons.2 ⟨hi, ih hrest⟩

lemma checkCode_of_referenced (h : ∀ i ∈ is, Referenced p f (f.ins i)) :
  checkCode p f false is s = .ok () := by
  induction is generalizing s with
  | nil => rfl
  | cons i is ih =>
    obtain ⟨hi, hrest⟩ := forall_mem_cons.1 h
    exact checkCode_cons_ok.2 ⟨hi, s, rfl, ih hrest⟩

/-! ## Blocks -/

/-- What the check asks of a block that is followed by `next`. -/
structure BlkOk (f : Fn) (linear : Bool) (b : BlkId) (next : Option BlkId) : Prop where
  name : nameTaken f b
  succs : ∀ s ∈ (f.blk b).succs, nameTaken f s
  preds : ∀ a ∈ (f.blk b).preds, nameTaken f a
  inner : ∀ i ∈ (f.blk b).code.dropLast,
    (f.ins i).op.isTerm = false ∧ checkTyping f (f.ins i) = .ok ()
  ending : checkBlkEnd f b next linear = .ok ()

lemma checkBlks_cons_ok {b : BlkId} : checkBlks f linear (b :: bs) = .ok () ↔
  BlkOk f linear b bs.head? ∧ checkBlks f linear bs = .ok () := by
  simp only [checkBlks, except_seq_ok, ensure_ok, all_eq_true]
  rw [forM_ok]
  simp only [except_seq_ok, ensure_ok, Bool.not_eq_true']
  constructor
  · rintro ⟨hname, hsuc, hpreds, hin, hend, hrest⟩
    exact ⟨⟨hname, hsuc, hpreds, hin, hend⟩, hrest⟩
  · rintro ⟨⟨hname, hsuc, hpreds, hin, hend⟩, hrest⟩
    exact ⟨hname, hsuc, hpreds, hin, hend, hrest⟩

lemma checkBlks_ok_iff : checkBlks f linear bs = .ok () ↔
  ∀ as b rest, bs = as ++ b :: rest → BlkOk f linear b rest.head? := by
  induction bs with
  | nil => simp [checkBlks]
  | cons c cs ih =>
    rw [checkBlks_cons_ok, ih]
    exact (forall_append_cons fun b rest => BlkOk f linear b rest.head?).symm

/-! ## Functions -/

lemma checkFn_ok_iff {o : CheckOptions} (hne : f.order ≠ []) (heds : o.edges) :
  checkFn p f o = .ok () ↔ f.order.length = f.namedCount ∧ checkBlks f o.linear f.order = .ok () ∧
      checkCode p f o.args (f.order.flatMap fun b => (f.blk b).code) ⟨[], f.inputs⟩ = .ok () := by
  have hempty : f.order.isEmpty = false := by simpa using hne
  simp only [checkFn, except_seq_ok, ensure_ok, hempty, heds, Bool.false_eq_true, if_false,
    if_true, beq_iff_eq]

lemma checkFn_of_nil (hnil : f.order = []) (o o' : CheckOptions) :
  checkFn p f o = checkFn p f o' := by
  simp [checkFn, hnil]

lemma checkFn_of_args (h : checkFn p f { args := true } = .ok ()) : checkFn p f {} = .ok () := by
  by_cases hnil : f.order = []
  · rw [checkFn_of_nil hnil _ { args := true }, h]
  · rw [checkFn_ok_iff hnil rfl] at h ⊢
    exact ⟨h.1, h.2.1, checkCode_of_referenced (checkCode_ok h.2.2)⟩

end Retarget.IR
