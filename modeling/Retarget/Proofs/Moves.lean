import Retarget.Proofs.Placement
import Retarget.Proofs.Origins

/-!
# Merging moves

A block is run from registers and a record of what has been seen. What is asked for is answered by
the environment, which knows the record, so memory is a part of it. Merging moves changes neither the
record nor any register at the end of a block, and it does not come between parameters.
-/

namespace Retarget.IR
open Pass List Fn Ins

/-- What has been seen, the latest first. -/
abbrev Record := List (Act Lit Deed)
abbrev Config := Record × Regs Lit

variable {f g : Fn} {b : BlkId} {bs : List BlkId} {i d : InsId} {is pre post : List InsId}
  {r dst src : RegId} {v : Lit} {x : Ins} {m : Sem} {env : Record → Lit}

/-! ## Running code -/

/-- The record after an action, and the value that the action gives to registers. -/
def Act.result (env : Record → Lit) (h : Record) : Act Lit Deed → Record × Lit
  | .set _ v => (h, v)
  | .ask e _ => (.ask e [] :: h, env (.ask e [] :: h))
  | a => (a :: h, default)

namespace Sem

def step (m : Sem) (env : Record → Lit) (f : Fn) (t : Config) (i : InsId) : Config :=
  let r := (m.act f i t.2).result env t.1
  (r.1, t.2.write (f.ins i).written r.2)

/-- Run the code of a block to its end. Where control goes on from there is in the record. -/
def run (m : Sem) (env : Record → Lit) (f : Fn) : List InsId → Config → Config :=
  flip (foldl (m.step env f))

/-- What comes of an instruction does not depend on the registers that it writes. -/
lemma result_does {y : Ins} (h : Framed f g bs is) (hop : y.op = x.op)
  (hkind : g.destKind y = g.destKind x)
  (hargs : y.args.drop y.op.defCount = x.args.drop x.op.defCount) (s : Regs Lit)
  (k : Record) : (m.does g y s).result env k = (m.does f x s).result env k := by
  have htbl : g.table = f.table := funext fun t => by rw [Fn.table, Fn.table, h.tables]
  have hregs : g.destKind x = f.destKind x := by simp only [Fn.destKind, Fn.reg, h.regs]
  have hsources : g.srcs y s = f.srcs x s := by
    rw [Fn.srcs, hargs]
    refine map_congr_left fun a _ => ?_
    cases a <;> simp only [Fn.argOf, Fn.lit, h.lits]
  rw [does, does, htbl, hkind, hregs, hop, hsources]
  unfold perform
  split <;> rfl

lemma step_congr (h : Framed f g bs is) (hi : g.ins i = f.ins i) (t : Config) :
  m.step env g t i = m.step env f t i := by
  rw [step, step, act, act, result_does h (by rw [hi]) (by rw [hi]) (by rw [hi]), hi]

lemma run_congr {js : List InsId} (h : Framed f g bs js) (his : ∀ i ∈ is, g.ins i = f.ins i)
  (t : Config) : m.run env g is t = m.run env f is t :=
  foldl_ext _ _ t fun t i hi => step_congr h (his i hi) t

lemma step_mov (hop : (f.ins i).op = .mov) (hargs : (f.ins i).args = [.reg dst, .reg src])
  (t : Config) : m.step env f t i = (t.1, t.2.write [dst] (t.2 src)) := by
  have hact : m.act f i t.2 = .set (f.ins i).written (t.2 src) := m.does_mov hop hargs rfl
  have hwr : (f.ins i).written = [dst] := by simp [written, hop, hargs, Opnd.reg?]; rfl
  rw [step, hact, hwr]
  rfl

lemma act_write (h : r ∉ (f.ins i).read) (s : Regs Lit) :
  m.act f i (s.write [r] v) = m.act f i s := by
  refine m.does_congr rfl rfl rfl rfl (map_congr_left fun a ha => ?_)
  cases a with
  | reg q =>
    have hne : q ∉ [r] := fun hq => h (mem_filterMap.2 ⟨_, mem_singleton.1 hq ▸ ha, rfl⟩)
    simp only [Fn.argOf, Regs.write_of_notMem hne]
  | _ => rfl

lemma write_comm {s : Regs Lit} {w : Lit} {rs : List RegId} (h : r ∉ rs) :
  (s.write [r] v).write rs w = (s.write rs w).write [r] v := by
  funext q
  by_cases hq : q = r
  · subst hq
    rw [Regs.write_of_notMem h, Regs.write_of_mem (by simp), Regs.write_of_mem (by simp)]
  · simp [Regs.write, hq]

/-- A move can be made before or after code that keeps its source and has nothing to do with its
destination. -/
lemma run_moved (m : Sem) (env : Record → Lit)
  (h : ∀ i ∈ is, src ∉ (f.ins i).written ∧ dst ∉ (f.ins i).written ∧ dst ∉ (f.ins i).read)
  (t : Config) : m.run env f is (t.1, t.2.write [dst] (t.2 src)) =
    ((m.run env f is t).1, (m.run env f is t).2.write [dst] ((m.run env f is t).2 src)) := by
  induction is generalizing t with
  | nil => rfl
  | cons i is ih =>
    obtain ⟨⟨hsrc, hdst, hread⟩, his⟩ := forall_mem_cons.1 h
    have hstep : m.step env f (t.1, t.2.write [dst] (t.2 src)) i = ((m.step env f t i).1,
        (m.step env f t i).2.write [dst] ((m.step env f t i).2 src)) := by
      simp only [step, act_write hread, write_comm hdst, Regs.write_of_notMem hsrc]
    rw [run, flip, foldl_cons, hstep]
    exact ih his _

end Sem

/-! ## One merge -/

lemma Ins.args_of_mem_written (h : r ∈ x.written) :
  x.op.defCount = 1 ∧ x.written = [r] ∧ ∃ as, x.args = .reg r :: as := by
  have hle : x.op.defCount ≤ 1 := by
    unfold Op.defCount
    cases x.op.fam <;> decide
  rw [written] at h ⊢
  obtain hcnt | hcnt := Nat.le_one_iff_eq_zero_or_eq_one.1 hle
  · simp [hcnt] at h
  · cases hargs : x.args with
    | nil => simp [hargs] at h
    | cons a as => cases a <;> simp_all [Opnd.reg?]

/-- In `g` the move `i` has been merged with the definition `d` of its source. -/
structure Swapped (f g : Fn) (i d : InsId) (dst src : RegId) : Prop where
  frame : Framed f g [] [d, i]
  op : (f.ins i).op = .mov
  args : (f.ins i).args = [.reg dst, .reg src]
  ne : dst ≠ src
  kind : (f.reg src).kind = (f.reg dst).kind
  source : src ∈ (f.ins d).written
  def_ins : g.ins d = (f.ins d).setArg 0 (.reg dst)
  move_ins : g.ins i = (f.ins i).swap 0 1

namespace Swapped
variable (h : Swapped f g i d dst src)
include h

lemma op_move : (g.ins i).op = .mov := by
  rw [h.move_ins]
  exact h.op

lemma args_move : (g.ins i).args = [.reg src, .reg dst] := by
  rw [h.move_ins, Ins.swap]
  simp [h.args, arg]

lemma written_def : (g.ins d).written = [dst] := by
  obtain ⟨hcnt, -, as, hargs⟩ := args_of_mem_written h.source
  rw [h.def_ins, written, setArg]
  simp [hcnt, hargs, Opnd.reg?]

lemma drop_args_def : (g.ins d).args.drop (g.ins d).op.defCount =
  (f.ins d).args.drop (f.ins d).op.defCount := by
  obtain ⟨hcnt, -, as, hargs⟩ := args_of_mem_written h.source
  rw [h.def_ins, setArg]
  simp [hcnt, hargs]

/-- The definition gives its value to another register. -/
lemma step_def (m : Sem) (env : Record → Lit) (t : Config) : ∃ k v,
  m.step env f t d = (k, t.2.write [src] v) ∧ m.step env g t d = (k, t.2.write [dst] v) := by
  obtain ⟨-, hwr, -⟩ := args_of_mem_written h.source
  have hkind : g.destKind (g.ins d) = g.destKind (f.ins d) := by
    simp only [Fn.destKind, h.written_def, hwr, Fn.reg, h.frame.regs]
    exact h.kind.symm
  refine ⟨_, _, by rw [Sem.step, hwr], ?_⟩
  rw [Sem.step, h.written_def, Sem.act, Sem.result_does h.frame (by rw [h.def_ins]; rfl)
    hkind h.drop_args_def]
  rfl

/-- A merged move has the effect of the move, if the code in between has nothing to do with its
destination and keeps its source. -/
lemma run_eq (hsame : ∀ j ∈ pre ++ post, g.ins j = f.ins j)
  (hpost : ∀ j ∈ post, src ∉ (f.ins j).written ∧ dst ∉ (f.ins j).written ∧ dst ∉ (f.ins j).read)
  (t : Config) :
  m.run env g (pre ++ d :: i :: post) t = m.run env f (pre ++ d :: post ++ [i]) t := by
  rw [forall_mem_append] at hsame
  simp only [Sem.run, flip, foldl_append, foldl_cons, foldl_nil]
  have hpre : foldl (m.step env g) t pre = foldl (m.step env f) t pre :=
    Sem.run_congr h.frame hsame.1 t
  rw [hpre]
  generalize foldl (m.step env f) t pre = u
  obtain ⟨k, v, hf, hg⟩ := h.step_def m env u
  rw [hg, hf, Sem.step_mov h.op_move h.args_move, Sem.step_mov h.op h.args]
  -- After the merge both registers hold the value, as if the move stood right after the definition.
  have hmoved := m.run_moved env hpost (k, u.2.write [src] v)
  dsimp only at hmoved ⊢
  rw [Regs.write_of_mem (mem_singleton_self src), ← Sem.write_comm (by simpa using h.ne)] at hmoved
  rw [Regs.write_of_mem (mem_singleton_self dst)]
  exact (Sem.run_congr h.frame hsame.2 _).trans hmoved

end Swapped

/-! ## Positions -/

namespace Merging
variable {φ : Ins → List RegId} {code : List InsId} {t : Positions} {s : Merging} {p pos : Nat}

lemma mem_positions : (r, p) ∈ positions f φ pos is ↔
  ∃ j, pos ≤ p ∧ is[p - pos]? = some j ∧ r ∈ φ (f.ins j) := by
  simp [positions, mem_zipIdx_iff_le_and_getElem?_sub, and_comm, and_left_comm]

lemma positions_append : positions f φ pos (pre ++ post) =
  positions f φ (pos + pre.length) post ++ positions f φ pos pre := by
  simp [positions, zipIdx_append]

lemma positions_concat : positions f φ pos (pre ++ [d]) =
  (φ (f.ins d)).map (·, pos + pre.length) ++ positions f φ pos pre := by
  simp [positions, zipIdx_append]

lemma positions_congr (h : ∀ j ∈ is, φ (g.ins j) = φ (f.ins j)) :
  positions g φ pos is = positions f φ pos is :=
  flatMap_congr fun q hq => congrArg (map (·, q.2)) (h q.1 (fst_mem_of_mem_zipIdx (mem_reverse.1 hq)))

lemma lookup_positions_eq_none :
  (positions f φ pos is).lookup r = none ↔ ∀ j ∈ is, r ∉ φ (f.ins j) := by
  rw [lookup_eq_none_iff]
  constructor
  · intro h j hj hr
    obtain ⟨k, hk⟩ := mem_iff_getElem?.1 hj
    simpa using h (r, pos + k) (mem_positions.2 ⟨j, Nat.le_add_right _ _, by simpa using hk, hr⟩)
  · rintro h ⟨q, p⟩ hq
    obtain ⟨j, -, hj, hq⟩ := mem_positions.1 hq
    rw [bne_iff_ne]
    rintro rfl
    exact h j (mem_of_getElem? hj) hq

lemma mem_of_lookup (h : t.lookup r = some p) : (r, p) ∈ t := by
  obtain ⟨_, _, rfl, -⟩ := lookup_eq_some_iff.1 h
  simp

/-- The positions tell where the registers that `φ` gives stand last. -/
def Noted (f : Fn) (φ : Ins → List RegId) (code : List InsId) (t : Positions) : Prop :=
  ∀ r, t.lookup r = (positions f φ 0 code).lookup r

/-- What was noted earlier counts only for other registers. -/
lemma noted_append (h : ∀ r, (∀ j ∈ is, r ∉ φ (f.ins j)) → t.lookup r =
  (positions f φ 0 pre).lookup r) : Noted f φ (pre ++ is) (positions f φ pre.length is ++ t) := by
  intro r
  rw [positions_append, lookup_append, lookup_append, Nat.zero_add]
  cases hr : (positions f φ pre.length is).lookup r with
  | some p => rfl
  | none => exact h r (lookup_positions_eq_none.1 hr)

lemma Noted.found (h : Noted f φ code t) (hp : t.lookup r = some p) :
  ∃ pre d post, code = pre ++ d :: post ∧ pre.length = p ∧ r ∈ φ (f.ins d) := by
  obtain ⟨d, -, hd, hr⟩ := mem_positions.1 (mem_of_lookup ((h r).symm.trans hp))
  obtain ⟨hlt, hget⟩ := List.getElem?_eq_some_iff.1 hd
  exact ⟨code.take p, d, code.drop (p + 1), by rw [← hget]; simp, by simp at hlt ⊢; omega, hr⟩

section
variable (h : Noted f φ (pre ++ d :: post) t)
include h

lemma Noted.lookup_eq (r : RegId) : t.lookup r = ((positions f φ (pre.length + 1) post).lookup r).or
  ((positions f φ 0 (pre ++ [d])).lookup r) := by
  rw [h r, append_cons, positions_append, lookup_append]
  simp

lemma Noted.behind (hr : ∀ p, t.lookup r = some p → p ≤ pre.length) :
  ∀ j ∈ post, r ∉ φ (f.ins j) := by
  refine lookup_positions_eq_none.1 (?_ : (positions f φ (pre.length + 1) post).lookup r = none)
  by_contra hne
  obtain ⟨p, hp⟩ := Option.ne_none_iff_exists'.1 hne
  have hle := hr p (by rw [h.lookup_eq, hp]; rfl)
  obtain ⟨-, hlt, -⟩ := mem_positions.1 (mem_of_lookup hp)
  omega

/-- After a merge positions are noted again from the move on. -/
lemma Noted.swap {t' : Positions} (hpost : ∀ j ∈ post, g.ins j = f.ins j)
  (ht' : ∀ r ∉ φ (g.ins i), t.lookup r = (positions f φ 0 (pre ++ [d])).lookup r →
    t'.lookup r = (positions g φ 0 (pre ++ [d])).lookup r) :
  Noted g φ (pre ++ d :: i :: post) (positions g φ (pre.length + 1) (i :: post) ++ t') := by
  have hnoted : Noted g φ (pre ++ [d] ++ i :: post)
      (positions g φ (pre ++ [d]).length (i :: post) ++ t') := by
    refine noted_append fun r hr => ?_
    rw [forall_mem_cons] at hr
    refine ht' r hr.1 ?_
    rw [h.lookup_eq, lookup_positions_eq_none.2 fun j hj => hpost j hj ▸ hr.2 j hj]
    rfl
  simpa using hnoted

end

lemma mergePoint_eq_some (h : s.mergePoint g x = some (dst, src, pos)) :
  x.op = .mov ∧ x.args = [.reg dst, .reg src] ∧ dst ≠ src ∧ s.lastDef.lookup src = some pos ∧
    (∀ j, s.code[pos + 1]? = some j → (g.ins j).op ≠ .poparg) ∧
    (∀ p, s.lastDef.lookup dst = some p → p ≤ pos) ∧
    ∀ p, s.lastUse.lookup dst = some p → p ≤ pos := by
  unfold mergePoint at h
  split at h
  · rename_i hop hargs
    split at h
    · cases h
    · split at h
      · cases h
      · rename_i hne _ _ hpos
        dsimp only at h
        split at h
        · cases h
        · rename_i hnone
          cases h
          simp only [Bool.or_eq_true, not_or, Bool.not_eq_true, Option.any_eq_false,
            decide_eq_false_iff_not, Nat.not_lt, beq_eq_false_iff_ne] at hnone
          exact ⟨hop, hargs, hne, hpos, hnone.1.1, hnone.1.2, hnone.2⟩
  · cases h

end Merging

/-! ## The pass -/

lemma infix_insert {p : InsId → Prop} {as bs : List InsId} (h : is <:+: as ++ bs)
  (his : ∀ j ∈ is, p j) (hbs : ∀ j, bs.head? = some j → ¬ p j) (i : InsId) :
  is <:+: as ++ i :: bs := by
  obtain ⟨s, t, h⟩ := h
  rcases append_eq_append_iff.1 h with ⟨c, rfl, rfl⟩ | ⟨c, hc, rfl⟩
  · exact ⟨s, c ++ i :: bs, by simp⟩
  · rcases append_eq_append_iff.1 hc with ⟨e, rfl, rfl⟩ | ⟨e, rfl, rfl⟩
    · cases c with
      | nil => exact ⟨s, i :: t, by simp⟩
      | cons j c => exact absurd (his j (by simp)) (hbs j rfl)
    · exact ⟨as ++ i :: e, t, by simp⟩

/-- The instructions `done` have been taken over. -/
structure Merged (f g : Fn) (done : List InsId) (s : Merging) : Prop where
  frame : Framed f g [] done
  op : ∀ j : Nat, j < f.code.size → (g.ins j).op = (f.ins j).op
  perm : s.code.Perm done
  defs : Merging.Noted g written s.code s.lastDef
  uses : Merging.Noted g read s.code s.lastUse
  run : ∀ (m : Sem) env t, m.run env g s.code t = m.run env f done t
  params : ∀ is, (∀ j ∈ is, (f.ins j).op = .poparg) → (is <:+: done → is <:+: s.code) ∧
    (is <:+ done → is <:+ s.code)

section
variable {done : List InsId} {s : Merging} {g' : Fn} {n pos : Nat}

lemma Merged.refl (f : Fn) : Merged f f [] {} :=
  ⟨.refl f _ _, fun _ _ => rfl, .nil, fun _ => rfl, fun _ => rfl, fun _ _ _ => rfl,
    fun _ _ => ⟨id, id⟩⟩

section
variable (h : Merged f g done s) (hnd : (done ++ [i]).Nodup)
  (hlt : ∀ j ∈ done ++ [i], j < f.code.size)
include h hnd hlt

lemma Merged.ins_eq : g.ins i = f.ins i :=
  h.frame.ins i (hlt i (by simp)) fun hi =>
    disjoint_of_nodup_append hnd hi (mem_singleton_self i)

lemma Merged.run_concat (env : Record → Lit) (t : Config) :
  m.run env g (s.code ++ [i]) t = m.run env f (done ++ [i]) t := by
  have hrun := h.run m env t
  simp only [Sem.run, flip, foldl_append, foldl_cons, foldl_nil] at hrun ⊢
  rw [hrun, Sem.step_congr h.frame (h.ins_eq hnd hlt)]

lemma Merged.keep :
  Merged f g (done ++ [i]) { s.note g s.code.length [i] with code := s.code ++ [i] } := by
  refine ⟨h.frame.mono (fun _ _ h => h) fun _ _ hj => mem_append_left _ hj, h.op,
    h.perm.append_right [i], Merging.noted_append fun r _ => h.defs r,
    Merging.noted_append fun r _ => h.uses r, fun _ => h.run_concat hnd hlt, fun is his => ?_⟩
  have hend : is <:+ done ++ [i] → is <:+ s.code ++ [i] := by
    rw [suffix_concat_iff, suffix_concat_iff]
    rintro (rfl | ⟨js, rfl, hjs⟩)
    · exact .inl rfl
    · exact .inr ⟨js, rfl, (h.params js fun j hj => his j (by simp [hj])).2 hjs⟩
  refine ⟨fun hin => ?_, hend⟩
  rw [infix_concat_iff] at hin ⊢
  exact hin.imp hend (h.params is his).1

lemma Merged.merge (hkind : f.kindOf ((f.ins i).arg 1) = f.kindOf ((f.ins i).arg 0))
  (hpoint : s.mergePoint g (g.ins i) = some (dst, src, pos)) (hd : d = s.code.getD pos 0)
  (hg' : g' = (g.modifyIns d (·.setArg 0 (.reg dst))).modifyIns i (·.swap 0 1)) :
  (g.ins d).arg 0 = .reg src ∧ Merged f g' (done ++ [i]) (Merging.note g'
    ⟨s.code.take (pos + 1) ++ i :: s.code.drop (pos + 1), (dst, pos) :: s.lastDef, s.lastUse, n⟩
    (pos + 1) (i :: s.code.drop (pos + 1))) := by
  obtain ⟨hop, hargs, hne, hpos, hparam, hdef, huse⟩ := Merging.mergePoint_eq_some hpoint
  obtain ⟨pre, d', post, hcode, rfl, hsrc⟩ := h.defs.found hpos
  obtain rfl : d' = d := by simp [hd, hcode]
  have hdefs := h.defs
  have huses := h.uses
  rw [hcode] at hdefs huses
  have hi : i ∉ done := fun hi => disjoint_of_nodup_append hnd hi (mem_singleton_self i)
  have hmem : ∀ j, j ∈ pre ++ d' :: post ↔ j ∈ done := fun j => hcode ▸ h.perm.mem_iff
  have hsize : ∀ j ∈ done ++ [i], j < g.code.size :=
    fun j hj => (hlt j hj).trans_le h.frame.sites
  have hdone : d' ∈ done := (hmem d').1 (by simp)
  have hdi : d' ≠ i := fun heq => hi (heq ▸ hdone)
  have hdlt := hsize d' (by simp [hdone])
  have hilt := hsize i (by simp)
  have hset : g' = (g.setIns d' ((g.ins d').setArg 0 (.reg dst))).setIns i ((g.ins i).swap 0 1) := by
    rw [hg', modifyIns_eq hdlt, modifyIns_eq (by simpa using hilt), ins_setIns_ne _ hdi.symm]
  have hs : Swapped g g' i d' dst src := by
    refine ⟨?_, hop, hargs, hne, ?_, hsrc, ?_, ?_⟩
    · rw [hset]
      exact (Framed.setIns g _ (by simp)).trans (Framed.setIns _ _ (by simp))
    · rw [arg, arg, ← h.ins_eq hnd hlt, hargs] at hkind
      rw [Fn.reg, Fn.reg, h.frame.regs]
      exact hkind
    · rw [hset, ins_setIns_ne _ hdi, ins_setIns_self _ hdlt]
    · rw [hset, ins_setIns_self _ (by simpa using hilt)]
  have hrest : ∀ j ∈ pre ++ post, g'.ins j = g.ins j := by
    intro j hj
    have hdup : (d' :: (pre ++ post)).Nodup :=
      perm_middle.nodup_iff.1 (hcode ▸ h.perm.nodup_iff.2 (nodup_append.1 hnd).1)
    have hj' : j ∈ done := (hmem j).1 (perm_middle.mem_iff.2 (.tail _ hj))
    refine hs.frame.ins j (hsize j (mem_append_left _ hj')) ?_
    rw [mem_cons, mem_singleton]
    rintro (rfl | rfl)
    · exact (nodup_cons.1 hdup).1 hj
    · exact hi hj'
  have htake : s.code.take (pre.length + 1) = pre ++ [d'] := by simp [hcode, take_append]
  have hdrop : s.code.drop (pre.length + 1) = post := by simp [hcode, drop_append]
  obtain ⟨-, hwr, as, hargs'⟩ := args_of_mem_written hsrc
  rw [htake, hdrop, append_assoc, singleton_append]
  rw [forall_mem_append] at hrest
  have hpre : ∀ φ, Merging.positions g' φ 0 pre = Merging.positions g φ 0 pre :=
    fun φ => Merging.positions_congr fun j hj => by rw [hrest.1 j hj]
  refine ⟨by rw [arg, hargs']; rfl, ?_, fun j hj => ?_, ?_, ?_, ?_, fun m env t => ?_,
    fun is his => ?_⟩
  · exact (h.frame.mono (fun _ _ h => h) fun _ _ hj => mem_append_left _ hj).trans
      (hs.frame.mono (fun _ _ h => h) fun j _ hj => by
        rcases mem_cons.1 hj with rfl | hj
        · exact mem_append_left _ hdone
        · exact mem_append_right _ hj)
  · rw [← h.op j hj]
    by_cases hji : j = i
    · rw [hji, hs.op_move, hop]
    by_cases hjd : j = d'
    · rw [hjd, hs.def_ins]
      rfl
    · rw [hs.frame.ins j (hj.trans_le h.frame.sites) (by simp [hji, hjd])]
  · have hmove : pre ++ d' :: i :: post ~ i :: s.code := by
      rw [hcode]
      simpa using (perm_middle : pre ++ [d'] ++ i :: post ~ _)
    exact hmove.trans ((h.perm.cons i).trans (perm_append_singleton i done).symm)
  · refine hdefs.swap hrest.2 fun r hr ht => ?_
    have hwr' : (g'.ins i).written = [src] := by
      rw [written, hs.op_move, hs.args_move]
      rfl
    rw [hwr', mem_singleton] at hr
    rw [Merging.positions_concat, hwr] at ht
    rw [Merging.positions_concat, hs.written_def, hpre]
    simp [lookup_cons, beq_false_of_ne hr, ht]
  · refine huses.swap hrest.2 fun r _ ht => ht.trans ?_
    have hread : (g'.ins d').read = (g.ins d').read := congrArg (filterMap _) hs.drop_args_def
    rw [Merging.positions_concat, Merging.positions_concat, hread, hpre]
  · rw [← h.run_concat hnd hlt, hcode]
    refine hs.run_eq (forall_mem_append.2 hrest) (fun j hj => ?_) t
    exact ⟨hdefs.behind (fun p hp => (Option.some.inj (hp.symm.trans hpos)).le) j hj,
      hdefs.behind hdef j hj, huses.behind huse j hj⟩
  · have hnil : is <:+ done ++ [i] → is = [] := by
      rw [suffix_concat_iff]
      rintro (rfl | ⟨js, rfl, -⟩)
      · rfl
      · have hpop := his i (by simp)
        rw [← h.ins_eq hnd hlt, hop] at hpop
        cases hpop
    refine ⟨fun hin => ?_, fun hend => hnil hend ▸ nil_suffix⟩
    rcases infix_concat_iff.1 hin with hend | hin
    · exact hnil hend ▸ nil_infix
    · have hin := (h.params is his).1 hin
      rw [hcode, append_cons] at hin
      have hnew := infix_insert hin his (fun j hj => ?_) i
      · show is <:+: pre ++ d' :: i :: post
        simpa using hnew
      · have hjd : j ∈ done := (hmem j).1 (by simp [mem_of_mem_head? hj])
        rw [← h.op j (hlt j (mem_append_left _ hjd))]
        refine hparam j ?_
        rw [hcode, getElem?_append_right (by omega), Nat.add_sub_cancel_left]
        simpa [head?_eq_getElem?] using hj

end

lemma mergeStep_ensures {bad : Fault → Prop} (h : Merged f g done s)
  (hnd : (done ++ [i]).Nodup) (hlt : ∀ j ∈ done ++ [i], j < f.code.size)
  (hkind : (f.ins i).op = .mov → f.kindOf ((f.ins i).arg 1) = f.kindOf ((f.ins i).arg 0)) :
  Ens (mergeStep s i) g bad fun s' g' => Merged f g' (done ++ [i]) s' := by
  refine ens_get_bind ?_
  split
  · exact ens_pure (h.keep hnd hlt)
  · rename_i dst src pos hpoint
    have hop : (f.ins i).op = .mov :=
      h.ins_eq hnd hlt ▸ (Merging.mergePoint_eq_some hpoint).1
    obtain ⟨harg, hmerged⟩ := h.merge (n := s.count + 1) hnd hlt (hkind hop) hpoint rfl rfl
    refine ens_require_bind (beq_iff_eq.2 harg) ?_
    exact ens_modify_bind (ens_modify_bind (ens_get_bind (ens_pure hmerged)))

lemma mergeSteps_ensures {bad : Fault → Prop} (h : Merged f g done s)
  (hnd : (done ++ is).Nodup) (hlt : ∀ j ∈ done ++ is, j < f.code.size) (hkind : ∀ i ∈ is,
  (f.ins i).op = .mov → f.kindOf ((f.ins i).arg 1) = f.kindOf ((f.ins i).arg 0)) :
  Ens (is.foldlM mergeStep s) g bad fun s' g' => Merged f g' (done ++ is) s' := by
  induction is generalizing done s g with
  | nil =>
    rw [append_nil]
    exact ens_pure h
  | cons i is ih =>
    rw [append_cons] at hlt hnd
    rw [forall_mem_cons] at hkind
    rw [foldlM_cons, append_cons]
    exact (mergeStep_ensures h (nodup_append.1 hnd).1 (fun j hj => hlt j (mem_append_left _ hj))
      hkind.1).bind fun s' g' h' => ih h' hnd hlt hkind.2

/-- Blocks exist and have their instructions to themselves, and a move is between operands of one
kind. -/
structure Fn.Regular (f : Fn) : Prop where
  nodup : f.order.Nodup
  lt : ∀ b : Nat, b ∈ f.order → b < f.blks.size
  once : (f.order.flatMap fun b => (f.blk b).code).Nodup
  sites : ∀ b ∈ f.order, ∀ i : Nat, i ∈ (f.blk b).code → i < f.code.size
  kinds : ∀ b ∈ f.order, ∀ i ∈ (f.blk b).code, (f.ins i).op = .mov →
    f.kindOf ((f.ins i).arg 1) = f.kindOf ((f.ins i).arg 0)

/-- The code of the block in `g` does what the code of the block does in `f`. -/
structure SameEffect (f g : Fn) (b : BlkId) : Prop where
  perm : (g.blk b).code.Perm (f.blk b).code
  run : ∀ (m : Sem) env t, m.run env g (g.blk b).code t = m.run env f (f.blk b).code t
  params : ∀ is, (∀ j ∈ is, (f.ins j).op = .poparg) → is <:+: (f.blk b).code →
    is <:+: (g.blk b).code ∧ ∀ j ∈ is, (g.ins j).op = .poparg

lemma SameEffect.congr (h : SameEffect f g b) (hg : Framed g g' bs is)
  (hcode : (g'.blk b).code = (g.blk b).code)
  (hins : ∀ i ∈ (f.blk b).code, g'.ins i = g.ins i) : SameEffect f g' b := by
  refine ⟨hcode ▸ h.perm, fun m env t => ?_, fun is his hin => ?_⟩
  · rw [hcode, Sem.run_congr hg fun i hi => hins i (h.perm.mem_iff.1 hi), h.run]
  · obtain ⟨hin', hop⟩ := h.params is his hin
    exact ⟨hcode ▸ hin', fun j hj => by rw [hins j (hin.subset hj), hop j hj]⟩

/-- The blocks `bs` have been visited, and the others not. -/
structure MergedBlks (f : Fn) (bs rest : List BlkId) (g : Fn) : Prop where
  split : bs ++ rest = f.order
  frame : Framed f g bs (bs.flatMap fun b => (f.blk b).code)
  same : ∀ b ∈ bs, SameEffect f g b

lemma mergeMovesIn_ensures {bad : Fault → Prop} {rest : List BlkId} (hf : f.Regular)
  (h : MergedBlks f bs (b :: rest) g) :
  Ens (mergeMovesIn b) g bad fun _ g' => MergedBlks f (bs ++ [b]) rest g' := by
  have hsub : ∀ c ∈ bs ++ [b], c ∈ f.order := by
    rw [← h.split, append_cons bs b rest]
    exact fun c hc => mem_append_left _ hc
  have hb := hsub b (by simp)
  have hne : ∀ c ∈ bs, c ≠ b := by
    have hnd := hf.nodup
    rw [← h.split] at hnd
    rintro c hc rfl
    exact disjoint_of_nodup_append hnd hc mem_cons_self
  -- Other blocks have other instructions.
  have hoth : ∀ c ∈ bs, ∀ i ∈ (f.blk c).code, i ∉ (f.blk b).code := fun c hc i hi hib =>
    hne c hc (eq_of_mem_of_nodup_flatMap hf.once (hsub c (mem_append_left _ hc)) hb hi hib)
  have hcode : (g.blk b).code = (f.blk b).code :=
    h.frame.code b (hf.lt b hb) fun hmem => hne b hmem rfl
  have hins : ∀ i ∈ (f.blk b).code, g.ins i = f.ins i := by
    refine fun i hi => h.frame.ins i (hf.sites b hb i hi) fun hmem => ?_
    obtain ⟨c, hc, hic⟩ := mem_flatMap.1 hmem
    exact hoth c hc i hic hi
  have hsize : ∀ c ∈ bs ++ [b], ∀ i ∈ (f.blk c).code, i < g.code.size :=
    fun c hc i hi => (hf.sites c (hsub c hc) i hi).trans_le h.frame.sites
  have hkind : ∀ i ∈ (f.blk b).code, (g.ins i).op = .mov →
      g.kindOf ((g.ins i).arg 1) = g.kindOf ((g.ins i).arg 0) := by
    intro i hi
    have hkindOf : g.kindOf = f.kindOf := by
      funext a
      cases a <;> simp only [Fn.kindOf, Fn.reg, Fn.lit, h.frame.regs, h.frame.lits]
    rw [hins i hi, hkindOf]
    exact hf.kinds b hb i hi
  refine ens_get_bind ?_
  rw [hcode]
  refine (mergeSteps_ensures (.refl g) ((nodup_flatMap.1 hf.once).1 b hb) (hsize b (by simp))
    hkind).bind fun s k hk => ?_
  refine ens_modify_bind (ens_pure ?_)
  rw [nil_append] at hk
  have hframe : Framed g (k.setCode b s.code) [b] (f.blk b).code :=
    (hk.frame.mono (by simp) fun _ _ hi => hi).trans (.setCode k _ mem_cons_self)
  refine ⟨by simpa using h.split, ?_, forall_mem_append.2 ⟨fun c hc => ?_, ?_⟩⟩
  · rw [flatMap_append, flatMap_singleton]
    exact (h.frame.mono (fun _ _ hc => mem_append_left _ hc) fun _ _ hi => mem_append_left _ hi).trans
      (hframe.mono (fun _ _ hc => mem_append_right _ hc) fun _ _ hi => mem_append_right _ hi)
  · have hlt := (hf.lt c (hsub c (mem_append_left _ hc))).trans_le h.frame.blks
    refine (h.same c hc).congr hframe (hframe.code c hlt (by simpa using hne c hc)) fun i hi => ?_
    exact hframe.ins i (hsize c (mem_append_left _ hc) i hi) (hoth c hc i hi)
  · have hnew : ((k.setCode b s.code).blk b).code = s.code := by
      refine code_setCode_self _ ((hf.lt b hb).trans_le ?_)
      exact h.frame.blks.trans hk.frame.blks
    rw [forall_mem_singleton]
    refine ⟨hnew.symm ▸ hk.perm, fun m env t => ?_, fun is his hin => ?_⟩
    · rw [hnew, ← Sem.run_congr h.frame hins, ← hk.run]
      exact Sem.run_congr (.setCode k _ mem_cons_self : Framed k _ [b] []) (fun _ _ => rfl) t
    · have hops : ∀ j ∈ is, (g.ins j).op = .poparg := fun j hj => by
        rw [hins j (hin.subset hj), his j hj]
      rw [hnew]
      exact ⟨(hk.params is hops).1 hin,
        fun j hj => (hk.op j (hsize b (by simp) j (hin.subset hj))).trans (hops j hj)⟩

/-- Merging moves succeeds and keeps what every block does: from the same registers, and with the
same answers, the same is seen, control leaves in the same way and all registers hold the same in the
end. Parameters that follow each other still do. -/
theorem mergeMoves_sameEffect (hf : f.Regular) :
  ∃ n g, mergeMoves.run f = .ok (n, g) ∧ ∀ b ∈ f.order, SameEffect f g b := by
  have hens : Ens mergeMoves f (fun _ => False) fun _ g => MergedBlks f f.order [] g :=
    ens_overBlks (fun _ _ _ _ h => mergeMovesIn_ensures hf h) ⟨rfl, .refl f _ _, by simp⟩
  obtain ⟨n, g, hrun, hg⟩ := hens.exists_ok
  exact ⟨n, g, hrun, hg.same⟩

end

/-- A parameter is moved to another register. -/
theorem mergeMoves_sameEffect_param : let f : Fn := {
      name := "f", regs := #[{ name := "x", kind := .s32 }, { name := "y", kind := .s32 }]
      code := #[.of .poparg [.reg 0], .of .mov [.reg 1, .reg 0]]
      blks := #[{ name := "b", code := [0, 1] }], order := [0] }
    ∃ g, mergeMoves.run f = .ok (1, g) ∧ ∀ b ∈ f.order, SameEffect f g b := by
  intro f
  obtain ⟨n, g, hrun, hsame⟩ := mergeMoves_sameEffect (f := f)
    ⟨by decide, by decide, by decide, by decide, by decide⟩
  have hcnt : (mergeMoves.run f).toOption.map Prod.fst = some 1 := rfl
  obtain rfl : n = 1 := by simpa [hrun, Except.toOption] using hcnt
  exact ⟨g, hrun, hsame⟩

end Retarget.IR
