import Retarget.Proofs.Origins

/-!
# Combining accesses with address computations

An access whose base is computed from another base can go to that base, with the offsets added up, as
long as what the computation read has not changed. Addresses stay the same modulo their width.
-/

namespace Retarget.IR
open Pass List Op Opnd Ins Sem Fn
variable {d : Def} {pre' : List InsId} {c v : Lit} {n : Nat} {op : Op} {a o : Opnd} {s : Regs Lit}
variable {sem : Sem → Prop} {f g g' : Fn} {first b : BlkId} {entry : BlkId → DefMap}
  {pre : List InsId} {i j : InsId} {x : Ins} {bad : Fault → Prop}

/-! ## Addresses -/

lemma Lit.number_of_off {n : Int} (h : Lit.off n = .ok c) : c.number = n := by
  simp only [Lit.off] at h
  split at h
  · cases h; rfl
  · split at h
    · cases h; rfl
    · split at h
      · cases h; rfl
      · split at h <;> cases h
        rfl

lemma Lit.number_of_addOffs {a b : Lit} (h : addOffs a b = .ok c) :
  c.number = a.number + b.number := by
  obtain ⟨k, m | v⟩ := a <;> obtain ⟨l, n | w⟩ := b <;> try cases h
  exact number_of_off h

lemma Sem.perform_access (m : Sem) {table : TableId → JumpTable} {op' : Op}
  {ds : List RegId} {k : Kind} {A O A' O' : Arg} {rest : List Arg} (hfam : op'.fam = op.fam)
  (haddr : lowBits (m.base A' + m.base O') m.width = lowBits (m.base A + m.base O) m.width)
  (hrest : (op.fam = .ld ∨ op.fam = .lea) ∧ rest = [] ∨ op.fam = .st ∧ ∃ v, rest = [.val v]) :
  m.perform table op' ds k (A' :: O' :: rest) = m.perform table op ds k (A :: O :: rest) := by
  rcases hrest with ⟨hop | hop, rfl⟩ | ⟨hop, v, rfl⟩ <;>
    simp only [perform, hfam, hop, address, pointer, haddr, signedOf_congr haddr]

/-! ## Operands that still hold -/

lemma stillHolds_ok (hshp : a.isValue ∨ (∃ n, a = .mem n) ∨ ∃ n, a = .area n)
  (hkn : ∀ r, a = .reg r → d ≠ .unknown → ∃ d', f.Known first entry b pre r d') :
  ∃ yes, stillHolds (defsThru f pre (entry b)) a d = .ok yes ∧
    (yes = true → ∀ r, a = .reg r → d ≠ .unknown ∧ f.Known first entry b pre r d) := by
  cases a with
  | reg r =>
    by_cases hd : d = .unknown
    · exact ⟨false, by simp [stillHolds, hd], by simp⟩
    · obtain ⟨d', hd'⟩ := hkn r rfl hd
      refine ⟨d' == d, by simp [stillHolds, hd, hd'.found, orFault], ?_⟩
      intro heq q hq
      cases hq
      exact ⟨hd, by rwa [← beq_iff_eq.1 heq]⟩
  | lit | mem | area => exact ⟨true, rfl, by simp⟩
  | _ => simp [isValue, isReg, isLit, reg?, lit?] at hshp

/-- The definition is right for the operand, if it says anything. -/
structure Sourced (f : Fn) (first : BlkId) (entry : BlkId → DefMap) (b : BlkId)
    (pre : List InsId) (a : Opnd) (d : Def) : Prop where
  known : ∀ w, d.waypoint? = some w → ∃ r, a = .reg r ∧ f.Known first entry b pre r d
  present : ∀ r, a = .reg r → d ≠ .absent

lemma Stands.sourced (h : Stands sem f first entry g b pre i x) (hn : x.op.defCount ≤ n)
  (ha : x.args[n]? = some a) : Sourced f first entry b pre a (x.argDef n) := by
  refine ⟨fun w hw => ?_, fun r hr => h.present n r ⟨hr ▸ ha, hn⟩⟩
  obtain ⟨r, hr, hkn⟩ := h.knows n w hw
  exact ⟨r, Option.some.inj (ha.symm.trans hr.1), hkn⟩

/-- What is recorded for an operand where it was read stays right if it has not changed since. -/
lemma Sourced.move {c : BlkId} (h : Sourced f first entry c pre' a d)
  (hstill : ∀ r, a = .reg r → d ≠ .unknown ∧ f.Known first entry b pre r d) :
  Sourced f first entry b pre a d := by
  refine ⟨fun w hw => ?_, h.present⟩
  obtain ⟨r, hr, -⟩ := h.known w hw
  exact ⟨r, hr, (hstill r hr).2⟩

lemma Sourced.exists_known {r : RegId} (h : Sourced f first entry b pre (.reg r) d)
  (hd : d ≠ .unknown) : f.Known first entry b pre r d := by
  obtain ⟨w, hw⟩ : ∃ w, d.waypoint? = some w := by
    cases d with
    | unknown => exact absurd rfl hd
    | absent => exact absurd rfl (h.present r rfl)
    | ins | blk => exact ⟨_, rfl⟩
  obtain ⟨q, hq, hkn⟩ := h.known w hw
  cases hq
  exact hkn

lemma Ins.Fits.access (hx : x.Fits) (hop : x.op = .ld ∨ x.op = .st ∨ x.op = .lea) :
  x.args.length = 3 ∧ x.op.defCount ≤ 1 := by
  rcases hop with hop | hop | hop <;> rw [hx.length, hop] <;> decide

/-- An access to the same address, with another base and another offset. -/
lemma Stands.access {y : Ins} (h : Stands sem f first entry g b pre i x)
  (hop : x.op = .ld ∨ x.op = .st ∨ x.op = .lea) (hfam : y.op.fam = x.op.fam)
  (hargs : y.args = (x.args.set x.op.defCount a).set (x.op.defCount + 1) o)
  (hfits : y.Fits) (hlits : ∀ c : Nat, a = .lit c ∨ o = .lit c → c < g.lits.size)
  (hoth : ∀ n, n ≠ x.op.defCount → n ≠ x.op.defCount + 1 → y.argDef n = x.argDef n ∨
    y.argDef n = .unknown) (hbase : Sourced f first entry b pre a (y.argDef x.op.defCount))
  (hoff : Sourced f first entry b pre o (y.argDef (x.op.defCount + 1)))
  (haddr : ∀ m, sem m → ∀ k s, f.Run first (m.Steps f) k b pre s →
    lowBits (m.base (g.argOf s a) + m.base (g.argOf s o)) m.width =
      lowBits (m.base (g.argOf s (x.arg x.op.defCount)) +
        m.base (g.argOf s (x.arg (x.op.defCount + 1)))) m.width) :
  Stands sem f first entry g b pre i y := by
  generalize hp : x.op.defCount = p at *
  have hcnt : y.op.defCount = p := by rw [← hp, defCount, hfam]; rfl
  obtain ⟨hlen, hp1⟩ := h.fits.access hop
  -- the operands that are replaced, and all others
  have hpart : ∀ n, (∃ z, y.args[n]? = some z ∧ p ≤ n ∧
      Sourced f first entry b pre z (y.argDef n)) ∨
      y.args[n]? = x.args[n]? ∧ (y.argDef n = x.argDef n ∨ y.argDef n = .unknown) := by
    intro n
    by_cases hn : p + 1 = n
    · subst hn
      exact .inl ⟨o, by rw [hargs, getElem?_set_self (by rw [length_set]; omega)], Nat.le_succ p,
        hoff⟩
    by_cases hn' : p = n
    · subst hn'
      exact .inl ⟨a, by rw [hargs, getElem?_set_ne hn, getElem?_set_self (by omega)], le_rfl, hbase⟩
    · exact .inr ⟨by rw [hargs, getElem?_set_ne hn, getElem?_set_ne hn'],
        hoth n (Ne.symm hn') (Ne.symm hn)⟩
  have hwr : y.written = x.written := by
    rw [Ins.written, Ins.written, hcnt, hp, hargs, take_set_of_le (Nat.le_succ p),
      take_set_of_le le_rfl]
  refine ⟨hwr.trans h.written, hfits, ?_, ?_, ?_, ?_, ?_⟩
  · intro c hc
    rw [hargs] at hc
    rcases mem_or_eq_of_mem_set hc with hc | hc
    · rcases mem_or_eq_of_mem_set hc with hc | hc
      · exact h.lits c hc
      · exact hlits c (.inl hc.symm)
    · exact hlits c (.inr hc.symm)
  · intro n w hw
    obtain ⟨z, hz, hle, hsourced⟩ | ⟨hz, hd | hd⟩ := hpart n
    · obtain ⟨r, rfl, hr⟩ := hsourced.known w hw
      exact ⟨r, ⟨hz, hcnt ▸ hle⟩, hr⟩
    · rw [hd] at hw
      obtain ⟨r, hr, hkn⟩ := h.knows n w hw
      exact ⟨r, ⟨hz.trans hr.1, by rw [hcnt, ← hp]; exact hr.2⟩, hd ▸ hkn⟩
    · rw [hd] at hw
      cases hw
  · intro n r hr
    obtain ⟨z, hz, -, hsourced⟩ | ⟨hz, hd | hd⟩ := hpart n
    · exact hsourced.present r (Option.some.inj (hz.symm.trans hr.1))
    · rw [hd]
      exact h.present n r ⟨hz.symm.trans hr.1, by rw [hp, ← hcnt]; exact hr.2⟩
    · simp [hd]
  · intro hterm
    rw [isTerm_eq, hfam] at hterm
    rcases hop with hop | hop | hop <;> rw [hop] at hterm <;> cases hterm
  · intro m hm k s hrun
    rw [← h.does m hm k s hrun]
    obtain ⟨rest, hx, hy, hrest⟩ : ∃ rest,
        g.srcs x s = g.argOf s (x.arg p) :: g.argOf s (x.arg (p + 1)) :: rest ∧
        g.srcs y s = g.argOf s a :: g.argOf s o :: rest ∧
        ((x.op.fam = .ld ∨ x.op.fam = .lea) ∧ rest = [] ∨
          x.op.fam = .st ∧ ∃ v, rest = [.val v]) := by
      obtain ⟨a0, a1, a2, hx⟩ := length_eq_three.1 hlen
      simp only [srcs, hcnt, hargs, arg, hx]
      rcases hop with hop | hop | hop <;> rw [hop] at hp ⊢ <;> obtain rfl := hp
      · exact ⟨[], rfl, rfl, .inl ⟨.inl rfl, rfl⟩⟩
      · have hval := h.fits.arg_isValue (n := 2) (by rw [hop]; rfl) (.inr (.inr rfl))
        obtain ⟨v, hv⟩ := argOf_eq_val hval g s
        rw [arg, hx] at hv
        exact ⟨[.val v], by rw [← hv]; rfl, by rw [← hv]; rfl, .inr ⟨rfl, v, rfl⟩⟩
      · exact ⟨[], rfl, rfl, .inl ⟨.inr rfl, rfl⟩⟩
    have hkind : g.destKind y = g.destKind x := by rw [destKind, destKind, hwr]
    rw [Sem.does, Sem.does, hx, hy, hkind, hwr]
    exact m.perform_access hfam (haddr m hm k s hrun) hrest

/-! ## Bases that have been computed -/

lemma directAccess_spec {base access : Op} (h : directAccess base access = some op) :
  (access = .ld ∨ access = .st ∨ access = .lea) ∧ (base = .mov ∨ base.fam = .lea) ∧
    op.fam = access.fam ∧
    (∀ n, n ≠ access.defCount → op.opnds[n]? = access.opnds[n]?) ∧
    ∀ (k l : OpndKind × Constr) (a : Opnd), base.opnds[1]? = some l →
      op.opnds[access.defCount]? = some k → l.1.admits a → k.1.admits a := by
  have hkinds : ∀ {k l : OpndKind} {a : Opnd}, l.admits a →
      (k = l ∨ (k = .reg ∨ k = .regOrLit) ∧ (l = .reg ∨ l = .regOrLit)) → k.admits a := by
    rintro k l a ha (rfl | ⟨hk, hl⟩)
    · exact ha
    · have hval := OpndKind.isValue_of_admits ha (by tauto)
      rcases isValue_iff.1 hval with ⟨r, rfl⟩ | ⟨c, rfl⟩ <;> rcases hk with rfl | rfl <;> rfl
  unfold directAccess at h
  split at h <;> cases h
  all_goals
    refine ⟨by decide, by decide, rfl, ?_, ?_⟩
    · rintro (_ | _ | _ | n) hn <;> first | rfl | exact absurd rfl hn
    · rintro _ _ a ⟨⟩ ⟨⟩ ha
      exact hkinds ha (by decide)

lemma Sourced.argOf_eq {c : BlkId} {s1 : Regs Lit} (h : Sourced f first entry c pre' a d)
  (hkept : ∀ x d, f.Known first entry c pre' x d → f.Known first entry b pre x d → s x = s1 x)
  (hstill : ∀ r, a = .reg r → d ≠ .unknown ∧ f.Known first entry b pre r d) :
  g.argOf s a = g.argOf s1 a := by
  cases a with
  | reg r =>
    obtain ⟨hd, hhere⟩ := hstill r rfl
    rw [argOf, argOf, hkept r d (h.exists_known hd) hhere]
  | _ => rfl

lemma Ins.Fits.defCount_base (hx : x.Fits) (hop : x.op = .mov ∨ x.op.fam = .lea) :
  x.op.defCount ≤ 1 ∧ 1 < x.args.length := by
  rw [hx.length, opnds_length, defCount]
  rcases hop with hop | hop <;> rw [hop] <;> decide

def Sem.shift (m : Sem) (g : Fn) (s : Regs Lit) (base : Ins) : Int :=
  if base.op = .mov then 0 else m.base (g.argOf s (base.arg 2))

lemma Sem.shift_of_lit {m : Sem} {base : Ins} (hmov : base.op ≠ .mov)
  (hv : g.litOf? (base.arg 2) = some v) : m.shift g s base = v.number := by
  rw [shift, if_neg hmov, argOf_of_litOf? hv]
  rfl

/-- The number that a move or an address computation leaves in its register. -/
lemma Sem.does_base (m : Sem) (hx : x.Fits) (hop : x.op = .mov ∨ x.op.fam = .lea)
  (s : Regs Lit) : ∃ v, m.does g x s = .set x.written v ∧ ∀ n, lowBits (v.number + n) m.width =
      lowBits (m.base (g.argOf s (x.arg 1)) + (m.shift g s x + n)) m.width := by
  rcases hop with hop | hfam
  · obtain ⟨d, a, hargs, ha⟩ := hx.mov_args hop
    obtain ⟨v, hv⟩ := argOf_eq_val ha g s
    have harg : x.arg 1 = a := by rw [arg, hargs]; rfl
    refine ⟨v, m.does_mov hop hargs hv, fun n => ?_⟩
    rw [shift, if_pos hop, harg, hv, Int.zero_add]
    rfl
  · obtain ⟨a0, a1, a2, hargs⟩ := length_eq_three.1 (hx.length_args hfam)
    have hsources : g.srcs x s = [g.argOf s a1, g.argOf s a2] := by
      simp [srcs, defCount, hfam, hargs, Fam.defCount]
    have hne : x.op ≠ .mov := by
      rintro hmov
      rw [hmov] at hfam
      cases hfam
    refine ⟨m.pointer (g.destKind x) (g.argOf s a1) (g.argOf s a2), ?_, fun n => ?_⟩
    · simp only [does, hsources, perform, hfam]
    · rw [shift, if_neg hne, arg, arg, hargs, ← Int.add_assoc]
      exact lowBits_signedOf_add _ _ _

/-- The offset of a combined access and its definition. A new literal is the sum of two others. -/
inductive Combined (g : Fn) (x base : Ins) (p : Nat) : Opnd → Def → Option Lit → Prop where
  | own (h : base.op = .mov ∨ ∃ z, g.litOf? (base.arg 2) = some z ∧ z.isZero) :
      Combined g x base p (x.arg p) (x.argDef p) none
  | theirs {z : Lit} (hmov : base.op ≠ .mov) (h : g.litOf? (x.arg p) = some z)
      (hz : z.isZero) : Combined g x base p (base.arg 2) (base.argDef 2) none
  | sum {u v w : Lit} (hmov : base.op ≠ .mov) (hu : g.litOf? (x.arg p) = some u)
      (hv : g.litOf? (base.arg 2) = some v) (hw : addOffs u v = .ok w) :
      Combined g x base p (x.arg p) .absent (some w)

lemma combinedOff_cases (x base : Ins) :
  (∃ e, combinedOff g x base = .error e ∧ EvalFault e) ∨ combinedOff g x base = .ok none ∨
    ∃ o d sum, combinedOff g x base = .ok (some (o, d, sum)) ∧
      Combined g x base (if x.op = .st then 1 else 2) o d sum := by
  unfold combinedOff
  dsimp only
  split
  · rename_i hmov
    exact .inr (.inr ⟨_, _, _, rfl, .own (.inl hmov)⟩)
  · rename_i hmov
    split
    · rename_i u v hu hv
      split
      · rename_i hz
        exact .inr (.inr ⟨_, _, _, rfl, .theirs hmov hu hz⟩)
      · split
        · rename_i hz
          exact .inr (.inr ⟨_, _, _, rfl, .own (.inr ⟨v, hv, hz⟩)⟩)
        · cases hw : addOffs u v with
          | error e => exact .inl ⟨e, rfl, .off hw⟩
          | ok w => exact .inr (.inr ⟨_, _, _, rfl, .sum hmov hu hv hw⟩)
    · rename_i u hu hv
      split
      · rename_i hz
        exact .inr (.inr ⟨_, _, _, rfl, .theirs hmov hu hz⟩)
      · exact .inr (.inl rfl)
    · rename_i v hu hv
      split
      · rename_i hz
        exact .inr (.inr ⟨_, _, _, rfl, .own (.inr ⟨v, hv, hz⟩)⟩)
      · exact .inr (.inl rfl)
    · exact .inr (.inl rfl)

/-- The address that an access goes to, in terms of the base that its own base was computed from. -/
lemma Tracks.directAddr {y : RegId} {m : Sem} {k : History} {p : Nat}
  (h : Tracks sem f first entry g) (hf : f.Connected first) (hs : Solved f first entry)
  (hm : sem m) (hrun : f.Run first (m.Steps f) k b pre s) (hi : f.At b pre i)
  (hreads : (g.ins i).Reads p y) (hy : f.Known first entry b pre y (.ins j))
  (hop : (g.ins j).op = .mov ∨ (g.ins j).op.fam = .lea)
  (hstill : ∀ r, (g.ins j).arg 1 = .reg r → (g.ins j).argDef 1 ≠ .unknown ∧
    f.Known first entry b pre r ((g.ins j).argDef 1)) :
  ∃ c pre' s1, Stands sem f first entry g c pre' j (g.ins j) ∧
    (∀ x d, f.Known first entry c pre' x d → f.Known first entry b pre x d → s x = s1 x) ∧
    ∀ n, lowBits (m.base (g.argOf s ((g.ins i).arg p)) + n) m.width =
      lowBits (m.base (g.argOf s ((g.ins j).arg 1)) + (m.shift g s1 (g.ins j) + n)) m.width := by
  obtain ⟨c, pre', s1, hstd, hset, hkept⟩ := h.origin hf hs hm hrun hi hy
  obtain ⟨v, hv, haddr⟩ := m.does_base hstd.fits hop s1
  refine ⟨c, pre', s1, hstd, hkept, fun n => ?_⟩
  have hbase : g.argOf s ((g.ins j).arg 1) = g.argOf s1 ((g.ins j).arg 1) :=
    (hstd.sourced (hstd.fits.defCount_base hop).1
      (getElem?_of_arg (hstd.fits.defCount_base hop).2)).argOf_eq hkept hstill
  rw [hbase, ← haddr, hreads.arg_eq, argOf, hset _ v hv]
  rfl

/-- The access with the base of an address computation, and another offset. -/
def directed (x base : Ins) (op : Op) (o : Opnd) (d : Def) : Ins :=
  if (if x.op = .st then 0 else 1) = 0 then
    ⟨op, [base.arg 1, o, x.arg 2], [base.argDef 1, d, x.argDef 2]⟩
  else ⟨op, [x.arg 0, base.arg 1, o], [x.argDef 0, base.argDef 1, d]⟩

lemma directed_op (x base : Ins) (op : Op) (o : Opnd) (d : Def) :
  (directed x base op o d).op = op := by
  unfold directed
  split <;> rfl

section
variable {base : Ins}

lemma directed_args (hx : x.Fits) (hacc : x.op = .ld ∨ x.op = .st ∨ x.op = .lea) :
  (directed x base op o d).args =
    (x.args.set x.op.defCount (base.arg 1)).set (x.op.defCount + 1) o := by
  obtain ⟨a0, a1, a2, hargs⟩ := length_eq_three.1 (hx.access hacc).1
  rcases hacc with hop | hop | hop <;> simp only [directed, hop, arg, hargs] <;> rfl

lemma directed_defs (base : Ins) (op : Op) (o : Opnd) (d : Def)
  (hacc : x.op = .ld ∨ x.op = .st ∨ x.op = .lea) : (directed x base op o d).argDef x.op.defCount =
  base.argDef 1 ∧ (directed x base op o d).argDef (x.op.defCount + 1) =
  d ∧ ∀ n, n ≠ x.op.defCount → n ≠ x.op.defCount + 1 → (directed x base op o d).argDef n =
  x.argDef n ∨ (directed x base op o d).argDef n = .unknown := by
  rcases hacc with hop | hop | hop <;> simp only [directed, hop] <;>
    refine ⟨rfl, rfl, ?_⟩ <;> rintro (_ | _ | _ | n) h1 h2 <;>
    first | exact .inl rfl | exact .inr rfl | exact absurd rfl h1 | exact absurd rfl h2

lemma Ins.Fits.directed (hx : x.Fits) (hbase : base.Fits)
  (hacc : directAccess base.op x.op = some op) (ho : o.isValue) :
  (directed x base op o d).Fits := by
  obtain ⟨haccess, hcps, hfam, hkinds, hadmits⟩ := directAccess_spec hacc
  have hargs : (IR.directed x base op o d).args = _ := directed_args hx haccess
  have hop : (IR.directed x base op o d).op = op := directed_op x base op o d
  have hcnt : op.defCount = x.op.defCount := by
    rw [defCount, hfam]
    rfl
  have hlen : x.args.length = op.opnds.length := by
    rw [hx.length, opnds_length, opnds_length, hfam]
  refine ⟨?_, ?_, ?_⟩
  · rw [hargs, hop, length_set, length_set, hlen]
  · intro n k a hk ha
    rw [hop] at hk
    rw [hargs] at ha
    have hlt : n < x.args.length := by
      rw [hlen]
      exact (List.getElem?_eq_some_iff.1 hk).1
    by_cases hn : x.op.defCount + 1 = n
    · subst hn
      rw [List.getElem?_set_self (by simpa using hlt)] at ha
      cases ha
      rw [hkinds _ (by omega)] at hk
      have hregOrLit : k.1 = .regOrLit := by
        rcases haccess with h | h | h <;> rw [h] at hk <;> cases hk <;> rfl
      rw [hregOrLit]
      rcases isValue_iff.1 ho with ⟨r, rfl⟩ | ⟨c, rfl⟩ <;> rfl
    · rw [List.getElem?_set_ne hn] at ha
      by_cases hn' : x.op.defCount = n
      · subst hn'
        rw [List.getElem?_set_self hlt] at ha
        cases ha
        have hone : 1 < base.args.length := (hbase.defCount_base hcps).2
        obtain ⟨l, hl⟩ : ∃ l, base.op.opnds[1]? = some l :=
          ⟨_, List.getElem?_eq_getElem (hbase.length ▸ hone)⟩
        exact hadmits k l _ hl hk (hbase.shape 1 l _ hl (getElem?_of_arg hone))
      · rw [List.getElem?_set_ne hn'] at ha
        exact hx.shape n k a (hkinds n (Ne.symm hn') ▸ hk) ha
  · intro n a hn ha
    rw [hop, hcnt] at hn
    rw [hargs, List.getElem?_set_ne (by omega), List.getElem?_set_ne (by omega)] at ha
    exact hx.dest n a hn ha

end

lemma Ins.Fits.base_arg (hx : x.Fits) (hop : x.op = .mov ∨ x.op.fam = .lea) :
  (x.arg 1).isValue ∨ (∃ n, x.arg 1 = .mem n) ∨ ∃ n, x.arg 1 = .area n := by
  obtain ⟨k, hk, hkind⟩ : ∃ k, x.op.opnds[1]? = some k ∧
      (k.1 = .reg ∨ k.1 = .lit ∨ k.1 = .regOrLit ∨ k.1 = .mem ∨ k.1 = .slot) := by
    rcases hop with hop | hop
    · exact ⟨(.regOrLit, .sameAsPrev), by rw [hop]; rfl, by decide⟩
    · have hleas : x.op = .lea ∨ x.op = .leaMem ∨ x.op = .leaStk := by
        generalize x.op = op at hop
        cases op <;> simp_all [Op.fam, Op.shape]
      rcases hleas with h | h | h <;> rw [h] <;> exact ⟨_, rfl, by decide⟩
  have hlt : 1 < x.args.length := hx.length ▸ (List.getElem?_eq_some_iff.1 hk).1
  have hadmits := hx.shape 1 k _ hk (getElem?_of_arg hlt)
  generalize x.arg 1 = a at hadmits
  cases a with
  | mem n => exact .inr (.inl ⟨n, rfl⟩)
  | area n => exact .inr (.inr ⟨n, rfl⟩)
  | reg | lit => exact .inl rfl
  | _ => rcases hkind with h | h | h | h | h <;> rw [h] at hadmits <;> cases hadmits

lemma Stands.lit_lt (h : Stands sem f first entry g b pre i x) {c : Nat} (hn : n < x.args.length)
  (hc : x.arg n = .lit c) : c < g.lits.size :=
  h.lits c (mem_of_getElem? (hc ▸ getElem?_of_arg hn))

lemma Fn.litOf?_push {w : Lit} (hlt : ∀ c : Nat, a = .lit c → c < g.lits.size)
  (h : g.litOf? a = some v) : ({ g with lits := g.lits.push w } : Fn).litOf? a = some v := by
  obtain ⟨c, rfl, hc⟩ := litOf?_eq_some.1 h
  exact litOf?_eq_some.2 ⟨c, rfl, by rw [lit_push (hlt c rfl), hc]⟩

lemma Ins.Fits.lea_off (hx : x.Fits) (hfam : x.op.fam = .lea) : (x.arg 2).isValue := by
  obtain ⟨k, hk, hregOrLit⟩ : ∃ k, x.op.opnds[2]? = some k ∧ k.1 = .regOrLit := by
    generalize x.op = op at hfam
    cases op <;> simp_all [Op.fam, Op.opnds, Op.shape]
  exact hx.arg_isValue hk (.inr (.inr hregOrLit))

/-- The last step of combining an access with the computation of its base. -/
lemma directed_ensures {base : Ins} (hf : f.Connected first) (hb : b ∈ f.order)
  (hi : f.At b pre i) (h : Tracks sem f first entry g) (hbase : base.Fits)
  (hacc : directAccess base.op (g.ins i).op = some op)
  (hlits : ∀ c : Nat, base.arg 1 = .lit c ∨ o = .lit c → c < g.lits.size)
  (hholds : Sourced f first entry b pre (base.arg 1) (base.argDef 1)) (ho : o.isValue)
  (hkn : ∀ r, o = .reg r → d ≠ .unknown → ∃ d', f.Known first entry b pre r d')
  (hoff : (∀ r, o = .reg r → d ≠ .unknown ∧ f.Known first entry b pre r d) →
    Sourced f first entry b pre o d ∧ ∀ m, sem m → ∀ k s, f.Run first (m.Steps f) k b pre s →
      lowBits (m.base (g.argOf s (base.arg 1)) + m.base (g.argOf s o)) m.width =
        lowBits (m.base (g.argOf s ((g.ins i).arg (g.ins i).op.defCount)) +
          m.base (g.argOf s ((g.ins i).arg ((g.ins i).op.defCount + 1)))) m.width) :
  Ens (do
    if !(← attempt (stillHolds (defsThru f pre (entry b)) o d)) then return 0
    modify (·.setIns i (directed (g.ins i) base op o d))
    return n) g bad fun _ g' => Tracks sem f first entry g' := by
  have hstd := h.stands b hb pre i hi
  obtain ⟨haccess, -, hfam, -, -⟩ := directAccess_spec hacc
  obtain ⟨yes, hyes, hstill⟩ := stillHolds_ok (.inl ho) hkn
  refine ens_attempt_bind hyes ?_
  cases yes
  · exact ens_pure h
  · refine ens_modify_bind (ens_pure (h.setIns hf hb hi ?_))
    obtain ⟨hsourced, haddr⟩ := hoff (hstill rfl)
    obtain ⟨hdef1, hdef2, hoth⟩ := directed_defs base op o d haccess
    refine hstd.access haccess (by rw [directed_op, hfam]) (directed_args hstd.fits haccess)
      (hstd.fits.directed hbase hacc ho) hlits hoth ?_ ?_ haddr
    · rwa [hdef1]
    · rwa [hdef2]

section
variable (hf : f.Connected first) (hs : Solved f first entry)
include hf hs

lemma simplifyAccess_ensures (hb : b ∈ f.order) (hi : f.At b pre i)
  (h : Tracks sem f first entry g) :
  Ens (simplifyAccess (defsThru f pre (entry b)) i) g EvalFault fun _ g' =>
      Tracks sem f first entry g' := by
  have hstd := h.stands b hb pre i hi
  refine ens_get_bind ?_
  dsimp only
  split
  · exact ens_pure h
  rename_i base hdefines
  obtain ⟨j, hdef, rfl⟩ := definingIns?_eq_some.1 hdefines
  split
  · exact ens_pure h
  rename_i op hacc
  obtain ⟨haccess, hcps, -, -, -⟩ := directAccess_spec hacc
  have hpos : (if (g.ins i).op = .st then 0 else 1) = (g.ins i).op.defCount := by
    rcases haccess with hop | hop | hop <;> rw [hop] <;> rfl
  have hpos' : (if (g.ins i).op = .st then 1 else 2) = (g.ins i).op.defCount + 1 := by
    rcases haccess with hop | hop | hop <;> rw [hop] <;> rfl
  rw [hpos] at hdef
  obtain ⟨hlen, hcnt⟩ := hstd.fits.access haccess
  -- The base has been computed at `j`, and what was known there is known here.
  obtain ⟨y, hy, hkn⟩ := hstd.knows _ (.exec j) (by rw [hdef]; rfl)
  rw [hdef] at hkn
  obtain ⟨c, pre', hc, hj, -, hsite⟩ := hkn.site hf hs hb hi
  have hbase := h.stands c hc pre' j hj
  obtain ⟨hreads, hone⟩ := hbase.fits.defCount_base hcps
  have hsourced := hbase.sourced hreads (getElem?_of_arg hone)
  have hstays : ∀ r, (g.ins j).arg 1 = .reg r → (g.ins j).argDef 1 ≠ .unknown →
      ∃ d, f.Known first entry b pre r d :=
    fun r hr hd => hsite r _ ((hr ▸ hsourced).exists_known hd)
  obtain ⟨yes, hyes, hstill⟩ := stillHolds_ok (hbase.fits.base_arg hcps) hstays
  refine ens_attempt_bind hyes ?_
  cases yes
  · exact ens_pure h
  replace hstill := hstill rfl
  have hlit : ∀ c : Nat, (g.ins j).arg 1 = .lit c → c < g.lits.size := fun c hc =>
    hbase.lit_lt hone hc
  rcases combinedOff_cases (g.ins i) (g.ins j) with
    ⟨e, he, hfault⟩ | hnone | ⟨o, d, sum, hsome, hcomb⟩
  · refine ens_attempt_cases ?_ ?_ <;> rw [he]
    · rintro _ ⟨⟩
      exact hfault
    · rintro _ ⟨⟩
  · exact ens_attempt_bind hnone (ens_pure h)
  refine ens_attempt_bind hsome ?_
  rw [hpos'] at hcomb
  have hown : ((g.ins i).arg ((g.ins i).op.defCount + 1)).isValue := by
    rcases haccess with hop | hop | hop <;> rw [hop] <;>
      exact hstd.fits.arg_isValue (by rw [hop]; rfl) (by decide)
  have hownLt : (g.ins i).op.defCount + 1 < (g.ins i).args.length := by omega
  have hownSourced := hstd.sourced (Nat.le_succ _) (getElem?_of_arg hownLt)
  cases hcomb with
  | own hzero =>
    refine directed_ensures hf hb hi h hbase.fits hacc ?_ (hsourced.move hstill) hown
      (fun r hr hd => ⟨_, (hr ▸ hownSourced).exists_known hd⟩) fun _ => ⟨hownSourced, ?_⟩
    · rintro c (hc | hc)
      · exact hlit c hc
      · exact hstd.lit_lt hownLt hc
    · intro m hm k s hrun
      obtain ⟨-, -, s1, -, -, haddr⟩ := h.directAddr hf hs hm hrun hi hy hkn hcps hstill
      have hshift : m.shift g s1 (g.ins j) = 0 := by
        by_cases hmov : (g.ins j).op = .mov
        · rw [shift, if_pos hmov]
        · obtain ⟨z, hz, hzero⟩ := hzero.resolve_left hmov
          rw [shift_of_lit hmov hz, Lit.number_of_isZero hzero]
      rw [haddr, hshift, Int.zero_add]
  | theirs hmov hz hzero =>
    have hfam : (g.ins j).op.fam = .lea := hcps.resolve_left hmov
    have hlt : 2 < (g.ins j).args.length := by rw [hbase.fits.length_args hfam]; decide
    have hle : (g.ins j).op.defCount ≤ 2 := by rw [defCount, hfam]; decide
    have htheirs := hbase.sourced hle (getElem?_of_arg hlt)
    refine directed_ensures hf hb hi h hbase.fits hacc ?_ (hsourced.move hstill) (hbase.fits.lea_off
      hfam) (fun r hr hd => hsite r _ ((hr ▸ htheirs).exists_known hd)) fun hsame => ⟨htheirs.move
      hsame, ?_⟩
    · rintro c (hc | hc)
      · exact hlit c hc
      · exact hbase.lit_lt hlt hc
    · intro m hm k s hrun
      obtain ⟨c', pre'', s1, hthen, hkept, haddr⟩ :=
        h.directAddr hf hs hm hrun hi hy hkn hcps hstill
      have hshift : m.shift g s1 (g.ins j) = m.base (g.argOf s ((g.ins j).arg 2)) := by
        rw [shift, if_neg hmov, (hthen.sourced hle (getElem?_of_arg hlt)).argOf_eq hkept hsame]
      have hown : m.base (g.argOf s ((g.ins i).arg ((g.ins i).op.defCount + 1))) = 0 := by
        rw [argOf_of_litOf? hz]
        exact Lit.number_of_isZero hzero
      rw [haddr, hshift, hown, Int.add_zero]
  | @sum u v w hmov hu hv hw =>
    have hfam : (g.ins j).op.fam = .lea := hcps.resolve_left hmov
    have hlt : 2 < (g.ins j).args.length := by rw [hbase.fits.length_args hfam]; decide
    have hpush := h.pushLit w
    refine ens_bind_of_ok rfl ?_
    refine directed_ensures hf hb hi hpush hbase.fits hacc ?_ (hsourced.move hstill) rfl (by simp)
      fun _ => ⟨⟨fun _ hw => (by cases hw), by simp⟩, ?_⟩
    · have hsize : ({ g with lits := g.lits.push w } : Fn).lits.size = g.lits.size + 1 := by simp
      rintro c (hc | hc)
      · have := hlit c hc
        omega
      · cases hc
        omega
    · intro m hm k s hrun
      obtain ⟨-, -, s1, -, -, haddr⟩ := hpush.directAddr hf hs hm hrun hi hy hkn hcps hstill
      have hu' := litOf?_push (w := w) (fun c hc => hstd.lit_lt hownLt hc) hu
      have hv' := litOf?_push (w := w) (fun c hc => hbase.lit_lt hlt hc) hv
      have hshift := shift_of_lit (m := m) (s := s1) hmov hv'
      have hnew : ({ g with lits := g.lits.push w } : Fn).argOf s (.lit g.lits.size) = .val w := by
        simp [Fn.argOf, Fn.lit]
      refine Eq.trans ?_ (haddr _).symm
      refine congrArg (fun n => lowBits (m.base (Fn.argOf _ s ((g.ins j).arg 1)) + n) m.width) ?_
      calc m.base (Fn.argOf _ s (.lit g.lits.size)) = w.number := by rw [hnew]; rfl
        _ = v.number + u.number := by rw [Lit.number_of_addOffs hw, Int.add_comm]
        _ = _ := congrArg₂ (· + ·) hshift.symm (congrArg m.base (argOf_of_litOf? hu' s)).symm

lemma simplifyAccesses_ensures (hb : b ∈ f.order) {is post : List InsId}
  (hcode : (f.blk b).code = pre ++ (is ++ post)) (h : Tracks sem f first entry g) :
  Ens (simplifyAccesses is (defsThru f pre (entry b))) g EvalFault fun _ g' =>
      Tracks sem f first entry g' := by
  induction is generalizing pre g with
  | nil => exact ens_pure h
  | cons i is ih =>
    have hi : f.At b pre i := ⟨is ++ post, hcode⟩
    -- What remains to be done after the instruction.
    have hrest : ∀ (n : Nat) (g1 : Fn), Tracks sem f first entry g1 → Ens (do
          let m := defsAfter (defsThru f pre (entry b)) i ((← get).ins i)
          return n + (← simplifyAccesses is m)) g1 EvalFault fun _ g' =>
          Tracks sem f first entry g' := by
      intro n g1 h1
      refine ens_get_bind ?_
      rw [h1.defsAfter_eq hb hi]
      exact (ih (by simpa using hcode) h1).bind fun _ _ h2 => ens_pure h2
    refine ens_get_bind ?_
    dsimp only
    split
    · exact (simplifyAccess_ensures hf hs hb hi h).bind hrest
    · exact hrest 0 g h

lemma simplifyLoadStore_ensures (h : Tracks sem f first entry g) :
  Ens simplifyLoadStore g EvalFault fun _ g' => Tracks sem f first entry g' := by
  refine ens_eachBlk (fun b hb g' htrk => ?_) h
  rw [h.order] at hb
  obtain ⟨post, hcode⟩ := (htrk.flows b hb).exists_append
  refine ens_get_bind ?_
  dsimp only
  rw [htrk.defsIn b hb]
  have hsta : (f.blk b).code = [] ++ ((g'.blk b).code ++ post) := hcode
  exact simplifyAccesses_ensures hf hs hb hsta htrk

end

/-! ## Runs in step

A function that has been rewritten along its definitions runs in step with the original, except that
it may lack a branch that could go only one way. -/

open Trace
variable {c : BlkId} {k : History} {m : Sem}

/-- Both functions are at the same place of a run, with the same registers. -/
inductive Abreast (m : Sem) (f g : Fn) (first : BlkId) :
    Fn.State Lit → Fn.State Lit → Prop where
  | mk {k : History} {b : BlkId} {pre is js : List InsId} {s : Regs Lit}
      (hrun : f.Run first (m.Steps f) k b pre s) (hf : (f.blk b).code = pre ++ is)
      (hg : (g.blk b).code = pre ++ js) : Abreast m f g first (⟨b, is⟩, s) (⟨b, js⟩, s)

section
variable (hrun : f.Run first (m.Steps f) k b (f.blk b).code s)
include hrun

lemma Abreast.enter (hc : c ∈ (f.blk b).succs) :
  Abreast m f g first (f.enter c, s) (g.enter c, s) :=
  .mk (hrun.goto hc) rfl rfl

lemma agree_leave {e : Option Deed} (hsuc : c ∈ (f.blk b).succs ↔ c ∈ (g.blk b).succs) :
  (f.leave b s e c).Agree (Abreast m f g first) (g.leave b s e c) := by
  refine .emit fun _ => ?_
  by_cases hc : c ∈ (f.blk b).succs
  · rw [if_pos hc, if_pos (hsuc.1 hc)]
    exact .some (.enter hrun hc)
  · rw [if_neg hc, if_neg (mt hsuc.2 hc)]
    exact .none

end

/-- Both machines execute an instruction that both have. -/
lemma Tracks.agree_ins (h : Tracks sem f first entry g) (hf : f.Connected first)
  (hends : f.LeavesEnd) (hm : sem m) {is js : List InsId}
  (hrun : f.Run first (m.Steps f) k b pre s) (hfcode : (f.blk b).code = pre ++ i :: is)
  (hgcode : (g.blk b).code = pre ++ i :: js) :
  (m.machine f (⟨b, i :: is⟩, s)).Agree (Abreast m f g first) (m.machine g (⟨b, i :: js⟩, s)) := by
  have hb := hrun.walk.mem_order hf
  have hi : f.At b pre i := ⟨is, hfcode⟩
  have hact : m.act g i s = m.act f i s := (h.stands b hb pre i hi).does m hm k s hrun
  have hnext : ∀ s', m.Steps f i s s' → Abreast m f g first (⟨b, is⟩, s') (⟨b, js⟩, s') :=
    fun s' hs' => .mk (hrun.exec hi hs') (by simp [hfcode]) (by simp [hgcode])
  -- Control leaves the block at its end only, and no branch has been decided if there is one.
  have hlast : (f.ins i).op.isTerm → m.Steps f i s s →
      f.Run first (m.Steps f) (.exec i :: k) b (f.blk b).code s ∧
        (g.blk b).succs = (f.blk b).succs := by
    intro hterm hstay
    obtain rfl := hends.eq_nil hb hfcode hterm
    refine ⟨hfcode ▸ hrun.exec hi hstay, ?_⟩
    cases h.flows b hb with
    | same _ hsuc => exact hsuc
    | decided hcode _ _ _ =>
      have hlong := congrArg List.length hcode
      simp only [hfcode, hgcode, length_append, length_cons] at hlong
      omega
  have hsuits := m.act_suits f i s
  simp only [Sem.machine, Fn.machine, hact]
  simp only [Sem.Steps] at hnext hlast
  cases hdo : m.act f i s with
  | set rs v =>
    rw [hdo] at hnext
    exact .silent (.some (hnext _ rfl))
  | ask e rs =>
    rw [hdo] at hnext
    exact .emit fun v => .some (hnext _ ⟨v, rfl⟩)
  | stop e => exact .emit fun _ => .none
  | goto e t =>
    rw [hdo] at hsuits hlast
    obtain ⟨hend, hsuc⟩ := hlast hsuits rfl
    exact agree_leave hend (by rw [hsuc])
  | skip e t =>
    rw [hdo] at hsuits hlast
    obtain ⟨hend, hsuc⟩ := hlast hsuits rfl
    have hoth : g.otherSucc b t = f.otherSucc b t := by simp only [Fn.otherSucc, hsuc]
    simp only [hoth]
    exact agree_leave hend (by rw [hsuc])

lemma Fn.otherSucc_eq {t n : BlkId}
  (h : (f.blk b).succs = [t, n] ∨ (f.blk b).succs = [n, t]) : f.otherSucc b t = n := by
  rcases h with h | h <;> simp [Fn.otherSucc, h]

section
variable (h : Tracks sem f first entry g) (hf : f.Connected first) (hends : f.LeavesEnd)
  (hm : sem m)
include h hf hends hm

lemma Tracks.agree {a a' : Fn.State Lit} (habreast : Abreast m f g first a a') :
  (m.machine f a).Agree (Abreast m f g first) (m.machine g a') := by
  obtain @⟨k, b, pre, is, js, s, hrun, hfcode, hgcode⟩ := habreast
  have hb := hrun.walk.mem_order hf
  cases js with
  | cons j js =>
    obtain ⟨post, hpost⟩ := (h.flows b hb).exists_append
    obtain rfl : is = j :: (js ++ post) := by
      rw [hfcode, hgcode, append_assoc] at hpost
      simpa using hpost
    exact h.agree_ins hf hends hm hrun hfcode hgcode
  | nil =>
    rw [append_nil] at hgcode
    cases h.flows b hb with
    | same hcode hsuc =>
      obtain rfl : is = [] := by simpa [hfcode, hgcode] using hcode
      rw [append_nil] at hfcode
      have hend : f.Run first (m.Steps f) k b (f.blk b).code s := by rwa [hfcode]
      simp only [Sem.machine, Fn.machine, hsuc]
      cases (f.blk b).succs.head? with
      | none => exact .silent .none
      | some c => exact agree_leave hend (by rw [hsuc])
    | @decided i t n c hcode hfks hsuc hgoes =>
      obtain rfl : is = [i] := by simpa [hfcode, hgcode] using hcode
      rw [hgcode] at hgoes
      have hmem : t ∈ (f.blk b).succs ∧ n ∈ (f.blk b).succs := by
        rcases hfks with hfks | hfks <;> simp [hfks]
      have hleave : ∀ e : Option Deed, m.Steps f i s s → c ∈ (f.blk b).succs →
          (f.leave b s e c).Agree (Abreast m f g first) (g.leave b s e c) := by
        intro e hstay hc
        exact agree_leave (hfcode ▸ hrun.exec ⟨[], hfcode⟩ hstay) (by simp [hc, hsuc])
      simp only [Sem.machine, Fn.machine, hsuc]
      simp only [Sem.Steps] at hleave
      rcases hgoes m hm k s hrun with ⟨hact, rfl⟩ | ⟨hact, rfl⟩ <;> rw [hact] at hleave ⊢
      · exact hleave none rfl hmem.1
      · simp only [Fn.otherSucc_eq hfks]
        exact hleave none rfl hmem.2

lemma Tracks.sameTraces (s : Regs Lit) :
  SameTraces (m.machine f) (some (f.enter first, s)) (m.machine g) (some (g.enter first, s)) := by
  have hsta : Abreast m f g first (f.enter first, s) (g.enter first, s) := .mk (.start s) rfl rfl
  constructor
  · exact (Simulation.of_answered fun a a' hab => .of_agree (h.agree hf hends hm hab)).refines hsta
  · exact (Simulation.of_answered fun a' a hab =>
      .of_agree (h.agree hf hends hm hab).flip).refines hsta

end

/-! ## The passes that follow definitions -/

/-- Use what has been recorded: read through moves, evaluate, and combine accesses. -/
def followDefs (conv : Bool) : Pass Nat := do
  let regs ← propagateRegs
  let lits ← propagateLits
  let folded ← foldConstants conv
  let combined ← simplifyLoadStore
  return regs + lits + folded + combined

/-- The instructions of a function are well formed, and their literals exist. -/
def Fn.Fitting (f : Fn) : Prop :=
  ∀ b ∈ f.order, ∀ i ∈ (f.blk b).code, (f.ins i).Fits ∧
    ∀ c : Nat, .lit c ∈ (f.ins i).args → c < f.lits.size

lemma Ins.fits_iff : x.Fits ↔ x.args.length = x.op.opnds.length ∧
  (∀ p ∈ x.op.opnds.zip x.args, p.1.1.admits p.2) ∧ ∀ a ∈ x.args.take x.op.defCount, a.isReg := by
  constructor
  · rintro ⟨hlen, hshp, hdest⟩
    refine ⟨hlen, ?_, ?_⟩
    · rintro ⟨k, a⟩ hmem
      obtain ⟨n, hn⟩ := mem_iff_getElem?.1 hmem
      obtain ⟨hk, ha⟩ := getElem?_zip_eq_some.1 hn
      exact hshp n k a hk ha
    · intro a ha
      obtain ⟨n, hn⟩ := mem_iff_getElem?.1 ha
      rw [getElem?_take] at hn
      split at hn
      · exact hdest n a ‹_› hn
      · cases hn
  · rintro ⟨hlen, hshp, hdest⟩
    refine ⟨hlen, ?_, ?_⟩
    · intro n k a hk ha
      exact hshp (k, a) (mem_of_getElem? (getElem?_zip_eq_some.2 ⟨hk, ha⟩))
    · intro n a hn ha
      exact hdest a (mem_of_getElem? (by rw [getElem?_take_of_lt hn, ha]))

instance (x : Ins) : Decidable x.Fits := decidable_of_iff _ Ins.fits_iff.symm

instance (f : Fn) : Decidable f.Fitting :=
  decidable_of_iff (∀ b ∈ f.order, ∀ i ∈ (f.blk b).code, (f.ins i).Fits ∧
    ∀ a ∈ (f.ins i).args, ∀ c ∈ a.lit?, c < f.lits.size) <|
    forall₄_congr fun b _ i _ => and_congr_right fun _ =>
      ⟨fun h c hc => h _ hc c rfl, fun h a ha c hc => by cases a <;> cases hc; exact h c ha⟩

/-- The analysis succeeds, and the passes that use it keep the meaning of the function, whatever
arithmetic does as long as it agrees with the evaluation of literals: from the same registers, and
with the same answers, the same addresses are accessed, the same values stored, pushed and handed to
calls, and the same blocks entered. They fail only where an evaluation fails. -/
theorem followDefs_sameTraces {f : Fn} {first : BlkId} (hf : f.Connected first)
  (hends : f.LeavesEnd) (hfks : f.Forking) (hfits : f.Fitting) (conv : Bool) :
  ∃ g, reaching.run f = .ok ((), g) ∧ Ens (followDefs conv) g EvalFault fun _ h =>
        ∀ m : Sem, m.Evaluates → ∀ s, SameTraces (m.machine f) (some (f.enter first, s))
          (m.machine h) (some (h.enter first, s)) := by
  obtain ⟨-, hs⟩ := solveReaching_solved hf.lt hf.nodup hf.inside hf.first_mem
  obtain ⟨g, hrun, hann⟩ := reaching_ok hf
  obtain ⟨htrk, hcpl⟩ : Tracks Sem.Evaluates f first _ g ∧ Complete f g := hann.tracks hf hs hfits
  refine ⟨g, hrun, ?_⟩
  refine (propagateRegs_ensures hf hs htrk hcpl).bind fun _ g1 h₁ => ?_
  refine (propagateLits_ensures hf hs h₁.1).bind fun _ g2 h₂ => ?_
  refine (foldConstants_ensures hf hends hfks h₂).bind fun _ g3 h3 => ?_
  refine (simplifyLoadStore_ensures hf hs h3).bind fun _ g4 h4 => ens_pure ?_
  exact fun m hm s => h4.sameTraces hf hends hm s

def evaluating : Sem where
  width := 64
  alu op a b := (evalAlu op a b).toOption.getD a
  alu1 op a := (evalAlu1 op a).toOption.getD a
  convert _ k a := (convertInt k a).toOption.getD a
  holds op a b := (evalBranch op a b).toOption.getD false
  memBase _ := 0
  areaBase _ := 0
  fnAddr _ := default
  special _ := default

lemma evaluating_evaluates : evaluating.Evaluates where
  alu op a b v h := by simp [evaluating, h, Except.toOption]
  alu1 op a v h := by simp [evaluating, h, Except.toOption]
  convert k a v _ _ h := by simp [evaluating, h, Except.toOption]
  holds op a b v h := by simp [evaluating, h, Except.toOption]

/-- A loop behind a branch on a literal, with accesses to a computed address. -/
def polling : Fn where
  name := "main"
  kind := .normal
  regs := #[{ name := "x", kind := .s32 }, { name := "y", kind := .s32 },
    { name := "z", kind := .s32 }, { name := "p", kind := .a64 }, { name := "q", kind := .a64 }]
  lits := #[.ofInt .s32 3, .ofInt .u8 4, .ofInt .s32 5, .ofInt .u8 8, .ofInt .s32 1, .ofInt .u8 0]
  code := #[.of .poparg [.reg 4], .of .mov [.reg 0, .lit 0], .of .mov [.reg 1, .reg 0],
    .of .lea [.reg 3, .reg 4, .lit 1], .of .blt [.reg 1, .lit 2, .blk 2], .of .ret [],
    .of .ld [.reg 2, .reg 3, .lit 3], .of .add [.reg 0, .reg 1, .lit 4],
    .of .st [.reg 3, .lit 5, .reg 0], .of .blt [.reg 2, .reg 1, .blk 2], .of .ret []]
  blks := #[{ name := "start", code := [0, 1, 2, 3, 4], succs := [2, 1] },
    { name := "never", code := [5], preds := [0] },
    { name := "loop", code := [6, 7, 8, 9], succs := [2, 3], preds := [0, 2] },
    { name := "end", code := [10], preds := [2] }]
  order := [0, 1, 2, 3]

lemma polling_connected : polling.Connected 0 where
  head := rfl
  nodup := by decide
  lt := by decide
  inside := by decide
  paired := paired_of_blks (by decide) (by decide)
  reached := reached_of_rounds 2 (by decide)
  once := by decide
  sites := by decide
  regs := regs_of_args (by decide)

lemma polling_fitting : polling.Fitting := by decide

/-- The first branch goes, together with its edge to the block that is never entered. The sum is a
literal, and the loop accesses memory from the address that was handed in. -/
theorem followDefs_sameTraces_polling : polling.Connected 0 ∧ polling.LeavesEnd ∧
  polling.Forking ∧ polling.Fitting ∧ evaluating.Evaluates ∧
  ∃ g n h, reaching.run polling = .ok ((), g) ∧ (followDefs true).run g = .ok (n, h) ∧
    (h.blk 0).code = [0, 1, 2, 3] ∧ (h.blk 0).succs = [2] ∧ (h.ins 7).op = .mov ∧
    (h.ins 6).args.take 2 = [.reg 2, .reg 4] ∧ h.litOf? ((h.ins 6).arg 2) = some (.ofInt .u8 12) ∧
    ∀ s, SameTraces (evaluating.machine polling) (some (polling.enter 0, s))
      (evaluating.machine h) (some (h.enter 0, s)) := by
  have hends : polling.LeavesEnd := by decide
  have hfks : polling.Forking := by decide
  obtain ⟨g, hrun, hkeeps⟩ :=
    followDefs_sameTraces polling_connected hends hfks polling_fitting true
  have hleft : ((reaching.run polling).toOption.bind fun r =>
      ((followDefs true).run r.2).toOption.map fun q => decide ((q.2.blk 0).code = [0, 1, 2, 3] ∧
        (q.2.blk 0).succs = [2] ∧ (q.2.ins 7).op = .mov ∧
        (q.2.ins 6).args.take 2 = [.reg 2, .reg 4] ∧
        q.2.litOf? ((q.2.ins 6).arg 2) = some (.ofInt .u8 12))) = some true := by decide +kernel
  rw [hrun, Except.toOption, Option.bind_some] at hleft
  cases hdone : (followDefs true).run g with
  | error e =>
    rw [hdone] at hleft
    cases hleft
  | ok r =>
    obtain ⟨n, h⟩ := r
    rw [hdone, Except.toOption, Option.map_some, Option.some.injEq, decide_eq_true_eq] at hleft
    obtain ⟨hcode, hsuc, hop, hargs, hlit⟩ := hleft
    exact ⟨polling_connected, hends, hfks, polling_fitting, evaluating_evaluates, g, n, h, hrun,
      hdone, hcode, hsuc, hop, hargs, hlit, hkeeps.ok hdone evaluating evaluating_evaluates⟩

end Retarget.IR
