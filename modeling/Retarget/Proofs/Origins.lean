import Retarget.Proofs.Reaching

/-!
# Functions that are changed along their definitions

While a function is being rewritten, each instruction goes on doing what it did, in every state that
executions can bring about at its place, and the definitions recorded for its operands stay right.
`Tracks` says so of the executions of the original function, so steps of rewriting add up.
-/

namespace Retarget.IR
open List Ins
variable {d : Def} {f : Fn} {j : InsId} {n : Nat} {y : RegId} {s : Regs Lit}

/-! ## Origins of values -/

/-- The register holds what `m` gave it. Registers with the same definition at `m` and here hold what
they held before `m` was executed. -/
lemma Fn.Known.origin {σ : Type} {first b : BlkId} {entry : BlkId → DefMap}
  {step : InsId → Regs σ → Regs σ → Prop} {h : History} {pre : List InsId} {s : Regs σ}
  {i m : InsId} (hf : f.Connected first) (hs : Solved f first entry)
  (hsame : ∀ j t t' r, step j t t' → r ∉ (f.ins j).written → t' r = t r)
  (hrun : f.Run first step h b pre s) (hi : f.At b pre i)
  (hy : f.Known first entry b pre y (.ins m)) :
  ∃ c pre' h' s1 s2, c ∈ f.order ∧ f.Run first step h' c pre' s1 ∧ f.At c pre' m ∧
    step m s1 s2 ∧ y ∈ (f.ins m).written ∧ s y = s2 y ∧ ∀ x d, f.Known first entry c pre' x d →
      (∃ d', f.Known first entry b pre x d') ∧ (f.Known first entry b pre x d → s x = s1 x) := by
  have hw := hrun.walk
  have hb := hw.mem_order hf
  obtain ⟨later, earlier, rfl, hwrite, hkeep⟩ := hy.accounts hf hs hw
  obtain ⟨c, pre', hw', hm⟩ := hw.before_exec
  have hc := hw'.mem_order hf
  -- Nothing that was executed later writes a register that has kept its definition.
  have hkeeps : ∀ x d, f.Known first entry c pre' x d → f.Known first entry b pre x d →
      f.Keeps x (later ++ [.exec m]) := fun x d hxm hxb =>
    hy.keeps hf hs hxb hc hm hxm hw hkeep hwrite
  let kept (x : RegId) : Prop := ∃ d, f.Known first entry c pre' x d ∧ f.Known first entry b pre x d
  obtain ⟨c', pre'', s1, s2, hrun', hm', hstep, heq⟩ :=
    hrun.before_exec (fun t => (t y, fun x : { x // kept x } => t x)) fun j t t' hj ht => by
      have hoth : ∀ x : { x // kept x }, t' x = t x := by
        rintro ⟨x, d, hxm, hxb⟩
        exact hsame j t t' x ht (hkeeps x d hxm hxb j (mem_append_left _ hj))
      rw [hsame j t t' y ht (hkeep j hj), funext hoth]
  obtain ⟨hyeq, hkept⟩ := Prod.mk.inj heq
  obtain ⟨rfl, rfl⟩ := hf.at_unique hc (hrun'.walk.mem_order hf) hm hm'
  refine ⟨c, pre', earlier, s1, s2, hc, hrun', hm, hstep, hwrite, hyeq, fun x d hxm => ⟨?_, ?_⟩⟩
  · obtain ⟨post, hcode⟩ := hi
    exact hy.of_ins hf hs hb hcode hc hm hxm
  · intro hxb
    have hnow : s x = s2 x := congrFun hkept ⟨x, d, hxm, hxb⟩
    rw [hnow]
    exact hsame m s1 s2 x hstep (hkeeps x d hxm hxb m (by simp))

/-! ## Operands -/

/-- The operand may stand where one of this kind is expected. A literal may stand for a register that
is only read. -/
def OpndKind.admits (k : OpndKind) : Opnd → Bool
  | .reg _ | .lit _ => k == .reg || k == .lit || k == .regOrLit
  | .blk _ => k == .blk
  | .mem _ => k == .mem
  | .area _ => k == .slot
  | .fn _ => k == .fn
  | .table _ => k == .table
  | .bytes _ => k == .bytes

/-- The operands are of the kinds that the opcode asks for, and what is written is a register. -/
structure Ins.Fits (x : Ins) : Prop where
  length : x.args.length = x.op.opnds.length
  shape : ∀ (n : Nat) (k : OpndKind × Constr) (a : Opnd),
    x.op.opnds[n]? = some k → x.args[n]? = some a → k.1.admits a
  dest : ∀ (n : Nat) (a : Opnd), n < x.op.defCount → x.args[n]? = some a → a.isReg

def Opnd.isValue (a : Opnd) : Bool := a.isReg || a.isLit

lemma Opnd.isValue_iff {a : Opnd} : a.isValue ↔ (∃ r, a = .reg r) ∨ ∃ c, a = .lit c := by
  cases a <;> simp [isValue, isReg, isLit, reg?, lit?]

lemma OpndKind.admits_of_isValue {k : OpndKind} {a b : Opnd} (ha : a.isValue)
  (hb : b.isValue) (h : k.admits a) : k.admits b := by
  rcases Opnd.isValue_iff.1 ha with ⟨r, rfl⟩ | ⟨c, rfl⟩ <;>
    rcases Opnd.isValue_iff.1 hb with ⟨q, rfl⟩ | ⟨d, rfl⟩ <;> exact h

lemma OpndKind.isValue_of_admits {k : OpndKind} {a : Opnd} (h : k.admits a)
  (hk : k = .reg ∨ k = .lit ∨ k = .regOrLit) : a.isValue := by
  cases a <;> first | rfl | (rcases hk with rfl | rfl | rfl <;> cases h)

namespace Ins
variable {x : Ins} {r : RegId} {a : Opnd}

lemma arg_of_getElem? (h : x.args[n]? = some a) : x.arg n = a := by
  rw [arg, getD_eq_getElem?_getD, h, Option.getD_some]

lemma getElem?_of_arg (h : n < x.args.length) : x.args[n]? = some (x.arg n) := by
  rw [arg, getD_eq_getElem?_getD, getElem?_eq_getElem h, Option.getD_some]

lemma argDef_setDef_self (h : n < x.defs.length) : (x.setDef n d).argDef n = d := by
  simp [argDef, setDef, h]

lemma argDef_setDef (x : Ins) (n : Nat) (d : Def) :
  (x.setDef n d).argDef n = d ∨ (x.setDef n d).argDef n = .unknown := by
  by_cases h : n < x.defs.length
  · exact .inl (argDef_setDef_self h)
  · exact .inr (by simp [argDef, setDef, h])

lemma argDef_setDef_ne {k : Nat} (h : k ≠ n) : (x.setDef n d).argDef k = x.argDef k := by
  have hne : n ≠ k := Ne.symm h
  simp [argDef, setDef, hne]

lemma lt_of_argDef (h : x.argDef n ≠ .unknown) : n < x.defs.length := by
  by_contra hle
  exact h (by simp [argDef, hle])

lemma Fits.arg_isValue (hx : x.Fits) {k : OpndKind × Constr}
  (hk : x.op.opnds[n]? = some k) (hkind : k.1 = .reg ∨ k.1 = .lit ∨ k.1 = .regOrLit) :
  (x.arg n).isValue := by
  have hlt : n < x.args.length := by
    rw [hx.length]
    exact (List.getElem?_eq_some_iff.1 hk).1
  exact OpndKind.isValue_of_admits (hx.shape n k _ hk (getElem?_of_arg hlt)) hkind

/-! ## Replacing an operand that is read -/

lemma written_setArg (hn : x.op.defCount ≤ n) : (x.setArg n a).written = x.written := by
  simp only [written, setArg]
  rw [take_set_of_le hn]

lemma srcs_setArg (hr : x.Reads n r) (ha : f.argOf s a = f.argOf s (.reg r)) :
  f.srcs (x.setArg n a) s = f.srcs x s := by
  have hget : (f.srcs x s)[n - x.op.defCount]? = some (f.argOf s a) := by
    rw [Fn.srcs, List.getElem?_map, List.getElem?_drop, Nat.add_sub_cancel' hr.2, hr.1, ha]
    rfl
  have hset : f.srcs (x.setArg n a) s =
      (f.srcs x s).set (n - x.op.defCount) (f.argOf s a) := by
    simp only [Fn.srcs, setArg, drop_set, if_neg hr.2.not_gt, map_set]
  obtain ⟨hlt, heq⟩ := List.getElem?_eq_some_iff.1 hget
  rw [hset, ← heq, set_getElem_self]

lemma Fits.setArg (hx : x.Fits) (hr : x.Reads n r) (ha : a.isValue) : (x.setArg n a).Fits := by
  refine ⟨?_, ?_, ?_⟩
  · simpa [Ins.setArg] using hx.length
  · intro k kind c hkind hc
    change (x.args.set n a)[k]? = some c at hc
    by_cases hk : n = k
    · subst hk
      rw [getElem?_set_self hr.lt] at hc
      cases hc
      exact OpndKind.admits_of_isValue rfl ha (hx.shape n kind _ hkind hr.1)
    · rw [getElem?_set_ne hk] at hc
      exact hx.shape k kind c hkind hc
  · intro k c hk hc
    change (x.args.set n a)[k]? = some c at hc
    have hne : n ≠ k := fun h => hr.2.not_gt (h ▸ hk)
    rw [getElem?_set_ne hne] at hc
    exact hx.dest k c hk hc

lemma reads_setArg_ne {k : Nat} {q : RegId} (hk : k ≠ n) :
  (x.setArg n a).Reads k q ↔ x.Reads k q := by
  simp only [Reads, setArg, getElem?_set_ne (Ne.symm hk)]

end Ins

/-! ## Invariants of rewriting -/

section
variable (sem : Sem → Prop) (f : Fn) (first : BlkId) (entry : BlkId → DefMap)

def Knows (b : BlkId) (pre : List InsId) (x : Ins) : Prop :=
  ∀ n w, (x.argDef n).waypoint? = some w →
    ∃ r, x.Reads n r ∧ f.Known first entry b pre r (x.argDef n)

/-- The instruction `x` of `g` does what `i` does, which is at the place in `b` after `pre`, for each
meaning of the class `sem`. -/
structure Stands (g : Fn) (b : BlkId) (pre : List InsId) (i : InsId) (x : Ins) : Prop where
  written : x.written = (f.ins i).written
  fits : x.Fits
  lits : ∀ c : Nat, .lit c ∈ x.args → c < g.lits.size
  knows : Knows f first entry b pre x
  present : ∀ (n : Nat) (r : RegId), x.Reads n r → x.argDef n ≠ .absent
  ends : x.op.isTerm → x.op = (f.ins i).op ∧
    ∀ (n : Nat) (t : BlkId), x.args[n]? = some (.blk t) ↔ (f.ins i).args[n]? = some (.blk t)
  does : ∀ m : Sem, sem m → ∀ h s, f.Run first (m.Steps f) h b pre s → m.does g x s = m.act f i s

/-- How control goes on after a block that has become `y`: as before, or a branch has been
decided. -/
inductive Flows (b : BlkId) (y : Blk) : Prop where
  | same (hcode : y.code = (f.blk b).code) (hsuc : y.succs = (f.blk b).succs)
  | decided {i : InsId} {t n c : BlkId} (hcode : (f.blk b).code = y.code ++ [i])
      (hfks : (f.blk b).succs = [t, n] ∨ (f.blk b).succs = [n, t]) (hsuc : y.succs = [c])
      (hgoes : ∀ m : Sem, sem m → ∀ h s, f.Run first (m.Steps f) h b y.code s →
        m.act f i s = .goto none t ∧ c = t ∨ m.act f i s = .skip none t ∧ c = n)

/-- `g` has come about from `f` by rewriting along definitions. -/
structure Tracks (g : Fn) : Prop where
  order : g.order = f.order
  regs : g.regs = f.regs
  tables : g.tables = f.tables
  codeSize : g.code.size = f.code.size
  blksSize : g.blks.size = f.blks.size
  defsIn : ∀ b ∈ f.order, (g.blk b).defsIn = entry b
  paired : Paired g
  flows : ∀ b ∈ f.order, Flows sem f first b (g.blk b)
  stands : ∀ b ∈ f.order, ∀ pre i, f.At b pre i → Stands sem f first entry g b pre i (g.ins i)

end

variable {sem : Sem → Prop} {g g' : Fn} {first b : BlkId} {entry : BlkId → DefMap}
  {pre : List InsId} {i : InsId} {x : Ins} {bad : Fault → Prop}

lemma Stands.congr (h : Stands sem f first entry g b pre i x) (hregs : g'.regs = g.regs)
  (htbs : g'.tables = g.tables) (hsize : g.lits.size ≤ g'.lits.size)
  (hlits : ∀ c, c < g.lits.size → g'.lit c = g.lit c) :
  Stands sem f first entry g' b pre i x := by
  have hsources : ∀ s, g'.srcs x s = g.srcs x s := by
    intro s
    refine map_congr_left fun a ha => ?_
    cases a with
    | lit c => simp only [Fn.argOf, hlits c (h.lits c (mem_of_mem_drop ha))]
    | _ => rfl
  refine ⟨h.written, h.fits, fun c hc => (h.lits c hc).trans_le hsize, h.knows, h.present,
    h.ends, ?_⟩
  intro m hm k s hrun
  rw [← h.does m hm k s hrun]
  exact m.does_congr hregs htbs rfl rfl (hsources s)

lemma Stands.replace (h : Stands sem f first entry g b pre i x) {r : RegId} (hr : x.Reads n r)
  {a : Opnd} (ha : a.isValue) (hlit : ∀ c : Nat, a = .lit c → c < g.lits.size)
  (hkn : ∀ w, d.waypoint? = some w → ∃ q, a = .reg q ∧ f.Known first entry b pre q d)
  (habsent : d ≠ .absent) (hval : ∀ m, sem m → ∀ k s, f.Run first (m.Steps f) k b pre s →
    g.argOf s a = g.argOf s (.reg r)) :
  Stands sem f first entry g b pre i ((x.setArg n a).setDef n d) := by
  have hwr : (x.setArg n a).written = x.written := written_setArg hr.2
  refine ⟨hwr.trans h.written, ?_, ?_, ?_, ?_, ?_, ?_⟩
  · obtain ⟨hlen, hshp, hdest⟩ := h.fits.setArg hr ha
    exact ⟨hlen, hshp, hdest⟩
  · intro c hc
    rcases mem_or_eq_of_mem_set hc with hc | hc
    · exact h.lits c hc
    · exact hlit c hc.symm
  · intro k w hw
    by_cases hk : k = n
    · subst hk
      rcases (x.setArg k a).argDef_setDef k d with hd | hd <;> rw [hd] at hw
      · obtain ⟨q, rfl, hq⟩ := hkn w hw
        exact ⟨q, ⟨getElem?_set_self hr.lt, hr.2⟩, by rwa [hd]⟩
      · cases hw
    · rw [argDef_setDef_ne hk] at hw ⊢
      obtain ⟨q, hq, hkn⟩ := h.knows k w hw
      exact ⟨q, (reads_setArg_ne hk).2 hq, hkn⟩
  · intro k q hq
    by_cases hk : k = n
    · subst hk
      rcases (x.setArg k a).argDef_setDef k d with hd | hd <;> rw [hd]
      · exact habsent
      · simp
    · rw [argDef_setDef_ne hk]
      exact h.present k q ((reads_setArg_ne hk).1 hq)
  · intro hterm
    refine ⟨(h.ends hterm).1, fun k t => ?_⟩
    rw [← (h.ends hterm).2]
    show (x.args.set n a)[k]? = some (.blk t) ↔ _
    by_cases hk : n = k
    · subst hk
      rw [getElem?_set_self hr.lt, hr.1]
      rcases Opnd.isValue_iff.1 ha with ⟨q, rfl⟩ | ⟨c, rfl⟩ <;> simp
    · rw [getElem?_set_ne hk]
  · intro m hm k s hrun
    rw [← h.does m hm k s hrun]
    exact m.does_congr rfl rfl rfl hwr (srcs_setArg hr (hval m hm k s hrun))

lemma Tracks.setIns (h : Tracks sem f first entry g) (hf : f.Connected first) (hb : b ∈ f.order)
  (hi : f.At b pre i) (hx : Stands sem f first entry g b pre i x) :
  Tracks sem f first entry (g.setIns i x) := by
  have hlt : i < g.code.size := h.codeSize ▸ hf.sites b hb i hi.mem
  refine ⟨h.order, h.regs, h.tables, ?_, h.blksSize, h.defsIn, h.paired, ?_, ?_⟩
  · rw [Fn.code_size_setIns, h.codeSize]
  · intro c hc
    exact h.flows c hc
  · intro c hc pre' j hj
    by_cases hji : j = i
    · subst hji
      obtain ⟨rfl, rfl⟩ := hf.at_unique hb hc hi hj
      rw [Fn.ins_setIns_self _ hlt]
      exact hx.congr rfl rfl le_rfl fun _ _ => rfl
    · rw [Fn.ins_setIns_ne _ hji]
      exact (h.stands c hc pre' j hj).congr rfl rfl le_rfl fun _ _ => rfl

lemma Fn.lit_push {c : Lit} (h : n < g.lits.size) :
  ({ g with lits := g.lits.push c } : Fn).lit n = g.lit n := by
  simp [Fn.lit, Array.getElem?_push, h.ne]

lemma Tracks.pushLit (h : Tracks sem f first entry g) (c : Lit) :
  Tracks sem f first entry { g with lits := g.lits.push c } := by
  refine ⟨h.order, h.regs, h.tables, h.codeSize, h.blksSize, h.defsIn, h.paired, ?_, ?_⟩
  · intro b hb
    exact h.flows b hb
  · intro b hb pre i hi
    exact (h.stands b hb pre i hi).congr rfl rfl (by simp) fun n hn => Fn.lit_push hn

/-- What a definition says about a register, in terms of the instruction that it has become. -/
lemma Tracks.origin {m : Sem} {k : History} (h : Tracks sem f first entry g)
  (hf : f.Connected first) (hs : Solved f first entry) (hm : sem m)
  (hrun : f.Run first (m.Steps f) k b pre s) (hi : f.At b pre i)
  (hy : f.Known first entry b pre y (.ins j)) :
  ∃ c pre' s1, Stands sem f first entry g c pre' j (g.ins j) ∧
    (∀ ds v, m.does g (g.ins j) s1 = .set ds v → s y = v) ∧
    ∀ x d, f.Known first entry c pre' x d → f.Known first entry b pre x d → s x = s1 x := by
  obtain ⟨c, pre', k', s1, s2, hc, hrun', hj, hstep, hwrite, hyeq, hkept⟩ :=
    hy.origin hf hs (fun j t t' r ht hr => ht.same hr) hrun hi
  have hstd := h.stands c hc pre' j hj
  refine ⟨c, pre', s1, hstd, ?_, fun x d hxm hxb => (hkept x d hxm).2 hxb⟩
  intro ds v hdoes
  rw [hstd.does m hm k' s1 hrun'] at hdoes
  have hsuits := m.act_suits f j s1
  rw [Sem.Steps, hdoes] at hstep
  rw [hdoes] at hsuits
  obtain rfl : ds = (f.ins j).written := hsuits
  rw [hyeq, show s2 = _ from hstep, Regs.write_of_mem hwrite]

/-- What is known where a register is defined has some definition wherever the register has that
definition. -/
lemma Fn.Known.site (hf : f.Connected first) (hs : Solved f first entry) (hb : b ∈ f.order)
  (hi : f.At b pre i) (hy : f.Known first entry b pre y (.ins j)) :
  ∃ c pre', c ∈ f.order ∧ f.At c pre' j ∧ y ∈ (f.ins j).written ∧
    ∀ x d, f.Known first entry c pre' x d → ∃ d', f.Known first entry b pre x d' := by
  obtain ⟨post, hcode⟩ := hi
  obtain ⟨k, hw⟩ := hf.exists_walk hb hcode
  obtain ⟨later, earlier, rfl, hwrite, -⟩ := hy.accounts hf hs hw
  obtain ⟨c, pre', hw', hj⟩ := hw.before_exec
  have hc := hw'.mem_order hf
  exact ⟨c, pre', hc, hj, hwrite, fun x d hx => hy.of_ins hf hs hb hcode hc hj hx⟩

def Complete (f g : Fn) : Prop :=
  ∀ b ∈ f.order, ∀ pre i, f.At b pre i → ∀ n r, (g.ins i).Reads n r →
    ∃ w, ((g.ins i).argDef n).waypoint? = some w

/-- A function whose definitions have just been recorded. -/
lemma Annotated.tracks (hf : f.Connected first) (hs : Solved f first entry) (hfits : ∀ b ∈ f.order,
  ∀ i ∈ (f.blk b).code, (f.ins i).Fits ∧ ∀ c, .lit c ∈ (f.ins i).args → c < f.lits.size)
  (h : Annotated f g entry f.order) : Tracks sem f first entry g ∧ Complete f g := by
  have hreads : ∀ b ∈ f.order, ∀ pre i, f.At b pre i → ∀ n r, (g.ins i).Reads n r →
      f.Known first entry b pre r ((g.ins i).argDef n) := by
    intro b hb pre i hi n r hr
    rw [h.ins b hb pre i hi] at hr
    exact h.known hf hs hb hi hr
  obtain ⟨hord, hregs, htbs, hlits⟩ :
      g.order = f.order ∧ g.regs = f.regs ∧ g.tables = f.tables ∧ g.lits = f.lits := by
    rw [h.frame]
    exact ⟨rfl, rfl, rfl, rfl⟩
  have hblk : ∀ b, (g.blk b).code = (f.blk b).code ∧ (g.blk b).succs = (f.blk b).succs ∧
      (g.blk b).preds = (f.blk b).preds := by
    intro b
    by_cases hb : b ∈ f.order
    · rw [h.blk b hb]
      exact ⟨rfl, rfl, rfl⟩
    · rw [h.other b hb]
      exact ⟨rfl, rfl, rfl⟩
  have hcpl : Complete f g := by
    intro b hb pre i hi n r hr
    obtain ⟨k, hw⟩ := hf.exists_walk hb hi.choose_spec
    obtain ⟨w, -, -, hw', -⟩ := ((hreads b hb pre i hi n r hr).accounts hf hs hw).exists_waypoint
    exact ⟨w, hw'⟩
  refine ⟨⟨hord, hregs, htbs, h.codeSize, h.blksSize, ?_, ?_, ?_, ?_⟩, hcpl⟩
  · intro b hb
    rw [h.blk b hb]
  · intro a c
    rw [(hblk a).2.1, (hblk c).2.2]
    exact hf.paired a c
  · intro b hb
    exact .same (hblk b).1 (hblk b).2.1
  · intro b hb pre i hi
    obtain ⟨hfit, hlit⟩ := hfits b hb i hi.mem
    have hins := h.ins b hb pre i hi
    refine ⟨by rw [hins, recorded_written], ?_, ?_, ?_, ?_, fun _ => ?_, ?_⟩
    · obtain ⟨hlen, hshp, hdest⟩ := hfit
      rw [hins]
      exact ⟨hlen, hshp, hdest⟩
    · intro c hc
      rw [hins] at hc
      rw [hlits]
      exact hlit c hc
    · intro n w hw
      have hne : (g.ins i).argDef n ≠ .unknown := fun hunknown => by
        rw [hunknown] at hw
        cases hw
      rw [hins] at hne
      obtain ⟨r, hr, -⟩ := reads_of_argDef rfl hne
      have hr' : (g.ins i).Reads n r := hins ▸ hr
      exact ⟨r, hr', hreads b hb pre i hi n r hr'⟩
    · intro n r hr habsent
      obtain ⟨w, hw⟩ := hcpl b hb pre i hi n r hr
      rw [habsent] at hw
      cases hw
    · rw [hins]
      exact ⟨rfl, fun _ _ => Iff.rfl⟩
    · intro m _ k s _
      refine m.does_congr hregs htbs (by rw [hins, recorded_op]) (by rw [hins, recorded_written]) ?_
      rw [hins]
      refine map_congr_left fun a _ => ?_
      cases a with
      | lit c => simp only [Fn.argOf, Fn.lit, hlits]
      | _ => rfl

/-! ## Reading through moves

An operand whose definition is a move may read what was moved: the register that it was moved from,
if that has not changed since, or the literal. -/

open Pass
variable {c : LitId} {a : Opnd}

lemma definingIns?_eq_some {d : Ins} :
  definingIns? g x n = some d ↔ ∃ j, x.argDef n = .ins j ∧ g.ins j = d := by
  unfold definingIns?
  split
  · rename_i j hj
    simp [hj]
  · rename_i hne
    simp only [reduceCtorEq, false_iff, not_exists, not_and]
    exact fun j hj => absurd hj (hne j)

lemma Fn.modifyIns_eq {φ : Ins → Ins} (h : i < g.code.size) :
  g.modifyIns i φ = g.setIns i (φ (g.ins i)) := by
  have hcode : g.code.modify i φ = g.code.setIfInBounds i (φ (g.ins i)) := by
    apply Array.ext
    · simp
    · intro k hk hk'
      by_cases hki : i = k
      · subst hki
        simp [Fn.ins, h, Array.getElem_modify]
      · rw [Array.getElem_modify, if_neg hki, Array.getElem_setIfInBounds_ne _ hki]
  rw [Fn.modifyIns, Fn.setIns, hcode]

/-- A move has a register that it writes and a register or literal that it reads. -/
lemma Ins.Fits.mov_args (hx : x.Fits) (hop : x.op = .mov) :
  ∃ d a, x.args = [.reg d, a] ∧ a.isValue := by
  have hlen := hx.length
  rw [hop] at hlen
  obtain ⟨a0, a1, hargs⟩ := length_eq_two.1 hlen
  have hdest : a0.isReg := hx.dest 0 a0 (by rw [hop]; decide) (by rw [hargs]; rfl)
  have hval := hx.arg_isValue (n := 1) (by rw [hop]; rfl) (.inr (.inr rfl))
  cases a0 with
  | reg d => exact ⟨d, a1, hargs, by simpa [Ins.arg, hargs] using hval⟩
  | _ => cases hdest

lemma Sem.does_mov (m : Sem) (hop : x.op = .mov) {d : Opnd} (hargs : x.args = [d, a])
  {v : Lit} (ha : g.argOf s a = .val v) : m.does g x s = .set x.written v := by
  have hsources : g.srcs x s = [.val v] := by
    rw [Fn.srcs, hargs, hop, ← ha]
    rfl
  rw [does, hsources, hop]
  rfl

lemma Opnd.argOf_eq_val (ha : a.isValue) (g : Fn) (s : Regs Lit) : ∃ v, g.argOf s a = .val v := by
  rcases Opnd.isValue_iff.1 ha with ⟨r, rfl⟩ | ⟨c, rfl⟩
  · exact ⟨s r, rfl⟩
  · exact ⟨g.lit c, rfl⟩

lemma Complete.setIns (hf : f.Connected first) (hcode : g.code.size = f.code.size)
  (h : Complete f g) (hb : b ∈ f.order) (hi : f.At b pre i)
  (hx : ∀ n r, x.Reads n r → ∃ w, (x.argDef n).waypoint? = some w) :
  Complete f (g.setIns i x) := by
  have hlt : i < g.code.size := hcode ▸ hf.sites b hb i hi.mem
  intro c hc pre' j hj n r hr
  by_cases hji : j = i
  · subst hji
    rw [Fn.ins_setIns_self _ hlt] at hr ⊢
    exact hx n r hr
  · rw [Fn.ins_setIns_ne _ hji] at hr ⊢
    exact h c hc pre' j hj n r hr

lemma Ins.Fits.mov_lit (hx : x.Fits) (hop : x.op = .mov) (hc : x.arg 1 = .lit c) :
  .lit c ∈ x.args := by
  obtain ⟨d, a, hargs, -⟩ := hx.mov_args hop
  rw [Ins.arg, hargs] at hc
  obtain rfl : a = .lit c := hc
  simp [hargs]

lemma movedLit?_eq_some : movedLit? g x n = some c ↔
  ∃ j, x.argDef n = .ins j ∧ (g.ins j).op = .mov ∧ (g.ins j).arg 1 = .lit c := by
  unfold movedLit?
  have hlit : ∀ a : Opnd, a.lit? = some c ↔ a = .lit c := by
    intro a
    cases a <;> simp [Opnd.lit?]
  cases hdef : definingIns? g x n with
  | none =>
    simp only [reduceCtorEq, false_iff, not_exists, not_and]
    intro j hj
    rw [definingIns?, hj] at hdef
    cases hdef
  | some d =>
    obtain ⟨j, hj, rfl⟩ := definingIns?_eq_some.1 hdef
    rw [hj]
    simp [← hlit]

/-- What holds of an instruction and is kept when one more of its operands becomes a literal holds
when all have that can. -/
lemma withLits_induct {P : Ins → Prop} (hx : P x)
  (hstep : ∀ y n c, P y → y.op = x.op → y.args[n]? = x.args[n]? → movedLit? g x n = some c →
    P ((y.setArg n (.lit c)).setDef n .unknown)) : P (withLits g x).1 := by
  -- The operands that have not been visited are as they were.
  have hfold : ∀ (φ : Ins × Bool → Nat → Ins × Bool),
      (∀ y changed n, movedLit? g x n = none → φ (y, changed) n = (y, changed)) →
      (∀ y changed n c, movedLit? g x n = some c →
        φ (y, changed) n = ((y.setArg n (.lit c)).setDef n .unknown, true)) →
      ∀ (ns : List Nat) (y : Ins) (changed : Bool), ns.Nodup → P y → y.op = x.op →
      (∀ n ∈ ns, y.args[n]? = x.args[n]?) → P (ns.foldl φ (y, changed)).1 := by
    intro φ hnone hsome ns
    induction ns with
    | nil => exact fun y changed _ hy _ _ => hy
    | cons n ns ih =>
      intro y changed hnd hy hop hargs
      rw [nodup_cons] at hnd
      rw [foldl_cons]
      cases hc : movedLit? g x n with
      | none =>
        rw [hnone y changed n hc]
        exact ih y changed hnd.2 hy hop fun k hk => hargs k (.tail _ hk)
      | some c =>
        rw [hsome y changed n c hc]
        refine ih _ true hnd.2 (hstep y n c hy hop (hargs n (.head _)) hc) hop fun k hk => ?_
        have hne : n ≠ k := fun hnk => hnd.1 (hnk ▸ hk)
        show (y.args.set n (.lit c))[k]? = x.args[k]?
        rw [getElem?_set_ne hne]
        exact hargs k (.tail _ hk)
  exact hfold _ (fun y changed n hc => by simp [hc]) (fun y changed n c hc => by simp [hc]) _ x false
    nodup_range hx rfl fun _ _ => rfl

lemma Tracks.defsAfter_eq (h : Tracks sem f first entry g) (hb : b ∈ f.order) (hi : f.At b pre i) :
  defsAfter (defsThru f pre (entry b)) i (g.ins i) = defsThru f (pre ++ [i]) (entry b) := by
  rw [defsThru_concat, defsAfter, defsAfter, (h.stands b hb pre i hi).written]

lemma Flows.exists_append {y : Blk} (h : Flows sem f first b y) :
  ∃ post, (f.blk b).code = y.code ++ post := by
  cases h with
  | same hcode _ => exact ⟨[], by rw [hcode, append_nil]⟩
  | decided hcode _ _ _ => exact ⟨_, hcode⟩

/-- Visiting the instructions of a block. The last one may be taken away. -/
lemma rewriteBlk_ensures {visit : InsId → Pass (Option (List InsId))} {keep : Fn → Prop}
  (htrk : ∀ g', keep g' → Tracks sem f first entry g')
  (hvisit : ∀ pre i rest g', (g'.blk b).code = pre ++ i :: rest → f.At b pre i → keep g' →
    Ens (visit i) g' bad fun r g'' =>
        r.getD [i] = [i] ∧ (g''.blk b).code = (g'.blk b).code ∧ keep g'' ∨
        rest = [] ∧ keep (g''.setCode b (pre ++ r.getD [i]))) (hb : b ∈ f.order) (h : keep g) :
    Ens (rewriteBlk visit b) g bad fun _ g' => keep g' := by
  let inv (done out rest : List InsId) (g' : Fn) : Prop :=
    (g'.blk b).code = done ++ rest ∧ out = done ∧ keep g' ∨ rest = [] ∧ keep (g'.setCode b out)
  have hstep : ∀ done out i rest g', inv done out (i :: rest) g' →
      Ens (visit i) g' bad fun r g'' => inv (done ++ [i]) (out ++ r.getD [i]) rest g'' := by
    rintro done out i rest g' (⟨hsplit, rfl, hkeep⟩ | ⟨hnil, -⟩)
    · obtain ⟨post, hcode⟩ := ((htrk g' hkeep).flows b hb).exists_append
      have hi : f.At b out i := ⟨rest ++ post, by rw [hcode, hsplit, append_assoc, cons_append]⟩
      refine (hvisit out i rest g' hsplit hi hkeep).mono ?_
      rintro r g'' (⟨hr, hcode', hkeep'⟩ | hlast)
      · exact .inl ⟨by simp [hcode', hsplit], by rw [hr], hkeep'⟩
      · exact .inr hlast
    · cases hnil
  refine ens_get_bind ((ens_rewriteCode hstep (.inl ⟨rfl, rfl, h⟩ : inv [] [] _ g)).bind ?_)
  rintro ⟨n, code⟩ g' hinv
  refine ens_modify_bind (ens_pure ?_)
  rcases hinv with ⟨hsplit, hout, hkeep⟩ | ⟨-, hkeep⟩
  · obtain rfl : code = (g'.blk b).code := by simpa [hsplit] using hout
    rwa [Fn.setCode_code]
  · exact hkeep

section
variable (hf : f.Connected first) (hs : Solved f first entry)
include hf hs

/-! ## Registers -/

lemma Tracks.moved {m : Sem} {k : History} (h : Tracks sem f first entry g)
  (hm : sem m) (hrun : f.Run first (m.Steps f) k b pre s) (hi : f.At b pre i)
  (hy : f.Known first entry b pre y (.ins j)) (hop : (g.ins j).op = .mov) :
  ∃ c pre' s1, Stands sem f first entry g c pre' j (g.ins j) ∧
    g.argOf s (.reg y) = g.argOf s1 ((g.ins j).arg 1) ∧
    ∀ x d, f.Known first entry c pre' x d → f.Known first entry b pre x d → s x = s1 x := by
  obtain ⟨c, pre', s1, hstd, hset, hkept⟩ := h.origin hf hs hm hrun hi hy
  obtain ⟨d, a, hargs, ha⟩ := hstd.fits.mov_args hop
  obtain ⟨v, hv⟩ := Opnd.argOf_eq_val ha g s1
  have harg : (g.ins j).arg 1 = a := by rw [Ins.arg, hargs]; rfl
  refine ⟨c, pre', s1, hstd, ?_, hkept⟩
  rw [harg, hv, Fn.argOf, hset _ v (m.does_mov hop hargs hv)]

section
variable (hb : b ∈ f.order) (hi : f.At b pre i) (h : Tracks sem f first entry g)
  (hcpl : Complete f g)
include hb hi h hcpl

lemma readThrough_ensures : Ens (readThrough (defsThru f pre (entry b)) i n) g bad fun _ g' =>
      Tracks sem f first entry g' ∧ Complete f g' := by
  have hstay : Tracks sem f first entry g ∧ Complete f g := ⟨h, hcpl⟩
  refine ens_get_bind ?_
  split
  · exact ens_pure hstay
  · rename_i mov hmov
    obtain ⟨j, hdef, rfl⟩ := definingIns?_eq_some.1 hmov
    have hstd := h.stands b hb pre i hi
    obtain ⟨y, hy, hkn⟩ := hstd.knows n (.exec j) (by rw [hdef]; rfl)
    rw [hdef] at hkn
    split
    · rename_i src hop hsrc
      -- What the move reads is known at the move, and so here.
      obtain ⟨c, pre', hc, hj, -, hsite⟩ := hkn.site hf hs hb hi
      have hmoves := h.stands c hc pre' j hj
      obtain ⟨d, a, hargs, -⟩ := hmoves.fits.mov_args hop
      have hreads : (g.ins j).Reads 1 src := by
        refine ⟨?_, by rw [hop]; decide⟩
        rw [← hsrc]
        exact Ins.getElem?_of_arg (by simp [hargs])
      obtain ⟨w, hw⟩ := hcpl c hc pre' j hj 1 src hreads
      obtain ⟨q, hq, hthere⟩ := hmoves.knows 1 w hw
      obtain rfl : q = src := by simpa using hq.1.symm.trans hreads.1
      obtain ⟨e, hhere⟩ := hsite q _ hthere
      split
      · exact ens_pure hstay
      · refine ens_attempt_bind (by rw [hhere.found]; rfl) ?_
        split
        · exact ens_pure hstay
        · rename_i hsame
          obtain rfl : e = (g.ins j).argDef 1 := by simpa using hsame
          have hlt : i < g.code.size := h.codeSize ▸ hf.sites b hb i hi.mem
          refine ens_modify_bind (ens_pure ?_)
          rw [Fn.modifyIns_eq hlt]
          refine ⟨h.setIns hf hb hi (hstd.replace hy rfl (by simp)
            (fun _ _ => ⟨q, rfl, hhere⟩) (fun habsent => ?_) ?_),
              hcpl.setIns hf h.codeSize hb hi ?_⟩
          · rw [habsent] at hw
            cases hw
          · intro m hm k s hrun
            obtain ⟨c', pre'', s1, hthen, hval, hkept⟩ := h.moved hf hs hm hrun hi hkn hop
            obtain ⟨p, hp, hkn'⟩ := hthen.knows 1 w hw
            obtain rfl : p = q := by simpa using hp.1.symm.trans hreads.1
            rw [hval, hsrc, Fn.argOf, Fn.argOf, hkept p _ hkn' hhere]
          · intro k r hr
            by_cases hk : k = n
            · subst hk
              have hdefs : k < ((g.ins i).setArg k (.reg q)).defs.length :=
                Ins.lt_of_argDef (x := g.ins i) (by rw [hdef]; simp)
              exact ⟨w, by rw [Ins.argDef_setDef_self hdefs, hw]⟩
            · rw [Ins.argDef_setDef_ne hk]
              exact hcpl b hb pre i hi k r ((Ins.reads_setArg_ne hk).1 hr)
    · exact ens_pure hstay

lemma readAllThrough_ensures {ns : List Nat} :
  Ens (readAllThrough (defsThru f pre (entry b)) i ns) g bad fun _ g' =>
      Tracks sem f first entry g' ∧ Complete f g' := by
  induction ns generalizing g with
  | nil => exact ens_pure ⟨h, hcpl⟩
  | cons n ns ih =>
    refine (readThrough_ensures hf hs hb hi h hcpl).bind fun here g1 h1 => ?_
    refine (ih h1.1 h1.2).bind fun count g2 h2 => ?_
    exact ens_pure h2

end

lemma propagateRegsIn_ensures (hb : b ∈ f.order) {is post : List InsId}
  (hcode : (f.blk b).code = pre ++ (is ++ post)) (h : Tracks sem f first entry g)
  (hcpl : Complete f g) : Ens (propagateRegsIn is (defsThru f pre (entry b))) g bad fun _ g' =>
      Tracks sem f first entry g' ∧ Complete f g' := by
  induction is generalizing pre g with
  | nil => exact ens_pure ⟨h, hcpl⟩
  | cons i is ih =>
    have hi : f.At b pre i := ⟨is ++ post, hcode⟩
    refine ens_get_bind ?_
    refine (readAllThrough_ensures hf hs hb hi h hcpl).bind fun count g1 h1 => ?_
    refine ens_get_bind ?_
    rw [h1.1.defsAfter_eq hb hi]
    refine (ih (by simpa using hcode) h1.1 h1.2).bind fun rest g2 h2 => ?_
    exact ens_pure h2

lemma propagateRegs_ensures (h : Tracks sem f first entry g) (hcpl : Complete f g) :
  Ens propagateRegs g bad fun _ g' => Tracks sem f first entry g' ∧ Complete f g' := by
  refine ens_eachBlk ?_ ⟨h, hcpl⟩
  rintro b hb g' ⟨htrk, hcpl'⟩
  rw [h.order] at hb
  obtain ⟨post, hcode⟩ := (htrk.flows b hb).exists_append
  refine ens_get_bind ?_
  dsimp only
  rw [htrk.defsIn b hb]
  have hsta : (f.blk b).code = [] ++ ((g'.blk b).code ++ post) := hcode
  exact propagateRegsIn_ensures hf hs hb hsta htrk hcpl'

/-! ## Literals -/

/-- One operand that was moved from a literal becomes the literal. -/
lemma Stands.withLit {y : Ins} (hb : b ∈ f.order) (hi : f.At b pre i)
  (h : Tracks sem f first entry g) (hx : Stands sem f first entry g b pre i x)
  (hy : Stands sem f first entry g b pre i y) (hop : y.op = x.op) (harg : y.args[n]? = x.args[n]?) (hc : movedLit? g x n = some c) :
  Stands sem f first entry g b pre i ((y.setArg n (.lit c)).setDef n .unknown) := by
  obtain ⟨j, hdef, hmov, hlit⟩ := movedLit?_eq_some.1 hc
  obtain ⟨r, hr, hkn⟩ := hx.knows n (.exec j) (by rw [hdef]; rfl)
  rw [hdef] at hkn
  obtain ⟨e, pre', he, hj, -, -⟩ := hkn.site hf hs hb hi
  have hmoves := h.stands e he pre' j hj
  have hy' : y.Reads n r := ⟨by rw [harg, hr.1], by rw [hop]; exact hr.2⟩
  refine hy.replace hy' rfl ?_ (fun w hw => by cases hw) (by simp) ?_
  · rintro _ ⟨⟩
    exact hmoves.lits c (hmoves.fits.mov_lit hmov hlit)
  · intro m hm k s hrun
    obtain ⟨-, -, s1, -, hval, -⟩ := h.moved hf hs hm hrun hi hkn hmov
    rw [hval, hlit]
    rfl

lemma withLits_stands (hb : b ∈ f.order) (hi : f.At b pre i) (h : Tracks sem f first entry g)
  (hx : Stands sem f first entry g b pre i x) :
  Stands sem f first entry g b pre i (withLits g x).1 :=
  withLits_induct hx fun _ _ _ hy hop harg hc => hx.withLit hf hs hb hi h hy hop harg hc

/-- Replacing reads of registers that were moved from literals keeps what the single replacements
keep. -/
lemma propagateLits_keeps {keep : Fn → Prop}
  (htrk : ∀ g', keep g' → Tracks sem f first entry g')
  (hset : ∀ b ∈ f.order, ∀ pre i, f.At b pre i → ∀ g', keep g' →
    Tracks sem f first entry (g'.setIns i (withLits g' (g'.ins i)).1) →
    keep (g'.setIns i (withLits g' (g'.ins i)).1))
  (h : keep g) : Ens propagateLits g bad fun _ g' => keep g' := by
  refine ens_eachBlk (fun b hb g' hkeep => ?_) h
  rw [(htrk g h).order] at hb
  refine rewriteBlk_ensures htrk ?_ hb hkeep
  intro pre i rest k _ hi hk
  have hstd := withLits_stands hf hs hb hi (htrk k hk) ((htrk k hk).stands b hb pre i hi)
  refine ens_get_bind ?_
  dsimp only
  split
  · exact ens_set_bind (ens_pure (.inl ⟨rfl, rfl,
      hset b hb pre i hi k hk ((htrk k hk).setIns hf hb hi hstd)⟩))
  · exact ens_pure (.inl ⟨rfl, rfl, hk⟩)

lemma propagateLits_ensures (h : Tracks sem f first entry g) :
  Ens propagateLits g bad fun _ g' => Tracks sem f first entry g' :=
  propagateLits_keeps hf hs (fun _ h' => h') (fun _ _ _ _ _ _ _ h' => h') h

end

/-! ## Folding

An instruction on literals becomes a move of its result, and a branch on literals goes, with the edge
that is not taken. The only faults are those of the evaluation. -/

open Fn Op
variable {c t : BlkId} {conv : Bool} {rest : List InsId} {v : Lit}

/-- A fault that comes from evaluating literals. -/
inductive EvalFault (e : Fault) : Prop where
  | alu {op : Op} {a b : Lit} (h : evalAlu op a b = .error e)
  | alu1 {op : Op} {a : Lit} (h : evalAlu1 op a = .error e)
  | branch {op : Op} {a b : Lit} (h : evalBranch op a b = .error e)
  | convert {k : Kind} {a : Lit} (h : convertInt k a = .error e)
  | off {a b : Lit} (h : addOffs a b = .error e)

lemma Op.opnds_length (op : Op) : op.opnds.length = op.fam.opndCount := by
  cases op <;> rfl

/-! ## What instructions do, by family -/

section
variable {d b : Opnd} {u : Lit}

namespace Sem
variable (m : Sem)

attribute [local simp] does srcs perform defCount Fam.defCount

lemma does_alu (hfam : x.op.fam = .alu) (hargs : x.args = [d, a, b])
  (ha : g.argOf s a = .val u) (hb : g.argOf s b = .val v) :
  m.does g x s = .set x.written (m.alu x.op u v) := by
  simp [hfam, hargs, ha, hb]

lemma does_alu1 (hfam : x.op.fam = .alu1) (hargs : x.args = [d, a])
  (ha : g.argOf s a = .val u) : m.does g x s = .set x.written (m.alu1 x.op u) := by
  simp [hfam, hargs, ha]

lemma does_conv (hfam : x.op.fam = .conv) (hargs : x.args = [d, a])
  (ha : g.argOf s a = .val u) :
  m.does g x s = .set x.written (m.convert x.op (g.destKind x) u) := by
  simp [hfam, hargs, ha]

lemma does_cmp (hfam : x.op.fam = .cmp) {p q : Opnd} {w z : Lit}
  (hargs : x.args = [d, p, q, a, b]) (hp : g.argOf s p = .val w) (hq : g.argOf s q = .val z)
  (ha : g.argOf s a = .val u) (hb : g.argOf s b = .val v) :
  m.does g x s = .set x.written (if m.holds x.op.condition u v then w else z) := by
  simp [hfam, hargs, ha, hb, hp, hq]

lemma does_condBra (hfam : x.op.fam = .condBra) (hargs : x.args = [a, b, .blk t])
  (ha : g.argOf s a = .val u) (hb : g.argOf s b = .val v) :
  m.does g x s = if m.holds x.op u v then .goto none t else .skip none t := by
  have ht : g.argOf s (.blk t) = .blk t := rfl
  simp [hfam, hargs, ha, hb, ht]

end Sem
end

lemma Fn.litOf?_eq_some : g.litOf? a = some v ↔ ∃ c, a = .lit c ∧ g.lit c = v := by
  cases a <;> simp [litOf?, Opnd.lit?]

lemma Fn.argOf_of_litOf? (h : g.litOf? a = some v) (s : Regs Lit) : g.argOf s a = .val v := by
  obtain ⟨c, rfl, rfl⟩ := litOf?_eq_some.1 h
  rfl

lemma litPair?_eq_some {m : Nat} {u : Lit} : litPair? g x m n = some (u, v) ↔
  g.litOf? (x.arg m) = some u ∧ g.litOf? (x.arg n) = some v := by
  simp only [litPair?]
  cases g.litOf? (x.arg m) <;> cases g.litOf? (x.arg n) <;> simp

lemma Ins.Fits.length_args (hx : x.Fits) {fam : Fam} (h : x.op.fam = fam) :
  x.args.length = fam.opndCount := by
  rw [hx.length, opnds_length, h]

/-! ## Instructions that become moves -/

lemma Ins.Fits.dest_args (hx : x.Fits) (hcnt : x.op.defCount = 1)
  (hlt : 0 < x.args.length) : ∃ d rest, x.args = .reg d :: rest ∧ x.written = [d] := by
  cases hargs : x.args with
  | nil => simp [hargs] at hlt
  | cons a rest =>
    have hreg := hx.dest 0 a (by omega) (by simp [hargs])
    cases a with
    | reg d => exact ⟨d, rest, rfl, by simp [written, hargs, hcnt, Opnd.reg?]⟩
    | _ => cases hreg

/-- An instruction that always gives its register the value of one operand becomes a move. -/
lemma Stands.toMove (h : Stands sem f first entry g b pre i x) (hcnt : x.op.defCount = 1)
  (hlt : 0 < x.args.length) (ha : a.isValue)
  (hlit : ∀ c : Nat, a = .lit c → c < g.lits.size)
  (hval : ∀ m, sem m → ∀ k s, f.Run first (m.Steps f) k b pre s →
    ∃ v, g.argOf s a = .val v ∧ m.act f i s = .set x.written v) :
  Stands sem f first entry g b pre i (.of .mov [x.arg 0, a]) := by
  obtain ⟨d, rest, hargs, hwr⟩ := h.fits.dest_args hcnt hlt
  have harg : x.arg 0 = .reg d := by simp [arg, hargs]
  rw [harg]
  have hwr' : (of .mov [.reg d, a]).written = x.written := by rw [hwr]; rfl
  have hunknown : ∀ n, (of .mov [.reg d, a]).argDef n = .unknown := by rintro (_ | _ | n) <;> rfl
  refine ⟨hwr'.trans h.written, ⟨rfl, ?_, ?_⟩, ?_, ?_, ?_, ?_, ?_⟩
  · intro n k c hk hc
    rcases n with _ | _ | n
    · cases hk
      cases hc
      rfl
    · cases hk
      cases hc
      exact OpndKind.admits_of_isValue (a := .reg d) rfl ha rfl
    · cases hc
  · intro n c hn hc
    obtain rfl : n = 0 := Nat.lt_one_iff.1 hn
    cases hc
    rfl
  · intro c hc
    have hc' : a = .lit c := by simpa [of, eq_comm] using hc
    exact hlit c hc'
  · intro n w hw
    rw [hunknown] at hw
    cases hw
  · intro n r _ habsent
    rw [hunknown] at habsent
    cases habsent
  · intro hterm
    cases hterm
  · intro m hm k s hrun
    obtain ⟨v, hv, hact⟩ := hval m hm k s hrun
    rw [hact, m.does_mov rfl rfl hv, hwr']

/-- What a visit to an instruction that stays where it is has to bring about. -/
def Kept (sem : Sem → Prop) (f : Fn) (first : BlkId) (entry : BlkId → DefMap) (g : Fn)
  (b : BlkId) (i : InsId) (r : Option (List InsId)) (g' : Fn) : Prop :=
  r.getD [i] = [i] ∧ (g'.blk b).code = (g.blk b).code ∧ Tracks sem f first entry g'

lemma becomeMove_ensures (hf : f.Connected first) (hb : b ∈ f.order) (hi : f.At b pre i)
  (h : Tracks sem f first entry g) {fam : Fam} (hfam : (g.ins i).op.fam = fam)
  (hcnt : fam.defCount = 1) (hlt : 0 < fam.opndCount)
  (hval : ∀ m, sem m → ∀ s, m.does g (g.ins i) s = .set (g.ins i).written v) :
  Ens (becomeMove i ((g.ins i).arg 0) v) g bad (Kept sem f first entry g b i) := by
  have hstd := h.stands b hb pre i hi
  have hnew : Ens (newLiteral v) g bad fun a g' => a = .lit g.lits.size ∧
      g' = { g with lits := g.lits.push v } := ens_newLit ⟨rfl, rfl⟩
  refine hnew.bind ?_
  rintro _ g' ⟨rfl, rfl⟩
  have hpush : Stands sem f first entry { g with lits := g.lits.push v } b pre i (g.ins i) :=
    (h.pushLit v).stands b hb pre i hi
  refine (ens_resetIns rfl ?_).bind fun _ g' h' => ens_pure h'
  subst hfam
  rw [← hstd.fits.length_args rfl] at hlt
  refine ⟨rfl, rfl, (h.pushLit v).setIns hf hb hi (hpush.toMove hcnt hlt rfl ?_ ?_)⟩
  · rintro c ⟨⟩
    simp
  · intro m hm k s hrun
    refine ⟨v, by simp [argOf, lit], ?_⟩
    rw [← hstd.does m hm k s hrun, hval m hm s]

/-! ## Branches that are decided -/

lemma Fn.removeEdge_ok {a : BlkId} (hpr : Paired g) (h : c ∈ (g.blk a).succs) :
  ∃ g', g.removeEdge a c = .ok g' := by
  have hpred : a ∈ (g.blk c).preds := by
    rw [← count_pos_iff, hpr]
    exact count_pos_iff.2 h
  have hsucc : c ∈ ((g.modBlk c fun x =>
      { x with preds := (g.blk c).preds.erase a }).blk a).succs := by
    rw [blk_mod_field Blk.succs
      (g := fun x => { x with preds := (g.blk c).preds.erase a }) (fun _ => rfl)]
    exact h
  simp only [removeEdge, bind_ok]
  exact ⟨_, _, removeOne_ok.2 ⟨hpred, rfl⟩, _, removeOne_ok.2 ⟨hsucc, rfl⟩, rfl⟩

lemma Flows.congr {y z : Blk} (h : Flows sem f first b y) (hcode : z.code = y.code)
  (hsuc : z.succs = y.succs) : Flows sem f first b z := by
  cases h with
  | same hc hs => exact .same (hcode.trans hc) (hsuc.trans hs)
  | decided hc hfks hs hgoes =>
    exact .decided (hcode ▸ hc) hfks (hsuc.trans hs) (by rwa [hcode])

/-- A branch whose outcome is known goes, and so does one edge. -/
lemma Tracks.decide (h : Tracks sem f first entry g) (hf : f.Connected first) (hb : b ∈ f.order)
  {n dead : BlkId} (hcode : (f.blk b).code = pre ++ [i])
  (hfks : (f.blk b).succs = [t, n] ∨ (f.blk b).succs = [n, t])
  (hsame : (g.blk b).succs = (f.blk b).succs) (hdead : dead = n ∧ c = t ∨ dead = t ∧ c = n)
  (hedge : g.removeEdge b dead = .ok g')
  (hgoes : ∀ m, sem m → ∀ k s, f.Run first (m.Steps f) k b pre s →
    m.act f i s = .goto none t ∧ c = t ∨ m.act f i s = .skip none t ∧ c = n) :
  Tracks sem f first entry (g'.setCode b pre) := by
  have hlt : b < g.blks.size := h.blksSize ▸ hf.lt b hb
  have hin : dead < g.blks.size := by
    have hmem : dead ∈ (f.blk b).succs := by
      rcases hfks with hfks | hfks <;> rw [hfks] <;> rcases hdead with ⟨rfl, -⟩ | ⟨rfl, -⟩ <;> simp
    exact h.blksSize ▸ hf.lt dead (hf.inside b hb dead hmem)
  have herase : (f.blk b).succs.erase dead = [c] := by
    by_cases htn : t = n
    · rcases hfks with hfks | hfks <;> rw [hfks] <;>
        rcases hdead with ⟨rfl, rfl⟩ | ⟨rfl, rfl⟩ <;> simp [htn]
    · rcases hfks with hfks | hfks <;> rw [hfks] <;>
        rcases hdead with ⟨rfl, rfl⟩ | ⟨rfl, rfl⟩ <;> simp [htn, Ne.symm htn]
  obtain ⟨honly, hpr, hsuc, hoths, -⟩ := removeEdge_spec hlt hin h.paired hedge
  obtain ⟨hord, hregs, htbs, hlits, hins⟩ :
      g'.order = g.order ∧ g'.regs = g.regs ∧ g'.tables = g.tables ∧ g'.lits = g.lits ∧
      g'.code = g.code := by
    rw [honly.rest]
    exact ⟨rfl, rfl, rfl, rfl, rfl⟩
  have hlt' : b < g'.blks.size := honly.size ▸ hlt
  have hfields : ∀ a, ((g'.setCode b pre).blk a).succs = (g'.blk a).succs ∧
      ((g'.setCode b pre).blk a).preds = (g'.blk a).preds ∧
      ((g'.setCode b pre).blk a).defsIn = (g.blk a).defsIn := by
    intro a
    have hdefs : (g'.blk a).defsIn = (g.blk a).defsIn := by rw [honly.blk a]
    by_cases hab : a = b
    · subst hab
      rw [setCode, blk_mod_self _ hlt']
      exact ⟨rfl, rfl, hdefs⟩
    · rw [setCode, blk_mod_ne _ hab]
      exact ⟨rfl, rfl, hdefs⟩
  refine ⟨hord.trans h.order, hregs.trans h.regs, htbs.trans h.tables, ?_, ?_, ?_, ?_, ?_, ?_⟩
  · rw [← h.codeSize, ← hins]
    rfl
  · rw [← h.blksSize, ← honly.size]
    simp
  · intro a ha
    rw [(hfields a).2.2, h.defsIn a ha]
  · intro a e
    rw [(hfields e).2.1, (hfields a).1]
    exact hpr a e
  · intro a ha
    by_cases hab : a = b
    · subst hab
      have hnew : ((g'.setCode a pre).blk a).code = pre := by
        rw [setCode, blk_mod_self _ hlt']
      refine .decided (by rwa [hnew]) hfks ?_ (by rwa [hnew])
      rw [(hfields a).1, hsuc, hsame, herase]
    · refine (h.flows a ha).congr ?_ ?_
      · rw [setCode, blk_mod_ne _ hab, honly.blk a]
      · rw [(hfields a).1, hoths a hab]
  · intro a ha pre' j hj
    have hsame : (g'.setCode b pre).ins j = g.ins j := by
      simp only [setCode, modBlk, ins, hins]
    rw [hsame]
    refine (h.stands a ha pre' j hj).congr hregs htbs (le_of_eq (by rw [← hlits]; rfl)) ?_
    intro k _
    simp only [setCode, modBlk, lit, hlits]

lemma Tracks.branch (h : Tracks sem f first entry g) (hends : f.LeavesEnd) (hfks : f.Forking)
  (hb : b ∈ f.order) (hi : f.At b pre i) (hcode : (g.blk b).code = pre ++ i :: rest)
  (hfam : (g.ins i).op.fam = .condBra) :
  rest = [] ∧ (f.blk b).code = pre ++ [i] ∧ (g.blk b).succs = (f.blk b).succs ∧
    ∃ t n, (g.ins i).arg 2 = .blk t ∧ ((f.blk b).succs = [t, n] ∨ (f.blk b).succs = [n, t]) := by
  have hterm : (g.ins i).op.isTerm := by
    rw [isTerm_eq, hfam]
    rfl
  obtain ⟨hop, hbks⟩ := (h.stands b hb pre i hi).ends hterm
  obtain ⟨t, n, htgt, hsuc⟩ := hfks.succs hb hi.mem (hop ▸ hfam)
  obtain ⟨after, hafter⟩ := hi
  obtain rfl := hends.eq_nil hb hafter (hop ▸ hterm)
  obtain ⟨post, hpost⟩ := (h.flows b hb).exists_append
  have hrest : rest = [] ∧ post = [] := by simpa [hcode, hafter] using hpost
  refine ⟨hrest.1, hafter, ?_, t, n, arg_of_getElem? ((hbks 2 t).2 htgt), hsuc⟩
  cases h.flows b hb with
  | same _ hsame => exact hsame
  | decided hcode' _ _ _ =>
    have hlong := congrArg List.length hcode'
    simp [hcode, hafter] at hlong

lemma foldBranch_ensures (hf : f.Connected first) (hends : f.LeavesEnd) (hfks : f.Forking)
  (hb : b ∈ f.order) (hi : f.At b pre i) (hcode : (g.blk b).code = pre ++ i :: rest)
  (h : Tracks Sem.Evaluates f first entry g) (hfam : (g.ins i).op.fam = .condBra) :
  Ens (foldBranch b (g.ins i)) g EvalFault fun r g' =>
      Kept Sem.Evaluates f first entry g b i r g' ∨
      rest = [] ∧ Tracks Sem.Evaluates f first entry (g'.setCode b (pre ++ r.getD [i])) := by
  obtain ⟨hrest, hlast, hsame, t, n, htgt, hsuc⟩ := h.branch hends hfks hb hi hcode hfam
  have hstd := h.stands b hb pre i hi
  refine ens_get_bind ?_
  split
  · exact ens_pure (.inl ⟨rfl, rfl, h⟩)
  · rename_i c d hpair
    obtain ⟨hc, hd⟩ := litPair?_eq_some.1 hpair
    refine ens_attempt_cases (fun _ => .branch) fun taken htaken => ?_
    -- Where control goes on, and which edge it does not take.
    let dead := if taken then n else t
    let next := if taken then t else n
    have hdead : dead = n ∧ next = t ∨ dead = t ∧ next = n := by
      cases taken
      · exact .inr ⟨rfl, rfl⟩
      · exact .inl ⟨rfl, rfl⟩
    have hgoes : ∀ m : Sem, m.Evaluates → ∀ k s, f.Run first (m.Steps f) k b pre s →
        m.act f i s = .goto none t ∧ next = t ∨ m.act f i s = .skip none t ∧ next = n := by
      intro m hm k s hrun
      obtain ⟨a0, a1, a2, hargs⟩ := length_eq_three.1 (hstd.fits.length_args hfam)
      simp only [arg, hargs, getD_cons_zero, getD_cons_succ] at hc hd htgt
      rw [← hstd.does m hm k s hrun, m.does_condBra hfam (htgt ▸ hargs)
        (argOf_of_litOf? hc s) (argOf_of_litOf? hd s), hm.holds _ _ _ _ htaken]
      cases taken
      · exact .inr ⟨rfl, rfl⟩
      · exact .inl ⟨rfl, rfl⟩
    have hmem : dead ∈ (g.blk b).succs := by
      rw [hsame]
      rcases hsuc with hsuc | hsuc <;> rw [hsuc] <;>
        rcases hdead with ⟨hdead, -⟩ | ⟨hdead, -⟩ <;> simp [hdead]
    obtain ⟨g', hedge⟩ := removeEdge_ok h.paired hmem
    have hdone : Tracks Sem.Evaluates f first entry (g'.setCode b (pre ++ [])) := by
      rw [append_nil]
      exact h.decide hf hb hlast hsuc hsame hdead hedge hgoes
    rw [hsame, htgt]
    rcases hsuc with hsuc | hsuc <;> rw [hsuc] <;> dsimp only
    · rw [if_pos rfl]
      exact ens_attempt_bind hedge (ens_set_bind (ens_pure (.inr ⟨hrest, hdone⟩)))
    · rw [show (if n = t then t else n) = n by split <;> simp_all]
      exact ens_attempt_bind hedge (ens_set_bind (ens_pure (.inr ⟨hrest, hdone⟩)))

/-! ## Folding -/

lemma Op.eq_of_fam_cmp {op : Op} (h : op.fam = .cmp) : op = .cmpeq ∨ op = .cmplt := by
  cases op <;> simp_all [fam, shape]

lemma Ins.Fits.cmp_isValue (hx : x.Fits) (hfam : x.op.fam = .cmp)
  (hn : n = 1 ∨ n = 2) : (x.arg n).isValue := by
  obtain ⟨k, hk, hkind⟩ : ∃ k, x.op.opnds[n]? = some k ∧
      (k.1 = .reg ∨ k.1 = .lit ∨ k.1 = .regOrLit) := by
    rcases eq_of_fam_cmp hfam with hop | hop <;> rcases hn with rfl | rfl <;> rw [hop] <;>
      exact ⟨_, rfl, by decide⟩
  exact hx.arg_isValue hk hkind

lemma Tracks.foldCmp (hf : f.Connected first) (hb : b ∈ f.order) (hi : f.At b pre i)
  (h : Tracks Sem.Evaluates f first entry g) (hfam : (g.ins i).op.fam = .cmp)
  {c d : Lit} (hpair : litPair? g (g.ins i) 3 4 = some (c, d)) {yes : Bool}
  (hyes : evalBranch (g.ins i).op.condition c d = .ok yes) :
  Tracks Sem.Evaluates f first entry (g.setIns i (.of .mov
    [(g.ins i).arg 0, if yes then (g.ins i).arg 1 else (g.ins i).arg 2])) := by
  have hstd := h.stands b hb pre i hi
  have hval1 := hstd.fits.cmp_isValue hfam (.inl rfl)
  have hval2 := hstd.fits.cmp_isValue hfam (.inr rfl)
  obtain ⟨hc, hd⟩ := litPair?_eq_some.1 hpair
  have hlen := hstd.fits.length_args hfam
  obtain ⟨a0, a1, a2, a3, a4, hargs⟩ : ∃ a0 a1 a2 a3 a4, (g.ins i).args = [a0, a1, a2, a3, a4] := by
    match (g.ins i).args, hlen with
    | [a0, a1, a2, a3, a4], _ => exact ⟨a0, a1, a2, a3, a4, rfl⟩
  have harg1 : (g.ins i).arg 1 = a1 := by rw [arg, hargs]; rfl
  have harg2 : (g.ins i).arg 2 = a2 := by rw [arg, hargs]; rfl
  rw [harg1] at hval1 ⊢
  rw [harg2] at hval2 ⊢
  have hcnt : (g.ins i).op.defCount = 1 := by rw [defCount, hfam]; rfl
  refine h.setIns hf hb hi (hstd.toMove hcnt (by rw [hlen]; decide) ?_ ?_ ?_)
  · cases yes
    · exact hval2
    · exact hval1
  · intro k hk
    refine hstd.lits k ?_
    rw [hargs, ← hk]
    cases yes <;> simp
  · intro m hm k s hrun
    obtain ⟨w, hw⟩ := Opnd.argOf_eq_val hval1 g s
    obtain ⟨z, hz⟩ := Opnd.argOf_eq_val hval2 g s
    simp only [arg, hargs] at hc hd
    refine ⟨if yes then w else z, by cases yes <;> assumption, ?_⟩
    rw [← hstd.does m hm k s hrun, m.does_cmp hfam hargs hw hz (argOf_of_litOf? hc s)
      (argOf_of_litOf? hd s), hm.holds _ _ _ _ hyes]

section
variable (hf : f.Connected first) (hends : f.LeavesEnd) (hfks : f.Forking)
include hf hends hfks

lemma foldIns_ensures (hb : b ∈ f.order) (hi : f.At b pre i)
  (hcode : (g.blk b).code = pre ++ i :: rest) (h : Tracks Sem.Evaluates f first entry g) :
  Ens (foldIns conv b i) g EvalFault fun r g' =>
      Kept Sem.Evaluates f first entry g b i r g' ∨
      rest = [] ∧ Tracks Sem.Evaluates f first entry (g'.setCode b (pre ++ r.getD [i])) := by
  have hstd := h.stands b hb pre i hi
  have hstay : Kept Sem.Evaluates f first entry g b i none g := ⟨rfl, rfl, h⟩
  refine ens_get_bind ?_
  dsimp only
  split
  · rename_i hfam
    exact foldBranch_ensures hf hends hfks hb hi hcode h hfam
  · rename_i hfam
    split
    · exact ens_pure (.inl hstay)
    · rename_i c d hpair
      have hcondition : (if (g.ins i).op = .cmpeq then beq else .blt) = (g.ins i).op.condition := by
        rcases eq_of_fam_cmp hfam with hop | hop <;> rw [hop] <;> rfl
      rw [hcondition]
      refine ens_attempt_cases (fun _ => .branch) fun yes hyes => ?_
      have hkept := h.foldCmp hf hb hi hfam hpair hyes
      exact ens_bind_of_ok (a := ⟨⟩) (run_resetIns_ok.2 ⟨rfl, rfl⟩)
        (ens_pure (.inl ⟨rfl, rfl, hkept⟩))
  · rename_i hfam
    split
    · exact ens_pure (.inl hstay)
    · rename_i c hc
      refine ens_attempt_cases (fun _ => .alu1) fun v hv =>
        (becomeMove_ensures hf hb hi h hfam rfl (by decide) ?_).mono fun _ _ => .inl
      intro m hm s
      obtain ⟨a0, a1, hargs⟩ := length_eq_two.1 (hstd.fits.length_args hfam)
      simp only [arg, hargs] at hc
      rw [m.does_alu1 hfam hargs (argOf_of_litOf? hc s), hm.alu1 _ _ _ hv]
  · rename_i hfam
    split
    · exact ens_pure (.inl hstay)
    · rename_i c d hpair
      refine ens_attempt_cases (fun _ => .alu) fun v hv =>
        (becomeMove_ensures hf hb hi h hfam rfl (by decide) ?_).mono fun _ _ => .inl
      intro m hm s
      obtain ⟨hc, hd⟩ := litPair?_eq_some.1 hpair
      obtain ⟨a0, a1, a2, hargs⟩ := length_eq_three.1 (hstd.fits.length_args hfam)
      simp only [arg, hargs] at hc hd
      rw [m.does_alu hfam hargs (argOf_of_litOf? hc s) (argOf_of_litOf? hd s), hm.alu _ _ _ _ hv]
  · rename_i hfam
    split
    · exact ens_pure (.inl hstay)
    · rename_i c hc
      split
      · rename_i hcond
        simp only [Bool.and_eq_true, decide_eq_true_eq] at hcond
        obtain ⟨⟨⟨hop, -⟩, hfrom⟩, hto⟩ := hcond
        refine ens_attempt_cases (fun _ => .convert) fun v hv =>
          (becomeMove_ensures hf hb hi h hfam rfl (by decide) ?_).mono fun _ _ => .inl
        intro m hm s
        obtain ⟨a0, a1, hargs⟩ := length_eq_two.1 (hstd.fits.length_args hfam)
        obtain ⟨d, rest, hdest, hwr⟩ := hstd.fits.dest_args
          (by rw [defCount, hfam]; rfl) (by simp [hargs])
        have hkind : g.kindOf ((g.ins i).arg 0) = g.destKind (g.ins i) := by
          rw [destKind, hwr, arg, hdest]
          rfl
        rw [hkind] at hto hv
        simp only [arg, hargs] at hc
        rw [m.does_conv hfam hargs (argOf_of_litOf? hc s), hop, hm.convert _ _ _ hfrom hto hv]
      · exact ens_pure (.inl hstay)
  · exact ens_pure (.inl hstay)

lemma foldConstants_ensures (h : Tracks Sem.Evaluates f first entry g) :
  Ens (foldConstants conv) g EvalFault fun _ g' =>
      Tracks Sem.Evaluates f first entry g' := by
  refine ens_eachBlk (fun b hb g' htrk => ?_) h
  rw [h.order] at hb
  exact rewriteBlk_ensures (fun _ h' => h')
    (fun pre i rest k hcode hi hk => foldIns_ensures hf hends hfks hb hi hcode hk) hb htrk

end
end Retarget.IR
