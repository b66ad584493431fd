import Retarget.Proofs.Entry

/-!
# Placing one block

What happens to a block depends on how it ends and on which block comes next: `Placed` lists the
cases. A block that ends in a branch and cannot run on to either successor gets an extra block after
it, whose name derives from its own. `Framed` says what stays as it was.
-/

namespace Retarget.IR
open Pass Trace List Fn Ins
variable {b n t : BlkId} {i : InsId} {op : Op} {x y : Opnd}

/-! ## How blocks end -/

lemma Op.fallsThrough_eq (op : Op) :
  op.fallsThrough = !(op.fam == .switch || op.fam == .bra || op.fam == .ret) := by
  cases op <;> rfl

namespace Fn

/-- Control leaves the block by a return or a switch. -/
structure Leaves (f : Fn) (b : BlkId) (i : InsId) : Prop where
  last : (f.blk b).code.getLast? = some i
  inner : ∀ j ∈ (f.blk b).code.dropLast, (f.ins j).op.isTerm = false
  fam : (f.ins i).op.fam = .switch ∨ (f.ins i).op.fam = .ret ∧ (f.blk b).succs = []

/-- Control runs on to `s`. -/
structure RunsOn (f : Fn) (b s : BlkId) : Prop where
  succs : (f.blk b).succs = [s]
  inner : ∀ j ∈ (f.blk b).code, (f.ins j).op.isTerm = false

/-- The block ends in a branch to `t`. If it is not taken, control goes on at `n`. -/
structure Forks (f : Fn) (b : BlkId) (i : InsId) (op : Op) (x y : Opnd) (t n : BlkId) :
    Prop where
  last : (f.blk b).code.getLast? = some i
  inner : ∀ j ∈ (f.blk b).code.dropLast, (f.ins j).op.isTerm = false
  fam : op.fam = .condBra
  op : (f.ins i).op = op
  args : (f.ins i).args = [x, y, .blk t]
  succs : (f.blk b).succs = [t, n]

def Ends (f : Fn) (b : BlkId) : Prop :=
  (∃ i, f.Leaves b i) ∨ (∃ s, f.RunsOn b s) ∨ ∃ i op x y t n, f.Forks b i op x y t n

lemma Forks.ctrl {f : Fn} (h : f.Forks b i op x y t n) :
  (f.ins i).ctrl = .branch op x y t := by
  simp [Ins.ctrl, h.op, h.args, h.fam]

end Fn

lemma Linked.ends_of_noJumps {f : Fn} {bs : List BlkId} (hf : Linked f bs) (hno : NoJumps f bs)
  (hshp : Shaped f bs) (hb : b ∈ bs) : f.Ends b := by
  obtain ⟨ns, hsuc, hlen⟩ := hf.succs b hb
  have hin := hf.ends b hb
  rw [jumpTgts_eq] at hsuc hlen
  cases hlast : (f.blk b).code.getLast? with
  | none =>
    rw [hlast] at hsuc hlen
    obtain ⟨s, rfl⟩ := length_eq_one_iff.1 hlen
    exact .inr (.inl ⟨s, hsuc, by simp [getLast?_eq_none_iff.1 hlast]⟩)
  | some i =>
    rw [hlast, Option.map_some] at hsuc hlen
    have hmem : i ∈ (f.blk b).code := mem_of_getLast? hlast
    cases hcon : (f.ins i).ctrl with
    | next =>
      rw [hcon] at hsuc hlen
      obtain ⟨s, rfl⟩ := length_eq_one_iff.1 hlen
      have hterm : (f.ins i).op.isTerm = false := by
        by_contra hterm
        exact hshp b hb i hmem (by simpa using hterm) hcon
      refine .inr (.inl ⟨s, hsuc, fun j hj => ?_⟩)
      obtain ⟨is, his⟩ := getLast?_eq_some_iff.1 hlast
      rw [his, mem_append, mem_singleton] at hj
      rcases hj with hj | rfl
      · exact hin j (by rw [his, dropLast_concat]; exact hj)
      · exact hterm
    | stop =>
      rw [hcon] at hsuc hlen
      rw [length_eq_zero_iff.1 hlen] at hsuc
      exact .inl ⟨i, hlast, hin, .inr ⟨ctl_eq_stop_iff.1 hcon, hsuc⟩⟩
    | jump t => exact absurd (fam_of_jump hcon).1 (hno b hb i hmem)
    | branch op x y t =>
      rw [hcon] at hsuc hlen
      obtain ⟨n, rfl⟩ := length_eq_one_iff.1 hlen
      obtain ⟨hfam, hop, hargs⟩ := fam_of_branch hcon
      exact .inr (.inr ⟨i, op, x, y, t, n, hlast, hin, hop ▸ hfam, hop, hargs, hsuc⟩)
    | select x t => exact .inl ⟨i, hlast, hin, .inl (fam_of_select hcon).1⟩

/-- The second condition is the opposite of the first one. -/
inductive Opposite : Op → Opnd → Opnd → Op → Opnd → Opnd → Prop where
  | beq (x y : Opnd) : Opposite .beq x y .bne x y
  | bne (x y : Opnd) : Opposite .bne x y .beq x y
  | blt (x y : Opnd) : Opposite .blt x y .ble y x
  | ble (x y : Opnd) : Opposite .ble x y .blt y x

lemma flipBranch_ok {f : Fn} (hfam : op.fam = .condBra) (hop : (f.ins i).op = op)
  (hargs : (f.ins i).args = [x, y, .blk t]) :
  ∃ z op' x' y', (flipBranch i n).run f = .ok (⟨⟩, f.setIns i z) ∧
    Opposite op x y op' x' y' ∧ z.op = op' ∧ z.args = [x', y', .blk n] := by
  have hrun : ∀ op' swap, invertBranch op = some (op', swap) →
      (flipBranch i n).run f = .ok ((), f.setIns i
        (if swap then { (f.ins i).setArg 2 (.blk n) with op := op' }.swap 0 1
          else { (f.ins i).setArg 2 (.blk n) with op := op' })) := by
    intro op' swap hinvert
    simp only [flipBranch, run_bind_ok, run_get_ok]
    refine ⟨f, f, ⟨rfl, rfl⟩, ?_⟩
    rw [hop, hinvert]
    rfl
  cases op with
  | beq => exact ⟨_, _, _, _, hrun _ _ rfl, .beq x y, rfl, by simp [setArg, hargs]⟩
  | bne => exact ⟨_, _, _, _, hrun _ _ rfl, .bne x y, rfl, by simp [setArg, hargs]⟩
  | blt => exact ⟨_, _, _, _, hrun _ _ rfl, .blt x y, rfl, by simp [setArg, Ins.swap, arg, hargs]⟩
  | ble => exact ⟨_, _, _, _, hrun _ _ rfl, .ble x y, rfl, by simp [setArg, Ins.swap, arg, hargs]⟩
  | _ => cases hfam

/-! ## One block -/

def Fn.withJump (f : Fn) (b s : BlkId) : Fn :=
  ({ f with code := f.code.push (.of .bra [.blk s]) } : Fn).setCode b
    ((f.blk b).code ++ [f.code.size])

def Fn.withBlk (f : Fn) (name : String) (n : BlkId) : Fn :=
  ({ f with
    blks := f.blks.push { name }
    code := f.code.push (.of .bra [.blk n]) } : Fn).setCode f.blks.size [f.code.size]

section
variable {f g : Fn} {next : Option BlkId} {here : List BlkId}

lemma layOutBlk_leaves (h : f.Leaves b i) :
  (layOutBlk b next).run f = .ok (here, g) ↔ here = [b] ∧ g = f := by
  have hfalls : (f.ins i).op.fallsThrough = false := by
    rw [Op.fallsThrough_eq]
    rcases h.fam with hfam | ⟨hfam, -⟩ <;> rw [hfam] <;> rfl
  rw [layOutBlk, run_get_bind]
  simp only [h.last, Option.map_some, hfalls]
  rw [run_pure_ok]
  exact and_congr eq_comm eq_comm

/-- Unless control leaves it, the successors of a block decide. -/
lemma layOutBlk_run (h : ∀ i ∈ (f.blk b).code.getLast?, (f.ins i).op.fallsThrough) :
    (layOutBlk b next).run f = (match (f.blk b).succs with
        | [s] => do
          if next != some s then
            let j ← Pass.newIns .bra [.blk s]
            modify fun f => f.setCode b ((f.blk b).code ++ [j])
          return [b]
        | _ => layOutBranch b next : Pass (List BlkId)).run f := by
  rw [layOutBlk, run_get_bind]
  dsimp only
  split
  · rename_i hfalls
    obtain ⟨i, hi, hfalse⟩ := Option.map_eq_some_iff.1 hfalls
    rw [h i hi] at hfalse
    cases hfalse
  · rfl

lemma layOutBlk_runsOn {s : BlkId} (h : f.RunsOn b s) : (layOutBlk b next).run f = .ok (here, g) ↔
  here = [b] ∧ g = if next = some s then f else f.withJump b s := by
  have hfalls : ∀ i ∈ (f.blk b).code.getLast?, (f.ins i).op.fallsThrough := by
    intro i hi
    have hterm := h.inner i (mem_of_getLast? hi)
    rw [Op.isTerm_eq] at hterm
    rw [Op.fallsThrough_eq]
    simp only [Bool.or_eq_false_iff] at hterm
    simp [hterm]
  rw [layOutBlk_run hfalls, h.succs]
  by_cases hnext : next = some s
  · simp only [hnext, bne_self_eq_false, Bool.false_eq_true, if_false, run_pure_ok]
    exact and_congr eq_comm eq_comm
  · have hne : next != some s := by simpa using hnext
    simp only [hne, hnext, if_true, run_bind_ok, run_newIns_ok, run_modify_ok, run_pure_ok]
    constructor
    · rintro ⟨_, _, ⟨rfl, rfl⟩, _, _, rfl, rfl, rfl⟩
      exact ⟨rfl, rfl⟩
    · rintro ⟨rfl, rfl⟩
      exact ⟨_, _, ⟨rfl, rfl⟩, ⟨⟩, _, rfl, rfl, rfl⟩

lemma layOutBlk_forks (h : f.Forks b i op x y t n) :
  (layOutBlk b next).run f = .ok (here, g) ↔ ∃ m, next = some m ∧ (m = n ∧ here = [b] ∧ g = f ∨
      m = t ∧ t ≠ n ∧ here = [b] ∧ (flipBranch i n).run f = .ok ((), g) ∨
      m ≠ t ∧ m ≠ n ∧ ∃ name k, derivedName f (f.blk b).name "bra" = .ok name ∧
        forward n f.blks.size (f.withBlk name n) b = .ok k ∧
        here = [b, f.blks.size] ∧ g = k.addEdge f.blks.size n) := by
  have hfalls : ∀ j ∈ (f.blk b).code.getLast?, (f.ins j).op.fallsThrough := by
    intro j hj
    rw [h.last] at hj
    cases hj
    rw [Op.fallsThrough_eq, h.op, h.fam]
    rfl
  have harg : (f.ins i).arg 2 = .blk t := by simp [arg, h.args]
  have hoth : (if t = n then t else n) = n := by
    split
    · assumption
    · rfl
  rw [layOutBlk_run hfalls, h.succs, layOutBranch, run_get_bind]
  simp only [h.succs, h.last, h.op, h.fam, harg, hoth]
  rw [run_seq_ok]
  simp only [run_require_ok, beq_self_eq_true, true_and, exists_eq_left']
  cases next with
  | none => exact ⟨fun h => absurd h run_throw_ok, fun ⟨m, hm, _⟩ => by cases hm⟩
  | some m =>
    simp only [Option.some.injEq, exists_eq_left']
    by_cases hm : m = t ∨ m = n
    · rw [if_pos (by simpa using hm)]
      by_cases hflip : t = m ∧ t ≠ n
      · obtain ⟨rfl, hne⟩ := hflip
        rw [if_pos (by simpa using hne), run_seq_ok]
        simp only [run_pure_ok, hne, false_and, not_true, false_or, or_false, ne_eq, not_false_eq_true,
          true_and]
        constructor
        · rintro ⟨_, hrun, rfl, rfl⟩
          exact ⟨rfl, hrun⟩
        · rintro ⟨rfl, hrun⟩
          exact ⟨g, hrun, rfl, rfl⟩
      · obtain rfl : m = n := by
          rcases hm with rfl | rfl
          · by_contra hne
            exact hflip ⟨rfl, hne⟩
          · rfl
        rw [if_neg (by simp), run_pure_ok]
        have hno : ¬ (m = t ∧ t ≠ m) := fun h => h.2 h.1.symm
        constructor
        · rintro ⟨rfl, rfl⟩
          exact .inl ⟨rfl, rfl, rfl⟩
        · rintro (⟨-, rfl, rfl⟩ | ⟨hmt, hne, -⟩ | ⟨-, hne, -⟩)
          · exact ⟨rfl, rfl⟩
          · exact absurd ⟨hmt, hne⟩ hno
          · exact absurd rfl hne
    · rw [if_neg (by simpa using hm)]
      obtain ⟨hmt, hmn⟩ := not_or.1 hm
      simp only [hmt, hmn, false_and, false_or, ne_eq, not_false_eq_true, true_and, newBlk,
        run_bind_ok, run_attempt_ok, run_modifyGet_ok, run_newIns_ok, run_modify_ok, run_get_ok,
        run_set_ok, run_pure_ok, Prod.mk.injEq]
      constructor
      · rintro ⟨name, _, ⟨hname, rfl⟩, _, _, ⟨rfl, rfl⟩, _, _, ⟨rfl, rfl⟩, _, _, rfl, _, _,
          ⟨rfl, rfl⟩, k, _, ⟨hk, rfl⟩, _, _, rfl, rfl, rfl⟩
        exact ⟨name, k, hname, hk, rfl, rfl⟩
      · rintro ⟨name, k, hname, hk, rfl, rfl⟩
        exact ⟨name, _, ⟨hname, rfl⟩, _, _, ⟨rfl, rfl⟩, _, _, ⟨rfl, rfl⟩, ⟨⟩, _, rfl, _, _,
          ⟨rfl, rfl⟩, k, _, ⟨hk, rfl⟩, ⟨⟩, _, rfl, rfl, rfl⟩

end

/-! ## What changes -/

/-- Nothing has changed but the code and the edges of the blocks `bs` and the instructions `is`; of
other blocks only the incoming edges may have. There may be new blocks and instructions. -/
structure Framed (f g : Fn) (bs : List BlkId) (is : List InsId) : Prop where
  kind : g.kind = f.kind
  regs : g.regs = f.regs
  lits : g.lits = f.lits
  tables : g.tables = f.tables
  blks : f.blks.size ≤ g.blks.size
  sites : f.code.size ≤ g.code.size
  name : ∀ c : Nat, c < f.blks.size → (g.blk c).name = (f.blk c).name
  named : ∀ c : Nat, c < f.blks.size → (g.blk c).named = (f.blk c).named
  fresh : ∀ c : Nat, f.blks.size ≤ c → (g.blk c).named
  code : ∀ c : Nat, c < f.blks.size → c ∉ bs → (g.blk c).code = (f.blk c).code
  succs : ∀ c : Nat, c < f.blks.size → c ∉ bs → (g.blk c).succs = (f.blk c).succs
  ins : ∀ i : Nat, i < f.code.size → i ∉ is → g.ins i = f.ins i

namespace Framed
variable {f g k : Fn} {bs bs' : List BlkId} {is is' : List InsId}

lemma refl (f : Fn) (bs : List BlkId) (is : List InsId) : Framed f f bs is :=
  ⟨rfl, rfl, rfl, rfl, le_rfl, le_rfl, fun _ _ => rfl, fun _ _ => rfl,
    fun _ => named_of_size_le, fun _ _ _ => rfl, fun _ _ _ => rfl, fun _ _ _ => rfl⟩

lemma trans (h1 : Framed f g bs is) (h2 : Framed g k bs is) : Framed f k bs is := by
  have hblk : ∀ {c : Nat}, c < f.blks.size → c < g.blks.size := fun hc =>
    hc.trans_le h1.blks
  refine ⟨h2.kind.trans h1.kind, h2.regs.trans h1.regs, h2.lits.trans h1.lits, h2.tables.trans
    h1.tables, h1.blks.trans h2.blks, h1.sites.trans h2.sites, fun c hc => (h2.name c (hblk
    hc)).trans (h1.name c hc), fun c hc => (h2.named c (hblk hc)).trans (h1.named c hc), fun c hc =>
    ?_, fun c hc hbs => (h2.code c (hblk hc) hbs).trans (h1.code c hc hbs), fun c hc hbs =>
    (h2.succs c (hblk hc) hbs).trans (h1.succs c hc hbs), fun i hi his => (h2.ins i (hi.trans_le
    h1.sites) his).trans (h1.ins i hi his)⟩
  by_cases hg : c < g.blks.size
  · rw [h2.named c hg, h1.fresh c hc]
  · exact h2.fresh c (not_lt.1 hg)

lemma mono (h : Framed f g bs is) (hbs : ∀ b, b < f.blks.size → b ∈ bs → b ∈ bs')
  (his : ∀ i, i < f.code.size → i ∈ is → i ∈ is') : Framed f g bs' is' :=
  ⟨h.kind, h.regs, h.lits, h.tables, h.blks, h.sites, h.name, h.named, h.fresh,
    fun c hc hc' => h.code c hc (mt (hbs c hc) hc'),
    fun c hc hc' => h.succs c hc (mt (hbs c hc) hc'),
    fun i hi hi' => h.ins i hi (mt (his i hi) hi')⟩

lemma setIns (f : Fn) (z : Ins) (hi : i ∈ is) : Framed f (f.setIns i z) bs is :=
  ⟨rfl, rfl, rfl, rfl, le_rfl, (code_size_setIns i z).ge,
    fun _ _ => rfl, fun _ _ => rfl, fun _ hc => named_of_size_le hc, fun _ _ _ => rfl,
    fun _ _ _ => rfl, fun _ _ hj => ins_setIns_ne z fun hji => hj (hji ▸ hi)⟩

lemma edgesOnly (h : EdgesOnly f g)
  (hsuc : ∀ c, c < f.blks.size → c ∉ bs → (g.blk c).succs = (f.blk c).succs) :
  Framed f g bs is := by
  have hcode := h.sameCode
  refine ⟨by rw [h.rest], by rw [h.rest], by rw [h.rest], hcode.tables, h.size.ge,
    le_of_eq (by rw [hcode.code]), fun c _ => h.name_eq c, fun c _ => h.named_eq c,
    fun c hc => (h.named_eq c).trans (named_of_size_le hc), fun c _ _ => hcode.blk c, hsuc,
    fun i _ _ => hcode.ins_eq i⟩

lemma setCode (f : Fn) (js : List InsId) (hb : b ∈ bs) : Framed f (f.setCode b js) bs is := by
  refine ⟨rfl, rfl, rfl, rfl, (blks_size_setCode b js).ge, le_rfl, fun c _ => name_setCode b c js,
    fun c _ => named_setCode b c js, fun c hc => (named_setCode b c js).trans (named_of_size_le hc),
    fun c _ hcb => ?_, fun c _ _ => succs_setCode b c js, fun _ _ _ => rfl⟩
  rw [blk_setCode_ne js fun (hcb' : c = b) => hcb (hcb' ▸ hb)]

lemma withJump (f : Fn) (b s : BlkId) (is : List InsId) : Framed f (f.withJump b s) [b] is := by
  have hpush : Framed f { f with code := f.code.push (.of .bra [.blk s]) } [b] is :=
    ⟨rfl, rfl, rfl, rfl, le_rfl, by simp, fun _ _ => rfl, fun _ _ => rfl,
      fun _ hc => named_of_size_le hc, fun _ _ _ => rfl, fun _ _ _ => rfl,
      fun _ hi _ => ins_push_lt _ hi⟩
  exact hpush.trans (.setCode _ _ (.head _))

lemma withBlk (f : Fn) (name : String) (n : BlkId) (bs : List BlkId) (is : List InsId) :
  Framed f (f.withBlk name n) bs is := by
  have hblk : ∀ c, c < f.blks.size → (f.withBlk name n).blk c = f.blk c := by
    intro c hc
    rw [Fn.withBlk, Fn.blk_setCode_ne _ hc.ne]
    exact Fn.blk_push_lt _ hc
  refine ⟨rfl, rfl, rfl, rfl, by simp [Fn.withBlk],
    by simp [Fn.withBlk, Fn.setCode],
    fun c hc => by rw [hblk c hc], fun c hc => by rw [hblk c hc], fun c hc => ?_,
    fun c hc _ => by rw [hblk c hc], fun c hc _ => by rw [hblk c hc],
    fun i hi _ => Fn.ins_push_lt _ hi⟩
  rw [Fn.withBlk, Fn.named_setCode]
  rcases Nat.lt_or_eq_of_le hc with hlt | rfl
  · exact Fn.named_of_size_le (by rw [Array.size_push]; exact hlt)
  · exact congrArg Blk.named (Fn.blk_push_size _)

end Framed

/-! ## An extra block -/

lemma retarget_branch {f : Fn} (old new : BlkId) (hfam : op.fam = .condBra)
  (hop : (f.ins i).op = op) (hargs : (f.ins i).args = [x, y, .blk t]) :
  ∃ z, retarget i old new f = f.setIns i z ∧ z.op = op ∧
    z.args = [x, y, .blk (redir old new t)] := by
  unfold retarget
  simp only [hop, hfam, hargs]
  by_cases ht : t = old
  · rw [if_pos ht]
    exact ⟨_, rfl, hop, by simp [setArg, hargs, ht]⟩
  · rw [if_neg ht]
    exact ⟨f.ins i, (setIns_ins i).symm, hop, by rw [hargs, redir_of_ne ht]⟩

lemma withBlk_spec (f : Fn) (name : String) (n : BlkId) :
  (f.withBlk name n).blks.size = f.blks.size + 1 ∧
    (f.withBlk name n).ins f.code.size = .of .bra [.blk n] ∧
    ((f.withBlk name n).blk f.blks.size).code = [f.code.size] ∧
    ((f.withBlk name n).blk f.blks.size).name = name ∧
    (∀ c, ((f.withBlk name n).blk c).succs = (f.blk c).succs) ∧
    ∀ c, ((f.withBlk name n).blk c).preds = (f.blk c).preds := by
  refine ⟨by simp [withBlk], ?_, ?_, ?_, fun c => ?_, fun c => ?_⟩
  · exact ins_push_size _
  · rw [withBlk, code_setCode_self _ (by simp)]
  · rw [withBlk, name_setCode]
    exact congrArg Blk.name (blk_push_size _)
  · rw [withBlk, succs_setCode]
    exact blk_push_field (x := { name }) Blk.succs rfl c
  · rw [withBlk, preds_setCode]
    exact blk_push_field (x := { name }) Blk.preds rfl c

/-- The block `b` has the same code and leads to the same blocks. -/
structure SameBlk (f g : Fn) (b : BlkId) : Prop where
  code : (g.blk b).code = (f.blk b).code
  succs : (g.blk b).succs = (f.blk b).succs
  ins : ∀ i ∈ (f.blk b).code, g.ins i = f.ins i

/-- The block `b` has the same code but for its last instruction, which is now the given branch, and
its successors are `ss`. -/
structure Turned (f g : Fn) (b : BlkId) (i : InsId) (op : Op) (x y : Opnd) (t : BlkId)
    (ss : List BlkId) : Prop where
  code : (g.blk b).code = (f.blk b).code
  succs : (g.blk b).succs = ss
  ins : ∀ j ∈ (f.blk b).code.dropLast, g.ins j = f.ins j
  op : (g.ins i).op = op
  args : (g.ins i).args = [x, y, .blk t]

/-- The block `c` consists of a branch to `n`. -/
structure Fn.Relays (g : Fn) (c : BlkId) (j : InsId) (n : BlkId) : Prop where
  code : (g.blk c).code = [j]
  succs : (g.blk c).succs = [n]
  jump : g.ins j = .of .bra [.blk n]

/-- What has become of the block `b`, which was followed by `next`. -/
inductive Placed (f g : Fn) (b : BlkId) (next : Option BlkId) : List BlkId → Prop where
  | leaves {i : InsId} (h : f.Leaves b i) (same : SameBlk f g b) : Placed f g b next [b]
  | follows {s : BlkId} (h : f.RunsOn b s) (hnext : next = some s) (same : SameBlk f g b) :
      Placed f g b next [b]
  | jumps {s : BlkId} {j : Nat} (h : f.RunsOn b s) (hj : f.code.size ≤ j ∧ j < g.code.size)
      (code : (g.blk b).code = (f.blk b).code ++ [j]) (succs : (g.blk b).succs = [s])
      (ins : ∀ i ∈ (f.blk b).code, g.ins i = f.ins i) (jump : g.ins j = .of .bra [.blk s]) :
      Placed f g b next [b]
  | falls {i : InsId} {op : Op} {x y : Opnd} {t n : BlkId} (h : f.Forks b i op x y t n)
      (hnext : next = some n) (same : SameBlk f g b) : Placed f g b next [b]
  | flips {i : InsId} {op op' : Op} {x x' y y' : Opnd} {t n : BlkId}
      (h : f.Forks b i op x y t n) (hnext : next = some t) (opposite : Opposite op x y op' x' y')
      (turned : Turned f g b i op' x' y' n [t, n]) : Placed f g b next [b]
  | splits {i : InsId} {op : Op} {x y : Opnd} {t n : BlkId} {c j : Nat}
      (h : f.Forks b i op x y t n) (hc : f.blks.size ≤ c ∧ c < g.blks.size)
      (hj : f.code.size ≤ j ∧ j < g.code.size)
      (name : ∃ m : Nat, (g.blk c).name = (f.blk b).name ++ "bra" ++ decimal m)
      (turned : Turned f g b i op x y (redir n c t) [redir n c t, c])
      (relays : g.Relays c j n) : Placed f g b next [b, c]

structure Ready (f : Fn) (bs : List BlkId) : Prop where
  lt : ∀ b : Nat, b ∈ bs → b < f.blks.size
  inside : ∀ b ∈ bs, ∀ s : Nat, s ∈ (f.blk b).succs → s < f.blks.size
  sites : ∀ b ∈ bs, ∀ i : Nat, i ∈ (f.blk b).code → i < f.code.size
  nodup : bs.Nodup
  once : (bs.flatMap fun b => (f.blk b).code).Nodup
  ends : ∀ b ∈ bs, f.Ends b
  paired : Paired f

lemma notMem_dropLast {is : List InsId} (hnd : is.Nodup) (hlast : is.getLast? = some i) :
  i ∉ is.dropLast := by
  obtain ⟨js, rfl⟩ := getLast?_eq_some_iff.1 hlast
  rw [dropLast_concat]
  intro hi
  exact (nodup_append.1 hnd).2.2 i hi i (.head _) rfl

section
variable {f g : Fn} {b : Nat} {next : Option BlkId}

/-- With an extra block control can go on after a branch that is not taken. -/
lemma splits_spec {k : Fn} {name : String} (hf : Ready f [b]) (hfks : f.Forks b i op x y t n)
  (hname : ∃ m : Nat, name = (f.blk b).name ++ "bra" ++ decimal m)
  (h : forward n f.blks.size (f.withBlk name n) b = .ok k) :
  Placed f (k.addEdge f.blks.size n) b next [b, f.blks.size] ∧
    Framed f (k.addEdge f.blks.size n) [b] (f.blk b).code ∧
    Paired (k.addEdge f.blks.size n) ∧
    (k.addEdge f.blks.size n).blks.size = f.blks.size + 1 := by
  have hb : b < f.blks.size := hf.lt b (.head _)
  have hn : n < f.blks.size := hf.inside b (.head _) n (by simp [hfks.succs])
  have hi : i < f.code.size := hf.sites b (.head _) i (mem_of_getLast? hfks.last)
  have hfr := Framed.withBlk f name n [] []
  obtain ⟨hsize, hjump, hcode, hname', hsuc, hpreds⟩ := withBlk_spec f name n
  generalize f.withBlk name n = h0 at *
  -- First the branch, then the edges of the block, then the edge of the new block.
  have hins : h0.ins i = f.ins i := hfr.ins i hi (by simp)
  have hcode_b : (h0.blk b).code = (f.blk b).code := hfr.code b hb (by simp)
  obtain ⟨z, hz, hzop, hzargs⟩ := retarget_branch n f.blks.size hfks.fam
    (hins ▸ hfks.op) (hins ▸ hfks.args)
  have heds : (h0.setIns i z).redirEdges b n f.blks.size = .ok k := by
    rw [forward, hcode_b, hfks.last] at h
    rw [← hz]
    exact h
  have hpr : Paired (h0.setIns i z) := fun a c => by
    rw [blk_setIns, blk_setIns, hsuc, hpreds]
    exact hf.paired a c
  obtain ⟨hsame, hpr', hself, hoths⟩ := redirEdges_spec hn.ne'
    (hn.trans_le (by simp [hsize])) (by simp [hsize])
    (hb.trans_le (by simp [hsize])) hpr heds
  have hlt : f.blks.size < k.blks.size := by
    rw [hsame.size, blks_setIns, hsize]
    exact Nat.lt_succ_self _
  have hadd := edgesOnly_addEdge k f.blks.size n
  have hall := hsame.trans hadd
  have hsuc' := fun a => succs_addEdge n a hlt
  have hpr'' := hpr'.addEdge hlt (hn.trans hlt)
  generalize k.addEdge f.blks.size n = g at *
  have hcode' : ∀ a, (g.blk a).code = (h0.blk a).code := hall.sameCode.blk
  have hins' : ∀ j, j ≠ i → g.ins j = h0.ins j := fun j hj => by
    rw [hall.sameCode.ins_eq, ins_setIns_ne z hj]
  have hins_i : g.ins i = z := by
    rw [hall.sameCode.ins_eq, ins_setIns_self z (hi.trans_le hfr.sites)]
  have hgsize : g.blks.size = f.blks.size + 1 := by rw [hall.size, blks_setIns, hsize]
  have hgsites : f.code.size < g.code.size := by
    rw [hall.sameCode.code, code_size_setIns]
    by_contra hle
    rw [ins_eq_nop (not_lt.1 hle)] at hjump
    cases hjump
  have hnot : i ∉ (f.blk b).code.dropLast := notMem_dropLast (by simpa using hf.once) hfks.last
  refine ⟨.splits hfks ⟨le_rfl, by omega⟩ ⟨le_rfl, hgsites⟩ ?_ ?_ ?_, ?_, hpr'', hgsize⟩
  · obtain ⟨m, hm⟩ := hname
    exact ⟨m, by rw [hall.name_eq, blk_setIns, hname', hm]⟩
  · refine ⟨(hcode' b).trans hcode_b, ?_, fun j hj => ?_, hins_i ▸ hzop, hins_i ▸ hzargs⟩
    · rw [hsuc' b, if_neg hb.ne, hself, blk_setIns, hsuc, hfks.succs]
      simp
    · have hj' : j ∈ (f.blk b).code := (dropLast_sublist _).mem hj
      rw [hins' j fun hji => hnot (hji ▸ hj)]
      exact hfr.ins j (hf.sites b (.head _) j hj') (by simp)
  · refine ⟨by rw [hcode', hcode], ?_, by rw [hins' _ hi.ne', hjump]⟩
    rw [hsuc', if_pos rfl, hoths _ hb.ne', blk_setIns, hsuc, blk_eq_default le_rfl]
    rfl
  · have hall' : Framed (h0.setIns i z) g [b, f.blks.size] (f.blk b).code := by
      refine .edgesOnly hall fun a _ ha => ?_
      simp only [mem_cons, not_mem_nil, or_false, not_or] at ha
      rw [hsuc', if_neg ha.2, append_nil, hoths a ha.1]
    have hset : Framed h0 (h0.setIns i z) [b, f.blks.size] (f.blk b).code :=
      .setIns h0 z (mem_of_getLast? hfks.last)
    refine (((hfr.mono ?_ ?_).trans hset).trans hall').mono (fun a ha hmem => ?_) fun _ _ h => h
    · simp
    · simp
    · rcases mem_cons.1 hmem with rfl | hmem
      · exact .head _
      · exact absurd (mem_singleton.1 hmem) ha.ne

/-- There is always a way to go on if there is a name for the extra block. -/
lemma splits_ok (name : String) (hf : Ready f [b]) (hfks : f.Forks b i op x y t n) :
  ∃ k, forward n f.blks.size (f.withBlk name n) b = .ok k := by
  have hn : n < f.blks.size := hf.inside b (.head _) n (by simp [hfks.succs])
  obtain ⟨hsize, -, -, -, hsuc, hpreds⟩ := withBlk_spec f name n
  generalize f.withBlk name n = h0 at *
  have hok : ∀ h1 : Fn, h1.blks = h0.blks → ∃ k, h1.redirEdges b n f.blks.size = .ok k := by
    intro h1 hbks
    refine redirEdges_ok hn.ne' ?_ ?_ fun a c => ?_
    · rw [hbks, hsize]
      exact Nat.lt_succ_of_lt hn
    · rw [hbks, hsize]
      exact Nat.lt_succ_self _
    · have hblk : ∀ d, h1.blk d = h0.blk d := fun d => by rw [blk, blk, hbks]
      rw [hblk, hblk, hsuc, hpreds]
      exact hf.paired a c
  unfold forward
  cases (h0.blk b).code.getLast? with
  | none => exact hok h0 rfl
  | some j => exact hok _ (retarget_blks j n f.blks.size h0)

lemma layOutBlk_spec {here : List BlkId}
  (hf : Ready f [b]) (h : (layOutBlk b next).run f = .ok (here, g)) : Placed f g b next here ∧
  Framed f g [b] (f.blk b).code ∧ Paired g ∧ g.blks.size + 1 = f.blks.size + here.length := by
  have hb : b < f.blks.size := hf.lt b (.head _)
  have hsame : SameBlk f f b := ⟨rfl, rfl, fun _ _ => rfl⟩
  rcases hf.ends b (.head _) with ⟨i, hlvs⟩ | ⟨s, hruns⟩ | ⟨i, op, x, y, t, n, hfks⟩
  · obtain ⟨rfl, rfl⟩ := (layOutBlk_leaves hlvs).1 h
    exact ⟨.leaves hlvs hsame, .refl _ _ _, hf.paired, rfl⟩
  · obtain ⟨rfl, rfl⟩ := (layOutBlk_runsOn hruns).1 h
    split
    · rename_i hnext
      exact ⟨.follows hruns hnext hsame, .refl _ _ _, hf.paired, rfl⟩
    · refine ⟨.jumps hruns ⟨le_rfl, by simp [withJump, setCode]⟩
        (code_setCode_self _ hb) ?_ (fun i hi => ?_) (ins_push_size _), .withJump f b s _,
        fun a c => ?_, by simp [withJump]⟩
      · exact (succs_setCode b b _).trans hruns.succs
      · exact ins_push_lt _ (hf.sites b (.head _) i hi)
      · rw [withJump, preds_setCode, succs_setCode]
        exact hf.paired a c
  · obtain ⟨m, rfl, ⟨rfl, rfl, rfl⟩ | ⟨rfl, hne, rfl, hflip⟩ |
      ⟨hmt, hmn, name, k, hname, hk, rfl, rfl⟩⟩ := (layOutBlk_forks hfks).1 h
    · exact ⟨.falls hfks rfl hsame, .refl _ _ _, hf.paired, rfl⟩
    · have hi : i < f.code.size := hf.sites b (.head _) i (mem_of_getLast? hfks.last)
      have hnot : i ∉ (f.blk b).code.dropLast :=
        notMem_dropLast (by simpa using hf.once) hfks.last
      obtain ⟨z, op', x', y', hrun, hopp, hop, hargs⟩ := flipBranch_ok hfks.fam hfks.op hfks.args
      obtain rfl : f.setIns i z = g := by
        rw [hrun] at hflip
        exact (Prod.mk.inj (Except.ok.inj hflip)).2
      have hself := ins_setIns_self z hi
      refine ⟨.flips hfks rfl hopp ⟨rfl, hfks.succs, fun j hj => ?_,
        by rw [hself, hop], by rw [hself, hargs]⟩, .setIns f z (mem_of_getLast? hfks.last),
          hf.paired, rfl⟩
      exact ins_setIns_ne z fun hji => hnot (hji ▸ hj)
    · obtain ⟨-, m, hm⟩ := freshName_spec hname
      obtain ⟨hpl, hfr, hpr, hsize⟩ := splits_spec hf hfks ⟨m, hm⟩ hk
      exact ⟨hpl, hfr, hpr, by rw [hsize]; rfl⟩

/-- What is needed to lay out a block: if it ends in a branch, there must be a next block, and a name
for an extra block unless control can run on into the next one. -/
def Fn.CanPlace (f : Fn) (b : BlkId) (next : Option BlkId) : Prop :=
  ∀ i op x y t n, f.Forks b i op x y t n →
    ∃ m, next = some m ∧ (m ≠ t → m ≠ n → f.CanDerive (f.blk b).name "bra")

lemma layOutBlk_ok_iff (hf : Ready f [b]) :
  (∃ r, (layOutBlk b next).run f = .ok r) ↔ f.CanPlace b next := by
  constructor
  · rintro ⟨⟨here, g⟩, hrun⟩ i op x y t n hfks
    obtain ⟨m, rfl, hcases⟩ := (layOutBlk_forks hfks).1 hrun
    refine ⟨m, rfl, fun hmt hmn => ?_⟩
    rcases hcases with ⟨h, -⟩ | ⟨h, -⟩ | ⟨-, -, name, -, hname, -⟩
    · exact absurd h hmn
    · exact absurd h hmt
    · exact derivedName_ok_iff.1 ⟨name, hname⟩
  · intro hcan
    rcases hf.ends b (.head _) with ⟨i, hlvs⟩ | ⟨s, hruns⟩ | ⟨i, op, x, y, t, n, hfks⟩
    · exact ⟨_, (layOutBlk_leaves hlvs).2 ⟨rfl, rfl⟩⟩
    · exact ⟨_, (layOutBlk_runsOn hruns).2 ⟨rfl, rfl⟩⟩
    · obtain ⟨m, rfl, hname⟩ := hcan i op x y t n hfks
      by_cases hmn : m = n
      · exact ⟨_, (layOutBlk_forks hfks).2 ⟨m, rfl, .inl ⟨hmn, rfl, rfl⟩⟩⟩
      · by_cases hmt : m = t
        · obtain ⟨z, -, -, -, hrun, -⟩ := flipBranch_ok hfks.fam hfks.op hfks.args
          exact ⟨_, (layOutBlk_forks hfks).2
            ⟨m, rfl, .inr (.inl ⟨hmt, fun h => hmn (hmt.trans h), rfl, hrun⟩)⟩⟩
        · obtain ⟨name, hname⟩ := derivedName_ok_iff.2 (hname hmt hmn)
          obtain ⟨k, hk⟩ := splits_ok name hf hfks
          exact ⟨_, (layOutBlk_forks hfks).2
            ⟨m, rfl, .inr (.inr ⟨hmt, hmn, name, k, hname, hk, rfl, rfl⟩)⟩⟩

end
end Retarget.IR
