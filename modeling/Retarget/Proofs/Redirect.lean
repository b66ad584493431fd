import Retarget.Proofs.Edges

/-!
# Redirecting jumps and edges

Whatever goes to one block can be sent to another: the branch or the jump table that ends a
predecessor, and the edges. `Redirected` says that jumps changed in no other way, `Aimed` that a
jump changed, and `Forwarded` what has happened once all predecessors have been told.
-/

namespace Retarget.IR
open Pass Trace List Fn
variable {b : BlkId} {f g : Fn} {i : InsId} {bs : List BlkId} {code is : List InsId} {u : PUnit}

/-! ## Dropping branches -/

def noJump (f : Fn) (code : List InsId) : List InsId :=
  match code.getLast? with
  | some i => if (f.ins i).op.fam = .bra then code.dropLast else code
  | none => code

/-- What dropping the branches at the ends of the blocks `bs` does. -/
structure Dropped (f g : Fn) (bs : List BlkId) : Prop where
  size : g.blks.size = f.blks.size
  code : g.code = f.code
  tables : g.tables = f.tables
  order : g.order = f.order
  succs : ∀ b, (g.blk b).succs = (f.blk b).succs
  preds : ∀ b, (g.blk b).preds = (f.blk b).preds
  name : ∀ b, (g.blk b).name = (f.blk b).name
  named : ∀ b, (g.blk b).named = (f.blk b).named
  here : ∀ b ∈ bs, (g.blk b).code = noJump f (f.blk b).code
  elsewhere : ∀ b, b ∉ bs → (g.blk b).code = (f.blk b).code

def dropBranch (b : BlkId) (f : Fn) : Fn :=
  let code := (f.blk b).code
  match code.getLast? with
  | some i => if (f.ins i).op.fam = .bra then f.setCode b code.dropLast else f
  | none => f

lemma dropBranch_dropped {b : Nat} (hb : b < f.blks.size) : Dropped f (dropBranch b f) [b] := by
  have hkeep : noJump f (f.blk b).code = (f.blk b).code → Dropped f f [b] := by
    intro hcode
    refine ⟨rfl, rfl, rfl, rfl, fun _ => rfl, fun _ => rfl, fun _ => rfl, fun _ => rfl,
      fun c hc => ?_, fun _ _ => rfl⟩
    rw [mem_singleton.1 hc, hcode]
  cases hlast : (f.blk b).code.getLast? with
  | none =>
    simp only [dropBranch, hlast]
    exact hkeep (by simp only [noJump, hlast])
  | some i =>
    by_cases hbra : (f.ins i).op.fam = .bra
    · simp only [dropBranch, hlast, if_pos hbra]
      refine ⟨by simp, rfl, rfl, rfl, fun c => succs_setCode b c _,
        fun c => preds_setCode b c _, fun c => name_setCode b c _,
        fun c => named_setCode b c _, fun c hc => ?_, fun c hc => ?_⟩
      · rw [mem_singleton.1 hc, code_setCode_self _ hb]
        simp only [noJump, hlast, if_pos hbra]
      · rw [blk_setCode_ne _ (by simpa using hc)]
    · simp only [dropBranch, hlast, if_neg hbra]
      exact hkeep (by simp only [noJump, hlast, if_neg hbra])

lemma Dropped.cons {k : Fn} (hb : b ∉ bs) (h1 : Dropped f g [b]) (h2 : Dropped g k bs) :
  Dropped f k (b :: bs) := by
  have hins : ∀ i, g.ins i = f.ins i := fun i => by rw [ins, ins, h1.code]
  have hwithout : ∀ code, noJump g code = noJump f code := fun code => by
    simp only [noJump, hins]
  refine ⟨h2.size.trans h1.size, h2.code.trans h1.code, h2.tables.trans h1.tables,
    h2.order.trans h1.order, fun c => (h2.succs c).trans (h1.succs c),
    fun c => (h2.preds c).trans (h1.preds c), fun c => (h2.name c).trans (h1.name c),
    fun c => (h2.named c).trans (h1.named c), fun c hc => ?_, fun c hc => ?_⟩
  · rcases mem_cons.1 hc with rfl | hc
    · rw [h2.elsewhere c hb, h1.here c (.head _)]
    · have hcb : c ≠ b := fun h => hb (h ▸ hc)
      rw [h2.here c hc, hwithout, h1.elsewhere c (by simpa using hcb)]
  · rw [mem_cons, not_or] at hc
    rw [h2.elsewhere c hc.2, h1.elsewhere c (by simpa using hc.1)]

lemma forM_dropBranch (hlt : ∀ b : Nat, b ∈ bs → b < f.blks.size) (hnd : bs.Nodup)
  (h : (bs.forM fun b => (modify (dropBranch b) : Pass PUnit)).run f = .ok (u, g)) :
  Dropped f g bs := by
  induction bs generalizing f with
  | nil =>
    obtain rfl := run_forM_nil.1 h
    exact ⟨rfl, rfl, rfl, rfl, fun _ => rfl, fun _ => rfl, fun _ => rfl, fun _ => rfl, by simp,
      fun _ _ => rfl⟩
  | cons b bs ih =>
    obtain ⟨k, hk, hrest⟩ := run_forM_cons.1 h
    rw [run_modify_ok] at hk
    obtain ⟨hb, hnd⟩ := nodup_cons.1 hnd
    have hfst := dropBranch_dropped (hlt b (.head _))
    rw [hk] at hfst
    exact hfst.cons hb (ih (fun c hc => hfst.size ▸ hlt c (.tail _ hc)) hnd hrest)

lemma dropBranches_dropped (hlt : ∀ b : Nat, b ∈ f.order → b < f.blks.size)
  (hnd : f.order.Nodup) (h : dropBranches.run f = .ok (u, g)) : Dropped f g f.order := by
  simp only [dropBranches, run_bind_ok, run_modify_ok] at h
  obtain ⟨_, _, ⟨rfl, rfl⟩, ⟨⟩, k, hloop, rfl⟩ := h
  have := forM_dropBranch hlt hnd hloop
  exact ⟨this.size, this.code, this.tables, this.order, this.succs, this.preds, this.name,
    this.named, this.here, this.elsewhere⟩

/-! ## Code without a final branch -/

lemma noJump_eq_or (f : Fn) (code : List InsId) :
  noJump f code = code ∨ noJump f code = code.dropLast := by
  unfold noJump
  split
  · split
    · exact .inr rfl
    · exact .inl rfl
  · exact .inl rfl

lemma noJump_sublist (f : Fn) (code : List InsId) : (noJump f code).Sublist code := by
  rcases noJump_eq_or f code with h | h
  · exact h.symm ▸ List.Sublist.refl code
  · exact h.symm ▸ dropLast_sublist code

lemma noJump_eq_self (h : ∀ i, code.getLast? = some i → (f.ins i).op.fam ≠ .bra) :
  noJump f code = code := by
  unfold noJump
  split
  · rename_i i hi
    rw [if_neg (h i hi)]
  · rfl

lemma noJump_eq_dropLast (hi : code.getLast? = some i) (hbra : (f.ins i).op.fam = .bra) :
  noJump f code = code.dropLast := by
  simp only [noJump, hi, if_pos hbra]

lemma noJump_cons (h : is = [] → (f.ins i).op.fam ≠ .bra) :
  noJump f (i :: is) = i :: noJump f is := by
  cases is with
  | nil => exact noJump_eq_self fun j hj => by cases hj; exact h rfl
  | cons k ks =>
    unfold noJump
    rw [getLast?_cons_cons]
    split
    · split <;> rfl
    · rfl

def NoJumps (f : Fn) (live : List BlkId) : Prop :=
  ∀ b ∈ live, ∀ i ∈ (f.blk b).code, (f.ins i).op.fam ≠ .bra

namespace Dropped
section
variable (h : Dropped f g bs)
include h

lemma ins_eq (i : InsId) : g.ins i = f.ins i := by rw [ins, ins, h.code]
lemma table_eq (t : TableId) : g.table t = f.table t := by rw [table, table, h.tables]

lemma jumpTgts_eq (code : List InsId) :
  jumpTgts g code = jumpTgts f code := jumpTgts_congr h.code h.tables rfl

lemma noJumps (hf : Linked f bs) : NoJumps g bs := by
  intro b hb i hi hbra
  rw [h.ins_eq] at hbra
  have hdrop : i ∉ (f.blk b).code.dropLast := by
    intro hmem
    have := hf.ends b hb i hmem
    rw [Op.isTerm_eq, hbra] at this
    simp at this
  rw [h.here b hb] at hi
  cases hlast : (f.blk b).code.getLast? with
  | none =>
    rw [getLast?_eq_none_iff] at hlast
    simp [hlast, noJump] at hi
  | some j =>
    by_cases hj : (f.ins j).op.fam = .bra
    · rw [noJump_eq_dropLast hlast hj] at hi
      exact hdrop hi
    · rw [noJump_eq_self fun k hk => by rw [hlast] at hk; cases hk; exact hj] at hi
      obtain ⟨ks, hks⟩ := getLast?_eq_some_iff.1 hlast
      rw [hks, mem_append, mem_singleton] at hi
      rcases hi with hi | rfl
      · exact hdrop (by rw [hks, dropLast_concat]; exact hi)
      · exact hj hbra

/-- The edge that a dropped branch stood for is now the edge that control runs on along. -/
lemma linked (hf : Linked f bs) (hshp : Shaped f bs) : Linked g bs := by
  refine ⟨fun b hb => h.size ▸ hf.lt b hb, ?_, ?_, ?_, ?_, ?_, ?_⟩
  · intro b hb i hi
    rw [h.here b hb] at hi
    rw [h.ins_eq]
    refine hf.ends b hb i ?_
    rcases noJump_eq_or f (f.blk b).code with hcode | hcode
    · rwa [hcode] at hi
    · rw [hcode] at hi
      exact (dropLast_sublist _).mem hi
  · intro b hb
    obtain ⟨ns, hns, hlen⟩ := hf.succs b hb
    rw [h.succs, h.jumpTgts_eq, h.here b hb]
    by_cases hjump : ∃ i, (f.blk b).code.getLast? = some i ∧ (f.ins i).op.fam = .bra
    · obtain ⟨i, hi, hbra⟩ := hjump
      obtain ⟨t, hcon⟩ := Ins.jump_of_bra
        (hshp b hb i (mem_of_getLast? hi) (Op.isTerm_of_bra hbra)) hbra
      rw [IR.jumpTgts_eq, hi, Option.map_some, hcon] at hns hlen
      -- What is left does not end in a terminator.
      have hthrough : jumpTgts f (noJump f (f.blk b).code) = ([], true) := by
        rw [noJump_eq_dropLast hi hbra, IR.jumpTgts_eq]
        cases hlast : (f.blk b).code.dropLast.getLast? with
        | none => rfl
        | some j =>
          have hnext : (f.ins j).ctrl = .next :=
            Ins.ctl_eq_next (hf.ends b hb j (mem_of_getLast? hlast))
          rw [Option.map_some, hnext]
      rw [hthrough, hns]
      refine ⟨[t] ++ ns, rfl, ?_⟩
      simp [hlen]
    · rw [noJump_eq_self fun i hi hbra => hjump ⟨i, hi, hbra⟩]
      exact ⟨ns, hns, hlen⟩
  · intro b hb s hs
    rw [h.succs] at hs
    exact hf.inside b hb s hs
  · intro b hb
    rw [h.succs]
    exact hf.outside b hb
  · intro a b
    rw [h.preds, h.succs]
    exact hf.paired a b
  · intro b hb i hi x t ht
    rw [h.here b hb] at hi
    rw [h.ins_eq] at ht
    rw [h.tables]
    exact hf.tables b hb i ((noJump_sublist f _).mem hi) x t ht

end

/-! ## The graph reading -/

/-- The spots of the two readings differ by the branch that has been dropped. -/
inductive Trims (f : Fn) (bs : List BlkId) : Fn.Spot → Fn.Spot → Prop
  | intro {b : BlkId} {c : List InsId} (hb : b ∈ bs) (hc : c <:+ (f.blk b).code) :
      Trims f bs ⟨b, c⟩ ⟨b, noJump f c⟩

lemma trims_enter (h : Dropped f g bs) (hb : b ∈ bs) : Trims f bs (f.enter b) (g.enter b) := by
  rw [enter, enter, h.here b hb]
  exact .intro hb (suffix_refl _)

section
variable (h : Dropped f g bs) (hf : Linked f bs)
include h hf

lemma rel_along (hb : b ∈ bs) (s : BlkId) :
  Option.Rel (Trims f bs) (f.along b s) (g.along b s) := by
  rw [along, along, h.succs]
  split
  · rename_i hs
    exact .some (h.trims_enter (hf.inside b hb s hs))
  · exact .none

lemma agree_nil (hb : b ∈ bs) : (f.graphStep ⟨b, []⟩).Agree (Trims f bs) (g.graphStep ⟨b, []⟩) := by
  simp only [graphStep, h.succs]
  refine .silent ?_
  cases hs : (f.blk b).succs with
  | nil => exact .none
  | cons s ss => exact .some (h.trims_enter (hf.inside b hb s (hs ▸ mem_cons_self)))

lemma agree_cons (hb : b ∈ bs) (hc : i :: is <:+ (f.blk b).code)
  (hjump : ∀ t, (f.ins i).ctrl ≠ .jump t) :
  (f.graphStep ⟨b, i :: is⟩).Agree (Trims f bs) (g.graphStep ⟨b, i :: noJump f is⟩) := by
  have hevent : g.event i = f.event i := by rw [event, event, h.ins_eq]
  have hoth : ∀ t, g.otherSucc b t = f.otherSucc b t := fun t => by
    simp only [otherSucc, h.succs]
  simp only [graphStep, h.ins_eq, hevent, h.table_eq, hoth]
  cases hcon : (f.ins i).ctrl with
  | next => exact .emit fun _ => .some (.intro hb ((suffix_cons i is).trans hc))
  | stop => exact .emit fun _ => .none
  | jump t => exact absurd hcon (hjump t)
  | branch | select => exact .emit fun o => h.rel_along hf hb _

lemma sameTraces (hshp : Shaped f bs) (hb : b ∈ bs) :
  SameTraces f.graphStep (some (f.enter b)) g.graphStep (some (g.enter b)) := by
  -- The dropped branch is passed by a move of its own, which goes unseen.
  have hanswer : ∀ {b : BlkId} {c : List InsId}, b ∈ bs → c <:+ (f.blk b).code →
      Answered f.graphStep g.graphStep (Trims f bs) ⟨b, c⟩ ⟨b, noJump f c⟩ ∧
        Answered g.graphStep f.graphStep (fun y x => Trims f bs x y) ⟨b, noJump f c⟩ ⟨b, c⟩ := by
    intro b c hb hc
    cases c with
    | nil =>
      have hagree := h.agree_nil hf hb
      exact ⟨.of_agree hagree, .of_agree hagree.flip⟩
    | cons i is =>
      by_cases hjump : ∃ t, (f.ins i).ctrl = .jump t
      · obtain ⟨t, ht⟩ := hjump
        have hgo : f.graphStep ⟨b, i :: is⟩ = .silent (some ⟨b, is⟩) := by simp only [graphStep, ht]
        rcases last_or_next (hf.ends b hb) hc with ⟨rfl, -⟩ | ⟨-, hnext⟩
        · have hnil : noJump f [i] = [] :=
            noJump_eq_dropLast rfl (Ins.fam_of_jump ht).1
          rw [hnil]
          exact ⟨.of_silent hgo (.intro hb (nil_suffix)),
            .of_quiet (.single hgo) (.of_agree (h.agree_nil hf hb).flip)⟩
        · rw [hnext] at ht
          cases ht
      · have hbra : is = [] → (f.ins i).op.fam ≠ .bra := by
          intro _ hbra
          exact hjump (Ins.jump_of_bra (hshp b hb i (hc.mem (.head _))
            (Op.isTerm_of_bra hbra)) hbra)
        rw [noJump_cons hbra]
        have hagree := h.agree_cons hf hb hc (not_exists.1 hjump)
        exact ⟨.of_agree hagree, .of_agree hagree.flip⟩
  constructor
  · refine (Simulation.of_answered fun x y hxy => ?_).refines (h.trims_enter hb)
    obtain ⟨hb, hc⟩ := hxy
    exact (hanswer hb hc).1
  · refine (Simulation.of_answered (R := fun y x => Trims f bs x y) fun y x hxy => ?_).refines
      (h.trims_enter hb)
    obtain ⟨hb, hc⟩ := hxy
    exact (hanswer hb hc).2

end
end Dropped

open JumpTable
variable {old new : BlkId} {k : Fn} {y : Ins} {as : List BlkId} {a : Nat}

/-! ## Jumps -/

def redir (old new b : BlkId) : BlkId := if b = old then new else b

def Ctrl.redir (old new : BlkId) : Ctrl → Ctrl
  | .jump t => .jump (IR.redir old new t)
  | .branch op a b t => .branch op a b (IR.redir old new t)
  | c => c

def JumpTable.redir (old new : BlkId) (t : JumpTable) : JumpTable :=
  { t with
    fallback := IR.redir old new t.fallback
    cases := t.cases.map fun (n, b) => (n, IR.redir old new b) }

@[simp] lemma redir_old : redir old new old = new := if_pos rfl
lemma redir_of_ne (h : b ≠ old) : redir old new b = b := if_neg h

lemma redir_redir (hne : new ≠ old) (b : BlkId) :
  redir old new (redir old new b) = redir old new b := by
  by_cases hb : b = old
  · rw [hb, redir_old, redir_of_ne hne]
  · rw [redir_of_ne hb, redir_of_ne hb]

lemma map_redir_of_notMem (h : old ∉ bs) : bs.map (redir old new) = bs := by
  have hsame : ∀ b ∈ bs, redir old new b = id b := fun b hb =>
    redir_of_ne fun hbo => h (hbo ▸ hb)
  rw [map_congr_left hsame, map_id]

lemma Ctrl.redir_redir (hne : new ≠ old) (c : Ctrl) :
  (c.redir old new).redir old new = c.redir old new := by
  cases c <;> simp [Ctrl.redir, IR.redir_redir hne]

lemma JumpTable.redir_redir (hne : new ≠ old) (t : JumpTable) :
  (t.redir old new).redir old new = t.redir old new := by
  simp [redir, IR.redir_redir hne]

lemma JumpTable.tgts_redir (t : JumpTable) :
  (t.redir old new).tgts = t.tgts.map (IR.redir old new) := by
  simp [tgts, redir]

lemma JumpTable.tgt_redir (t : JumpTable) (n : Int) :
  (t.redir old new).tgt n = IR.redir old new (t.tgt n) := by
  have hlookup : ∀ cases : List (Int × BlkId),
      (cases.map fun (m, b) => (m, IR.redir old new b)).lookup n =
        (cases.lookup n).map (IR.redir old new) := by
    intro cases
    induction cases with
    | nil => rfl
    | cons c cases ih =>
      obtain ⟨m, b⟩ := c
      simp only [map_cons, lookup_cons, ih]
      split <;> rfl
  simp only [tgt, redir, hlookup]
  cases t.cases.lookup n <;> rfl

lemma JumpTable.redir_of_notMem {t : JumpTable} (h : old ∉ t.tgts) :
  (t.redir old new).tgts = t.tgts ∧ ∀ n, (t.redir old new).tgt n = t.tgt n := by
  refine ⟨by rw [tgts_redir, map_redir_of_notMem h], fun n => ?_⟩
  have hne : t.tgt n ≠ old := fun hold => h (hold ▸ t.tgt_mem n)
  rw [tgt_redir, redir_of_ne hne]

/-- The jumps of `g` are those of `f`, some of them redirected. -/
structure Redirected (old new : BlkId) (f g : Fn) : Prop where
  blks : g.blks.size = f.blks.size
  sites : g.code.size = f.code.size
  tables : g.tables.size = f.tables.size
  order : g.order = f.order
  code : ∀ b, (g.blk b).code = (f.blk b).code
  op : ∀ i, (g.ins i).op = (f.ins i).op
  event : ∀ i, g.event i = f.event i
  ctrl : ∀ i, (g.ins i).ctrl = (f.ins i).ctrl ∨
    (g.ins i).ctrl = (f.ins i).ctrl.redir old new
  table : ∀ t, g.table t = f.table t ∨ g.table t = (f.table t).redir old new

/-- The jump of an instruction has been redirected, in its jump table if it has one. -/
def Aimed (old new : BlkId) (f g : Fn) (i : InsId) : Prop :=
  (g.ins i).ctrl = (f.ins i).ctrl.redir old new ∧
    ∀ x t, (f.ins i).ctrl = .select x t → g.table t = (f.table t).redir old new

lemma Redirected.refl (f : Fn) : Redirected old new f f :=
  ⟨rfl, rfl, rfl, rfl, fun _ => rfl, fun _ => rfl, fun _ => rfl, fun _ => .inl rfl,
    fun _ => .inl rfl⟩

lemma Redirected.trans (hne : new ≠ old) (h1 : Redirected old new f g)
  (h2 : Redirected old new g k) : Redirected old new f k := by
  refine ⟨h2.blks.trans h1.blks, h2.sites.trans h1.sites, h2.tables.trans h1.tables,
    h2.order.trans h1.order, fun b => (h2.code b).trans (h1.code b), fun i => (h2.op i).trans (h1.op i),
    fun i => (h2.event i).trans (h1.event i), fun i => ?_, fun t => ?_⟩
  · rcases h2.ctrl i with h | h <;> rcases h1.ctrl i with h' | h'
    · exact .inl (h.trans h')
    · exact .inr (h.trans h')
    · exact .inr (by rw [h, h'])
    · exact .inr (by rw [h, h', Ctrl.redir_redir hne])
  · rcases h2.table t with h | h <;> rcases h1.table t with h' | h'
    · exact .inl (h.trans h')
    · exact .inr (h.trans h')
    · exact .inr (by rw [h, h'])
    · exact .inr (by rw [h, h', JumpTable.redir_redir hne])

lemma Redirected.next (h : Redirected old new f g) (hi : (g.ins i).ctrl = .next) :
  (f.ins i).ctrl = .next := by
  rcases h.ctrl i with hc | hc
  · rw [← hc, hi]
  · rw [hi] at hc
    cases hcon : (f.ins i).ctrl <;> rw [hcon] at hc <;> cases hc

lemma Aimed.trans (hne : new ≠ old) (h1 : Aimed old new f g i) (h2 : Redirected old new g k) :
  Aimed old new f k i := by
  refine ⟨?_, fun x t ht => ?_⟩
  · rcases h2.ctrl i with h | h
    · rw [h, h1.1]
    · rw [h, h1.1, Ctrl.redir_redir hne]
  · rcases h2.table t with h | h
    · rw [h, h1.2 x t ht]
    · rw [h, h1.2 x t ht, JumpTable.redir_redir hne]

lemma Aimed.of_trans (hne : new ≠ old) (h1 : Redirected old new f g) (h2 : Aimed old new g k i) :
  Aimed old new f k i := by
  refine ⟨?_, fun x t ht => ?_⟩
  · rcases h1.ctrl i with h | h
    · rw [h2.1, h]
    · rw [h2.1, h, Ctrl.redir_redir hne]
  · have hg : (g.ins i).ctrl = .select x t := by
      rcases h1.ctrl i with h | h
      · rw [h, ht]
      · rw [h, ht]
        rfl
    rcases h1.table t with h | h
    · rw [h2.2 x t hg, h]
    · rw [h2.2 x t hg, h, JumpTable.redir_redir hne]

/-! ## One instruction -/

lemma redirected_setIns (hop : y.op = (f.ins i).op)
  (hargs : (y.args.filter fun x => !x.isBlk) = (f.ins i).args.filter fun x => !x.isBlk)
  (hcon : y.ctrl = (f.ins i).ctrl.redir old new) : Redirected old new f (f.setIns i y) := by
  by_cases hi : i < f.code.size
  · have hself := ins_setIns_self y hi
    refine ⟨rfl, by simp, rfl, rfl, fun _ => rfl, fun j => ?_, fun j => ?_, fun j => ?_,
      fun _ => .inl rfl⟩
    all_goals
      by_cases hj : j = i
      · subst hj
        simp only [event, hself, hop, hargs, hcon, or_true]
      · simp only [event, ins_setIns_ne y hj, true_or]
  · rw [setIns_of_size_le y (not_lt.1 hi)]
    exact .refl f

lemma aimed_setIns (hi : i < f.code.size) (hcon : y.ctrl = (f.ins i).ctrl.redir old new)
  (hselect : ∀ x t, (f.ins i).ctrl ≠ .select x t) : Aimed old new f (f.setIns i y) i :=
  ⟨by rw [ins_setIns_self y hi, hcon], fun x t ht => absurd ht (hselect x t)⟩

lemma redirected_modifyTable (t : TableId) :
  Redirected old new f (f.modifyTable t (JumpTable.redir old new)) := by
  refine ⟨rfl, rfl, by simp [modifyTable], rfl, fun _ => rfl, fun _ => rfl, fun _ => rfl,
    fun _ => .inl rfl, fun u => ?_⟩
  by_cases hu : u = t
  · subst hu
    by_cases hlt : u < f.tables.size
    · exact .inr (table_modifyTable_self _ hlt)
    · rw [modifyTable_of_size_le _ (not_lt.1 hlt)]
      exact .inl rfl
  · exact .inl (table_modifyTable_ne _ hu)

lemma lt_of_term (h : (f.ins i).op.fam ≠ Ins.nop.op.fam) : i < f.code.size := by
  by_contra hlt
  rw [ins_eq_nop (not_lt.1 hlt)] at h
  exact h rfl

lemma retarget_spec (htbl : ∀ x t, (f.ins i).ctrl = .select x t → t < f.tables.size) :
  Redirected old new f (retarget i old new f) ∧ Aimed old new f (retarget i old new f) i := by
  have hkeep : (f.ins i).ctrl.redir old new = (f.ins i).ctrl →
      (∀ x t, (f.ins i).ctrl ≠ .select x t) →
      Redirected old new f f ∧ Aimed old new f f i := fun hsame hselect =>
    ⟨.refl f, hsame.symm, fun x t ht => absurd ht (hselect x t)⟩
  have hselect : (f.ins i).op.fam ≠ .switch → ∀ x t, (f.ins i).ctrl ≠ .select x t :=
    fun hfam x t ht => hfam (Ins.fam_of_select ht).1
  unfold retarget
  simp only
  split
  · rename_i b bs hfam hargs
    have hlt : i < f.code.size := lt_of_term (by rw [hfam]; decide)
    have hselect := hselect (by rw [hfam]; decide)
    split
    · rename_i hb
      subst hb
      have hcon : ((f.ins i).setArg 0 (.blk new)).ctrl = (f.ins i).ctrl.redir b new := by
        cases bs <;> simp [Ins.ctrl, Ins.setArg, hfam, hargs, Ctrl.redir]
      exact ⟨redirected_setIns rfl (by simp [Ins.setArg, hargs]) hcon,
        aimed_setIns hlt hcon hselect⟩
    · rename_i hb
      refine hkeep ?_ hselect
      cases bs <;> simp [Ins.ctrl, hfam, hargs, Ctrl.redir, redir_of_ne hb]
  · rename_i x y b hfam hargs
    have hlt : i < f.code.size := lt_of_term (by rw [hfam]; decide)
    have hselect := hselect (by rw [hfam]; decide)
    split
    · rename_i hb
      subst hb
      have hcon : ((f.ins i).setArg 2 (.blk new)).ctrl = (f.ins i).ctrl.redir b new := by
        simp [Ins.ctrl, Ins.setArg, hfam, hargs, Ctrl.redir]
      exact ⟨redirected_setIns rfl (by simp [Ins.setArg, hargs, filter_cons]) hcon,
        aimed_setIns hlt hcon hselect⟩
    · rename_i hb
      refine hkeep ?_ hselect
      simp [Ins.ctrl, hfam, hargs, Ctrl.redir, redir_of_ne hb]
  · rename_i x t hfam hargs
    have hcon : (f.ins i).ctrl = .select x t := by simp [Ins.ctrl, hfam, hargs]
    refine ⟨redirected_modifyTable t, ?_, fun y u hu => ?_⟩
    · show (f.ins i).ctrl = _
      rw [hcon]
      rfl
    · obtain ⟨rfl, rfl⟩ := Ctrl.select.inj (hcon.symm.trans hu)
      exact table_modifyTable_self _ (htbl x t hcon)
  · have hcon : (f.ins i).ctrl = .next ∨ (f.ins i).ctrl = .stop := by
      unfold Ins.ctrl
      split <;> simp_all
    rcases hcon with h | h
    · exact hkeep (by rw [h]; rfl) (by simp [h])
    · exact hkeep (by rw [h]; rfl) (by simp [h])

/-! ## Edges -/

lemma removeOne_ok {cs : List BlkId} : removeOne b bs = .ok cs ↔ b ∈ bs ∧ bs.erase b = cs := by
  unfold removeOne
  by_cases hb : b ∈ bs <;> simp [hb]

lemma count_erase_of_mem {a : BlkId} (ha : a ∈ bs) (x : BlkId) :
  (bs.erase a).count x + (if x = a then 1 else 0) = bs.count x := by
  rw [count_erase]
  by_cases hx : x = a
  · subst hx
    have := count_pos_iff.2 ha
    simp only [beq_self_eq_true, if_true]
    omega
  · simp [hx, Ne.symm hx]

lemma count_concat (bs : List BlkId) (a x : BlkId) :
  (bs ++ [a]).count x = bs.count x + if x = a then 1 else 0 := by
  by_cases hx : x = a
  · simp [hx]
  · simp [hx, Ne.symm hx]

lemma Paired.addEdge {b : Nat} (h : Paired f) (ha : a < f.blks.size) (hb : b < f.blks.size) :
  Paired (f.addEdge a b) := by
  intro c d
  rw [preds_addEdge a d hb, succs_addEdge b c ha, count_append, h c d]
  have hone : ∀ x y, [x].count y = if y = x then 1 else 0 := fun x y => by
    simpa using count_concat [] x y
  by_cases hd : d = b <;> by_cases hc : c = a <;> simp [hc, hd, hone]

/-- The ends of `n` edges from `a` have moved from `old` to `new`. -/
structure Moved (f g : Fn) (a old new : BlkId) (n : Nat) : Prop where
  same : EdgesOnly f g
  succs : ∀ c, (g.blk c).succs = (f.blk c).succs
  left : ∀ x, (g.blk old).preds.count x + (if x = a then n else 0) = (f.blk old).preds.count x
  entered : ∀ x, (g.blk new).preds.count x = (f.blk new).preds.count x + if x = a then n else 0
  others : ∀ c, c ≠ old → c ≠ new → (g.blk c).preds = (f.blk c).preds

lemma Moved.trans {a : BlkId} {m n : Nat} (h1 : Moved f g a old new m)
  (h2 : Moved g k a old new n) : Moved f k a old new (m + n) := by
  refine ⟨h1.same.trans h2.same, fun c => (h2.succs c).trans (h1.succs c), fun x => ?_, fun x => ?_,
    fun c hco hcn => (h2.others c hco hcn).trans (h1.others c hco hcn)⟩
  · rw [← h1.left x, ← h2.left x]
    split <;> omega
  · rw [h2.entered x, h1.entered x]
    split <;> omega

lemma count_map_redir (hne : new ≠ old) (bs : List BlkId) (b : BlkId) :
  (bs.map (redir old new)).count b =
    if b = old then 0 else bs.count b + if b = new then bs.count old else 0 := by
  induction bs with
  | nil => simp
  | cons c bs ih =>
    simp only [map_cons, redir]
    grind

section
variable {old new : Nat} (hne : new ≠ old) (hold : old < f.blks.size) (hnew : new < f.blks.size)
include hne hold hnew

lemma moveEdgeEnd_moved (h : moveEdgeEnd a old new f = .ok g) : Moved f g a old new 1 := by
  simp only [moveEdgeEnd, bind_ok, removeOne_ok] at h
  obtain ⟨_, ⟨ha, rfl⟩, h⟩ := h
  generalize hk : f.modBlk old (fun x => { x with preds := (f.blk old).preds.erase a }) = k at h
  obtain rfl : k.modBlk new (fun x => { x with preds := x.preds ++ [a] }) = g := Except.ok.inj h
  have hself : (k.blk old).preds = (f.blk old).preds.erase a := by
    rw [← hk, blk_mod_self _ hold]
  have hoth : ∀ c, c ≠ old → k.blk c = f.blk c := fun c hc => by
    rw [← hk, blk_mod_ne _ hc]
  have hsuc : ∀ c, (k.blk c).succs = (f.blk c).succs := fun c => by
    rw [← hk]
    exact blk_mod_field Blk.succs
      (g := fun x => { x with preds := (f.blk old).preds.erase a }) (fun _ => rfl) old c
  have hsame : EdgesOnly f k := hk ▸ .modBlk f old fun _ => rfl
  refine ⟨hsame.trans (.modBlk k new fun _ => rfl), fun c => ?_, fun x => ?_,
    fun x => ?_, fun c hco hcn => ?_⟩
  · rw [← hsuc]
    exact blk_mod_field Blk.succs (g := fun x => { x with preds := x.preds ++ [a] })
      (fun _ => rfl) new c
  · rw [blk_mod_ne _ (Ne.symm hne), hself]
    exact count_erase_of_mem ha x
  · rw [blk_mod_self _ (hsame.size ▸ hnew), hoth new hne]
    exact count_concat _ a x
  · rw [blk_mod_ne _ hcn, hoth c hco]

lemma foldlM_moveEdgeEnd (h : bs.foldlM (fun f _ => moveEdgeEnd a old new f) f = .ok g) :
  Moved f g a old new bs.length := by
  induction bs generalizing f with
  | nil =>
    cases h
    exact ⟨.refl _, fun _ => rfl, by simp, by simp, fun _ _ _ => rfl⟩
  | cons b bs ih =>
    obtain ⟨k, hk, hrest⟩ := foldlM_cons_ok.1 h
    have hfst := moveEdgeEnd_moved hne hold hnew hk
    have hsize := hfst.same.size
    have := hfst.trans (ih (by omega) (by omega) hrest)
    rwa [Nat.add_comm] at this

lemma foldlM_moveEdgeEnd_ok (h : bs.length ≤ (f.blk old).preds.count a) :
  ∃ g, bs.foldlM (fun f _ => moveEdgeEnd a old new f) f = .ok g := by
  induction bs generalizing f with
  | nil => exact ⟨f, rfl⟩
  | cons b bs ih =>
    have ha : a ∈ (f.blk old).preds := by
      rw [← count_pos_iff]
      exact (Nat.zero_lt_succ _).trans_le h
    obtain ⟨k, hk⟩ : ∃ k, moveEdgeEnd a old new f = .ok k := by
      simp only [moveEdgeEnd, bind_ok, removeOne_ok]
      exact ⟨_, _, ⟨ha, rfl⟩, rfl⟩
    have hmoved := moveEdgeEnd_moved hne hold hnew hk
    have hsize := hmoved.same.size
    have hleft := hmoved.left a
    rw [if_pos rfl] at hleft
    rw [length_cons] at h
    obtain ⟨g, hg⟩ := ih (f := k) (by omega) (by omega) (by omega)
    exact ⟨g, foldlM_cons_ok.2 ⟨k, hk, hg⟩⟩

lemma redirEdges_spec (ha : a < f.blks.size) (hpr : Paired f)
  (h : f.redirEdges a old new = .ok g) : EdgesOnly f g ∧ Paired g ∧ (g.blk a).succs =
  (f.blk a).succs.map (redir old new) ∧ ∀ c ≠ a, (g.blk c).succs = (f.blk c).succs := by
  simp only [redirEdges, bind_ok] at h
  obtain ⟨k, hfold, h⟩ := h
  have hmoved := foldlM_moveEdgeEnd hne hold hnew hfold
  have hlen : ((f.blk a).succs.filter (· == old)).length = (f.blk a).succs.count old := by
    rw [List.count, countP_eq_length_filter]
  rw [hlen] at hmoved
  generalize hφ : (fun x : Blk => { x with succs := (f.blk a).succs.map (redir old new) }) = φ
  obtain rfl : k.modBlk a φ = g := hφ ▸ Except.ok.inj h
  have hself : ((k.modBlk a φ).blk a).succs = (f.blk a).succs.map (redir old new) := by
    rw [blk_mod_self _ (hmoved.same.size ▸ ha), ← hφ]
  have hoth : ∀ c ≠ a, ((k.modBlk a φ).blk c).succs = (f.blk c).succs := fun c hc => by
    rw [blk_mod_ne _ hc, hmoved.succs]
  refine ⟨hmoved.same.trans (.modBlk k a fun _ => hφ ▸ rfl), fun c b => ?_, hself, hoth⟩
  rw [blk_mod_field Blk.preds (fun _ => hφ ▸ rfl)]
  by_cases hc : c = a
  · subst hc
    rw [hself, count_map_redir hne]
    by_cases hbo : b = old
    · subst hbo
      have := hmoved.left c
      have := hpr c b
      simp only [if_true] at *
      omega
    · by_cases hbn : b = new
      · subst hbn
        rw [hmoved.entered, hpr c b, if_pos rfl, if_neg hbo, if_pos rfl]
      · rw [hmoved.others b hbo hbn, hpr c b, if_neg hbo, if_neg hbn, Nat.add_zero]
  · rw [hoth c hc, ← hpr c b]
    by_cases hbo : b = old
    · subst hbo
      have := hmoved.left c
      rwa [if_neg hc] at this
    · by_cases hbn : b = new
      · subst hbn
        rw [hmoved.entered, if_neg hc, Nat.add_zero]
      · rw [hmoved.others b hbo hbn]

lemma redirEdges_ok (hpr : Paired f) : ∃ g, f.redirEdges a old new = .ok g := by
  have hlen : ((f.blk a).succs.filter (· == old)).length ≤ (f.blk old).preds.count a := by
    exact le_of_eq (by rw [hpr a old, List.count, countP_eq_length_filter])
  obtain ⟨k, hk⟩ := foldlM_moveEdgeEnd_ok hne hold hnew hlen
  simp only [redirEdges, bind_ok]
  exact ⟨_, k, hk, rfl⟩

end

lemma removeEdge_spec {b : Nat} (ha : a < f.blks.size) (hb : b < f.blks.size)
  (hpr : Paired f) (h : f.removeEdge a b = .ok g) :
  EdgesOnly f g ∧ Paired g ∧ (g.blk a).succs = (f.blk a).succs.erase b ∧
    (∀ c ≠ a, (g.blk c).succs = (f.blk c).succs) ∧
    ∀ c ≠ b, (g.blk c).preds = (f.blk c).preds := by
  simp only [removeEdge, bind_ok, removeOne_ok] at h
  obtain ⟨_, ⟨hpred, rfl⟩, _, ⟨hsucc, rfl⟩, h⟩ := h
  generalize hk : f.modBlk b (fun x => { x with preds := (f.blk b).preds.erase a }) = k at h hsucc
  have hsuc : ∀ c, (k.blk c).succs = (f.blk c).succs := fun c => by
    rw [← hk]
    exact blk_mod_field Blk.succs
      (g := fun x => { x with preds := (f.blk b).preds.erase a }) (fun _ => rfl) b c
  have hpreds : (k.blk b).preds = (f.blk b).preds.erase a := by
    rw [← hk, blk_mod_self _ hb]
  have hoths : ∀ c ≠ b, (k.blk c).preds = (f.blk c).preds := fun c hc => by
    rw [← hk, blk_mod_ne _ hc]
  have hsame : EdgesOnly f k := hk ▸ .modBlk f b fun _ => rfl
  generalize hφ : (fun x : Blk => { x with succs := (k.blk a).succs.erase b }) = φ
  obtain rfl : k.modBlk a φ = g := hφ ▸ Except.ok.inj h
  have hkeep : ∀ c, ((k.modBlk a φ).blk c).preds = (k.blk c).preds :=
    blk_mod_field Blk.preds (fun _ => hφ ▸ rfl) a
  have hself : ((k.modBlk a φ).blk a).succs = (f.blk a).succs.erase b := by
    rw [blk_mod_self _ (hsame.size ▸ ha), ← hφ, hsuc]
  have hoth : ∀ c ≠ a, ((k.modBlk a φ).blk c).succs = (f.blk c).succs := fun c hc => by
    rw [blk_mod_ne _ hc, hsuc]
  refine ⟨hsame.trans (.modBlk k a fun _ => hφ ▸ rfl), fun c d => ?_, hself, hoth,
    fun c hc => by rw [hkeep, hoths c hc]⟩
  rw [hkeep]
  rw [hsuc] at hsucc
  have hp := hpr c d
  have hin := count_erase_of_mem hpred c
  have hout := count_erase_of_mem hsucc d
  by_cases hd : d = b <;> by_cases hc : c = a
  · subst hd hc
    rw [hpreds, hself]
    simp only [if_true] at hin hout
    omega
  · subst hd
    rw [hpreds, hoth c hc]
    rw [if_neg hc] at hin
    omega
  · subst hc
    rw [hoths d hd, hself]
    rw [if_neg hd] at hout
    omega
  · rw [hoths d hd, hoth c hc]
    exact hp

/-! ## Forwarding the predecessors of a block -/

lemma SameCode.redirected (old new : BlkId) (h : SameCode f g) : Redirected old new f g :=
  ⟨h.size, by rw [h.code], by rw [h.tables], h.order, h.blk, fun i => by rw [h.ins_eq],
    fun i => by rw [event, event, h.ins_eq], fun i => .inl (by rw [h.ins_eq]),
    fun t => .inl (h.table_eq t)⟩

lemma retarget_blks (i : InsId) (old new : BlkId) (f : Fn) :
  (retarget i old new f).blks = f.blks := by
  unfold retarget
  simp only
  split <;> try split
  all_goals rfl

/-- The predecessors `as` of `old` have been told to go on to `new`. -/
structure Forwarded (old new : BlkId) (f g : Fn) (as : List BlkId) : Prop where
  redirected : Redirected old new f g
  paired : Paired g
  succs : ∀ a ∈ as, (g.blk a).succs = (f.blk a).succs.map (redir old new)
  others : ∀ a, a ∉ as → (g.blk a).succs = (f.blk a).succs
  name : ∀ a, (g.blk a).name = (f.blk a).name
  named : ∀ a, (g.blk a).named = (f.blk a).named
  aimed : ∀ a ∈ as, ∀ i, (f.blk a).code.getLast? = some i → Aimed old new f g i

lemma forward_forwarded {old new : Nat} (hne : new ≠ old) (ha : a < f.blks.size)
  (hold : old < f.blks.size) (hnew : new < f.blks.size) (hpr : Paired f)
  (htbs : HasTables f [a]) (h : forward old new f a = .ok g) : Forwarded old new f g [a] := by
  -- First the jump, then the edges.
  obtain ⟨k, hbks, hredirected, haimed, heds⟩ : ∃ k, k.blks = f.blks ∧
      Redirected old new f k ∧
      (∀ i, (f.blk a).code.getLast? = some i → Aimed old new f k i) ∧
      k.redirEdges a old new = .ok g := by
    unfold forward at h
    cases hlast : (f.blk a).code.getLast? with
    | none =>
      rw [hlast] at h
      exact ⟨f, rfl, .refl f, by simp, h⟩
    | some i =>
      rw [hlast] at h
      have hspec := @retarget_spec f i old new (htbs a (.head _) i (mem_of_getLast? hlast))
      refine ⟨_, retarget_blks i old new f, hspec.1, fun j hj => ?_, h⟩
      cases hj
      exact hspec.2
  have hblk : ∀ c, k.blk c = f.blk c := fun c => by rw [blk, blk, hbks]
  have hpr' : Paired k := fun c d => by
    rw [hblk, hblk]
    exact hpr c d
  obtain ⟨hsame, hpair, hself, hoths⟩ :=
    redirEdges_spec hne (hbks ▸ hold) (hbks ▸ hnew) (hbks ▸ ha) hpr' heds
  have hrest := hsame.sameCode.redirected old new
  refine ⟨hredirected.trans hne hrest, hpair, fun c hc => ?_, fun c hc => ?_,
    fun c => by rw [hsame.name_eq, hblk], fun c => by rw [hsame.named_eq, hblk],
    fun c hc i hi => ?_⟩
  · obtain rfl := mem_singleton.1 hc
    rw [hself, hblk]
  · rw [hoths c (by simpa using hc), hblk]
  · obtain rfl := mem_singleton.1 hc
    exact (haimed i hi).trans hne hrest

lemma Redirected.hasTables (h : Redirected old new f g) (hf : HasTables f bs) : HasTables g bs := by
  intro b hb i hi x t ht
  rw [h.tables]
  rw [h.code] at hi
  refine hf b hb i hi x t ?_
  rcases h.ctrl i with hc | hc
  · rw [← hc, ht]
  · rw [ht] at hc
    cases hcon : (f.ins i).ctrl <;> rw [hcon] at hc <;> cases hc
    rfl

lemma Forwarded.cons {a : BlkId} (hne : new ≠ old) (ha : a ∉ as) (h1 : Forwarded old new f g [a])
  (h2 : Forwarded old new g k as) : Forwarded old new f k (a :: as) := by
  refine ⟨h1.redirected.trans hne h2.redirected, h2.paired, fun c hc => ?_, fun c hc => ?_, fun c =>
    (h2.name c).trans (h1.name c), fun c => (h2.named c).trans (h1.named c), fun c hc i hi => ?_⟩
  · rcases mem_cons.1 hc with rfl | hc
    · rw [h2.others c ha, h1.succs c (.head _)]
    · have hca : c ≠ a := fun h => ha (h ▸ hc)
      rw [h2.succs c hc, h1.others c (by simpa using hca)]
  · rw [mem_cons, not_or] at hc
    rw [h2.others c hc.2, h1.others c (by simpa using hc.1)]
  · rcases mem_cons.1 hc with rfl | hc
    · exact (h1.aimed c (.head _) i hi).trans hne h2.redirected
    · exact .of_trans hne h1.redirected (h2.aimed c hc i (by rw [h1.redirected.code]; exact hi))

lemma foldlM_forward {old new : Nat} (hne : new ≠ old)
  (has : ∀ a : Nat, a ∈ as → a < f.blks.size) (hold : old < f.blks.size)
  (hnew : new < f.blks.size) (hnd : as.Nodup) (hpr : Paired f) (htbs : HasTables f as)
  (h : as.foldlM (forward old new) f = .ok g) : Forwarded old new f g as := by
  induction as generalizing f with
  | nil =>
    cases h
    exact ⟨.refl _, hpr, by simp, fun _ _ => rfl, fun _ => rfl, fun _ => rfl, by simp⟩
  | cons a as ih =>
    obtain ⟨k, hk, hrest⟩ := foldlM_cons_ok.1 h
    obtain ⟨ha, hnd⟩ := nodup_cons.1 hnd
    have hfst := forward_forwarded hne (has a (.head _)) hold hnew hpr
      (fun b hb => htbs b (by rw [mem_singleton.1 hb]; exact .head _)) hk
    have hsize := hfst.redirected.blks
    exact hfst.cons hne ha (ih (fun c hc => hsize ▸ has c (.tail _ hc)) (hsize ▸ hold) (hsize ▸
      hnew) hnd hfst.paired (hfst.redirected.hasTables fun b hb => htbs b (.tail _ hb)) hrest)

end Retarget.IR
