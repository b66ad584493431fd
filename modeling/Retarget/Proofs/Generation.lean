import Mathlib.Data.List.Nodup
import Retarget.Proofs.Operands

/-!
# Making listings

Code is only added at the end of a listing; its registers are declared; and its labels are new, for
they are numbered. So what comes out can be run.
-/

namespace Retarget.Wasm
open List
open IR (Kind Lit Op)
open IR.Pass (bind_ok)

lemma ensure_eq_ok {b : Bool} {why : String} : ensure b why = .ok () ↔ b = true := by
  cases b <;> simp [ensure]

/-! ## Instructions in sequence -/

namespace Gen
variable {c : Ctx} {locals : List Kind} {next prev : Option Ins} {g g' : Gen}

/-- Code for instructions is made one part after the other. The parts see each other's instructions
at the seam. -/
lemma steps_append (c : Ctx) (locals : List Kind) (next prev : Option Ins)
  (xs ys : List Ins) (g : Gen) : steps c locals next prev (xs ++ ys) g = steps c locals
  (ys.head?.or next) prev xs g >>= steps c locals next (xs.getLast?.or prev) ys := by
  induction xs generalizing prev g with
  | nil => rfl
  | cons x xs ih =>
    have hseam : (xs ++ ys).head?.or next = xs.head?.or (ys.head?.or next) := by cases xs <;> rfl
    have hlast : (x :: xs).getLast?.or prev = xs.getLast?.or (some x) := by
      rw [getLast?_cons]
      cases xs.getLast? <;> rfl
    rw [cons_append, steps, steps, hseam, hlast, bind_assoc]
    congr 1
    funext g1
    exact ih (some x) g1

lemma steps_cons {i : Ins} {is : List Ins} : steps c locals next prev (i :: is) g = .ok g' ↔
  ∃ g1, g.step c locals prev (is.head?.or next) i = .ok g1 ∧
    g1.steps c locals next (some i) is = .ok g' :=
  bind_ok

/-- Code for instructions between two that open and close a block. -/
lemma steps_bracket {i j : Ins}
  {inner rest : List Ins} : steps c locals next prev (i :: inner ++ j :: rest) g = .ok g' ↔
  ∃ g1 g2 g3, g.step c locals prev (inner.head?.or (some j)) i = .ok g1 ∧ g1.steps c locals
  (some j) (some i) inner = .ok g2 ∧ g2.step c locals (inner.getLast?.or (some i))
  (rest.head?.or next) j = .ok g3 ∧ g3.steps c locals next (some j) rest = .ok g' := by
  have hseam : (inner ++ j :: rest).head?.or next = inner.head?.or (some j) := by
    cases inner <;> rfl
  rw [cons_append, steps_cons, hseam]
  refine exists_congr fun g1 => ?_
  rw [steps_append, bind_ok]
  simp only [steps_cons]
  constructor
  · rintro ⟨h1, g2, h2, g3, h3, h4⟩
    exact ⟨g2, g3, h1, h2, h3, h4⟩
  · rintro ⟨g2, g3, h1, h2, h3, h4⟩
    exact ⟨h1, g2, h2, g3, h3, h4⟩

end Gen

/-! ## Code without labels -/

def labelsOf (ls : List Line) : List Label := ls.filterMap Line.label?

section
variable (l : Label) (op : Op) (args : List Opnd) (ls ls' : List Line)

@[simp] lemma labelsOf_nil : labelsOf [] = [] := rfl
@[simp] lemma labelsOf_label : labelsOf (.label l :: ls) = l :: labelsOf ls := rfl
@[simp] lemma labelsOf_ins : labelsOf (.ins op args :: ls) = labelsOf ls := rfl

@[simp] lemma labelsOf_append : labelsOf (ls ++ ls') = labelsOf ls ++ labelsOf ls' :=
  filterMap_append

end

def LabelFree (x : Res (List Line × List Kind)) : Prop :=
  ∀ lines ops, x = .ok (lines, ops) → labelsOf lines = []

namespace LabelFree
variable {lines : List Line} {ops : List Kind}

lemma ok (h : labelsOf lines = []) : LabelFree (.ok (lines, ops)) := by
  intro lines' ops' heq
  obtain ⟨rfl, -⟩ := Prod.mk.inj (Except.ok.inj heq)
  exact h

lemma error (e : Fault) : LabelFree (.error e) := fun _ _ h => by cases h

lemma bind {α : Type} {x : Res α} {f : α → Res (List Line × List Kind)}
  (h : ∀ a, x = .ok a → LabelFree (f a)) : LabelFree (x >>= f) := by
  intro lines ops heq
  obtain ⟨a, ha, heq⟩ := bind_ok.1 heq
  exact h a ha lines ops heq

end LabelFree

lemma labelFree_pushArgs (ks ops : List Kind) : LabelFree (pushArgs ks ops) := by
  induction ks generalizing ops with
  | nil => exact .ok rfl
  | cons k ks ih =>
    refine .bind fun ⟨k', ops1⟩ _ => .bind fun _ _ => .bind fun ⟨lines, rest⟩ hrest => .ok ?_
    rw [labelsOf_ins, ih ops1 _ _ hrest]

lemma labelsOf_popRets (ks ops : List Kind) : labelsOf (popRets ks ops).1 = [] := by
  induction ks generalizing ops with
  | nil => rfl
  | cons k ks ih => exact ih (k :: ops)

lemma labelsOf_asCompared {isUnsigned : Bool} {size : Nat} {k : Kind} {a b x y : Opnd}
  {lines : List Line} (h : asCompared isUnsigned size k a b = .ok (lines, x, y)) :
  labelsOf lines = [] := by
  cases isUnsigned with
  | false =>
    obtain ⟨rfl, -⟩ := Prod.mk.inj (Except.ok.inj h)
    rfl
  | true =>
    obtain ⟨u, -, h⟩ := bind_ok.1 h
    obtain ⟨rfl, -⟩ := Prod.mk.inj (Except.ok.inj h)
    rfl

lemma labelsOf_code {op : BinaryOp} {code : Kind → Opnd → Opnd → Opnd → List Line}
  (h : op.code = .ok code) (k : Kind) (d x y : Opnd) : labelsOf (code k d x y) = [] := by
  cases op <;> first | (obtain rfl := Except.ok.inj h; rfl) | cases h

lemma labelsOf_offLines (k : Kind) (pos : Nat) (a : Access) : labelsOf (offLines k pos a) = [] := by
  unfold offLines
  split <;> rfl

section
variable (ops : List Kind)

lemma labelFree_compareLines (r : Relation) (s : Reading) : LabelFree (compareLines r s ops) := by
  refine .bind fun ⟨k2, ops1⟩ _ => .bind fun ⟨k1, rest⟩ _ => .bind fun ⟨lines, x, y⟩ h => .ok ?_
  simp [labelsOf_asCompared h]

lemma labelFree_binaryLines (op : BinaryOp) (s : Reading) : LabelFree (binaryLines op s ops) := by
  refine .bind fun ⟨k2, ops1⟩ _ => .bind fun ⟨k1, rest⟩ _ => .bind fun code hcode => ?_
  split
  · exact .bind fun u _ => .ok (by simp [labelsOf_code hcode])
  · exact .ok (labelsOf_code hcode ..)

lemma labelFree_convertLines (conv : Conversion) (dst src : NumType) (s : Reading) :
  LabelFree (convertLines conv dst src s ops) := by
  unfold convertLines
  cases isConvertible conv dst src s with
  | false => exact .error _
  | true =>
    refine .bind fun ⟨k, rest⟩ _ => ?_
    dsimp only
    split
    · exact .bind fun u _ => .ok rfl
    · split
      · exact .bind fun u _ => .ok rfl
      · exact .ok rfl

lemma labelFree_storeLines (t : NumType) (n : Option Narrow) (a : Access) :
  LabelFree (storeLines t n a ops) := by
  refine .bind fun ⟨k, ops1⟩ _ => .bind fun ⟨ko, rest⟩ _ => .ok ?_
  cases storedKind t n <;> simp [labelsOf_offLines]

lemma labelFree_loadLines (t : NumType) (n : Option Narrow) (a : Access) :
  LabelFree (loadLines t n a ops) := by
  refine .bind fun ⟨ko, rest⟩ _ => .ok ?_
  cases loadedKind n <;> simp [labelsOf_offLines]

variable (c : Ctx)

lemma labelFree_callLines (f : IR.FnId) (op : Op) (args : List Opnd) :
  LabelFree (c.callLines f (.ins op args) ops) :=
  .bind fun ⟨push, rest⟩ hpush => .ok <| by
    simp [labelFree_pushArgs _ _ _ _ hpush, labelsOf_popRets]

lemma labelFree_indirectLines (type table : Nat) : LabelFree (c.indirectLines type table ops) := by
  refine .bind fun _ _ => .bind fun t _ => .bind fun ins _ => .bind fun outs _ => .bind fun f _ =>
    ?_
  refine .bind fun ⟨k, rest⟩ _ => .bind fun _ _ => .bind fun ⟨lines, ops1⟩ hcall => .ok ?_
  simp [labelFree_callLines _ _ _ _ _ _ _ hcall]

lemma labelFree_growLines (amount : Opnd) : LabelFree (c.growLines amount ops) :=
  .bind fun _ _ => .ok rfl

/-- Code that does not send control anywhere has no labels. -/
lemma labelFree_plainLines (locals : List Kind) (i : Ins) :
  LabelFree (c.plainLines locals i ops) := by
  cases i with
  | nop | unreachable | intConst | realConst => exact .ok rfl
  | drop | globalSet | eqz | reinterpret => exact .bind fun ⟨k, rest⟩ _ => .ok rfl
  | localGet n => exact .bind fun ⟨v, k⟩ _ => .ok rfl
  | localSet n | localTee n => exact .bind fun ⟨k, rest⟩ _ => .bind fun ⟨v, _⟩ _ => .ok rfl
  | globalGet n => exact .bind fun g _ => .bind fun k _ => .ok rfl
  | unary t op => exact .bind fun ⟨code, second⟩ _ => .bind fun ⟨k, rest⟩ _ => .ok rfl
  | binary t op s => exact labelFree_binaryLines ops op s
  | convert conv dst src s => exact labelFree_convertLines ops conv dst src s
  | compare t r s => exact labelFree_compareLines ops r s
  | store t n a => exact labelFree_storeLines ops t n a
  | load t n a => exact labelFree_loadLines ops t n a
  | call n => exact .bind fun _ _ => .bind fun f _ => labelFree_callLines ops c f _ _
  | callIndirect type table => exact labelFree_indirectLines ops c type table
  | memorySize n => exact labelFree_growLines ops c _
  | memoryGrow n => exact .bind fun ⟨k, rest⟩ _ => labelFree_growLines rest c _
  | return_ => exact .bind fun ⟨lines, rest⟩ h => .ok (by simp [labelFree_pushArgs _ _ _ _ h])
  | _ => exact .error _

end

/-! ## What a step does -/

namespace Gen

def labels (g : Gen) : List Label := labelsOf g.lines.toList

section
variable (g : Gen) (lines : List Line) (ops : List Kind)

@[simp] lemma labels_add : (g.add lines ops).labels = g.labels ++ labelsOf lines := by
  simp [labels, add]

@[simp] lemma count_add : (g.add lines ops).count = g.count := rfl

end

/-- What has been made up to the start of what is done if the condition of the innermost block
fails. -/
def turned (g : Gen) (b : Open) (bs : List Open) (ops : List Kind) : Gen :=
  { g.add [.ins .bra [.label (.closing b.sort b.no)], .label (.otherwise b.no)] ops with
    blks := { b with pending := false } :: bs }

def endLines (b : Open) : List Line :=
  (if b.pending then [.label (.otherwise b.no)] else []) ++ [.label (.closing b.sort b.no)]

def left (g : Gen) (b : Open) (bs : List Open) (ops : List Kind) : Gen :=
  { g.add (endLines b) ops with blks := bs }

/-- What an instruction can do to what has been made so far. -/
inductive Changes (g : Gen) : Gen → Prop where
  | keep : Changes g g
  /-- Code without labels is added, and perhaps a list of targets. -/
  | code (lines : List Line) (ops : List Kind) (tables : Array JumpList)
      (hlns : labelsOf lines = []) (htbs : g.tables.toList <+: tables.toList) :
      Changes g { g.add lines ops with tables }
  | enter (b : Open) (lines : List Line) (ops : List Kind) (hno : b.no = g.count)
      (hlns : labelsOf lines = []) : Changes g (g.enter b lines ops)
  /-- What is done if a condition fails begins. -/
  | turn (b : Open) (bs : List Open) (ops : List Kind) (hbks : g.blks = b :: bs)
      (hpnd : b.pending) : Changes g (g.turned b bs ops)
  | leave (b : Open) (bs : List Open) (ops : List Kind) (hbks : g.blks = b :: bs) :
      Changes g (g.left b bs ops)
  | choose (lines : List Line) (ops : List Kind) (hlns : labelsOf lines = [.chosen g.count]) :
      Changes g { g.add lines ops with count := g.count + 1 }

variable {c : Ctx} {locals : List Kind} {next prev : Option Ins} {g g' : Gen}

lemma Changes.add (lines : List Line) (ops : List Kind) (hlns : labelsOf lines = []) :
  g.Changes (g.add lines ops) :=
  .code lines ops g.tables hlns prefix_rfl

lemma labelsOf_moves (ms : List (Var × Var)) : labelsOf (ms.map moveLine) = [] := by
  induction ms with
  | nil => rfl
  | cons m ms ih => exact ih

lemma makeBlk_no {s : Construct} {t : BlkType} {ops : List Kind} {b : Open}
  (h : g.makeBlk c s t ops = .ok b) : b.no = g.count := by
  obtain ⟨⟨params, rets⟩, -, h⟩ := bind_ok.1 h
  obtain ⟨-, -, ⟨⟩⟩ := bind_ok.1 h
  rfl

lemma step_changes {i : Ins} (h : g.step c locals prev next i = .ok g') : g.Changes g' := by
  unfold step at h
  split at h
  iterate 2
    obtain ⟨b, hb, ⟨⟩⟩ := bind_ok.1 h
    exact .enter b [] g.ops (makeBlk_no hb) rfl
  · obtain ⟨cond, -, h⟩ := bind_ok.1 h
    obtain ⟨⟨lines, x, y⟩, hlns, h⟩ := bind_ok.1 h
    obtain ⟨b, hb, ⟨⟩⟩ := bind_ok.1 h
    exact .enter b _ cond.rest (makeBlk_no hb) (by simp [labelsOf_asCompared hlns])
  · split at h
    · cases h
    · rename_i b bs hbks
      obtain ⟨-, -, h⟩ := bind_ok.1 h
      obtain ⟨ops, -, h⟩ := bind_ok.1 h
      obtain ⟨_, hpnd, ⟨⟩⟩ := bind_ok.1 h
      exact .turn b bs ops hbks (ensure_eq_ok.1 hpnd)
  · split at h
    · rename_i b bs hbks
      obtain ⟨ops, -, ⟨⟩⟩ := bind_ok.1 h
      exact .leave b bs ops hbks
    · obtain ⟨-, -, h⟩ := bind_ok.1 h
      split at h
      · cases h
        exact .keep
      · obtain ⟨⟨lines, ops⟩, hlns, ⟨⟩⟩ := bind_ok.1 h
        exact .add _ ops (by simp [labelFree_pushArgs _ _ _ _ hlns])
  · obtain ⟨b, -, h⟩ := bind_ok.1 h
    obtain ⟨moves, -, ⟨⟩⟩ := bind_ok.1 h
    exact .add _ _ (by simp [labelsOf_moves])
  · obtain ⟨cond, -, h⟩ := bind_ok.1 h
    obtain ⟨⟨lines, x, y⟩, hlns, h⟩ := bind_ok.1 h
    obtain ⟨b, -, h⟩ := bind_ok.1 h
    obtain ⟨moves, -, ⟨⟩⟩ := bind_ok.1 h
    exact .add _ _ (by simp [labelsOf_asCompared hlns, labelsOf_moves])
  · obtain ⟨cases, -, h⟩ := bind_ok.1 h
    obtain ⟨other, -, h⟩ := bind_ok.1 h
    obtain ⟨⟨k, rest⟩, -, h⟩ := bind_ok.1 h
    obtain ⟨u, -, ⟨⟩⟩ := bind_ok.1 h
    exact .code _ _ _ rfl (by simp)
  · obtain ⟨cond, -, h⟩ := bind_ok.1 h
    obtain ⟨⟨k2, ops⟩, -, h⟩ := bind_ok.1 h
    obtain ⟨⟨k1, rest⟩, -, h⟩ := bind_ok.1 h
    obtain ⟨-, -, h⟩ := bind_ok.1 h
    obtain ⟨⟨lines, x, y⟩, hlns, ⟨⟩⟩ := bind_ok.1 h
    exact .choose _ _ (by simp [labelsOf_asCompared hlns])
  · obtain ⟨fused, -, h⟩ := bind_ok.1 h
    split at h
    · cases h
      exact .keep
    · obtain ⟨⟨lines, ops⟩, hlns, ⟨⟩⟩ := bind_ok.1 h
      exact .add lines ops (labelFree_plainLines _ _ _ _ _ _ hlns)

/-- What holds at the start and is kept by each instruction holds at the end. -/
lemma steps_induction {P : Gen → Prop} (hP : ∀ {g g' : Gen}, g.Changes g' → P g → P g')
  {is : List Ins} (h : g.steps c locals next prev is = .ok g') (hg : P g) : P g' := by
  induction is generalizing prev g with
  | nil =>
    cases h
    exact hg
  | cons i is ih =>
    obtain ⟨g1, hstep, hrest⟩ := steps_cons.1 h
    exact ih hrest (hP (step_changes hstep) hg)

/-! ## Code stays -/

/-- Lines and lists of targets are the first ones of what there is later. -/
structure Grows (g g' : Gen) : Prop where
  lines : g.lines.toList <+: g'.lines.toList
  tables : g.tables.toList <+: g'.tables.toList

lemma Grows.refl (g : Gen) : g.Grows g := ⟨prefix_rfl, prefix_rfl⟩

lemma Changes.grows {g0 : Gen} (h : g.Changes g') (hg : g0.Grows g) : g0.Grows g' := by
  have hadd : ∀ lines : List Line, g0.lines.toList <+: (g.lines ++ lines).toList := by
    intro lines
    refine hg.lines.trans ?_
    simp
  cases h with
  | keep => exact hg
  | code lines ops tables _ htbs => exact ⟨hadd lines, hg.tables.trans htbs⟩
  | enter | turn | leave | choose => exact ⟨hadd _, hg.tables⟩

lemma step_grows {i : Ins} (h : g.step c locals prev next i = .ok g') : g.Grows g' :=
  (step_changes h).grows (.refl g)

lemma steps_grows {is : List Ins} (h : g.steps c locals next prev is = .ok g') : g.Grows g' :=
  steps_induction Changes.grows h (.refl g)

/-! ## Registers are declared -/

def Declared (g : Gen) : Prop := ∀ x ∈ g.lines.toList, ∀ v ∈ x.vars, v ∈ g.vars

end Gen

lemma mem_declare {vars vs : List Var} {v : Var} : v ∈ declare vars vs ↔ v ∈ vars ∨ v ∈ vs := by
  induction vs generalizing vars with
  | nil => simp [declare]
  | cons w vs ih =>
    have hfst : declare vars (w :: vs) = declare (if w ∈ vars then vars else vars ++ [w]) vs :=
      rfl
    rw [hfst]
    split <;> simp_all <;> grind

namespace Gen
variable {g g' : Gen}

lemma Declared.add (h : g.Declared) (lines : List Line) (ops : List Kind) :
  (g.add lines ops).Declared := by
  intro x hx v hv
  simp only [Gen.add, Array.toList_appendList, mem_append] at hx
  simp only [Gen.add, mem_declare]
  rcases hx with hx | hx
  · exact .inl (.inl (h x hx v hv))
  · exact .inl (.inr (mem_flatMap.2 ⟨x, hx, hv⟩))

lemma Changes.declared (h : g.Changes g') (hg : g.Declared) : g'.Declared := by
  cases h with
  | keep => exact hg
  | code | enter | turn | leave | choose => exact hg.add _ _

end Gen

/-! ## Labels are new -/

def Label.no? : Label → Option Nat
  | opening _ n | otherwise n | closing _ n | chosen n => some n
  | start | named _ => none

namespace Gen
variable {g g' : Gen}

/-- No label occurs twice; numbers of labels have been given; and open blocks have numbers of their
own, with the labels at their ends still to come. -/
structure Numbered (g : Gen) : Prop where
  nodup : g.labels.Nodup
  given : ∀ l ∈ g.labels, ∀ n, l.no? = some n → n < g.count
  apart : (g.blks.map Open.no).Nodup
  ahead : ∀ b ∈ g.blks, b.no < g.count ∧ (∀ s, .closing s b.no ∉ g.labels) ∧
    (b.pending → .otherwise b.no ∉ g.labels)

section
variable (h : g.Numbered)
include h

lemma Numbered.not_mem {l : Label} {n : Nat} (hl : l.no? = some n) (hn : g.count ≤ n) :
  l ∉ g.labels := fun hmem => by
  have := h.given l hmem n hl
  omega

lemma Numbered.extend {ls : List Label} (hlbs : g'.labels = g.labels ++ ls) (hls : ls.Nodup)
  (hnew : ∀ l ∈ ls, l ∉ g.labels) (hcnt : g.count ≤ g'.count)
  (hgiven : ∀ l ∈ ls, ∀ n, l.no? = some n → n < g'.count) (hapart : (g'.blks.map Open.no).Nodup)
  (hahead : ∀ b ∈ g'.blks, b.no < g'.count ∧ (∀ s, .closing s b.no ∉ g.labels ++ ls) ∧
    (b.pending → .otherwise b.no ∉ g.labels ++ ls)) : g'.Numbered := by
  refine ⟨?_, ?_, hapart, by rwa [hlbs]⟩
  · rw [hlbs]
    refine nodup_append.2 ⟨h.nodup, hls, ?_⟩
    rintro a ha b hb rfl
    exact hnew a hb ha
  · intro l hl n hn
    rcases mem_append.1 (hlbs ▸ hl) with hl | hl
    · exact (h.given l hl n hn).trans_le hcnt
    · exact hgiven l hl n hn

lemma Numbered.extend_one {l : Label} (hlbs : g'.labels = g.labels ++ [l])
  (hl : l.no? = some g.count) (hopen : ∀ s n, l ≠ .closing s n) (hoth : ∀ n, l ≠ .otherwise n)
  (hcnt : g'.count = g.count + 1) (hapart : (g'.blks.map Open.no).Nodup)
  (hbks : ∀ b ∈ g'.blks, b ∈ g.blks ∨ b.no = g.count) : g'.Numbered := by
  refine h.extend hlbs (nodup_singleton l) ?_ (by omega) ?_ hapart ?_
  · rintro l' hl' 
    obtain rfl := mem_singleton.1 hl'
    exact h.not_mem hl le_rfl
  · intro l' hl' n hn
    obtain rfl := mem_singleton.1 hl'
    rw [hl] at hn
    cases hn
    omega
  · intro b hb
    have hnot : b.no < g.count + 1 ∧ (∀ s, .closing s b.no ∉ g.labels) ∧
        (b.pending → .otherwise b.no ∉ g.labels) := by
      rcases hbks b hb with hb | hb
      · obtain ⟨hlt, hclose, hoth⟩ := h.ahead b hb
        exact ⟨by omega, hclose, hoth⟩
      · rw [hb]
        exact ⟨by omega, fun s => h.not_mem rfl le_rfl, fun _ =>
          h.not_mem rfl le_rfl⟩
    refine ⟨by omega, fun s => ?_, fun hp => ?_⟩
    · simpa using ⟨hnot.2.1 s, (hopen s b.no).symm⟩
    · simpa using ⟨hnot.2.2 hp, (hoth b.no).symm⟩

lemma Numbered.ahead_outer {b b' : Open} {bs : List Open} (hbks : g.blks = b :: bs)
  (hb' : b' ∈ bs) {ls : List Label} (hls : ∀ l ∈ ls, l.no? = some b.no) :
  b'.no < g.count ∧ (∀ s, .closing s b'.no ∉ g.labels ++ ls) ∧
    (b'.pending → .otherwise b'.no ∉ g.labels ++ ls) := by
  have hapart := h.apart
  rw [hbks, map_cons, nodup_cons] at hapart
  have hne : b'.no ≠ b.no := fun heq => hapart.1 (heq ▸ mem_map_of_mem hb')
  have hoth : ∀ l, l.no? = some b'.no → l ∉ ls := fun l hl hmem =>
    hne (Option.some.inj (hl.symm.trans (hls l hmem)))
  obtain ⟨hlt, hclose, hpnd⟩ := h.ahead b' (hbks ▸ mem_cons_of_mem b hb')
  refine ⟨hlt, fun s hmem => ?_, fun hp hmem => ?_⟩
  · exact (mem_append.1 hmem).elim (hclose s) (hoth _ rfl)
  · exact (mem_append.1 hmem).elim (hpnd hp) (hoth _ rfl)

end

lemma Changes.numbered (h : g.Changes g') (hg : g.Numbered) : g'.Numbered := by
  cases h with
  | keep => exact hg
  | code lines ops tables hlns =>
    have hlbs : (g.add lines ops).labels = g.labels := by rw [labels_add, hlns, append_nil]
    exact ⟨hlbs ▸ hg.nodup, hlbs ▸ hg.given, hg.apart, hlbs ▸ hg.ahead⟩
  | enter b lines ops hno hlns =>
    have hlbs : (g.enter b lines ops).labels = g.labels ++ [.opening b.sort b.no] := by
      show (g.add _ ops).labels = _
      simp [hlns]
    refine hg.extend_one hlbs (congrArg some hno) (by simp) (by simp) rfl ?_ ?_
    · refine nodup_cons.2 ⟨?_, hg.apart⟩
      intro hmem
      obtain ⟨b', hb', heq⟩ := mem_map.1 hmem
      have := (hg.ahead b' hb').1
      omega
    · intro b' hb'
      rcases mem_cons.1 hb' with rfl | hb'
      · exact .inr hno
      · exact .inl hb'
  | choose lines ops hlns =>
    have hlbs : (g.add lines ops).labels = g.labels ++ [.chosen g.count] := by
      rw [labels_add, hlns]
    exact hg.extend_one hlbs rfl (by simp) (by simp) rfl hg.apart fun b hb => .inl hb
  | turn b bs ops hbks hpnd =>
    obtain ⟨hlt, hclose, hoth⟩ := hg.ahead b (hbks ▸ mem_cons_self)
    have hapart := hg.apart
    rw [hbks] at hapart
    have hlbs : (g.add [.ins .bra [.label (.closing b.sort b.no)], .label (.otherwise b.no)]
        ops).labels = g.labels ++ [.otherwise b.no] := labels_add ..
    refine hg.extend hlbs (nodup_singleton _) ?_ le_rfl ?_ hapart ?_
    · simpa using hoth hpnd
    · simpa [Label.no?, turned] using hlt
    · intro b' hb'
      rcases mem_cons.1 hb' with rfl | hb'
      · exact ⟨hlt, fun s => by simpa using hclose s, fun hp => by cases hp⟩
      · exact hg.ahead_outer hbks hb' (by simp [Label.no?])
  | leave b bs ops hbks =>
    obtain ⟨hlt, hclose, hoth⟩ := hg.ahead b (hbks ▸ mem_cons_self)
    have hapart := hg.apart
    rw [hbks, map_cons, nodup_cons] at hapart
    refine hg.extend (labels_add g _ ops) ?_ ?_ le_rfl ?_ hapart.2 fun b' hb' =>
      hg.ahead_outer hbks hb' ?_
    · cases hp : b.pending <;> simp [endLines, hp]
    · cases hp : b.pending with
      | false => simpa [endLines, hp] using hclose b.sort
      | true => simpa [endLines, hp] using ⟨hoth hp, hclose b.sort⟩
    · cases hp : b.pending <;> simpa [endLines, hp, Label.no?, left] using hlt
    · cases hp : b.pending <;> simp [endLines, hp, Label.no?]

end Gen

/-! ## Functions -/

def Ctx.begin (c : Ctx) (others : List Kind) : Gen where
  ops := []
  blks := []
  lines := (prologue c.params others).toArray
  vars := .base :: (List.range (c.params ++ others).length).map .loc
  count := 0
  tables := #[]

lemma labelsOf_prologue (params others : List Kind) :
  labelsOf (prologue params others) = [.start] := by
  have hins : ∀ {α : Type} (xs : List α) (op : α → Op) (args : α → List Opnd),
      labelsOf (xs.map fun x => .ins (op x) (args x)) = [] := by
    intro α xs op args
    induction xs with
    | nil => rfl
    | cons x xs ih => exact ih
  simp [prologue, hins]

namespace Ctx
variable {c : Ctx} {others : List Kind}

lemma declared_begin : (c.begin others).Declared := by
  intro x hx v hv
  simp only [begin, prologue, cons_append, nil_append, mem_cons, mem_append,
    mem_map, mem_range] at hx ⊢
  rcases hx with rfl | rfl | ⟨n, hn, rfl⟩ | ⟨⟨k, n⟩, hn, rfl⟩
  · cases hv
  · obtain rfl : v = .base := by simpa [Line.vars, Line.args, Opnd.var?] using hv
    exact .inl rfl
  · obtain rfl : v = .loc n := by simpa [Line.vars, Line.args, Opnd.var?] using hv
    exact .inr ⟨n, by rw [length_append]; omega, rfl⟩
  · obtain rfl : v = .loc (c.params.length + n) := by
      simpa [Line.vars, Line.args, Opnd.var?] using hv
    have hlt : n < others.length := by simpa using (mem_zipIdx hn).2.1
    exact .inr ⟨_, by rw [length_append]; omega, rfl⟩

lemma numbered_begin : (c.begin others).Numbered := by
  have hlbs : (c.begin others).labels = [.start] := labelsOf_prologue ..
  refine ⟨hlbs ▸ nodup_singleton _, ?_, nodup_nil, fun b hb => by cases hb⟩
  rw [hlbs]
  simp [Label.no?]

lemma generate_eq_ok {code : Code} {L : Listing} :
  c.generate code = .ok L ↔ ∃ others g, code.localKinds = .ok others ∧
    (c.begin others).steps c (c.params ++ others) none none code.body = .ok g ∧ g.ops = [] ∧
    g.blks = [] ∧ L = ⟨c.addr, c.params ++ others, g.vars, g.lines.toList, g.tables.toList⟩ := by
  constructor
  · intro h
    obtain ⟨others, hoths, h⟩ := bind_ok.1 h
    obtain ⟨g, hsts, h⟩ := bind_ok.1 h
    obtain ⟨_, hops, h⟩ := bind_ok.1 h
    obtain ⟨_, hbks, h⟩ := bind_ok.1 h
    exact ⟨others, g, hoths, hsts, isEmpty_iff.1 (ensure_eq_ok.1 hops),
      isEmpty_iff.1 (ensure_eq_ok.1 hbks), (Except.ok.inj h).symm⟩
  · rintro ⟨others, g, hoths, hsts, hops, hbks, rfl⟩
    refine bind_ok.2 ⟨others, hoths, bind_ok.2 ⟨g, hsts, ?_⟩⟩
    rw [hops, hbks]
    rfl

lemma sound_of_generate {code : Code} {L : Listing} (h : c.generate code = .ok L) : L.Sound := by
  obtain ⟨others, g, -, hsts, -, -, rfl⟩ := generate_eq_ok.1 h
  exact ⟨Gen.steps_induction Gen.Changes.declared hsts declared_begin,
    (Gen.steps_induction Gen.Changes.numbered hsts numbered_begin).nodup⟩

end Ctx
end Retarget.Wasm
