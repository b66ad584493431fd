import Retarget.Wasm.Generate
import Retarget.Proofs.Validation
import Retarget.Proofs.Control

/-!
# Running listings

The function that a listing is assembled to runs line by line. Its state is told by the number of
the next line and by what the registers hold, under their names in the listing. Registers that occur
in the lines have to be declared, and no label may occur twice.
-/

namespace Retarget
open List
variable {outs' : List Lit} {n : Nat}

/-! ## Running a function as it is laid out

A function takes over values one after the other, and pushes its results, the last one first, before
it leaves. Branches are not seen. -/

namespace Trace
variable {ε ω σ : Type}

/-- The second state is reached from the first in `n` unseen moves. -/
def Silently (S : σ → Move ε ω σ) : Nat → σ → σ → Prop
  | 0, a, b => a = b
  | n + 1, a, b => ∃ c, S a = .silent (some c) ∧ Silently S n c b

namespace Silently
variable {S : σ → Move ε ω σ} {a b c : σ}

lemma one (h : S a = .silent (some b)) : Silently S 1 a b := ⟨b, h, rfl⟩

lemma trans {m : Nat} (h1 : Silently S m a b) (h2 : Silently S n b c) : Silently S (m + n) a c := by
  induction m generalizing a with
  | zero =>
    obtain rfl : a = b := h1
    rwa [Nat.zero_add]
  | succ m ih =>
    obtain ⟨d, hd, hrest⟩ := h1
    rw [Nat.succ_add]
    exact ⟨d, hd, ih hrest⟩

lemma trace_add (h : Silently S n a b) (env : List ε → ω) (k : Nat) (seen : List ε) :
  trace S env (n + k) seen (some a) = trace S env k seen (some b) := by
  induction n generalizing a with
  | zero =>
    obtain rfl : a = b := h
    rw [Nat.zero_add]
  | succ n ih =>
    obtain ⟨d, hd, hrest⟩ := h
    rw [Nat.succ_add, trace_silent hd, ih hrest]

end Silently

lemma trace_prefix (S : σ → Move ε ω σ) (env : List ε → ω) {k : Nat} (h : n ≤ k) (seen : List ε)
  (a : Option σ) : trace S env n seen a <+: trace S env k seen a := by
  induction n generalizing k seen a with
  | zero => exact nil_prefix
  | succ n ih =>
    obtain ⟨k, rfl⟩ : ∃ k', k = k' + 1 := ⟨k - 1, by omega⟩
    cases a with
    | none => exact nil_prefix
    | some a =>
      cases ha : S a with
      | silent next =>
        rw [trace_silent ha, trace_silent ha]
        exact ih (by omega) seen next
      | emit e next =>
        rw [trace_emit ha, trace_emit ha]
        exact cons_prefix_cons.2 ⟨rfl, ih (by omega) _ _⟩

end Trace

namespace IR
open Trace (Move)

def Sem.linear (m : Sem) (f : Fn) : Fn.Point × Regs Lit → Move Deed Lit (Fn.Point × Regs Lit)
  | (⟨[], []⟩, _) => .silent none
  | (⟨[], b :: bs⟩, s) => .silent (some (⟨(f.blk b).code, bs⟩, s))
  | (⟨i :: is, bs⟩, s) =>
    match m.act f i s with
    | .set rs v => .silent (some (⟨is, bs⟩, s.write rs v))
    | .ask e rs => .emit e fun v => some (⟨is, bs⟩, s.write rs v)
    | .goto _ t => .silent ((f.pointAt t).map (·, s))
    | .skip _ _ => .silent (some (⟨is, bs⟩, s))
    | .stop e => .emit e fun _ => none

def handed (vs : List Lit) (seen : List Deed) : Lit := vs.getD (seen.length - 1) default

/-- What is seen of a function that takes over values of its input kinds and returns `outs`. -/
def Fn.callDeeds (f : Fn) (outs : List Lit) : List Deed :=
  f.inputs.map .pop ++ outs.reverse.map .push ++ [.leave .ret]

/-- The function, called with `ins`, returns `outs`, whatever registers hold at the start. -/
def Sem.Returns (m : Sem) (f : Fn) (ins outs : List Lit) : Prop :=
  ∀ s, ∃ n, Trace.trace (m.linear f) (handed ins) n [] (some (f.linearStart, s)) = f.callDeeds outs

lemma Fn.callDeeds_inj {f : Fn} {outs : List Lit} (h : f.callDeeds outs <+: f.callDeeds outs') :
  outs = outs' := by
  have hpush : ∀ xs ys : List Lit, xs.map Deed.push ++ [.leave .ret] <+:
      ys.map Deed.push ++ [.leave .ret] → xs = ys := by
    intro xs
    induction xs with
    | nil =>
      intro ys h
      cases ys with
      | nil => rfl
      | cons y ys => cases (cons_prefix_cons.1 h).1
    | cons x xs ih =>
      intro ys h
      cases ys with
      | nil => cases (cons_prefix_cons.1 h).1
      | cons y ys =>
        obtain ⟨hx, hxs⟩ := cons_prefix_cons.1 h
        rw [Deed.push.inj hx, ih ys hxs]
  rw [callDeeds, callDeeds, append_assoc, append_assoc, prefix_append_right_inj] at h
  exact reverse_inj.1 (hpush _ _ h)

lemma Sem.not_returns_of_trace {m : Sem} {f : Fn} {ins : List Lit} (n : Nat)
  (s : Regs Lit) (outs : List Lit)
  (h : Trace.trace (m.linear f) (handed ins) n [] (some (f.linearStart, s)) = f.callDeeds outs)
  (hne : outs ≠ outs') : ¬m.Returns f ins outs' := by
  intro hreturns
  obtain ⟨k, hk⟩ := hreturns s
  have hprefix {i j} (hle : i ≤ j) :=
    Trace.trace_prefix (m.linear f) (handed ins) hle [] (some (f.linearStart, s))
  rcases Nat.le_total n k with hle | hle
  · have hle := hprefix hle
    rw [h, hk] at hle
    exact hne (Fn.callDeeds_inj hle)
  · have hle := hprefix hle
    rw [h, hk] at hle
    exact hne (Fn.callDeeds_inj hle).symm

end IR
end Retarget

namespace Retarget.Wasm
open List Option Line
open IR (Kind Lit Op Sem Regs Deed)
open Trace (Silently Move)
variable {t : IR.BlkId} {k : Kind} {l : Label} {rs : List IR.RegId} {vs : List Lit}
  {a b c v : Lit} {m : Sem} {p : Nat} {op : Op} {e : Option Deed} {d : Var} {x : Line}

/-! ## Lines and positions -/

def Line.isIns : Line → Bool
  | ins .. => true
  | label _ => false

def codeCount (ls : List Line) : Nat := ls.countP isIns
def labelCount (ls : List Line) : Nat := (ls.filterMap label?).length

section
variable (l : Label) (op : Op) (args : List Opnd) (ls ls' : List Line)

@[simp] lemma codeCount_nil : codeCount [] = 0 := rfl

@[simp] lemma codeCount_label : codeCount (.label l :: ls) = codeCount ls :=
  countP_cons_of_neg Bool.false_ne_true

@[simp] lemma codeCount_ins : codeCount (.ins op args :: ls) = codeCount ls + 1 :=
  countP_cons_of_pos rfl

@[simp] lemma codeCount_append : codeCount (ls ++ ls') = codeCount ls + codeCount ls' :=
  countP_append

@[simp] lemma labelCount_nil : labelCount [] = 0 := rfl
@[simp] lemma labelCount_label : labelCount (.label l :: ls) = labelCount ls + 1 := rfl
@[simp] lemma labelCount_ins : labelCount (.ins op args :: ls) = labelCount ls := rfl

@[simp] lemma labelCount_append : labelCount (ls ++ ls') = labelCount ls + labelCount ls' := by
  simp [labelCount]

@[simp] lemma codeLength_label : codeLength (.label l :: ls) = 0 := rfl
@[simp] lemma codeLength_ins : codeLength (.ins op args :: ls) = codeLength ls + 1 := rfl

end

lemma length_filterMap_ins (n : Numbering) (ls : List Line) :
  (ls.filterMap n.ins?).length = codeCount ls := by
  induction ls with
  | nil => rfl
  | cons x ls ih =>
    cases x with
    | label | ins => simpa [Numbering.ins?, filterMap_cons] using ih

lemma getElem?_blksFrom (n : Nat) (pre r : List Line) (l : Label) :
  (blksFrom n (pre ++ .label l :: r))[labelCount pre]? =
    some { name := l.name, code := range' (n + codeCount pre) (codeLength r) } := by
  induction pre generalizing n with
  | nil => rfl
  | cons x pre ih =>
    cases x with
    | label l' => simpa [blksFrom] using ih n
    | ins op args => simpa [blksFrom, Nat.add_assoc, Nat.add_comm 1] using ih (n + 1)

namespace Listing
variable (L : Listing)

def place (n : Nat) : IR.Fn.Point :=
  ⟨range' (codeCount (L.lines.take n)) (codeLength (L.lines.drop n)),
    range' (labelCount (L.lines.take n)) (labelCount (L.lines.drop n))⟩

abbrev At (n : Nat) (x : Line) : Prop := L.lines[n]? = some x
def view (s : Regs Lit) (v : Var) : Lit := s (L.vars.idxOf v)

/-- A listing that can be run: all its registers are declared, and no label occurs twice. -/
structure Sound : Prop where
  declared : ∀ x ∈ L.lines, ∀ v ∈ x.vars, v ∈ L.vars
  nodup : L.labels.Nodup

variable {L} {n : Nat}

lemma drop_eq_cons (h : L.At n x) : L.lines.drop n = x :: L.lines.drop (n + 1) := by
  rw [drop_eq_getElem?_toList_append, h]
  rfl

lemma take_succ_eq (h : L.At n x) : L.lines.take (n + 1) = L.lines.take n ++ [x] := by
  rw [take_add_one, h]
  rfl

lemma lines_eq (h : L.At n x) : L.lines = L.lines.take n ++ x :: L.lines.drop (n + 1) := by
  rw [← drop_eq_cons h, take_append_drop]

lemma place_label (h : L.At n (.label l)) : L.place n = ⟨[], labelCount (L.lines.take n) ::
  range' (labelCount (L.lines.take n) + 1) (labelCount (L.lines.drop (n + 1)))⟩ := by
  simp [place, drop_eq_cons h, range'_succ]

lemma place_succ_label (h : L.At n (.label l)) : L.place (n + 1) =
  ⟨range' (codeCount (L.lines.take n)) (codeLength (L.lines.drop (n + 1))),
    range' (labelCount (L.lines.take n) + 1) (labelCount (L.lines.drop (n + 1)))⟩ := by
  simp [place, take_succ_eq h]

lemma place_ins {args : List Opnd} (h : L.At n (.ins op args)) :
  L.place n = ⟨codeCount (L.lines.take n) :: (L.place (n + 1)).code, (L.place (n + 1)).next⟩ := by
  simp [place, take_succ_eq h, drop_eq_cons h, range'_succ]

/-! ## What has been assembled -/

variable {f : IR.Fn}

lemma blk_asm (h : L.At n (.label l)) : ((L.asm f).blk (labelCount (L.lines.take n))).code =
  range' (codeCount (L.lines.take n)) (codeLength (L.lines.drop (n + 1))) := by
  have hblk := getElem?_blksFrom 0 (L.lines.take n) (L.lines.drop (n + 1)) l
  rw [← lines_eq h] at hblk
  simp [IR.Fn.blk, asm, hblk]

lemma ins_asm {args : List Opnd} (h : L.At n (.ins op args)) :
  (L.asm f).ins (codeCount (L.lines.take n)) = .of op (args.map L.numbering.opnd) := by
  have hcode : (L.lines.filterMap L.numbering.ins?)[codeCount (L.lines.take n)]? =
      some (.of op (args.map L.numbering.opnd)) := by
    generalize htake : L.lines.take n = pre
    rw [lines_eq h, htake, filterMap_append, ← length_filterMap_ins L.numbering,
      getElem?_append_right (Nat.le_refl _), Nat.sub_self]
    rfl
  simp [IR.Fn.ins, asm, hcode]

lemma lit_asm (h : c ∈ L.lits) : (L.asm f).lit (L.lits.idxOf c) = c := by
  simp [IR.Fn.lit, asm, numbering, getElem?_idxOf h]

lemma reg_asm {v : Var} (h : v ∈ L.vars) : ((L.asm f).reg (L.vars.idxOf v)).kind = L.kindOf v := by
  simp [IR.Fn.reg, asm, getElem?_idxOf h]

lemma pointAt_asm (hL : L.Sound) (h : L.At n (.label l)) :
  (L.asm f).pointAt (L.labels.idxOf l) = some (L.place (n + 1)) := by
  have hlbs : L.labels = (L.lines.take n).filterMap label? ++
      l :: (L.lines.drop (n + 1)).filterMap label? := by
    conv_lhs => rw [labels, lines_eq h, filterMap_append]
    rfl
  have hnew : l ∉ (L.lines.take n).filterMap label? := by
    have hnd := hL.nodup
    rw [hlbs] at hnd
    intro hmem
    exact (nodup_append.1 hnd).2.2 l hmem l (.head _) rfl
  have hid : L.labels.idxOf l = labelCount (L.lines.take n) := by
    rw [hlbs, idxOf_append_of_notMem hnew, idxOf_cons_self]
    rfl
  have hcnt : L.labels.length = labelCount (L.lines.take n) +
      (labelCount (L.lines.drop (n + 1)) + 1) := by
    rw [hlbs, length_append]
    rfl
  have hord : (L.asm f).order = range (labelCount (L.lines.take n)) ++
      labelCount (L.lines.take n) :: range' (labelCount (L.lines.take n) + 1)
        (labelCount (L.lines.drop (n + 1))) := by
    show range L.labels.length = _
    rw [hcnt, range_eq_range', range'_append_1.symm, Nat.zero_add, range'_succ, range_eq_range']
  have hmem : labelCount (L.lines.take n) ∈ (L.asm f).order := by
    rw [hord]
    simp
  have hnd : (L.asm f).order.Nodup := nodup_range
  rw [IR.Fn.pointAt, hid, if_pos hmem, IR.Fn.following_of_append hnd hord, blk_asm h,
    place_succ_label h]

lemma linearStart_asm (h : L.At 0 (.label l)) : (L.asm f).linearStart = L.place 0 := by
  have hlen : L.labels.length = labelCount (L.lines.drop (0 + 1)) + 1 := by
    rw [labels, ← drop_zero (l := L.lines), drop_eq_cons h]
    rfl
  rw [place_label h]
  show (⟨[], range L.labels.length⟩ : IR.Fn.Point) = _
  rw [hlen, range_eq_range']
  rfl

end Listing

/-! ## Values -/

abbrev Env := Var → Lit

def Opnd.value? (env : Env) : Opnd → Option Lit
  | var v => some (env v)
  | lit c => some c
  | _ => none

def computed? (m : Sem) (op : Op) (k : Kind) (vs : List Lit) : Option Lit :=
  match op.fam, vs with
  | .alu, [a, b] => some (m.alu op a b)
  | .alu1, [a] => some (m.alu1 op a)
  | .conv, [a] => some (m.convert op k a)
  | .mov, [a] => some a
  | .cmp, [a, b, c, d] => some (if m.holds op.condition c d then a else b)
  | _, _ => none

lemma defCount_of_computed (h : computed? m op k vs = some v) : op.defCount = 1 := by
  unfold computed? at h
  rw [Op.defCount]
  split at h <;> simp_all [IR.Fam.defCount]

lemma perform_of_computed {table : IR.TableId → IR.JumpTable} {ds : List IR.RegId}
  (h : computed? m op k vs = some v) : m.perform table op ds k (vs.map .val) = .set ds v := by
  unfold computed? at h
  split at h <;> simp_all [Sem.perform]

def Line.set? (m : Sem) (kindOf : Var → Kind) (env : Env) : Line → Option (Var × Lit)
  | ins op (.var d :: args) => do
    let vs ← args.mapM (Opnd.value? env)
    return (d, ← computed? m op (kindOf d) vs)
  | _ => none

def execute (m : Sem) (kindOf : Var → Kind) : List Line → Env → Option Env
  | [], env => some env
  | x :: xs, env => do
    let (d, v) ← x.set? m kindOf env
    execute m kindOf xs (Function.update env d v)

namespace Listing
variable {L : Listing} {f : IR.Fn} {n : Nat} {s : Regs Lit} {args : List Opnd}

lemma argOf_asm {x : Opnd} (hlit : ∀ c, x = .lit c → c ∈ L.lits)
  (h : x.value? (L.view s) = some c) : (L.asm f).argOf s (L.numbering.opnd x) = .val c := by
  cases x with
  | var v =>
    obtain rfl := some.inj h
    rfl
  | lit d =>
    obtain rfl := some.inj h
    show IR.Arg.val ((L.asm f).lit (L.lits.idxOf d)) = _
    rw [lit_asm (hlit d rfl)]
  | _ => cases h

lemma mem_lits (h : L.At n x) (hc : .lit c ∈ x.args) : c ∈ L.lits :=
  mem_flatMap.2 ⟨x, mem_of_getElem? h, mem_filterMap.2 ⟨_, hc, rfl⟩⟩

lemma map_argOf (h : L.At n x)
  (hargs : ∀ a ∈ args, a ∈ x.args) (hvs : args.mapM (Opnd.value? (L.view s)) = some vs) :
  args.map (fun a => (L.asm f).argOf s (L.numbering.opnd a)) = vs.map .val := by
  induction args generalizing vs with
  | nil =>
    obtain rfl : [] = vs := by simpa using hvs
    rfl
  | cons a args ih =>
    obtain ⟨v, vs', hv, hvs', rfl⟩ := exists_of_mapM_cons hvs
    have hlit : ∀ c, a = .lit c → c ∈ L.lits := by
      rintro c rfl
      exact mem_lits h (hargs _ (.head _))
    rw [map_cons, map_cons, argOf_asm hlit hv, ih (fun b hb => hargs b (mem_cons_of_mem a hb)) hvs']

lemma view_write (hd : d ∈ L.vars) (v : Lit) :
  L.view (s.write [L.vars.idxOf d] v) = Function.update (L.view s) d v := by
  funext w
  by_cases hw : w = d
  · subst hw
    simp [view, Regs.write]
  · have hne : L.vars.idxOf w ≠ L.vars.idxOf d := fun heq => hw ((idxOf_inj hd).1 heq.symm).symm
    simp [view, Regs.write, hw, hne]

/-! ## Moves of the machine -/

lemma linear_label (h : L.At n (.label l)) :
  m.linear (L.asm f) (L.place n, s) = .silent (some (L.place (n + 1), s)) := by
  rw [place_label h, place_succ_label h, Sem.linear, blk_asm h]

def actAt (L : Listing) (m : Sem) (f : IR.Fn) (n : Nat) (s : Regs Lit) : IR.Act Lit Deed :=
  m.act (L.asm f) (codeCount (L.lines.take n)) s

section
variable (h : L.At n (.ins op args))
include h

lemma linear_ins : m.linear (L.asm f) (L.place n, s) = match L.actAt m f n s with
    | .set rs v => .silent (some (L.place (n + 1), s.write rs v))
    | .ask e rs => .emit e fun v => some (L.place (n + 1), s.write rs v)
    | .goto _ t => .silent (((L.asm f).pointAt t).map (·, s))
    | .skip .. => .silent (some (L.place (n + 1), s))
    | .stop e => .emit e fun _ => none := by
  rw [place_ins h]
  rfl

lemma actAt_eq : L.actAt m f n s = m.perform
  (L.asm f).table op (((args.take op.defCount).map L.numbering.opnd).filterMap IR.Opnd.reg?)
  ((L.asm f).destKind (.of op (args.map L.numbering.opnd))) ((args.drop op.defCount).map fun a =>
        (L.asm f).argOf s (L.numbering.opnd a)) := by
  rw [actAt, Sem.act, ins_asm h, Sem.does, IR.Fn.srcs, IR.Ins.written]
  simp [IR.Ins.of, Function.comp_def]

end

lemma mem_vars (hL : L.Sound) (h : L.At n (.ins op args)) {v : Var}
  (hv : .var v ∈ args) : v ∈ L.vars :=
  hL.declared _ (mem_of_getElem? h) v (mem_filterMap.2 ⟨_, hv, rfl⟩)

lemma actAt_dest (hL : L.Sound) (h : L.At n (.ins op (.var d :: args)))
  (hop : op.defCount = 1) : L.actAt m f n s = m.perform (L.asm f).table op
  [L.vars.idxOf d] (L.kindOf d) (args.map fun a => (L.asm f).argOf s (L.numbering.opnd a)) := by
  have hkind : (L.asm f).destKind (.of op ((.var d :: args).map L.numbering.opnd)) =
      L.kindOf d := by
    simp only [IR.Fn.destKind, IR.Ins.written, IR.Ins.of, hop]
    exact reg_asm (mem_vars hL h (.head _))
  rw [actAt_eq h, hkind, hop]
  rfl

lemma actAt_nothing (h : L.At n (.ins op args)) (hop : op.defCount = 0) :
  L.actAt m f n s = m.perform (L.asm f).table op [] .invalid
    (args.map fun a => (L.asm f).argOf s (L.numbering.opnd a)) := by
  have hkind : (L.asm f).destKind (.of op (args.map L.numbering.opnd)) = .invalid := by
    simp [IR.Fn.destKind, IR.Ins.written, IR.Ins.of, hop]
  rw [actAt_eq h, hkind, hop]
  rfl

/-! ## Runs -/

/-- From line `n` the machine gets to line `n'` unseen, with registers as given. -/
def Reaches (L : Listing) (m : Sem) (f : IR.Fn) (n : Nat) (env : Env) (n' : Nat) (env' : Env) :
  Prop :=
  ∀ s, L.view s = env → ∃ s' k, L.view s' = env' ∧
    Silently (m.linear (L.asm f)) k (L.place n, s) (L.place n', s')

namespace Reaches
variable {n' n'' : Nat} {env env' env'' : Env}

lemma refl (L : Listing) (m : Sem) (f : IR.Fn) (n : Nat) (env : Env) :
  L.Reaches m f n env n env := fun s hs => ⟨s, 0, hs, rfl⟩

lemma trans (h1 : L.Reaches m f n env n' env') (h2 : L.Reaches m f n' env' n'' env'') :
  L.Reaches m f n env n'' env'' := by
  intro s hs
  obtain ⟨s', k, hs', hrun⟩ := h1 s hs
  obtain ⟨s'', k', hs'', hrun'⟩ := h2 s' hs'
  exact ⟨s'', k + k', hs'', hrun.trans hrun'⟩

end Reaches

variable {env : Env}

lemma reaches_label (h : L.At n (.label l)) :
  L.Reaches m f n env (n + 1) env := fun s hs => ⟨s, 1, hs, .one (linear_label h)⟩

lemma reaches_set (hL : L.Sound) (h : L.At n x)
  (hset : x.set? m L.kindOf env = some (d, v)) :
  L.Reaches m f n env (n + 1) (Function.update env d v) := by
  rintro s rfl
  unfold set? at hset
  split at hset
  · rename_i op d' args
    obtain ⟨vs, hvs, hset⟩ := bind_eq_some_iff.1 hset
    obtain ⟨v', hv', heq⟩ := bind_eq_some_iff.1 hset
    obtain ⟨rfl, rfl⟩ := Prod.mk.inj (some.inj heq)
    have hargs := map_argOf (f := f) h (fun a ha => .tail _ ha) hvs
    have hact : L.actAt m f n s = .set [L.vars.idxOf d'] v' := by
      rw [actAt_dest hL h (defCount_of_computed hv'), hargs, perform_of_computed hv']
    exact ⟨_, 1, view_write (mem_vars hL h (.head _)) v', .one (by rw [linear_ins h, hact])⟩
  · cases hset

lemma reaches_mov (hL : L.Sound) {v : Var} (h : L.At n (.ins .mov [.var d, .var v])) :
  L.Reaches m f n env (n + 1) (Function.update env d (env v)) :=
  reaches_set hL h (by simp [set?]; rfl)

/-- The lines stand at position `n` of the listing. -/
def Has (L : Listing) (n : Nat) (ls : List Line) : Prop := ls <+: L.lines.drop n

lemma Has.head {ls : List Line} (h : L.Has n (x :: ls)) : L.At n x ∧ L.Has (n + 1) ls := by
  obtain ⟨r, hr⟩ := h
  have hx : L.lines[n]? = some x := by
    rw [← Nat.add_zero n, ← getElem?_drop, ← hr]
    rfl
  refine ⟨hx, r, ?_⟩
  rw [drop_eq_cons hx] at hr
  exact (cons.inj hr).2

lemma Has.append {ls ls' : List Line} (h : L.Has n (ls ++ ls')) :
  L.Has n ls ∧ L.Has (n + ls.length) ls' := by
  induction ls generalizing n with
  | nil => exact ⟨ nil_prefix, h⟩
  | cons x ls ih =>
    obtain ⟨hx, hrest⟩ := h.head
    obtain ⟨hls, hls'⟩ := ih hrest
    refine ⟨?_, ?_⟩
    · rw [Has, drop_eq_cons hx]
      exact cons_prefix_cons.2 ⟨rfl, hls⟩
    · rwa [length_cons, Nat.add_comm ls.length, ← Nat.add_assoc]

lemma reaches_execute (hL : L.Sound) {ls : List Line} (h : L.Has n ls) {env' : Env}
  (hexec : execute m L.kindOf ls env = some env') : L.Reaches m f n env (n + ls.length) env' := by
  induction ls generalizing n env with
  | nil =>
    obtain rfl := some.inj hexec
    exact .refl L m f n env
  | cons x ls ih =>
    obtain ⟨hx, hrest⟩ := h.head
    obtain ⟨⟨d, v⟩, hset, hexec⟩ := bind_eq_some_iff.1 hexec
    have hstep := (reaches_set hL hx hset).trans (ih hrest hexec)
    rwa [Nat.add_assoc n, Nat.add_comm 1] at hstep

/-! ## Branches -/

lemma reaches_goto (hL : L.Sound) (h : L.At n (.ins op args)) (hp : L.At p (.label l))
  (hact : ∀ s, L.view s = env → L.actAt m f n s = .goto none (L.labels.idxOf l)) :
  L.Reaches m f n env (p + 1) env := by
  intro s hs
  refine ⟨s, 1, hs, .one ?_⟩
  rw [linear_ins h, hact s hs]
  simp only [pointAt_asm hL hp, map_some]

lemma reaches_bra (hL : L.Sound) (h : L.At n (.ins .bra [.label l]))
  (hp : L.At p (.label l)) : L.Reaches m f n env (p + 1) env := by
  refine reaches_goto hL h hp fun s _ => ?_
  rw [actAt_nothing h rfl]
  rfl

variable {x y : Opnd}

lemma actAt_branch (h : L.At n (.ins op [x, y, .label l]))
  (hop : op.fam = .condBra) (ha : x.value? (L.view s) = some a)
  (hb : y.value? (L.view s) = some b) : L.actAt m f n s =
    if m.holds op a b then .goto none (L.labels.idxOf l) else .skip none (L.labels.idxOf l) := by
  have hargs : [x, y].map (fun a => (L.asm f).argOf s (L.numbering.opnd a)) =
      [a, b].map .val := map_argOf h (by simp [args]) (by simp [ha, hb])
  obtain ⟨hx, hy⟩ : (L.asm f).argOf s (L.numbering.opnd x) = .val a ∧
      (L.asm f).argOf s (L.numbering.opnd y) = .val b := by simpa using hargs
  rw [actAt_nothing h (by rw [Op.defCount, hop]; rfl)]
  simp only [map_cons, hx, hy, Sem.perform, hop]
  rfl

lemma reaches_taken (hL : L.Sound) (h : L.At n (.ins op [x, y, .label l]))
  (hop : op.fam = .condBra) (ha : x.value? env = some a) (hb : y.value? env = some b)
  (hholds : m.holds op a b) (hp : L.At p (.label l)) : L.Reaches m f n env (p + 1) env := by
  refine reaches_goto hL h hp ?_
  rintro s rfl
  rw [actAt_branch h hop ha hb, hholds, if_pos rfl]

lemma reaches_untaken (h : L.At n (.ins op [x, y, .label l]))
  (hop : op.fam = .condBra) (ha : x.value? env = some a) (hb : y.value? env = some b)
  (hholds : m.holds op a b = false) : L.Reaches m f n env (n + 1) env := by
  rintro s rfl
  refine ⟨s, 1, rfl, .one ?_⟩
  rw [linear_ins h, actAt_branch h hop ha hb, hholds, if_neg Bool.false_ne_true]

/-- Looking up a position among numbered items gives the item there. -/
lemma lookup_zipIdx {α β : Type} (g : α → β) (xs : List α) (k j : Nat) :
  ((xs.zipIdx k).map fun p => ((p.2 : Int), g p.1)).lookup ((k + j : Nat) : Int) =
    xs[j]?.map g := by
  induction xs generalizing k j with
  | nil => rfl
  | cons x xs ih =>
    rw [zipIdx_cons, map_cons, lookup_cons]
    cases j with
    | zero => simp
    | succ j =>
      have hne : (((k + (j + 1) : Nat) : Int) == (k : Int)) = false := by
        rw [beq_eq_false_iff_ne]
        omega
      have hnext : k + (j + 1) = k + 1 + j := by omega
      rw [hne, hnext, ih (k + 1) j]
      rfl

lemma reaches_switch (hL : L.Sound) {i : Var} {t : Nat} {js : JumpList}
  (h : L.At n (.ins .switch [.var i, .table t])) (hjs : L.tables[t]? = some js)
  {j : Nat} (hj : (env i).number = j)
  (hp : L.At p (.label (js.cases.getD j js.other))) :
  L.Reaches m f n env (p + 1) env := by
  have htbl : (L.asm f).table t = L.numbering.table t js := by
    simp [IR.Fn.table, asm, hjs]
  have htgt : (L.numbering.table t js).tgt j = L.labels.idxOf (js.cases.getD j js.other) := by
    have hlookup := lookup_zipIdx (fun l => L.numbering.labels.idxOf l) js.cases 0 j
    rw [Nat.zero_add] at hlookup
    show (lookup _ (js.cases.zipIdx.map _)).getD (L.labels.idxOf js.other) = _
    rw [hlookup, getD_eq_getElem?_getD]
    cases js.cases[j]? <;> rfl
  refine reaches_goto hL h hp ?_
  rintro s rfl
  rw [actAt_nothing h rfl, ← htgt, ← htbl, ← hj]
  rfl

/-! ## Arguments and results -/

lemma linear_pop (hL : L.Sound) (h : L.At n (.ins .poparg [.var d])) :
  m.linear (L.asm f) (L.place n, s) =
    .emit (.pop (L.kindOf d)) fun v => some (L.place (n + 1), s.write [L.vars.idxOf d] v) := by
  rw [linear_ins h, actAt_dest hL h rfl]
  rfl

lemma linear_push (h : L.At n (.ins .pusharg [x]))
  (hx : x.value? (L.view s) = some v) :
  m.linear (L.asm f) (L.place n, s) = .emit (.push v) fun _ =>
        some (L.place (n + 1), s) := by
  have hargs : [x].map (fun a => (L.asm f).argOf s (L.numbering.opnd a)) = [v].map .val :=
    map_argOf h (by simp [args]) (by simp [hx])
  have hact : L.actAt m f n s = .ask (.push v) [] := by
    rw [actAt_nothing h rfl, hargs]
    rfl
  rw [linear_ins h, hact]
  simp only [Regs.write_nil]

lemma linear_ret (h : L.At n (.ins .ret [])) :
  m.linear (L.asm f) (L.place n, s) = .emit (.leave .ret) fun _ => none := by
  rw [linear_ins h, actAt_nothing h rfl]
  rfl

/-- From line `n` the function pushes `vs`, in this sequence, and returns. -/
def Finishes (L : Listing) (m : Sem) (f : IR.Fn) (n : Nat) (env : Env) (vs : List Lit) : Prop :=
  ∀ s, L.view s = env → ∀ caller seen, ∃ k,
    Trace.trace (m.linear (L.asm f)) caller k seen (some (L.place n, s)) =
      vs.map .push ++ [.leave .ret]

lemma Reaches.finishes {n' : Nat} {env' : Env} (h : L.Reaches m f n env n' env')
  (hvs : L.Finishes m f n' env' vs) : L.Finishes m f n env vs := by
  intro s hs caller seen
  obtain ⟨s', k, hs', hrun⟩ := h s hs
  obtain ⟨k', hk'⟩ := hvs s' hs' caller seen
  exact ⟨k + k', by rw [hrun.trace_add, hk']⟩

lemma finishes_push {xs : List Opnd}
  (h : L.Has n (xs.map (fun x => .ins .pusharg [x]) ++ [.ins .ret []]))
  (hvs : xs.mapM (Opnd.value? env) = some vs) : L.Finishes m f n env vs := by
  induction xs generalizing n vs with
  | nil =>
    obtain rfl : [] = vs := by simpa using hvs
    intro s hs caller seen
    exact ⟨1, by rw [Trace.trace_emit (linear_ret h.head.1)]; rfl⟩
  | cons x xs ih =>
    obtain ⟨v, vs', hv, hvs', rfl⟩ := exists_of_mapM_cons hvs
    obtain ⟨hx, hrest⟩ := h.head
    rintro s rfl caller seen
    obtain ⟨k, hk⟩ := ih hrest hvs' s rfl caller (seen ++ [.push v])
    exact ⟨k + 1, by rw [Trace.trace_emit (linear_push hx hv), hk]; rfl⟩

end Listing
end Retarget.Wasm
