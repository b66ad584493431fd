import Mathlib.Data.List.GetD
import Retarget.Proofs.Admission

/-!
# Single instructions in generated code

The code made for an instruction is run beside it. It gets to its last line, to the label of the
block that the instruction branches to, or it returns; local variables and operands are then in
their registers.
-/

namespace Retarget.Wasm
open List Val
open IR (Kind Lit Op Sem)
variable {ks : List Kind} {vs : List Val} {n p q : Nat}

/-! ## Lowest operands -/

def bottom (n : Nat) (st : List Val) : List Val := st.drop (st.length - n)

section
variable {st low : List Val}

lemma length_bottom (h : n ≤ st.length) : (bottom n st).length = n := by
  rw [bottom, length_drop]
  omega

lemma bottom_append (h : n ≤ low.length) : bottom n (st ++ low) = bottom n low := by
  have hcnt : (st ++ low).length - n = st.length + (low.length - n) := by
    rw [length_append]
    omega
  rw [bottom, hcnt]
  simp [bottom]

lemma bottom_self (st : List Val) : bottom st.length st = st := by
  rw [bottom, Nat.sub_self, drop_zero]

variable {env : Env} {l : List Val}

lemma Agrees.drop (h : Agrees env l (st ++ low)) : Agrees env l low :=
  ⟨h.locals, (holds_append.1 h.opnds).2⟩

lemma Agrees.toBottom (h : Agrees env l st) (n : Nat) : Agrees env l (bottom n st) := by
  rw [← take_append_drop (st.length - n) st] at h
  exact h.drop

/-- Operands need not be moved if there are none, or if nothing is between them and the lowest
ones. -/
lemma Agrees.settle (h : Agrees env l (vs ++ low)) (hn : vs = [] ∨ low.length = n) :
  Agrees env l (vs ++ bottom n low) := by
  rcases hn with rfl | rfl
  · exact h.toBottom n
  · rwa [bottom_self]

end

/-! ## Moves -/

/-- The moves of operands of the given kinds from above `q` operands to above `p` operands. -/
def transfers (p q : Nat) (ks : List Kind) : List (Var × Var) :=
  (slotsAbove p ks).zip (slotsAbove q ks)

lemma transfers_cons (p q : Nat) (k : Kind) (ks : List Kind) :
  transfers p q (k :: ks) = (.op (p + ks.length) k, .op (q + ks.length) k) :: transfers p q ks :=
  rfl

lemma range_map_eq_transfers (p : Nat) (ks rest : List Kind) : ((List.range ks.length).map fun i =>
      (Var.op (p + ks.length - 1 - i) ((ks ++ rest).getD i .invalid),
        Var.op ((ks ++ rest).length - 1 - i) ((ks ++ rest).getD i .invalid))) =
      transfers p rest.length ks := by
  induction ks with
  | nil => rfl
  | cons k ks ih =>
    rw [transfers_cons, ← ih, length_cons, range_succ_eq_map, map_cons, map_map]
    congr 1
    · have hdst : p + (ks.length + 1) - 1 - 0 = p + ks.length := by omega
      have hsrc : (k :: ks ++ rest).length - 1 - 0 = rest.length + ks.length := by
        rw [cons_append, length_cons, length_append]
        omega
      rw [hsrc]
      rfl
    · refine map_congr_left fun i _ => ?_
      have hdst : p + (ks.length + 1) - 1 - (i + 1) = p + ks.length - 1 - i := by omega
      have hsrc : (k :: (ks ++ rest)).length - 1 - (i + 1) = (ks ++ rest).length - 1 - i := by
        rw [length_cons]
        omega
      simp only [Function.comp_apply, hdst, hsrc, cons_append, getD_cons_succ]

lemma filter_transfers_self (p : Nat) (ks : List Kind) :
  ((transfers p p ks).filter fun (d, s) => d ≠ s) = [] := by
  induction ks with
  | nil => rfl
  | cons k ks ih => simpa [transfers_cons] using ih

lemma filter_transfers_of_ne (h : p ≠ q) (ks : List Kind) :
  ((transfers p q ks).filter fun (d, s) => d ≠ s) = transfers p q ks := by
  induction ks with
  | nil => rfl
  | cons k ks ih =>
    have hne : Var.op (p + ks.length) k ≠ Var.op (q + ks.length) k := op_ne (by omega) k k
    rw [transfers_cons, filter_cons_of_pos (by simpa using hne), ih]

lemma Open.resultMoves_transfers {o : Open} (h : ks.length = o.rets.length) (rest : List Kind) :
  o.resultMoves (ks ++ rest) =
    .ok ((transfers o.start rest.length ks).filter fun (d, s) => d ≠ s) := by
  rw [resultMoves_eq (by rw [length_append]; omega), ← h, range_map_eq_transfers]

section
variable {m : Sem} {L : Listing} {env env' : Env}

lemma map_slotsAbove_congr (h : ∀ i k, n ≤ i → i < n + ks.length → env' (.op i k) = env (.op i k)) :
  (slotsAbove n ks).map env' = (slotsAbove n ks).map env := by
  induction ks with
  | nil => rfl
  | cons k ks ih =>
    rw [length_cons] at h
    rw [slotsAbove, map_cons, map_cons, h _ k (by omega) (by omega),
      ih fun i k' hi hi' => h i k' hi (by omega)]

/-- Operands get to lower places that are apart from theirs, and nothing else changes. -/
lemma execute_transfers (hpq : p + vs.length ≤ q)
  (hvs : (slotsAbove q (vs.map kind)).map env = vs.map lit) :
  ∃ env', execute m L.kindOf ((transfers p q (vs.map kind)).map moveLine) env = some env' ∧
    (slotsAbove p (vs.map kind)).map env' = vs.map lit ∧
    ∀ x, (∀ i k, x = .op i k → i < p ∨ p + vs.length ≤ i) → env' x = env x := by
  induction vs generalizing env with
  | nil => exact ⟨env, rfl, rfl, fun _ _ => rfl⟩
  | cons v vs ih =>
    rw [length_cons] at hpq
    obtain ⟨hv, hrest⟩ := List.cons.inj hvs
    rw [length_map] at hv
    let env1 := Function.update env (.op (p + vs.length) v.kind) v.lit
    have hrest1 : (slotsAbove q (vs.map kind)).map env1 = vs.map lit := by
      rw [← hrest]
      refine map_slotsAbove_congr fun i k hi hi' => Function.update_of_ne (op_ne ?_ _ _) _ _
      omega
    obtain ⟨env', hexec, hput, hsame⟩ := ih (by omega) hrest1
    refine ⟨env', ?_, ?_, ?_⟩
    · have hval : [Opnd.var (.op (q + vs.length) v.kind)].mapM (Opnd.value? env) =
          some [v.lit] := by simp [Opnd.value?, hv]
      rw [map_cons, transfers_cons, map_cons, length_map, ← hexec]
      exact execute_cons hval rfl _
    · have htop : env' (.op (p + vs.length) v.kind) = v.lit := by
        rw [hsame _ fun i k h => ?_]
        · exact Function.update_self ..
        · obtain ⟨rfl, -⟩ := Var.op.inj h
          exact .inr le_rfl
      rw [map_cons, slotsAbove, map_cons, length_map, htop, hput, map_cons]
    · intro x hx
      rw [hsame x fun i k h => (hx i k h).imp_right fun hi => by rw [length_cons] at hi; omega]
      refine Function.update_of_ne (fun h => ?_) _ _
      rcases hx _ _ h with hi | hi
      · omega
      · rw [length_cons] at hi
        omega

variable {o : Open} {b : Tgt} {l rest : List Val} {conditional : Bool}

lemma Agrees.transfer (h : Agrees env l (vs ++ rest)) (hn : n + vs.length ≤ rest.length) :
  ∃ env', execute m L.kindOf ((transfers n rest.length (vs.map kind)).map moveLine) env =
    some env' ∧ Agrees env' l (vs ++ bottom n rest) := by
  obtain ⟨hvs, -⟩ := holds_append.1 h.opnds
  obtain ⟨env', hexec, hput, hsame⟩ := execute_transfers hn hvs
  have hlen : (bottom n rest).length = n := length_bottom (by omega)
  refine ⟨env', hexec, fun i v hv => ?_, holds_append.2 ⟨by rwa [hlen], ?_⟩⟩
  · rw [hsame _ fun p k hp => by cases hp]
    exact h.locals i v hv
  · refine (h.drop.toBottom n).opnds.congr fun p k hp => hsame _ fun i k' hi => .inl ?_
    obtain ⟨rfl, -⟩ := Var.op.inj hi
    rwa [hlen] at hp

/-- What a branch carries gets to where the code behind it looks for it. A conditional branch moves
nothing. -/
lemma Open.Fits.carry (ho : o.Fits b) (hcarry : b.carries conditional (vs ++ rest).length)
  (hvs : vs.map kind = kinds b.types.reverse) (h : Agrees env l (vs ++ rest))
  {moves : List (Var × Var)} (hmoves : o.branchMoves ((vs ++ rest).map kind) = .ok moves) :
  (conditional = true → moves = []) ∧ ∃ env',
    execute m L.kindOf (moves.map moveLine) env = some env' ∧
    Agrees env' l (vs ++ bottom b.below rest) := by
  have hlen : vs.length = b.types.length := by simpa using congrArg List.length hvs
  rw [length_append] at hcarry
  -- nothing is moved unless the operands are above those below the block
  have hstay (hplace : vs = [] ∨ rest.length = b.below) (hnone : moves = []) :
      (conditional = true → moves = []) ∧ ∃ env',
        execute m L.kindOf (moves.map moveLine) env = some env' ∧
        Agrees env' l (vs ++ bottom b.below rest) := by
    rw [hnone]
    exact ⟨fun _ => rfl, env, rfl, h.settle hplace⟩
  simp only [Tgt.carries, Bool.or_eq_true, Bool.and_eq_true, List.isEmpty_iff, beq_iff_eq,
    Bool.not_eq_true', decide_eq_true_eq] at hcarry
  have hnil (htypes : b.types = []) : vs = [] :=
    eq_nil_of_length_eq_zero (by rw [hlen, htypes]; rfl)
  cases hloop : b.isLoop with
  | true =>
    have hnone : moves = [] := by
      rw [Open.branchMoves, if_pos (ho.loop.2 hloop)] at hmoves
      exact (Except.ok.inj hmoves).symm
    rw [hloop] at hcarry
    rcases hcarry with (htypes | ⟨-, hn⟩) | ⟨⟨⟨hnot, -⟩, -⟩, -⟩
    · exact hstay (.inl (hnil htypes)) hnone
    · exact hstay (.inr (by omega)) hnone
    · cases hnot
  | false =>
    have hret : b.types = b.arrow.rets := by rw [Tgt.types, hloop]; rfl
    have hcnt : (vs.map kind).length = o.rets.length := by
      rw [length_map, hlen, hret, ho.rets, length_kinds]
    rw [Open.branchMoves, if_neg (by rw [ho.loop, hloop]; exact Bool.false_ne_true),
      map_append, Open.resultMoves_transfers hcnt, length_map] at hmoves
    have hmoves := (Except.ok.inj hmoves).symm
    rw [hloop] at hcarry
    rcases hcarry with (htypes | ⟨hprm, hn⟩) | ⟨⟨⟨-, hcond⟩, hprm⟩, hn⟩
    · exact hstay (.inl (hnil htypes)) (by rw [hmoves, hnil htypes]; rfl)
    · have hsta : o.start = rest.length := by
        rw [ho.start, hprm.resolve_left Bool.false_ne_true, length_nil]
        omega
      exact hstay (.inr (by omega)) (by rw [hmoves, hsta, filter_transfers_self])
    · have hsta : o.start = b.below := by rw [ho.start, hprm, length_nil, Nat.add_zero]
      rw [hsta] at hmoves
      by_cases hsame : b.below = rest.length
      · rw [hsame, filter_transfers_self] at hmoves
        exact hstay (.inr hsame.symm) hmoves
      · rw [filter_transfers_of_ne hsame] at hmoves
        obtain ⟨env', hexec, hput⟩ := h.transfer (n := b.below) (by omega)
        exact ⟨fun hc => absurd (hcond.symm.trans hc) Bool.false_ne_true, env', hmoves ▸ hexec,
          hput⟩

lemma mapM_value? (env : Env) (xs : List Var) :
  (xs.map Opnd.var).mapM (Opnd.value? env) = some (xs.map env) := by
  induction xs with
  | nil => rfl
  | cons x xs ih => rw [map_cons, mapM_cons, ih]; rfl

lemma Agrees.finishes {f : IR.Fn} (h : Agrees env l (vs ++ rest))
  (hlns : L.Has n ((slotsAbove rest.length (vs.map kind)).map
    (fun x => .ins .pusharg [.var x]) ++ [.ins .ret []])) :
  L.Finishes m f n env (vs.map lit) := by
  rw [← (holds_append.1 h.opnds).1]
  refine Listing.finishes_push ?_ (mapM_value? env _)
  rwa [map_map]

end

open Listing Except
open IR.Pass (bind_ok mapM_ok)
variable {a : BitVec 32} {cond : Condition} {env : Env} {f : IR.Fn} {lines : List Line}
  {ts : List NumType} {m : Sem} {x y : Opnd}

/-! ## Lines of the listing -/

namespace Gen

/-- What has been made is the beginning of the listing. -/
structure Within (g : Gen) (L : Listing) : Prop where
  lines : g.lines.toList <+: L.lines
  tables : g.tables.toList <+: L.tables

variable {g g' : Gen} {L : Listing}

lemma Grows.within (h : g.Grows g') (hL : g'.Within L) : g.Within L :=
  ⟨h.lines.trans hL.lines, h.tables.trans hL.tables⟩

lemma Within.has (hL : g'.Within L) (h : g'.lines = g.lines ++ lines) :
  L.Has g.lines.size lines := by
  obtain ⟨r, hr⟩ := hL.lines
  refine ⟨r, ?_⟩
  rw [← hr, h]
  simp

lemma size_of_append (h : g'.lines = g.lines ++ lines) :
  g'.lines.size = g.lines.size + lines.length := by
  rw [h, ← Array.length_toList, Array.toList_appendList, length_append, Array.length_toList]

lemma size_turned (g : Gen) (b : Open) (bs : List Open) (ops : List Kind) :
  (g.turned b bs ops).lines.size = g.lines.size + 1 + 1 :=
  size_of_append (show _ = g.lines ++ [_, _] from rfl)

/-- The lines that have been added last are run, if all that they do is to set registers. -/
lemma Within.reaches (hg : g'.Within L) (hL : L.Sound) (h : g'.lines = g.lines ++ lines)
  {env' : Env} (hexec : execute m L.kindOf lines env = some env') :
  L.Reaches m f g.lines.size env g'.lines.size env' := by
  rw [size_of_append h]
  exact reaches_execute hL (hg.has h) hexec

lemma Within.reaches_label (hg : g'.Within L) {l : Label}
  (h : g'.lines = g.lines ++ [Line.label l]) :
  L.Reaches m f g.lines.size env g'.lines.size env := by
  rw [size_of_append h]
  exact Listing.reaches_label (hg.has h).head.1

end Gen

/-! ## Where code is run -/

/-- The blocks around some code, with the operands below its own. -/
structure Setting (C : Scope) where
  tgts : List Tgt
  blks : List Open
  low : List Val
  fits : List.Forall₂ Open.Fits blks tgts
  length_low : low.length = (Track.mk C tgts true).below
  nested : ∀ b ∈ tgts, b.below ≤ low.length

namespace Setting
variable {C : Scope}

abbrev track (S : Setting C) : Track := ⟨C, S.tgts, true⟩
def outermost (C : Scope) : Setting C := ⟨[], [], [], .nil, rfl, by simp⟩

lemma length_append_low (S : Setting C) {below : List NumType}
  (hvs : vs.map kind = kinds below) : (vs ++ S.low).length = S.track.below + below.length := by
  have hlen : vs.length = below.length := by simpa using congrArg List.length hvs
  rw [length_append, S.length_low, hlen, Nat.add_comm]

def enter (S : Setting C) (isLoop : Bool) (a : Arrow) (o : Open) (below : List NumType)
  (vs : List Val) (hvs : vs.map kind = kinds below)
  (ho : o.Fits ⟨isLoop, a, S.track.below + below.length⟩) : Setting C where
  tgts := ⟨isLoop, a, S.track.below + below.length⟩ :: S.tgts
  blks := o :: S.blks
  low := vs ++ S.low
  fits := .cons ho S.fits
  length_low := S.length_append_low hvs
  nested := by
    intro b hb
    rcases List.mem_cons.1 hb with rfl | hb
    · exact (S.length_append_low hvs).ge
    · rw [List.length_append]
      exact (S.nested b hb).trans (Nat.le_add_left _ _)

end Setting

/-- What becomes of code that is run from line `n` to line `n'`, by how it ends. What it leaves is
on top of the operands `above`, which belong to the code around it. -/
def Lands {C : Scope} (S : Setting C) (L : Listing) (m : Sem) (f : IR.Fn) (n n' : Nat)
    (env : Env)
    (above : List Val) (out : List NumType) : Outcome → Prop
  | .fall l st => st.map kind = kinds out ∧ l.map kind = kinds C.locals ∧
    ∃ env', L.Reaches m f n env n' env' ∧ Agrees env' l (st ++ (above ++ S.low))
  | .branch d l st => ∃ o b vs, S.blks[d]? = some o ∧ S.tgts[d]? = some b ∧
    opnds? (b.types.map .num) st = some vs ∧ vs.map kind = kinds b.types.reverse ∧
    l.map kind = kinds C.locals ∧
    ∀ p, L.At p (.label o.tgt) →
      ∃ env', L.Reaches m f n env (p + 1) env' ∧ Agrees env' l (vs ++ bottom b.below S.low)
  | .ret st => ∃ vs, opnds? (C.rets.map .num) st = some vs ∧
    L.Finishes m f n env (vs.map lit)
  | _ => True

/-- What is known before an instruction. The code has the operands `st₀` on its stack, with those
of a comparison that has been left to the instruction. -/
structure Stands {C : Scope} (S : Setting C) (g : Gen) (prev next : Option Ins)
    (ts ts0 : List NumType) (l st st0 : List Val) (env : Env) : Prop where
  defers : S.track.Defers prev next ts ts0
  deferred : Deferred prev next l st st0
  types : st.map kind = kinds ts
  types0 : st0.map kind = kinds ts0
  locals : l.map kind = kinds C.locals
  ops : g.ops = kinds ts0 ++ S.low.map kind
  blks : g.blks = S.blks
  agrees : Agrees env l (st0 ++ S.low)

section
variable {c : Ctx} {C : Scope} {S : Setting C} {L : Listing}
  {n n' n'' : Nat} {env' : Env} {above : List Val} {out : List NumType}

lemma Lands.of_reaches {o : Outcome} (h : L.Reaches m f n env n' env')
  (ho : Lands S L m f n' n'' env' above out o) : Lands S L m f n n'' env above out o := by
  cases o with
  | fall l st =>
    obtain ⟨hst, hl, env'', hrun, hagr⟩ := ho
    exact ⟨hst, hl, env'', h.trans hrun, hagr⟩
  | branch d l st =>
    obtain ⟨o, b, vs, hblk, hb, hvs, hkinds, hl, hgoes⟩ := ho
    refine ⟨o, b, vs, hblk, hb, hvs, hkinds, hl, fun p hp => ?_⟩
    obtain ⟨env'', hrun, hagr⟩ := hgoes p hp
    exact ⟨env'', h.trans hrun, hagr⟩
  | ret st =>
    obtain ⟨vs, hvs, hfinishes⟩ := ho
    exact ⟨vs, hvs, h.finishes hfinishes⟩
  | trap | stuck | timeout => trivial

/-! ## Operands of branches -/

lemma Val.kind_num (t : NumType) (v : Val) : v.kind = t.kind ↔ v.type = .num t := by
  cases v <;> cases t <;> simp [kind, type, NumType.kind]

lemma map_type_eq : vs.map type = ts.map .num ↔ vs.map kind = kinds ts := by
  induction vs generalizing ts with
  | nil => cases ts <;> simp
  | cons v vs ih =>
    cases ts with
    | nil => simp
    | cons t ts => simp [ih, kind_num]

lemma opnds?_of_kinds {rest : List NumType} {st : List Val}
  (h : st.map kind = kinds (ts.reverse ++ rest)) : ∃ vs r, st = vs ++ r ∧ vs.map kind =
  kinds ts.reverse ∧ r.map kind = kinds rest ∧ opnds? (ts.map .num) st = some vs := by
  have hlen : st.length = ts.length + rest.length := by simpa using congrArg List.length h
  rw [← take_append_drop ts.length st, map_append, kinds_append] at h
  obtain ⟨hvs, hr⟩ := append_inj h (by simp; omega)
  refine ⟨st.take ts.length, st.drop ts.length, (take_append_drop _ _).symm, hvs, hr, ?_⟩
  rw [opnds?, length_map, ← map_reverse, if_pos (map_type_eq.2 hvs)]

variable {d : Nat} {b : Tgt} {rest : List NumType} {l st : List Val}

section
variable (S : Setting C) (hb : S.tgts[d]? = some b)
include hb

lemma Setting.tgt (hst : st.map kind = kinds (b.types.reverse ++ rest)) : ∃ o vs r,
  S.blks[d]? = some o ∧ o.Fits b ∧ opnds? (b.types.map .num) st = some vs ∧ vs.map kind =
  kinds b.types.reverse ∧ st = vs ++ r ∧ bottom b.below (r ++ S.low) = bottom b.below S.low := by
  obtain ⟨hd, rfl⟩ := List.getElem?_eq_some_iff.1 hb
  have hd' : d < S.blks.length := S.fits.length_eq ▸ hd
  obtain ⟨vs, r, hsplit, hvs, -, hops⟩ := opnds?_of_kinds hst
  exact ⟨S.blks[d], vs, r, List.getElem?_eq_getElem hd', S.fits.get hd' hd, hops, hvs, hsplit,
    bottom_append (S.nested _ (getElem_mem hd))⟩

/-- A branch brings the operands that it carries to where the code behind it looks for them. -/
lemma Setting.carry {conditional : Bool} (hts : ts = b.types.reverse ++ rest)
  (hcarry : S.track.allows b conditional ts) (hst : st.map kind = kinds ts) : ∃ o vs, S.blks[d]? =
  some o ∧ opnds? (b.types.map .num) st = some vs ∧ vs.map kind = kinds b.types.reverse ∧
  ∀ env moves, Agrees env l (st ++ S.low) → o.branchMoves (kinds ts ++ S.low.map kind) =
  .ok moves → (conditional = true → moves = []) ∧ ∃ env', execute m L.kindOf
  (moves.map moveLine) env = some env' ∧ Agrees env' l (vs ++ bottom b.below S.low) := by
  obtain ⟨o, vs, r, ho, hfits, hops, hvs, rfl, hbottom⟩ := S.tgt hb (hts ▸ hst)
  refine ⟨o, vs, ho, hops, hvs, fun env moves hagr hmoves => ?_⟩
  have hlen : (vs ++ (r ++ S.low)).length = S.track.below + ts.length := by
    rw [← append_assoc]
    exact S.length_append_low hst
  rw [← hst, ← map_append, append_assoc] at hmoves
  rw [append_assoc] at hagr
  rw [← hbottom]
  exact hfits.carry (by rwa [hlen]) hvs hagr hmoves

/-- A jump by a table finds the operands that it carries where the code behind it looks for them. -/
lemma Setting.settle (hts : ts = b.types.reverse ++ rest)
  (hplace : b.inPlace (S.track.below + ts.length)) (hst : st.map kind = kinds ts) :
  ∃ o vs, S.blks[d]? = some o ∧ opnds? (b.types.map .num) st = some vs ∧
    vs.map kind = kinds b.types.reverse ∧
    ∀ env, Agrees env l (st ++ S.low) → Agrees env l (vs ++ bottom b.below S.low) := by
  obtain ⟨o, vs, r, ho, -, hops, hvs, rfl, hbottom⟩ := S.tgt hb (hts ▸ hst)
  refine ⟨o, vs, ho, hops, hvs, fun env hagr => ?_⟩
  have hlen : vs.length = b.types.length := by simpa using congrArg List.length hvs
  rw [← S.length_append_low hst, Tgt.inPlace, Bool.or_eq_true, List.isEmpty_iff, beq_iff_eq,
    append_assoc, length_append] at hplace
  rw [append_assoc] at hagr
  rw [← hbottom]
  refine hagr.settle (hplace.imp (fun htypes => ?_) fun hn => by omega)
  exact eq_nil_of_length_eq_zero (by rw [hlen, htypes]; rfl)

end

/-! ## Single instructions -/

variable {g g1 : Gen} {prev next : Option Ins} {i : Ins} {ts0 : List NumType}
  {st0 l' st' : List Val}

structure Ins.Placed (i : Ins) (S : Setting C) (c : Ctx) (L : Listing) (m : Sem)
    (g g1 : Gen) (prev next : Option Ins) (ts out : List NumType) : Prop where
  rem : m.ExactRems ∨ i.isSignedRem = false
  followed : i.Followed S.track ts out
  supported : i.isSupported
  inside : next.isSome
  step : g.step c (kinds C.locals) prev next i = .ok g1
  within : g1.Within L

lemma Deferred.append (h : Deferred prev next l st st0) (low : List Val) :
  Deferred prev next l (st ++ low) (st0 ++ low) := by
  unfold Deferred at h ⊢
  split
  · rename_i hfused
    rw [if_pos hfused] at h
    obtain ⟨i, hi, hcps⟩ := h
    exact ⟨i, hi, hcps.append low⟩
  · rename_i hfused
    rw [if_neg hfused] at h
    rw [h]

lemma deferred_of_not (h : prev.any Ins.isCmp = false) (next : Option Ins) (l st : List Val) :
  Deferred prev next l st st := by
  rw [Deferred, h, Bool.false_and, if_neg Bool.false_ne_true]

lemma Stands.of_done (hprev : prev.any Ins.isCmp = false) (hst : st.map kind = kinds ts)
  (hl : l.map kind = kinds C.locals) (hops : g.ops = kinds ts ++ S.low.map kind)
  (hbks : g.blks = S.blks) (hagr : Agrees env l (st ++ S.low)) :
  Stands S g prev next ts ts l st st env :=
  ⟨Track.defers_of_not hprev _ _, deferred_of_not hprev _ _ _, hst, hst, hl, hops, hbks, hagr⟩

/-- Unless it has been left a comparison, the code has all operands on its stack. -/
lemma Stands.of_straight (h : Stands S g prev (some i) ts ts0 l st st0 env)
  (hi : i.takesCond = false) :
  g.ops = kinds ts ++ S.low.map kind ∧ Agrees env l (st ++ S.low) := by
  obtain rfl : ts0 = ts := h.defers.eq hi
  obtain rfl : st0 = st := h.deferred.eq hi
  exact ⟨h.ops, h.agrees⟩

lemma Computes.locals_eq (h : Computes l i st l' st') (hi : i.isCmp) : l' = l := by
  cases h <;> first | rfl | cases hi

/-- An instruction that neither chooses nor sends control anywhere. -/
lemma Ins.Placed.falls_straight (hm : m.TwosCompl) (hc : c.Serves C) (hL : L.Sound)
  (h : i.Placed S c L m g g1 prev next ts out) (hs : Stands S g prev (some i) ts ts0 l st st0 env)
  (hi : i.isStraight) (hcps : Computes l i st l' st') :
  ∃ env' out0 st0', L.Reaches m f g.lines.size env g1.lines.size env' ∧
    Stands S g1 (some i) next out out0 l' st' st0' env' := by
  obtain ⟨hops, hagr⟩ := hs.of_straight (Ins.takesCond_of_isStraight hi)
  obtain ⟨lines, hlns⟩ := hc.admits_followed hi h.followed h.supported (S.low.map kind)
  have hstack : kinds ts ++ S.low.map kind = (st ++ S.low).map kind := by rw [map_append, hs.types]
  obtain ⟨hout, hl', env', hexec, hagr'⟩ := plainLines_spec (L := L) hm h.rem
    (hcps.append S.low) hs.locals (hstack ▸ hlns) hagr
  have hst' : st'.map kind = kinds out := by
    rw [map_append] at hout
    exact (append_cancel_right hout).symm
  have hstep := h.step
  rw [Gen.step_straight hi, Ins.isFused_eq h.inside] at hstep
  cases hfused : i.isCmp && next.any Ins.takesCond with
  | true =>
    -- the operands stay where they are for the next instruction
    rw [hfused] at hstep
    obtain rfl : g = g1 := ok.inj hstep
    obtain rfl := hcps.locals_eq (Bool.and_eq_true_iff.1 hfused).1
    refine ⟨env, ts, st, .refl _ _ _ _ _, ?_, ?_, hst', hs.types, hl', hops, hs.blks, hagr⟩
    · rw [Track.Defers, Option.any_some, hfused]
      exact ⟨i, rfl, h.followed⟩
    · rw [Deferred, Option.any_some, hfused]
      exact ⟨i, rfl, hcps⟩
  | false =>
    rw [hfused, hops, hlns] at hstep
    cases hstep
    refine ⟨env', out, st', h.within.reaches hL rfl hexec, ?_, ?_, hst', hst', hl', rfl, hs.blks,
      hagr'⟩
    · rw [Track.Defers, Option.any_some, hfused, if_neg Bool.false_ne_true]
    · rw [Deferred, Option.any_some, hfused, if_neg Bool.false_ne_true]

/-- The code for a condition is run up to its branch, which is taken if the condition holds. -/
lemma Stands.decides (hm : m.TwosCompl)
  (hs : Stands S g prev (some i) ts ts0 l (.i32 a :: st) st0 env) (hi : i.takesCond)
  {inverse : Bool} (hcond : condition prev inverse g.ops = .ok cond)
  (hlns : cond.opnds g.ops.length = .ok (lines, x, y)) : Agrees env l (st ++ S.low) ∧
    cond.Decides L m env lines x y ((st ++ S.low).map kind) ((a != 0) != inverse) := by
  have hops : g.ops = (st0 ++ S.low).map kind := by rw [hs.ops, ← hs.types0, map_append]
  rw [hops] at hcond hlns
  exact condition_spec hm hi (hs.deferred.append S.low) hcond hlns hs.agrees

lemma Condition.Decides.reaches (hL : L.Sound) {tail : List Line}
  {ops : List Kind} {taken : Bool} {label : Label} (h : cond.Decides L m env lines x y ops taken)
  (hlns : L.Has n (lines ++ .ins cond.op [x, y, .label label] :: tail)) :
  ∃ env', SameBelow ops.length env env' ∧ L.Has (n + lines.length + 1) tail ∧
  (taken = false → L.Reaches m f n env (n + lines.length + 1) env') ∧
  (taken = true → ∀ p, L.At p (.label label) → L.Reaches m f n env (p + 1) env') := by
  obtain ⟨-, hfam, env', u, v, hexec, hsame, hu, hv, hholds⟩ := h
  obtain ⟨hhas, hrest⟩ := hlns.append
  obtain ⟨hbranch, htail⟩ := hrest.head
  have hreach := reaches_execute (f := f) hL hhas hexec
  refine ⟨env', hsame, htail, fun htaken => ?_, fun htaken p hp => ?_⟩
  · exact hreach.trans (reaches_untaken hbranch hfam hu hv (hholds.trans htaken))
  · exact hreach.trans (reaches_taken hL hbranch hfam hu hv (hholds.trans htaken) hp)

lemma Ins.Placed.falls_select (hm : m.TwosCompl) (hL : L.Sound) {v w : Val} {r : List Val}
  (h : Ins.Placed .select S c L m g g1 prev next ts out)
  (hs : Stands S g prev (some .select) ts ts0 l (.i32 a :: w :: v :: r) st0 env)
  (htype : v.type = w.type) : ∃ env', L.Reaches m f g.lines.size env g1.lines.size env' ∧
    Stands S g1 (some .select) next out out l ((if a = 0 then w else v) :: r)
      ((if a = 0 then w else v) :: r) env' := by
  have hkind := kind_eq_of_type htype
  obtain ⟨cond, hcond, hstep⟩ := bind_ok.1 h.step
  obtain ⟨⟨k2, ops⟩, hk2, hstep⟩ := bind_ok.1 hstep
  obtain ⟨⟨k1, rest⟩, hk1, hstep⟩ := bind_ok.1 hstep
  obtain ⟨-, -, hstep⟩ := bind_ok.1 hstep
  obtain ⟨⟨lines, x, y⟩, hlns, hstep⟩ := bind_ok.1 hstep
  obtain ⟨hagr, hdecides⟩ := hs.decides hm rfl hcond hlns
  rw [hdecides.1] at hk2
  obtain ⟨rfl, rfl⟩ := Prod.mk.inj (ok.inj hk2)
  obtain ⟨rfl, rfl⟩ := Prod.mk.inj (ok.inj hk1)
  simp only [length_map] at hstep
  let d : Var := .op (r ++ S.low).length v.kind
  let tail : List Line :=
    [.ins .mov [.var d, .var (.op (v :: (r ++ S.low)).length w.kind)], .label (.chosen g.count)]
  obtain ⟨hadded, hops, hbks⟩ : g1.lines = g.lines ++ (.ins .mov [.var d, .var d] ::
      (lines ++ .ins cond.op [x, y, .label (.chosen g.count)] :: tail)) ∧
      g1.ops = v.kind :: (r ++ S.low).map kind ∧ g1.blks = g.blks := by
    rw [← ok.inj hstep]
    exact ⟨rfl, rfl, rfl⟩
  obtain ⟨hkeep, hhas⟩ := (h.within.has hadded).head
  have hsta : L.Reaches m f g.lines.size env (g.lines.size + 1) env := by
    have hreach : L.Reaches m f g.lines.size env _ _ := reaches_mov hL hkeep
    rwa [Function.update_eq_self] at hreach
  obtain ⟨env', hsame, htail, huntaken, htaken⟩ := hdecides.reaches hL hhas
  obtain ⟨hmove, hend⟩ := htail.head
  have hlabel := hend.head.1
  have hagr' : Agrees env' l (w :: v :: (r ++ S.low)) := hagr.same hsame (by simp)
  have hsize : g1.lines.size = g.lines.size + 1 + lines.length + 1 + 1 + 1 := by
    rw [Gen.size_of_append hadded, length_cons, length_append]
    simp only [tail, length_cons, length_nil]
    omega
  obtain ⟨env'', hreach, hput⟩ : ∃ env'', L.Reaches m f g.lines.size env g1.lines.size env'' ∧
      Agrees env'' l ((if a = 0 then w else v) :: (r ++ S.low)) := by
    rw [hsize]
    by_cases ha : a = 0
    · refine ⟨_, (hsta.trans (huntaken (by simp [ha]))).trans
        ((reaches_mov hL hmove).trans (reaches_label hlabel)), ?_⟩
      rw [if_pos ha, hagr'.top]
      refine hagr'.pop.pop.push ((SameBelow.refl _ env').update le_rfl _ _) ?_
      rw [← hkind]
      exact Function.update_self ..
    · refine ⟨env', hsta.trans (htaken (by simpa using ha) _ hlabel), ?_⟩
      rw [if_neg ha]
      exact hagr'.pop
  obtain ⟨t, below, rfl, rfl⟩ : ∃ t below, ts = .i32 :: t :: t :: below ∧ out = t :: below := by
    cases h.followed with
    | arrow ha => cases ha
    | select t below => exact ⟨t, below, rfl, rfl⟩
  obtain ⟨-, hw, hv, hr⟩ : _ ∧ w.kind = t.kind ∧ v.kind = t.kind ∧
    r.map kind = kinds below := by
    simpa using hs.types
  refine ⟨env'', hreach, .of_done rfl ?_ hs.locals ?_ (hbks.trans hs.blks) hput⟩
  · rw [map_cons, hr, kinds_cons]
    split
    · rw [hw]
    · rw [hv]
  · rw [hops, map_append, hv, hr]
    rfl

lemma Gen.blkAt_eq_ok {o : Open} : g.blkAt d = .ok o ↔ g.blks[d]? = some o := by
  unfold Gen.blkAt orFault
  cases g.blks[d]? <;> simp

/-- A branch that is taken only if a condition holds. -/
lemma Ins.Placed.brIf (hm : m.TwosCompl) (hL : L.Sound)
  (h : Ins.Placed (.brIf d) S c L m g g1 prev next ts out)
  (hs : Stands S g prev (some (.brIf d)) ts ts0 l (.i32 a :: st) st0 env) :
  (a = 0 → ∃ env', L.Reaches m f g.lines.size env g1.lines.size env' ∧
    Stands S g1 (some (.brIf d)) next out out l st st env') ∧
  (a ≠ 0 → ∀ n' out', Lands S L m f g.lines.size n' env [] out' (.branch d l st)) := by
  obtain ⟨cond, hcond, hstep⟩ := bind_ok.1 h.step
  obtain ⟨⟨lines, x, y⟩, hlns, hstep⟩ := bind_ok.1 hstep
  obtain ⟨o', ho', hstep⟩ := bind_ok.1 hstep
  obtain ⟨moves, hmoves, hstep⟩ := bind_ok.1 hstep
  obtain rfl := ok.inj hstep
  obtain ⟨hagr, hdecides⟩ := hs.decides hm rfl hcond hlns
  obtain ⟨b, below, hb, rfl, hout, hcarry⟩ : ∃ b below, S.tgts[d]? = some b ∧
      ts = .i32 :: out ∧ out = b.types.reverse ++ below ∧ S.track.allows b true out := by
    cases h.followed with
    | arrow ha => cases ha
    | brIf hb hts hcarry => exact ⟨_, _, hb, rfl, hts, hcarry⟩
  have hst : st.map kind = kinds out := (List.cons.inj hs.types).2
  have hrest : cond.rest = kinds out ++ S.low.map kind := by rw [hdecides.1, map_append, hst]
  obtain ⟨o, vs, ho, hops, hvs, hmoved⟩ := S.carry (m := m) (L := L) hb hout hcarry hst
  rw [Gen.blkAt_eq_ok, hs.blks, ho] at ho'
  obtain rfl := Option.some.inj ho'
  rw [hrest] at hmoves
  obtain rfl : moves = [] := (hmoved env moves hagr hmoves).1 rfl
  have hadded : (g.add (lines ++ [].map moveLine ++ [.ins cond.op [x, y, .label o.tgt]])
      cond.rest).lines = g.lines ++ (lines ++ [.ins cond.op [x, y, .label o.tgt]]) := by
    rw [map_nil, append_nil]
    rfl
  obtain ⟨env', hsame, -, huntaken, htaken⟩ := hdecides.reaches hL (h.within.has hadded)
  have hagr' : Agrees env' l (st ++ S.low) := hagr.same hsame (by simp)
  constructor
  · rintro rfl
    refine ⟨env', ?_, .of_done rfl hst hs.locals hrest hs.blks hagr'⟩
    rw [Gen.size_of_append hadded, length_append]
    exact huntaken rfl
  · intro ha n' out'
    refine ⟨o, b, vs, ho, hb, hops, hvs, hs.locals, fun p hp => ?_⟩
    obtain ⟨-, env'', hexec, hput⟩ := hmoved env' [] hagr' hmoves
    obtain rfl := Option.some.inj hexec
    exact ⟨env', htaken (by simpa using ha) p hp, hput⟩

lemma Ins.Placed.br (hL : L.Sound) (h : Ins.Placed (.br d) S c L m g g1 prev next ts out)
  (hs : Stands S g prev (some (.br d)) ts ts0 l st st0 env) (n' : Nat) (out' : List NumType) :
  Lands S L m f g.lines.size n' env [] out' (.branch d l st) := by
  obtain ⟨hops, hagr⟩ := hs.of_straight rfl
  obtain ⟨o', ho', hstep⟩ := bind_ok.1 h.step
  obtain ⟨moves, hmoves, hstep⟩ := bind_ok.1 hstep
  obtain rfl := ok.inj hstep
  obtain ⟨b, below, hb, hts, hcarry⟩ : ∃ b below, S.tgts[d]? = some b ∧
      ts = b.types.reverse ++ below ∧ S.track.allows b false ts := by
    cases h.followed with
    | arrow ha => cases ha
    | br hb hts hcarry => exact ⟨_, _, hb, hts, hcarry⟩
  obtain ⟨o, vs, ho, hvs, hkinds, hmoved⟩ := S.carry hb hts hcarry hs.types
  rw [Gen.blkAt_eq_ok, hs.blks, ho] at ho'
  obtain rfl := Option.some.inj ho'
  rw [hops] at hmoves
  obtain ⟨-, env', hexec, hput⟩ := hmoved env moves hagr hmoves
  obtain ⟨hhas, hbra⟩ := (h.within.has rfl).append
  refine ⟨o, b, vs, ho, hb, hvs, hkinds, hs.locals, fun p hp => ⟨env', ?_, hput⟩⟩
  exact (reaches_execute hL hhas hexec).trans (reaches_bra hL hbra.head.1 hp)

/-- The code of a jump by table `t`, for the operand with `q` operands below it. -/
def tableLines (q : Nat) (labels : List Label) (other : Label) (t : Nat) : List Line :=
  [.ins .conv [.var (.op q .u32), .var (.op q .s32)],
    .ins .ble [.lit (.ofInt .u32 labels.length), .var (.op q .u32), .label other],
    .ins .switch [.var (.op q .u32), .table t]]

/-- A jump by a table goes to the label that the number of an operand stands for. -/
lemma reaches_table (hm : m.TwosCompl) (hL : L.Sound)
  {t : Nat} {labels : List Label} {other : Label} (hlns : L.Has n (tableLines q labels other t))
  (ht : L.tables[t]? = some ⟨labels, other⟩) (hcnt : labels.length < 2 ^ 32)
  (ha : env (.op q .s32) = .word .s32 a) : ∃ env', SameBelow q env env' ∧
  ∀ p, L.At p (.label (labels.getD a.toNat other)) → L.Reaches m f n env (p + 1) env' := by
  obtain ⟨-, hrest⟩ := hlns.head
  obtain ⟨hble, hrest⟩ := hrest.head
  have hswitch := hrest.head.1
  let env' := Function.update env (.op q .u32) (.word .u32 a)
  have hindex : env' (.op q .u32) = .word .u32 a := Function.update_self ..
  have hsta : L.Reaches m f n env (n + 1) env' := by
    have hsigned : Kind.s32.isInt := rfl
    have huns : Kind.u32.isInt := rfl
    have hexec : execute m L.kindOf [.ins .conv [.var (.op q .u32), .var (.op q .s32)]] env =
        some env' := execute_conv hm hsigned rfl huns rfl ha []
    exact reaches_execute hL (prefix_append [_] [_, _] |>.trans hlns) hexec
  have hmod : labels.length % 2 ^ 32 = labels.length := Nat.mod_eq_of_lt hcnt
  have hsize : (Opnd.lit (.ofInt .u32 labels.length)).value? env' =
      some (.word .u32 (BitVec.ofNat 32 labels.length)) := by
    simp only [Lit.word, BitVec.toNat_ofNat, hmod]
    rfl
  have hholds : m.holds .ble (.word .u32 (BitVec.ofNat 32 labels.length)) (.word .u32 a) =
      decide (labels.length ≤ a.toNat) := by
    rw [hm.holds .ble _ a rfl rfl rfl]
    simp only [Op.onCompared, BitVec.ule, BitVec.toNat_ofNat, hmod]
    rfl
  refine ⟨env', (SameBelow.refl q env).update le_rfl _ _, fun p hp => hsta.trans ?_⟩
  by_cases hle : labels.length ≤ a.toNat
  · rw [getD_eq_getElem?_getD, getElem?_eq_none hle] at hp
    exact reaches_taken hL hble rfl hsize (value?_var hindex) (by simpa [hholds] using hle) hp
  · have hnumber : (env' (.op q .u32)).number = a.toNat := by
      rw [hindex]
      rfl
    exact (reaches_untaken hble rfl hsize (value?_var hindex)
      (by simpa [hholds] using hle)).trans
      (reaches_switch hL hswitch ht hnumber hp)

lemma Ins.Placed.brTable (hm : m.TwosCompl) (hL : L.Sound) {ds : List Nat} {other : Nat}
  (h : Ins.Placed (.brTable ds other) S c L m g g1 prev next ts out)
  (hs : Stands S g prev (some (.brTable ds other)) ts ts0 l (.i32 a :: st) st0 env) (n' : Nat)
  (out' : List NumType) :
  Lands S L m f g.lines.size n' env [] out' (.branch (ds.getD a.toNat other) l st) := by
  obtain ⟨hops, hagr⟩ := hs.of_straight rfl
  obtain ⟨b, bs, below, hb, hbs, hsame, hcnt, rfl, hout, hcarry⟩ : ∃ b bs below,
      S.tgts[other]? = some b ∧ ds.mapM (S.tgts[·]?) = some bs ∧
      (∀ b' ∈ bs, b'.types = b.types) ∧ ds.length < 2 ^ 32 ∧ ts = .i32 :: out ∧
      out = b.types.reverse ++ below ∧ S.track.allowsAll (b :: bs) out := by
    cases h.followed with
    | arrow ha => cases ha
    | brTable hb hbs hsame hcnt hts hcarry =>
        exact ⟨_, _, _, hb, hbs, hsame, hcnt, rfl, hts, hcarry⟩
  have hst : st.map kind = kinds out := (List.cons.inj hs.types).2
  -- any of the targets finds its operands
  have htgt : ∀ d ∈ other :: ds, ∃ b', S.tgts[d]? = some b' ∧ b'.types = b.types ∧
      b'.inPlace (S.track.below + out.length) := by
    intro d hd
    have hall : ∀ b' ∈ b :: bs, b'.inPlace (S.track.below + out.length) :=
      all_eq_true.1 hcarry
    rcases mem_cons.1 hd with rfl | hd
    · exact ⟨b, hb, rfl, hall b (.head _)⟩
    · obtain ⟨b', hb', hget⟩ := exists_mem_of_mapM hbs hd
      exact ⟨b', hget, hsame b' hb', hall b' (.tail _ hb')⟩
  let blk (d : Nat) : Open := S.blks[d]?.getD default
  have hblk : ∀ d ∈ other :: ds, g.blkAt d = .ok (blk d) := by
    intro d hd
    obtain ⟨b', hb', -⟩ := htgt d hd
    obtain ⟨o, ho, -⟩ := exists_fits (T := S.track) (hs.blks ▸ S.fits) hb'
    simp only [Gen.blkAt, blk, ← hs.blks, ho, orFault, Option.getD_some]
  have hstep := h.step
  simp only [Gen.step, mapM_ok fun d hd => hblk d (.tail _ hd),
    hblk other (.head _), hops, kinds_cons, cons_append] at hstep
  let labels : List Label := (ds.map blk).map Open.tgt
  obtain ⟨hadded, htbs⟩ : g1.lines = g.lines ++ tableLines (st ++ S.low).length labels
      (blk other).tgt g.tables.size ∧
      g1.tables = g.tables.push ⟨labels, (blk other).tgt⟩ := by
    have hsize : (kinds out ++ S.low.map kind).length = (st ++ S.low).length := by
      rw [← hst, ← map_append, length_map]
    have hcases : labels.length = (ds.map blk).length := length_map _
    rw [← ok.inj hstep, hsize, tableLines, hcases]
    exact ⟨rfl, rfl⟩
  have htbl : L.tables[g.tables.size]? = some ⟨labels, (blk other).tgt⟩ := by
    obtain ⟨r, hr⟩ := h.within.tables
    rw [← hr, htbs]
    simp
  obtain ⟨env', hbelow, hgoes⟩ := reaches_table hm hL (h.within.has hadded) htbl
    (by rwa [length_map, length_map]) hagr.top
  have hlabel : labels.getD a.toNat (blk other).tgt =
    (blk (ds.getD a.toNat other)).tgt := by
    rw [getD_map, getD_map]
  have hmem : ds.getD a.toNat other ∈ other :: ds := by
    rw [getD_eq_getElem?_getD]
    cases hget : ds[a.toNat]? with
    | none => exact .head _
    | some d => exact .tail _ (mem_of_getElem? hget)
  obtain ⟨b', hb', htypes, hplace⟩ := htgt _ hmem
  obtain ⟨o, vs, ho, hvs, hkinds, hput⟩ := S.settle hb' (htypes ▸ hout) hplace hst
  have hblocko : blk (ds.getD a.toNat other) = o := by simp only [blk, ho, Option.getD_some]
  refine ⟨o, b', vs, ho, hb', hvs, hkinds, hs.locals, fun p hp => ⟨env', hgoes p ?_, hput env' ?_⟩⟩
  · rwa [hlabel, hblocko]
  · exact hagr.pop.same hbelow le_rfl

lemma Ins.Placed.return_ (hc : c.Serves C) (h : Ins.Placed .return_ S c L m g g1 prev next ts out)
  (hs : Stands S g prev (some .return_) ts ts0 l st st0 env) (n' : Nat) (out' : List NumType) :
  Lands S L m f g.lines.size n' env [] out' (.ret st) := by
  obtain ⟨hops, hagr⟩ := hs.of_straight rfl
  obtain rfl : ts = C.rets.reverse ++ out := by
    cases h.followed with
    | arrow ha => cases ha
    | return_ => rfl
  obtain ⟨vs, r, rfl, hvs, hr, hret⟩ := opnds?_of_kinds hs.types
  have hstack : g.ops = vs.map kind ++ (r ++ S.low).map kind := by
    rw [hops, ← hs.types, map_append, map_append, append_assoc]
  have hstep := h.step
  rw [Gen.step_straight rfl, hstack] at hstep
  rw [kinds_reverse, ← hc.rets] at hvs
  simp only [Ctx.plainLines, ← hvs, pushArgs_eq, length_map] at hstep
  cases hstep
  rw [append_assoc] at hagr
  exact ⟨vs, hret, hagr.finishes (h.within.has rfl)⟩

section
variable (hm : m.TwosCompl) (hc : c.Serves C) (hL : L.Sound)
  (h : i.Placed S c L m g g1 prev next ts out) (hs : Stands S g prev (some i) ts ts0 l st st0 env)
include hm hc hL h hs

lemma Ins.Placed.jumps {o : Outcome} (hjumps : Jumps l i st o) (n' : Nat) (out' : List NumType) :
  Lands S L m f g.lines.size n' env [] out' o := by
  cases hjumps with
  | br => exact h.br hL hs n' out'
  | taken ha => exact (h.brIf hm hL hs).2 ha n' out'
  | table => exact h.brTable hm hL hs n' out'
  | ret => exact h.return_ hc hs n' out'

lemma Ins.Placed.falls (hcps : Computes l i st l' st') :
  ∃ env' out0 st0', L.Reaches m f g.lines.size env g1.lines.size env' ∧
    Stands S g1 (some i) next out out0 l' st' st0' env' := by
  by_cases hi : i.isStraight
  · exact h.falls_straight hm hc hL hs hi hcps
  cases hcps with
  | select htype =>
    obtain ⟨env', hreach, hs'⟩ := h.falls_select hm hL hs htype
    exact ⟨env', _, _, hreach, hs'⟩
  | untaken =>
    obtain ⟨env', hreach, hs'⟩ := (h.brIf hm hL hs).1 rfl
    exact ⟨env', _, _, hreach, hs'⟩
  | _ => exact absurd rfl hi

end
end
end Retarget.Wasm
