import Retarget.Proofs.Simulation

/-!
# Generated code does what it is made for

Code with blocks is run beside the code made for it. A block is left at its last label, whether its
end is reached or a branch goes there; a branch to a loop goes to its first label. What a loop does
when it is begun anew is known for fewer turns.
-/

namespace Retarget.Wasm
open List Option Gen Val Listing Body Outcome
open IR (Kind Lit Op Sem Regs Deed)
open IR.Pass (bind_ok)
variable {t : BlkType} {isLoop : Bool} {g3 : Gen} {i last : Ins} {below inside : List NumType}
  {r vs : List Val} {o : Open} {x : Outcome}

section
variable {c : Ctx} {C : Scope} {S : Setting C} {L : Listing} {m : Sem} {f : IR.Fn}
  {n n' n'' : Nat} {env env' : Env} {above l st : List Val} {mid out ts ts0 : List NumType}
  {prev next : Option Ins} {g g' : Gen} {a : Arrow}

/-! ## Leaving blocks -/

lemma FnType.arrow?_eq_some {t : FnType} (h : t.arrow? = some a) :
  t.params = a.params.map .num ∧ t.rets = a.rets.map .num := by
  have hnum : ∀ {ts : List ValType} {ns : List NumType}, ts.mapM ValType.num? = some ns →
      ts = ns.map .num := by
    intro ts
    induction ts with
    | nil =>
      intro ns h
      obtain rfl : [] = ns := by simpa using h
      rfl
    | cons t ts ih =>
      intro ns h
      obtain ⟨n, ns', hn, hns', rfl⟩ := exists_of_mapM_cons h
      cases t with
      | num t =>
        cases hn
        rw [ih hns', map_cons]
      | ref t => cases hn
  obtain ⟨ps, hps, h⟩ := bind_eq_some_iff.1 h
  obtain ⟨rs, hrs, h⟩ := bind_eq_some_iff.1 h
  cases h
  exact ⟨hnum hps, hnum hrs⟩

/-- Code inside of a block as it is seen from outside: what is done at the end of the block, and by
branches to it. -/
lemma Lands.exit {hvs : vs.map kind = kinds below}
  {ho : o.Fits ⟨isLoop, a, S.track.below + below.length⟩}
  (h : Lands (S.enter isLoop a o below vs hvs ho) L m f n n' env [] inside x)
  {jump : List Val → List Val → Outcome} (hend : ∀ env, L.Reaches m f n' env n'' env) {p : Nat}
  (hp : L.At p (.label o.tgt))
  (hjump : ∀ l ws env, ws.map kind = kinds (if isLoop then a.params else a.rets).reverse →
    l.map kind = kinds C.locals → Agrees env l (ws ++ (vs ++ S.low)) →
    Lands S L m f (p + 1) n'' env vs a.rets.reverse (jump l ws)) :
  Lands S L m f n n'' env vs a.rets.reverse
    (x.exit ((if isLoop then a.params else a.rets).map .num) (a.rets.map .num) jump) := by
  cases x with
  | fall l st =>
    obtain ⟨-, hl, env', hreach, hagr⟩ := h
    by_cases htypes : st.map type = (a.rets.map ValType.num).reverse
    · rw [exit, if_pos htypes]
      rw [← map_reverse, map_type_eq] at htypes
      exact ⟨htypes, hl, env', hreach.trans (hend env'), hagr⟩
    · rw [exit, if_neg htypes]
      trivial
  | branch d l st =>
    obtain ⟨o', b, ws, ho', hb, hops, hws, hl, hgoes⟩ := h
    cases d with
    | zero =>
      obtain rfl : o = o' := Option.some.inj ho'
      cases hb
      obtain ⟨env', hreach, hagr⟩ := hgoes p hp
      rw [← S.length_append_low hvs] at hagr
      have hops : opnds? ((if isLoop then a.params else a.rets).map .num) st = some ws := hops
      rw [exit, hops]
      refine (hjump l ws env' hws hl ?_).of_reaches hreach
      rwa [← bottom_self (vs ++ S.low)]
    | succ d =>
      refine ⟨o', b, ws, ho', hb, hops, hws, hl, fun p hp => ?_⟩
      obtain ⟨env', hreach, hagr⟩ := hgoes p hp
      have hbelow : b.below ≤ S.low.length := S.nested b (mem_of_getElem? hb)
      have hbottom : bottom b.below (vs ++ S.low) = bottom b.below S.low := bottom_append hbelow
      exact ⟨env', hreach, hbottom ▸ hagr⟩
  | ret st => exact h
  | trap | stuck | timeout => trivial

lemma Lands.andThen (h : Lands S L m f n n' env above mid x)
  {rest : List Val → List Val → Outcome}
  (hrest : ∀ l st env, st.map kind = kinds mid → l.map kind = kinds C.locals →
    Agrees env l (st ++ above ++ S.low) →
    Lands S L m f n' n'' env [] out (rest l (st ++ above))) :
  Lands S L m f n n'' env [] out (x.andThen fun l st => rest l (st ++ above)) := by
  cases x with
  | fall l st =>
    obtain ⟨hst, hl, env', hreach, hagr⟩ := h
    exact (hrest l st env' hst hl (by rwa [append_assoc])).of_reaches hreach
  | branch | ret => exact h
  | trap | stuck | timeout => trivial

lemma inBlk_eq
  (ha : C.blkArrow? t = some a) (hst : st.map kind = kinds (a.params.reverse ++ below)) :
  ∃ ft vs r, ft.params = a.params.map .num ∧ ft.rets = a.rets.map .num ∧
  st = vs ++ r ∧ vs.map kind = kinds a.params.reverse ∧ r.map kind = kinds below ∧ ∀ inside rest,
  inBlk C.types t st inside rest = (inside ft vs).andThen fun l out => rest l (out ++ r) := by
  obtain ⟨ft, hft, ha⟩ := bind_eq_some_iff.1 ha
  obtain ⟨hprm, hret⟩ := FnType.arrow?_eq_some ha
  obtain ⟨vs, r, rfl, hvs, hr, hops⟩ := opnds?_of_kinds hst
  refine ⟨ft, vs, r, hprm, hret, rfl, hvs, hr, fun inside rest => ?_⟩
  simp only [inBlk, hft, hprm, hops, drop_left]

/-! ## Bodies -/

structure Body.Placed (b : Body) (S : Setting C) (c : Ctx) (L : Listing) (m : Sem)
    (g g' : Gen) (prev : Option Ins) (last : Ins) (ts out : List NumType) : Prop where
  track : b.track S.track ts = some out
  supported : ∀ i ∈ b.flatten, i.isSupported ∧ (m.ExactRems ∨ i.isSignedRem = false)
  steps : g.steps c (kinds C.locals) (some last) prev b.flatten = .ok g'
  within : g'.Within L
  /-- Nothing is left to the instruction behind the code. -/
  last : last.takesCond = false

/-- The generator is where the types say at the end of some code. -/
lemma Body.Placed.accepted (hc : c.Serves C) {b : Body} (h : b.Placed S c L m g g' prev last ts out)
  (hdfs : S.track.Defers prev (b.flatten.head?.or (some last)) ts ts0)
  (hops : g.ops = kinds ts0 ++ S.low.map kind)
  (hbks : g.blks = S.blks) : g'.ops = kinds out ++ S.low.map kind ∧ g'.blks = S.blks := by
  obtain ⟨g'', hsts, hops', hbks'⟩ := b.acceptable h.last hc h.track
    (fun i hi => (h.supported i hi).1) hdfs hops (hbks ▸ S.fits)
    (by rw [length_map, S.length_low])
  obtain rfl : g' = g'' := Except.ok.inj (h.steps.symm.trans hsts)
  exact ⟨hops', hbks'.trans hbks⟩

/-- What is inside of a construct and what comes after it are placed if all of it is, and the
generator is behind the construct where it was before. -/
lemma Body.Placed.bracket {b inner rest : Body} (h : b.Placed S c L m g g' prev last ts out)
  (hc : c.Serves C) (hflat : ∀ j ∈ inner.flatten ++ rest.flatten, j ∈ b.flatten)
  (hr : r.map kind = kinds below) (ho : o.Fits ⟨isLoop, a, S.track.below + below.length⟩)
  (hi : i.leavesOpen = false) (hcmp : (some i).any Ins.isCmp = false) {g1 g2 : Gen}
  (hops : g1.ops = kinds a.params.reverse ++ (r ++ S.low).map kind)
  (hbks : g1.blks = o :: S.blks)
  (htrack : inner.track (S.track.enter isLoop a below) a.params.reverse = some inside)
  (hsts : g1.steps c (kinds C.locals) (some .end_) (some i) inner.flatten = .ok g2)
  (hends : endsWith a.rets inner.leavesOpen inside)
  (hend : g2.step c (kinds C.locals) (inner.flatten.getLast?.or (some i)) next .end_ = .ok g3)
  (htrack' : rest.track S.track (a.rets.reverse ++ below) = some out)
  (hsts' : g3.steps c (kinds C.locals) (some last) (some .end_) rest.flatten = .ok g') :
  inner.Placed (S.enter isLoop a o below r hr ho) c L m g1 g2 (some i) .end_ a.params.reverse
      inside ∧ rest.Placed S c L m g3 g' (some .end_) last (a.rets.reverse ++ below) out ∧
    g3.Within L ∧ g3.lines = g2.lines ++ endLines o ∧
    g3.ops = kinds (a.rets.reverse ++ below) ++ S.low.map kind ∧ g3.blks = S.blks := by
  have hwithin := (steps_grows hsts').within h.within
  have hin : inner.Placed (S.enter isLoop a o below r hr ho) c L m g1 g2 (some i) .end_
      a.params.reverse inside :=
    ⟨htrack, fun j hj => h.supported j (hflat j (mem_append_left _ hj)), hsts,
      (step_grows hend).within hwithin, rfl⟩
  refine ⟨hin, ⟨htrack', fun j hj => h.supported j (hflat j (mem_append_right _ hj)), hsts',
    h.within, h.last⟩, hwithin, ?_⟩
  obtain ⟨hops2, hbks2⟩ := hin.accepted hc (Track.defers_of_not hcmp _ _) hops hbks
  rw [← inner.leavesOpen_eq hi] at hends
  have hlow : ((r ++ S.low).map kind).length = S.track.below + below.length := by
    rw [length_map, S.length_append_low hr]
  have hleft := step_end (c := c) next (kinds C.locals) hbks2 ho hends hops2 hlow
  obtain rfl : _ = g3 := Except.ok.inj (hleft.symm.trans hend)
  refine ⟨rfl, ?_, rfl⟩
  rw [kinds_append, append_assoc, ← hr, ← map_append]
  rfl

/-! ## Loops -/

structure Loop (C : Scope) (c : Ctx) (L : Listing) (m : Sem) where
  outside : Setting C
  arrow : Arrow
  blk : Open
  below : List NumType
  values : List Val
  kinds_values : values.map kind = kinds below
  fits : blk.Fits ⟨true, arrow, outside.track.below + below.length⟩
  body : Body
  inside : List NumType
  entry : Ins
  not_compare : entry.isCmp = false
  first : Gen
  last : Gen
  placed : body.Placed (outside.enter true arrow blk below values kinds_values fits) c L m first
      last
    (some entry) .end_ arrow.params.reverse inside
  ops : first.ops = kinds arrow.params.reverse ++ (values ++ outside.low).map kind
  blks : first.blks = blk :: outside.blks
  /-- The line of the label that branches to the loop go to. -/
  top : Nat
  opening : L.At top (.label blk.tgt)
  size_first : first.lines.size = top + 1
  closing : L.At last.lines.size (.label (.closing blk.sort blk.no))

/-- The code of loops does what the loops do once they are begun anew. -/
def Again.Follows
  (again : Again) (C : Scope) (c : Ctx) (L : Listing) (m : Sem) (f : IR.Fn) : Prop :=
  ∀ (P : Loop C c L m) (t : FnType), t.params = P.arrow.params.map .num →
    t.rets = P.arrow.rets.map .num → ∀ l vs env,
    vs.map kind = kinds P.arrow.params.reverse → l.map kind = kinds C.locals →
    Agrees env l (vs ++ (P.values ++ P.outside.low)) →
    Lands P.outside L m f P.first.lines.size (P.last.lines.size + 1) env P.values
      P.arrow.rets.reverse (again t P.body l vs)

def Body.Follows (b : Body) (again : Again) (C : Scope) (c : Ctx) (L : Listing) (m : Sem)
  (f : IR.Fn) : Prop :=
  ∀ (S : Setting C) (g g' : Gen) (prev : Option Ins) (last : Ins) (ts ts0 out : List NumType)
    (l st st0 : List Val) (env : Env), b.Placed S c L m g g' prev last ts out →
    Stands S g prev (b.flatten.head?.or (some last)) ts ts0 l st st0 env →
    Lands S L m f g.lines.size g'.lines.size env [] out (b.runWith C.types again l st)

variable {again : Again}

lemma Loop.turn (P : Loop C c L m) (hagain : again.Follows C c L m f)
  (hbody : P.body.Follows again C c L m f) {t : FnType}
  (hprm : t.params = P.arrow.params.map .num) (hret : t.rets = P.arrow.rets.map .num)
  (hvs : vs.map kind = kinds P.arrow.params.reverse) (hl : l.map kind = kinds C.locals)
  (hagr : Agrees env l (vs ++ (P.values ++ P.outside.low))) :
  Lands P.outside L m f P.first.lines.size (P.last.lines.size + 1) env P.values
    P.arrow.rets.reverse ((P.body.runWith C.types again l vs).turn t (again t P.body)) := by
  have hturn := hbody _ _ _ _ _ _ _ _ _ _ _ _ P.placed
    (.of_done P.not_compare hvs hl P.ops P.blks hagr)
  rw [Outcome.turn, hprm, hret]
  refine hturn.exit (fun env => reaches_label P.closing) P.opening fun l ws env hws hl h => ?_
  rw [← P.size_first]
  exact hagain P t hprm hret l ws env hws hl h

lemma exists_i32 (h : st.map kind = kinds (.i32 :: ts)) :
  ∃ x st', st = .i32 x :: st' ∧ st'.map kind = kinds ts := by
  cases st with
  | nil => cases h
  | cons v st =>
    obtain ⟨hv, hst⟩ := List.cons.inj h
    cases v with
    | i32 x => exact ⟨x, st, rfl, hst⟩
    | i64 x => cases hv

/-- The code that is to be run if a condition holds is entered if it does. Otherwise another label
is gone to. -/
lemma Stands.chooses (hm : m.TwosCompl) (hL : L.Sound) {x : BitVec 32} {st0 : List Val}
  (hs : Stands S g prev (some (.if_ t)) ts ts0 l (.i32 x :: st) st0 env) {cond : Condition}
  (hcond : condition prev true g.ops = .ok cond) {lines : List Line} {y z : Opnd}
  (hlns : cond.opnds g.ops.length = .ok (lines, y, z)) {other inside : Label}
  (hg' : g'.Within L)
  (hadded : g'.lines = g.lines ++ (lines ++ [.ins cond.op [y, z, .label other]] ++ [.label inside])) :
  ∃ env', Agrees env' l (st ++ S.low) ∧
    (x ≠ 0 → L.Reaches m f g.lines.size env g'.lines.size env') ∧
    (x = 0 → ∀ p, L.At p (.label other) →
    L.Reaches m f g.lines.size env (p + 1) env') := by
  obtain ⟨hagr, hdecides⟩ := hs.decides hm rfl hcond hlns
  rw [append_assoc] at hadded
  obtain ⟨env', hsame, htail, huntaken, htaken⟩ := hdecides.reaches hL (hg'.has hadded)
  refine ⟨env', hagr.same hsame (by simp), fun hx => ?_, fun hx => htaken (by simp [hx])⟩
  have hsize : g'.lines.size = g.lines.size + lines.length + 1 + 1 := by
    rw [size_of_append hadded, length_append]
    rfl
  rw [hsize]
  exact (huntaken (by simpa using hx)).trans (reaches_label htail.head.1)

/-! ## All code -/

lemma Jumps.andThen_eq (h : Jumps l i st x) (rest : List Val → List Val → Outcome) :
  x.andThen rest = x := by
  cases h <;> rfl

lemma Body.follows_step (hm : m.TwosCompl) (hc : c.Serves C) (hL : L.Sound) (i : PlainIns)
  {rest : Body} (hrest : rest.Follows again C c L m f) :
  (step i rest).Follows again C c L m f := by
  intro S g g' prev last ts ts0 out l st st0 env h hs
  obtain ⟨g1, hstep, hsts⟩ := steps_cons.1 h.steps
  obtain ⟨ts1, hi, htrack⟩ := bind_eq_some_iff.1 h.track
  have hpl : i.1.Placed S c L m g g1 prev (rest.flatten.head?.or (some last)) ts ts1 :=
    { rem := (h.supported i.1 (.head _)).2
      followed := Ins.followed_of_track hi
      supported := (h.supported i.1 (.head _)).1
      inside := by cases rest.flatten.head? <;> rfl
      step := hstep
      within := (steps_grows hsts).within h.within }
  have hpl' : rest.Placed S c L m g1 g' (some i.1) last ts1 out :=
    { track := htrack
      supported := fun j hj => h.supported j (.tail _ hj)
      steps := hsts
      within := h.within
      last := h.last }
  show Lands S L m f _ _ env [] out ((i.1.run l st).andThen _)
  obtain ⟨l', st', hrun⟩ | hjumps | htrap | hstuck := i.1.run_cases l st
  · obtain ⟨env', out0, st0', hreach, hs'⟩ := hpl.falls hm hc hL hs (.of_run hrun)
    rw [hrun]
    exact (hrest _ _ _ _ _ _ _ _ _ _ _ _ hpl' hs').of_reaches hreach
  · rw [hjumps.andThen_eq]
    exact hpl.jumps hm hc hL hs hjumps _ _
  · rw [htrap]
    trivial
  · rw [hstuck]
    trivial

lemma Body.Follows.after {rest : Body} (hrest : rest.Follows again C c L m f)
  (hr : r.map kind = kinds below)
  (h : rest.Placed S c L m g3 g' (some .end_) last (a.rets.reverse ++ below) out)
  (hops : g3.ops = kinds (a.rets.reverse ++ below) ++ S.low.map kind)
  (hbks : g3.blks = S.blks) (hx : Lands S L m f n g3.lines.size env r a.rets.reverse x) :
  Lands S L m f n g'.lines.size env [] out
    (x.andThen fun l st => rest.runWith C.types again l (st ++ r)) :=
  hx.andThen fun l st env hst hl hagr => hrest _ _ _ _ _ _ _ _ _ _ _ _ h <|
    .of_done rfl (by rw [map_append, hst, hr, kinds_append]) hl hops hbks hagr

lemma Body.Follows.leaves {inner : Body} (hin : inner.Follows again C c L m f) {hr : r.map kind = kinds below}
  {ho : o.Fits ⟨false, a, S.track.below + below.length⟩} {g1 g2 : Gen}
  (h : inner.Placed (S.enter false a o below r hr ho) c L m g1 g2 (some i) last a.params.reverse
    inside) (hi : i.isCmp = false)
  (hops : g1.ops = kinds a.params.reverse ++ (r ++ S.low).map kind)
  (hbks : g1.blks = o :: S.blks) (hvs : vs.map kind = kinds a.params.reverse)
  (hl : l.map kind = kinds C.locals) (hagr : Agrees env l (vs ++ (r ++ S.low))) {t : FnType}
  (hret : t.rets = a.rets.map .num) {p : Nat}
  (hend : ∀ env, L.Reaches m f g2.lines.size env (p + 1) env)
  (hp : L.At p (.label o.tgt)) :
  Lands S L m f g1.lines.size (p + 1) env r a.rets.reverse
    ((inner.runWith C.types again l vs).leave t) := by
  have hlands := hin _ _ _ _ _ _ _ _ _ _ _ _ h (.of_done hi hvs hl hops hbks hagr)
  rw [leave, hret]
  exact hlands.exit hend hp fun l ws env hws hl h => ⟨hws, hl, env, .refl _ _ _ _ _, h⟩

lemma Setting.fits_new (S : Setting C) (s : Construct) (isLoop : Bool)
  (hs : s = .loop ↔ isLoop = true) (no : Nat) (a : Arrow) (hr : r.map kind = kinds below) :
  (Open.new s no a ((r ++ S.low).map kind).length).Fits
    ⟨isLoop, a, S.track.below + below.length⟩ := by
  rw [length_map, S.length_append_low hr]
  exact Open.fits_new hs ..

lemma Body.follows_blk (hc : c.Serves C) (t : BlkType) {inner rest : Body}
  (hin : inner.Follows again C c L m f) (hrest : rest.Follows again C c L m f) :
  (blk t inner rest).Follows again C c L m f := by
  intro S g g' prev last ts ts0 out l st st0 env h hs
  obtain ⟨g1, g2, g3, hopen, hsts, hend, hsts'⟩ := steps_bracket.1 h.steps
  obtain ⟨a, below, inside, ha, rfl, htrack, hends, htrack'⟩ := track_bracket.1 h.track
  obtain ⟨hops, hagr⟩ := hs.of_straight rfl
  obtain ⟨ft, vs, r, hprm, hret, rfl, hvs, hr, hrun⟩ := inBlk_eq ha hs.types
  rw [kinds_append, append_assoc, ← hr, ← map_append] at hops
  rw [(step_bracket _ _ hc ha hops).1] at hopen
  cases hopen
  have ho := S.fits_new .blk false (by simp) g.count a hr
  obtain ⟨hpl, hpl', hwithin3, hlns3, hops3, hbks3⟩ := h.bracket hc
    (by simp +contextual [flatten, or_imp]) hr ho rfl rfl rfl (congrArg (cons _) hs.blks) htrack
    hsts hends hend htrack' hsts'
  have hopening : L.Reaches m f g.lines.size env _ env :=
    ((steps_grows hsts).within hpl.within).reaches_label rfl
  have hcls := (hwithin3.has hlns3).head.1
  have hsize : g3.lines.size = g2.lines.size + 1 := size_of_append hlns3
  rw [append_assoc] at hagr
  have hlands := hin.leaves hpl rfl rfl (congrArg (cons _) hs.blks) hvs hs.locals hagr
    hret (fun env => reaches_label hcls) hcls
  rw [← hsize] at hlands
  rw [runWith, hrun]
  exact hrest.after hr hpl' hops3 hbks3 (hlands.of_reaches hopening)

lemma Body.follows_loop (hc : c.Serves C) (hagain : again.Follows C c L m f) (t : BlkType)
  {inner rest : Body} (hin : inner.Follows again C c L m f)
  (hrest : rest.Follows again C c L m f) : (loop t inner rest).Follows again C c L m f := by
  intro S g g' prev last ts ts0 out l st st0 env h hs
  obtain ⟨g1, g2, g3, hopen, hsts, hend, hsts'⟩ := steps_bracket.1 h.steps
  obtain ⟨a, below, inside, ha, rfl, htrack, hends, htrack'⟩ := track_bracket.2 h.track
  obtain ⟨hops, hagr⟩ := hs.of_straight rfl
  obtain ⟨ft, vs, r, hprm, hret, rfl, hvs, hr, hrun⟩ := inBlk_eq ha hs.types
  rw [kinds_append, append_assoc, ← hr, ← map_append] at hops
  rw [(step_bracket _ _ hc ha hops).2] at hopen
  cases hopen
  have ho := S.fits_new .loop true (by simp) g.count a hr
  obtain ⟨hpl, hpl', hwithin3, hlns3, hops3, hbks3⟩ := h.bracket hc
    (by simp +contextual [flatten, or_imp]) hr ho rfl rfl rfl (congrArg (cons _) hs.blks) htrack
    hsts hends hend htrack' hsts'
  have hopening := (((steps_grows hsts).within hpl.within).has rfl).head.1
  have hcls := (hwithin3.has hlns3).head.1
  have hsize : g3.lines.size = g2.lines.size + 1 := size_of_append hlns3
  let P : Loop C c L m := ⟨S, a, _, below, r, hr, ho, inner, inside, .loop t, rfl, _, g2, hpl,
    rfl, congrArg (cons _) hs.blks, g.lines.size, hopening,
    size_of_append (show _ = g.lines ++ [_] from rfl), hcls⟩
  rw [append_assoc] at hagr
  have hlands := P.turn hagain hin hprm hret hvs hs.locals hagr
  rw [P.size_first] at hlands
  rw [runWith, hrun]
  refine hrest.after hr hpl' hops3 hbks3 ?_
  rw [hsize]
  exact hlands.of_reaches (reaches_label hopening)

lemma onCondition_eq (x : BitVec 32) (st : List Val) (run : Bool → List Val → Outcome) :
  onCondition (.i32 x :: st) run = run (x ≠ 0) st := rfl

section
variable (hm : m.TwosCompl) (hc : c.Serves C) (hL : L.Sound)
include hm hc hL

lemma Body.follows_when (t : BlkType) {yes rest : Body} (hyes : yes.Follows again C c L m f)
  (hrest : rest.Follows again C c L m f) : (when t yes rest).Follows again C c L m f := by
  intro S g g' prev last ts ts0 out l st st0 env h hs
  obtain ⟨g1, g2, g3, hopen, hsts, hend, hsts'⟩ := steps_bracket.1 h.steps
  obtain ⟨a, below, inside, ha, rfl, -, htrack, hends, htrack'⟩ := track_when h.track
  obtain ⟨x, st, rfl, hst⟩ := exists_i32 hs.types
  obtain ⟨ft, vs, r, hprm, hret, rfl, hvs, hr, hrun⟩ := inBlk_eq ha hst
  obtain ⟨cond, lines, y, z, hcond, hlns, hstep⟩ :=
    step_if (yes.flatten.head?.or (some .end_)) (kinds C.locals) hc ha hs.defers hs.ops
  rw [hopen, ← hr, ← map_append] at hstep
  cases hstep
  have ho := S.fits_new .cond false (by simp) g.count a hr
  obtain ⟨hpl, hpl', hwithin3, hlns3, hops3, hbks3⟩ := h.bracket hc
    (by simp +contextual [flatten, or_imp]) hr ho rfl rfl rfl (congrArg (cons _) hs.blks) htrack
    hsts hends hend htrack' hsts'
  obtain ⟨env', hagr, hholds, hfails⟩ := hs.chooses hm hL hcond hlns
    ((steps_grows hsts).within hpl.within) rfl
  rw [append_assoc] at hagr
  -- both labels at the end are passed after the code for a condition that holds
  obtain ⟨hoth, hhas⟩ := (hwithin3.has hlns3).head
  have hcls := hhas.head.1
  have hsize : g3.lines.size = g2.lines.size + 1 + 1 := size_of_append hlns3
  rw [runWith, onCondition_eq, hrun]
  refine hrest.after hr hpl' hops3 hbks3 ?_
  rw [hsize]
  by_cases hx : x = 0
  · have hlands : Lands (S.enter false a _ below r hr ho) L m f g.lines.size
      (g2.lines.size + 1) env []
        a.params.reverse (.fall l vs) := ⟨hvs, hs.locals, env', hfails hx _ hoth, hagr⟩
    simp only [hx, leave, hret]
    exact hlands.exit (fun env => reaches_label hcls) hcls
      fun l ws env hws hl h => ⟨hws, hl, env, .refl _ _ _ _ _, h⟩
  · simp only [hx, ne_eq]
    refine Lands.of_reaches (hholds hx) ?_
    exact hyes.leaves hpl rfl rfl (congrArg (cons _) hs.blks) hvs hs.locals hagr
      hret (fun env => (reaches_label hoth).trans (reaches_label hcls)) hcls

lemma Body.follows_choose (t : BlkType) {yes no rest : Body}
  (hyes : yes.Follows again C c L m f) (hno : no.Follows again C c L m f)
  (hrest : rest.Follows again C c L m f) : (choose t yes no rest).Follows again C c L m f := by
  intro S g g' prev last ts ts0 out l st st0 env h hs
  obtain ⟨g1, g2, g3, hopen, hsts, hturn, hsts'⟩ := steps_bracket.1 h.steps
  rw [steps_append, bind_ok] at hsts'
  obtain ⟨g4, hsts3, hsts'⟩ := hsts'
  obtain ⟨g5, hend, hsts5⟩ := steps_cons.1 hsts'
  obtain ⟨a, below, inside, inside', ha, rfl, htrack, hends, htrack', hends', htrack''⟩ :=
    track_choose h.track
  obtain ⟨x, st, rfl, hst⟩ := exists_i32 hs.types
  obtain ⟨ft, vs, r, hprm, hret, rfl, hvs, hr, hrun⟩ := inBlk_eq ha hst
  obtain ⟨cond, lines, y, z, hcond, hlns, hstep⟩ :=
    step_if (yes.flatten.head?.or (some .else_)) (kinds C.locals) hc ha hs.defers hs.ops
  rw [hopen, ← hr, ← map_append] at hstep
  cases hstep
  have ho := S.fits_new .cond false (by simp) g.count a hr
  have hwithin5 := (steps_grows hsts5).within h.within
  have hwithin4 := (step_grows hend).within hwithin5
  have hwithin3 := (steps_grows hsts3).within hwithin4
  have hwithin2 := (step_grows hturn).within hwithin3
  have hpl : yes.Placed (S.enter false a _ below r hr ho) c L m _ g2 (some (.if_ t)) .else_
      a.params.reverse inside :=
    ⟨htrack, fun i hi => h.supported i (by simp [flatten, hi]), hsts, hwithin2, rfl⟩
  -- what is done if the condition fails begins where the other code ends
  obtain ⟨hops2, hbks2⟩ := hpl.accepted hc (Track.defers_of_not rfl _ _) rfl
    (congrArg (cons _) hs.blks)
  rw [← yes.leavesOpen_eq (i := .if_ t) rfl] at hends
  have hlow : ((r ++ S.low).map kind).length = S.track.below + below.length := by
    rw [length_map, S.length_append_low hr]
  have hturned := step_else (c := c) ((no.flatten ++ .end_ :: rest.flatten).head?.or
    (some last))
    (kinds C.locals) hbks2 ho rfl rfl hends hops2 hlow
  obtain rfl : _ = g3 := Except.ok.inj (hturned.symm.trans hturn)
  have ho' : Open.Fits { Open.new .cond g.count a ((r ++ S.low).map kind).length with
      pending := false } ⟨false, a, S.track.below + below.length⟩ := ⟨ho.1, ho.2, ho.3, ho.4⟩
  obtain ⟨hpl3, hpl5, -, hlns5, hops5, hbks5⟩ := h.bracket hc
    (by simp +contextual [flatten, or_imp]) hr ho' rfl rfl rfl rfl htrack' hsts3 hends' hend
    htrack'' hsts5
  obtain ⟨env', hagr, hholds, hfails⟩ := hs.chooses hm hL hcond hlns
    ((steps_grows hsts).within hwithin2) rfl
  rw [append_assoc] at hagr
  obtain ⟨hbra, hhas⟩ := (hwithin3.has rfl).head
  have hoth := hhas.head.1
  have hcls := (hwithin5.has hlns5).head.1
  have hsize : g5.lines.size = g4.lines.size + 1 := size_of_append hlns5
  rw [runWith, onCondition_eq, hrun]
  refine hrest.after hr hpl5 hops5 hbks5 ?_
  rw [hsize]
  by_cases hx : x = 0
  · simp only [hx]
    refine Lands.of_reaches ?_ <| hno.leaves hpl3 rfl rfl rfl hvs hs.locals hagr hret
      (fun env => reaches_label hcls) hcls
    rw [size_turned]
    exact hfails hx _ hoth
  · simp only [hx, ne_eq]
    refine Lands.of_reaches (hholds hx) ?_
    exact hyes.leaves hpl rfl rfl (congrArg (cons _) hs.blks) hvs hs.locals hagr
      hret (fun env => reaches_bra hL hbra hcls) hcls

lemma Body.follows (hagain : again.Follows C c L m f) (b : Body) : b.Follows again C c L m f := by
  induction b with
  | done =>
    intro S g g' prev last ts ts0 out l st st0 env h hs
    obtain rfl : g = g' := Except.ok.inj h.steps
    obtain rfl : ts = out := Option.some.inj h.track
    obtain ⟨-, hagr⟩ := hs.of_straight h.last
    exact ⟨hs.types, hs.locals, env, .refl _ _ _ _ _, hagr⟩
  | step i rest ih => exact follows_step hm hc hL i ih
  | blk t inner rest ihInner ihRest => exact follows_blk hc t ihInner ihRest
  | loop t inner rest ihInner ihRest => exact follows_loop hc hagain t ihInner ihRest
  | when t yes rest ihYes ihRest => exact follows_when hm hc hL t ihYes ihRest
  | choose t yes no rest ihYes ihNo ihRest => exact follows_choose hm hc hL t ihYes ihNo ihRest

lemma againFor_follows (turns : Nat) : (againFor C.types turns).Follows C c L m f := by
  induction turns with
  | zero => exact fun _ _ _ _ _ _ _ _ _ _ => trivial
  | succ turns ih =>
    intro P t hprm hret l vs env hvs hl hagr
    exact P.turn ih (follows hm hc hL ih P.body) hprm hret hvs hl hagr

end
end

/-! ## Calling generated functions

A generated function takes its arguments, sets its other variables to zero, and goes on with the code
for its body. If branches get what they carry to where it belongs, it returns what the function that
it is made for returns. -/

variable {code : Code} {g g' : Gen} {locals : List Kind} {l l' st st' st0 : List Val}
  {types : Option (List FnType)} {next prev : Option Ins} {rest : List Val → List Val → Outcome}

/-! ## Arguments -/

section
variable {L : Listing} {m : Sem} {f : IR.Fn} {n : Nat} {env : Env}

/-- Registers take over one value after the other. -/
lemma Listing.trace_pops (hL : L.Sound) {vs : List Var}
  (h : L.Has n (vs.map fun v => .ins .poparg [.var v])) (hvs : vs.Nodup) (ins : List Lit)
  (s : Regs Lit) (seen : List Deed) :
  ∃ s' seen', (∀ k, Trace.trace (m.linear (L.asm f)) (IR.handed ins) (vs.length + k) seen
      (some (L.place n, s)) = vs.map (fun v => .pop (L.kindOf v)) ++
        Trace.trace (m.linear (L.asm f)) (IR.handed ins) k seen'
          (some (L.place (n + vs.length), s'))) ∧
    (∀ i v, vs[i]? = some v → L.view s' v = ins.getD (seen.length + i) default) ∧
    ∀ v, v ∉ vs → L.view s' v = L.view s v := by
  induction vs generalizing n s seen with
  | nil => exact ⟨s, seen, fun k => by simp, by simp, fun _ _ => rfl⟩
  | cons v vs ih =>
    obtain ⟨hpop, hrest⟩ := h.head
    obtain ⟨hnew, hvs⟩ := nodup_cons.1 hvs
    have hview := view_write (s := s) (mem_vars hL hpop (.head _))
      (IR.handed ins (seen ++ [.pop (L.kindOf v)]))
    obtain ⟨s', seen', htrace, hput, hsame⟩ := ih hrest hvs (s.write [L.vars.idxOf v] (IR.handed ins
      (seen ++ [.pop (L.kindOf v)]))) (seen ++ [.pop (L.kindOf v)])
    refine ⟨s', seen', fun k => ?_, fun i w hw => ?_, fun w hw => ?_⟩
    · rw [length_cons, Nat.add_right_comm, Trace.trace_emit (linear_pop hL hpop), htrace,
        Nat.add_assoc n 1, Nat.add_comm 1]
      rfl
    · cases i with
      | zero =>
        cases hw
        rw [hsame v hnew, hview]
        simp [IR.handed]
      | succ i =>
        rw [hput i w hw, length_append, Nat.add_assoc, Nat.add_comm i]
        rfl
    · obtain ⟨hne, hw⟩ := not_or.1 (mem_cons.not.1 hw)
      rw [hsame w hw, hview, Function.update_of_ne hne]

lemma execute_zeros (p j : Nat) (ks : List Kind) (env : Env) :
  ∃ env', execute m L.kindOf ((ks.zipIdx j).map fun (k, n) =>
        .ins .mov [.var (.loc (p + n)), .lit (.ofInt k 0)]) env = some env' ∧
      (∀ i k, ks[i]? = some k → env' (.loc (p + (j + i))) = .ofInt k 0) ∧
      ∀ v, (∀ i, v = .loc i → i < p + j) → env' v = env v := by
  induction ks generalizing j env with
  | nil => exact ⟨env, rfl, by simp, fun _ _ => rfl⟩
  | cons k ks ih =>
    obtain ⟨env', hexec, hput, hsame⟩ := ih (j + 1)
      (Function.update env (.loc (p + j)) (.ofInt k 0))
    refine ⟨env', ?_, fun i k' hk' => ?_, fun v hv => ?_⟩
    · have hzero : [Opnd.lit (.ofInt k 0)].mapM (Opnd.value? env) = some [.ofInt k 0] := rfl
      rw [← hexec]
      exact execute_cons hzero rfl _
    · cases i with
      | zero =>
        cases hk'
        rw [hsame _ fun i hi => ?_]
        · exact Function.update_self ..
        · obtain rfl := Var.loc.inj hi
          omega
      | succ i => rw [← hput i k' hk', Nat.add_assoc j, Nat.add_comm 1]
    · rw [hsame v fun i hi => Nat.lt_succ_of_lt (hv i hi)]
      refine Function.update_of_ne (fun h => ?_) _ _
      exact Nat.lt_irrefl _ (hv _ h)

variable {c : Ctx} {others : List Kind} {args zeros : List Val} {vs : List Lit}

/-- A function that has taken over its arguments goes on with its code. -/
lemma returns_of_finishes (hL : L.Sound) (hprologue : L.Has 0 (prologue c.params others))
  (haddr : L.addr = c.addr) (hlocals : L.locals = c.params ++ others)
  (hf : f.inputs = c.addr :: c.params) (hargs : args.map kind = c.params)
  (hkinds : zeros.map kind = others) (hzeros : ∀ v ∈ zeros, v.lit = .ofInt v.kind 0)
  (hbody : ∀ env, Agrees env (args ++ zeros) [] →
    L.Finishes m f (prologue c.params others).length env vs) (base : Lit) :
  m.Returns (L.asm f) (base :: args.map lit) vs.reverse := by
  let vars : List Var := .base :: (List.range c.params.length).map .loc
  have hsplit : prologue c.params others = .label .start ::
      (vars.map (fun v => .ins .poparg [.var v]) ++ others.zipIdx.map fun (k, n) =>
        .ins .mov [.var (.loc (c.params.length + n)), .lit (.ofInt k 0)]) := by
    simp [prologue, vars]
  have hlen : (prologue c.params others).length = 0 + 1 + vars.length +
      (others.zipIdx.map fun (k, n) =>
        Line.ins .mov [.var (.loc (c.params.length + n)), .lit (.ofInt k 0)]).length := by
    rw [hsplit, length_cons, length_append, length_map]
    omega
  have hvars : vars.Nodup := by
    refine nodup_cons.2 ⟨by simp, List.Nodup.map ?_ nodup_range⟩
    exact fun _ _ => Var.loc.inj
  rw [hsplit] at hprologue
  obtain ⟨hsta, hrest⟩ := hprologue.head
  obtain ⟨hpops, hmoves⟩ := hrest.append
  rw [length_map] at hmoves
  intro s
  obtain ⟨s', seen', htrace, hput, -⟩ := trace_pops hL hpops hvars (base :: args.map lit) s []
  obtain ⟨env', hexec, hzero, hsame⟩ := execute_zeros c.params.length 0 others (L.view s')
  have hcnt : args.length = c.params.length := by rw [← hargs, length_map]
  have hagr : Agrees env' (args ++ zeros) [] := by
    refine ⟨fun n v hv => ?_, rfl⟩
    by_cases hn : n < args.length
    · rw [getElem?_append_left hn] at hv
      have hvar : vars[n + 1]? = some (.loc n) := by simp [vars, hcnt ▸ hn]
      rw [hsame _ fun i hi => by obtain rfl := Var.loc.inj hi; omega, hput _ _ hvar]
      simp [hv]
    · rw [getElem?_append_right (not_lt.1 hn)] at hv
      have hkind : others[n - args.length]? = some v.kind := by rw [← hkinds, getElem?_map, hv]; rfl
      have hplace : c.params.length + (0 + (n - args.length)) = n := by omega
      rw [hzeros v (mem_of_getElem? hv), ← hzero _ _ hkind, hplace]
  have hfinishes := (reaches_execute hL hmoves hexec).finishes (hlen ▸ hbody env' hagr)
  obtain ⟨k, hk⟩ := hfinishes s' rfl (IR.handed (base :: args.map lit)) seen'
  refine ⟨vars.length + k + 1, ?_⟩
  have hpopped : vars.map (fun v => Deed.pop (L.kindOf v)) = (L.asm f).inputs.map .pop := by
    show Deed.pop L.addr :: _ = f.inputs.map .pop
    rw [hf, haddr]
    refine congrArg _ (ext_getElem? fun n => ?_)
    by_cases hn : n < c.params.length
    · simp [hn, kindOf, hlocals, getElem?_append_left hn]
    · simp [not_lt.1 hn]
  rw [linearStart_asm hsta, Trace.trace_silent (linear_label hsta), htrace k,
    hk, hpopped, IR.Fn.callDeeds, reverse_reverse, append_assoc]

/-! ## Variables -/

lemma Val.zero?_spec {t : ValType} {v : Val} (h : zero? t = some v) :
  v.lit = .ofInt v.kind 0 ∧ t.kind = .ok v.kind := by
  unfold zero? at h
  split at h
  · cases h
    exact ⟨rfl, rfl⟩
  · cases h
    exact ⟨rfl, rfl⟩
  · cases h

lemma mapM_replicate {α β : Type} {g : α → Option β} {x : α} {ys : List β}
  (h : (List.replicate n x).mapM g = some ys) :
  n = 0 ∧ ys = [] ∨ n ≠ 0 ∧ ∃ y, g x = some y ∧ ys = List.replicate n y := by
  induction n generalizing ys with
  | zero => exact .inl ⟨rfl, by simpa using h.symm⟩
  | succ n ih =>
    obtain ⟨y, ys', hy, hys', rfl⟩ := exists_of_mapM_cons h
    refine .inr ⟨Nat.succ_ne_zero n, y, hy, ?_⟩
    rcases ih hys' with ⟨rfl, rfl⟩ | ⟨-, y', hy', rfl⟩
    · rfl
    · obtain rfl := Option.some.inj (hy.symm.trans hy')
      rfl

lemma initialLocals_spec (h : initialLocals code.locals = some zeros) :
  (∀ v ∈ zeros, v.lit = .ofInt v.kind 0) ∧ code.localKinds = .ok (zeros.map kind) := by
  suffices hall : ∀ (locals : List (Nat × ValType)) (zeros : List Val) (ks : List Kind),
      initialLocals locals = some zeros → (∀ v ∈ zeros, v.lit = .ofInt v.kind 0) ∧
        locals.foldlM withLocals ks = .ok (ks ++ zeros.map kind) from
    hall code.locals zeros [] h
  intro locals
  induction locals with
  | nil =>
    intro zeros ks h
    obtain rfl : [] = zeros := by simpa [initialLocals] using h
    simp
    rfl
  | cons x locals ih =>
    obtain ⟨n, t⟩ := x
    intro zeros ks h
    rw [initialLocals, flatMap_cons, mapM_append] at h
    obtain ⟨zs, hzs, h⟩ := Option.bind_eq_some_iff.1 h
    obtain ⟨rest, hrest, h⟩ := Option.bind_eq_some_iff.1 h
    obtain rfl : zs ++ rest = zeros := Option.some.inj h
    rw [foldlM_cons]
    rcases mapM_replicate hzs with ⟨rfl, rfl⟩ | ⟨hn, v, hv, rfl⟩
    · exact ih rest ks hrest
    · obtain ⟨hlit, hkind⟩ := zero?_spec hv
      obtain ⟨hzeros, hkinds⟩ := ih rest (ks ++ List.replicate n v.kind) hrest
      refine ⟨fun w hw => ?_, ?_⟩
      · rcases mem_append.1 hw with hw | hw
        · rw [eq_of_mem_replicate hw, hlit]
        · exact hzeros w hw
      · simp only [withLocals, hn, hkind, map_append, map_replicate]
        rw [← append_assoc, ← hkinds]
        rfl

lemma kindsOf_types (args : List Val) : kindsOf (args.map type) = .ok (args.map kind) := by
  induction args with
  | nil => rfl
  | cons v args ih =>
    rw [kindsOf] at ih ⊢
    rw [map_cons, mapM_cons, kind_type, ih]
    rfl

/-! ## Ends of functions -/

lemma Ins.run_of_isJump (hi : i.isJump) : i.run l st ≠ .fall l' st' := by
  intro h
  cases Computes.of_run h <;> cases hi

lemma Outcome.andThen_eq_fall {o : Outcome}
  (h : o.andThen rest = .fall l st) : ∃ l' st', o = .fall l' st' ∧ rest l' st' = .fall l st := by
  cases o with
  | fall l' st' => exact ⟨l', st', rfl, h⟩
  | _ => cases h

lemma inBlk_eq_fall {inside : FnType → List Val → Outcome} (h : inBlk types t st0 inside rest = .fall l st) :
  ∃ l' st', rest l' st' = .fall l st := by
  unfold inBlk at h
  split at h
  · cases h
  · split at h
    · cases h
    · obtain ⟨l', st', -, hrest⟩ := Outcome.andThen_eq_fall h
      exact ⟨l', _, hrest⟩

lemma onCondition_eq_fall {run : Bool → List Val → Outcome} (h : onCondition st0 run = .fall l st) :
  ∃ b st', run b st' = .fall l st := by
  unfold onCondition at h
  split at h
  · exact ⟨_, _, h⟩
  · cases h

/-- The end of code that ends in a jump is not reached. -/
lemma Body.runWith_ne_fall {again : Again} {b : Body}
  (h : b.flatten.getLast?.any Ins.isJump) : b.runWith types again l st ≠ .fall l' st' := by
  intro hfall
  induction b generalizing l st with
  | done => cases h
  | step i rest ih =>
    obtain ⟨l1, st1, hrun, hrest⟩ := Outcome.andThen_eq_fall hfall
    rw [getLast?_step] at h
    cases hlast : rest.flatten.getLast? with
    | none =>
      rw [hlast] at h
      exact Ins.run_of_isJump h hrun
    | some j =>
      rw [hlast] at h ih
      exact ih h hrest
  | blk t inner rest _ ih | loop t inner rest _ ih =>
    obtain ⟨l1, st1, hrest⟩ := inBlk_eq_fall hfall
    exact ih (endsJump_of_end h) hrest
  | when t yes rest _ ih =>
    obtain ⟨x, st0, hfall⟩ := onCondition_eq_fall hfall
    obtain ⟨l1, st1, hrest⟩ := inBlk_eq_fall hfall
    exact ih (endsJump_of_end h) hrest
  | choose t yes no rest _ _ ih =>
    obtain ⟨x, st0, hfall⟩ := onCondition_eq_fall hfall
    obtain ⟨l1, st1, hrest⟩ := inBlk_eq_fall hfall
    rw [flatten, ← cons_append, ← append_assoc] at h
    exact ih (endsJump_of_end h) hrest

lemma Ins.isSupported_of_step (h : g.step c locals prev next i = .ok g') : i.isSupported := by
  have hplain (hstraight : i.isStraight) (hi : i.isCmp = false) :
      ∃ x, c.plainLines locals i g.ops = .ok x := by
    rw [Gen.step_straight hstraight, Ins.isFused, hi, if_neg Bool.false_ne_true, pure_eq_ok,
      ok_bind, if_neg Bool.false_ne_true] at h
    obtain ⟨x, hx, -⟩ := bind_ok.1 h
    exact ⟨x, hx⟩
  cases i with
  | unary t op =>
    obtain ⟨x, hx⟩ := hplain rfl rfl
    obtain ⟨code, hcode, -⟩ := bind_ok.1 hx
    rw [isSupported, hcode]
    rfl
  | binary t op r =>
    obtain ⟨x, hx⟩ := hplain rfl rfl
    obtain ⟨k2, -, hx⟩ := bind_ok.1 hx
    obtain ⟨k1, -, hx⟩ := bind_ok.1 hx
    obtain ⟨code, hcode, -⟩ := bind_ok.1 hx
    rw [isSupported, hcode]
    rfl
  | convert conv dst src r =>
    obtain ⟨x, hx⟩ := hplain rfl rfl
    cases hconv : isConvertible conv dst src r with
    | true => exact hconv
    | false =>
      rw [Ctx.plainLines, convertLines, hconv] at hx
      cases hx
  | tableGet n | tableSet n =>
    obtain ⟨x, hx⟩ := hplain rfl rfl
    cases hx
  | _ => rfl

lemma Ins.isSupported_of_steps {is : List Ins} (h : g.steps c locals next prev is = .ok g') :
  ∀ i ∈ is, i.isSupported := by
  induction is generalizing g prev with
  | nil => simp
  | cons j is ih =>
    obtain ⟨g1, hstep, hrest⟩ := Gen.steps_cons.1 h
    intro i hi
    rcases mem_cons.1 hi with rfl | hi
    · exact isSupported_of_step hstep
    · exact ih hrest i hi

/-! ## Functions -/

variable {C : Scope} {body : Body} {vs : List Val}

lemma Listing.finishes_end (hc : c.Serves C) (hbks : g.blks = [])
  (hprev : (prev.any fun i => i == .return_ || i.leavesOpen) = false)
  (hst : st.map kind = kinds C.rets.reverse) (hops : g.ops = kinds C.rets.reverse)
  (hend : g.step c (kinds C.locals) prev none .end_ = .ok g') (hL : g'.Within L)
  (hagr : Agrees env l st) : L.Finishes m f g.lines.size env (st.map lit) := by
  have hpush := pushArgs_eq (st.map kind) []
  have hneed : c.rets.reverse = st.map kind := by rw [hst, hc.rets, kinds_reverse]
  simp only [Gen.step, hbks, hprev, hops, ← hst, hneed] at hend
  rw [append_nil] at hpush
  rw [hpush] at hend
  cases hend
  rw [← append_nil st] at hagr
  exact hagr.finishes (hL.has rfl)

lemma Ctx.Serves.finishes (hc : c.Serves C) (hbody : code.body = body.flatten ++ [.end_])
  (hoths : code.localKinds = .ok others) (hlocals : c.params ++ others = kinds C.locals)
  (hfollows : C.follows true body) (hgen : c.generate code = .ok L) (hm : m.TwosCompl)
  (hrem : m.ExactRems ∨ ∀ i ∈ body.flatten, i.isSignedRem = false) {turns : Nat}
  (hl : l.map kind = kinds C.locals)
  (hrun : (body.run C.types turns l []).answer (C.rets.map .num) = .returns vs)
  (hagr : Agrees env l []) :
  L.Finishes m f (prologue c.params others).length env (vs.reverse.map lit) := by
  have hsound := sound_of_generate hgen
  obtain ⟨others', g, hoths', hsts, -, -, rfl⟩ := generate_eq_ok.1 hgen
  obtain rfl : others = others' := Except.ok.inj (hoths.symm.trans hoths')
  rw [hbody, hlocals, Gen.steps_append, bind_ok] at hsts
  obtain ⟨g1, hsts, hlast⟩ := hsts
  obtain ⟨g2, hend, hdone⟩ := Gen.steps_cons.1 hlast
  obtain rfl : g2 = g := Except.ok.inj hdone
  obtain ⟨out, htrack, hout⟩ := (Option.any_eq_true _ _).1 hfollows
  have hwithin : g2.Within ⟨c.addr, c.params ++ others, g2.vars, g2.lines.toList,
    g2.tables.toList⟩ :=
    ⟨prefix_rfl, prefix_rfl⟩
  have hpl : body.Placed (.outermost C) c _ m (c.begin others) g1 none .end_ [] out :=
    ⟨htrack, fun i hi => ⟨Ins.isSupported_of_steps hsts i hi, hrem.imp_right fun hall =>
        hall i hi⟩, hsts, (Gen.step_grows hend).within hwithin, rfl⟩
  obtain ⟨hops, hbks⟩ := hpl.accepted hc (Track.defers_of_not rfl _ _) rfl rfl
  have hstd : Stands (.outermost C) (c.begin others) none
    (body.flatten.head?.or (some .end_)) [] [] l [] [] env := .of_done rfl rfl hl rfl rfl hagr
  have hlands := Body.follows (f := f) hm hc hsound (againFor_follows hm hc hsound turns) body
    _ _ _ _ _ _ _ _ _ _ _ _ hpl hstd
  rw [Body.run] at hrun
  cases hx : body.runWith C.types (againFor C.types turns) l [] with
  | fall l' st =>
    rw [hx] at hrun hlands
    obtain ⟨hst, -, env', hreach, hagr'⟩ := hlands
    -- there are results, for the code does not end in a jump
    have hlvs : body.leavesFn = false := by
      refine Bool.eq_false_iff.2 fun hlvs => ?_
      exact Body.runWith_ne_fall (Body.endsJump_of_leavesFn hlvs) hx
    rw [hlvs, if_neg Bool.false_ne_true] at hout
    obtain rfl := eq_of_beq hout
    obtain rfl : st.reverse = vs := by
      rw [Outcome.answer, ← map_reverse, if_pos (map_type_eq.2 hst)] at hrun
      exact Answer.returns.inj hrun
    have hagr' : Agrees env' l' (st ++ []) := hagr'
    have hops : g1.ops = kinds C.rets.reverse ++ [] := hops
    rw [append_nil] at hagr' hops
    rw [Option.or_none] at hend
    rw [reverse_reverse]
    exact hreach.finishes (finishes_end hc hbks hlvs hst hops hend hwithin hagr')
  | branch d l' st =>
    rw [hx] at hlands
    obtain ⟨o, -, -, ho, -⟩ := hlands
    cases ho
  | ret st =>
    rw [hx] at hrun hlands
    obtain ⟨ws, hws, hfinishes⟩ := hlands
    simp only [Outcome.answer, hws] at hrun
    obtain rfl := Answer.returns.inj hrun
    rw [reverse_reverse]
    exact hfinishes
  | trap | stuck | timeout =>
    rw [hx] at hrun
    cases hrun

end

/-- A generated function returns what the function returns that it has been made for, as long as
branches get what they carry to where it belongs. -/
theorem Ctx.generate_returns {c : Ctx} {C : Scope} (hc : c.Serves C) {code : Code}
  {body : Body} (hbody : code.body = body.flatten ++ [.end_]) {others : List Kind}
  (hoths : code.localKinds = .ok others) (hlocals : c.params ++ others = kinds C.locals)
  {t : FnType} (hprm : kindsOf t.params = .ok c.params)
  (hret : t.rets = C.rets.map .num)
  (hfollows : C.follows true body = true) {L : Listing} (hgen : c.generate code = .ok L)
  {f : IR.Fn} (hf : f.inputs = c.addr :: c.params) {m : Sem} (hm : m.TwosCompl)
  (hrem : m.ExactRems ∨ ∀ i ∈ body.flatten, i.isSignedRem = false) {turns : Nat}
  {args vs : List Val} (hrun : invoke C.types t code.locals body turns args = .returns vs)
  (base : Lit) :
  m.Returns (L.asm f) (base :: args.map Val.lit) (vs.map Val.lit) := by
  unfold invoke at hrun
  split at hrun
  · cases hrun
  rename_i zeros hzeros
  split at hrun
  · rename_i hargs
    obtain ⟨hzero, hkinds⟩ := initialLocals_spec hzeros
    obtain rfl := Except.ok.inj (hoths.symm.trans hkinds)
    have hargs : args.map Val.kind = c.params := by
      rw [← hargs, kindsOf_types] at hprm
      exact Except.ok.inj hprm
    have hl : (args ++ zeros).map Val.kind = kinds C.locals := by
      rw [List.map_append, hargs, hlocals]
    rw [hret] at hrun
    have hfinishes (env : Env) (hagr : Agrees env (args ++ zeros) []) :=
      hc.finishes (f := f) hbody hoths hlocals hfollows hgen hm hrem hl hrun hagr
    have hsound := sound_of_generate hgen
    obtain ⟨others, g, hoths', hsts, -, -, rfl⟩ := generate_eq_ok.1 hgen
    obtain rfl := Except.ok.inj (hoths.symm.trans hoths')
    have hreturns := returns_of_finishes hsound
      (Gen.steps_grows hsts).lines rfl rfl hf hargs rfl hzero
      hfinishes base
    rwa [← List.map_reverse, List.reverse_reverse] at hreturns
  · cases hrun

/-- A function to be filled with the code of a function with the given parameters. -/
def emptyFn (params : List NumType) : IR.Fn :=
  { name := "fn", kind := .normal, inputs := .a64 :: kinds params }

theorem generate_returns_factorial : ∃ L, (Ctx.bare none [.i32] [.i32]).generate
    ⟨[(1, .num .i32)], factorial.flatten ++ [.end_]⟩ = .ok L ∧
  Sem.standard.Returns (L.asm (emptyFn [.i32])) [.ofInt .a64 0, .word .s32 5#32]
    [.word .s32 120#32] := by
  have hc := Ctx.bare_serves none [.i32] [.i32, .i32] [.i32]
  have hbody : (Code.mk [(1, .num .i32)] (factorial.flatten ++ [.end_])).body = _ := rfl
  have hfollows : (Scope.bare none [.i32, .i32] [.i32]).follows true factorial = true := by decide
  obtain ⟨L, hL⟩ := hc.generates hbody rfl rfl hfollows (by decide)
  have hrun : invoke none ⟨[.num .i32], [.num .i32]⟩ [(1, .num .i32)] factorial 6 [.i32 5] =
      .returns [.i32 120] := by decide
  exact ⟨L, hL, Ctx.generate_returns hc hbody rfl rfl rfl rfl hfollows hL rfl
    Sem.standard_twosComplement (.inl Sem.standard_exactRems) hrun (.ofInt .a64 0)⟩

/-- The code of a function with the given number of variables is valid and makes the function return
`vs`, but this is not what the generated function returns. -/
def Body.GoesAstray (body : Body) (types : Option (List FnType)) (locals : Nat)
  (rets : List NumType) (vs : List Val) : Prop :=
  (Scope.bare types (List.replicate locals .i32) rets).Validates body ∧
    invoke types ⟨[], rets.map .num⟩ [(locals, .num .i32)] body 1 [] = .returns vs ∧
    ∃ L, (Ctx.bare types [] rets).generate ⟨[(locals, .num .i32)], body.flatten ++ [.end_]⟩ =
        .ok L ∧
      ¬Sem.standard.Returns (L.asm (emptyFn [])) [.ofInt .a64 0] (vs.map lit)

def branchesOver : Body :=
  .blk (.value (.num .i32))
    (.plain [.intConst .i32 1, .intConst .i32 2, .intConst .i32 0, .brIf 0, .drop] .done) .done

def carriesTwo : Body :=
  .blk (.typed 0) (.plain [.intConst .i32 1, .intConst .i32 2, .intConst .i32 3, .br 0] .done) .done

def replacesParam : Body :=
  .plain [.intConst .i32 1] <| .blk (.typed 0) (.plain [.intConst .i32 2, .br 0] .done) .done

def jumpsByTable : Body :=
  .blk (.value (.num .i32))
    (.plain [.intConst .i32 1, .intConst .i32 2, .intConst .i32 0, .brTable [] 0, .drop] .done)
    .done

/-- A loop with a parameter that another value is given to when the loop is begun anew. -/
def beginsAnew : Body :=
  .blk (.value (.num .i32)) (.plain [.intConst .i32 1] <|
      .loop (.typed 0)
        (.plain [.localGet 0, .brIf 1, .intConst .i32 1, .localSet 0, .intConst .i32 2, .br 0]
          .done)
        .done)
    .done

/-- Operands get lost by a conditional branch that is not taken, by moves onto each other, by
moves to where the parameters of a block are, and by jumps that do not move them at all. -/
theorem generate_loses_opnds : branchesOver.GoesAstray none 0 [.i32] [.i32 1] ∧
  carriesTwo.GoesAstray (some [⟨[], [.num .i32, .num .i32]⟩]) 0 [.i32, .i32] [.i32 2, .i32 3] ∧
  replacesParam.GoesAstray (some [⟨[.num .i32], [.num .i32]⟩]) 0 [.i32] [.i32 2] ∧
  jumpsByTable.GoesAstray none 0 [.i32] [.i32 2] ∧
  beginsAnew.GoesAstray (some [⟨[.num .i32], [.num .i32]⟩]) 1 [.i32] [.i32 2] := by
  have hvalid {C : Scope} {b : Body} (h : C.follows false b = true) := Scope.validates_of_follows h
  refine ⟨⟨hvalid (by decide), by decide, _, rfl, ?_⟩, ⟨hvalid (by decide), by decide, _, rfl, ?_⟩,
    ⟨hvalid (by decide), by decide, _, rfl, ?_⟩, ⟨hvalid (by decide), by decide, _, rfl, ?_⟩,
    hvalid (by decide), by decide, _, rfl, ?_⟩
  · exact Sem.not_returns_of_trace 16 (fun _ => default) [.word .s32 2#32] (by decide) (by decide)
  · exact Sem.not_returns_of_trace 16 (fun _ => default) [.word .s32 3#32, .word .s32 3#32]
      (by decide) (by decide)
  · exact Sem.not_returns_of_trace 16 (fun _ => default) [.word .s32 1#32] (by decide) (by decide)
  · exact Sem.not_returns_of_trace 16 (fun _ => default) [.word .s32 1#32] (by decide) (by decide)
  · exact Sem.not_returns_of_trace 32 (fun _ => default) [.word .s32 1#32] (by decide) (by decide)

end Retarget.Wasm
