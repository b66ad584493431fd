import Retarget.Proofs.Generation

/-!
# Code that is accepted

The generator follows the kinds of operands along the code, as `Body.track` does their types. It has
code for all that can be followed if it has code for each single instruction. Of a comparison left
to the next instruction it still has the operands.
-/

namespace Retarget.Wasm
open List Option Ins Open Gen Track NumType Ctx
open IR (Kind Lit Op)
open IR.Pass (bind_ok mapM_ok)
variable {a : Arrow} {isLoop leaves : Bool} {low : List Kind} {below inside : List NumType}
  {t : NumType} {s : Reading} {r : Relation} {b : Tgt} {α : Type} {o : Open} {bs : List Open}

/-! ## Types and kinds -/

def kinds (ts : List NumType) : List Kind := ts.map kind

section
variable (t : NumType) (ts ts' : List NumType)

@[simp] lemma kinds_nil : kinds [] = [] := rfl
@[simp] lemma kinds_cons : kinds (t :: ts) = t.kind :: kinds ts := rfl
@[simp] lemma kinds_append : kinds (ts ++ ts') = kinds ts ++ kinds ts' := map_append
@[simp] lemma kinds_reverse : kinds ts.reverse = (kinds ts).reverse := map_reverse
@[simp] lemma length_kinds : (kinds ts).length = ts.length := length_map _

end

lemma kindsOf_eq {ts : List ValType} {ns : List NumType} (h : ts.mapM ValType.num? = some ns) :
  kindsOf ts = .ok (kinds ns) := by
  induction ts generalizing ns with
  | nil =>
    obtain rfl : [] = ns := by simpa using h
    rfl
  | cons t ts ih =>
    obtain ⟨n, ns', hn, hns', rfl⟩ := exists_of_mapM_cons h
    have hkind : t.kind = .ok n.kind := by
      cases t with
      | num t =>
        cases hn
        rfl
      | ref t => cases hn
    rw [kindsOf, mapM_cons, hkind, show ts.mapM ValType.kind = _ from ih hns']
    rfl

lemma itemAt_eq {items : Option (List α)} {n : Nat} {x : α} (h : items.bind (·[n]?) = some x) :
  itemAt items n = .ok x := by
  obtain ⟨xs, rfl, hx⟩ := bind_eq_some_iff.1 h
  simp only [itemAt, orFault, ok_bind, hx]

lemma FnType.kindsOf_arrow {t : FnType} (h : t.arrow? = some a) :
  kindsOf t.params = .ok (kinds a.params) ∧ kindsOf t.rets = .ok (kinds a.rets) := by
  obtain ⟨ps, hps, h⟩ := bind_eq_some_iff.1 h
  obtain ⟨rs, hrs, h⟩ := bind_eq_some_iff.1 h
  cases h
  exact ⟨kindsOf_eq hps, kindsOf_eq hrs⟩

lemma Scope.blkKinds_eq {C : Scope} {t : BlkType} (h : C.blkArrow? t = some a) :
  blkKinds C.types t = .ok (kinds a.params, kinds a.rets) := by
  obtain ⟨ft, hft, ha⟩ := bind_eq_some_iff.1 h
  obtain ⟨hprm, hret⟩ := FnType.kindsOf_arrow ha
  cases t with
  | empty =>
    cases hft
    cases ha
    rfl
  | value t =>
    cases hft
    cases t with
    | num n =>
      cases ha
      rfl
    | ref r => cases ha
  | typed n => rw [blkKinds, itemAt_eq hft, ok_bind, hret, ok_bind, hprm, ok_bind]; rfl

lemma NumType.toUnsigned_kind (h : t.isInt) : ∃ u, toUnsigned t.kind = .ok u := by
  cases t
  case i32 | i64 => exact ⟨_, rfl⟩
  all_goals cases h

/-! ## What the generator needs -/

def Ins.isSupported : Ins → Bool
  | unary _ op => op.code.isOk
  | binary _ op _ => op.code.isOk
  | convert c dst src s => isConvertible c dst src s
  | tableGet _ | tableSet _ => false
  | _ => true

def Ins.unsigned? : Ins → Option NumType
  | binary t op s => if op.isUnsigned s then some t else none
  | compare t _ s => if s = .unsigned then some t else none
  | convert c dst src s => if s = .unsigned then some (if c = .trunc then dst else src) else none
  | _ => none

lemma Ins.isInt_of_unsigned {i : Ins} (h : i ∈ numeric) (ht : i.unsigned? = some t) : t.isInt := by
  have hall : numeric.all fun i => i.unsigned?.all isInt := by decide
  have hi := all_eq_true.1 hall i h
  rwa [ht] at hi

/-- What the code of a function refers to is there, with the types that it is taken to have. -/
structure Ctx.Serves (c : Ctx) (C : Scope) : Prop where
  types : c.module.types = C.types
  rets : c.rets = kinds C.rets
  globals : ∀ (n : Nat) (g : NumType × Bool), C.globals[n]? = some g →
    ∃ x, itemAt c.module.globals n = .ok x ∧ x.type.value = .num g.1
  functions : ∀ (n : Nat) (a : Arrow), C.functions[n]? = some a →
      ∃ (callee : Function) (f : IR.FnId),
    c.functions[n]? = some callee ∧ c.syms.lookup callee.name = some f ∧ f ∈ c.prog.fnOrder ∧
    (c.prog.fn f).inputs = c.addr :: kinds a.params ∧ (c.prog.fn f).outputs = kinds a.rets
  memory : C.hasMemory → ∃ f, c.syms.lookup "__memory_grow" = some f

/-! ## Instructions that do not send control anywhere -/

lemma pushArgs_eq (ks rest : List Kind) : pushArgs ks (ks ++ rest) =
  .ok ((slotsAbove rest.length ks).map fun v => .ins .pusharg [.var v], rest) := by
  induction ks with
  | nil => rfl
  | cons k ks ih =>
    simp only [cons_append, pushArgs, slot, popKind, ok_bind, beq_self_eq_true, ih,
      length_append, Nat.add_comm ks.length]
    rfl

lemma popRets_ops (ks ops : List Kind) : (popRets ks ops).2 = ks.reverse ++ ops := by
  induction ks generalizing ops with
  | nil => rfl
  | cons k ks ih => rw [popRets, ih, reverse_cons, append_assoc]; rfl

section
variable {c : Ctx} {C : Scope}

def Ctx.Admits (c : Ctx) (locals : List Kind) (i : Ins) (ops ops' : List Kind) : Prop :=
  ∃ lines, c.plainLines locals i ops = .ok (lines, ops')

lemma Ctx.callLines_eq {f : IR.FnId} {k : Kind} (low : List Kind)
  (hinputs : (c.prog.fn f).inputs = k :: kinds a.params)
  (houtputs : (c.prog.fn f).outputs = kinds a.rets) :
  ∃ lines : Line → List Line, ∀ call, c.callLines f call (kinds a.params.reverse ++ low) =
    .ok (lines call, kinds a.rets.reverse ++ low) := by
  refine ⟨fun call => (slotsAbove low.length (kinds a.params).reverse).map
    (fun v => .ins .pusharg [.var v]) ++ [.ins .pusharg [.var .base], call] ++
    (popRets (kinds a.rets) low).1, fun call => ?_⟩
  simp only [callLines, hinputs, houtputs, drop_succ_cons, drop_zero, kinds_reverse,
    pushArgs_eq, ok_bind, popRets_ops, pure_eq_ok]

lemma exists_ok_of_isOk {x : Res α} (h : x.isOk) : ∃ a, x = .ok a := by
  cases x with
  | ok a => exact ⟨a, rfl⟩
  | error e => cases h

lemma asCompared_eq {isUnsigned : Bool} (h : isUnsigned = true → t.isInt) (size : Nat)
  (a b : Opnd) : ∃ lines x y, asCompared isUnsigned size t.kind a b = .ok (lines, x, y) := by
  cases isUnsigned with
  | false => exact ⟨[], a, b, rfl⟩
  | true =>
    obtain ⟨u, hu⟩ := toUnsigned_kind (h rfl)
    exact ⟨_, _, _, by simp only [asCompared, hu]; rfl⟩

lemma Ins.isInt_of_compare (hmem : compare t r s ∈ numeric) (hs : s == .unsigned) : t.isInt :=
  isInt_of_unsigned hmem (if_pos (eq_of_beq hs))

lemma binaryLines_eq {op : BinaryOp} (hi : (binary t op s).isSupported)
  (hmem : binary t op s ∈ numeric) (low : List Kind) :
  ∃ lines, binaryLines op s (t.kind :: t.kind :: low) = .ok (lines, t.kind :: low) := by
  obtain ⟨code, hcode⟩ := exists_ok_of_isOk hi
  simp only [binaryLines, popKind, hcode]
  cases hu : op.isUnsigned s with
  | false => exact ⟨_, rfl⟩
  | true =>
    obtain ⟨u, hk⟩ := toUnsigned_kind (isInt_of_unsigned hmem (by rw [unsigned?, hu, if_pos rfl]))
    simp only [hk, ok_bind]
    exact ⟨_, rfl⟩

lemma compareLines_eq (hmem : compare t r s ∈ numeric) (low : List Kind) :
  ∃ lines, compareLines r s (t.kind :: t.kind :: low) = .ok (lines, .s32 :: low) := by
  have hcompared := asCompared_eq (isInt_of_compare hmem) (low.length + 1 + 1)
  simp only [compareLines, popKind, length_cons]
  cases r.move.2.1 with
  | false =>
    obtain ⟨lines, x, y, h⟩ := hcompared (slot low t.kind) (slot (t.kind :: low) t.kind)
    exact ⟨_, by simp only [Bool.false_eq_true, if_false, h, ok_bind]; rfl⟩
  | true =>
    obtain ⟨lines, x, y, h⟩ := hcompared (slot (t.kind :: low) t.kind) (slot low t.kind)
    exact ⟨_, by simp only [if_true, h, ok_bind]; rfl⟩

lemma convertLines_eq {conv : Conversion} {dst src : NumType}
  (hi : (convert conv dst src s).isSupported)
  (hmem : convert conv dst src s ∈ numeric) (low : List Kind) :
  ∃ lines, convertLines conv dst src s (src.kind :: low) = .ok (lines, dst.kind :: low) := by
  have hconv : isConvertible conv dst src s := hi
  have huns : ∀ {t : NumType}, s = .unsigned → (if conv = .trunc then dst else src) = t →
      ∃ u, toUnsigned t.kind = .ok u := by
    rintro t hs rfl
    exact toUnsigned_kind (isInt_of_unsigned hmem (if_pos hs))
  simp only [convertLines, hconv, popKind, Bool.and_eq_true, beq_iff_eq]
  by_cases hs : s = .unsigned
  · by_cases ht : conv = .trunc
    · obtain ⟨u, hu⟩ := huns hs (if_pos ht)
      exact ⟨_, by simp only [hs, ht, hu]; rfl⟩
    · obtain ⟨u, hu⟩ := huns hs (if_neg ht)
      exact ⟨_, by simp only [hs, ht, hu, ok_bind]; rfl⟩
  · exact ⟨_, by simp only [hs]; rfl⟩

lemma Ctx.Serves.admits (hc : c.Serves C) {i : Ins} (ha : i.arrow? C = some a)
  (hcall : ∀ type table, i ≠ .callIndirect type table) (hi : i.isSupported)
  (low : List Kind) : c.Admits (kinds C.locals) i (kinds a.params.reverse ++ low)
      (kinds a.rets.reverse ++ low) := by
  have hlocal : ∀ {n : Nat} {t : NumType}, C.locals[n]? = some t →
      localVar (kinds C.locals) n = .ok (.loc n, t.kind) := by
    intro n t ht
    rw [localVar, kinds, getElem?_map, ht]
    rfl
  cases i with
  | nop =>
    cases ha
    exact ⟨_, rfl⟩
  | intConst t n | load t n x | store t n x | eqz t | reinterpret dst src =>
    obtain ⟨-, ⟨⟩⟩ := ite_none_right_eq_some.1 ha
    exact ⟨_, rfl⟩
  | realConst t x =>
    obtain ⟨-, ha⟩ := ite_none_left_eq_some.1 ha
    cases ha
    exact ⟨_, rfl⟩
  | localGet n =>
    obtain ⟨t, ht, rfl⟩ := map_eq_some_iff.1 ha
    exact ⟨_, by rw [plainLines, hlocal ht]; rfl⟩
  | localSet n | localTee n =>
    obtain ⟨t, ht, rfl⟩ := map_eq_some_iff.1 ha
    exact ⟨_, by simp only [plainLines, hlocal ht]; rfl⟩
  | globalGet n =>
    obtain ⟨g, hg, rfl⟩ := map_eq_some_iff.1 ha
    obtain ⟨x, hx, hval⟩ := hc.globals n g hg
    exact ⟨_, by simp only [plainLines, hx, ok_bind, hval]; rfl⟩
  | globalSet n =>
    obtain ⟨g, -, ha⟩ := bind_eq_some_iff.1 ha
    obtain ⟨-, ⟨⟩⟩ := ite_none_right_eq_some.1 ha
    exact ⟨_, rfl⟩
  | memorySize n =>
    obtain ⟨⟨hmem, -⟩, ⟨⟩⟩ := ite_none_right_eq_some.1 ha
    obtain ⟨f, hf⟩ := hc.memory hmem
    exact ⟨_, by simp only [plainLines, growLines, hf]; rfl⟩
  | memoryGrow n =>
    obtain ⟨⟨hmem, -⟩, ⟨⟩⟩ := ite_none_right_eq_some.1 ha
    obtain ⟨f, hf⟩ := hc.memory hmem
    exact ⟨_, by simp only [plainLines, growLines, hf]; rfl⟩
  | call n =>
    obtain ⟨callee, f, hcallee, hf, -, hinputs, houtputs⟩ := hc.functions n a ha
    obtain ⟨lines, hlns⟩ := c.callLines_eq low hinputs houtputs
    exact ⟨_, by simp only [plainLines, directLines, hcallee, hf, orFault, ok_bind, hlns]; rfl⟩
  | callIndirect type table => exact absurd rfl (hcall type table)
  | unary t op =>
    obtain ⟨-, ⟨⟩⟩ := ite_none_right_eq_some.1 ha
    obtain ⟨⟨code, second⟩, hcode⟩ := exists_ok_of_isOk hi
    exact ⟨_, by simp only [plainLines, unaryLines, hcode]; rfl⟩
  | binary t op s =>
    obtain ⟨hmem, ⟨⟩⟩ := ite_none_right_eq_some.1 ha
    exact binaryLines_eq hi hmem low
  | compare t r s =>
    obtain ⟨hmem, ⟨⟩⟩ := ite_none_right_eq_some.1 ha
    exact compareLines_eq hmem low
  | convert conv dst src s =>
    obtain ⟨hmem, ⟨⟩⟩ := ite_none_right_eq_some.1 ha
    exact convertLines_eq hi hmem low
  | _ => cases ha

lemma Ctx.Serves.admits_indirect (hc : c.Serves C) {type table : Nat}
  (ha : C.calledArrow? type table = some a) (hmem : a ∈ C.functions) (low : List Kind) :
  c.Admits (kinds C.locals) (.callIndirect type table) (kinds (.i32 :: a.params.reverse) ++ low)
    (kinds a.rets.reverse ++ low) := by
  obtain ⟨⟨-, rfl⟩, hblk⟩ := ite_none_right_eq_some.1 ha
  obtain ⟨t, ht, harrow⟩ := bind_eq_some_iff.1 hblk
  obtain ⟨hprm, hret⟩ := FnType.kindsOf_arrow harrow
  have htype : itemAt c.module.types type = .ok t := hc.types ▸ itemAt_eq ht
  -- some function of the signature is found, though it need not be this one
  obtain ⟨f, hf, hinputs, houtputs⟩ : ∃ f, c.signature (c.addr :: kinds a.params)
    (kinds a.rets) =
      .ok f ∧ (c.prog.fn f).inputs = c.addr :: kinds a.params ∧
      (c.prog.fn f).outputs = kinds a.rets := by
    obtain ⟨n, hn⟩ := mem_iff_getElem?.1 hmem
    obtain ⟨callee, f, -, -, hf, hinputs, houtputs⟩ := hc.functions n a hn
    let fits (f : IR.FnId) : Bool := (c.prog.fn f).outputs == kinds a.rets &&
      (c.prog.fn f).inputs == c.addr :: kinds a.params
    have hfits : fits f := by simp [fits, hinputs, houtputs]
    obtain ⟨f', hf'⟩ := isSome_iff_exists.1 (find?_isSome.2 ⟨f, hf, hfits⟩)
    have hspec : fits f' := find?_some hf'
    simp only [fits, Bool.and_eq_true, beq_iff_eq] at hspec
    exact ⟨f', congrArg (orFault _) hf', hspec.2, hspec.1⟩
  obtain ⟨lines, hlns⟩ := c.callLines_eq low hinputs houtputs
  have hindex : i32.kind == Kind.s32 := rfl
  exact ⟨_, by
    simp only [plainLines, indirectLines, htype, hprm,
      hret, hf, ok_bind, kinds_cons, cons_append, popKind, hlns]
    rfl⟩

/-! ## Blocks -/

/-- The block has been opened for the target of a branch. -/
structure Open.Fits (o : Open) (b : Tgt) : Prop where
  loop : o.sort = .loop ↔ b.isLoop
  params : o.params = kinds b.arrow.params
  rets : o.rets = kinds b.arrow.rets
  start : o.start = b.below + b.arrow.params.length

lemma Open.Fits.below_eq (h : o.Fits b) : o.below = b.below := by
  rw [below, h.start, h.params, length_kinds]
  omega

lemma Open.Fits.after_eq (h : o.Fits b) : o.after = b.below + b.arrow.rets.length := by
  rw [after, h.below_eq, h.rets, length_kinds]

/-- Too many operands are dropped and missing ones are added, down from the topmost one. -/
lemma refit_eq {rets inside : List α} (low : List α)
  (h : inside.drop (inside.length - rets.length) = (rets.take inside.length).reverse) :
  let kept := (inside ++ low).drop (inside.length + low.length - (low.length + rets.length))
  (rets.drop (rets.length - (low.length + rets.length - kept.length))).reverse ++ kept =
    rets.reverse ++ low := by
  intro kept
  have hkept : kept = (rets.take inside.length).reverse ++ low := by
    have hcnt : inside.length + low.length - (low.length + rets.length) =
        inside.length - rets.length := by omega
    rw [← h, ← drop_append_of_le_length (Nat.sub_le _ _), ← hcnt]
  have hmissing : rets.length - (low.length + rets.length - kept.length) =
      min inside.length rets.length := by
    rw [hkept, length_append, length_reverse, length_take]
    omega
  have hdrop : rets.drop (min inside.length rets.length) = rets.drop inside.length := by
    rcases Nat.le_total inside.length rets.length with hle | hle
    · rw [Nat.min_eq_left hle]
    · rw [Nat.min_eq_right hle, drop_length, drop_eq_nil_of_le hle]
  rw [hmissing, hdrop, hkept, ← append_assoc, ← reverse_append, take_append_drop]

lemma Open.Fits.finish_eq (h : o.Fits b)
  (hends : endsWith b.arrow.rets leaves inside) (hlow : low.length = b.below) :
  o.finish leaves (kinds inside ++ low) = .ok (kinds b.arrow.rets.reverse ++ low) := by
  simp only [finish, h.below_eq, h.after_eq, h.rets, length_append, length_kinds, hlow]
  cases leaves with
  | false =>
    obtain rfl := endsWith_spec hends rfl
    have hlen : ensure (decide (((b.arrow.rets.reverse.length + b.below : Nat) : Int) =
        b.below + b.arrow.rets.length)) "operands left over" = .ok () := by
      rw [length_reverse]
      exact ensure_eq_ok.2 (decide_eq_true (by omega))
    rw [hlen]
    rfl
  | true =>
    have hfit : ensure (decide ((b.below : Int) ≤ ((inside.length + b.below : Nat) : Int)))
        "operands used up" = .ok () := ensure_eq_ok.2 (decide_eq_true (by omega))
    have hafter : ¬((b.below : Int) + b.arrow.rets.length < 0) := by omega
    rw [hfit]
    have hnat : ((b.below : Int) + b.arrow.rets.length).toNat =
        b.below + b.arrow.rets.length := by omega
    rw [endsWith] at hends
    have hends := eq_of_beq hends
    have hkinds : (kinds inside).drop ((kinds inside).length - (kinds b.arrow.rets).length) =
        ((kinds b.arrow.rets).take (kinds inside).length).reverse := by
      simpa [kinds] using congrArg kinds hends
    have hrefit := refit_eq low hkinds
    simp only [length_kinds, hlow] at hrefit
    simp only [hnat, hrefit, kinds_reverse]
    rfl

/-- Before the other part of a block there are its parameters. -/
lemma Open.Fits.turn_eq (h : o.Fits b)
  (hends : leaves = false → inside = b.arrow.rets.reverse) (hlow : low.length = b.below) :
  o.turn leaves (kinds inside ++ low) = .ok (kinds b.arrow.params.reverse ++ low) := by
  have hcheck : (if leaves then decide (o.below ≤ ((kinds inside ++ low).length : Int))
      else decide (((kinds inside ++ low).length : Int) = o.after)) = true := by
    rw [h.below_eq, h.after_eq, length_append, length_kinds]
    cases leaves with
    | true => exact decide_eq_true (by omega)
    | false =>
      rw [hends rfl, length_reverse]
      exact decide_eq_true (by omega)
  have hlowest : o.lowest (kinds inside ++ low) = .ok low := by
    have hnot : ¬((b.below : Int) < 0) := by omega
    rw [lowest, h.below_eq, if_neg hnot, Int.toNat_natCast, ← hlow, length_append,
      Nat.add_sub_cancel, drop_left]
  rw [turn, ensure_eq_ok.2 hcheck, hlowest, h.params, kinds_reverse]
  rfl

def Open.new (s : Construct) (no : Nat) (a : Arrow) (below : Nat) : Open :=
  ⟨s, no, kinds a.params, kinds a.rets, a.params.length + below, s == .cond⟩

lemma Open.fits_new {s : Construct} (hs : s = .loop ↔ isLoop = true) (no : Nat) (a : Arrow)
  (below : Nat) : (new s no a below).Fits ⟨isLoop, a, below⟩ :=
  ⟨hs, rfl, rfl, Nat.add_comm _ _⟩

lemma Gen.makeBlk_eq (hc : c.Serves C) {t : BlkType} (ha : C.blkArrow? t = some a) (g : Gen)
  (s : Construct) (low : List Kind) : g.makeBlk c s t (kinds a.params.reverse ++ low) =
    .ok (.new s g.count a low.length) := by
  have hsame : ((((kinds a.params.reverse ++ low).take (kinds a.params).length).reverse.zip
      (kinds a.params)).all fun p => p.1 == p.2) := by
    rw [kinds_reverse, ← length_reverse, take_left, reverse_reverse]
    induction kinds a.params with
    | nil => rfl
    | cons k ks ih => simp [ih]
  simp only [makeBlk, hc.types, Scope.blkKinds_eq ha, ok_bind, hsame]
  simp [ensure, new]

/-! ## Conditions and branches -/

/-- The types of the operands that the generator has on its stack: those of a comparison that is
left to the next instruction, or else those that there are. -/
def Track.Defers (T : Track) (prev next : Option Ins) (ts ts0 : List NumType) : Prop :=
  if prev.any isCmp && next.any takesCond then ∃ i, prev = some i ∧ i.Followed T ts0 ts
  else ts0 = ts

variable {T : Track} {prev next : Option Ins} {ts ts0 out : List NumType} {i : Ins}

lemma Track.Defers.eq (h : T.Defers prev next ts ts0)
  (hnext : next.any takesCond = false) : ts0 = ts := by
  rwa [Defers, hnext, Bool.and_false, if_neg Bool.false_ne_true] at h

lemma Track.defers_of_not (h : prev.any isCmp = false) (next : Option Ins)
  (ts : List NumType) : T.Defers prev next ts ts := by
  rw [Defers, h, Bool.false_and, if_neg Bool.false_ne_true]

/-- A comparison takes two operands, or one if it is to be compared with zero. -/
lemma Ins.Followed.of_compare (h : i.Followed T ts0 ts) (hi : i.isCmp) :
  ∃ t rest, ts = .i32 :: rest ∧ (i = .eqz t ∧ ts0 = t :: rest ∨
    ∃ r s, i = .compare t r s ∧ i ∈ numeric ∧ ts0 = t :: t :: rest) := by
  cases h with
  | @arrow _ a ha _ rest =>
    cases i with
    | eqz t =>
      obtain ⟨-, ⟨⟩⟩ := ite_none_right_eq_some.1 ha
      exact ⟨t, rest, rfl, .inl ⟨rfl, rfl⟩⟩
    | compare t r s =>
      obtain ⟨hmem, ⟨⟩⟩ := ite_none_right_eq_some.1 ha
      exact ⟨t, rest, rfl, .inr ⟨r, s, rfl, hmem, rfl⟩⟩
    | _ => cases hi
  | _ => cases hi

lemma condition_eq (hi : i.takesCond) (h : T.Defers prev (some i) (.i32 :: ts) ts0) (inverse : Bool)
  (low : List Kind) (size : Nat) : ∃ cond lines x y, condition prev inverse (kinds ts0 ++ low) =
  .ok cond ∧ cond.rest = kinds ts ++ low ∧ cond.opnds size = .ok (lines, x, y) := by
  rw [Track.Defers, Option.any_some, hi] at h
  cases hcmp : prev.any isCmp with
  | false =>
    rw [hcmp] at h
    subst h
    unfold condition
    split
    · cases hcmp
    · cases hcmp
    · exact ⟨_, _, _, _, rfl, rfl, rfl⟩
  | true =>
    rw [hcmp] at h
    obtain ⟨j, rfl, hj⟩ := h
    obtain ⟨t, rest, hts, ⟨rfl, rfl⟩ | ⟨r, s, rfl, hmem, rfl⟩⟩ := hj.of_compare hcmp
    · obtain rfl := (cons.inj hts).2
      exact ⟨_, _, _, _, rfl, rfl, rfl⟩
    · obtain rfl := (cons.inj hts).2
      have hcompared := asCompared_eq (isInt_of_compare hmem) size
      simp only [condition]
      cases (if inverse then r.negate else r).branch.2 with
      | false =>
        obtain ⟨lines, x, y, hlns⟩ := hcompared (.var (.op (kinds ts ++ low).length t.kind))
          (.var (.op (t.kind :: (kinds ts ++ low)).length t.kind))
        exact ⟨_, lines, x, y, rfl, rfl, hlns⟩
      | true =>
        obtain ⟨lines, x, y, hlns⟩ := hcompared (.var (.op (t.kind :: (kinds ts ++ low)).length
          t.kind)) (.var (.op (kinds ts ++ low).length t.kind))
        exact ⟨_, lines, x, y, rfl, rfl, hlns⟩

lemma Open.resultMoves_eq {ops : List Kind} (h : o.rets.length ≤ ops.length) :
  o.resultMoves ops = .ok (((range o.rets.length).map fun i =>
      (Var.op (o.start + o.rets.length - 1 - i) (ops.getD i .invalid),
        Var.op (ops.length - 1 - i) (ops.getD i .invalid))).filter fun (d, s) => d ≠ s) := by
  have hmove : ∀ i ∈ range o.rets.length, wrapIdx ((ops.length : Int) - 1 - i) ops.length =
      .ok (ops.length - 1 - i) := by
    intro i hi
    have hlt := mem_range.1 hi
    have hnot : ¬((ops.length : Int) - 1 - i < 0) := by omega
    have hin : 0 ≤ (ops.length : Int) - 1 - i ∧ (ops.length : Int) - 1 - i < ops.length := by omega
    rw [wrapIdx, if_neg hnot, if_pos hin]
    exact congrArg _ (by omega)
  have hmoves : (range o.rets.length).mapM (fun i => do
      let pos ← wrapIdx ((ops.length : Int) - 1 - i) ops.length
      let k := ops.getD (ops.length - 1 - pos) .invalid
      return (Var.op (o.start + o.rets.length - 1 - i) k, Var.op pos k)) =
      .ok ((range o.rets.length).map fun i =>
        (Var.op (o.start + o.rets.length - 1 - i) (ops.getD i .invalid),
          Var.op (ops.length - 1 - i) (ops.getD i .invalid))) := by
    refine mapM_ok fun i hi => ?_
    have hback : ops.length - 1 - (ops.length - 1 - i) = i := by
      have := mem_range.1 hi
      omega
    rw [hmove i hi, ok_bind, hback]
    rfl
  rw [resultMoves, hmoves]
  rfl

lemma Open.Fits.branchMoves_eq (h : o.Fits b) {rest : List NumType}
  (hts : ts = b.types.reverse ++ rest) (low : List Kind) :
  ∃ moves, o.branchMoves (kinds ts ++ low) = .ok moves := by
  unfold branchMoves
  split
  · exact ⟨[], rfl⟩
  · rename_i hsort
    have htypes : b.types = b.arrow.rets := if_neg fun hloop => hsort (h.loop.2 hloop)
    refine ⟨_, o.resultMoves_eq ?_⟩
    rw [h.rets, hts, htypes]
    simp only [length_kinds, length_append, length_reverse]
    omega

lemma exists_fits {g : Gen} (hbks : List.Forall₂ Open.Fits g.blks T.blks) {d : Nat}
  (hb : T.blks[d]? = some b) : ∃ o, g.blks[d]? = some o ∧ o.Fits b := by
  obtain ⟨hd, rfl⟩ := List.getElem?_eq_some_iff.1 hb
  have hd' : d < g.blks.length := hbks.length_eq ▸ hd
  exact ⟨g.blks[d], List.getElem?_eq_getElem hd', hbks.get hd' hd⟩

/-! ## Single steps -/

/-- Does the instruction neither send control anywhere nor choose? -/
def Ins.isStraight : Ins → Bool
  | blk _ | loop _ | if_ _ | else_ | end_ | br _ | brIf _ | brTable .. | select => false
  | _ => true

lemma Ins.isStraight_of_arrow (h : i.arrow? C = some a) : i.isStraight := by
  cases i <;> first | rfl | cases h

lemma Ins.takesCond_of_isStraight (h : i.isStraight) : i.takesCond = false := by
  cases i <;> first | rfl | cases h

lemma Gen.step_straight {g : Gen} {locals : List Kind} (hi : i.isStraight) :
  g.step c locals prev next i = do
    if ← i.isFused next then return g
    else
      let (lines, ops) ← c.plainLines locals i g.ops
      return g.add lines ops := by
  cases i <;> first | rfl | cases hi

variable {g : Gen}

/-- What the generator gets to with an instruction that can be followed: operands of the types that
are seen there, unless the instruction is a comparison that is left to the next one. -/
def Gen.Accepts (g : Gen) (c : Ctx) (T : Track) (prev next : Option Ins) (i : Ins)
  (out : List NumType) (low : List Kind) : Prop :=
  ∃ g' out₀, g.step c (kinds T.scope.locals) prev next i = .ok g' ∧
      T.Defers (some i) next out out₀ ∧
    g'.ops = kinds out₀ ++ low ∧ g'.blks = g.blks

lemma Ins.isFused_eq (hnext : next.isSome) :
  i.isFused next = .ok (i.isCmp && next.any takesCond) := by
  obtain ⟨j, rfl⟩ := isSome_iff_exists.1 hnext
  unfold isFused
  cases i.isCmp <;> rfl

lemma Gen.accepts_straight (hi : i.isStraight) (hfollowed : i.Followed T ts out)
  (hnext : next.isSome) (hops : g.ops = kinds ts ++ low)
  (hadmits : c.Admits (kinds T.scope.locals) i (kinds ts ++ low) (kinds out ++ low)) :
  g.Accepts c T prev next i out low := by
  obtain ⟨lines, hlns⟩ := hadmits
  unfold Accepts Track.Defers
  rw [step_straight hi, hops, isFused_eq hnext, Option.any_some]
  cases i.isCmp && next.any takesCond with
  | true => exact ⟨g, ts, rfl, ⟨i, rfl, hfollowed⟩, hops, rfl⟩
  | false =>
    rw [hlns]
    exact ⟨g.add lines (kinds out ++ low), out, rfl, rfl, rfl, rfl⟩

lemma Gen.accepts_of_not_compare (hi : i.isCmp = false)
  (h : ∃ g', g.step c (kinds T.scope.locals) prev next i = .ok g' ∧ g'.ops = kinds out ++ low ∧
    g'.blks = g.blks) : g.Accepts c T prev next i out low := by
  obtain ⟨g', hstep, hops, hbks⟩ := h
  exact ⟨g', out, hstep, defers_of_not (by rwa [any_some]) _ _, hops, hbks⟩

/-- The generator has code for an instruction that can be followed and that neither chooses nor
sends control anywhere inside the function. -/
lemma Ctx.Serves.admits_followed (hc : c.Serves T.scope) (hs : i.isStraight)
  (hfollowed : i.Followed T ts out) (hi : i.isSupported) (low : List Kind) :
  c.Admits (kinds T.scope.locals) i (kinds ts ++ low) (kinds out ++ low) := by
  cases hfollowed with
  | @arrow _ a ha hcall rest =>
    simpa only [kinds_append, append_assoc] using hc.admits ha hcall hi (kinds rest ++ low)
  | @callIndirect type table a ha hmem rest =>
    simpa only [kinds_cons, kinds_append, cons_append, append_assoc] using
      hc.admits_indirect ha hmem (kinds rest ++ low)
  | drop t => exact ⟨[], rfl⟩
  | unreachable => exact ⟨_, rfl⟩
  | return_ =>
    exact ⟨_, by
      simp only [plainLines, hc.rets, kinds_append, kinds_reverse, append_assoc, pushArgs_eq]
      rfl⟩
  | select | br | brIf | brTable => cases hs

lemma Gen.step_accepts
  (hc : c.Serves T.scope) (hfollowed : i.Followed T ts out) (hi : i.isSupported)
  (hnext : next.isSome) (hdfs : T.Defers prev (some i) ts ts0) (hops : g.ops = kinds ts0 ++ low)
  (hbks : List.Forall₂ Open.Fits g.blks T.blks) : g.Accepts c T prev next i out low := by
  by_cases hs : i.isStraight
  · have hsame : ts0 = ts := hdfs.eq (takesCond_of_isStraight hs)
    exact accepts_straight hs hfollowed hnext (hsame ▸ hops)
      (hc.admits_followed hs hfollowed hi low)
  cases hfollowed with
  | arrow ha => exact absurd (isStraight_of_arrow ha) hs
  | callIndirect | drop | unreachable | return_ => exact absurd rfl hs
  | select t rest =>
    obtain ⟨cond, lines, x, y, hcond, hrest, hlns⟩ :=
      condition_eq rfl hdfs false low (kinds ts0 ++ low).length
    refine accepts_of_not_compare rfl ?_
    simp only [step, hops, hcond, ok_bind, hrest, kinds_cons, cons_append, popKind,
      beq_self_eq_true, hlns]
    exact ⟨_, rfl, rfl, rfl⟩
  | @br d b _ rest hb hts =>
    obtain ⟨o, ho, hfits⟩ := exists_fits hbks hb
    obtain ⟨moves, hmoves⟩ := hfits.branchMoves_eq hts low
    have hsame : ts0 = ts := hdfs.eq rfl
    refine accepts_of_not_compare rfl ?_
    simp only [step, hops, hsame, blkAt, ho, orFault, hmoves, ok_bind]
    exact ⟨_, rfl, rfl, rfl⟩
  | @brIf d b _ rest hb hts =>
    obtain ⟨o, ho, hfits⟩ := exists_fits hbks hb
    obtain ⟨moves, hmoves⟩ := hfits.branchMoves_eq hts low
    obtain ⟨cond, lines, x, y, hcond, hrest, hlns⟩ :=
      condition_eq rfl hdfs false low (kinds ts0 ++ low).length
    refine accepts_of_not_compare rfl ?_
    simp only [step, hops, hcond, hlns, blkAt, ho, orFault, hrest, hmoves, ok_bind]
    exact ⟨_, rfl, rfl, rfl⟩
  | @brTable ds other b bs _ rest hb hbs hsame _ hts =>
    obtain ⟨o, ho, -⟩ := exists_fits hbks hb
    have hcases : ∀ d ∈ ds, g.blkAt d = .ok (g.blks[d]?.getD default) := by
      intro d hd
      obtain ⟨b', -, hb'⟩ := exists_mem_of_mapM hbs hd
      obtain ⟨o', ho', -⟩ := exists_fits hbks hb'
      rw [blkAt, ho']
      rfl
    have hoth : g.blkAt other = .ok o := by
      rw [blkAt, ho]
      rfl
    have hts0 : ts0 = .i32 :: out := hdfs.eq rfl
    refine accepts_of_not_compare rfl ?_
    simp only [step, hops, hts0, mapM_ok hcases, hoth]
    exact ⟨_, rfl, rfl, rfl⟩

/-! ## Opening and closing blocks -/

section
variable {t : BlkType} (locals : List Kind) (next)

section
variable (hc : c.Serves C) (ha : C.blkArrow? t = some a)
include hc ha

lemma Gen.step_bracket (hops : g.ops = kinds a.params.reverse ++ low) :
  let opened s := g.enter (.new s g.count a low.length) [] (kinds a.params.reverse ++ low)
  g.step c locals prev next (.blk t) = .ok (opened .blk) ∧
    g.step c locals prev next (.loop t) = .ok (opened .loop) := by
  simp only [step, hops, makeBlk_eq hc ha]
  exact ⟨rfl, rfl⟩

lemma Gen.step_if
  (hdfs : T.Defers prev (some (.if_ t)) (.i32 :: (a.params.reverse ++ below)) ts0)
  (hops : g.ops = kinds ts0 ++ low) : ∃ cond lines x y, condition prev true g.ops = .ok cond ∧
    cond.opnds g.ops.length = .ok (lines, x, y) ∧ g.step c locals prev next (.if_ t) =
      .ok (g.enter (.new .cond g.count a (kinds below ++ low).length)
        (lines ++ [.ins cond.op [x, y, .label (.otherwise g.count)]])
        (kinds a.params.reverse ++ (kinds below ++ low))) := by
  obtain ⟨cond, lines, x, y, hcond, hrest, hlns⟩ :=
    condition_eq rfl hdfs true low (kinds ts0 ++ low).length
  rw [hops]
  refine ⟨cond, lines, x, y, hcond, hlns, ?_⟩
  rw [kinds_append, append_assoc] at hrest
  simp only [step, hops, hcond, hlns, ok_bind, hrest, makeBlk_eq hc ha]
  rfl

end

lemma Gen.step_else (hbks : g.blks = o :: bs) (ho : o.Fits b)
  (hcond : o.sort = .cond) (hpnd : o.pending)
  (hends : prev.any leavesOpen = false → inside = b.arrow.rets.reverse)
  (hops : g.ops = kinds inside ++ low) (hlow : low.length = b.below) :
  g.step c locals prev next .else_ =
    .ok (g.turned o bs (kinds b.arrow.params.reverse ++ low)) := by
  have hsort : ensure (o.sort == .cond) "no condition" = .ok () :=
    ensure_eq_ok.2 (beq_iff_eq.2 hcond)
  have hfst : ensure o.pending "second alternative" = .ok () := ensure_eq_ok.2 hpnd
  simp only [step, hbks, hops, hsort, ho.turn_eq hends hlow, hfst]
  rfl

lemma Gen.step_end (hbks : g.blks = o :: bs) (ho : o.Fits b)
  (hends : endsWith b.arrow.rets (prev.any leavesOpen) inside)
  (hops : g.ops = kinds inside ++ low) (hlow : low.length = b.below) :
  g.step c locals prev next .end_ = .ok (g.left o bs (kinds b.arrow.rets.reverse ++ low)) := by
  simp only [step, hbks, hops, ho.finish_eq hends hlow]
  rfl

lemma Body.leavesOpen_eq (b : Body) (hi : i.leavesOpen = false) :
  (b.flatten.getLast?.or (some i)).any Ins.leavesOpen = b.leavesOpen := by
  rw [Body.leavesOpen]
  cases b.flatten.getLast? with
  | none => exact hi
  | some j => rfl

end

/-! ## Whole bodies -/

/-- The generator gets to the end of some code with operands of the given types, in the block where
it began. -/
def Body.Accepted (b : Body) (c : Ctx) (T : Track) (prev next : Option Ins) (g : Gen)
  (out : List NumType) (low : List Kind) : Prop :=
  ∃ g', g.steps c (kinds T.scope.locals) next prev b.flatten = .ok g' ∧ g'.ops = kinds out ++ low ∧
    g'.blks = g.blks

lemma length_below (hlow : low.length = T.below) (below : List NumType) :
  (kinds below ++ low).length = T.below + below.length := by
  rw [length_append, length_kinds, hlow, Nat.add_comm]

lemma Track.fits_new {s : Construct} (hs : s = .loop ↔ isLoop = true)
  (hlow : low.length = T.below) (no : Nat) : (new s no a (kinds below ++ low).length).Fits
    ⟨isLoop, a, T.below + below.length⟩ := length_below hlow below ▸ Open.fits_new hs ..

/-- The generator accepts some code wherever its operands can be followed. -/
def Body.Acceptable (b : Body) (c : Ctx) : Prop :=
  ∀ {T : Track} {ts ts0 out : List NumType} {prev : Option Ins} {j : Ins} {g : Gen}
    {low : List Kind}, j.takesCond = false → c.Serves T.scope → b.track T ts = some out →
    (∀ i ∈ b.flatten, i.isSupported) → T.Defers prev (b.flatten.head?.or (some j)) ts ts0 →
    g.ops = kinds ts0 ++ low → List.Forall₂ Open.Fits g.blks T.blks → low.length = T.below →
    b.Accepted c T prev (some j) g out low

lemma Body.accepted_bracket {g0 : Gen} {inner rest : Body} {j : Ins}
  (hstep : g0.step c (kinds T.scope.locals) prev (inner.flatten.head?.or (some .end_)) i = .ok g)
  (hi : i.leavesOpen = false) (hcmp : (some i).any isCmp = false)
  (ihInner : inner.Acceptable c) (ihRest : rest.Acceptable c) (hj : j.takesCond = false)
  (hc : c.Serves T.scope)
  (hin : inner.track (T.enter isLoop a below) a.params.reverse = some inside)
  (hends : endsWith a.rets inner.leavesOpen inside)
  (hrest : rest.track T (a.rets.reverse ++ below) = some out)
  (hb : ∀ i ∈ inner.flatten ++ .end_ :: rest.flatten, i.isSupported)
  (hops : g.ops = kinds a.params.reverse ++ (kinds below ++ low)) (hg : g.blks = o :: bs)
  (ho : o.Fits ⟨isLoop, a, T.below + below.length⟩) (hbs : List.Forall₂ Open.Fits bs T.blks)
  (hlow : low.length = T.below) : ∃ g', g0.steps c (kinds T.scope.locals) (some j) prev
      (i :: inner.flatten ++ .end_ :: rest.flatten) = .ok g' ∧
    g'.ops = kinds out ++ low ∧ g'.blks = bs := by
  have hlow1 := length_below hlow below
  obtain ⟨g2, hsts, hops2, hbks2⟩ : inner.Accepted c (T.enter isLoop a below) (some i) (some .end_)
    _ _ _ := ihInner rfl hc hin (fun i hi => hb i (mem_append_left _ hi)) (defers_of_not hcmp _ _)
    hops (hg ▸ .cons ho hbs) hlow1
  rw [← inner.leavesOpen_eq hi] at hends
  have hend := step_end (c := c) (rest.flatten.head?.or (some j)) (kinds T.scope.locals)
    (hbks2.trans hg) ho hends hops2 hlow1
  have hops3 : (g2.left o bs (kinds a.rets.reverse ++ (kinds below ++ low))).ops =
      kinds (a.rets.reverse ++ below) ++ low := by
    rw [kinds_append, append_assoc]
    rfl
  obtain ⟨g', hsts', hg'⟩ : rest.Accepted c T (some .end_) _ _ _ _ := ihRest hj hc hrest
    (fun i hi => hb i (mem_append_right _ (.tail _ hi))) (defers_of_not rfl _ _) hops3 hbs hlow
  exact ⟨g', steps_bracket.2 ⟨g, g2, _, hstep, hsts, hend, hsts'⟩, hg'⟩

lemma Body.acceptable (b : Body) : b.Acceptable c := by
  intro T ts ts0 out prev j g low hj hc htrack hb hdfs hops hbks hlow
  induction b generalizing T ts ts0 out prev g low j with
  | done =>
    cases htrack
    obtain rfl : ts0 = ts := hdfs.eq hj
    exact ⟨g, rfl, hops, rfl⟩
  | step i rest ih =>
    obtain ⟨ts1, hi, hrest⟩ := bind_eq_some_iff.1 htrack
    have hnext : (rest.flatten.head?.or (some j)).isSome := by
      cases rest.flatten.head? <;> rfl
    obtain ⟨g1, out0, hstep, hdfs1, hops1, hbks1⟩ := step_accepts hc
      (followed_of_track hi) (hb i.1 (.head _)) hnext hdfs hops hbks
    obtain ⟨g', hsts, hops', hbks'⟩ := ih hj hc hrest
      (fun i' hi' => hb i' (.tail _ hi')) hdfs1 hops1 (hbks1 ▸ hbks) hlow
    exact ⟨g', steps_cons.2 ⟨g1, hstep, hsts⟩, hops', hbks'.trans hbks1⟩
  | blk t inner rest ihInner ihRest =>
    obtain ⟨a, below, inside, ha, rfl, hin, hends, hrest⟩ := track_bracket.1 htrack
    obtain rfl : ts0 = _ := hdfs.eq rfl
    rw [kinds_append, append_assoc] at hops
    exact accepted_bracket (step_bracket _ _ hc ha hops).1 rfl rfl ihInner ihRest hj hc hin hends hrest
      (fun i hi => hb i (.tail _ hi)) rfl rfl (Track.fits_new (by simp) hlow _) hbks hlow
  | loop t inner rest ihInner ihRest =>
    obtain ⟨a, below, inside, ha, rfl, hin, hends, hrest⟩ := track_bracket.2 htrack
    obtain rfl : ts0 = _ := hdfs.eq rfl
    rw [kinds_append, append_assoc] at hops
    exact accepted_bracket (step_bracket _ _ hc ha hops).2 rfl rfl ihInner ihRest hj hc hin hends hrest
      (fun i hi => hb i (.tail _ hi)) rfl rfl (Track.fits_new (by simp) hlow _) hbks hlow
  | when t yes rest ihYes ihRest =>
    obtain ⟨a, below, inside, ha, rfl, -, hyes, hends, hrest⟩ := track_when htrack
    obtain ⟨cond, lines, x, y, -, -, hstep⟩ :=
      step_if (yes.flatten.head?.or (some .end_)) (kinds T.scope.locals) hc ha hdfs hops
    exact accepted_bracket hstep rfl rfl ihYes ihRest hj hc hyes hends hrest
      (fun i hi => hb i (.tail _ hi)) rfl rfl (Track.fits_new (by simp) hlow _) hbks hlow
  | choose t yes no rest ihYes ihNo ihRest =>
    obtain ⟨a, below, inside, inside', ha, rfl, hyes, hends, hno, hends', hrest⟩ :=
      track_choose htrack
    obtain ⟨cond, lines, x, y, -, -, hstep⟩ :=
      step_if (yes.flatten.head?.or (some .else_)) (kinds T.scope.locals) hc ha hdfs hops
    have hlow1 := length_below hlow below
    have ho : (new .cond g.count a (kinds below ++ low).length).Fits ⟨false, a, _⟩ :=
      Track.fits_new (by simp) hlow _
    obtain ⟨g2, hsts, hops2, hbks2⟩ : yes.Accepted c _ (some (.if_ t)) (some .else_)
        (g.enter (.new .cond g.count a (kinds below ++ low).length)
          (lines ++ [.ins cond.op [x, y, .label (.otherwise g.count)]]) _) inside _ :=
      ihYes (T := T.enter false a below) rfl hc hyes (fun i hi => hb i (by simp [flatten, hi]))
        (defers_of_not rfl _ _) rfl (.cons ho hbks) hlow1
    rw [← yes.leavesOpen_eq (i := .if_ t) rfl] at hends
    have helse := step_else (c := c) (no.flatten.head?.or (some .end_)) (kinds T.scope.locals)
      hbks2 ho rfl rfl hends hops2 hlow1
    have ho' : Open.Fits { new .cond g.count a _ with pending := false } _ :=
      ⟨ho.1, ho.2, ho.3, ho.4⟩
    obtain ⟨g', hsts', hg'⟩ := accepted_bracket helse rfl rfl ihNo ihRest hj hc hno hends' hrest
      (fun i hi => hb i (mem_append_right _ (.tail _ hi))) rfl rfl ho' hbks hlow
    obtain ⟨g3, helse, hsts'⟩ := steps_cons.1 hsts'
    exact ⟨g', steps_bracket.2 ⟨_, g2, g3, hstep, hsts, helse, hsts'⟩, hg'⟩

/-! ## Functions -/

lemma Ctx.Serves.generates (hc : c.Serves C) {code : Code} {body : Body}
  (hbody : code.body = body.flatten ++ [.end_]) {others : List Kind}
  (hoths : code.localKinds = .ok others) (hlocals : c.params ++ others = kinds C.locals)
  {careful : Bool} (hfollows : C.follows careful body)
  (hins : ∀ i ∈ body.flatten, i.isSupported) : ∃ L, c.generate code = .ok L := by
  obtain ⟨out, htrack, hout⟩ := (Option.any_eq_true _ _).1 hfollows
  obtain ⟨g, hsts, hops, hbks⟩ : body.Accepted c ⟨C, [], careful⟩ none (some .end_) (c.begin others)
    out [] := body.acceptable rfl hc htrack hins (defers_of_not rfl _ _) rfl .nil rfl
  obtain ⟨g', hstep, hops', hbks'⟩ :
      ∃ g', g.step c (kinds C.locals) (body.flatten.getLast?.or none) none .end_ = .ok g' ∧
      g'.ops = [] ∧ g'.blks = [] := by
    have hbks : g.blks = [] := hbks
    rw [Body.leavesFn] at hout
    simp only [step, hbks, Option.or_none]
    cases hlvs : body.flatten.getLast?.any fun i => i == .return_ || i.leavesOpen with
    | true =>
      rw [hlvs] at hout
      obtain rfl := eq_of_beq hout
      exact ⟨g, rfl, hops, hbks⟩
    | false =>
      rw [hlvs, if_neg Bool.false_ne_true] at hout
      obtain rfl := eq_of_beq hout
      rw [hops, hc.rets, kinds_reverse, pushArgs_eq]
      exact ⟨_, rfl, rfl, hbks⟩
  refine ⟨_, generate_eq_ok.2 ⟨others, g', hoths, ?_, hops', hbks', rfl⟩⟩
  rw [hbody, hlocals, steps_append, bind_ok]
  exact ⟨g, hsts, steps_cons.2 ⟨g', hstep, rfl⟩⟩

end

/-- Code that can be followed to proper ends of all its blocks is valid, and the generator accepts
it.
-/
theorem Ctx.generate_accepts {c : Ctx} {C : Scope} (hc : c.Serves C) {code : Code}
  {body : Body} (hbody : code.body = body.flatten ++ [.end_]) {others : List Kind}
  (hoths : code.localKinds = .ok others) (hlocals : c.params ++ others = kinds C.locals)
  (hfollows : C.follows false body = true) (hins : ∀ i ∈ body.flatten, i.isSupported = true) :
  C.Validates body ∧ ∃ L, c.generate code = .ok L :=
  ⟨Scope.validates_of_follows hfollows, hc.generates hbody hoths hlocals hfollows hins⟩

/-- There is nothing to refer to but types and local variables. -/
def Scope.bare (types : Option (List FnType)) (locals rets : List NumType) : Scope :=
  ⟨types, [], [], locals, rets, false, false⟩

def Ctx.bare (types : Option (List FnType)) (params rets : List NumType) : Ctx where
  module := { types }
  functions := []
  prog := {}
  syms := []
  table := none
  addr := .a64
  params := kinds params
  rets := kinds rets

lemma Ctx.bare_serves (types : Option (List FnType)) (params locals rets : List NumType) :
  (bare types params rets).Serves (.bare types locals rets) where
  types := rfl
  rets := rfl
  globals := by simp [Scope.bare]
  functions := by simp [Scope.bare]
  memory := by simp [Scope.bare]

/-- Multiplies the numbers from its parameter down to one, in its second variable. -/
def factorial : Body :=
  .plain [.intConst .i32 1, .localSet 1] <|
  .blk .empty (.loop .empty
      (.plain [.localGet 0, .eqz .i32, .brIf 1, .localGet 1, .localGet 0, .binary .i32 .mul .plain,
        .localSet 1, .localGet 0, .intConst .i32 1, .binary .i32 .sub .plain, .localSet 0, .br 0]
        .done)
      .done) <|
  .plain [.localGet 1] .done

theorem generate_accepts_factorial :
  (Scope.bare none [.i32, .i32] [.i32]).follows false factorial = true ∧
    (Scope.bare none [.i32, .i32] [.i32]).Validates factorial ∧
    ∃ L, (bare none [.i32] [.i32]).generate
      ⟨[(1, .num .i32)], factorial.flatten ++ [.end_]⟩ = .ok L :=
  ⟨by decide, generate_accepts (bare_serves none [.i32] [.i32, .i32] [.i32])
    rfl rfl rfl (by decide) (by decide)⟩

/-- The code of a function without variables is valid but not accepted, though the generator has
code for each of its instructions. -/
def Body.TurnedDown (body : Body) (rets : List NumType) : Prop :=
  (Scope.bare none [] rets).Validates body ∧ (∀ i ∈ body.flatten, i.isSupported) ∧
    ∀ L, (bare none [] rets).generate ⟨[], body.flatten ++ [.end_]⟩ ≠ .ok L

def returnsInside : Body :=
  .blk (.value (.num .i32)) (.plain [.intConst .i32 7, .return_] .done) .done

def branchesOut : Body := .plain [.intConst .i32 7, .br 0] .done
def dropsUnreached : Body := .plain [.intConst .i32 7, .return_, .drop, .intConst .i32 1] .done

/-- Valid code is not accepted if a block ends by returning, if a branch leaves all blocks, and if
code that is not reached takes more from the stack than there is. -/
theorem generate_rejects_valid : returnsInside.TurnedDown [.i32] ∧ branchesOut.TurnedDown [.i32] ∧
  dropsUnreached.TurnedDown [.i32] := by
  have hconst (n : Int) (hn : (BitVec.ofInt 32 n).toInt = n) (labels : List (List NumType)) :
      (Ins.intConst .i32 n).HasType (.bare none [] [.i32]) labels [] [.i32] :=
    .arrow (a := ⟨[], [.i32]⟩) (if_pos ⟨rfl, hn⟩)
  have hreturn (labels : List (List NumType)) (rs : List NumType) :
      Ins.return_.HasType (.bare none [] [.i32]) labels [.i32] rs := .return_ [] rs
  refine ⟨⟨?_, by decide, fun L h => by cases h⟩, ⟨?_, by decide, fun L h => by cases h⟩,
    ?_, by decide, fun L h => by cases h⟩
  · have hin : Body.Valid (.bare none [] [.i32]) [[.i32], [.i32]]
        (.plain [.intConst .i32 7, .return_] .done) [] [.i32] :=
      .step_all (hconst 7 (by decide) _) (.step_all (hreturn _ [.i32]) (.done _))
    exact .blk (a := ⟨[], [.i32]⟩) rfl hin (.done [.i32])
  · have hlabel : [[NumType.i32]][0]? = some [.i32] := rfl
    have hbr : (Ins.br 0).HasType (.bare none [] [.i32]) [[.i32]] [.i32] [.i32] :=
      .br hlabel [] [.i32]
    exact .step_all (hconst 7 (by decide) _) (.step_all hbr (.done _))
  · exact .step_all (hconst 7 (by decide) _) (.step_all (hreturn _ [.i64])
      (.step_all (.drop .i64) (.step_all (hconst 1 (by decide) _) (.done _))))

end Retarget.Wasm
