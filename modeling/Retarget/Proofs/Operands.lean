import Retarget.Proofs.Listings
import Retarget.Proofs.Passes

/-!
# Operands in registers

The operand at each position of the stack is held by the register of that position and of its kind.
Code for an instruction leaves the registers below its operands alone, and its result is in the
register of the lowest of them.
-/

open Function (update update_of_ne update_self)

namespace Retarget.Wasm
open List Opnd BinaryOp
open IR (Kind Lit Op Sem)
open IR.Pass (bind_ok)

lemma ok_bind {α β : Type} (a : α) (f : α → Res β) : (Except.ok a >>= f) = f a := rfl
lemma pure_eq_ok {α : Type} (a : α) : (pure a : Res α) = .ok a := rfl

/-! ## Values and kinds -/

namespace Val

def kind : Val → Kind
  | i32 _ => .s32
  | i64 _ => .s64

def lit : Val → Lit
  | i32 v => .word .s32 v
  | i64 v => .word .s64 v

lemma kind_type (v : Val) : v.type.kind = .ok v.kind := by cases v <;> rfl

lemma kind_eq_of_type {v w : Val} (h : v.type = w.type) : v.kind = w.kind := by
  cases v <;> cases w <;> first | rfl | cases h

end Val

lemma toUnsigned_spec {k u : Kind} (h : toUnsigned k = .ok u) :
  k.isInt ∧ u.isInt ∧ u.bits = k.bits ∧ k.flavor = .signed ∧ u.flavor = .unsigned := by
  cases k
  case s32 | s64 =>
    cases h
    exact ⟨rfl, rfl, rfl, rfl, rfl⟩
  all_goals cases h

/-! ## Stacks in registers -/

def Holds (env : Env) (st : List Val) : Prop := (slots (st.map Val.kind)).map env = st.map Val.lit

lemma holds_cons {env : Env} {v : Val} {st : List Val} :
  Holds env (v :: st) ↔ env (.op st.length v.kind) = v.lit ∧ Holds env st := by
  simp [Holds, slots]

/-- The registers of operands of the given kinds with `n` operands below them, the topmost first. -/
def slotsAbove (n : Nat) : List Kind → List Var
  | [] => []
  | k :: ks => .op (n + ks.length) k :: slotsAbove n ks

lemma slots_append (ks ks' : List Kind) :
  slots (ks ++ ks') = slotsAbove ks'.length ks ++ slots ks' := by
  induction ks with
  | nil => rfl
  | cons k ks ih =>
    rw [cons_append, slots, ih, length_append, Nat.add_comm]
    rfl

lemma length_slotsAbove (n : Nat) (ks : List Kind) : (slotsAbove n ks).length = ks.length := by
  induction ks with
  | nil => rfl
  | cons k ks ih => rw [slotsAbove, length_cons, ih, length_cons]

lemma holds_append {env : Env} {st low : List Val} : Holds env (st ++ low) ↔
  (slotsAbove low.length (st.map Val.kind)).map env = st.map Val.lit ∧ Holds env low := by
  have hlen : (slotsAbove low.length (st.map Val.kind)).length = st.length := by
    rw [length_slotsAbove, length_map]
  rw [Holds, map_append, slots_append, map_append, map_append, length_map]
  refine ⟨fun h => append_inj h (by simp [hlen]), fun h => ?_⟩
  rw [h.1, ← h.2]

lemma Holds.congr {env env' : Env} {st : List Val} (h : Holds env st)
  (hsame : ∀ p k, p < st.length → env' (.op p k) = env (.op p k)) : Holds env' st := by
  induction st with
  | nil => rfl
  | cons v st ih =>
    obtain ⟨hv, hrest⟩ := holds_cons.1 h
    rw [length_cons] at hsame
    exact holds_cons.2 ⟨(hsame _ _ (by omega)).trans hv, ih hrest fun p k hp =>
      hsame p k (by omega)⟩

def SameBelow (n : Nat) (env env' : Env) : Prop :=
  ∀ v, (∀ p k, v = .op p k → p < n) → env' v = env v

namespace SameBelow
variable {n n' : Nat} {env env' env'' : Env}

lemma refl (n : Nat) (env : Env) : SameBelow n env env := fun _ _ => rfl

lemma mono (h : SameBelow n env env') (hle : n' ≤ n) : SameBelow n' env env' :=
  fun v hv => h v fun p k hpk => (hv p k hpk).trans_le hle

lemma trans (h1 : SameBelow n env env') (h2 : SameBelow n env' env'') : SameBelow n env env'' :=
  fun v hv => (h2 v hv).trans (h1 v hv)

section
variable (h : SameBelow n env env')
include h

lemma update {p : Nat} (hp : n ≤ p) (k : Kind) (x : Lit) :
  SameBelow n env (update env' (.op p k) x) := by
  intro v hv
  have hne : v ≠ .op p k := fun heq => by
    have := hv p k heq
    omega
  rw [update_of_ne hne, h v hv]

lemma op {p : Nat} (hp : p < n) (k : Kind) : env' (.op p k) = env (.op p k) :=
  h _ fun q k' hq => by
    obtain ⟨rfl, -⟩ := Var.op.inj hq
    exact hp

lemma loc (i : Nat) : env' (.loc i) = env (.loc i) := h _ fun _ _ hq => by cases hq

lemma holds {st : List Val} (hn : st.length ≤ n) (hst : Holds env st) : Holds env' st :=
  hst.congr fun _ k hp => h.op (by omega) k

end
end SameBelow

/-- The registers hold local variables and operands. -/
structure Agrees (env : Env) (l st : List Val) : Prop where
  locals : ∀ n v, l[n]? = some v → env (.loc n) = v.lit
  opnds : Holds env st

namespace Agrees
variable {env env' : Env} {l st : List Val} {v : Val}

lemma same (h : Agrees env l st) {n : Nat} (hsame : SameBelow n env env') (hn : st.length ≤ n) :
  Agrees env' l st :=
  ⟨fun i v hv => (hsame.loc i).trans (h.locals i v hv), hsame.holds hn h.opnds⟩

lemma pop (h : Agrees env l (v :: st)) : Agrees env l st :=
  ⟨h.locals, (holds_cons.1 h.opnds).2⟩

lemma top (h : Agrees env l (v :: st)) : env (.op st.length v.kind) = v.lit :=
  (holds_cons.1 h.opnds).1

lemma push (h : Agrees env l st) (hsame : SameBelow st.length env env')
  (hv : env' (.op st.length v.kind) = v.lit) : Agrees env' l (v :: st) :=
  ⟨(h.same hsame le_rfl).locals, holds_cons.2 ⟨hv, hsame.holds le_rfl h.opnds⟩⟩

/-- Setting a local variable leaves the operands alone. -/
lemma setLocal (h : Agrees env l st) (n : Nat) (v : Val) :
  Agrees (update env (.loc n) v.lit) (l.set n v) st := by
  constructor
  · intro i w hw
    by_cases hi : i = n
    · subst hi
      rw [update_self]
      rw [List.getElem?_set_self (List.length_set ▸ (List.getElem?_eq_some_iff.1 hw).1)] at hw
      rw [Option.some.inj hw]
    · rw [List.getElem?_set_ne (Ne.symm hi)] at hw
      rw [update_of_ne (by simpa using hi), h.locals i w hw]
  · exact h.opnds.congr fun p k _ => update_of_ne (by simp) _ _

end Agrees

/-! ## Code that computes -/

section
variable {L : Listing} {m : Sem} {env : Env} {lines : List Line} {k : Kind} {w : Nat} {u : Kind}
  {op : Op} {x : Lit} {a b v : BitVec w} {n : Nat} {rest ops : List Kind} {s : Reading}

/-- Running the lines leaves `x` in the register of kind `k` of position `n`, and registers below as
they are. -/
def Yields (L : Listing) (m : Sem) (lines : List Line) (env : Env) (n : Nat) (k : Kind)
  (x : Lit) : Prop :=
  ∃ env', execute m L.kindOf lines env = some env' ∧ SameBelow n env env' ∧ env' (.op n k) = x

@[simp] lemma value?_lit (c : Lit) : (lit c).value? env = some c := rfl

lemma value?_var {v : Var} {c : Lit} (h : env v = c) : (var v).value? env = some c :=
  congrArg some h

lemma execute_append (m : Sem) (kindOf : Var → Kind) (ls ls' : List Line) (env : Env) :
  execute m kindOf (ls ++ ls') env = (execute m kindOf ls env).bind (execute m kindOf ls') := by
  induction ls generalizing env with
  | nil => rfl
  | cons x ls ih =>
    simp only [cons_append, execute, Option.bind_eq_bind, Option.bind_assoc]
    congr 1
    funext p
    exact ih _

lemma yields_line {args : List Opnd} {vs : List Lit}
  (hvs : args.mapM (value? env) = some vs) (hx : computed? m op k vs = some x) :
  Yields L m [.ins op (.var (.op n k) :: args)] env n k x := by
  refine ⟨update env (.op n k) x, ?_, (SameBelow.refl n env).update le_rfl k x, update_self ..⟩
  have hkind : L.kindOf (.op n k) = k := rfl
  simp [execute, Line.set?, hvs, hkind, hx]

lemma Yields.after {lines' : List Line} {env' : Env}
  (hexec : execute m L.kindOf lines env = some env') (hsame : SameBelow n env env')
  (h : Yields L m lines' env' n k x) : Yields L m (lines ++ lines') env n k x := by
  obtain ⟨env'', hexec', hsame', hx⟩ := h
  exact ⟨env'', by rw [execute_append, hexec]; exact hexec', hsame.trans hsame', hx⟩

lemma execute_cons {d : Var} {args : List Opnd} {vs : List Lit}
  (hvs : args.mapM (value? env) = some vs) (hx : computed? m op (L.kindOf d) vs = some x)
  (rest : List Line) : execute m L.kindOf (.ins op (.var d :: args) :: rest) env =
    execute m L.kindOf rest (update env d x) := by
  simp [execute, Line.set?, hvs, hx]

/-- A conversion between signed and unsigned numbers of the same width. -/
lemma execute_conv (hm : m.TwosCompl) {k' : Kind} {p : Nat} {x : Var}
  (hk : k.isInt) (hw : k.bits = w) (hk' : k'.isInt) (hw' : k'.bits = w) (hx : env x = .word k a)
  (rest : List Line) : execute m L.kindOf (.ins .conv [.var (.op p k'), .var x] :: rest) env =
  execute m L.kindOf rest (update env (.op p k') (.word k' a)) := by
  have hvs : [var x].mapM (value? env) = some [.word k a] := by simp [value?, hx]
  have hx' : computed? m .conv (L.kindOf (.op p k')) [.word k a] = some (.word k' a) :=
    congrArg some (hm.convert a hk hw hk' hw')
  exact execute_cons hvs hx' rest

lemma execute_alu
  (hm : m.TwosCompl) {o : Op} (ho : o.fam = .alu) {d : Var} {x y : Opnd} (hk : k.isInt)
  (hw : k.bits = w) (hx : x.value? env = some (.word k a)) (hy : y.value? env = some (.word k b))
  (hv : o.onWords (k.flavor == .signed) a b = some v) (rest : List Line) : execute m L.kindOf
  (.ins o [.var d, x, y] :: rest) env = execute m L.kindOf rest (update env d (.word k v)) := by
  have hvs : [x, y].mapM (value? env) = some [.word k a, .word k b] := by simp [hx, hy]
  exact execute_cons hvs (by simp only [computed?, ho, hm.alu o hk hw hv]) rest

/-! ### Operations -/

lemma srem_allOnes (a : BitVec w) (hw : 0 < w) : a.srem (BitVec.allOnes w) = 0 := by
  apply BitVec.eq_of_toInt_eq
  rw [BitVec.toInt_srem, BitVec.toInt_allOnes, if_pos hw]
  simp

/-- Apart from rotations, an operation on integers is one instruction. -/
lemma BinaryOp.code_spec {op : BinaryOp} (hw : 0 < w)
  {code : Kind → Opnd → Opnd → Opnd → List Line} (hcode : op.code = .ok code)
  (hv : op.apply s a b = some v) (hop : op ≠ .rotl) :
  op.isUnsigned s = (s == .unsigned) ∧ ∃ o, o.fam = .alu ∧
    (code = fun _ d x y => [.ins o [d, x, y]]) ∧ (o.onWords (s != .unsigned) a b = some v ∨
      op = .rem ∧ s ≠ .unsigned ∧ o = .rem ∧ a = BitVec.intMin w ∧ b = BitVec.allOnes w ∧
          v = 0) := by
  have hflag : ∀ op : BinaryOp, op ≠ .rotl → op ≠ .rotr → op.isUnsigned s = (s == .unsigned) := by
    intro op h h'
    rw [isUnsigned, beq_eq_false_iff_ne.2 h, beq_eq_false_iff_ne.2 h', Bool.or_false, Bool.or_false]
  cases op with
  | rotl => exact absurd rfl hop
  | add | sub | mul | and | or | xor | shl =>
    cases hcode
    refine ⟨hflag _ hop (by simp), _, ?_, rfl, .inl hv⟩
    rfl
  | shr =>
    cases hcode
    refine ⟨hflag _ hop (by simp), .shr, rfl, rfl, .inl ?_⟩
    rw [← hv]
    cases s <;> rfl
  | div =>
    cases hcode
    refine ⟨hflag _ hop (by simp), .div, rfl, rfl, .inl ?_⟩
    rw [← hv]
    cases s <;> simp only [Op.onWords, apply, IR.NoQuotient] <;> grind
  | rem =>
    cases hcode
    refine ⟨hflag _ hop (by simp), .rem, rfl, rfl, ?_⟩
    by_cases hmin : s ≠ .unsigned ∧ a = BitVec.intMin w ∧ b = BitVec.allOnes w
    · obtain ⟨hs, rfl, rfl⟩ := hmin
      refine .inr ⟨rfl, hs, rfl, rfl, rfl, ?_⟩
      simp only [apply, srem_allOnes _ hw] at hv
      split at hv
      · cases hv
      · exact (Option.some.inj hv).symm
    · left
      rw [← hv]
      cases s <;> simp only [Op.onWords, apply, IR.NoQuotient] <;> grind
  | rotr => cases hcode
  | min | max | copysign => cases hv

lemma op_ne {p q : Nat} (h : p ≠ q) (k k' : Kind) : Var.op p k ≠ Var.op q k' :=
  fun heq => h (Var.op.inj heq).1

lemma word_bits (hu : u.flavor = .unsigned) (hw : u.bits = w) :
  Lit.ofInt u u.bits = .word u (BitVec.ofNat w w) := by
  have hlt : w < 2 ^ w := Nat.lt_two_pow_self
  simp [Lit.word, hu, hw]

section
variable (hm : m.TwosCompl)
include hm

lemma execute_rotate (hu : u.isInt) (hflavor : u.flavor = .unsigned)
  (hw : u.bits = w) {d x y : Var} (hdx : x ≠ d) (hdy : y ≠ d) (hxy : x ≠ y)
  (hx : env x = .word u a) (hy : env y = .word u b) (rest : List Line) :
  ∃ env', execute m L.kindOf (rotateLines u (.var d) (.var x) (.var y) ++ rest) env =
      execute m L.kindOf rest env' ∧ env' d = .word u (a.rotateLeft b.toNat) ∧
    ∀ v, v ≠ d → v ≠ x → v ≠ y → env' v = env v := by
  subst hw
  have hflag : (u.flavor == .signed) = false := by rw [hflavor]; rfl
  let e1 := update env d (.word u (a <<< (b.toNat % u.bits)))
  let e2 := update e1 y (.word u (BitVec.ofNat u.bits u.bits - b))
  let e3 := update e2 x (.word u (a >>> ((BitVec.ofNat u.bits u.bits - b).toNat % u.bits)))
  have hy1 : e1 y = .word u b := (update_of_ne hdy _ _).trans hy
  have hbits : (lit (.ofInt u u.bits)).value? e1 =
      some (.word u (BitVec.ofNat u.bits u.bits)) := congrArg some (word_bits hflavor rfl)
  have hx2 : e2 x = .word u a := (update_of_ne hxy _ _).trans ((update_of_ne hdx _ _).trans hx)
  have hy2 : e2 y = .word u (BitVec.ofNat u.bits u.bits - b) := update_self ..
  have hx3 : e3 x = .word u (a >>> ((BitVec.ofNat u.bits u.bits - b).toNat % u.bits)) :=
    update_self ..
  have hd3 : e3 d = .word u (a <<< (b.toNat % u.bits)) := by
    simp only [e1, e2, e3, update_of_ne hdx.symm, update_of_ne hdy.symm, update_self]
  have hshr : Op.shr.onWords (u.flavor == .signed) a (BitVec.ofNat u.bits u.bits - b) =
      some (a >>> ((BitVec.ofNat u.bits u.bits - b).toNat % u.bits)) := by
    rw [hflag]
    rfl
  refine ⟨update e3 d (.word u (a.rotateLeft b.toNat)), ?_, update_self .., ?_⟩
  · rw [← IR.shiftLeft_or_shiftRight]
    calc execute m L.kindOf (rotateLines u (.var d) (.var x) (.var y) ++ rest) env
      _ = execute m L.kindOf (_ :: _ :: _ :: rest) e1 :=
        execute_alu hm rfl hu rfl (value?_var hx) (value?_var hy) rfl _
      _ = execute m L.kindOf (_ :: _ :: rest) e2 :=
        execute_alu hm rfl hu rfl hbits (value?_var hy1) rfl _
      _ = execute m L.kindOf (_ :: rest) e3 :=
        execute_alu hm rfl hu rfl (value?_var hx2) (value?_var hy2) hshr _
      _ = execute m L.kindOf rest (update e3 d _) :=
        execute_alu hm rfl hu rfl (value?_var hd3) (value?_var hx3) rfl _
  · intro v hvd hvx hvy
    simp only [e1, e2, e3, update_of_ne hvd, update_of_ne hvx, update_of_ne hvy]

/-- Code for an operation on unsigned numbers, between conversions to registers above the stack and
back. -/
lemma yields_unsigned (hu : toUnsigned k = .ok u) (hw : k.bits = w)
  {body : List Line} (ha : env (.op n k) = .word k a) (hb : env (.op (n + 1) k) = .word k b)
  (hbody : ∀ env rest, env (.op (n + 3) u) = .word u a → env (.op (n + 4) u) = .word u b →
    ∃ env', execute m L.kindOf (body ++ rest) env = execute m L.kindOf rest env' ∧
    env' (.op (n + 5) u) = .word u v ∧ ∀ x, x ≠ .op (n + 5) u → x ≠ .op (n + 3) u →
    x ≠ .op (n + 4) u → env' x = env x) :
  Yields L m ([.ins .conv [.var (.op (n + 3) u), .var (.op n k)],
      .ins .conv [.var (.op (n + 4) u), .var (.op (n + 1) k)]] ++ body ++
    [.ins .conv [.var (.op n k), .var (.op (n + 5) u)]]) env n k (.word k v) := by
  obtain ⟨hk, huInt, hbits, -, -⟩ := toUnsigned_spec hu
  rw [hw] at hbits
  let e1 := update env (.op (n + 3) u) (.word u a)
  let e2 := update e1 (.op (n + 4) u) (.word u b)
  have hb1 : e1 (.op (n + 1) k) = .word k b := (update_of_ne (op_ne (by omega) _ _) _ _).trans hb
  have ha2 : e2 (.op (n + 3) u) = .word u a :=
    (update_of_ne (op_ne (by omega) _ _) _ _).trans (update_self ..)
  obtain ⟨e3, hexec, hv, hsame⟩ := hbody e2 [.ins .conv [.var (.op n k), .var (.op (n + 5) u)]] ha2
    (update_self ..)
  have hbelow : SameBelow n env e3 := by
    intro x hx
    have hne {p : Nat} (hp : n ≤ p) (k' : Kind) : x ≠ .op p k' := fun heq => by
      have := hx p k' heq
      omega
    rw [hsame x (hne (by omega) _) (hne (by omega) _) (hne (by omega) _)]
    simp only [e1, e2, update_of_ne (hne (show n ≤ n + 4 by omega) u),
      update_of_ne (hne (show n ≤ n + 3 by omega) u)]
  refine ⟨update e3 (.op n k) (.word k v), ?_, hbelow.update le_rfl k _, update_self ..⟩
  calc execute m L.kindOf (_ :: _ :: (body ++ _)) env
    _ = execute m L.kindOf (_ :: (body ++ _)) e1 := execute_conv hm hk hw huInt hbits ha _
    _ = execute m L.kindOf (body ++ _) e2 := execute_conv hm hk hw huInt hbits hb1 _
    _ = execute m L.kindOf _ e3 := hexec
    _ = execute m L.kindOf [] _ := execute_conv hm huInt hbits hk hw hv _

lemma yields_binary {op : BinaryOp} (hu : toUnsigned k = .ok u)
  (hw : k.bits = w) (hv : op.apply s a b = some v)
  (hrem : m.ExactRems ∨ ¬(op = .rem ∧ s ≠ .unsigned))
  (hlns : binaryLines op s (k :: k :: rest) = .ok (lines, ops))
  (ha : env (.op rest.length k) = .word k a) (hb : env (.op (rest.length + 1) k) = .word k b) :
  ops = k :: rest ∧ Yields L m lines env rest.length k (.word k v) := by
  obtain ⟨hk, huInt, hbits, hsigned, huns⟩ := toUnsigned_spec hu
  rw [hw] at hbits
  have hpos : 0 < w := by
    rw [← hw]
    cases k <;> decide
  simp only [binaryLines, popKind, ok_bind, length_cons] at hlns
  obtain ⟨code, hcode, hlns⟩ := bind_ok.1 hlns
  by_cases hop : op = .rotl
  · subst hop
    have hflag : rotl.isUnsigned s := by simp [isUnsigned]
    rw [hflag, hu] at hlns
    cases hlns
    cases hcode
    cases hv
    refine ⟨rfl, yields_unsigned hm hu hw ha hb ?_⟩
    intro e rest' ha' hb'
    exact execute_rotate hm huInt huns hbits (op_ne (by omega) _ _) (op_ne (by omega) _ _)
      (op_ne (by omega) _ _) ha' hb' rest'
  obtain ⟨hflag, o, ho, rfl, hval⟩ := code_spec hpos hcode hv hop
  rw [hflag] at hlns
  by_cases hs : s = .unsigned
  · rw [hs, hu] at hlns
    cases hlns
    refine ⟨rfl, yields_unsigned hm hu hw ha hb ?_⟩
    intro e rest' ha' hb'
    have hval : o.onWords (u.flavor == .signed) a b = some v := by
      obtain hval | ⟨-, hs', -⟩ := hval
      · rw [hs] at hval
        rw [huns]
        exact hval
      · exact absurd hs hs'
    refine ⟨_, execute_alu hm ho huInt hbits (value?_var ha') (value?_var hb') hval rest',
      update_self .., ?_⟩
    intro x hx _ _
    exact update_of_ne hx _ _
  · rw [beq_eq_false_iff_ne.2 hs] at hlns
    cases hlns
    refine ⟨rfl, ?_⟩
    have halu : m.alu o (.word k a) (.word k b) = .word k v := by
      obtain hval | ⟨hop, hs, rfl, rfl, rfl, rfl⟩ := hval
      · rw [bne_iff_ne.2 hs] at hval
        exact hm.alu o hk hw (by rw [hsigned]; exact hval)
      · subst hw
        exact hrem.resolve_right (not_not_intro ⟨hop, hs⟩) k hsigned
    have hvs : [var (.op rest.length k), .var (.op (rest.length + 1) k)].mapM
        (value? env) = some [.word k a, .word k b] := by simp [value?, ha, hb]
    exact yields_line hvs (by simp only [computed?, ho, halu])

lemma yields_unary {op : UnaryOp} (hk : k.isInt) (hw : k.bits = w) {a v : BitVec w}
  (hv : op.apply a = some v) (hlns : unaryLines op (k :: rest) = .ok (lines, ops))
  (ha : env (.op rest.length k) = .word k a) :
  ops = k :: rest ∧ Yields L m lines env rest.length k (.word k v) := by
  have hvs : [var (.op rest.length k)].mapM (value? env) = some [.word k a] := by simp [value?, ha]
  cases op with
  | clz =>
    cases hlns
    exact ⟨rfl, yields_line hvs (congrArg some (hm.alu1 .cntlz hk hw hv))⟩
  | ctz =>
    cases hlns
    exact ⟨rfl, yields_line hvs (congrArg some (hm.alu1 .cnttz hk hw hv))⟩
  | popcnt => cases hlns
  | _ => cases hv

end

/-! ### Comparisons -/

section
variable (r : Relation) (s : Reading) (a b : BitVec w)

lemma Relation.holds_negate : r.negate.holds s a b = !r.holds s a b := by
  cases r <;> simp [negate, holds, bne]

lemma Relation.branch_spec : r.branch.1.fam = .condBra ∧
  r.branch.1.onCompared (s != .unsigned) (if r.branch.2 then b else a)
    (if r.branch.2 then a else b) = r.holds s a b := by
  cases r <;> cases s <;>
    simp [branch, holds, Op.onCompared, BitVec.sle_eq_not_slt, BitVec.ule_eq_not_ult] <;> rfl

lemma Relation.move_spec : r.move.1.fam = .cmp ∧ r.move.1.condition.fam = .condBra ∧
  r.move.1.condition.onCompared (s != .unsigned) (if r.move.2.1 then b else a)
    (if r.move.2.1 then a else b) = (r.holds s a b != r.move.2.2) := by
  refine ⟨by cases r <;> rfl, by cases r <;> rfl, ?_⟩
  cases r <;> cases s <;> simp [move, holds, Op.onCompared, Op.condition, bne]

end

lemma asCompared_spec (hm : m.TwosCompl) (hu : toUnsigned k = .ok u)
  (hw : k.bits = w) {isUnsigned : Bool} {size : Nat} {x y : Var} {x' y' : Opnd}
  (h : asCompared isUnsigned size k (.var x) (.var y) = .ok (lines, x', y'))
  (hx : env x = .word k a) (hy : env y = .word k b) (hne : y ≠ .op (size + 1) u) :
  ∃ k' env', execute m L.kindOf lines env = some env' ∧ SameBelow (size + 1) env env' ∧
    k'.isInt ∧ k'.bits = w ∧ (k'.flavor == .signed) = !isUnsigned ∧
    x'.value? env' = some (.word k' a) ∧ y'.value? env' = some (.word k' b) := by
  obtain ⟨hk, huInt, hbits, hsigned, huns⟩ := toUnsigned_spec hu
  rw [hw] at hbits
  cases isUnsigned with
  | false =>
    obtain ⟨rfl, hxy⟩ := Prod.mk.inj (Except.ok.inj h)
    cases hxy
    exact ⟨k, env, rfl, .refl _ _, hk, hw, by rw [hsigned]; rfl, value?_var hx, value?_var hy⟩
  | true =>
    simp only [asCompared, hu] at h
    obtain ⟨rfl, hxy⟩ := Prod.mk.inj (Except.ok.inj h)
    cases hxy
    let e1 := update env (.op (size + 1) u) (.word u a)
    let e2 := update e1 (.op (size + 2) u) (.word u b)
    have hy1 : e1 y = .word k b := (update_of_ne hne _ _).trans hy
    have hx2 : e2 (.op (size + 1) u) = .word u a :=
      (update_of_ne (op_ne (by omega) _ _) _ _).trans (update_self ..)
    refine ⟨u, e2, ?_, ?_, huInt, hbits, by rw [huns]; rfl, value?_var hx2,
      value?_var (update_self ..)⟩
    · calc execute m L.kindOf [_, _] env
        _ = execute m L.kindOf [_] e1 := execute_conv hm hk hw huInt hbits hx _
        _ = execute m L.kindOf [] e2 := execute_conv hm hk hw huInt hbits hy1 _
    · exact ((SameBelow.refl _ env).update le_rfl u _).update (by omega) u _

lemma lit_ofBool (b : Bool) :
  (Val.ofBool b).lit = if b then Lit.ofInt .s32 1 else .ofInt .s32 0 := by
  cases b <;> rfl

lemma yields_cmp (hop : op.fam = .cmp) {x y : Opnd}
  {a b c d : Lit} (hx : x.value? env = some a) (hy : y.value? env = some b) :
  Yields L m [.ins op [.var (.op n k), .lit c, .lit d, x, y]] env n k
    (if m.holds op.condition a b then c else d) := by
  have hvs : [.lit c, .lit d, x, y].mapM (value? env) = some [c, d, a, b] := by simp [hx, hy]
  exact yields_line hvs (by simp only [computed?, hop])

/-- A comparison that is made right away. -/
lemma yields_compare (hm : m.TwosCompl) (hu : toUnsigned k = .ok u)
  (hw : k.bits = w) {r : Relation} (hlns : compareLines r s (k :: k :: rest) = .ok (lines, ops))
  (ha : env (.op rest.length k) = .word k a) (hb : env (.op (rest.length + 1) k) = .word k b) :
  ops = .s32 :: rest ∧
    Yields L m lines env rest.length .s32 (Val.ofBool (r.holds s a b)).lit := by
  simp only [compareLines, slot, popKind, ok_bind, length_cons] at hlns
  obtain ⟨⟨lines', x', y'⟩, hcompared, hlns⟩ := bind_ok.1 hlns
  cases hlns
  refine ⟨rfl, ?_⟩
  obtain ⟨k', env', hexec, hsame, hk', hw', hflavor, hx', hy'⟩ :
      ∃ k' env', execute m L.kindOf lines' env = some env' ∧
      SameBelow (rest.length + 1 + 1 + 1) env env' ∧ k'.isInt ∧ k'.bits = w ∧
      (k'.flavor == .signed) = (s != .unsigned) ∧
      x'.value? env' = some (.word k' (if r.move.2.1 then b else a)) ∧
      y'.value? env' = some (.word k' (if r.move.2.1 then a else b)) := by
    cases hswap : r.move.2.1 with
    | false =>
      simp only [hswap] at hcompared
      exact asCompared_spec hm hu hw hcompared ha hb (op_ne (by omega) _ _)
    | true =>
      simp only [hswap] at hcompared
      exact asCompared_spec hm hu hw hcompared hb ha (op_ne (by omega) _ _)
  obtain ⟨hfam, hbranch, hholds⟩ := r.move_spec s a b
  have hmove := hm.holds r.move.1.condition (if r.move.2.1 then b else a)
    (if r.move.2.1 then a else b) hk' hw' hbranch
  rw [hflavor, hholds] at hmove
  refine Yields.after hexec (hsame.mono (by omega)) ?_
  cases hopp : r.move.2.2 with
  | false =>
    rw [hopp, Bool.bne_false] at hmove
    rw [lit_ofBool, ← hmove]
    exact yields_cmp hfam hx' hy'
  | true =>
    rw [hopp, Bool.bne_true] at hmove
    have hresult : (Val.ofBool (r.holds s a b)).lit =
        if !r.holds s a b then Lit.ofInt .s32 0 else .ofInt .s32 1 := by
      cases r.holds s a b <;> rfl
    rw [hresult, ← hmove]
    exact yields_cmp hfam hx' hy'

lemma yields_eqz (hm : m.TwosCompl) (hk : k.isInt) (hw : k.bits = w)
  (hlns : eqzLines (k :: rest) = .ok (lines, ops)) (ha : env (.op rest.length k) = .word k a) :
  ops = .s32 :: rest ∧ Yields L m lines env rest.length .s32 (Val.ofBool (a == 0)).lit := by
  cases hlns
  have hzero : (lit (.ofInt k 0)).value? env = some (.word k (0 : BitVec w)) := by
    simp [Lit.word]
  have hmove := hm.holds Op.cmpeq.condition a 0 hk hw rfl
  refine ⟨rfl, ?_⟩
  have hresult : (a == 0) = m.holds Op.cmpeq.condition (.word k a)
    (.word k (0 : BitVec w)) := by
    rw [hmove]
    rfl
  rw [lit_ofBool, hresult]
  exact yields_cmp rfl (value?_var ha) hzero

end

/-! ## Code for single instructions

A comparison may be left to the next instruction: until then the code has the operands of the
comparison on its stack, and not the result. -/

open Val Ins
variable {k : Kind} {locals ops : List Kind} {lines : List Line} {n w : Nat} {t : NumType}
  {s : Reading} {v : Val}

/-! ### What instructions compute -/

/-- The value has the bits `a`, in a register of kind `k`. -/
structure Val.IsWord (v : Val) (k : Kind) {w : Nat} (a : BitVec w) : Prop where
  kind : v.kind = k
  lit : v.lit = .word k a
  bits : k.bits = w
  unsigned : ∃ u, toUnsigned k = .ok u

namespace Val.IsWord

lemma i32 (a : BitVec 32) : (i32 a).IsWord .s32 a := ⟨rfl, rfl, rfl, .u32, rfl⟩
lemma i64 (a : BitVec 64) : (i64 a).IsWord .s64 a := ⟨rfl, rfl, rfl, .u64, rfl⟩

end Val.IsWord

/-- Instruction `i` gets from local variables `l` and operands `st` to others, and on to the next
instruction. -/
inductive Computes (l : List Val) : Ins → List Val → List Val → List Val → Prop where
  | const {t : NumType} {n : Int} {v : Val} {st : List Val} (hkind : v.kind = t.kind)
      (hlit : v.lit = .ofInt t.kind n) : Computes l (.intConst t n) st l (v :: st)
  | drop {v : Val} {st : List Val} : Computes l .drop (v :: st) l st
  | select {c : BitVec 32} {x y : Val} {st : List Val} (htype : x.type = y.type) :
      Computes l .select (.i32 c :: y :: x :: st) l ((if c = 0 then y else x) :: st)
  | get {n : Nat} {v : Val} {st : List Val} (hv : l[n]? = some v) :
      Computes l (.localGet n) st l (v :: st)
  | set {n : Nat} {v : Val} {st : List Val} (htype : l[n]?.map type = some v.type) :
      Computes l (.localSet n) (v :: st) (l.set n v) st
  | tee {n : Nat} {v : Val} {st : List Val} (htype : l[n]?.map type = some v.type) :
      Computes l (.localTee n) (v :: st) (l.set n v) (v :: st)
  | unary {t : NumType} {op : UnaryOp} {k : Kind} {w : Nat} {x z : Val} {a v : BitVec w}
      {st : List Val} (hx : x.IsWord k a) (hz : z.IsWord k v) (hv : op.apply a = some v) :
      Computes l (.unary t op) (x :: st) l (z :: st)
  | binary {t : NumType} {op : BinaryOp} {s : Reading} {k : Kind} {w : Nat} {x y z : Val}
      {a b v : BitVec w} {st : List Val} (hx : x.IsWord k a) (hy : y.IsWord k b)
      (hz : z.IsWord k v) (hv : op.apply s a b = some v) :
      Computes l (.binary t op s) (y :: x :: st) l (z :: st)
  | eqz {t : NumType} {k : Kind} {w : Nat} {x : Val} {a : BitVec w} {st : List Val}
      (hx : x.IsWord k a) : Computes l (.eqz t) (x :: st) l (.ofBool (a == 0) :: st)
  | compare {t : NumType} {r : Relation} {s : Reading} {k : Kind} {w : Nat} {x y : Val}
      {a b : BitVec w} {st : List Val} (hx : x.IsWord k a) (hy : y.IsWord k b) :
      Computes l (.compare t r s) (y :: x :: st) l (.ofBool (r.holds s a b) :: st)
  | untaken {d : Nat} {st : List Val} : Computes l (.brIf d) (.i32 0 :: st) l st

namespace Computes
variable {i : Ins} {l st l' st' : List Val}

lemma of_push {α : Type} {x : Option α} {g : α → Val}
  (h : Outcome.push l st (x.map g) = .fall l' st') :
  l' = l ∧ ∃ v, x = some v ∧ st' = g v :: st := by
  cases x with
  | none => cases h
  | some v =>
    cases h
    exact ⟨rfl, v, rfl, rfl⟩

lemma of_run (h : i.run l st = .fall l' st') : Computes l i st l' st' := by
  fun_cases run i l st
  case case1 n hn | case3 n hn =>
    rw [run, if_pos hn] at h
    cases h
    refine .const rfl ?_
    show Lit.ofInt _ (BitVec.toInt _) = _
    rw [hn]
    rfl
  case case5 =>
    cases h
    exact .drop
  case case7 htype =>
    rw [run, if_pos htype] at h
    cases h
    exact .select htype
  case case10 n v hv =>
    simp only [run, hv] at h
    cases h
    exact .get hv
  case case12 htype =>
    rw [run, if_pos htype] at h
    cases h
    exact .set htype
  case case15 htype =>
    rw [run, if_pos htype] at h
    cases h
    exact .tee htype
  case case18 =>
    obtain ⟨rfl, v, hv, rfl⟩ := of_push h
    exact .unary (.i32 _) (.i32 _) hv
  case case19 =>
    obtain ⟨rfl, v, hv, rfl⟩ := of_push h
    exact .unary (.i64 _) (.i64 _) hv
  case case21 =>
    obtain ⟨rfl, v, hv, rfl⟩ := of_push h
    exact .binary (.i32 _) (.i32 _) (.i32 _) hv
  case case22 =>
    obtain ⟨rfl, v, hv, rfl⟩ := of_push h
    exact .binary (.i64 _) (.i64 _) (.i64 _) hv
  case case24 =>
    cases h
    exact .eqz (.i32 _)
  case case25 =>
    cases h
    exact .eqz (.i64 _)
  case case27 =>
    cases h
    exact .compare (.i32 _) (.i32 _)
  case case28 =>
    cases h
    exact .compare (.i64 _) (.i64 _)
  case case31 =>
    cases h
    exact .untaken
  case case2 hn | case4 hn => rw [run, if_neg hn] at h; cases h
  case case8 htype | case13 htype | case16 htype => rw [run, if_neg htype] at h; cases h
  all_goals simp_all [run]

lemma append (h : Computes l i st l' st') (below : List Val) :
  Computes l i (st ++ below) l' (st' ++ below) := by
  cases h <;> constructor <;> assumption

end Computes

/-- Instruction `i` sends control elsewhere. -/
inductive Jumps (l : List Val) : Ins → List Val → Outcome → Prop where
  | br {d : Nat} {st : List Val} : Jumps l (.br d) st (.branch d l st)
  | taken {d : Nat} {c : BitVec 32} {st : List Val} (hc : c ≠ 0) :
      Jumps l (.brIf d) (.i32 c :: st) (.branch d l st)
  | table {ds : List Nat} {other : Nat} {c : BitVec 32} {st : List Val} :
      Jumps l (.brTable ds other) (.i32 c :: st) (.branch (ds.getD c.toNat other) l st)
  | ret {st : List Val} : Jumps l .return_ st (.ret st)

/-- Unless it gets on to the next instruction or sends control elsewhere, an instruction does not
succeed. -/
lemma Ins.run_cases (i : Ins) (l st : List Val) :
  (∃ l' st', i.run l st = .fall l' st') ∨ Jumps l i st (i.run l st) ∨ i.run l st = .trap ∨
    i.run l st = .stuck := by
  have hpush (st' : List Val) (x : Option Val) :
      (∃ l' st'', Outcome.push l st' x = .fall l' st'') ∨ Jumps l i st (.push l st' x) ∨
        Outcome.push l st' x = .trap ∨ Outcome.push l st' x = .stuck := by
    cases x with
    | none => exact .inr (.inr (.inl rfl))
    | some v => exact .inl ⟨l, v :: st', rfl⟩
  fun_cases run i l st
  case case18 | case19 | case21 | case22 => exact hpush _ _
  case case30 => exact .inr (.inl .br)
  case case32 hc => exact .inr (.inl (.taken hc))
  case case34 => exact .inr (.inl .table)
  case case36 => exact .inr (.inl .ret)
  all_goals simp

/-- Is the instruction a remainder of signed numbers? -/
def Ins.isSignedRem : Ins → Bool
  | binary _ .rem s => s != .unsigned
  | _ => false

lemma not_rem_of_isSignedRem {op : BinaryOp} (h : (binary t op s).isSignedRem = false) :
  ¬(op = .rem ∧ s ≠ .unsigned) := by
  rintro ⟨rfl, hs⟩
  exact hs (by simpa [isSignedRem] using h)

/-! ### Code without branches -/

section
variable {L : Listing} {m : Sem} {env : Env} {l st l' st' : List Val}

lemma map_kind_set (hl : l.map kind = locals)
  (hv : l[n]?.map type = some v.type) : (l.set n v).map kind = locals := by
  obtain ⟨u, hu, htype⟩ := Option.map_eq_some_iff.1 hv
  obtain ⟨hn, rfl⟩ := List.getElem?_eq_some_iff.1 hu
  rw [map_set, ← hl, ← kind_eq_of_type htype]
  have hself := set_getElem_self (show n < (l.map kind).length by rwa [length_map])
  rwa [getElem_map] at hself

lemma localVar_eq (hl : l.map kind = locals) (hv : l[n]? = some v) :
  localVar locals n = .ok (.loc n, v.kind) := by
  rw [localVar, ← hl, getElem?_map, hv]
  rfl

lemma execute_setLocal (h : Agrees env l (v :: st)) :
  execute m L.kindOf [.ins .mov [.var (.loc n), .var (.op st.length v.kind)]] env =
    some (Function.update env (.loc n) v.lit) := by
  have hvs : [var (.op st.length v.kind)].mapM (value? env) = some [v.lit] := by
    simp [value?, h.top]
  exact execute_cons hvs rfl []

lemma Agrees.word {x : Val} {a : BitVec w} (h : Agrees env l (x :: st)) (hx : x.IsWord k a) :
  env (.op (st.map kind).length k) = .word k a := by
  rw [length_map, ← hx.lit, ← hx.kind]
  exact h.top

lemma Agrees.yields (h : Agrees env l st)
  (hy : Yields L m lines env (st.map kind).length v.kind v.lit) :
  ∃ env', execute m L.kindOf lines env = some env' ∧ Agrees env' l (v :: st) := by
  rw [length_map] at hy
  obtain ⟨env', hexec, hsame, hv⟩ := hy
  exact ⟨env', hexec, h.push hsame hv⟩

lemma plainLines_spec (hm : m.TwosCompl) {c : Ctx} {i : Ins}
  (hrem : m.ExactRems ∨ i.isSignedRem = false) (hi : Computes l i st l' st')
  (hl : l.map kind = locals)
  (hlns : c.plainLines locals i (st.map kind) = .ok (lines, ops)) (h : Agrees env l st) :
  ops = st'.map kind ∧ l'.map kind = locals ∧
    ∃ env', execute m L.kindOf lines env = some env' ∧ Agrees env' l' st' := by
  cases hi with
  | const hkind hlit =>
    cases hlns
    refine ⟨by rw [map_cons, hkind], hl, h.yields ?_⟩
    rw [hkind, hlit]
    exact yields_line rfl rfl
  | drop =>
    cases hlns
    exact ⟨rfl, hl, env, rfl, h.pop⟩
  | @get n v _ hv =>
    simp only [Ctx.plainLines, localVar_eq hl hv] at hlns
    cases hlns
    have hvs : [var (.loc n)].mapM (value? env) = some [v.lit] := by simp [value?, h.locals n v hv]
    exact ⟨rfl, hl, h.yields (yields_line hvs rfl)⟩
  | set htype =>
    obtain ⟨u, hu, -⟩ := Option.map_eq_some_iff.1 htype
    simp only [Ctx.plainLines, slot, localVar_eq hl hu] at hlns
    cases hlns
    rw [length_map]
    exact ⟨rfl, map_kind_set hl htype, _, execute_setLocal h, h.pop.setLocal _ _⟩
  | tee htype =>
    obtain ⟨u, hu, -⟩ := Option.map_eq_some_iff.1 htype
    simp only [Ctx.plainLines, slot, localVar_eq hl hu] at hlns
    cases hlns
    rw [length_map]
    exact ⟨rfl, map_kind_set hl htype, _, execute_setLocal h, h.setLocal _ _⟩
  | unary hx hz hv =>
    obtain ⟨u, hu⟩ := hx.unsigned
    rw [map_cons, hx.kind] at hlns
    obtain ⟨rfl, hyields⟩ :=
      yields_unary (L := L) hm (toUnsigned_spec hu).1 hx.bits hv hlns (h.word hx)
    rw [← hz.lit, ← hz.kind] at hyields
    exact ⟨by rw [map_cons, hz.kind], hl, h.pop.yields hyields⟩
  | binary hx hy hz hv =>
    obtain ⟨u, hu⟩ := hx.unsigned
    rw [map_cons, map_cons, hx.kind, hy.kind] at hlns
    obtain ⟨rfl, hyields⟩ := yields_binary (L := L) hm hu hx.bits hv
      (hrem.imp_right not_rem_of_isSignedRem) hlns (h.pop.word hx) (h.word hy)
    rw [← hz.lit, ← hz.kind] at hyields
    exact ⟨by rw [map_cons, hz.kind], hl, h.pop.pop.yields hyields⟩
  | eqz hx =>
    obtain ⟨u, hu⟩ := hx.unsigned
    rw [map_cons, hx.kind] at hlns
    obtain ⟨rfl, hyields⟩ := yields_eqz hm (toUnsigned_spec hu).1 hx.bits hlns (h.word hx)
    exact ⟨rfl, hl, h.pop.yields hyields⟩
  | compare hx hy =>
    obtain ⟨u, hu⟩ := hx.unsigned
    rw [map_cons, map_cons, hx.kind, hy.kind] at hlns
    obtain ⟨rfl, hyields⟩ := yields_compare hm hu hx.bits hlns (h.pop.word hx) (h.word hy)
    exact ⟨rfl, hl, h.pop.pop.yields hyields⟩
  | select | untaken => cases hlns

/-! ### Conditions -/

/-- The branch of a condition, with the code for its operands, leaves `ops` on the stack and is
taken if `b` holds. -/
def Condition.Decides (cond : Condition) (L : Listing) (m : Sem) (env : Env) (lines : List Line)
  (x y : Opnd) (ops : List Kind) (b : Bool) : Prop :=
  cond.rest = ops ∧ cond.op.fam = .condBra ∧
    ∃ env' c d, execute m L.kindOf lines env = some env' ∧ SameBelow ops.length env env' ∧
      x.value? env' = some c ∧ y.value? env' = some d ∧ m.holds cond.op c d = b

variable {cond : Condition} {x y : Opnd}

lemma decides_zero (hm : m.TwosCompl) (hk : k.isInt) (hw : k.bits = w) {isZero : Bool}
  {a : BitVec w} {size : Nat} (hcond : zeroCond isZero (k :: ops) = .ok cond)
  (hlns : cond.opnds size = .ok (lines, x, y)) (ha : env (.op ops.length k) = .word k a) :
  cond.Decides L m env lines x y ops ((a != 0) != isZero) := by
  cases hcond
  obtain ⟨rfl, hxy⟩ := Prod.mk.inj (Except.ok.inj hlns)
  cases hxy
  have hzero : Lit.ofInt k 0 = .word k (0 : BitVec w) := by simp [Lit.word]
  refine ⟨rfl, by cases isZero <;> rfl, env, .word k a, .word k (0 : BitVec w), rfl, .refl _ _,
    value?_var ha, congrArg some hzero, ?_⟩
  cases isZero with
  | false => exact (hm.holds .bne a 0 hk hw rfl).trans (by simp [Op.onCompared])
  | true => exact (hm.holds .beq a 0 hk hw rfl).trans (by simp [Op.onCompared, bne])

lemma decides_compare (hm : m.TwosCompl) {r : Relation} {inverse : Bool} {u : Kind}
  (hu : toUnsigned k = .ok u) (hw : k.bits = w) {a b : BitVec w}
  (hcond : condition (some (.compare t r s)) inverse (k :: k :: ops) = .ok cond)
  (hlns : cond.opnds (ops.length + 2) = .ok (lines, x, y))
  (ha : env (.op ops.length k) = .word k a) (hb : env (.op (ops.length + 1) k) = .word k b) :
  cond.Decides L m env lines x y ops (r.holds s a b != inverse) := by
  obtain ⟨r', hr', hholds⟩ : ∃ r' : Relation, (if inverse then r.negate else r) = r' ∧
      r'.holds s a b = (r.holds s a b != inverse) := by
    refine ⟨_, rfl, ?_⟩
    cases inverse with
    | false => exact (Bool.bne_false _).symm
    | true => rw [if_pos rfl, r.holds_negate, Bool.bne_true]
  obtain ⟨hfam, hbranch⟩ := r'.branch_spec s a b
  simp only [condition, slot, popKind, ok_bind, hr', length_cons] at hcond
  have hcond := Except.ok.inj hcond
  rw [hholds] at hbranch
  cases hswap : r'.branch.2 with
  | false =>
    rw [hswap] at hcond
    rw [hswap] at hbranch
    subst hcond
    obtain ⟨k', env', hexec, hsame, hk', hw', hflavor, hx, hy⟩ :=
      asCompared_spec hm hu hw hlns ha hb (op_ne (by omega) _ _)
    refine ⟨rfl, hfam, env', _, _, hexec, hsame.mono (by omega), hx, hy, ?_⟩
    exact (hm.holds _ a b hk' hw' hfam).trans (by rw [hflavor]; exact hbranch)
  | true =>
    rw [hswap] at hcond
    rw [hswap] at hbranch
    subst hcond
    obtain ⟨k', env', hexec, hsame, hk', hw', hflavor, hx, hy⟩ :=
      asCompared_spec hm hu hw hlns hb ha (op_ne (by omega) _ _)
    refine ⟨rfl, hfam, env', _, _, hexec, hsame.mono (by omega), hx, hy, ?_⟩
    exact (hm.holds _ b a hk' hw' hfam).trans (by rw [hflavor]; exact hbranch)

/-- The operands that the code has on its stack: those of a comparison that is left to the next
instruction, or else those that there are. -/
def Deferred (prev next : Option Ins) (l st st0 : List Val) : Prop :=
  if prev.any isCmp && next.any takesCond then ∃ i, prev = some i ∧ Computes l i st0 l st
  else st0 = st

lemma Deferred.eq {prev next : Option Ins} {st0 : List Val} (h : Deferred prev next l st st0)
  (hnext : next.any takesCond = false) : st0 = st := by
  rwa [Deferred, hnext, Bool.and_false, if_neg Bool.false_ne_true] at h

lemma bne_zero_ofBool (b : Bool) : ((if b then (1 : BitVec 32) else 0) != 0) = b := by
  cases b <;> rfl

/-- A branch on the result of the instruction before. -/
lemma condition_spec (hm : m.TwosCompl) {prev : Option Ins} {i : Ins}
  (hi : i.takesCond) {inverse : Bool} {c : BitVec 32} {st0 : List Val}
  (hdef : Deferred prev (some i) l (.i32 c :: st) st0)
  (hcond : condition prev inverse (st0.map kind) = .ok cond)
  (hlns : cond.opnds (st0.map kind).length = .ok (lines, x, y)) (h : Agrees env l st0) :
  Agrees env l st ∧ cond.Decides L m env lines x y (st.map kind) ((c != 0) != inverse) := by
  rw [Deferred, Option.any_some, hi] at hdef
  cases hcmp : prev.any isCmp with
  | false =>
    rw [hcmp] at hdef
    subst hdef
    have hzero : condition prev inverse (Kind.s32 :: st.map kind) =
        zeroCond inverse (.s32 :: st.map kind) := by
      unfold condition
      split
      · cases hcmp
      · cases hcmp
      · rfl
    exact ⟨h.pop, decides_zero hm rfl rfl (hzero ▸ hcond) hlns (h.word (.i32 c))⟩
  | true =>
    rw [hcmp] at hdef
    obtain ⟨j, rfl, hj⟩ := hdef
    obtain ⟨l', st', hresult, hj⟩ : ∃ l' st', i32 c :: st = st' ∧ Computes l j st0 l' st' :=
      ⟨l, _, rfl, hj⟩
    cases hj with
    | eqz hx =>
      obtain ⟨hc, rfl⟩ := List.cons.inj hresult
      obtain rfl : c = _ := i32.inj hc
      obtain ⟨u, hu⟩ := hx.unsigned
      rw [map_cons, hx.kind] at hcond
      have hdecides := decides_zero (L := L) hm (toUnsigned_spec hu).1 hx.bits hcond hlns
        (h.word hx)
      rw [bne_zero_ofBool]
      have hsame (b : Bool) : ((!b) != !inverse) =
        (b != inverse) := by cases b <;> cases inverse <;> rfl
      exact ⟨h.pop, hsame _ ▸ hdecides⟩
    | compare hx hy =>
      obtain ⟨hc, rfl⟩ := List.cons.inj hresult
      obtain rfl : c = _ := i32.inj hc
      obtain ⟨u, hu⟩ := hx.unsigned
      rw [map_cons, map_cons, hx.kind, hy.kind] at hcond
      rw [bne_zero_ofBool]
      exact ⟨h.pop.pop, decides_compare hm hu hx.bits hcond hlns (h.pop.word hx) (h.word hy)⟩
    | _ => cases hcmp

end
end Retarget.Wasm
