import Mathlib.Tactic.Lemma
import Retarget.FrontEnd.Reader

/-!
# Operators and brackets

`Reads` is a grammar of terms: prefix operators bind tightest, then the others by their levels, and
operators of one level group to the left. The tokens of a term are read as this term and no other
exactly if nothing slips: no operator stands without brackets below a prefix operator or to the
right of one of its own level.
-/

namespace Retarget.FrontEnd

/-! ## The grammar -/

/-- What is to be read: an operand, a term whose operators have at most the given level, what goes on
after the first part of such a term, or arguments of a call after some others. -/
inductive Goal where
  | opnd
  | term (p : Nat)
  | more (p : Nat) (a : Term)
  | args (f : String) (done : List Term)

/-- No bracket follows and no operator below the given level. -/
def Ends (p : Nat) : List Token → Prop
  | .opening _ :: _ => False
  | .binary op :: _ => p ≤ op.level
  | _ => True

/-- What is read from some tokens, and the tokens that are left. -/
inductive Reads : Goal → List Token → Term → List Token → Prop
  | word {s ts} : Ends 0 ts → Reads .opnd (.word s :: ts) (.word s) ts
  | unary {op ts e rest} :
    Reads .opnd ts e rest → Reads .opnd (.unary op :: ts) (.unary op e) rest
  | group {b ts e rest} :
    Reads (.term 75) ts e (.closing :: rest) → Reads .opnd (.opening b :: ts) e rest
  | nullary {f b ts} : Reads .opnd (.word f :: .opening b :: .closing :: ts) (.call f []) ts
  | call {f b ts e rest} :
    Reads (.args f []) ts e rest → Reads .opnd (.word f :: .opening b :: ts) e rest
  | last {f done ts a rest} : Reads (.term 75) ts a (.closing :: rest) →
    Reads (.args f done) ts (.call f (done ++ [a])) rest
  | next {f done ts a ts' e rest} : Reads (.term 75) ts a (.comma :: ts') →
    Reads (.args f (done ++ [a])) ts' e rest → Reads (.args f done) ts e rest
  | term {p ts a ts' e rest} :
    Reads .opnd ts a ts' → Reads (.more p a) ts' e rest → Reads (.term p) ts e rest
  | stop {p a ts} : Ends (p + 1) ts → Reads (.more p a) ts a ts
  | go {op p ts a b ts' e rest} : op.level ≤ p → Reads (.term (op.level - 1)) ts b ts' →
    Reads (.more p (.binary op a b)) ts' e rest → Reads (.more p a) (.binary op :: ts) e rest

variable {g : Goal} {ts rest rest' : List Token} {e e' : Term}

lemma Reads.not_args_closing {f : String} {done : List Term} :
  ¬ Reads (.args f done) (.closing :: ts) e rest := by
  intro h
  cases h with
  | last h | next h => cases h with
    | term h => cases h

lemma Reads.unique (h : Reads g ts e rest) (h' : Reads g ts e' rest') : e' = e ∧ rest' = rest := by
  induction h generalizing e' rest' with
  | nullary | call => cases h' <;> grind [Ends, Reads.not_args_closing]
  | _ => cases h' <;> grind [Ends]

lemma Ends.mono {p q : Nat} (h : Ends q ts) (hp : p ≤ q) : Ends p ts := by
  unfold Ends at h ⊢
  split at h <;> grind

lemma BinaryOp.level_bounds (op : BinaryOp) : 0 < op.level ∧ op.level ≤ 75 := by
  cases op <;> decide

namespace Term

lemma level_le (e : Term) : e.level ≤ 75 := by
  cases e with
  | binary op => exact op.level_bounds.2
  | _ => exact Nat.zero_le _

/-! ## Terms in which nothing slips -/

mutual

/-- How many operands have no brackets that they need. -/
def slips : Term → Nat
  | word _ => 0
  | unary _ e => e.slips + if e.level = 0 then 0 else 1
  | binary op a b => a.slips + b.slips + if b.level = op.level then 1 else 0
  | call _ args => slipsAll args

def slipsAll : List Term → Nat
  | [] => 0
  | e :: es => e.slips + slipsAll es

end

/-- The tokens of a term are read as an operand, or else as the start of any term that can go on with
what follows. -/
structure Leads (e : Term) : Prop where
  opnd {ts : List Token} : e.level = 0 → Ends 0 ts → Reads .opnd (e.tokens ++ ts) e ts
  term {p : Nat} {ts rest : List Token} {e' : Term} : e.level ≤ p → Ends e.level ts →
    Reads (.more p e) ts e' rest → Reads (.term p) (e.tokens ++ ts) e' rest

namespace Leads
variable {a b : Term} {op : BinaryOp} {es : List Term}

lemma of_opnd (hl : e.level = 0)
  (h : ∀ ts, Ends 0 ts → Reads .opnd (e.tokens ++ ts) e ts) : e.Leads :=
  ⟨fun _ => h _, fun _ ht hm => .term (h _ (hl ▸ ht)) hm⟩

lemma whole (h : e.Leads) (ht : ∀ p, Ends p ts) : Reads (.term 75) (e.tokens ++ ts) e ts :=
  h.term e.level_le (ht _) (.stop (ht _))

lemma group (h : e.Leads) : Reads .opnd (.opening true :: e.tokens ++ [.closing] ++ ts) e ts := by
  simpa using Reads.group (h.whole fun _ => trivial)

/-- The right operand is read up to the next operator that binds no tighter. -/
lemma right (h : e.Leads) (hl : e.level ≠ op.level) (ht : Ends op.level ts) :
  Reads (.term (op.level - 1)) (Term.opnd op e e.tokens ++ ts) e ts := by
  have hp := op.level_bounds.1
  have hs : Reads (.more (op.level - 1) e) ts e ts := .stop (by rwa [Nat.sub_add_cancel hp])
  unfold Term.opnd
  split
  · exact .term h.group hs
  · exact h.term (by omega) (ht.mono (by omega)) hs

lemma binary (ha : a.Leads) (hb : b.Leads) (hl : b.level ≠ op.level) :
  (Term.binary op a b).Leads where
  opnd h0 := absurd h0 (Nat.ne_of_gt op.level_bounds.1)
  term hp ht hm := by
    have hgo := Reads.go hp (hb.right hl ht) hm
    rw [tokens, List.append_assoc, List.cons_append]
    unfold Term.opnd at hgo ⊢
    split
    · exact .term ha.group hgo
    · exact ha.term (by simp only [level] at hp; omega) (by simp only [Ends]; omega) hgo

lemma args (f : String) (h : ∀ e ∈ es, e.Leads) (hne : es ≠ []) (done : List Term) :
  Reads (.args f done) (argTokens es ++ .closing :: ts) (.call f (done ++ es)) ts := by
  induction es generalizing done with
  | nil => exact absurd rfl hne
  | cons e es ih =>
    obtain ⟨he, hes⟩ := List.forall_mem_cons.1 h
    cases es with
    | nil => exact .last (he.whole fun _ => trivial)
    | cons e' es =>
      have ih := ih hes nofun (done ++ [e])
      rw [List.append_assoc] at ih
      rw [argTokens, List.append_assoc]
      · exact .next (he.whole fun _ => trivial) ih
      · exact nofun

lemma call (f : String) (h : ∀ e ∈ es, e.Leads) : (Term.call f es).Leads := by
  refine of_opnd rfl fun ts _ => ?_
  cases es with
  | nil => exact .nullary
  | cons e es => simpa [tokens] using Reads.call (args f h nofun [])

end Leads

mutual

lemma leads : ∀ e : Term, e.slips = 0 → e.Leads
  | word s, _ => .of_opnd rfl fun _ ht => .word ht
  | unary op e, h => by
    have hl : e.level = 0 ∧ e.slips = 0 := by grind [slips]
    exact .of_opnd rfl fun _ ht => .unary ((leads e hl.2).opnd hl.1 ht)
  | binary op a b, h => by
    have hl : b.level ≠ op.level ∧ a.slips = 0 ∧ b.slips = 0 := by grind [slips]
    exact (leads a hl.2.1).binary (leads b hl.2.2) hl.1
  | call f args, h => .call f (leads_all args h)

lemma leads_all : ∀ es, slipsAll es = 0 → ∀ e ∈ es, e.Leads
  | [], _ => nofun
  | e :: es, h =>
    have h := Nat.add_eq_zero_iff.1 h
    List.forall_mem_cons.2 ⟨leads e h.1, leads_all es h.2⟩

end

/-! ## Counting brackets -/

def opens (ts : List Token) : Nat := ts.countP (· matches .opening _)
@[simp] lemma opens_nil : opens [] = 0 := rfl

@[simp] lemma opens_cons (t : Token) (ts : List Token) :
  opens (t :: ts) = opens ts + if t matches .opening _ then 1 else 0 := List.countP_cons

@[simp] lemma opens_append (ts ts' : List Token) : opens (ts ++ ts') = opens ts + opens ts' :=
  List.countP_append

/-- One if the operator of a term is above the given level. -/
def above (p : Nat) (e : Term) : Nat := if e.level ≤ p then 0 else 1

/-- How many brackets a term needs. -/
def weight (e : Term) : Nat := opens e.tokens + e.slips
def weightAll (es : List Term) : Nat := opens (argTokens es) + slipsAll es

lemma weight_unary (op : UnaryOp) (e : Term) : (unary op e).weight = e.weight + above 0 e := by
  simp [weight, tokens, slips, above]
  omega

lemma weight_binary (op : BinaryOp) (a b : Term) :
  (binary op a b).weight = a.weight + above op.level a + (b.weight + above (op.level - 1) b) := by
  have := op.level_bounds
  simp only [weight, tokens, slips, above, opnd]
  split <;> split <;> simp <;> grind

lemma weight_call (f : String) (es : List Term) : (call f es).weight = weightAll es + 1 := by
  simp [weight, weightAll, tokens, slips]
  omega

lemma weightAll_concat (es : List Term) (a : Term) :
  weightAll (es ++ [a]) = weightAll es + a.weight := by
  unfold weightAll weight
  induction es with
  | nil => simp [argTokens, slipsAll]
  | cons e es ih => cases es <;> simp [argTokens, slipsAll] at ih ⊢ <;> omega

/-- What has been read took the brackets that it needs, and one more for an operator that could not
be there without. The first part of a term has taken `c` of those before. -/
def Pays : Goal → List Token → Term → List Token → Prop
  | .opnd, ts, e, rest => opens rest + e.weight + above 0 e ≤ opens ts
  | .term p, ts, e, rest => opens rest + e.weight + above p e ≤ opens ts ∧ Ends (p + 1) rest
  | .more p a, ts, e, rest => ∀ c, (c = 0 → a.level ≤ p ∧ (Ends 0 ts → Ends a.level ts)) →
    opens rest + e.weight + above p e ≤ opens ts + a.weight + c ∧ Ends (p + 1) rest
  | .args _ done, ts, e, rest => opens rest + e.weight ≤ opens ts + weightAll done + 1 ∧ e.level = 0

end Term

open Term

lemma Reads.pays (h : Reads g ts e rest) : Pays g ts e rest := by
  induction h with
  | word | nullary => simp [Pays, weight, tokens, argTokens, slips, slipsAll, above, level]
  | unary _ ih => simpa [Pays, weight_unary, above, level, Nat.add_assoc] using ih
  | group _ ih => grind [Pays, above, opens_cons]
  | call _ ih =>
    have h0 : weightAll [] = 0 := rfl
    simp [Pays, above] at ih ⊢
    grind
  | last _ ih =>
    simp [Pays, weight_call, weightAll_concat, level] at ih ⊢
    omega
  | next _ _ ih ih' =>
    simp [Pays, weightAll_concat] at ih ih' ⊢
    omega
  | @term p _ a _ _ _ _ _ ih ih' =>
    -- An operator at the start of a term stands in brackets.
    obtain ⟨hle, hends⟩ := ih' (above 0 a) fun h => by
      have h0 : a.level = 0 := by simpa [above] using h
      exact ⟨h0 ▸ Nat.zero_le p, h0 ▸ id⟩
    exact ⟨by simp only [Pays] at ih; omega, hends⟩
  | stop hs => exact fun c hc => ⟨by grind [above], hs⟩
  | @go op _ _ a _ _ _ _ hp _ _ ih ih' =>
    intro c hc
    have hends := ih.2
    rw [Nat.sub_add_cancel op.level_bounds.1] at hends
    have h := ih' 0 fun _ => ⟨hp, fun _ => hends⟩
    have ha : above op.level a ≤ c := by grind [above, Ends]
    have hb := ih.1
    rw [weight_binary] at h
    exact ⟨by simp at h ⊢; omega, h.2⟩

/-- Brackets are there exactly for terms in which nothing slips. -/
theorem Term.reads_tokens_iff (e : Term) :
  (∀ e', Reads (.term 75) e.tokens e' [] ↔ e' = e) ↔ e.slips = 0 := by
  constructor
  · intro h
    have hp : Pays (.term 75) e.tokens e [] := ((h e).2 rfl).pays
    simp [Pays, weight] at hp
    omega
  · intro h e'
    have he : Reads (.term 75) (e.tokens ++ []) e [] := (leads e h).whole fun _ => trivial
    rw [List.append_nil] at he
    exact ⟨fun h' => (he.unique h').1, fun h' => h' ▸ he⟩

/-- Differences look alike whichever of them is below the other, and so do a sum below a prefix
operator and one that begins with it. -/
theorem Term.tokens_not_injective :
  (binary .sub (word "a") (binary .sub (word "b") (word "c"))).tokens =
    (binary .sub (binary .sub (word "a") (word "b")) (word "c")).tokens ∧
  (unary .minus (binary .add (word "a") (word "b"))).tokens =
    (binary .add (unary .minus (word "a")) (word "b")).tokens := ⟨rfl, rfl⟩

end Retarget.FrontEnd
