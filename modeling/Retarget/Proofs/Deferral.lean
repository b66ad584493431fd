import Mathlib.Tactic.Lemma
import Retarget.FrontEnd.Desugar

/-!
# Deferred statements run when their scope is left

The body of a defer statement is put off until the scope is left, at its end or by a jump or a
return. Then the bodies that have been put off in it run, the latest one first. Taking the deferred
statements out of a function keeps its runs if no scope ends with a defer statement and deferred
bodies have neither jumps nor returns in them.
-/

namespace Retarget.FrontEnd
open List Bool Stmt

/-! ## Renumbering

Copies of statements have other numbers for what they define. Nothing else of them changes. -/

section
variable (ρ σ : Nat → Nat)

lemma Sym.renum_renum (y : Sym) : (y.renum ρ).renum σ = y.renum fun k => σ (ρ k) := by
  cases y <;> rfl

mutual

lemma Expr.renum_renum (e : Expr) : (e.renum ρ).renum σ = e.renum fun k => σ (ρ k) := by
  cases e <;> simp only [Expr.renum, Sym.renum_renum, Expr.renum_renum,
    Expr.renumAll_renumAll, Stmt.renumAll_renumAll]

lemma Expr.renumAll_renumAll (es : List Expr) :
  Expr.renumAll σ (Expr.renumAll ρ es) = Expr.renumAll (fun k => σ (ρ k)) es := by
  cases es <;> simp only [Expr.renumAll, Expr.renum_renum, Expr.renumAll_renumAll]

lemma Stmt.renum_renum (s : Stmt) : (s.renum ρ).renum σ = s.renum fun k => σ (ρ k) := by
  cases s <;> simp only [Stmt.renum, Expr.renum_renum, Stmt.renumAll_renumAll]

lemma Stmt.renumAll_renumAll (ss : List Stmt) : Stmt.renumAll σ (Stmt.renumAll ρ ss) =
  Stmt.renumAll (fun k => σ (ρ k)) ss := by
  cases ss <;> simp only [Stmt.renumAll, Stmt.renum_renum, Stmt.renumAll_renumAll]

end
end

/-! ## Copies -/

section
variable {σ : Type} {φ : σ → σ} {ρ : Nat → Nat} {h : Role → Expr → StateM σ (Option Expr)}
  {f : Role → Expr → StateM σ Expr} {g : Stmt → StateM σ Stmt} (hh : ∀ r e, h r e = pure none)
  (hf : ∀ r e s, f r (e.renum ρ) (φ s) = (f r e s).map (·.renum ρ) φ)
  (hg : ∀ x s, g (x.renum ρ) (φ s) = (g x s).map (·.renum ρ) φ)
include hh hf hg

mutual

lemma Expr.walk_renum (r : Role) (e : Expr) (s : σ) :
  (e.renum ρ).walk h f g r (φ s) = (e.walk h f g r s).map (·.renum ρ) φ := by
  cases e <;> rw [Expr.walk, Expr.walk, hh, hh, pure_bind, pure_bind]
  all_goals
    simp only [Expr.renum, bind, StateT.bind, Functor.map, StateT.map, Seq.seq, pure,
      Expr.walk_renum, Expr.walkAll_renum, Stmt.walkAll_renum, Prod.map_fst, Prod.map_snd]
    refine Eq.trans ?_ (hf r _ _)
    rfl

lemma Expr.walkAll_renum (r : Role) (es : List Expr) (s : σ) : Expr.walkAll h f g r
  (Expr.renumAll ρ es) (φ s) = (Expr.walkAll h f g r es s).map (Expr.renumAll ρ) φ := by
  cases es <;> simp only [Expr.renumAll, Expr.walkAll, bind, StateT.bind,
    Expr.walk_renum, Expr.walkAll_renum, Prod.map_fst, Prod.map_snd] <;> rfl

lemma Stmt.walk_renum (x : Stmt) (s : σ) :
  (x.renum ρ).walk h f g (φ s) = (x.walk h f g s).map (·.renum ρ) φ := by
  cases x
  all_goals
    simp only [renum, walk, bind, StateT.bind, Expr.walk_renum, Stmt.walkAll_renum,
      Prod.map_fst, Prod.map_snd]
    refine Eq.trans ?_ (hg _ _)
    rfl

lemma Stmt.walkAll_renum (xs : List Stmt) (s : σ) :
  walkAll h f g (renumAll ρ xs) (φ s) = (walkAll h f g xs s).map (renumAll ρ) φ := by
  cases xs <;> simp only [renumAll, walkAll, bind, StateT.bind,
    Stmt.walk_renum, Stmt.walkAll_renum, Prod.map_fst, Prod.map_snd] <;> rfl

end
end

lemma gather_renum {p : Expr → List Nat} {q : Stmt → List Nat} {ρ τ : Nat → Nat}
  (hp : ∀ e, p (e.renum ρ) = (p e).map τ) (hq : ∀ s, q (s.renum ρ) = (q s).map τ)
  (ss : List Stmt) : gather p q (renumAll ρ ss) = (gather p q ss).map τ := by
  refine congrArg Prod.snd (walkAll_renum (φ := map τ)
    (fun _ _ => rfl) (fun r e s => ?_) (fun x s => ?_) ss [])
  · exact congrArg (Prod.mk _) (by rw [hp, map_append])
  · exact congrArg (Prod.mk _) (by rw [hq, map_append])

def usedIn : List Stmt → List Nat :=
  gather (fun
    | .id _ _ (.var k ..) => [k]
    | _ => []) fun _ => []

/-- What is left by the jumps and returns in statements. -/
def leftIn : List Stmt → List Nat :=
  gather (fun _ => []) fun
    | .jump _ _ _ k _ | .ret _ _ (.expr k) => [k]
    | _ => []

/-- A copy of statements differs from them in the numbers of what they define, which are new, and in
those of the variables that stand for it. Jumps and returns go to where they went, even if this is a
block copied with them. -/
theorem freshCopy_renumbers (ss : List Stmt) (n : Nat) : ∃ ρ : Nat → Nat,
  (∀ k, ρ k = if k ∈ definedIn ss then k + n else k) ∧ (freshCopy ss n).1 = renumAll ρ ss ∧
    definedIn (freshCopy ss n).1 = (definedIn ss).map ρ ∧
    usedIn (freshCopy ss n).1 = (usedIn ss).map ρ ∧ leftIn (freshCopy ss n).1 = leftIn ss := by
  refine ⟨_, fun k => ?_, rfl, gather_renum (fun e => ?_) (fun s => ?_) ss,
    gather_renum (fun e => ?_) (fun _ => rfl) ss, ?_⟩
  · simp only [contains_iff_mem]
  · cases e <;> rfl
  · cases s <;> rfl
  · cases e with
    | id n s y => cases y <;> rfl
    | _ => rfl
  · refine (gather_renum (τ := id) (fun _ => rfl) (fun s => ?_) ss).trans (map_id _)
    cases s with
    | ret p e f => cases f <;> rfl
    | _ => rfl

/-! ## Expressions without statements

These have nothing to put off. -/

mutual

def Expr.simple : Expr → Bool
  | .num .. | .truth .. | .void _ | .undef _ | .auto _ | .id .. | .str .. => true
  | .addrOf _ _ e | .deref _ e | .field _ e _ | .front _ _ e | .len _ e | .unary _ _ e
  | .cast _ e _ _ | .fieldVal _ e _ _ => e.simple
  | .idx _ a b | .binary _ _ a b | .idxVal _ a b => a.simple && b.simple
  | .pointer _ _ a b c | .choice _ a b c => a.simple && b.simple && c.simple
  | .call _ _ _ as => allSimple as
  | .recVal _ _ is => allSimple is
  | .arrayVal _ e _ is => e.simple && allSimple is
  | .stmts .. => false

def Expr.allSimple : List Expr → Bool
  | [] => true
  | e :: es => e.simple && allSimple es

end

variable (outer : List Pending) in
mutual

lemma Expr.undefer_of_simple (e : Expr) (h : e.simple) : e.undefer outer = pure e := by
  cases e <;> simp_all [simple, undefer, undefer_of_simple, undeferAll_of_allSimple]

lemma Expr.undeferAll_of_allSimple (es : List Expr) (h : allSimple es) :
  undeferAll outer es = pure es := by
  cases es <;> simp_all [allSimple, undeferAll, undefer_of_simple, undeferAll_of_allSimple]

end

/-! ## Runs -/

/-- What is seen of a run. The numbers of variables and blocks are left out. -/
inductive Event where
  | did (s : Stmt)
  | asked (c : Expr)

inductive Exit where
  | fell
  | jumped (again : Bool) (no : Nat)
  | returned (e : Expr) (f : Frame)
  | trapped
  /-- A block has been repeated as often as the run allows. -/
  | tired

namespace Exit

def ends : Exit → Bool
  | trapped | tired => true
  | _ => false

def owner? : Exit → Option Owner
  | jumped _ no => some (.blk no)
  | returned _ f => some (.frame f)
  | _ => none

/-- How a scope is left that was being left already when it came to this. -/
def overriddenBy (x : Exit) : Exit → Exit
  | fell => x
  | y => y

end Exit

/-- Something that goes on from what has been seen, and how it is left. -/
abbrev Act := List Event → List Event × Exit

namespace Act

def stop (x : Exit) : Act := fun seen => (seen, x)
def did (s : Stmt) : Act := fun seen => (seen ++ [.did (s.renum fun _ => 0)], .fell)

def ask (answer : List Event → Bool) (c : Expr) (yes no : Act) : Act := fun seen =>
  let seen := seen ++ [.asked (c.renum fun _ => 0)]
  if answer seen then yes seen else no seen

def andThen (a : Act) (next : Exit → Act) : Act := fun seen => next (a seen).2 (a seen).1

end Act

def leave : List Act → Exit → Act
  | [], x => .stop x
  | a :: as, x => if x.ends then .stop x else a.andThen fun y => leave as (x.overriddenBy y)

def Exit.next (pending : List Act) (rest : Act) : Exit → Act
  | fell => rest
  | x => leave pending x

/-- Repeat a block, leave it, or leave for somewhere further out. -/
def Exit.turn (no : Nat) (repeated : Act) : Exit → Act
  | jumped again k => if k = no then if again then repeated else .stop fell else .stop (jumped again k)
  | x => .stop x

/-- Repeat the body of a block as long as it jumps to its start. -/
def turns (no : Nat) (body : Act) : Nat → Act
  | 0 => .stop .tired
  | n + 1 => body.andThen (Exit.turn no (turns no body n))

section Run
variable (answer : List Event → Bool) (limit : Nat)

mutual

/-- Run a statement. Conditions are answered, given all that has been seen. -/
def Stmt.run : Stmt → Act
  | .blk _ k _ b => turns k (runAll [] b) limit
  | .cond _ c t e => .ask answer c (runAll [] t) (runAll [] e)
  | .jump _ again _ k _ => .stop (.jumped again k)
  | .ret _ e f => .stop (.returned e f)
  | .trap _ => .stop .trapped
  | .defer .. => .stop .fell
  | s => .did s

/-- Run the rest of a scope in which something may have been put off already, the latest first. -/
def Stmt.runAll (pending : List Act) : List Stmt → Act
  | [] => leave pending .fell
  | .defer _ b :: rest => runAll (runAll [] b :: pending) rest
  | s :: rest => (s.run).andThen (Exit.next pending (runAll pending rest))

end

def FnDef.run (f : FnDef) : List Event × Exit := runAll answer limit [] f.body []

end Run

/-! ## Leaving a scope -/

lemma Act.andThen_assoc (a : Act) (f g : Exit → Act) :
  (a.andThen f).andThen g = a.andThen fun x => (f x).andThen g := rfl

@[simp] lemma Act.stop_andThen (x : Exit) (f : Exit → Act) : (stop x).andThen f = f x := rfl
@[simp] lemma Act.andThen_stop (a : Act) : a.andThen stop = a := rfl

lemma Act.ask_andThen (answer : List Event → Bool) (c : Expr) (yes no : Act) (f : Exit → Act) :
  (ask answer c yes no).andThen f = ask answer c (yes.andThen f) (no.andThen f) := by
  funext seen
  simp only [andThen, ask]
  split <;> rfl

@[simp] lemma leave_nil (x : Exit) : leave [] x = .stop x := rfl

variable {x : Exit} {a : Act} {as : List Act} {f g : Exit → Act}

lemma leave_of_ends (h : x.ends) (as : List Act) : leave as x = .stop x := by
  cases as with
  | nil => rfl
  | cons a as => rw [leave, if_pos h]

section
variable (h : x.ends)
include h

lemma Exit.overrides_of_ends (y : Exit) : y.overriddenBy x = x := by
  cases x <;> first | rfl | cases h

lemma Exit.turn_of_ends (no : Nat) (a : Act) : x.turn no a = .stop x := by
  cases x <;> first | rfl | cases h

lemma Exit.next_of_ends (pending : List Act) (a : Act) : x.next pending a = .stop x := by
  rw [← leave_of_ends h pending]
  cases x <;> first | rfl | cases h

end

lemma leave_cons (a : Act) (as : List Act) (h : x.ends = false) :
  leave (a :: as) x = a.andThen fun y => leave as (x.overriddenBy y) := by
  rw [leave, h]
  rfl

lemma leave_append (as bs : List Act) (x : Exit) :
  leave (as ++ bs) x = (leave as x).andThen (leave bs) := by
  induction as generalizing x with
  | nil => rfl
  | cons a as ih =>
    cases hx : x.ends with
    | true => rw [leave_of_ends hx, leave_of_ends hx, Act.stop_andThen, leave_of_ends hx]
    | false =>
      rw [cons_append, leave_cons a _ hx, leave_cons a _ hx, Act.andThen_assoc]
      simp only [ih]

@[simp] lemma Exit.next_nil (rest : Act) (x : Exit) (hx : x ≠ .fell) :
  x.next [] rest = .stop x := by
  cases x <;> first | rfl | exact absurd rfl hx

/-- Control never leaves for a place further out. -/
def Act.Calm (a : Act) : Prop := ∀ seen, (a seen).2.owner? = none

lemma Exit.fell_or_ends (h : x.owner? = none) : x = .fell ∨ x.ends := by
  cases x <;> first | exact .inl rfl | exact .inr rfl | cases h

/-- Two ways to go on from something calm are the same if they agree unless control leaves. -/
lemma Act.Calm.andThen_congr (h : a.Calm)
  (hfell : f .fell = g .fell) (hends : ∀ x, x.ends → f x = g x) : a.andThen f = a.andThen g := by
  funext seen
  show f (a seen).2 (a seen).1 = g (a seen).2 (a seen).1
  rcases Exit.fell_or_ends (h seen) with hx | hx
  · rw [hx, hfell]
  · rw [hends _ hx]

lemma Act.Calm.andThen (h : a.Calm) (hfell : (f .fell).Calm)
  (hends : ∀ x, x.ends → (f x).Calm) : (a.andThen f).Calm := by
  intro seen
  show (f (a seen).2 (a seen).1).2.owner? = none
  rcases Exit.fell_or_ends (h seen) with hx | hx
  · rw [hx]
    exact hfell _
  · exact hends _ hx _

lemma Act.stop_calm (h : x.owner? = none) : (stop x).Calm := fun _ => h

lemma Exit.owner?_of_ends (h : x.ends) : x.owner? = none := by
  cases x <;> first | rfl | cases h

lemma leave_calm (h : ∀ a ∈ as, a.Calm) (hx : x.owner? = none) : (leave as x).Calm := by
  induction as generalizing x with
  | nil => exact Act.stop_calm hx
  | cons a as ih =>
    obtain ⟨ha, has⟩ := forall_mem_cons.1 h
    rcases Exit.fell_or_ends hx with rfl | hends
    · rw [leave_cons a as rfl]
      refine ha.andThen (ih has rfl) fun y hy => ?_
      rw [Exit.overrides_of_ends hy]
      exact ih has (Exit.owner?_of_ends hy)
    · rw [leave_of_ends hends]
      exact Act.stop_calm hx

/-- If what has been put off is calm, control goes where it was going, unless nothing runs any
more. -/
lemma leave_andThen_congr (h : ∀ a ∈ as, a.Calm)
  (hx : f x = g x) (hends : ∀ y, y.ends → f y = g y) :
  (leave as x).andThen f = (leave as x).andThen g := by
  induction as generalizing x with
  | nil => exact hx
  | cons a as ih =>
    obtain ⟨ha, has⟩ := forall_mem_cons.1 h
    cases hxe : x.ends with
    | true =>
      rw [leave_of_ends hxe]
      exact hx
    | false =>
      rw [leave_cons a as hxe, Act.andThen_assoc, Act.andThen_assoc]
      refine ha.andThen_congr (ih has hx) fun y hy => ?_
      rw [Exit.overrides_of_ends hy, leave_of_ends hy]
      exact hends y hy

lemma leave_eq_overriddenBy (h : ∀ a ∈ as, a.Calm) (hx : x.ends = false) :
  leave as x = (leave as .fell).andThen fun y => .stop (x.overriddenBy y) := by
  induction as with
  | nil => rfl
  | cons a as ih =>
    obtain ⟨ha, has⟩ := forall_mem_cons.1 h
    rw [leave_cons a as hx, leave_cons a as rfl, Act.andThen_assoc]
    refine ha.andThen_congr (ih has) fun y hy => ?_
    have hover := Exit.overrides_of_ends hy
    rw [hover, hover, leave_of_ends hy, Act.stop_andThen, hover]

/-! ## Statements without jumps -/

def Stmt.isDefer : Stmt → Bool
  | .defer .. => true
  | _ => false

def Stmt.stays (s : Stmt) : Bool := !s.leaves
def Stmt.straight (s : Stmt) : Bool := !s.leaves && !s.isDefer
def Stmt.prompt (s : Stmt) : Bool := !s.isDefer

mutual

/-- The statement and all statements in it, except for those in expressions, are as told. -/
def Stmt.every (p : Stmt → Bool) (s : Stmt) : Bool :=
  p s && match s with
    | .blk _ _ _ b | .defer _ b => everyAll p b
    | .cond _ _ t e => everyAll p t && everyAll p e
    | _ => true

def Stmt.everyAll (p : Stmt → Bool) : List Stmt → Bool
  | [] => true
  | s :: ss => s.every p && everyAll p ss

end

lemma Stmt.everyAll_append (p : Stmt → Bool) (ss ss' : List Stmt) :
  everyAll p (ss ++ ss') = (everyAll p ss && everyAll p ss') := by
  induction ss with
  | nil => rfl
  | cons s ss ih => rw [cons_append, everyAll, everyAll, ih, Bool.and_assoc]

mutual

lemma Stmt.every_mono {p q : Stmt → Bool} (hpq : ∀ s, p s → q s) (s : Stmt)
  (h : s.every p) : s.every q := by
  cases s <;> simp_all [every, everyAll_mono hpq]

lemma Stmt.everyAll_mono {p q : Stmt → Bool} (hpq : ∀ s, p s → q s)
  (ss : List Stmt) (h : everyAll p ss) : everyAll q ss := by
  cases ss <;> simp_all [everyAll, every_mono hpq, everyAll_mono hpq]

end

lemma Stmt.everyAll_stays (ss : List Stmt) (h : everyAll straight ss) : everyAll stays ss :=
  everyAll_mono (fun _ h => (and_eq_true_iff.1 h).1) ss h

lemma Stmt.prompt_of_straight (s : Stmt) (h : s.straight) : s.prompt :=
  (and_eq_true_iff.1 h).2

lemma Stmt.isDefer_of_prompt (s : Stmt) (h : s.every prompt) : s.isDefer = false := by
  cases s <;> first | rfl | exact absurd h false_ne_true

section
variable {answer : List Event → Bool} {limit : Nat} {s : Stmt} {bodies : List (List Stmt)}
  {body : Act}

lemma Stmt.runAll_cons (h : s.isDefer = false) (pending : List Act) (rest : List Stmt) :
  runAll answer limit pending (s :: rest) =
    (s.run answer limit).andThen (Exit.next pending (runAll answer limit pending rest)) := by
  cases s <;> first | rfl | cases h

lemma Stmt.runAll_single (h : s.isDefer = false) :
  runAll answer limit [] [s] = s.run answer limit := by
  rw [runAll_cons h]
  have hnext : Exit.next [] (runAll answer limit [] []) = Act.stop := by
    funext x
    cases x <;> rfl
  rw [hnext, Act.andThen_stop]

lemma Stmt.runAll_append {ss : List Stmt} (h : everyAll prompt ss) (ss' : List Stmt) :
  runAll answer limit [] (ss ++ ss') = (runAll answer limit [] ss).andThen
      (Exit.next [] (runAll answer limit [] ss')) := by
  induction ss with
  | nil => rfl
  | cons s ss ih =>
    simp only [everyAll, and_eq_true] at h
    have hs := s.isDefer_of_prompt h.1
    rw [cons_append, runAll_cons hs, runAll_cons hs, Act.andThen_assoc]
    congr 1
    funext x
    cases x with
    | fell => exact ih h.2
    | _ => rfl

lemma turns_calm (h : body.Calm) (no n : Nat) : (turns no body n).Calm := by
  cases n with
  | zero => exact Act.stop_calm rfl
  | succ n =>
    refine h.andThen (Act.stop_calm rfl) fun x hx => ?_
    rw [Exit.turn_of_ends hx]
    exact Act.stop_calm (Exit.owner?_of_ends hx)

lemma turns_renum (h : body.Calm) (no no' n : Nat) : turns no body n = turns no' body n := by
  cases n with
  | zero => rfl
  | succ n =>
    exact h.andThen_congr rfl fun x hx => by rw [Exit.turn_of_ends hx, Exit.turn_of_ends hx]

lemma Act.did_calm (s : Stmt) : (did s).Calm := fun _ => rfl

lemma Act.ask_calm {yes no : Act} (hyes : yes.Calm) (hno : no.Calm) (c : Expr) :
  (ask answer c yes no).Calm := by
  intro seen
  rw [ask]
  split
  · exact hyes _
  · exact hno _

variable (answer limit) in
mutual

lemma Stmt.run_calm : ∀ s : Stmt, s.every stays → (s.run answer limit).Calm
  | .blk _ k _ b, h => turns_calm (runAll_calm [] b (forall_mem_nil _) h) k limit
  | .cond _ c t e, h => by
    simp only [every, and_eq_true] at h
    exact Act.ask_calm (runAll_calm [] t (forall_mem_nil _) h.2.1)
      (runAll_calm [] e (forall_mem_nil _) h.2.2) c
  | .jump .., h | .ret .., h => absurd h false_ne_true
  | .trap _, _ | .defer .., _ => Act.stop_calm rfl
  | .define .., _ | .shed .., _ | .assign .., _ => Act.did_calm _

lemma Stmt.runAll_calm : ∀ (pending : List Act) (ss : List Stmt), (∀ a ∈ pending, a.Calm) →
    everyAll stays ss → (runAll answer limit pending ss).Calm
  | pending, [], hpnd, _ => leave_calm hpnd rfl
  | pending, s :: rest, hpnd, h => by
    simp only [everyAll, and_eq_true] at h
    cases hdefer : s.isDefer with
    | false =>
      rw [runAll_cons hdefer]
      refine (run_calm s h.1).andThen (runAll_calm pending rest hpnd h.2) fun x hx => ?_
      rw [Exit.next_of_ends hx]
      exact Act.stop_calm (Exit.owner?_of_ends hx)
    | true =>
      match s with
      | .defer _ b =>
        have hb := runAll_calm [] b (forall_mem_nil _) h.1
        exact runAll_calm _ rest (forall_mem_cons.2 ⟨hb, hpnd⟩) h.2

end

/-! ## Copies -/

variable (ρ : Nat → Nat)

lemma Act.did_renum (s : Stmt) : did (s.renum ρ) = did s := by
  funext seen
  simp only [did, s.renum_renum]

lemma Act.ask_renum (c : Expr) (yes no : Act) :
  ask answer (c.renum ρ) yes no = ask answer c yes no := by
  funext seen
  simp only [ask, c.renum_renum]

mutual

lemma Stmt.run_renum : ∀ s : Stmt, s.every straight →
    (s.renum ρ).run answer limit = s.run answer limit
  | .blk _ k _ b, h => by
    have hcalm := runAll_calm answer limit [] b (forall_mem_nil _) (everyAll_stays b h)
    simp only [renum, run, runAll_renum [] b h]
    exact turns_renum hcalm _ _ _
  | .cond _ c t e, h => by
    simp only [every, and_eq_true] at h
    simp only [renum, run, runAll_renum [] t h.2.1, runAll_renum [] e h.2.2, Act.ask_renum]
  | .jump .., h | .ret .., h | .defer .., h => absurd h false_ne_true
  | .trap _, _ => rfl
  | .define v e, _ => Act.did_renum ρ (.define v e)
  | .shed p e, _ => Act.did_renum ρ (.shed p e)
  | .assign p l r, _ => Act.did_renum ρ (.assign p l r)

lemma Stmt.runAll_renum : ∀ (pending : List Act) (ss : List Stmt),
    everyAll straight ss →
    runAll answer limit pending (renumAll ρ ss) = runAll answer limit pending ss
  | _, [], _ => rfl
  | pending, s :: ss, h => by
    simp only [everyAll, and_eq_true] at h
    have hdefer := s.isDefer_of_prompt (every_mono prompt_of_straight s h.1)
    have hdefer' : (s.renum ρ).isDefer = false := by cases s <;> first | rfl | cases hdefer
    rw [renumAll, runAll_cons hdefer,
      runAll_cons hdefer', run_renum s h.1, runAll_renum pending ss h.2]

end

mutual

lemma Stmt.every_renum (s : Stmt) : (s.renum ρ).every straight = s.every straight := by
  cases s <;> simp only [renum, every, everyAll_renum] <;> rfl

lemma Stmt.everyAll_renum (ss : List Stmt) :
  everyAll straight (renumAll ρ ss) = everyAll straight ss := by
  cases ss <;> simp only [renumAll, everyAll, every_renum, everyAll_renum]

end

variable (answer limit) in
def acts (bodies : List (List Stmt)) : List Act := bodies.map (runAll answer limit [])

lemma acts_calm (h : ∀ b ∈ bodies, everyAll straight b) :
  ∀ a ∈ acts answer limit bodies, a.Calm := by
  intro a ha
  obtain ⟨b, hb, rfl⟩ := mem_map.1 ha
  exact runAll_calm answer limit [] b (forall_mem_nil _) (everyAll_stays b (h b hb))

lemma copies_straight (h : ∀ b ∈ bodies, everyAll straight b) (n : Nat) :
  everyAll straight (copies bodies n).1 := by
  induction bodies generalizing n with
  | nil => rfl
  | cons b bodies ih =>
    obtain ⟨hb, hbodies⟩ := forall_mem_cons.1 h
    show everyAll straight ((freshCopy b n).1 ++ (copies bodies (freshCopy b n).2).1)
    rw [everyAll_append, ih hbodies, Bool.and_true]
    exact (everyAll_renum _ b).trans hb

lemma runAll_copies (h : ∀ b ∈ bodies, everyAll straight b) (n : Nat) :
  runAll answer limit [] (copies bodies n).1 = leave (acts answer limit bodies) .fell := by
  induction bodies generalizing n with
  | nil => rfl
  | cons b bodies ih =>
    obtain ⟨hb, hbodies⟩ := forall_mem_cons.1 h
    have hcopy : everyAll straight (freshCopy b n).1 := (everyAll_renum _ b).trans hb
    have hcalm := acts_calm h (runAll answer limit [] b) (.head _)
    show runAll answer limit [] ((freshCopy b n).1 ++ (copies bodies (freshCopy b n).2).1) = _
    rw [runAll_append (everyAll_mono prompt_of_straight _ hcopy), ih hbodies]
    show (runAll answer limit [] (renumAll _ b)).andThen _ = _
    rw [runAll_renum _ [] b hb,
      show acts answer limit (b :: bodies) = _ :: acts answer limit bodies from rfl,
      leave_cons _ _ rfl]
    refine hcalm.andThen_congr rfl fun x hx => ?_
    rw [Exit.overrides_of_ends hx, leave_of_ends hx, Exit.next_of_ends hx]

/-! ## Taking out what has been put off -/

lemma Stmt.undeferAll_cons (h : s.isDefer = false) (here : Pending)
  (outer : List Pending) (rest : List Stmt) (n : Nat) :
  (undeferAll here outer (s :: rest) n).1 = (s.undefer (here :: outer) n).1 ++
    if rest.isEmpty && !s.leaves then (copies here.bodies (s.undefer (here :: outer) n).2).1
    else (undeferAll here outer rest (s.undefer (here :: outer) n).2).1 := by
  have hstep : undeferAll here outer (s :: rest) n = (if rest.isEmpty && !s.leaves then do
        return (s.undefer (here :: outer) n).1 ++ (← copies here.bodies)
      else do
        return (s.undefer (here :: outer) n).1 ++ (← undeferAll here outer rest) :
        StateM Nat (List Stmt)) (s.undefer (here :: outer) n).2 := by
    cases s <;> first | rfl | cases h
  rw [hstep]
  split <;> rfl

def Straight (scopes : List Pending) : Prop :=
  ∀ p ∈ scopes, ∀ b ∈ p.bodies, everyAll straight b

lemma Straight.pendingUpTo {scopes : List Pending} (h : Straight scopes) (o : Owner) :
  ∀ b ∈ pendingUpTo o scopes, everyAll straight b := by
  induction scopes with
  | nil => exact forall_mem_nil _
  | cons p scopes ih =>
    obtain ⟨hp, hscopes⟩ := forall_mem_cons.1 h
    intro b hb
    rw [FrontEnd.pendingUpTo, mem_append] at hb
    rcases hb with hb | hb
    · exact hp b hb
    · split at hb
      · exact absurd hb not_mem_nil
      · exact ih hscopes b hb

mutual

/-- No scope ends with a defer statement, there are no statements in expressions, and what is put
off has neither jumps nor returns in it. -/
def Stmt.tidy : Stmt → Bool
  | .define _ e | .shed _ e => e.simple
  | .blk _ _ _ b => tidyAll b
  | .defer _ b => everyAll stays b && tidyAll b
  | .cond _ c t e => c.simple && tidyAll t && tidyAll e
  | .jump .. | .ret .. | .trap _ => true
  | .assign _ l r => l.simple && r.simple

def Stmt.tidyAll : List Stmt → Bool
  | [] => true
  | s :: rest => s.tidy && !(s.isDefer && rest.isEmpty) && tidyAll rest

end

lemma Stmt.stays_cond {p : String} {c : Expr} {t e : List Stmt} {P : Prop}
  (h : (cond p c t e).every stays ∨ P) : (everyAll stays t ∨ P) ∧ (everyAll stays e ∨ P) := by
  rcases h with h | h
  · simp only [every, and_eq_true] at h
    exact ⟨.inl h.2.1, .inl h.2.2⟩
  · exact ⟨.inr h, .inr h⟩

lemma Stmt.stays_cons {rest : List Stmt} {P Q : Prop} (hPQ : P → Q)
  (h : everyAll stays (s :: rest) ∨ P) :
  (s.every stays ∨ Q) ∧ (everyAll stays rest ∨ P) := by
  rcases h with h | h
  · simp only [everyAll, and_eq_true] at h
    exact ⟨.inl h.1, .inl h.2⟩
  · exact ⟨.inr (hPQ h), .inr h⟩

mutual

lemma Stmt.undefer_every : ∀ {q : Stmt → Bool} (_ : ∀ s, s.straight → q s)
    (scopes : List Pending) (s : Stmt) (n : Nat), s.tidy →
    (s.every stays ∨ Straight scopes ∧ ∀ t, prompt t → q t) →
    everyAll q (s.undefer scopes n).1
  | q, hq, scopes, .blk p k l b, n, h, hleave => by
    have hb := undeferAll_every hq ⟨.blk k, []⟩ scopes b n h (forall_mem_nil _) hleave
    show everyAll q [.blk p k l _]
    simp only [everyAll, every, hb, hq (.blk ..) rfl]
    rfl
  | q, hq, scopes, .cond p c t e, n, h, hleave => by
    simp only [tidy, and_eq_true] at h
    have hlvs := stays_cond hleave
    have ht := undeferAll_every hq ⟨.other, []⟩ scopes t (c.undefer scopes n).2 h.1.2
      (forall_mem_nil _) hlvs.1
    have he := undeferAll_every hq ⟨.other, []⟩ scopes e
      (undeferAll ⟨.other, []⟩ scopes t (c.undefer scopes n).2).2 h.2 (forall_mem_nil _) hlvs.2
    show everyAll q [.cond p _ _ _]
    simp only [everyAll, every, ht, he, hq (.cond ..) rfl]
    rfl
  | q, hq, scopes, .jump .., n, _, hleave | q, hq, scopes, .ret .., n, _, hleave => by
    rcases hleave with hleave | ⟨hscopes, hprompt⟩
    · exact absurd hleave false_ne_true
    · show everyAll q ((copies (pendingUpTo _ scopes) n).1 ++ [_])
      rw [everyAll_append, everyAll_mono hq _ (copies_straight (hscopes.pendingUpTo _) n)]
      exact everyAll_mono hprompt [_] rfl
  | _, hq, _, .trap _, _, _, _ | _, hq, _, .define .., _, _, _ | _, hq, _, .shed .., _, _, _
  | _, hq, _, .assign .., _, _, _ => everyAll_mono hq [_] rfl
  | _, _, _, .defer .., _, _, _ => rfl

/-- Nothing is put off any more after the deferred statements are taken out. If there are no jumps,
the statements are straight. -/
lemma Stmt.undeferAll_every : ∀ {q : Stmt → Bool} (_ : ∀ s, s.straight → q s)
    (here : Pending) (outer : List Pending) (ss : List Stmt) (n : Nat), tidyAll ss →
    (∀ b ∈ here.bodies, everyAll straight b) →
    (everyAll stays ss ∨ Straight outer ∧ ∀ t, prompt t → q t) →
    everyAll q (undeferAll here outer ss n).1
  | _, _, _, _, [], _, _, _, _ => rfl
  | q, hq, here, outer, s :: rest, n, h, hhere, hleave => by
    simp only [tidyAll, and_eq_true] at h
    have hlvs := stays_cons (And.imp_left fun houter => forall_mem_cons.2 ⟨hhere, houter⟩) hleave
    cases hdefer : s.isDefer with
    | true =>
      match s with
      | .defer p b =>
        simp only [tidy, and_eq_true] at h
        have hstraight := undeferAll_every (fun _ => id) ⟨.other, []⟩
          (⟨here.owner, b :: here.bodies⟩ :: outer) b n h.1.1.2 (forall_mem_nil _) (.inl h.1.1.1)
        exact undeferAll_every hq ⟨here.owner, _ :: here.bodies⟩ outer rest _ h.2
          (forall_mem_cons.2 ⟨hstraight, hhere⟩) hlvs.2
    | false =>
      have hs := undefer_every hq (here :: outer) s n h.1.1 hlvs.1
      have hcopies := everyAll_mono hq _ (copies_straight hhere (s.undefer (here :: outer) n).2)
      rw [undeferAll_cons hdefer, everyAll_append, hs, Bool.true_and]
      split
      · exact hcopies
      · exact undeferAll_every hq here outer rest _ h.2 hhere hlvs.2

end

def awaiting (scopes : List Pending) (x : Exit) : List (List Stmt) :=
  match x.owner? with
  | none => []
  | some o => pendingUpTo o scopes

/-- What has been put off in scopes that are left on the way, after the innermost one. -/
def further (here : Pending) (outer : List Pending) (x : Exit) : List (List Stmt) :=
  match x.owner? with
  | none => []
  | some o => if here.owner = o then [] else pendingUpTo o outer

variable (answer limit) in
def quit (scopes : List Pending) (x : Exit) : Act := leave (acts answer limit (awaiting scopes x)) x

variable (answer limit) in
/-- Run what waits in the scopes that are left after the innermost one, and leave. -/
def quitFrom (here : Pending) (outer : List Pending) (x : Exit) : Act :=
  leave (acts answer limit (further here outer x)) x

lemma quit_of_owner (h : x.owner? = none) (scopes : List Pending) :
  quit answer limit scopes x = .stop x := by
  rw [quit, awaiting, h]
  rfl

lemma quitFrom_of_owner (h : x.owner? = none) (here : Pending) (outer : List Pending) :
  quitFrom answer limit here outer x = .stop x := by
  rw [quitFrom, further, h]
  rfl

lemma quit_cons (h : ∀ b ∈ here.bodies, everyAll straight b)
  (hx : x.owner? ≠ none) : quit answer limit (here :: outer) x =
    (leave (acts answer limit here.bodies) x).andThen (quitFrom answer limit here outer) := by
  have hawaiting : awaiting (here :: outer) x = here.bodies ++ further here outer x := by
    rw [awaiting, further]
    cases ho : x.owner? with
    | none => exact absurd ho hx
    | some o => rfl
  rw [quit, hawaiting, show acts answer limit (here.bodies ++ further here outer x) =
    acts answer limit here.bodies ++ acts answer limit (further here outer x) from map_append,
    leave_append]
  refine leave_andThen_congr (acts_calm h) rfl fun y hy => ?_
  rw [quitFrom_of_owner (Exit.owner?_of_ends hy), leave_of_ends hy]

/-- Nothing runs after the scopes have been left. -/
lemma quit_andThen (h : Straight scopes) (hx : x.owner? ≠ none)
  (hfx : f x = .stop x) (hends : ∀ y, y.ends → f y = .stop y) :
  (quit answer limit scopes x).andThen f = quit answer limit scopes x := by
  have hcalm : ∀ a ∈ acts answer limit (awaiting scopes x), a.Calm := by
    rw [awaiting]
    cases ho : x.owner? with
    | none => exact absurd ho hx
    | some o => exact acts_calm (h.pendingUpTo o)
  exact (leave_andThen_congr hcalm hfx hends).trans (Act.andThen_stop _)

lemma andThen_congr_of (hstay : ∀ x, x.owner? = none → f x = g x)
  (hleave : a.Calm ∨ ∀ x, x.owner? ≠ none → f x = g x) : a.andThen f = a.andThen g := by
  rcases hleave with h | h
  · exact h.andThen_congr (hstay _ rfl) fun x hx => hstay x (Exit.owner?_of_ends hx)
  · congr 1
    funext x
    by_cases hx : x.owner? = none
    · exact hstay x hx
    · exact h x hx

/-- Turns of a block whose body leaves the scopes further out by itself. -/
lemma turns_quit {no : Nat} (h : body.Calm ∨ Straight scopes) (n : Nat) :
  turns no (body.andThen (quitFrom answer limit ⟨.blk no, []⟩ scopes)) n =
    (turns no body n).andThen (quit answer limit scopes) := by
  induction n with
  | zero => exact (quit_of_owner rfl scopes).symm
  | succ n ih =>
    rw [turns, turns, ih, Act.andThen_assoc, Act.andThen_assoc]
    refine andThen_congr_of (fun x hx => ?_) (h.imp_right fun hscopes x hx => ?_)
    · rw [quitFrom_of_owner hx, Act.stop_andThen]
      have hturn : ∀ r, x.turn no r = .stop x := by
        intro r
        cases x <;> first | rfl | cases hx
      rw [hturn, hturn, Act.stop_andThen, quit_of_owner hx]
    · by_cases hno : x.owner? = some (.blk no)
      · -- The jump goes to the start or the end of this very block.
        obtain ⟨again, rfl⟩ : ∃ again, x = .jumped again no := by
          cases x <;> simp [Exit.owner?] at hno
          exact ⟨_, by rw [hno]⟩
        have hquit : quitFrom answer limit ⟨.blk no, []⟩ scopes (.jumped again no) =
            .stop (.jumped again no) := by
          simp [quitFrom, further, Exit.owner?, acts]
        rw [hquit, Act.stop_andThen, Exit.turn, Exit.turn, if_pos rfl, if_pos rfl]
        cases again with
        | true => rfl
        | false => exact (quit_of_owner rfl scopes).symm
      · have hquit : quitFrom answer limit ⟨.blk no, []⟩ scopes x = quit answer limit scopes x := by
          rw [quitFrom, quit, further, awaiting]
          cases ho : x.owner? with
          | none => exact absurd ho hx
          | some o =>
            have hne : Owner.blk no ≠ o := fun heq => hno (by rw [ho, heq])
            simp only [if_neg hne]
        have hturn : ∀ r, x.turn no r = .stop x := by
          intro r
          cases x with
          | jumped again k =>
            have hne : k ≠ no := fun heq => hno (by rw [heq]; rfl)
            rw [Exit.turn, if_neg hne]
          | _ => rfl
        rw [hquit, hturn]
        exact quit_andThen hscopes hx (hturn _) fun y hy => Exit.turn_of_ends hy _ _

lemma runAll_copies_leave (hscopes : Straight scopes) {o : Owner}
  (hs : s.run answer limit = .stop x) (hx : x.owner? = some o) (hdefer : s.isDefer = false)
  (n : Nat) : runAll answer limit [] ((copies (pendingUpTo o scopes) n).1 ++ [s]) =
    quit answer limit scopes x := by
  have hstraight := hscopes.pendingUpTo o
  have hends : x.ends = false := by cases x <;> first | rfl | cases hx
  have hnext : Exit.next [] (.stop x) = fun y => .stop (x.overriddenBy y) := by
    funext y
    cases y <;> rfl
  rw [runAll_append (everyAll_mono prompt_of_straight _ (copies_straight hstraight n)),
    runAll_copies hstraight, runAll_single hdefer, hs, hnext,
    ← leave_eq_overriddenBy (acts_calm hstraight) hends, quit, awaiting, hx]

lemma quitFrom_other (scopes : List Pending) :
  quitFrom answer limit ⟨.other, []⟩ scopes = quit answer limit scopes := by
  funext x
  rw [quitFrom, quit, further, awaiting]
  cases ho : x.owner? with
  | none => rfl
  | some o =>
    have hne : Owner.other ≠ o := by
      rintro rfl
      cases x <;> cases ho
    simp only [if_neg hne]

lemma did_quit (scopes : List Pending) (s : Stmt) :
  (Act.did s).andThen (quit answer limit scopes) = Act.did s := by
  refine ((Act.did_calm s).andThen_congr ?_ fun x hx => ?_).trans (Act.andThen_stop _)
  · exact quit_of_owner rfl scopes
  · exact quit_of_owner (Exit.owner?_of_ends hx) scopes

/-- Leaving for somewhere further out: nothing of the rest runs. -/
lemma quit_next (h : Straight (here :: outer)) (hx : x.owner? ≠ none)
  (rest rest' : Act) : (quit answer limit (here :: outer) x).andThen (Exit.next [] rest) =
    (x.next (acts answer limit here.bodies) rest').andThen (quitFrom answer limit here outer) := by
  have hfell : x ≠ .fell := by
    rintro rfl
    exact hx rfl
  have hnext : x.next (acts answer limit here.bodies) rest' =
      leave (acts answer limit here.bodies) x := by
    cases x <;> first | rfl | exact absurd rfl hfell
  rw [quit_andThen h hx (Exit.next_nil rest x hfell) fun y hy => Exit.next_of_ends hy _ _, hnext,
    quit_cons (h here (.head _)) hx]

/-- What comes after a statement of a scope, if the rest of the scope runs as it should. -/
lemma andThen_quit (ha : a.Calm ∨ Straight (here :: outer)) {rest rest' : Act}
  (hrest : rest = rest'.andThen (quitFrom answer limit here outer)) :
  (a.andThen (quit answer limit (here :: outer))).andThen (Exit.next [] rest) =
    (a.andThen (Exit.next (acts answer limit here.bodies) rest')).andThen
      (quitFrom answer limit here outer) := by
  refine andThen_congr_of (fun x hx => ?_) (ha.imp_right fun h x hx => quit_next h hx _ _)
  rw [quit_of_owner hx, Act.stop_andThen]
  rcases Exit.fell_or_ends hx with rfl | hends
  · exact hrest
  · rw [Exit.next_of_ends hends, Exit.next_of_ends hends, Act.stop_andThen, quitFrom_of_owner hx]

lemma quitFrom_calm (h : a.Calm) (here : Pending) (outer : List Pending) :
  a.andThen (quitFrom answer limit here outer) = a :=
  (h.andThen_congr (quitFrom_of_owner rfl here outer) fun _ hx =>
    quitFrom_of_owner (Exit.owner?_of_ends hx) here outer).trans (Act.andThen_stop _)

lemma Stmt.run_of_leaves (h : s.leaves) : ∃ x, s.run answer limit = .stop x ∧ x.owner? ≠ none := by
  cases s with
  | jump p again name k l => exact ⟨.jumped again k, rfl, by simp [Exit.owner?]⟩
  | ret p e f => exact ⟨.returned e f, rfl, by simp [Exit.owner?]⟩
  | _ => cases h

lemma Stmt.leaves_of_stays (h : s.every stays) : s.leaves = false := by
  cases s <;> first | rfl | exact absurd h false_ne_true

variable (answer limit)

mutual

lemma Stmt.run_undefer : ∀ (scopes : List Pending) (s : Stmt) (n : Nat), s.isDefer = false →
    s.tidy → (s.every stays ∨ Straight scopes) →
    runAll answer limit [] (s.undefer scopes n).1 =
      (s.run answer limit).andThen (quit answer limit scopes)
  | scopes, .blk p k l b, n, _, h, hleave => by
    have hcalm : (runAll answer limit [] b).Calm ∨ Straight scopes :=
      hleave.imp_left (runAll_calm answer limit [] b (forall_mem_nil _))
    have hbody := runAll_undefer ⟨.blk k, []⟩ scopes b n h (fun _ => rfl) (forall_mem_nil _) hleave
    show runAll answer limit [] [.blk p k l _] = _
    rw [runAll_single rfl, run, hbody, run]
    exact turns_quit hcalm limit
  | scopes, .cond p c t e, n, _, h, hleave => by
    simp only [tidy, and_eq_true] at h
    have hlvs := stays_cond hleave
    have ht := runAll_undefer ⟨.other, []⟩ scopes t n h.1.2 (fun _ => rfl) (forall_mem_nil _) hlvs.1
    have he := runAll_undefer ⟨.other, []⟩ scopes e
      (undeferAll ⟨.other, []⟩ scopes t n).2 h.2 (fun _ => rfl)
      (forall_mem_nil _) hlvs.2
    rw [undefer, c.undefer_of_simple scopes h.1.1, pure_bind]
    show runAll answer limit [] [.cond p c _ _] = _
    rw [runAll_single rfl, run, ht, he, quitFrom_other, run, Act.ask_andThen]
    rfl
  | _, .jump .., n, _, _, hleave | _, .ret .., n, _, _, hleave => by
    rcases hleave with hleave | hleave
    · exact absurd hleave false_ne_true
    · exact runAll_copies_leave hleave rfl rfl rfl n
  | scopes, .trap p, n, _, _, _ => by
    show runAll answer limit [] [.trap p] = _
    rw [runAll_single rfl]
    exact (quit_of_owner rfl scopes).symm
  | scopes, .define _ e, _, _, h, _ | scopes, .shed _ e, _, _, h, _ => by
    rw [undefer, e.undefer_of_simple scopes h, pure_bind]
    exact (runAll_single rfl).trans (did_quit scopes _).symm
  | scopes, .assign p l r, n, _, h, _ => by
    simp only [tidy, and_eq_true] at h
    rw [undefer, l.undefer_of_simple scopes h.1, pure_bind, r.undefer_of_simple scopes h.2,
      pure_bind]
    exact (runAll_single rfl).trans (did_quit scopes _).symm

/-- Running the rest of a scope without its deferred statements: what has been put off in the scope
runs when it is left, and so does what waits in the scopes further out that are left with it. -/
lemma Stmt.runAll_undefer : ∀ (here : Pending) (outer : List Pending) (ss : List Stmt) (n : Nat),
    tidyAll ss → (ss = [] → here.bodies = []) →
    (∀ b ∈ here.bodies, everyAll straight b) → (everyAll stays ss ∨ Straight outer) →
    runAll answer limit [] (undeferAll here outer ss n).1 =
      (runAll answer limit (acts answer limit here.bodies) ss).andThen
        (quitFrom answer limit here outer)
  | here, outer, [], n, _, hempty, _, _ => by
    rw [hempty rfl]
    exact (quitFrom_of_owner rfl here outer).symm
  | here, outer, s :: rest, n, h, _, hhere, hleave => by
    simp only [tidyAll, and_eq_true, not_eq_true', and_eq_false_iff] at h
    have hlvs := stays_cons (fun houter => forall_mem_cons.2 ⟨hhere, houter⟩) hleave
    cases hdefer : s.isDefer with
    | true =>
      match s with
      | .defer p b =>
        simp only [tidy, and_eq_true] at h
        have hne : rest ≠ [] := by
          rintro rfl
          simp [isDefer] at h
        have hcalm := runAll_calm answer limit [] b (forall_mem_nil _) h.1.1.1
        have hb := (runAll_undefer ⟨.other, []⟩ (⟨here.owner, b :: here.bodies⟩ :: outer) b n
          h.1.1.2 (fun _ => rfl) (forall_mem_nil _) (.inl h.1.1.1)).trans
          (quitFrom_calm hcalm _ _)
        have hstraight := undeferAll_every (fun _ => id) ⟨.other, []⟩
          (⟨here.owner, b :: here.bodies⟩ :: outer) b n h.1.1.2 (forall_mem_nil _) (.inl h.1.1.1)
        have hrest := runAll_undefer ⟨here.owner, _ :: here.bodies⟩ outer rest
          (undeferAll ⟨.other, []⟩ (⟨here.owner, b :: here.bodies⟩ :: outer) b n).2 h.2
          (fun h => absurd h hne) (forall_mem_cons.2 ⟨hstraight, hhere⟩) hlvs.2
        -- What is put off does the same before and after.
        rw [show acts answer limit (_ :: here.bodies) = _ :: acts answer limit here.bodies from rfl,
          hb] at hrest
        exact hrest
    | false =>
      have hs := run_undefer (here :: outer) s n hdefer h.1.1 hlvs.1
      have hprompt := undefer_every prompt_of_straight (here :: outer) s n h.1.1
        (hlvs.1.imp_right (⟨·, fun _ => id⟩))
      have hcalm : (s.run answer limit).Calm ∨ Straight (here :: outer) :=
        hlvs.1.imp_left (s.run_calm answer limit)
      rw [undeferAll_cons hdefer, runAll_append hprompt, hs, runAll_cons hdefer]
      by_cases hlast : rest = []
      · subst hlast
        cases hlv : s.leaves with
        | true =>
          obtain ⟨x, hx, howner⟩ := s.run_of_leaves hlv
          have hscopes : Straight (here :: outer) := by
            rcases hlvs.1 with hstay | hscopes
            · rw [leaves_of_stays hstay] at hlv
              cases hlv
            · exact hscopes
          rw [hx, Act.stop_andThen, Act.stop_andThen]
          exact quit_next hscopes howner _ _
        | false =>
          refine andThen_quit hcalm ?_
          rw [isEmpty_nil, Bool.not_false, Bool.and_self, if_pos rfl, runAll_copies hhere]
          exact (quitFrom_calm (leave_calm (acts_calm hhere) rfl) here outer).symm
      · refine andThen_quit hcalm ?_
        have hnot : (rest.isEmpty && !s.leaves) = false := by
          rw [isEmpty_eq_false_iff.2 hlast, Bool.false_and]
        rw [hnot, if_neg Bool.false_ne_true]
        exact runAll_undefer here outer rest _ h.2 (fun h => absurd h hlast) hhere hlvs.2

end

/-! ## Functions -/

/-- The bodies that a function puts off run when their scopes are left, the latest first, and no
others do: without defer statements, it is left in the same way after the same things have been seen,
whatever the conditions are. -/
theorem FnDef.undefer_keeps_runs (f : FnDef) (h : Stmt.tidyAll f.body = true) (n : Nat) :
  Stmt.everyAll Stmt.prompt (f.undefer n).1.body = true ∧
    (f.undefer n).1.run answer limit = f.run answer limit := by
  have houter : Straight [] := List.forall_mem_nil _
  have hbodies : ∀ b ∈ (Pending.mk (.frame .fn) []).bodies, Stmt.everyAll Stmt.straight b = true :=
    List.forall_mem_nil _
  have hrun := Stmt.runAll_undefer answer limit ⟨.frame .fn, []⟩ [] f.body n h (fun _ => rfl) hbodies
    (.inr houter)
  have hquit : quitFrom answer limit ⟨.frame .fn, []⟩ [] = Act.stop := by
    funext x
    rw [quitFrom, further]
    split
    · rfl
    · split <;> rfl
  rw [hquit, Act.andThen_stop] at hrun
  exact ⟨Stmt.undeferAll_every Stmt.prompt_of_straight _ _ _ n h hbodies (.inr ⟨houter, fun _ => id⟩),
    congrFun hrun []⟩

def storing (n : String) : Stmt :=
  .assign "" (.id ⟨"", .base .u32, none⟩ "g" (.global "main" "g" true)) (.num ⟨"", .base .u32, none⟩ n)

/-- A block that is left by a jump and by falling off its end, in a function that returns. -/
def leaving : FnDef where
  place := ""
  name := "main"
  params := []
  result := .auto
  body :=
    [.defer "" [storing "1"], .blk "" 0 "_" [.defer "" [storing "2"], .defer "" [storing "3"],
        .cond "" (.truth ⟨"", .base .bool, none⟩ true) [.jump "" false "_" 0 "_"] [], storing "4"],
      .ret "" (.void ⟨"", .base .void, none⟩) .fn]

theorem leaving_keeps_runs : Stmt.tidyAll leaving.body = true ∧
  Stmt.everyAll Stmt.prompt (leaving.undefer 1).1.body = true ∧
  (leaving.undefer 1).1.run (fun _ => true) 1 = leaving.run (fun _ => true) 1 ∧
  (leaving.run (fun _ => true) 1).1.tail = [.did (storing "3"), .did (storing "2"),
    .did (storing "1")] := by
  have hkeeps := FnDef.undefer_keeps_runs (fun _ => true) 1 leaving rfl 1
  exact ⟨rfl, hkeeps.1, hkeeps.2, rfl⟩

def trailing : FnDef where
  place := ""
  name := "main"
  params := []
  result := .auto
  body := [.blk "" 0 "_" [storing "2", .defer "" [storing "1"]],
    .ret "" (.void ⟨"", .base .void, none⟩) .fn]

def breaking : FnDef where
  place := ""
  name := "main"
  params := []
  result := .auto
  body := [.defer "" [.blk "" 0 "_" [.jump "" false "_" 0 "_"]],
    .ret "" (.void ⟨"", .base .void, none⟩) .fn]

/-- What is put off by the last statement of a scope is lost, and a copy of a jump still goes to the
block that was copied. -/
theorem undefer_loses_runs :
  (((trailing.undefer 1).1.run (fun _ => true) 1).1 = [.did (storing "2")] ∧
    (trailing.run (fun _ => true) 1).1 = [.did (storing "2"), .did (storing "1")]) ∧
  (((breaking.undefer 1).1.run (fun _ => true) 1).2 = .jumped false 0 ∧
    (breaking.run (fun _ => true) 1).2 = .returned (.void ⟨"", .base .void, none⟩) .fn) :=
  ⟨⟨rfl, rfl⟩, rfl, rfl⟩

end
end Retarget.FrontEnd
