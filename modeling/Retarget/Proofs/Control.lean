import Retarget.IR.Flow
import Mathlib.Logic.Relation

/-!
# Two readings of a function

In the linear reading blocks are run in sequence: a branch goes to its target, and a block without
one runs on into the next. In the graph reading control follows the edges, and unconditional
branches are superfluous. Both emit the instructions they execute, unconditional branches excepted;
how conditions and switches turn out is left to the environment.
-/

namespace Retarget.Trace
variable {ε ω σ τ υ : Type} {a : Option σ} {b : Option τ} {next : ω → Option σ}

/-- What a machine does next. Without a next state it stops. -/
inductive Move (ε ω σ : Type) where
  | silent (next : Option σ)
  | emit (e : ε) (next : ω → Option σ)

/-- What is emitted within `n` moves. `env` makes the choices, given all that has been emitted. -/
def trace (step : σ → Move ε ω σ) (env : List ε → ω) : Nat → List ε → Option σ → List ε
  | 0, _, _ => []
  | _ + 1, _, none => []
  | n + 1, seen, some s =>
    match step s with
    | .silent next => trace step env n seen next
    | .emit e next => e :: trace step env n (seen ++ [e]) (next (env (seen ++ [e])))

section
variable (step : σ → Move ε ω σ) (env : List ε → ω)

@[simp] lemma trace_zero (seen : List ε) (s : Option σ) : trace step env 0 seen s = [] := rfl

@[simp] lemma trace_none (n : Nat) (seen : List ε) : trace step env n seen none = [] := by
  cases n <;> rfl

end

lemma trace_silent {step : σ → Move ε ω σ} {s : σ} {next : Option σ}
  (h : step s = .silent next) (env : List ε → ω) (n : Nat) (seen : List ε) :
  trace step env (n + 1) seen (some s) = trace step env n seen next := by
  simp only [trace, h]

lemma trace_emit {step : σ → Move ε ω σ} {s : σ} {e : ε}
  (h : step s = .emit e next) (env : List ε → ω) (n : Nat) (seen : List ε) : trace step env
  (n + 1) seen (some s) = e :: trace step env n (seen ++ [e]) (next (env (seen ++ [e]))) := by
  simp only [trace, h]

/-- Every trace of the first machine is a trace of the second, whatever the environment does. -/
def Refines (S : σ → Move ε ω σ) (a : Option σ) (T : τ → Move ε ω τ) (b : Option τ) : Prop :=
  ∀ env seen n, ∃ m, trace S env n seen a = trace T env m seen b

/-- The two machines have the same traces, whatever the environment does. -/
def SameTraces (S : σ → Move ε ω σ) (a : Option σ) (T : τ → Move ε ω τ) (b : Option τ) : Prop :=
  Refines S a T b ∧ Refines T b S a

variable {S : σ → Move ε ω σ} {T : τ → Move ε ω τ} {U : υ → Move ε ω υ} {R : σ → τ → Prop}

lemma Refines.trans {c : Option υ} (h1 : Refines S a T b) (h2 : Refines T b U c) :
  Refines S a U c := by
  intro env seen n
  obtain ⟨m, hm⟩ := h1 env seen n
  obtain ⟨k, hk⟩ := h2 env seen m
  exact ⟨k, hm.trans hk⟩

lemma SameTraces.trans {c : Option υ} (h1 : SameTraces S a T b)
  (h2 : SameTraces T b U c) : SameTraces S a U c :=
  ⟨h1.1.trans h2.1, h2.2.trans h1.2⟩

lemma SameTraces.symm (h : SameTraces S a T b) : SameTraces T b S a := ⟨h.2, h.1⟩

lemma SameTraces.refl (S : σ → Move ε ω σ) (a : Option σ) : SameTraces S a S a :=
  ⟨fun _ _ n => ⟨n, rfl⟩, fun _ _ n => ⟨n, rfl⟩⟩

/-- The second state is reached from the first without emitting anything. -/
abbrev Quiet (S : σ → Move ε ω σ) : σ → σ → Prop :=
  Relation.ReflTransGen fun a b => S a = .silent (some b)

lemma Quiet.single {a b : σ} (h : S a = .silent (some b)) : Quiet S a b :=
  Relation.ReflTransGen.single h

lemma Quiet.trace_eq {a b : σ} (h : Quiet S a b) (env : List ε → ω) (n : Nat) (seen : List ε) :
  ∃ m, trace S env n seen (some b) = trace S env m seen (some a) := by
  induction h using Relation.ReflTransGen.head_induction_on with
  | refl => exact ⟨n, rfl⟩
  | head hstep _ ih =>
    obtain ⟨m, hm⟩ := ih
    exact ⟨m + 1, by rw [hm, trace_silent hstep]⟩

/-- Related states: the second machine can do whatever the first one does next. -/
structure Simulation (S : σ → Move ε ω σ) (T : τ → Move ε ω τ) (R : σ → τ → Prop) : Prop where
  silent : ∀ {a b a'}, R a b → S a = .silent (some a') → ∃ b', Quiet T b b' ∧ R a' b'
  emit : ∀ {a b e next}, R a b → S a = .emit e next →
    ∃ b' next', Quiet T b b' ∧ T b' = .emit e next' ∧
      ∀ o a', next o = some a' → ∃ b'', next' o = some b'' ∧ R a' b''

lemma Simulation.refines
  (h : Simulation S T R) {a : σ} {b : τ} (hab : R a b) : Refines S (some a) T (some b) := by
  intro env seen n
  induction n generalizing seen a b with
  | zero => exact ⟨0, rfl⟩
  | succ n ih =>
    cases hS : S a with
    | silent next =>
      rw [trace_silent hS]
      cases next with
      | none => exact ⟨0, by rw [trace_none, trace_zero]⟩
      | some a' =>
        obtain ⟨b', hquiet, hR⟩ := h.silent hab hS
        obtain ⟨m, hm⟩ := ih hR seen
        obtain ⟨k, hk⟩ := hquiet.trace_eq env m seen
        exact ⟨k, hm.trans hk⟩
    | emit e next =>
      rw [trace_emit hS]
      obtain ⟨b', next', hquiet, hT, hnext⟩ := h.emit hab hS
      -- After the emission both sides go on from related states, or the first one has stopped.
      obtain ⟨m, hm⟩ : ∃ m, trace S env n (seen ++ [e]) (next (env (seen ++ [e]))) =
          trace T env m (seen ++ [e]) (next' (env (seen ++ [e]))) := by
        cases ha : next (env (seen ++ [e])) with
        | none => exact ⟨0, by rw [trace_none, trace_zero]⟩
        | some a' =>
          obtain ⟨b'', hb, hR⟩ := hnext _ _ ha
          rw [hb]
          exact ih hR (seen ++ [e])
      obtain ⟨k, hk⟩ := hquiet.trace_eq env (m + 1) seen
      exact ⟨k, by rw [← hk, trace_emit hT, hm]⟩

/-! ## Moves that agree -/

/-- The two moves do the same and lead to related states. -/
inductive Move.Agree (R : σ → τ → Prop) : Move ε ω σ → Move ε ω τ → Prop where
  | silent {a : Option σ} {b : Option τ} (h : Option.Rel R a b) : Agree R (.silent a) (.silent b)
  | emit {e : ε} {next : ω → Option σ} {next' : ω → Option τ}
      (h : ∀ o, Option.Rel R (next o) (next' o)) : Agree R (.emit e next) (.emit e next')

lemma Move.Agree.flip {m : Move ε ω σ} {m' : Move ε ω τ}
  (h : m.Agree R m') : m'.Agree (fun b a => R a b) m := by
  have hrel : ∀ {a : Option σ} {b : Option τ}, Option.Rel R a b →
      Option.Rel (fun b a => R a b) b a := by
    intro a b h
    cases h with
    | some h => exact .some h
    | none => exact .none
  cases h with
  | silent h => exact .silent (hrel h)
  | emit h => exact .emit fun o => hrel (h o)

/-- The next move of the first machine is unseen and leads to a state related to one that the
second machine reaches unseen, or it agrees with what the second machine does after unseen moves. -/
def Answered (S : σ → Move ε ω σ) (T : τ → Move ε ω τ) (R : σ → τ → Prop) (a : σ) (b : τ) : Prop :=
  (∃ a' b', S a = .silent (some a') ∧ Quiet T b b' ∧ R a' b') ∨
    ∃ b', Quiet T b b' ∧ (S a).Agree R (T b')

lemma Answered.of_agree {a : σ} {b : τ} (h : (S a).Agree R (T b)) : Answered S T R a b :=
  .inr ⟨b, .refl, h⟩

lemma Answered.of_silent {a a' : σ}
  {b : τ} (hS : S a = .silent (some a')) (h : R a' b) : Answered S T R a b :=
  .inl ⟨a', b, hS, .refl, h⟩

lemma Answered.of_quiet {a : σ}
  {b b' : τ} (hq : Quiet T b b') (h : Answered S T R a b') : Answered S T R a b := by
  rcases h with ⟨a', c, hS, hc, hR⟩ | ⟨c, hc, hagree⟩
  · exact .inl ⟨a', c, hS, hq.trans hc, hR⟩
  · exact .inr ⟨c, hq.trans hc, hagree⟩

lemma Simulation.of_answered (h : ∀ a b, R a b → Answered S T R a b) : Simulation S T R where
  silent := by
    intro a b a' hab hS
    rcases h a b hab with ⟨a'', b', hS', hquiet, hR⟩ | ⟨b', hquiet, hagree⟩
    · rw [hS] at hS'
      cases hS'
      exact ⟨b', hquiet, hR⟩
    · rw [hS] at hagree
      cases hT : T b' with
      | emit e next => rw [hT] at hagree; cases hagree
      | silent next =>
        rw [hT] at hagree
        cases hagree with
        | silent hrel =>
          cases hrel with
          | some hR => exact ⟨_, hquiet.tail hT, hR⟩
  emit := by
    intro a b e next hab hS
    rcases h a b hab with ⟨a'', b', hS', -, -⟩ | ⟨b', hquiet, hagree⟩
    · rw [hS] at hS'
      cases hS'
    · rw [hS] at hagree
      cases hT : T b' with
      | silent next' => rw [hT] at hagree; cases hagree
      | emit e' next' =>
        rw [hT] at hagree
        cases hagree with
        | emit hrel =>
          refine ⟨b', next', hquiet, hT, fun o a' ha => ?_⟩
          have ho := hrel o
          rw [ha] at ho
          cases hb : next' o with
          | none => rw [hb] at ho; cases ho
          | some b'' =>
            rw [hb] at ho
            cases ho with
            | some hR => exact ⟨b'', rfl, hR⟩

/-! ## The first emission -/

/-- The first thing that the machine emits is `e`. -/
def Starts (S : σ → Move ε ω σ) (a : σ) (e : ε) : Prop := ∃ b next, Quiet S a b ∧ S b = .emit e next

lemma starts_of_trace {env : List ε → ω} {n : Nat} {seen es : List ε}
  {a : σ} {e : ε} (h : trace S env n seen (some a) = e :: es) : Starts S a e := by
  induction n generalizing a with
  | zero => cases h
  | succ n ih =>
    cases hS : S a with
    | silent next =>
      rw [trace_silent hS] at h
      cases next with
      | none => simp at h
      | some b =>
        obtain ⟨c, next, hquiet, hc⟩ := ih h
        exact ⟨c, next, .head hS hquiet, hc⟩
    | emit e' next =>
      rw [trace_emit hS] at h
      obtain rfl := (List.cons.inj h).1
      exact ⟨a, next, .refl, hS⟩

lemma Refines.starts [Inhabited ω] {a : σ} {b : τ}
  {e : ε} (h : Refines S (some a) T (some b)) (ha : Starts S a e) : Starts T b e := by
  obtain ⟨c, next, hquiet, hc⟩ := ha
  obtain ⟨m, hm⟩ := hquiet.trace_eq (fun _ => default) 1 []
  obtain ⟨n, hn⟩ := h (fun _ => default) [] m
  rw [trace_emit hc] at hm
  exact starts_of_trace (hn.symm.trans hm.symm)

lemma SameTraces.starts_iff [Inhabited ω] {a : σ}
  {b : τ} (h : SameTraces S (some a) T (some b)) (e : ε) : Starts S a e ↔ Starts T b e :=
  ⟨h.1.starts, h.2.starts⟩

lemma starts_iff_of_emit {a : σ} {e e' : ε} (h : S a = .emit e next) : Starts S a e' ↔ e' = e := by
  constructor
  · rintro ⟨b, next', hquiet, hb⟩
    rcases hquiet.cases_head with rfl | ⟨c, hc, -⟩
    · rw [h] at hb
      cases hb
      rfl
    · rw [h] at hc
      cases hc
  · rintro rfl
    exact ⟨a, next, .refl, h⟩

/-- A machine that goes round in a circle of one state emits nothing. -/
lemma not_starts_of_loop {a : σ} (h : S a = .silent (some a)) (e : ε) : ¬ Starts S a e := by
  rintro ⟨b, next, hquiet, hb⟩
  have hstay : b = a := by
    clear hb
    induction hquiet with
    | refl => rfl
    | tail _ hstep ih =>
      rw [ih, h] at hstep
      cases hstep
      rfl
  rw [hstay, h] at hb
  cases hb

/-- Machines that emit nothing cannot be told apart. -/
lemma SameTraces.of_not_starts {a : σ} {b : τ}
  (ha : ∀ e, ¬ Starts S a e) (hb : ∀ e, ¬ Starts T b e) : SameTraces S (some a) T (some b) := by
  have hnil : ∀ {υ : Type} {U : υ → Move ε ω υ} {c : υ}, (∀ e, ¬ Starts U c e) →
      ∀ env n seen, trace U env n seen (some c) = [] := by
    intro υ U c hc env n seen
    cases htrace : trace U env n seen (some c) with
    | nil => rfl
    | cons e es => exact absurd (starts_of_trace htrace) (hc e)
  exact ⟨fun env seen n => ⟨0, hnil ha env n seen⟩, fun env seen n => ⟨0, hnil hb env n seen⟩⟩

end Retarget.Trace

/-! ## Control -/

namespace Retarget.IR
open List
open Trace (Move)
variable {b c t : BlkId} {op : Op} {x : Ins} {f : Fn}

inductive Ctrl where
  | next
  | stop
  | jump (tgt : BlkId)
  | branch (op : Op) (a b : Opnd) (tgt : BlkId)
  | select (idx : Opnd) (table : TableId)
  deriving DecidableEq

def Ins.ctrl (x : Ins) : Ctrl :=
  match x.op.fam, x.args with
  | .ret, _ => .stop
  | .bra, [.blk t] => .jump t
  | .condBra, [a, b, .blk t] => .branch x.op a b t
  | .switch, [a, .table t] => .select a t
  | _, _ => .next

/-- How conditions turn out, and the numbers that switches choose by. -/
structure Outcome where
  holds : Op → Opnd → Opnd → Bool
  idx : Opnd → Int
  deriving Inhabited

def JumpTable.tgt (t : JumpTable) (n : Int) : BlkId := (t.cases.lookup n).getD t.fallback
def JumpTable.tgts (t : JumpTable) : List BlkId := t.fallback :: t.cases.map Prod.snd

/-- An executed instruction. The places it may jump to are not part of what it does. -/
structure Event where
  site : InsId
  op : Op
  args : List Opnd

def Opnd.isBlk : Opnd → Bool
  | blk _ => true
  | _ => false

@[simp] lemma Opnd.isBlk_blk (b : BlkId) : (Opnd.blk b).isBlk = true := rfl

namespace Fn

def event (f : Fn) (i : InsId) : Event :=
  ⟨i, (f.ins i).op, (f.ins i).args.filter fun x => !x.isBlk⟩

/-! ## The linear reading -/

/-- A place in the linear reading: what is left of the current block, and the blocks after it. -/
structure Point where
  code : List InsId
  next : List BlkId

def following (f : Fn) (b : BlkId) : List BlkId := (f.order.dropWhile (· != b)).tail

lemma order_eq_append (hb : b ∈ f.order) : ∃ bs, f.order = bs ++ b :: f.following b := by
  unfold following
  generalize f.order = order at hb
  induction order with
  | nil => simp at hb
  | cons a order ih =>
    by_cases hab : a = b
    · subst hab
      exact ⟨[], by simp⟩
    · obtain ⟨bs, hbs⟩ := ih ((mem_cons.1 hb).resolve_left (Ne.symm hab))
      exact ⟨a :: bs, by simpa [hab] using hbs⟩

lemma following_of_append {bs cs : List BlkId} (hnd : f.order.Nodup)
  (h : f.order = bs ++ b :: cs) : f.following b = cs := by
  have hskip : ∀ a ∈ bs, (a != b) := by
    intro a ha
    rw [h] at hnd
    simpa using (nodup_append.1 hnd).2.2 a ha b (.head _)
  rw [following, h, dropWhile_append_of_pos hskip]
  simp

lemma following_of_following {cs : List BlkId} (hnd : f.order.Nodup)
  (hb : b ∈ f.order) (h : f.following b = c :: cs) : f.following c = cs := by
  obtain ⟨bs, hord⟩ := order_eq_append hb
  have hsplit : f.order = (bs ++ [b]) ++ c :: cs := by
    rw [hord, h, append_assoc, singleton_append]
  exact following_of_append hnd hsplit

lemma mem_of_mem_following (hc : c ∈ f.following b) : c ∈ f.order :=
  (dropWhile_sublist _).mem (mem_of_mem_tail hc)

def pointAt (f : Fn) (b : BlkId) : Option Point :=
  if b ∈ f.order then some ⟨(f.blk b).code, f.following b⟩ else none

def linearStep (f : Fn) : Point → Move Event Outcome Point
  | ⟨[], []⟩ => .silent none
  | ⟨[], b :: bs⟩ => .silent (some ⟨(f.blk b).code, bs⟩)
  | ⟨i :: is, bs⟩ =>
    match (f.ins i).ctrl with
    | .next => .emit (f.event i) fun _ => some ⟨is, bs⟩
    | .stop => .emit (f.event i) fun _ => none
    | .jump t => .silent (f.pointAt t)
    | .branch op x y t => .emit (f.event i) fun o =>
        if o.holds op x y then f.pointAt t else some ⟨is, bs⟩
    | .select x t => .emit (f.event i) fun o => f.pointAt ((f.table t).tgt (o.idx x))

def linearStart (f : Fn) : Point := ⟨[], f.order⟩

/-! ## The graph reading -/

/-- A place in the graph reading: a block, and what is left of it. -/
structure Spot where
  blk : BlkId
  code : List InsId

def enter (f : Fn) (b : BlkId) : Spot := ⟨b, (f.blk b).code⟩

def along (f : Fn) (b s : BlkId) : Option Spot :=
  if s ∈ (f.blk b).succs then some (f.enter s) else none

def otherSucc (f : Fn) (b tgt : BlkId) : BlkId :=
  match (f.blk b).succs with
  | [s₀, s₁] => if tgt = s₁ then s₀ else s₁
  | _ => tgt

def graphStep (f : Fn) : Spot → Move Event Outcome Spot
  | ⟨b, []⟩ => .silent ((f.blk b).succs.head?.map f.enter)
  | ⟨b, i :: is⟩ =>
    match (f.ins i).ctrl with
    | .next => .emit (f.event i) fun _ => some ⟨b, is⟩
    | .stop => .emit (f.event i) fun _ => none
    | .jump _ => .silent (some ⟨b, is⟩)
    | .branch op x y t => .emit (f.event i) fun o =>
        f.along b (if o.holds op x y then t else f.otherSucc b t)
    | .select x t => .emit (f.event i) fun o => f.along b ((f.table t).tgt (o.idx x))

end Fn

/-! ## Functions without edges -/

def Fn.tgts (f : Fn) (i : InsId) : List BlkId :=
  match (f.ins i).ctrl with
  | .jump t => [t]
  | .branch _ _ _ t => [t]
  | .select _ t => (f.table t).tgts
  | _ => []

def Shaped (f : Fn) (bs : List BlkId) : Prop :=
  ∀ b ∈ bs, ∀ i ∈ (f.blk b).code, (f.ins i).op.isTerm → (f.ins i).ctrl ≠ .next

instance (f : Fn) (bs : List BlkId) : Decidable (Shaped f bs) :=
  inferInstanceAs (Decidable (∀ b ∈ bs, ∀ i ∈ (f.blk b).code,
    (f.ins i).op.isTerm → (f.ins i).ctrl ≠ .next))

def HasTables (f : Fn) (bs : List BlkId) : Prop :=
  ∀ b ∈ bs, ∀ i ∈ (f.blk b).code, ∀ x t, (f.ins i).ctrl = .select x t → t < f.tables.size

/-- A function as it is read: it has no edges yet, every block and jump table that is mentioned is
there, no block is laid out twice, and no instruction stands in two places. -/
structure Fn.Unlinked (f : Fn) : Prop where
  lt : ∀ b : Nat, b ∈ f.order → b < f.blks.size
  nodup : f.order.Nodup
  loose : ∀ b, (f.blk b).succs = [] ∧ (f.blk b).preds = []
  once : (f.order.flatMap fun b => (f.blk b).code).Nodup
  shape : Shaped f f.order
  tgt : ∀ b ∈ f.order, ∀ i ∈ (f.blk b).code, ∀ t ∈ f.tgts i, t ∈ f.order
  tables : HasTables f f.order

/-! ## Control and terminators -/

lemma Op.isTerm_eq (op : Op) :
  op.isTerm = (op.fam == .condBra || op.fam == .switch || op.fam == .bra || op.fam == .ret) := by
  cases op <;> rfl

/-- All that can come after an instruction, and when. -/
lemma Ins.ctl_cases (x : Ins) :
  x.op.fam = .ret ∧ x.ctrl = .stop ∨ x.op.fam ≠ .ret ∧ (x.ctrl = .next ∨
    (∃ t, x.op.fam = .bra ∧ x.args = [.blk t] ∧ x.ctrl = .jump t) ∨
    (∃ a b t, x.op.fam = .condBra ∧ x.args = [a, b, .blk t] ∧ x.ctrl = .branch x.op a b t) ∨
    ∃ a t, x.op.fam = .switch ∧ x.args = [a, .table t] ∧ x.ctrl = .select a t) := by
  unfold Ins.ctrl
  split <;> simp_all

lemma Ins.ctl_eq_next (h : x.op.isTerm = false) : x.ctrl = .next := by
  rw [Op.isTerm_eq] at h
  simp only [Bool.or_eq_false_iff] at h
  obtain ⟨⟨⟨hcond, hswitch⟩, hbra⟩, hret⟩ := h
  have hcases := x.ctl_cases
  simp_all

lemma Op.isTerm_of_bra (h : op.fam = .bra) : op.isTerm := by
  rw [Op.isTerm_eq, h]
  rfl

lemma Ins.jump_of_bra (h : x.ctrl ≠ .next) (hbra : x.op.fam = .bra) :
  ∃ t, x.ctrl = .jump t := by
  have hcases := x.ctl_cases
  grind

lemma Ins.select_of_switch (h : x.ctrl ≠ .next) (hswitch : x.op.fam = .switch) :
  ∃ a t, x.ctrl = .select a t := by
  have hcases := x.ctl_cases
  grind

lemma Ins.ctl_eq_stop_iff : x.ctrl = .stop ↔ x.op.fam = .ret := by
  have hcases := x.ctl_cases
  grind

lemma Ins.fam_of_jump (h : x.ctrl = .jump t) : x.op.fam = .bra ∧ x.args = [.blk t] := by
  have hcases := x.ctl_cases
  simp_all

lemma Ins.fam_of_branch {a b : Opnd} (h : x.ctrl = .branch op a b t) :
  x.op.fam = .condBra ∧ x.op = op ∧ x.args = [a, b, .blk t] := by
  have hcases := x.ctl_cases
  grind

lemma Ins.fam_of_select {a : Opnd} {t : TableId} (h : x.ctrl = .select a t) :
  x.op.fam = .switch ∧ x.args = [a, .table t] := by
  have hcases := x.ctl_cases
  simp_all

lemma JumpTable.tgt_mem (t : JumpTable) (n : Int) : t.tgt n ∈ t.tgts := by
  unfold tgt tgts
  cases h : t.cases.lookup n with
  | none => simp
  | some b =>
    obtain ⟨l1, l2, hcases, -⟩ := lookup_eq_some_iff.1 h
    have hmem : (n, b) ∈ t.cases := by simp [hcases]
    simp only [mem_cons, mem_map, Prod.exists]
    exact .inr ⟨n, b, hmem, rfl⟩

/-- The jump targets of a block, read off the instruction that ends it. -/
lemma jumpTgts_eq (f : Fn) (code : List InsId) : jumpTgts f code =
      match code.getLast?.map fun i => (f.ins i).ctrl with
      | none | some .next => ([], true)
      | some .stop => ([], false)
      | some (.jump t) => ([t], false)
      | some (.branch _ _ _ t) => ([t], true)
      | some (.select _ t) => ((f.table t).tgts, false) := by
  unfold jumpTgts
  cases code.getLast? with
  | none => rfl
  | some i =>
    simp only [Ins.ctrl]
    split <;> simp_all [JumpTable.tgts]

lemma jumpTgts_congr {g : Fn} (hcode : g.code = f.code) (htbs : g.tables = f.tables)
  {is js : List InsId} (hlast : is.getLast? = js.getLast?) : jumpTgts g is = jumpTgts f js := by
  simp only [jumpTgts, hlast, Fn.ins, Fn.table, hcode, htbs]

lemma mem_tgts_of_jumpTgts {code : List InsId} (ht : t ∈ (jumpTgts f code).1) :
  ∃ i, code.getLast? = some i ∧ t ∈ f.tgts i := by
  rw [jumpTgts_eq] at ht
  cases hlast : code.getLast? with
  | none =>
    rw [hlast] at ht
    cases ht
  | some i =>
    rw [hlast, Option.map_some] at ht
    refine ⟨i, rfl, ?_⟩
    unfold Fn.tgts
    cases hcon : (f.ins i).ctrl <;> rw [hcon] at ht <;> simp_all

/-!
## Registers

The graph reading of a function, with registers. What an instruction does is a parameter: it may set
registers unseen, do something that is seen and leave an answer in registers, send control somewhere
or end the function. Answers come from the environment, which knows all that has been seen, so memory
and calls need not be modelled.
-/

variable {i : InsId} {rs : List RegId} {r : RegId}

abbrev Regs (V : Type) := RegId → V

def Regs.write {V : Type} (s : Regs V) (rs : List RegId) (v : V) : Regs V :=
  fun r => if r ∈ rs then v else s r

inductive Act (V ε : Type) where
  /-- The registers hold `v` from now on. -/
  | set (rs : List RegId) (v : V)
  /-- Something is seen, and the registers hold the answer from now on. -/
  | ask (e : ε) (rs : List RegId)
  | goto (e : Option ε) (tgt : BlkId)
  /-- A branch to a block is not taken. -/
  | skip (e : Option ε) (tgt : BlkId)
  | stop (e : ε)

/-- The action suits the instruction: it writes what the instruction writes, and only a terminator
does not go on with the next instruction. -/
def Act.Suits {V ε : Type} (x : Ins) : Act V ε → Prop
  | set rs _ | ask _ rs => rs = x.written
  | goto .. | skip .. | stop _ => x.op.isTerm

inductive Seen (ε : Type) where
  | did (e : ε)
  | enter (e : Option ε) (b : BlkId)

section
variable {V ε : Type}

@[simp] lemma Regs.write_nil (s : Regs V) (v : V) : s.write [] v = s := by
  funext r
  simp [write]

lemma Regs.write_of_mem {s : Regs V} {v : V} (h : r ∈ rs) : s.write rs v r = v := if_pos h
lemma Regs.write_of_notMem {s : Regs V} {v : V} (h : r ∉ rs) : s.write rs v r = s r := if_neg h

namespace Fn

abbrev State (V : Type) := Spot × Regs V

def leave (f : Fn) (b : BlkId) (s : Regs V) (e : Option ε) (c : BlkId) :
  Move (Seen ε) V (State V) :=
  .emit (.enter e c) fun _ => if c ∈ (f.blk b).succs then some (f.enter c, s) else none

def machine (f : Fn) (act : InsId → Regs V → Act V ε) : State V → Move (Seen ε) V (State V)
  | (⟨b, []⟩, s) =>
    match (f.blk b).succs.head? with
    | none => .silent none
    | some c => f.leave b s none c
  | (⟨b, i :: is⟩, s) =>
    match act i s with
    | .set rs v => .silent (some (⟨b, is⟩, s.write rs v))
    | .ask e rs => .emit (.did e) fun v => some (⟨b, is⟩, s.write rs v)
    | .goto e t => f.leave b s e t
    | .skip e t => f.leave b s e (f.otherSucc b t)
    | .stop e => .emit (.did e) fun _ => none

/-- Control leaves a block only at its end. -/
def LeavesEnd (f : Fn) : Prop :=
  ∀ b ∈ f.order, ∀ j ∈ (f.blk b).code.dropLast, (f.ins j).op.isTerm = false

instance (f : Fn) : Decidable f.LeavesEnd :=
  inferInstanceAs (Decidable (∀ b ∈ f.order, ∀ j ∈ (f.blk b).code.dropLast,
    (f.ins j).op.isTerm = false))

lemma LeavesEnd.eq_nil (h : f.LeavesEnd) (hb : b ∈ f.order) {pre post : List InsId}
  (hcode : (f.blk b).code = pre ++ i :: post) (hterm : (f.ins i).op.isTerm) : post = [] := by
  cases post with
  | nil => rfl
  | cons j post =>
    have hmem : i ∈ (f.blk b).code.dropLast := by
      rw [hcode]
      simp
    rw [h b hb i hmem] at hterm
    cases hterm

/-- A block with a conditional branch has two successors, one of which is the target. -/
def Forking (f : Fn) : Prop :=
  ∀ b ∈ f.order, ∀ i ∈ (f.blk b).code, (f.ins i).op.fam = .condBra →
    (f.blk b).succs.length = 2 ∧ ∃ t ∈ (f.blk b).succs, (f.ins i).args[2]? = some (.blk t)

instance (f : Fn) : Decidable f.Forking :=
  inferInstanceAs (Decidable (∀ b ∈ f.order, ∀ i ∈ (f.blk b).code,
    (f.ins i).op.fam = .condBra → (f.blk b).succs.length = 2 ∧
      ∃ t ∈ (f.blk b).succs, (f.ins i).args[2]? = some (.blk t)))

/-- The two successors of a block with a conditional branch, in one of two orders. -/
lemma Forking.succs (h : f.Forking) (hb : b ∈ f.order) (hi : i ∈ (f.blk b).code)
  (hfam : (f.ins i).op.fam = .condBra) : ∃ t n, (f.ins i).args[2]? = some (.blk t) ∧
    ((f.blk b).succs = [t, n] ∨ (f.blk b).succs = [n, t]) := by
  obtain ⟨hlen, t, ht, harg⟩ := h b hb i hi hfam
  match (f.blk b).succs, hlen, ht with
  | [s0, s1], _, ht =>
    rw [mem_cons, mem_singleton] at ht
    rcases ht with rfl | rfl
    · exact ⟨t, s1, harg, .inl rfl⟩
    · exact ⟨t, s0, harg, .inr rfl⟩

end Fn
end

/-! ## Values, addresses and actions

Registers hold literals. Arithmetic is a parameter, and so are the places of memory regions, stack
areas and functions. Addresses are computed modulo a power of two. What is seen of an instruction are
the addresses that it accesses and the values that it stores, pushes or hands to a call. -/

/-- An operand as an instruction sees it: registers and literals stand for their values. -/
inductive Arg where
  | val (v : Lit)
  | blk (b : BlkId)
  | mem (m : MemId)
  | area (a : AreaId)
  | fn (f : FnId)
  | table (t : TableId)
  | bytes (bs : Text.Bytes)
  deriving DecidableEq

def Fn.argOf (f : Fn) (s : Regs Lit) : Opnd → Arg
  | .reg r => .val (s r)
  | .lit c => .val (f.lit c)
  | .blk b => .blk b
  | .mem m => .mem m
  | .area a => .area a
  | .fn g => .fn g
  | .table t => .table t
  | .bytes bs => .bytes bs

def Fn.srcs (f : Fn) (x : Ins) (s : Regs Lit) : List Arg :=
  (x.args.drop x.op.defCount).map (f.argOf s)

def Fn.destKind (f : Fn) (x : Ins) : Kind :=
  match x.written with
  | r :: _ => (f.reg r).kind
  | [] => .invalid

inductive Deed where
  | load (addr : Int) (k : Kind)
  | store (addr : Int) (v : Lit)
  | swap (addr : Int) (old new : Lit)
  | copy (dst src : Int) (count : Lit)
  | clear (dst : Int) (count : Lit)
  | push (v : Lit)
  | pop (k : Kind)
  | call (f : FnId)
  | callAt (tgt : Lit) (f : FnId)
  | system (f : FnId) (no : Lit)
  | leave (op : Op)
  | other (op : Op) (args : List Arg)
  deriving DecidableEq

structure Sem where
  width : Nat
  alu : Op → Lit → Lit → Lit
  alu1 : Op → Lit → Lit
  convert : Op → Kind → Lit → Lit
  holds : Op → Lit → Lit → Bool
  memBase : MemId → Int
  areaBase : AreaId → Int
  fnAddr : FnId → Lit
  special : Op → Lit

def Op.condition : Op → Op
  | .cmpeq => .beq
  | _ => .blt

def Lit.number (c : Lit) : Int := c.int?.getD 0

namespace Sem
variable (m : Sem)

/-- The number that an operand contributes to an address. -/
def base : Arg → Int
  | .val v => v.number
  | .mem a => m.memBase a
  | .area a => m.areaBase a
  | _ => 0

def address (a o : Arg) : Int := lowBits (m.base a + m.base o) m.width

def pointer (k : Kind) (a o : Arg) : Lit :=
  .ofInt k (signedOf (m.base a + m.base o) m.width)

/-- What an instruction does that writes the registers `ds`, of kind `k`. -/
def perform (table : TableId → JumpTable) (op : Op) (ds : List RegId) (k : Kind)
  (vs : List Arg) : Act Lit Deed :=
  match op.fam, vs with
  | .alu, [.val a, .val b] => .set ds (m.alu op a b)
  | .alu1, [.val a] => .set ds (m.alu1 op a)
  | .conv, [.val a] => .set ds (m.convert op k a)
  | .mov, [.val a] => .set ds a
  | .cmp, [.val a, .val b, .val c, .val d] => .set ds (if m.holds op.condition c d then a else b)
  | .lea, [a, o] => .set ds (m.pointer k a o)
  | .lea1, [.fn g] => .set ds (m.fnAddr g)
  | .getSpecial, [] => .set ds (m.special op)
  | .nop, _ => .set ds default
  | .ld, [a, o] => .ask (.load (m.address a o) k) ds
  | .st, [a, o, .val v] => .ask (.store (m.address a o) v) ds
  | .cas, [.val c, .val v, a, o] => .ask (.swap (m.address a o) c v) ds
  | .bcopy, [.val d, .val a, .val n] =>
    .ask (.copy (lowBits d.number m.width) (lowBits a.number m.width) n) ds
  | .bzero, [.val d, .val n] => .ask (.clear (lowBits d.number m.width) n) ds
  | .pusharg, [.val v] => .ask (.push v) ds
  | .poparg, [] => .ask (.pop k) ds
  | .bsr, [.fn g] => .ask (.call g) ds
  | .jsr, [.val v, .fn g] => .ask (.callAt v g) ds
  | .syscall, [.fn g, .val v] => .ask (.system g v) ds
  | .condBra, [.val a, .val b, .blk t] => if m.holds op a b then .goto none t else .skip none t
  | .switch, [.val a, .table t] => .goto none ((table t).tgt a.number)
  | .bra, [.blk t] => .goto none t
  | .ret, _ => .stop (.leave op)
  | _, vs => .ask (.other op vs) ds

def does (f : Fn) (x : Ins) (s : Regs Lit) : Act Lit Deed :=
  m.perform f.table x.op x.written (f.destKind x) (f.srcs x s)

def act (f : Fn) (i : InsId) (s : Regs Lit) : Act Lit Deed := m.does f (f.ins i) s

def machine (m : Sem) (f : Fn) : Fn.State Lit → Trace.Move (Seen Deed) Lit (Fn.State Lit) :=
  f.machine (m.act f)

/-- Arithmetic on literals is what the evaluation of literals gives, wherever it gives something. -/
structure Evaluates (m : Sem) : Prop where
  alu : ∀ op a b v, evalAlu op a b = .ok v → m.alu op a b = v
  alu1 : ∀ op a v, evalAlu1 op a = .ok v → m.alu1 op a = v
  convert : ∀ k a v, a.kind.isAddrInt → k.isAddrInt → convertInt k a = .ok v →
    m.convert .conv k a = v
  holds : ∀ op a b v, evalBranch op a b = .ok v → m.holds op a b = v

end Sem

/-! ## Actions and instructions -/

lemma Sem.perform_suits (m : Sem) (table : TableId → JumpTable) (x : Ins) (k : Kind)
  (vs : List Arg) : (m.perform table x.op x.written k vs).Suits x := by
  have hterm : x.op.fam = .condBra ∨ x.op.fam = .switch ∨ x.op.fam = .bra ∨
      x.op.fam = .ret → x.op.isTerm := by
    rw [Op.isTerm_eq]
    rintro (h | h | h | h) <;> rw [h] <;> rfl
  unfold perform
  split
  case h_20 => split <;> exact hterm (.inl ‹_›)
  case h_21 => exact hterm (.inr (.inl ‹_›))
  case h_22 => exact hterm (.inr (.inr (.inl ‹_›)))
  case h_23 => exact hterm (.inr (.inr (.inr ‹_›)))
  all_goals rfl

lemma Sem.act_suits (m : Sem) (f : Fn) (i : InsId) (s : Regs Lit) :
  (m.act f i s).Suits (f.ins i) := m.perform_suits _ _ _ _

lemma Sem.does_congr (m : Sem) {g : Fn} {y : Ins} {s t : Regs Lit}
  (hregs : g.regs = f.regs) (htbs : g.tables = f.tables) (hop : y.op = x.op)
  (hwr : y.written = x.written) (hsources : g.srcs y t = f.srcs x s) :
  m.does g y t = m.does f x s := by
  have htbl : g.table = f.table := by
    funext t
    rw [Fn.table, Fn.table, htbs]
  have hkind : g.destKind y = f.destKind x := by simp only [Fn.destKind, Fn.reg, hwr, hregs]
  rw [does, does, htbl, hkind, hop, hwr, hsources]

def Act.Leads {V ε : Type} (a : Act V ε) (s s' : Regs V) : Prop :=
  match a with
  | .set rs v => s' = s.write rs v
  | .ask _ rs => ∃ v, s' = s.write rs v
  | _ => s' = s

lemma Act.Leads.same {V ε : Type} {a : Act V ε} {s s' : Regs V} (h : a.Leads s s')
  (hsuits : a.Suits x) (hr : r ∉ x.written) : s' r = s r := by
  cases a with
  | set rs v =>
    obtain rfl : rs = x.written := hsuits
    rw [show s' = _ from h, Regs.write_of_notMem hr]
  | ask e rs =>
    obtain rfl : rs = x.written := hsuits
    obtain ⟨v, rfl⟩ := h
    exact Regs.write_of_notMem hr
  | goto | skip | stop => rw [show s' = s from h]

/-- One step of a function, as far as registers are concerned. -/
def Sem.Steps (m : Sem) (f : Fn) (i : InsId) (s s' : Regs Lit) : Prop :=
  (m.act f i s).Leads s s'

lemma Sem.Steps.same {m : Sem} {s s' : Regs Lit}
  (h : m.Steps f i s s') (hr : r ∉ (f.ins i).written) : s' r = s r :=
  Act.Leads.same h (m.act_suits f i s) hr

/-! ## Address arithmetic -/

lemma Lit.number_of_isZero {c : Lit} (h : c.isZero) : c.number = 0 := by
  obtain ⟨k, n | v⟩ := c
  · simpa [isZero, Scalar.isZero, Scalar.same, number, int?] using h
  · rfl

lemma lowBits_add_lowBits (a b : Int) (w : Nat) :
  lowBits (lowBits a w + b) w = lowBits (a + b) w := by
  unfold lowBits
  rw [Int.emod_add_emod]

lemma lowBits_signedOf (n : Int) (w : Nat) : lowBits (signedOf n w) w = lowBits n w := by
  unfold signedOf
  dsimp only
  split
  · unfold lowBits
    rw [Int.sub_emod_right]
    exact Int.emod_emod_of_dvd n (Int.dvd_refl _)
  · exact Int.emod_emod_of_dvd n (Int.dvd_refl _)

lemma signedOf_congr {a b : Int} {w : Nat} (h : lowBits a w = lowBits b w) :
  signedOf a w = signedOf b w := by
  simp only [signedOf, h]

lemma lowBits_signedOf_add (a b : Int) (w : Nat) :
  lowBits (signedOf a w + b) w = lowBits (a + b) w := by
  rw [← lowBits_add_lowBits, lowBits_signedOf, lowBits_add_lowBits]

/-!
## Words

Integers as bit vectors of the width of their kind. `Sem.TwosCompl` is what the instruction set
promises for them. Division by zero is not settled, nor are quotient and remainder of the least
number by minus one.
-/

open Lit BitVec
variable {w : Nat}

def Lit.word (k : Kind) (v : BitVec w) : Lit :=
  .ofInt k (if k.flavor = .signed then v.toInt else v.toNat)

def Lit.toWord (c : Lit) (w : Nat) : BitVec w := BitVec.ofInt w c.number

lemma Lit.toWord_word (k : Kind) (v : BitVec w) : (word k v).toWord w = v := by
  unfold word toWord number
  split
  · exact ofInt_toInt
  · show BitVec.ofInt w (v.toNat : Int) = v
    rw [ofInt_natCast, ofNat_toNat, setWidth_eq]

@[simp] lemma Lit.kind_word (k : Kind) (v : BitVec w) : (word k v).kind = k := rfl

def NoQuotient (signed : Bool) (a b : BitVec w) : Prop :=
  b = 0 ∨ signed = true ∧ a = intMin w ∧ b = allOnes w

instance (signed : Bool) {w : Nat} (a b : BitVec w) : Decidable (NoQuotient signed a b) :=
  inferInstanceAs (Decidable (_ ∨ _))

def Op.onWords (op : Op) (signed : Bool) (a b : BitVec w) : Option (BitVec w) :=
  match op with
  | .add => some (a + b)
  | .sub => some (a - b)
  | .mul => some (a * b)
  | .and => some (a &&& b)
  | .or => some (a ||| b)
  | .xor => some (a ^^^ b)
  | .shl => some (a <<< (b.toNat % w))
  | .shr => some (if signed then a.sshiftRight (b.toNat % w) else a >>> (b.toNat % w))
  | .div => if NoQuotient signed a b then none else some (if signed then a.sdiv b else a.udiv b)
  | .rem => if NoQuotient signed a b then none else some (if signed then a.srem b else a.umod b)
  | _ => none

def Op.onCompared (op : Op) (signed : Bool) (a b : BitVec w) : Bool :=
  match op with
  | .beq => a == b
  | .bne => a != b
  | .blt => if signed then a.slt b else a.ult b
  | .ble => if signed then a.sle b else a.ule b
  | _ => false

def Op.onWord (op : Op) (a : BitVec w) : Option (BitVec w) :=
  match op with
  | .cntlz => some a.clz
  | .cnttz => some a.ctz
  | _ => none

/-- Integer instructions compute what the instruction set promises. -/
structure Sem.TwosCompl (m : Sem) : Prop where
  alu : ∀ (op : Op) {k : Kind} {w : Nat} {a b v : BitVec w}, k.isInt → k.bits = w →
    op.onWords (k.flavor == .signed) a b = some v → m.alu op (.word k a) (.word k b) = .word k v
  alu1 : ∀ (op : Op) {k : Kind} {w : Nat} {a v : BitVec w}, k.isInt → k.bits = w →
    op.onWord a = some v → m.alu1 op (.word k a) = .word k v
  convert : ∀ {k k' : Kind} {w : Nat} (a : BitVec w), k.isInt → k.bits = w →
    k'.isInt → k'.bits = w → m.convert .conv k' (.word k a) = .word k' a
  holds : ∀ (op : Op) {k : Kind} {w : Nat} (a b : BitVec w), k.isInt → k.bits = w →
    op.fam = .condBra →
    m.holds op (.word k a) (.word k b) = op.onCompared (k.flavor == .signed) a b

/-- The remainder of the least number by minus one is zero. -/
def Sem.ExactRems (m : Sem) : Prop :=
  ∀ k : Kind, k.flavor = .signed → m.alu .rem (.word k (intMin k.bits))
    (.word k (allOnes k.bits)) = .word k (0 : BitVec k.bits)

/-- A meaning that settles what is left open by zero. -/
def Sem.standard : Sem where
  width := 64
  alu op a b := .word a.kind <|
    (op.onWords (a.kind.flavor == .signed) (a.toWord a.kind.bits) (b.toWord a.kind.bits)).getD 0
  alu1 op a := .word a.kind ((op.onWord (a.toWord a.kind.bits)).getD 0)
  convert _ k a := .word k (a.toWord k.bits)
  holds op a b :=
    op.onCompared (a.kind.flavor == .signed) (a.toWord a.kind.bits) (b.toWord a.kind.bits)
  memBase _ := 0
  areaBase _ := 0
  fnAddr _ := default
  special _ := default

lemma Sem.standard_twosComplement : standard.TwosCompl where
  alu := by
    rintro op k _ a b v _ rfl h
    show word k ((op.onWords _ ((word k a).toWord k.bits) ((word k b).toWord k.bits)).getD 0) = _
    rw [toWord_word, toWord_word, kind_word, h, Option.getD_some]
  alu1 := by
    rintro op k _ a v _ rfl h
    show word k ((op.onWord ((word k a).toWord k.bits)).getD 0) = _
    rw [toWord_word, h, Option.getD_some]
  convert := by
    rintro k k' _ a _ _ _ rfl
    show word k' ((word k a).toWord k'.bits) = _
    rw [toWord_word]
  holds := by
    rintro op k _ a b _ rfl _
    show op.onCompared _ ((word k a).toWord k.bits) ((word k b).toWord k.bits) = _
    rw [toWord_word, toWord_word, kind_word]

lemma Sem.standard_exactRems : standard.ExactRems := by
  intro k hk
  show word k ((Op.onWords .rem _ ((word k _).toWord k.bits) ((word k _).toWord k.bits)).getD 0) = _
  rw [toWord_word, toWord_word, kind_word, hk]
  simp [Op.onWords, NoQuotient]

/-! ## Rotation -/

lemma shiftLeft_or_shiftRight (k : Kind) (a b : BitVec k.bits) : a <<< (b.toNat % k.bits) ||| a >>>
  ((BitVec.ofNat k.bits k.bits - b).toNat % k.bits) = a.rotateLeft b.toNat := by
  have hamount : (BitVec.ofNat k.bits k.bits - b).toNat % k.bits =
      (k.bits - b.toNat % k.bits) % k.bits := by
    have hlt := b.isLt
    rw [toNat_sub, toNat_ofNat]
    revert hlt
    cases k <;> simp only [Kind.bits] <;> intro hlt <;> omega
  have hpos : 0 < k.bits := by cases k <;> decide
  rw [hamount, BitVec.rotateLeft, rotateLeftAux]
  by_cases hzero : b.toNat % k.bits = 0
  · rw [hzero, Nat.sub_zero, ushiftRight_eq_zero (Nat.le_refl _)]
    simp
  · rw [Nat.mod_eq_of_lt (show k.bits - b.toNat % k.bits < k.bits by omega)]

end Retarget.IR
