import Mathlib.Algebra.BigOperators.Ring.Finset
import Mathlib.Algebra.Order.BigOperators.Group.Finset
import Retarget.IR.Optimize

/-!
# The loop of the analysis comes to an end

A merge reports news also where it changes nothing, but the definitions at the end of a block only
rise, at most twice for each register, and unless they rise nothing is passed on. When the stack is
empty, the definitions at the end of a block follow from those at its start, and those at the start
cover what comes in along each edge.
-/

namespace Retarget.IR
open List DefMap
variable {d : Def} {m own : DefMap} {is : List InsId} {r : RegId} {uses : RegSet}

/-! ## Maps of definitions -/

namespace DefMap

lemma find_eq_none (h : m.size ≤ r) : m.find r = none := by
  simp [find, h]

lemma lt_size_of_find {r : Nat} (h : m.find r = some d) : r < m.size := by
  by_cases hr : r < m.size
  · exact hr
  · rw [find_eq_none (not_lt.1 hr)] at h
    cases h

lemma find_insert (m : DefMap) (r q : Nat) (d : Def) :
  (m.insert r d).find q = if q = r then some d else m.find q := by
  unfold insert find
  by_cases hr : r < m.size
  · rw [if_pos hr]
    by_cases hq : q = r
    · subst hq
      simp [hr]
    · have hne : r ≠ q := Ne.symm hq
      simp [hq, hne]
  · rw [if_neg hr]
    simp only [Array.getD_eq_getD_getElem?, Array.getElem?_push, Array.size_append,
      Array.size_replicate, Array.getElem?_append, Array.getElem?_replicate]
    have hend : m.size + (r - m.size) = r := by omega
    rw [hend]
    by_cases hq : q = r
    · simp [hq]
    · rw [if_neg hq, if_neg hq]
      by_cases hlt : q < m.size
      · rw [if_pos hlt]
      · rw [if_neg hlt]
        split <;> simp [hlt]

lemma ext_find {n : DefMap} (hsize : m.size = n.size) (h : ∀ r, m.find r = n.find r) : m = n := by
  apply Array.ext hsize
  intro r hm hn
  have hr := h r
  simpa [find, hm, hn] using hr

@[simp] lemma find_replicate_none (n r : Nat) : find (Array.replicate n none) r = none := by
  unfold find
  rw [Array.getD_eq_getD_getElem?, Array.getElem?_replicate]
  split <;> rfl

end DefMap

/-! ## Definitions along a sequence of instructions -/

lemma find_foldl_insert (rs : List RegId) (d : Def) (m : DefMap) (q : RegId) :
  (rs.foldl (fun m r => m.insert r d) m).find q = if q ∈ rs then some d else m.find q := by
  induction rs generalizing m with
  | nil => simp
  | cons r rs ih =>
    rw [foldl_cons, ih, find_insert]
    by_cases hq : q ∈ rs
    · simp [hq]
    · by_cases hr : q = r
      · simp [hr]
      · simp [hr]

@[simp] lemma find_defsAfter (m : DefMap) (i : InsId) (x : Ins) (q : RegId) :
  (defsAfter m i x).find q = if q ∈ x.written then some (.ins i) else m.find q :=
  find_foldl_insert _ _ _ _

def defsThru (f : Fn) (is : List InsId) (m : DefMap) : DefMap :=
  is.foldl (fun m i => defsAfter m i (f.ins i)) m

section
variable {f : Fn}

@[simp] lemma defsThru_nil (m : DefMap) : defsThru f [] m = m := rfl

@[simp] lemma defsThru_cons (i : InsId) (is : List InsId) (m : DefMap) :
  defsThru f (i :: is) m = defsThru f is (defsAfter m i (f.ins i)) := rfl

lemma defsThru_append (is js : List InsId) (m : DefMap) :
  defsThru f (is ++ js) m = defsThru f js (defsThru f is m) := foldl_append

lemma defsThru_concat (is : List InsId) (i : InsId) (m : DefMap) :
  defsThru f (is ++ [i]) m = defsAfter (defsThru f is m) i (f.ins i) := by
  rw [defsThru_append, defsThru_cons, defsThru_nil]

lemma defsThru_congr {g : Fn} (h : ∀ i ∈ is, (g.ins i).written = (f.ins i).written)
  (m : DefMap) : defsThru g is m = defsThru f is m := by
  induction is generalizing m with
  | nil => rfl
  | cons i is ih =>
    have hi : defsAfter m i (g.ins i) = defsAfter m i (f.ins i) := by
      unfold defsAfter
      rw [h i (.head _)]
    rw [defsThru_cons, defsThru_cons, hi, ih fun j hj => h j (.tail _ hj)]

/-- What the sequence writes comes first, what was there before second. -/
lemma find_defsThru (is : List InsId) (n : Nat) (m : DefMap) (r : RegId) :
  (defsThru f is m).find r = ((defsThru f is (Array.replicate n none)).find r).or (m.find r) := by
  -- The two runs keep the relation that their starting maps have.
  suffices ∀ e m' : DefMap, m'.find r = (e.find r).or (m.find r) →
      (defsThru f is m').find r = ((defsThru f is e).find r).or (m.find r) from
    this _ m (by simp)
  induction is with
  | nil => intro e m' h; exact h
  | cons i is ih =>
    intro e m' h
    refine ih _ _ ?_
    rw [find_defsAfter, find_defsAfter]
    split
    · rfl
    · exact h

lemma find_defsThru_of_unwritten (h : ∀ i ∈ is, r ∉ (f.ins i).written) (m : DefMap) :
  (defsThru f is m).find r = m.find r := by
  induction is generalizing m with
  | nil => rfl
  | cons i is ih =>
    rw [defsThru_cons, ih (fun j hj => h j (.tail _ hj)), find_defsAfter, if_neg (h i (.head _))]

lemma ownDefs_fst (is : List InsId) (own : DefMap) (uses : RegSet) :
  (ownDefs f is own uses).1 = defsThru f is own := by
  induction is generalizing own uses with
  | nil => rfl
  | cons i is ih => rw [ownDefs]; exact ih _ _

/-- Reading registers adds those that have no definition yet. -/
lemma mem_foldl_uses (own : DefMap) (rs : List RegId) (uses : RegSet) (r : RegId) :
  r ∈ rs.foldl (fun (s : RegSet) r => if (own.find r).isSome then s else s.insert r) uses ↔
    r ∈ uses ∨ r ∈ rs ∧ own.find r = none := by
  induction rs generalizing uses with
  | nil => simp
  | cons q rs ih =>
    rw [foldl_cons, ih]
    by_cases hq : (own.find q).isSome
    · rw [if_pos hq, mem_cons]
      refine or_congr_right ⟨fun h => ⟨.inr h.1, h.2⟩, ?_⟩
      rintro ⟨rfl | h, hnone⟩
      · rw [hnone] at hq
        cases hq
      · exact ⟨h, hnone⟩
    · rw [if_neg hq, RegSet.mem_insert, mem_cons]
      have hnone : own.find q = none := by simpa using hq
      constructor
      · rintro ((h | rfl) | h)
        · exact .inl h
        · exact .inr ⟨.inl rfl, hnone⟩
        · exact .inr ⟨.inr h.1, h.2⟩
      · rintro (h | ⟨rfl | h, hr⟩)
        · exact .inl (.inl h)
        · exact .inl (.inr rfl)
        · exact .inr ⟨h, hr⟩

lemma mem_ownDefs_of_mem (h : r ∈ uses) : r ∈ (ownDefs f is own uses).2 := by
  induction is generalizing own uses with
  | nil => exact h
  | cons i is ih => exact ih ((mem_foldl_uses _ _ _ _).2 (.inl h))

lemma mem_ownDefs_of_read {pre post : List InsId} {i : InsId} (hread : r ∈ (f.ins i).read)
  (hnone : (defsThru f pre own).find r = none) :
  r ∈ (ownDefs f (pre ++ i :: post) own uses).2 := by
  induction pre generalizing own uses with
  | nil =>
    rw [nil_append, ownDefs]
    exact mem_ownDefs_of_mem ((mem_foldl_uses _ _ _ _).2 (.inr ⟨hread, hnone⟩))
  | cons j pre ih => exact ih hnone

end

/-! ## Rising entries -/

/-- At the start of `b`, the second entry says the same as the first or has risen above it. -/
def Rises (b : BlkId) (x y : Option Def) : Prop := x = y ∨ x = none ∨ y = some (.blk b)

def level (b : BlkId) (x : Option Def) : Nat :=
  if x = none then 0 else if x = some (.blk b) then 2 else 1

namespace Rises
variable {b : BlkId} {x y z : Option Def}

lemma refl (b : BlkId) (x : Option Def) : Rises b x x := .inl rfl

lemma trans (h : Rises b x y) (h' : Rises b y z) : Rises b x z := by
  rcases h with rfl | rfl | rfl
  · exact h'
  · exact .inr (.inl rfl)
  · rcases h' with rfl | h' | rfl
    · exact .inr (.inr rfl)
    · cases h'
    · exact .inr (.inr rfl)

lemma level_lt (h : Rises b x y) (hne : x ≠ y) : level b x < level b y := by
  rcases h with rfl | rfl | rfl
  · exact absurd rfl hne
  · unfold level
    rw [if_pos rfl, if_neg (Ne.symm hne)]
    split <;> omega
  · unfold level
    simp only [reduceCtorEq, if_false, if_true]
    split <;> omega

lemma level_le (h : Rises b x y) : level b x ≤ level b y := by
  by_cases hxy : x = y
  · exact le_of_eq (congrArg _ hxy)
  · exact (h.level_lt hxy).le

lemma of_some (h : Rises b (some d) y) : y = some d ∨ y = some (.blk b) := by
  rcases h with h | h | h
  · exact .inl h.symm
  · cases h
  · exact .inr h

end Rises

lemma level_le_two (b : BlkId) (x : Option Def) : level b x ≤ 2 := by
  unfold level
  split
  · omega
  · split <;> omega

/-! ## Merging -/

@[simp] lemma size_overlay (lower upper : DefMap) : (overlay lower upper).size = lower.size := by
  simp [overlay]

lemma find_overlay {lower upper : DefMap} {r : Nat} (h : r < lower.size) :
  (overlay lower upper).find r = (upper.find r).or (lower.find r) := by
  simp [overlay, find, h]

def mergeEntry (b : BlkId) (incoming entry : Option Def) : Option Def :=
  match incoming, entry with
  | none, d => d
  | some e, none => some e
  | some e, some d => if e = d then some d else some (.blk b)

lemma rises_mergeEntry (b : BlkId) (x y : Option Def) : Rises b y (mergeEntry b x y) := by
  cases x with
  | none => exact .refl b y
  | some e =>
    cases y with
    | none => exact .inr (.inl rfl)
    | some d =>
      by_cases h : e = d
      · simp [mergeEntry, h, Rises]
      · simp [mergeEntry, h, Rises]

lemma mergeEntry_some (b : BlkId) (e : Def) (y : Option Def) :
  mergeEntry b (some e) y = some e ∨ mergeEntry b (some e) y = some (.blk b) := by
  cases y with
  | none => exact .inl rfl
  | some d =>
    by_cases h : e = d
    · simp [mergeEntry, h]
    · simp [mergeEntry, h]

section
variable {b : BlkId} {entry incoming : DefMap}

@[simp] lemma size_mergeDefs : (mergeDefs b entry incoming).1.size = entry.size := by
  simp [mergeDefs]

lemma find_mergeDefs {r : Nat} (h : r < entry.size) :
  (mergeDefs b entry incoming).1.find r = mergeEntry b (incoming.find r) (entry.find r) := by
  have hentry : entry.find r = entry[r] := by simp [find, h]
  simp only [mergeDefs, find, Array.getD_eq_getD_getElem?, Array.getElem?_mapIdx,
    Array.getElem?_eq_getElem h]
  rfl

lemma rises_mergeDefs (r : RegId) :
  Rises b (entry.find r) ((mergeDefs b entry incoming).1.find r) := by
  by_cases h : r < entry.size
  · rw [find_mergeDefs h]
    exact rises_mergeEntry b _ _
  · rw [find_eq_none (not_lt.1 h)]
    exact .inr (.inl rfl)

/-- Where the merge reports nothing, the entry says all that comes in, and stays as it is. -/
lemma mergeDefs_of_same (h : (mergeDefs b entry incoming).2 = false) :
  (mergeDefs b entry incoming).1 = entry := by
  apply ext_find size_mergeDefs
  intro r
  by_cases hr : r < entry.size
  · rw [find_mergeDefs hr]
    cases hin : incoming.find r with
    | none => rfl
    | some e =>
      have hlt := lt_size_of_find hin
      have hall := h
      simp only [mergeDefs, any_eq_false, mem_range] at hall
      have hsame : entry.find r = some e := by simpa [hin] using hall r hlt
      simp [mergeEntry, hsame]
  · have hsize : (mergeDefs b entry incoming).1.size ≤ r := by
      rw [size_mergeDefs]
      exact not_lt.1 hr
    rw [find_eq_none hsize, find_eq_none (not_lt.1 hr)]

end

/-! ## Rounds of the loop -/

variable {rs : Array Reach} {out : DefMap}

/-- The loop without a bound on the number of rounds. -/
inductive Settles (f : Fn) : List BlkId → Array Reach → Array Reach → Prop where
  | done (rs : Array Reach) : Settles f [] rs rs
  | same {b : BlkId} {stack : List BlkId} {rs rs' : Array Reach}
      (h : overlay (rs.getD b default).entry (rs.getD b default).own = (rs.getD b default).exit)
      (rest : Settles f stack rs rs') : Settles f (b :: stack) rs rs'
  | news {b : BlkId} {stack stack' : List BlkId} {exit : DefMap} {rs rs' rs'' : Array Reach}
      (hexit : overlay (rs.getD b default).entry (rs.getD b default).own = exit)
      (h : exit ≠ (rs.getD b default).exit)
      (hpass : passOn exit (f.blk b).succs
        (rs.setIfInBounds b { rs.getD b default with exit }) stack = (rs', stack'))
      (rest : Settles f stack' rs' rs'') : Settles f (b :: stack) rs rs''

section
variable {α : Type} {xs : Array α} {b c : Nat} {x d : α}

lemma getD_set_self (h : b < xs.size) : (xs.setIfInBounds b x).getD b d = x := by simp [h]

lemma getD_set_ne (h : c ≠ b) : (xs.setIfInBounds b x).getD c d = xs.getD c d := by
  have hne : b ≠ c := Ne.symm h
  simp [hne]

/-- A part of the entries that the new one shares with the old one stays the same everywhere. -/
lemma getD_set_field {γ : Type} (φ : α → γ) (h : φ x = φ (xs.getD b d)) (c : Nat) :
  φ ((xs.setIfInBounds b x).getD c d) = φ (xs.getD c d) := by
  by_cases hc : c = b
  · subst hc
    by_cases hlt : c < xs.size
    · rw [getD_set_self hlt, h]
    · rw [Array.setIfInBounds_eq_of_size_le (not_lt.1 hlt)]
  · rw [getD_set_ne hc]

end

/-! ## Passing definitions on -/

/-- What happens when the definitions `out` are passed on to the blocks `ss`. -/
structure PassedOn (out : DefMap) (ss : List BlkId) (rs : Array Reach) (stack : List BlkId)
    (rs' : Array Reach) (stack' : List BlkId) : Prop where
  size : rs'.size = rs.size
  own : ∀ b, (rs'.getD b default).own = (rs.getD b default).own
  exit : ∀ b, (rs'.getD b default).exit = (rs.getD b default).exit
  width : ∀ b, (rs'.getD b default).entry.size = (rs.getD b default).entry.size
  rises : ∀ b r, Rises b ((rs.getD b default).entry.find r) ((rs'.getD b default).entry.find r)
  takes : ∀ s ∈ ss, ∀ (r : Nat) d, r < (rs.getD s default).entry.size → out.find r = some d →
    (rs'.getD s default).entry.find r = some d ∨ (rs'.getD s default).entry.find r = some (.blk s)
  news : ∀ b, b ∉ stack' → (rs'.getD b default).entry = (rs.getD b default).entry
  keeps : ∀ b ∈ stack, b ∈ stack'
  adds : ∀ b ∈ stack', b ∈ ss ∨ b ∈ stack
  length : stack'.length ≤ ss.length + stack.length

namespace PassedOn
variable {ss ss' : List BlkId} {rs' rs'' : Array Reach} {stack stack' stack'' : List BlkId}

lemma refl (out : DefMap) (rs : Array Reach) (stack : List BlkId) :
  PassedOn out [] rs stack rs stack where
  size := rfl
  own _ := rfl
  exit _ := rfl
  width _ := rfl
  rises b _ := .refl b _
  takes := by simp
  news _ _ := rfl
  keeps _ h := h
  adds _ h := .inr h
  length := by simp

lemma trans (h : PassedOn out ss rs stack rs' stack')
  (h' : PassedOn out ss' rs' stack' rs'' stack'') :
  PassedOn out (ss ++ ss') rs stack rs'' stack'' where
  size := h'.size.trans h.size
  own b := (h'.own b).trans (h.own b)
  exit b := (h'.exit b).trans (h.exit b)
  width b := (h'.width b).trans (h.width b)
  rises b r := (h.rises b r).trans (h'.rises b r)
  takes s hs r d hr hd := by
    rcases mem_append.1 hs with hs | hs
    · -- What has been taken can only rise further.
      rcases h.takes s hs r d hr hd with htook | htook
      · exact (htook ▸ h'.rises s r).of_some
      · exact .inr (or_self_iff.1 (htook ▸ h'.rises s r).of_some)
    · exact h'.takes s hs r d (by rw [h.width]; exact hr) hd
  news b hb := (h'.news b hb).trans (h.news b fun hin => hb (h'.keeps b hin))
  keeps b hb := h'.keeps b (h.keeps b hb)
  adds b hb := by
    rcases h'.adds b hb with hb | hb
    · exact .inl (mem_append_right _ hb)
    · exact (h.adds b hb).imp_left fun hb => mem_append_left _ hb
  length := by
    have h1 := h.length
    have h2 := h'.length
    rw [length_append]
    omega

end PassedOn

lemma passedOn_one {s : Nat} {x : Reach} (stack : List BlkId) (hs : s < rs.size)
  (hx : rs.getD s default = x) : PassedOn out [s] rs stack
    (rs.setIfInBounds s { x with entry := (mergeDefs s x.entry out).1 })
      (if (mergeDefs s x.entry out).2 then s :: stack else stack) := by
  subst hx
  refine ⟨by simp, getD_set_field Reach.own rfl,
    getD_set_field Reach.exit rfl, ?_, ?_, ?_, ?_, ?_, ?_, ?_⟩
  · intro b
    exact getD_set_field (fun x : Reach => x.entry.size) size_mergeDefs b
  · intro b r
    by_cases hb : b = s
    · subst hb
      rw [getD_set_self hs]
      exact rises_mergeDefs r
    · rw [getD_set_ne hb]
      exact .refl b _
  · intro b hb r d hr hd
    obtain rfl := mem_singleton.1 hb
    rw [getD_set_self hs]
    show (mergeDefs b (rs.getD b default).entry out).1.find r = some d ∨ _
    rw [find_mergeDefs hr, hd]
    exact mergeEntry_some b d _
  · intro b hb
    by_cases hbs : b = s
    · subst hbs
      -- Without a report the merge has changed nothing.
      have hsame : (mergeDefs b (rs.getD b default).entry out).2 = false := by
        by_contra hne
        rw [if_pos (by simpa using hne)] at hb
        exact hb (.head _)
      rw [getD_set_self hs]
      exact mergeDefs_of_same hsame
    · rw [getD_set_ne hbs]
  all_goals generalize (mergeDefs s (rs.getD s default).entry out).2 = differs
  · intro b hb
    split
    · exact .tail _ hb
    · exact hb
  · intro b hb
    split at hb
    · rcases mem_cons.1 hb with rfl | hb
      · exact .inl (.head _)
      · exact .inr hb
    · exact .inr hb
  · split
    · rw [length_cons, length_singleton]
      omega
    · omega

lemma passedOn_passOn {ss : List BlkId} {stack : List BlkId} (h : ∀ s : Nat, s ∈ ss → s < rs.size) :
  PassedOn out ss rs stack (passOn out ss rs stack).1 (passOn out ss rs stack).2 := by
  induction ss generalizing rs stack with
  | nil => exact .refl out rs stack
  | cons s ss ih =>
    have hone : PassedOn out [s] rs stack _ _ := passedOn_one stack (h s (.head _)) rfl
    exact hone.trans (ih fun t ht => by
      rw [hone.size]
      exact h t (.tail _ ht))

/-! ## The invariant of the loop -/

variable (f : Fn)

def Fn.ownAt (b : BlkId) : DefMap :=
  defsThru f (f.blk b).code (Array.replicate f.regs.size none)

/-- What holds while the blocks on the stack still have to be looked at, if the analysis begins with
the definitions `start` in `first`. -/
structure Working (f : Fn) (first : BlkId) (start : DefMap) (stack : List BlkId)
    (rs : Array Reach) : Prop where
  size : rs.size = f.blks.size
  own : ∀ b ∈ f.order, (rs.getD b default).own = f.ownAt b
  entryWidth : ∀ b ∈ f.order, (rs.getD b default).entry.size = f.regs.size
  exitWidth : ∀ b ∈ f.order, (rs.getD b default).exit.size = f.regs.size
  start : ∀ r, Rises first (start.find r) ((rs.getD first default).entry.find r)
  rises : ∀ b ∈ f.order, ∀ r, Rises b ((rs.getD b default).exit.find r)
    ((overlay (rs.getD b default).entry (f.ownAt b)).find r)
  done : ∀ b ∈ f.order, b ∉ stack →
    (rs.getD b default).exit = overlay (rs.getD b default).entry (f.ownAt b)
  passed : ∀ a ∈ f.order, ∀ b ∈ (f.blk a).succs, ∀ r d, (rs.getD a default).exit.find r = some d →
    (rs.getD b default).entry.find r = some d ∨ (rs.getD b default).entry.find r = some (.blk b)
  stack : ∀ b ∈ stack, b ∈ f.order

lemma rises_overlay {b : BlkId} {lower lower' upper : DefMap} (hsize : lower'.size = lower.size)
  (h : ∀ r, Rises b (lower.find r) (lower'.find r)) (r : RegId) :
  Rises b ((overlay lower upper).find r) ((overlay lower' upper).find r) := by
  by_cases hr : r < lower.size
  · rw [find_overlay hr, find_overlay (hsize ▸ hr)]
    cases upper.find r with
    | none => exact h r
    | some d => exact .refl b _
  · have hsize' : (overlay lower upper).size ≤ r := by
      rw [size_overlay]
      exact not_lt.1 hr
    rw [find_eq_none hsize']
    exact .inr (.inl rfl)

namespace Working
variable {f : Fn} {first b : BlkId} {start : DefMap} {stack stack' : List BlkId} {rs' : Array Reach}

/-- A round in which the definitions at the end of the block stay the same. -/
lemma same (h : Working f first start (b :: stack) rs)
  (hsame : overlay (rs.getD b default).entry (rs.getD b default).own = (rs.getD b default).exit) :
  Working f first start stack rs where
  size := h.size
  own := h.own
  entryWidth := h.entryWidth
  exitWidth := h.exitWidth
  start := h.start
  rises := h.rises
  done c hc hnot := by
    by_cases hcb : c = b
    · subst hcb
      rw [← h.own c hc]
      exact hsame.symm
    · exact h.done c hc fun hin => (mem_cons.1 hin).elim hcb hnot
  passed := h.passed
  stack c hc := h.stack c (.tail _ hc)

lemma news (hlt : ∀ c : Nat, c ∈ f.order → c < f.blks.size)
  (hinside : ∀ c ∈ f.order, ∀ s ∈ (f.blk c).succs, s ∈ f.order)
  (h : Working f first start (b :: stack) rs)
  (hout : overlay (rs.getD b default).entry (rs.getD b default).own = out)
  (hpass : PassedOn out (f.blk b).succs
    (rs.setIfInBounds b { rs.getD b default with exit := out }) stack rs' stack') :
    Working f first start stack' rs' := by
  have hb : b ∈ f.order := h.stack b (.head _)
  have hbs : b < rs.size := h.size ▸ hlt b hb
  have hown : ∀ c, (rs'.getD c default).own = (rs.getD c default).own := fun c => by
    rw [hpass.own]
    exact getD_set_field Reach.own (by rfl) c
  have hentry : ∀ c, ((rs.setIfInBounds b { rs.getD b default with exit := out }).getD c
      default).entry = (rs.getD c default).entry := getD_set_field Reach.entry (by rfl)
  have hwidth : ∀ c, (rs'.getD c default).entry.size = (rs.getD c default).entry.size := fun c => by
    rw [hpass.width, hentry]
  have hrises : ∀ c r, Rises c ((rs.getD c default).entry.find r)
      ((rs'.getD c default).entry.find r) := fun c r => hentry c ▸ hpass.rises c r
  have hexit : ∀ c, c ≠ b → (rs'.getD c default).exit = (rs.getD c default).exit := fun c hc => by
    rw [hpass.exit, getD_set_ne hc]
  have hexitb : (rs'.getD b default).exit = out := by rw [hpass.exit, getD_set_self hbs]
  have houtb : out = overlay (rs.getD b default).entry (f.ownAt b) := by rw [← hout, h.own b hb]
  refine ⟨?_, ?_, ?_, ?_, ?_, ?_, ?_, ?_, ?_⟩
  · rw [hpass.size, Array.size_setIfInBounds, h.size]
  · intro c hc
    rw [hown, h.own c hc]
  · intro c hc
    rw [hwidth, h.entryWidth c hc]
  · intro c hc
    by_cases hcb : c = b
    · rw [hcb, hexitb, houtb, size_overlay, h.entryWidth b hb]
    · rw [hexit c hcb, h.exitWidth c hc]
  · intro r
    exact (h.start r).trans (hrises first r)
  · intro c hc r
    have hover : Rises c ((overlay (rs.getD c default).entry (f.ownAt c)).find r)
        ((overlay (rs'.getD c default).entry (f.ownAt c)).find r) :=
      rises_overlay (hwidth c) (hrises c) r
    by_cases hcb : c = b
    · subst hcb
      rw [hexitb, houtb]
      exact hover
    · rw [hexit c hcb]
      exact (h.rises c hc r).trans hover
  · intro c hc hnot
    have hsame : (rs'.getD c default).entry = (rs.getD c default).entry := by
      rw [hpass.news c hnot, hentry]
    by_cases hcb : c = b
    · rw [hcb] at hsame ⊢
      rw [hexitb, houtb, hsame]
    · rw [hexit c hcb, hsame]
      refine h.done c hc fun hin => ?_
      exact (mem_cons.1 hin).elim hcb fun hin => hnot (hpass.keeps c hin)
  · intro a ha c hc r d hd
    by_cases hab : a = b
    · subst hab
      have hr : r < (rs.getD c default).entry.size := by
        rw [h.entryWidth c (hinside a ha c hc), ← h.entryWidth a ha, ← size_overlay, ← houtb,
          ← hexitb]
        exact lt_size_of_find hd
      exact hpass.takes c hc r d (by rw [hentry]; exact hr) (hexitb ▸ hd)
    · rw [hexit a hab] at hd
      rcases h.passed a ha c hc r d hd with hold | hold
      · exact (hold ▸ hrises c r).of_some
      · exact .inr (or_self_iff.1 (hold ▸ hrises c r).of_some)
  · intro c hc
    rcases hpass.adds c hc with hc | hc
    · exact hinside b hb c hc
    · exact h.stack c (.tail _ hc)

end Working

/-! ## The number of rounds -/

def room (b : BlkId) (m : DefMap) : Nat :=
  ∑ r ∈ Finset.range f.regs.size, (2 - level b (m.find r))

def roomLeft (rs : Array Reach) : Nat :=
  ∑ b ∈ Finset.range f.blks.size, room f b (rs.getD b default).exit * (f.blk b).succs.length

section
variable {f : Fn} {first b : BlkId} {start m m' : DefMap} {stack : List BlkId} {rs' : Array Reach}

lemma room_le (f : Fn) (b : BlkId) (m : DefMap) : room f b m ≤ 2 * f.regs.size := by
  calc room f b m ≤ ∑ _r ∈ Finset.range f.regs.size, 2 :=
        Finset.sum_le_sum fun r _ => Nat.sub_le 2 _
    _ = 2 * f.regs.size := by
        rw [Finset.sum_const_nat fun _ _ => rfl, Finset.card_range, Nat.mul_comm]

lemma room_lt (hm : m.size = f.regs.size) (hm' : m'.size = f.regs.size)
  (h : ∀ r, Rises b (m.find r) (m'.find r)) (hne : m ≠ m') : room f b m' < room f b m := by
  obtain ⟨r, hr⟩ : ∃ r, m.find r ≠ m'.find r := by
    by_contra hall
    exact hne (ext_find (hm.trans hm'.symm) fun r => not_not.1 (not_exists.1 hall r))
  have hlt : r < f.regs.size := by
    by_contra hge
    refine hr ?_
    rw [find_eq_none (hm ▸ not_lt.1 hge), find_eq_none (hm' ▸ not_lt.1 hge)]
  refine Finset.sum_lt_sum (fun q _ => Nat.sub_le_sub_left (h q).level_le 2)
    ⟨r, Finset.mem_range.2 hlt, ?_⟩
  have hlevel := (h r).level_lt hr
  have htop := level_le_two b (m'.find r)
  omega

/-- A rise at the end of `b` makes up for the successors that are put on the stack. -/
lemma roomLeft_add_le (hb : b < f.blks.size)
  (hexit : ∀ c, c ≠ b → (rs'.getD c default).exit = (rs.getD c default).exit)
  (hroom : room f b (rs'.getD b default).exit < room f b (rs.getD b default).exit) :
  roomLeft f rs' + (f.blk b).succs.length ≤ roomLeft f rs := by
  have hmem : b ∈ Finset.range f.blks.size := Finset.mem_range.2 hb
  have hhere := Nat.mul_le_mul_right (f.blk b).succs.length (Nat.succ_le_of_lt hroom)
  rw [Nat.succ_mul] at hhere
  unfold roomLeft
  rw [← Finset.add_sum_erase _ _ hmem, ← Finset.add_sum_erase _ _ hmem, Nat.add_right_comm]
  refine Nat.add_le_add hhere (le_of_eq (Finset.sum_congr rfl fun c hc => ?_))
  rw [hexit c (Finset.ne_of_mem_erase hc)]

lemma Working.settles (hlt : ∀ c : Nat, c ∈ f.order → c < f.blks.size)
  (hinside : ∀ c ∈ f.order, ∀ s ∈ (f.blk c).succs, s ∈ f.order) {fuel : Nat}
  (h : Working f first start stack rs) (hfuel : roomLeft f rs + stack.length ≤ fuel) :
  Settles f stack rs (reachLoop f fuel stack rs) ∧
    Working f first start [] (reachLoop f fuel stack rs) := by
  induction fuel generalizing stack rs with
  | zero =>
    obtain rfl : stack = [] := eq_nil_of_length_eq_zero (by omega)
    exact ⟨.done rs, h⟩
  | succ fuel ih =>
    cases stack with
    | nil => exact ⟨.done rs, h⟩
    | cons b stack =>
      have hb : b ∈ f.order := h.stack b (.head _)
      rw [length_cons] at hfuel
      rw [reachLoop]
      by_cases hsame : overlay (rs.getD b default).entry (rs.getD b default).own =
          (rs.getD b default).exit
      · rw [if_pos hsame]
        obtain ⟨hsettles, hdone⟩ := ih (h.same hsame) (by omega)
        exact ⟨.same hsame hsettles, hdone⟩
      · rw [if_neg hsame]
        generalize hout : overlay (rs.getD b default).entry (rs.getD b default).own = out at hsame ⊢
        have hbs : b < rs.size := h.size ▸ hlt b hb
        have hpass : PassedOn out (f.blk b).succs
            (rs.setIfInBounds b { rs.getD b default with exit := out }) stack _ _ :=
          passedOn_passOn fun s hs => by
            rw [Array.size_setIfInBounds, h.size]
            exact hlt s (hinside b hb s hs)
        have hwork := h.news hlt hinside hout hpass
        generalize hstep : passOn out (f.blk b).succs
          (rs.setIfInBounds b { rs.getD b default with exit := out }) stack = step at hpass hwork
        -- The exit of this block has risen, all others are as before.
        have hroom : roomLeft f step.1 + (f.blk b).succs.length ≤ roomLeft f rs := by
          refine roomLeft_add_le (hlt b hb) (fun c hc => ?_) ?_
          · rw [hpass.exit, getD_set_ne hc]
          · rw [hpass.exit, getD_set_self hbs]
            have hrises := h.rises b hb
            rw [← h.own b hb, hout] at hrises
            refine room_lt (h.exitWidth b hb) ?_ hrises (Ne.symm hsame)
            show out.size = f.regs.size
            rw [← hout, size_overlay, h.entryWidth b hb]
        have hlen := hpass.length
        obtain ⟨hsettles, hdone⟩ := ih hwork (by omega)
        exact ⟨.news hout hsame hstep hsettles, hdone⟩

end

/-! ## From the start of the analysis to its end -/

/-- For each block its last definitions and the registers it reads before writing them. -/
def ownTable : Array (DefMap × RegSet) :=
  f.blks.mapIdx fun b x =>
    if f.order.contains b then ownDefs f x.code (Array.replicate f.regs.size none) ∅
    else (Array.replicate f.regs.size none, ∅)

def Fn.exposed : RegSet := (ownTable f).foldl (fun (s : RegSet) (_, u) => s.union u) ∅

def startDefs (first : BlkId) : DefMap :=
  Array.ofFn fun r : Fin f.regs.size => if f.exposed.contains r then some (.blk first) else none

def reachStart (first : BlkId) : Array Reach :=
  (ownTable f).mapIdx fun b (d, _) =>
    ⟨d, if b = first then startDefs f first else Array.replicate f.regs.size none,
      Array.replicate f.regs.size none⟩

section
variable {f : Fn} {first b : BlkId}

lemma mem_foldl_union {us : List (DefMap × RegSet)} {s : RegSet} :
  r ∈ us.foldl (fun (s : RegSet) (_, u) => s.union u) s ↔ r ∈ s ∨ ∃ u ∈ us, r ∈ u.2 := by
  induction us generalizing s with
  | nil => simp
  | cons u us ih =>
    rw [foldl_cons, ih, RegSet.mem_union]
    simp only [mem_cons, exists_eq_or_imp, or_assoc]

lemma getElem_ownTable {b : Nat} (hb : b ∈ f.order) (hlt : b < (ownTable f).size) :
  (ownTable f)[b] = ownDefs f (f.blk b).code (Array.replicate f.regs.size none) ∅ := by
  have hin : b < f.blks.size := by simpa [ownTable] using hlt
  simp [ownTable, hb, Fn.blk, hin]

lemma size_ownTable (f : Fn) : (ownTable f).size = f.blks.size := by simp [ownTable]

lemma mem_exposed {b : Nat} (hb : b ∈ f.order) (hlt : b < f.blks.size) {pre post : List InsId}
  {i : InsId} (hcode : (f.blk b).code = pre ++ i :: post) (hread : r ∈ (f.ins i).read)
  (hfree : ∀ j ∈ pre, r ∉ (f.ins j).written) : r ∈ f.exposed := by
  have hlt' : b < (ownTable f).size := size_ownTable f ▸ hlt
  have hnone : (defsThru f pre (Array.replicate f.regs.size none)).find r = none := by
    rw [find_defsThru_of_unwritten hfree, find_replicate_none]
  unfold Fn.exposed
  rw [← Array.foldl_toList, mem_foldl_union]
  refine .inr ⟨(ownTable f)[b], by simp, ?_⟩
  rw [getElem_ownTable hb, hcode]
  exact mem_ownDefs_of_read hread hnone

lemma find_startDefs {r : Nat} (hr : r < f.regs.size) (h : r ∈ f.exposed) :
  (startDefs f first).find r = some (.blk first) := by
  have hmem : f.exposed.contains r := h
  simp [startDefs, find, hr, hmem]

lemma size_startDefs : (startDefs f first).size = f.regs.size := by simp [startDefs]

lemma getD_reachStart {b : Nat} (hb : b ∈ f.order) (hlt : b < f.blks.size) :
  (reachStart f first).getD b default = ⟨f.ownAt b,
    if b = first then startDefs f first else Array.replicate f.regs.size none,
    Array.replicate f.regs.size none⟩ := by
  have hlt' : b < (ownTable f).size := size_ownTable f ▸ hlt
  simp [reachStart, hlt', getElem_ownTable hb, ownDefs_fst, Fn.ownAt]

lemma working_reachStart (hlt : ∀ b : Nat, b ∈ f.order → b < f.blks.size)
  (hfst : first ∈ f.order) :
  Working f first (startDefs f first) f.order (reachStart f first) where
  size := by simp [reachStart, size_ownTable]
  own b hb := by rw [getD_reachStart hb (hlt b hb)]
  entryWidth b hb := by
    rw [getD_reachStart hb (hlt b hb)]
    split
    · exact size_startDefs
    · exact Array.size_replicate
  exitWidth b hb := by rw [getD_reachStart hb (hlt b hb), Array.size_replicate]
  start r := by
    rw [getD_reachStart hfst (hlt first hfst)]
    rw [if_pos rfl]
    exact .refl first _
  rises b hb r := by
    rw [getD_reachStart hb (hlt b hb)]
    exact .inr (.inl (find_replicate_none _ _))
  done b hb hnot := absurd hb hnot
  passed a ha b _ r d hd := by
    rw [getD_reachStart ha (hlt a ha)] at hd
    rw [find_replicate_none] at hd
    cases hd
  stack _ hb := hb

lemma foldl_succs_eq (bs : List Blk) : bs.foldl (fun n b => n + b.succs.length) 0 =
  ∑ b ∈ Finset.range bs.length, (bs.getD b default).succs.length := by
  induction bs using List.reverseRecOn with
  | nil => rfl
  | append_singleton bs b ih =>
    rw [foldl_append, length_append, length_singleton, Finset.sum_range_succ, ih]
    simp only [foldl_cons, foldl_nil]
    congr 1
    · refine Finset.sum_congr rfl fun c hc => ?_
      have hlt : c < bs.length := Finset.mem_range.1 hc
      simp [getElem?_append_left hlt]
    · simp

lemma Fn.length_order_le (hlt : ∀ b : Nat, b ∈ f.order → b < f.blks.size)
  (hnd : f.order.Nodup) : f.order.length ≤ f.blks.size := by
  have hsub : f.order ⊆ List.range f.blks.size := fun b hb => mem_range.2 (hlt b hb)
  simpa using (subperm_of_subset hnd hsub).length_le

/-- The bound on the number of rounds is large enough. -/
lemma roomLeft_le_reachBound (hlt : ∀ b : Nat, b ∈ f.order → b < f.blks.size)
  (hnd : f.order.Nodup) (rs : Array Reach) : roomLeft f rs + f.order.length ≤ reachBound f := by
  have hlen := f.length_order_le hlt hnd
  have hsum : f.blks.foldl (fun n b => n + b.succs.length) 0 =
      ∑ b ∈ Finset.range f.blks.size, (f.blk b).succs.length := by
    rw [← Array.foldl_toList, foldl_succs_eq]
    simp [Fn.blk]
  have hroom : roomLeft f rs ≤
      (2 * f.regs.size + 2) * ∑ b ∈ Finset.range f.blks.size, (f.blk b).succs.length := by
    rw [Finset.mul_sum]
    exact Finset.sum_le_sum fun b _ =>
      Nat.mul_le_mul_right _ (Nat.le_add_right_of_le (room_le f b _))
  rw [reachBound, hsum]
  omega

end

/-- Definitions at the start of the blocks that cover what holds at the end of their predecessors. -/
structure Solved (f : Fn) (first : BlkId) (entry : BlkId → DefMap) : Prop where
  width : ∀ b ∈ f.order, (entry b).size = f.regs.size
  start : ∀ r : Nat, r < f.regs.size → r ∈ f.exposed → (entry first).find r = some (.blk first)
  flow : ∀ a ∈ f.order, ∀ b ∈ (f.blk a).succs, ∀ (r : Nat) (d : Def), r < f.regs.size →
    (defsThru f (f.blk a).code (entry a)).find r = some d →
    (entry b).find r = some d ∨ (entry b).find r = some (.blk b)

def Fn.entryDefs (first b : BlkId) : DefMap := ((solveReaching f first).getD b default).entry

/-- The loop comes to an end, and what it leaves covers all edges. -/
lemma solveReaching_solved {f : Fn} {first : BlkId}
  (hlt : ∀ b : Nat, b ∈ f.order → b < f.blks.size) (hnd : f.order.Nodup)
  (hinside : ∀ b ∈ f.order, ∀ s ∈ (f.blk b).succs, s ∈ f.order) (hfst : first ∈ f.order) :
  Settles f f.order (reachStart f first) (solveReaching f first) ∧
    Solved f first (f.entryDefs first) := by
  obtain ⟨hsettles, hwork⟩ := (working_reachStart hlt hfst).settles hlt hinside
    (roomLeft_le_reachBound hlt hnd _)
  refine ⟨hsettles, hwork.entryWidth, ?_, ?_⟩
  · intro r hr hexposed
    have hsta := hwork.start r
    rw [find_startDefs hr hexposed] at hsta
    exact or_self_iff.1 hsta.of_some
  · intro a ha b hb r d hr hd
    refine hwork.passed a ha b hb r d ?_
    rw [hwork.done a ha not_mem_nil, find_overlay (hwork.entryWidth a ha ▸ hr), Fn.ownAt,
      ← find_defsThru]
    exact hd

end Retarget.IR
