import Retarget.CTree.Translate
import Retarget.Proofs.Linking

/-!
# Forwarding labels

A label that another one follows at once gives way to it. Following labels ends in one that is kept,
with the same to do from there on, if every label is met once on the way through the function.
-/

namespace Retarget.CTree.Tree
open List

variable {ls : List (String ⊕ Tree)} {fs : List (String × String)} {a b l m : String} {n : Nat}

lemma mem_of_lookup (h : fs.lookup l = some m) : (l, m) ∈ fs := by
  obtain ⟨_, _, rfl, -⟩ := lookup_eq_some_iff.1 h
  simp

end Retarget.CTree.Tree

namespace Retarget.CTree

/-! ## Where a `switch` goes -/

/-- Where code goes for a number, if the table has a place for it. -/
def Dispatch.tgt (d : Dispatch) (n : Int) : Option String :=
  if d.top < n then some d.other else if n < 0 then none else some ((d.table.lookup n).getD d.other)

lemma lookup_label (stem : String) (ns : List Int) (n : Int) :
  (ns.map fun n => (n, stem ++ decimal n)).lookup n =
    if n ∈ ns then some (stem ++ decimal n) else none := by
  induction ns with
  | nil => rfl
  | cons m ns ih =>
    rw [List.map_cons, List.lookup_cons]
    split <;> grind

lemma le_foldl_max {ns : List Int} {top n : Int} (h : n ≤ top ∨ n ∈ ns) : n ≤ ns.foldl max top := by
  induction ns generalizing top with
  | nil => simpa using h
  | cons m ns ih => exact ih (by grind)

/-- A number goes to its own place, or else to the one for all others, unless it is below zero: there
the table has no place. -/
theorem Dispatch.tgt_of (stem : String) (body : List Stmt) (n : Int) :
  (Dispatch.of stem body).tgt n = if n < 0 then none else
    some (stem ++ if some n ∈ places body then decimal n
      else if none ∈ places body then "default" else "end") := by
  have hmem : n ∈ (places body).filterMap id ↔ some n ∈ places body := by simp
  have htop := @le_foldl_max ((places body).filterMap id) 0 n
  simp only [tgt, of, lookup_label, hmem]
  grind

/-!
## Where the fields of a struct are

A field begins where the fields before it end, whatever its alignment, so fields do not overlap and
the last one ends inside the struct. A pointer to a struct moves by its size; elements of an array
are further apart, unless the alignment divides the size.
-/

open Ty Fields
variable {word n a o p : Nat} {f g : String}

lemma le_roundUp (ha : 0 < a) : n ≤ roundUp n a := by
  have hdiv := Nat.div_add_mod (n + a - 1) a
  have hmod := Nat.mod_lt (n + a - 1) ha
  rw [roundUp, Nat.mul_comm]
  omega

lemma roundUp_eq_iff (ha : 0 < a) : roundUp n a = n ↔ a ∣ n := by
  constructor
  · intro h
    exact ⟨(n + a - 1) / a, h.symm.trans (Nat.mul_comm ..)⟩
  · rintro ⟨k, rfl⟩
    have hdiv : (a * k + (a - 1)) / a = k := by
      rw [Nat.mul_add_div ha, Nat.div_eq_of_lt (by omega), Nat.add_zero]
    rw [roundUp, Nat.add_sub_assoc ha, hdiv, Nat.mul_comm]

lemma Fields.align_pos : ∀ fs : Fields, 0 < fs.align word
  | nil => by simp only [align, Nat.one_pos]
  | cons _ _ fs => by
    rw [align]
    exact fs.align_pos.trans_le (Nat.le_max_right ..)

section
variable (hword : 0 < word)
include hword

lemma Ty.align_pos : ∀ t : Ty, 0 < (t.layout word).2
  | int r _ => by cases r <;> simp [layout, Rank.bytes, hword]
  | float | double => by simp [layout]
  | ptr => by simpa only [layout] using hword
  | array t _ => by simpa only [layout] using t.align_pos
  | struct fs | union fs => by simpa only [layout] using fs.align_pos

/-- Where the fields behind the first one begin. -/
lemma Fields.add_le_next (t : Ty) (start : Nat) :
  start + (t.layout word).1 ≤ roundUp start (t.layout word).2 + (t.layout word).1 :=
  Nat.add_le_add_right (le_roundUp (t.align_pos hword)) _

lemma Fields.le_inTurn : ∀ (fs : Fields) (start : Nat), start ≤ fs.inTurn word start
  | nil, _ => by simp only [inTurn, Nat.le_refl]
  | cons _ t fs, start => by
    rw [inTurn]
    exact (Nat.le_of_add_right_le (add_le_next hword t start)).trans (fs.le_inTurn _)

lemma Fields.off_bounds : ∀ (fs : Fields) {start : Nat}, fs.off word f start = some o →
    start ≤ o ∧ o + ((fs.type f).layout word).1 ≤ fs.inTurn word start
  | cons name t fs, start, h => by
    have hnext := add_le_next hword t start
    rw [off] at h
    rw [inTurn, type]
    split at h
    · rw [if_pos ‹_›]
      cases h
      exact ⟨le_rfl, hnext.trans (fs.le_inTurn hword _)⟩
    · have hrest := fs.off_bounds h
      rw [if_neg ‹_›]
      omega

/-- The field that comes first ends before anything behind it begins. -/
lemma Fields.off_disjoint (hne : f ≠ g) : ∀ (fs : Fields) {start : Nat},
    fs.off word f start = some o → fs.off word g start = some p →
    o + ((fs.type f).layout word).1 ≤ p ∨ p + ((fs.type g).layout word).1 ≤ o
  | cons name t fs, start, hf, hg => by
    have hnext := add_le_next hword t start
    rw [off] at hf hg
    rw [type, type]
    split at hf <;> split at hg
    · exact absurd (‹name = f›.symm.trans ‹name = g›) hne
    · rw [if_pos ‹_›]
      cases hf
      exact .inl (hnext.trans (fs.off_bounds hword hg).1)
    · rw [if_pos ‹name = g›]
      cases hg
      exact .inr (hnext.trans (fs.off_bounds hword hf).1)
    · rw [if_neg ‹_›, if_neg ‹_›]
      exact fs.off_disjoint hne hf hg

end

def Fields.names : Fields → List String
  | nil => []
  | cons name _ fs => name :: fs.names

/-- The fields before the first one of a name. -/
def Fields.before (f : String) : Fields → Fields
  | nil => nil
  | cons name t fs => if name = f then nil else cons name t (fs.before f)

lemma Fields.off_eq : ∀ (fs : Fields) (start : Nat), f ∈ fs.names →
    fs.off word f start = some ((fs.before f).inTurn word start)
  | cons name t fs, start, h => by
    rw [off, before]
    split
    · simp only [inTurn]
    · rename_i hne
      rw [fs.off_eq _ ((List.mem_cons.1 h).resolve_left (Ne.symm hne)), inTurn]

def Ty.size (word : Nat) (t : Ty) : Nat := (t.layout word).1

/-- A field is aligned if and only if the fields before it end at a multiple of its alignment, and
steps of a pointer are steps in an array if and only if the size is such a multiple. -/
theorem Fields.layout_packed (hword : 0 < word) (fs : Fields) :
  (∀ f ∈ fs.names, ∃ o, fs.off word f 0 = some o ∧ o = (struct (fs.before f)).size word ∧
    o + (fs.type f).size word ≤ (struct fs).size word ∧
    ∀ g p, f ≠ g → fs.off word g 0 = some p →
      o + (fs.type f).size word ≤ p ∨ p + (fs.type g).size word ≤ o) ∧
  ∀ n, (array (struct fs) n).size word = (struct fs).size word * n ↔
    n = 0 ∨ ((struct fs).layout word).2 ∣ (struct fs).size word := by
  refine ⟨fun f hf => ?_, fun n => ?_⟩
  · have ho : fs.off word f 0 = _ := fs.off_eq 0 hf
    refine ⟨_, ho, by rw [size, layout], ?_, fun g p hne hg => fs.off_disjoint hword hne ho hg⟩
    rw [size, size, layout]
    exact (fs.off_bounds hword ho).2
  · rw [size, size, ← roundUp_eq_iff ((struct fs).align_pos hword), layout]
    rcases Nat.eq_zero_or_pos n with rfl | hn
    · simp
    · simp [Nat.ne_of_gt hn]

theorem Fields.layout_packed_pair :
  let fs := cons "x" (.int .int false) (cons "c" (.int .char false) nil)
  0 < 8 ∧ (array (struct fs) 2).size 8 ≠ (struct fs).size 8 * 2 := by
  refine ⟨by decide, fun h => ?_⟩
  exact absurd (((layout_packed (by decide) _).2 2).1 h) (by decide)

/-- After a character, a number of four bytes begins at one. -/
theorem Fields.off_not_aligned :
  let fs := cons "c" (.int .char false) (cons "x" (.int .int false) nil)
  fs.off 8 "x" 0 = some 1 ∧ ¬ ((fs.type "x").layout 8).2 ∣ 1 := by
  decide

/-! ## Subscripts -/

namespace Expr
variable (ρ : Expr → Int)

/-- Sums and products in whole numbers, given the values of other expressions. -/
def eval : Expr → Int
  | num n => n
  | binary op t a b =>
    if op = "+" then a.eval + b.eval else if op = "*" then a.eval * b.eval else ρ (binary op t a b)
  | e => ρ e

/-- How many innermost elements a chain of subscripts goes on. -/
def rowMajor : Expr → Int
  | idx a i => i.flatten.eval ρ * a.type.element.count + a.rowMajor
  | _ => 0

def sum (s : Int) (is : List Expr) : Int := is.foldr (fun i s => i.eval ρ + s) s

lemma eval_total (i : Expr) (is : List Expr) : (total i is).eval ρ = sum ρ 0 (i :: is) := by
  rw [total, sum]
  induction is generalizing i with
  | nil => exact (Int.add_zero _).symm
  | cons j is ih => simp [ih, eval, Int.add_assoc]

lemma sum_subscript (n : Nat) (i : Expr) (s : Int) :
  sum ρ s (subscript n i) = i.eval ρ * n + s := by
  unfold subscript
  split
  · simp [sum, eval]
  · split <;> simp_all [sum, eval]

lemma sum_chain : ∀ e : Expr, sum ρ 0 e.chain.2 = e.rowMajor ρ
  | idx a i => by
    rw [chain, sum, List.foldr_append, ← sum, ← sum, sum_subscript, sum_chain a, rowMajor, flatten]
  | var .. | num _ | binary .. | step .. | member .. | load .. => rfl

/-- A chain of subscripts becomes one step from its array, over all elements before the one that is
meant, or none if every subscript is zero. Code may wrap in the step; whole numbers do not. -/
theorem flatten_idx (a i : Expr) :
  let e := idx a i
  let x := a.chain.1
  e.flatten = load e.type x ∧ e.rowMajor ρ = 0 ∨
  ∃ n, e.flatten = load e.type (step x.type.innermost false x n) ∧ n.eval ρ = e.rowMajor ρ := by
  intro e x
  have hflat : e.flatten = e.close (x, e.chain.2) := rfl
  have hsum := sum_chain ρ e
  generalize e.chain.2 = is at hflat hsum
  cases is with
  | nil => exact .inl ⟨hflat, hsum.symm⟩
  | cons j js => exact .inr ⟨total j js, hflat, (eval_total ρ j js).trans hsum⟩

end Expr

/-! ## The bytes of initial values -/

/-- Numbers of more than one byte are written as little-endian bytes, no more than four each. So the
bytes fill the array if and only if its elements have no more. -/
theorem Ty.initials_bytes {r : Rank} (hr : r ≠ .char) (u : Bool) (ns : List Int) :
  let t := array (.int r u) ns.length
  let bytes := ns.flatMap (leBytes (min (r.bytes word) 4))
  t.initials word (ns.map .inl) = .ok (bytes.map fun b => decimal b.toNat) ∧
    (bytes.length = t.size word ↔ ns = [] ∨ r.bytes word ≤ 4) := by
  intro t bytes
  constructor
  · have hinitial : ∀ n ∈ ns.map .inl, t.innermost.initial word n = .ok (n.elim
        (fun n => (leBytes (min (r.bytes word) 4) n).map fun b => decimal b.toNat)
        fun _ => []) := by
      cases r <;> simp_all [t, initial, innermost]
    rw [initials, IR.Pass.mapM_ok hinitial]
    simp [ensure, t, count, List.flatMap, bytes]
    rfl
  · have hlen : bytes.length = ns.length * min (r.bytes word) 4 := by
      simp [bytes, Asm.length_leBytes, List.map_const']
    have hsize : t.size word = r.bytes word * ns.length := by
      rw [size, layout, layout]
      rcases Nat.eq_zero_or_pos (r.bytes word) with h | h
      · rw [h]
        rfl
      · rw [(roundUp_eq_iff h).2 (Nat.dvd_refl _)]
    rw [hlen, hsize, Nat.mul_comm]
    cases ns <;> simp

theorem Ty.initials_bytes_long : Rank.long ≠ .char ∧ (array (.int .long false) 2).initials 8
  [.inl 1, .inl (-1)] = .ok (["1", "0", "0", "0"] ++ List.replicate 4 "255") :=
  ⟨nofun, (initials_bytes (r := .long) nofun false [1, -1]).1⟩

end Retarget.CTree
