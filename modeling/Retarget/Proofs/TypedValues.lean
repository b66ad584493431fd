import Retarget.FrontEnd.Desugar
import Retarget.Proofs.Passes

/-!
# Values and their types

How a value is converted depends on its type and the one that is expected. Slices are accepted for
slices of other element types without a conversion. The parts of an array are where their indices
say exactly if the indices ascend. In generated code slices and unions are records of the same size
and alignment, unless a type has been laid out before a record in it.
-/

namespace Retarget.FrontEnd
open IR.Pass (bind_ok)

namespace Ty
variable {isMut : Bool} {a b : Ty}

/-- What is accepted is of the type already, or an array for a slice of its elements, or has members
of a union of either sort, or a slice of something else. Only the last has no conversion. -/
theorem conversion_of_suits (h : a.suits isMut b = true) :
  a.sameButMut b = true ∧ a.conversion? b = some .none ∨
  (∃ n k t, a = array n t ∧ b = slice k t) ∧ a.conversion? b = some .toSlice ∨
  (∃ t rest, b = union t rest ∧ a.members ⊆ b.members ∨
    b = untagged t rest ∧ a.untaggedMembers ⊆ b.untaggedMembers) ∧
      a.conversion? b = some .toUnion ∨
  (∃ m s t, s ≠ t ∧ a = slice m s ∧ b = slice false t) ∧ a.conversion? b = none := by
  by_cases hsame : a.sameButMut b = true
  · exact .inl ⟨hsame, by simp [conversion?, hsame]⟩
  have hne : a ≠ b := fun hab => hsame (by simp [sameButMut, hab])
  cases b with
  | slice k t =>
    cases a with
    | array n s =>
      obtain ⟨rfl, -⟩ : s = t ∧ (k = false ∨ isMut = true) := by simpa [suits] using h
      exact .inr (.inl ⟨⟨n, k, s, rfl, rfl⟩, rfl⟩)
    | slice m s =>
      have hst : s ≠ t := by
        rintro rfl
        cases m <;> cases k <;> simp_all [suits, sameButMut]
      have hk : k = false := by simpa [suits, hst] using h
      subst hk
      exact .inr (.inr (.inr ⟨⟨m, s, t, hst, rfl, rfl⟩, by simp [conversion?, hsame]⟩))
    | _ => simp [suits] at h
  | union t rest =>
    have hall : a.members ⊆ (union t rest).members := by
      intro x hx
      cases a <;> simp_all [suits]
    exact .inr (.inr (.inl ⟨⟨t, rest, .inl ⟨rfl, hall⟩⟩, by cases a <;> simp [conversion?, hsame]⟩))
  | untagged t rest =>
    have hall : a.untaggedMembers ⊆ (untagged t rest).untaggedMembers := by
      intro x hx
      cases a <;> simp_all [suits]
    exact .inr (.inr (.inl ⟨⟨t, rest, .inr ⟨rfl, hall⟩⟩, by cases a <;> simp [conversion?, hsame]⟩))
  | ptr k t =>
    cases a with
    | ptr m s => cases m <;> cases k <;> simp_all [suits, sameButMut]
    | _ => simp [suits] at h
  | _ => cases a <;> simp_all [suits]

theorem conversion_of_bytes : (array 2 (base .u8)).suits false (slice false (base .u8)) = true ∧
  (array 2 (base .u8)).conversion? (slice false (base .u8)) = some .toSlice := by
  refine ⟨rfl, ?_⟩
  obtain ⟨h, -⟩ | ⟨-, h⟩ | ⟨⟨_, _, ⟨h, -⟩ | ⟨h, -⟩⟩, -⟩ | ⟨⟨_, _, _, -, h, -⟩, -⟩ :=
    @conversion_of_suits false (array 2 (base .u8)) (slice false (base .u8)) rfl
  · cases h
  · exact h
  all_goals cases h

end Ty

/-- A slice of words passes for a slice of bytes. -/
theorem words_as_bytes_break :
  let s : Expr := .id ⟨"", .slice false (.base .u32), none⟩ "s" (.param "s")
  s.suits (.slice false (.base .u8)) = .ok () ∧
    convert (.slice false (.base .u8)) s = .error (.broken "conversion") := ⟨rfl, rfl⟩

/-! ## Parts of arrays -/

/-- The indices that parts are given, or else those that follow, from `next` on. -/
def ownIdxs : Nat → List Expr → List Nat
  | next, .idxVal _ _ i :: rest =>
    let k := match i.isAuto, i.value with
      | false, some (.int n) => n.toNat
      | _, _ => next
    k :: ownIdxs (k + 1) rest
  | _, _ => []

variable {next : Nat} {x : Expr} {inits : List Expr} {places : List (Nat × Expr)}

lemma placeItems_cons (h : placeItems next (x :: inits) = .ok places) : ∃ e k tail,
  ownIdxs next (x :: inits) = k :: ownIdxs (k + 1) inits ∧
    places = (max next k, e) :: tail ∧ placeItems (max next k + 1) inits = .ok tail := by
  cases x with
  | idxVal n e i =>
    rw [placeItems] at h
    split at h
    · obtain ⟨_, ⟨⟩, h⟩ := bind_ok.1 h
      obtain ⟨tail, htail, ⟨⟩⟩ := bind_ok.1 h
      exact ⟨e, next, tail, by simp [ownIdxs, *], by simp, by simpa using htail⟩
    · split at h
      · obtain ⟨_, ⟨⟩, h⟩ := bind_ok.1 h
        obtain ⟨tail, htail, ⟨⟩⟩ := bind_ok.1 h
        exact ⟨e, _, tail, by simp [ownIdxs, *], rfl, htail⟩
      · cases h
  | _ => cases h

lemma map_placeItems_eq_iff (h : placeItems next inits = .ok places) :
  places.map Prod.fst = ownIdxs next inits ↔
    (ownIdxs next inits).Pairwise (· < ·) ∧ ∀ k ∈ ownIdxs next inits, next ≤ k := by
  induction inits generalizing next places with
  | nil => cases h; simp [ownIdxs]
  | cons x inits ih =>
    obtain ⟨e, k, tail, hk, rfl, htail⟩ := placeItems_cons h
    rw [hk, List.map_cons, List.pairwise_cons]
    by_cases hle : next ≤ k
    · rw [Nat.max_eq_right hle] at htail ⊢
      grind
    · grind

/-- Parts of an array are at their own indices exactly if these ascend. -/
theorem placeItems_own_iff (h : placeItems 0 inits = .ok places) :
  places.map Prod.fst = ownIdxs 0 inits ↔ (ownIdxs 0 inits).Pairwise (· < ·) := by
  simp [map_placeItems_eq_iff h]

def partAt (n : Int) : Expr :=
  .idxVal ⟨"", .unset, none⟩ (.auto ⟨"", .unset, none⟩) (.num ⟨"", .unset, some (.int n)⟩ "")

theorem placeItems_own_gap : ∃ places, placeItems 0 [partAt 0, partAt 2] = .ok places ∧
  places.map Prod.fst = ownIdxs 0 [partAt 0, partAt 2] :=
  ⟨_, rfl, (placeItems_own_iff rfl).2 (by decide)⟩

theorem placeItems_back : ∃ places, placeItems 0 [partAt 1, partAt 0] = .ok places ∧
  places.map Prod.fst = [1, 2] ∧ ownIdxs 0 [partAt 1, partAt 0] = [1, 0] := ⟨_, rfl, rfl, rfl⟩

/-! ## Layouts of types that are replaced -/

variable {rs : Records} {t : Ty} {l : Layout}

lemma alignUp_tag {n : Int} (h : 1 ≤ n) : alignUp 2 n = alignUp 2 (max n 2) := by
  obtain rfl | h : n = 1 ∨ 2 ≤ n := by omega
  · rfl
  · rw [Int.max_eq_left h]

namespace Records

/-- Arrays and unions have been laid out as the layouts of their parts ask for. -/
def Settled (rs : Records) : Prop := ∀ t l, rs.laid.lookup t = some l →
  match t with
  | .array dim t => (rs.sized false t >>= (·.times dim)) = .ok l
  | .union t rest => (rs.sized true (.union t rest) >>= Layout.tagged) = .ok l
  | _ => True

/-- The record for a union: a tag, and room for any of the members. -/
lemma layout_union {u rest : Ty} (h : (rs.sized true (.union u rest) >>= Layout.tagged) = .ok l) :
  ∃ l', rs.layout (.union u rest) = .ok l' ∧ l'.size = l.size ∧ l'.align = l.align := by
  obtain ⟨room, hroom, h⟩ := bind_ok.1 h
  obtain ⟨off, hoff, ⟨⟩⟩ := bind_ok.1 h
  have halg : 1 ≤ room.align := by
    obtain ⟨a, -, h⟩ := bind_ok.1 hroom
    obtain ⟨b, -, ⟨⟩⟩ := bind_ok.1 h
    exact Int.le_max_left ..
  rw [← alignUp_tag halg] at hoff
  have htag : rs.sized true (.base .u16) = .ok ⟨2, 2, some [.u16]⟩ := rfl
  have hfst : alignUp 0 2 = .ok 0 := rfl
  refine ⟨recordLayout [⟨"tag", .base .u16, 0, ⟨2, 2, some [.u16]⟩⟩,
    ⟨"union", .union u rest, off, room⟩], ?_, rfl, ?_⟩
  · simp only [layout, placeFields, htag, hfst, hroom, bind, Except.bind, Int.zero_add, hoff]
    rfl
  · exact Int.max_comm 2 room.align

/-- A type takes as much room after slices and unions have been replaced as before. -/
theorem layout_sized (hrs : rs.Settled) (h : rs.sized false t = .ok l) :
  ∃ l', rs.layout t = .ok l' ∧ l'.size = l.size ∧ l'.align = l.align := by
  induction t generalizing l with
  | slice =>
    cases h
    exact ⟨_, rfl, rfl, rfl⟩
  | array dim t ih =>
    rw [layout]
    split
    · have hparts : (rs.sized false t >>= (·.times dim)) = .ok l := by
        rw [sized, known] at h
        split at h
        · cases h
          exact hrs _ _ ‹_›
        · exact h
      obtain ⟨k, hk, htimes⟩ := bind_ok.1 hparts
      obtain ⟨k', hk', hsize, halg⟩ := ih hk
      rw [Layout.times, ← hsize, ← halg] at htimes
      exact ⟨l, by rw [hk']; exact htimes, rfl, rfl⟩
    · exact ⟨l, h, rfl, rfl⟩
  | union u rest =>
    refine layout_union ?_
    rw [sized, known] at h
    simp only [Bool.false_eq_true, if_false] at h
    split at h
    · cases h
      exact hrs _ _ ‹_›
    · exact h
  | _ => exact ⟨l, h, rfl, rfl⟩

end Records

theorem layout_sized_pair : let t : Ty := .union (.base .u8) (.base .u16)
  ∃ rs l, (Records.meetAll [t]).run ⟨[], [], []⟩ = .ok ((), rs) ∧ rs.layout t = .ok l ∧
    l.size = 4 ∧ l.align = 2 := by
  intro t
  have hsettled : Records.Settled ⟨[], [(t, ⟨4, 2, none⟩)], []⟩ := by
    intro u l h
    by_cases hu : u = t
    · subst hu
      cases h
      rfl
    · rw [List.lookup_cons, beq_false_of_ne hu] at h
      cases h
  exact ⟨_, _, rfl, (Records.layout_sized (l := ⟨4, 2, none⟩) hsettled rfl).choose_spec⟩

/-- A record with a slice of values that may be such records. -/
def linked : RecordType where
  module := "main"
  name := "R"
  fields := [("s", .slice false (.union (.record "main" "R") (.base .u8))), ("b", .base .u64),
    ("c", .base .u64)]

theorem linked_unsettled : ∃ rs : Records,
  (Records.meetAll [.record "main" "R"]).run ⟨[linked], [], []⟩ = .ok ((), rs) ∧
  rs.sized false (.union (.record "main" "R") (.base .u8)) = .ok ⟨3, 2, none⟩ ∧
  rs.layout (.union (.record "main" "R") (.base .u8)) = .ok ⟨40, 8, none⟩ :=
  ⟨_, rfl, rfl, rfl⟩

/-! ## Truth values -/

/-- Nothing for a truth value that should have been expanded. -/
def rejectBare (r : Role) (e : Expr) : Option Expr := if e.isBare r then none else some e

/-- Every expression is looked into. -/
abbrev skip {m : Type → Type} [Monad m] (_ : Role) (_ : Expr) : m (Option Expr) := pure none

lemma Expr.walk_rejectBare {r : Role} {e : Expr}
  (he : ∀ r, e.walk skip rejectBare some r = rejectBare r e) :
  (expandTruth r e).walk skip rejectBare some r = some (expandTruth r e) := by
  unfold expandTruth
  split
  · -- as the condition of a choice it may stay
    have hoth : rejectBare .other e = some e := by simp [rejectBare, isBare]
    rw [walk]
    simp only [he, hoth]
    rw [walk, walk]
    rfl
  · next hbare => rw [he r, rejectBare, if_neg hbare]

mutual

lemma Expr.walk_expandTruth (r : Role) (e : Expr) :
  (e.walk skip expandTruth id r).walk skip rejectBare some r = some (e.walk skip expandTruth id r) := by
  cases e
  all_goals
    rw [Expr.walk.eq_1 (m := Id)]
    refine Expr.walk_rejectBare fun r => ?_
    rw [Expr.walk.eq_1 (m := Option)]
    simp only [Expr.walk_expandTruth, Expr.walkAll_expandTruth, Stmt.walkAll_expandTruth,
      Functor.map, Seq.seq, bind, Option.map_some, Option.bind_some]
    rfl

lemma Expr.walkAll_expandTruth (r : Role) (es : List Expr) : Expr.walkAll skip rejectBare some r
  (Expr.walkAll skip expandTruth id r es) = some (Expr.walkAll skip expandTruth id r es) := by
  cases es <;> simp [Expr.walkAll, bind, pure, Expr.walk_expandTruth, Expr.walkAll_expandTruth]

lemma Stmt.walk_expandTruth (s : Stmt) :
  (s.walk skip expandTruth id).walk skip rejectBare some = some (s.walk skip expandTruth id) := by
  cases s <;> simp [Stmt.walk, bind, Expr.walk_expandTruth, Stmt.walkAll_expandTruth]

lemma Stmt.walkAll_expandTruth (ss : List Stmt) : Stmt.walkAll skip rejectBare some
  (Stmt.walkAll skip expandTruth id ss) = some (Stmt.walkAll skip expandTruth id ss) := by
  cases ss <;> simp [Stmt.walkAll, bind, pure, Stmt.walk_expandTruth, Stmt.walkAll_expandTruth]

end

/-- Truth values are expanded wherever they are passed, returned, stored or made part of a value. -/
theorem rejectBare_expandTruth (ss : List Stmt) :
  let out : List Stmt := Stmt.visitAll (m := Id) expandTruth (fun s => s) ss
  Stmt.visitAll rejectBare some out = some out :=
  Stmt.walkAll_expandTruth ss

/-! ## Sizes of texts

The size of a text is found by counting, without reading its escapes. -/

section
open List Text
variable {c : Char} {cs ds : List Char} {bs : Bytes}

lemma notMem_of_hexByte {a b : Char} {x : UInt8} (h : hexByte a b = .ok x) : '\\' ∉ [a, b] := by
  have hblank : isBlank '\\' = false := by decide
  intro hmem
  unfold hexByte at h
  obtain rfl | rfl : a = '\\' ∨ b = '\\' := by grind
  · cases hb : isBlank b <;> simp [intIn?, strip, hblank, hb, signed, digits?, digitValue] at h
  · cases ha : isBlank a <;> simp [intIn?, strip, hblank, ha] at h <;> unfold signed at h <;>
      split at h <;> grind [digits?, digitValue]

/-- The digits of octal escapes, without the first one of each. -/
def laterDigits : List Char → Nat
  | [] => 0
  | '\\' :: c :: r => laterDigits r + if isOctal c then ((r.take 2).takeWhile isOctal).length else 0
  | _ :: r => laterDigits r

/-- Every character counts where there are no escapes. -/
lemma counts_append (hds : '\\' ∉ ds) (r : List Char) :
  escapedSize (ds ++ r) = escapedSize r + ds.length ∧ laterDigits (ds ++ r) = laterDigits r := by
  induction ds with
  | nil => simp
  | cons d ds ih =>
    simp only [mem_cons, not_or] at hds
    obtain ⟨hsize, hlater⟩ := ih hds.2
    rw [cons_append, escapedSize, laterDigits, hlater, length_cons]
    · exact ⟨by omega, rfl⟩
    all_goals simp [Ne.symm hds.1]

lemma cons_eq_ok {x : Res UInt8} {y : Res Bytes} (h : (do return (← x) :: (← y)) = .ok bs) :
  ∃ b bs', x = .ok b ∧ y = .ok bs' ∧ bs = b :: bs' := by
  obtain ⟨b, hx, h⟩ := bind_ok.1 h
  obtain ⟨bs', hy, ⟨⟩⟩ := bind_ok.1 h
  exact ⟨b, bs', hx, hy, rfl⟩

lemma utf8Size_of_ascii (hc : c.toNat < 128) : c.utf8Size = 1 := by
  rw [Char.utf8Size_eq_one_iff]
  exact Nat.le_of_lt_succ hc

lemma escapedSize_eq (hcs : ∀ c ∈ cs, c.toNat < 128) (h : unescape cs = .ok bs) :
  escapedSize cs = bs.length + laterDigits cs := by
  fun_induction unescape cs generalizing bs with
  | case1 =>
    cases h
    rfl
  | case2 | case5 => cases h
  | case3 r ih =>
    obtain ⟨bs', hr, ⟨⟩⟩ := bind_ok.1 h
    have hrest := ih (fun c hc => hcs c (by simp [hc])) hr
    simp [escapedSize, laterDigits, isOctal]
    omega
  | case4 a b r ih =>
    obtain ⟨x, bs', hx, hr, rfl⟩ := cons_eq_ok h
    obtain ⟨hsize, hlater⟩ := counts_append (notMem_of_hexByte hx) r
    have hrest := ih (fun c hc => hcs c (by simp [hc])) hr
    simp [escapedSize, laterDigits, isOctal] at hsize hlater ⊢
    omega
  | case6 c r _ _ hx hc ds =>
    rename_i ih
    obtain ⟨x, bs', -, hr, rfl⟩ := cons_eq_ok h
    have hdigits : '\\' ∉ ds := fun hmem => by cases all_eq_true.1 all_takeWhile _ hmem
    have hsplit : ds ++ r.drop ds.length = r :=
      prefix_iff_eq_append.1 (( takeWhile_prefix isOctal).trans ( take_prefix 2 r))
    have hcounts := counts_append hdigits (r.drop ds.length)
    rw [hsplit] at hcounts
    have hrest := ih (fun c hc => hcs c (by simp [mem_of_mem_drop hc])) hr
    rw [escapedSize, laterDigits, if_neg hx, if_pos hc, length_cons,
      show takeWhile _ _ = ds from rfl]
    omega
  | case7 c r _ _ hx hc ih =>
    obtain ⟨x, bs', -, hr, rfl⟩ := cons_eq_ok h
    have hrest := ih (fun c hc => hcs c (by simp [hc])) hr
    rw [escapedSize, laterDigits, if_neg hx, if_neg hc, length_cons]
    omega
  | case8 c r hlast _ _ _ hmore ih =>
    obtain ⟨bs', hr, ⟨⟩⟩ := bind_ok.1 h
    have hrest := ih (fun c hc => hcs c (.tail _ hc)) hr
    have hcounts := counts_append (show '\\' ∉ [c] by cases r <;> grind) r
    rw [length_append, String.length_utf8EncodeChar, utf8Size_of_ascii (hcs c (.head _))]
    simp at hcounts
    omega

lemma length_of_pairs (h : pairs cs = .ok bs) : cs.length = 2 * bs.length := by
  fun_induction pairs cs generalizing bs with
  | case1 =>
    cases h
    rfl
  | case2 => cases h
  | case3 a b r ih =>
    obtain ⟨x, bs', -, hr, rfl⟩ := cons_eq_ok h
    rw [length_cons, length_cons, length_cons, ih hr]
    omega

namespace TextKind

/-- How much too large the size of a text is. -/
def surplus (s : String) : TextKind → Nat
  | escaped => laterDigits s.toList
  | _ => 0

/-- A text that stands for bytes has their number for its size, and one more for each digit of an
octal escape after the first. -/
theorem size_of_bytes {kind : TextKind} {s : String} (h : kind.bytes s = .ok bs) :
  kind.size s = .ok (bs.length + kind.surplus s) := by
  unfold TextKind.bytes at h
  have hascii : ∀ c ∈ s.toList, c.toNat < 128 := fun c hc => Nat.lt_of_not_ge fun hge => by
    rw [if_pos (any_eq_true.2 ⟨c, hc, decide_eq_true hge⟩)] at h
    cases h
  rw [if_neg (by simpa using hascii)] at h
  cases kind with
  | raw =>
    cases h
    have hone : ∀ c ∈ s.toList, c.utf8Size = 1 := fun c hc => utf8Size_of_ascii (hascii c hc)
    simp [length_flatMap, map_congr_left hone, map_const', String.length_toList, size, surplus]
  | hex =>
    have hlen : (s.toList.filter (!isGap ·)).length = 2 * bs.length := length_of_pairs h
    rw [size, hlen, Nat.mul_mod_right, Nat.mul_div_right _ Nat.two_pos]
    rfl
  | escaped =>
    rw [size, escapedSize_eq hascii h]
    rfl

theorem size_of_bytes_octal : escaped.bytes "\\101B" = .ok [65, 66] ∧
  escaped.size "\\101B" = .ok (2 + 2) := by
  have hbytes : escaped.bytes "\\101B" = .ok [65, 66] := by
    simp [TextKind.bytes, unescape, octalByte, byte, digits?, digitValue, isOctal]
    rfl
  exact ⟨hbytes, size_of_bytes hbytes⟩

end TextKind
end
end Retarget.FrontEnd
