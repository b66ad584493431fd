import Retarget.CSource.Emit

/-!
# Names in C source

Things of one sort keep different names unless the mark of the sort occurs in a name of theirs: `%x`
and `L_x` are both written `L_x`.
-/

namespace Retarget.CSource
open List
variable {mark : Char}

theorem infix_of_marked {a b : List Char} (hmark : mark ≠ '_')
  (h : '_' :: marked mark a = marked mark b) : [mark, '_'] <:+: mark :: b := by
  cases b with
  | nil => cases h
  | cons y b =>
    have hy : y = '_' := by grind [marked]
    exact ⟨[], b, by simp [hy]⟩

theorem marked_inj {a b : List Char} (hmark : mark ≠ '_') (ha : ¬[mark, '_'] <:+: a)
  (hb : ¬[mark, '_'] <:+: b) (h : marked mark a = marked mark b) : a = b := by
  induction a generalizing b with
  | nil => cases b <;> grind [marked]
  | cons x a ih =>
    cases b with
    | nil => grind [marked]
    | cons y b =>
      -- a percent sign on one side only would make the other side start with the mark
      have ih := @ih b (ha ∘ infix_cons) (hb ∘ infix_cons)
      have hax := @infix_of_marked mark b a hmark
      have hby := @infix_of_marked mark a b hmark
      grind [marked]

theorem mangle_inj {a b : String} (hmark : mark ≠ '_') (ha : ¬[mark, '_'] <:+: a.toList)
  (hb : ¬[mark, '_'] <:+: b.toList) : mangle mark a = mangle mark b ↔ a = b :=
  ⟨fun h => String.toList_inj.1 (marked_inj hmark ha hb (String.ofList_injective h)), congrArg _⟩

theorem mangle_inj_percent : mangle 'L' "%x" = mangle 'L' "x" ↔ "%x" = "x" :=
  mangle_inj (by decide) (by decide) (by decide)

theorem mangle_clash : mangle 'L' "%x" = mangle 'L' "L_x" := by decide

end Retarget.CSource
