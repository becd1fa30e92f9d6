import Mathlib.Logic.Equiv.Basic

/-! A token that passes from one holder to another. -/
namespace Token
variable {α : Type*} {has has' : α → Prop}

def AtMostOne (has : α → Prop) : Prop := ∀ a b, has a → has b → a = b

/-- Whoever has a token afterwards has it from a holder of his own. -/
def Passes (has has' : α → Prop) : Prop :=
  ∃ f : α → α, Function.Injective f ∧ ∀ a, has' a → has (f a)

theorem passes_of_le (h : ∀ a, has' a → has a) : Passes has has' := ⟨id,Function.injective_id,h⟩

/-- `x` gives the token to `y`. -/
theorem passes_of_swap [DecidableEq α] {x y : α} (hx : has x) (hgone : ¬ has' x)
    (hrest : ∀ a, a ≠ x → a ≠ y → has' a → has a) : Passes has has' := by
  refine ⟨Equiv.swap x y,(Equiv.swap x y).injective,fun a ha => ?_⟩
  by_cases hay : a = y
  · rw [hay,Equiv.swap_apply_right]
    exact hx
  · have hax : a ≠ x := by
      rintro rfl
      exact hgone ha
    rw [Equiv.swap_apply_of_ne_of_ne hax hay]
    exact hrest a hax hay ha

/-- One token stays one token. -/
theorem AtMostOne.passes (h : AtMostOne has) (hp : Passes has has') : AtMostOne has' := by
  obtain ⟨f,hf,hfrom⟩ := hp
  exact fun a b ha hb => hf (h _ _ (hfrom a ha) (hfrom b hb))

/-- A token that nobody has does not come back. -/
theorem Passes.none (hp : Passes has has') (h : ∀ a, ¬ has a) : ∀ a, ¬ has' a := by
  obtain ⟨f,-,hfrom⟩ := hp
  exact fun a ha => h _ (hfrom a ha)

end Token
