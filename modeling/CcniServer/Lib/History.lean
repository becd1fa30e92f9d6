import Mathlib.Data.List.Induction

/-! Histories: lists of events with the latest one last. -/
namespace History
variable {ε : Type*} {adds kills : ε → Prop} {es : List ε} {e : ε}

/-- What an event of the history has set up and no later event has undone. -/
def Standing (adds kills : ε → Prop) (es : List ε) : Prop :=
  ∃ pre e mid, es = pre ++ e :: mid ∧ adds e ∧ ∀ d ∈ mid, ¬ kills d

theorem not_standing_nil : ¬ Standing adds kills [] := by
  rintro ⟨pre,e,mid,heq,-⟩
  simp at heq

theorem standing_snoc :
    Standing adds kills (es ++ [e]) ↔ adds e ∨ Standing adds kills es ∧ ¬ kills e := by
  constructor
  · rintro ⟨pre,d,mid,heq,hadds,hmid⟩
    induction mid using List.reverseRecOn with
    | nil =>
      obtain ⟨-,hlast⟩ := List.append_inj' heq rfl
      exact .inl ((List.cons.inj hlast).1 ▸ hadds)
    | append_singleton mid' d' _ =>
      rw [← List.cons_append,← List.append_assoc] at heq
      obtain ⟨hes,hlast⟩ := List.append_inj' heq rfl
      right
      refine ⟨⟨pre,d,mid',hes,hadds,fun x hx => hmid x (List.mem_append_left _ hx)⟩,?_⟩
      exact (List.cons.inj hlast).1 ▸ hmid d' (by simp)
  · rintro (hadds | ⟨⟨pre,d,mid,rfl,hadds,hmid⟩,hkeep⟩)
    · exact ⟨es,e,[],rfl,hadds,by simp⟩
    · refine ⟨pre,d,mid ++ [e],by simp,hadds,fun x hx => ?_⟩
      rcases List.mem_append.mp hx with hx | hx
      · exact hmid x hx
      · exact List.mem_singleton.mp hx ▸ hkeep

end History
