import Mathlib.Logic.Basic

/-! Labelled transition systems: finite runs, invariants, runs whose steps all meet a
condition, executable runs of a step function that may stop with an error, and machines whose
steps have outputs. -/
namespace Lts
variable {σ τ ε κ : Type*}

/-- A finite run together with the labels of its steps. -/
inductive Run (step : σ → ε → σ → Prop) : σ → List ε → σ → Prop
  | nil (s : σ) : Run step s [] s
  | cons {s t u : σ} {e : ε} {es : List ε} :
      step s e t → Run step t es u → Run step s (e :: es) u

/-- Every step of every run over `es` meets `cond` in the state it is taken from. -/
def Meets (step : σ → ε → σ → Prop) (cond : σ → ε → Prop) : σ → List ε → Prop
  | _, [] => True
  | s, e :: es => cond s e ∧ ∀ t, step s e t → Meets step cond t es

/-- A condition on the labels alone. -/
theorem meets_of_labels {step : σ → ε → σ → Prop} {ok : ε → Prop} {es : List ε}
    (h : ∀ e ∈ es, ok e) (s : σ) : Meets step (fun _ e => ok e) s es := by
  induction es generalizing s with
  | nil => trivial
  | cons e es ih =>
    exact ⟨h e List.mem_cons_self,fun t _ => ih (fun e he => h e (List.mem_cons_of_mem _ he)) t⟩

theorem Meets.imp {step : σ → ε → σ → Prop} {cond cond' : σ → ε → Prop} {s : σ} {es : List ε}
    (hcond : ∀ s e, cond s e → cond' s e) (h : Meets step cond s es) : Meets step cond' s es := by
  induction es generalizing s with
  | nil => trivial
  | cons e es ih => exact ⟨hcond s e h.1,fun t ht => ih (h.2 t ht)⟩

theorem Meets.and {step : σ → ε → σ → Prop} {cond cond' : σ → ε → Prop} {s : σ} {es : List ε}
    (h : Meets step cond s es) (h' : Meets step cond' s es) :
    Meets step (fun s e => cond s e ∧ cond' s e) s es := by
  induction es generalizing s with
  | nil => trivial
  | cons e es ih => exact ⟨⟨h.1,h'.1⟩,fun t ht => ih (h.2 t ht) (h'.2 t ht)⟩

/-- Where a label leads to one state only, one run over the labels tells what every run meets. -/
theorem run_meets_cons {step : σ → ε → σ → Prop} {cond : σ → ε → Prop} {P : σ → Prop} {s t : σ}
    {e : ε} {es : List ε} (hdet : ∀ t', step s e t' → t' = t) (he : step s e t) (hc : cond s e)
    (h : ∃ u, Run step t es u ∧ Meets step cond t es ∧ P u) :
    ∃ u, Run step s (e :: es) u ∧ Meets step cond s (e :: es) ∧ P u := by
  obtain ⟨u,hrun,hmeets,hu⟩ := h
  exact ⟨u,.cons he hrun,⟨hc,fun t' ht' => hdet t' ht' ▸ hmeets⟩,hu⟩

namespace Run
variable {step : σ → ε → σ → Prop} {cond : σ → ε → Prop} {P : σ → Prop}

theorem of_nil {s t : σ} (h : Run step s [] t) : t = s := by
  cases h
  rfl

theorem of_single {s t : σ} {e : ε} (h : Run step s [e] t) : step s e t := by
  cases h with
  | cons he hrest => exact hrest.of_nil ▸ he

theorem append {s t u : σ} {es fs : List ε} (h : Run step s es t) (h' : Run step t fs u) :
    Run step s (es ++ fs) u := by
  induction h with
  | nil => exact h'
  | cons hs _ ih => exact .cons hs (ih h')

/-- A function that maps steps to steps maps runs to runs. -/
theorem map {step' : τ → ε → τ → Prop} (f : σ → τ)
    (hf : ∀ s e t, step s e t → step' (f s) e (f t)) {s t : σ} {es : List ε}
    (h : Run step s es t) : Run step' (f s) es (f t) := by
  induction h with
  | nil => exact .nil _
  | cons he _ ih => exact .cons (hf _ _ _ he) ih

/-- What one step preserves, a run preserves. -/
theorem invariant (hstep : ∀ s e t, P s → step s e t → P t) {s t : σ} {es : List ε}
    (h : Run step s es t) (hs : P s) : P t := by
  induction h with
  | nil => exact hs
  | cons he _ ih => exact ih (hstep _ _ _ hs he)

/-- What a step that meets the condition preserves, a run of such steps preserves. -/
theorem invariant_of_meets (hstep : ∀ s e t, P s → cond s e → step s e t → P t) {s t : σ}
    {es : List ε} (h : Run step s es t) (hm : Meets step cond s es) (hs : P s) : P t := by
  induction h with
  | nil => exact hs
  | cons he _ ih => exact ih (hm.2 _ he) (hstep _ _ _ hs hm.1 he)

/-- Where steps that meet the condition keep the invariant and are mapped to steps, a run of such
steps is mapped to a run. -/
theorem map_of_meets {step' : τ → ε → τ → Prop} (f : σ → τ)
    (hf : ∀ s e t, P s → cond s e → step s e t → P t ∧ step' (f s) e (f t)) {s t : σ}
    {es : List ε} (h : Run step s es t) (hm : Meets step cond s es) (hs : P s) :
    P t ∧ Run step' (f s) es (f t) := by
  induction h with
  | nil => exact ⟨hs,.nil _⟩
  | cons he _ ih =>
    obtain ⟨hu,hstep⟩ := hf _ _ _ hs hm.1 he
    obtain ⟨ht,hrun⟩ := ih (hm.2 _ he) hu
    exact ⟨ht,.cons hstep hrun⟩

/-- What a step preserves of a state and its history, a run preserves. -/
theorem history {P : List ε → σ → Prop}
    (hstep : ∀ es s e t, P es s → step s e t → P (es ++ [e]) t) {s t : σ} {es fs : List ε}
    (h : Run step s fs t) (hs : P es s) : P (es ++ fs) t := by
  induction h generalizing es with
  | nil =>
    rw [List.append_nil]
    exact hs
  | @cons s u t e fs he _ ih =>
    rw [List.append_cons]
    exact ih (hstep es s e u hs he)

/-- A run over a list stops wherever the list is cut. -/
theorem cut {s t : σ} {es fs : List ε} (h : Run step s (es ++ fs) t) :
    ∃ u, Run step s es u ∧ Run step u fs t := by
  induction es generalizing s with
  | nil => exact ⟨s,.nil s,h⟩
  | cons e es ih =>
    cases h with
    | cons he hrest =>
      obtain ⟨u,hes,hfs⟩ := ih hrest
      exact ⟨u,.cons he hes,hfs⟩

/-- The steps after a run meet what the steps of the whole meet. -/
theorem meets_of_append {s t : σ} {es fs : List ε} (h : Run step s es t)
    (hm : Meets step cond s (es ++ fs)) : Meets step cond t fs := by
  induction h with
  | nil => exact hm
  | cons he _ ih => exact ih (hm.2 _ he)

end Run

/-! ### Total step functions -/

/-- The steps of a function. -/
def Moves (f : σ → ε → σ) (s : σ) (e : ε) (t : σ) : Prop := f s e = t

theorem meets_moves_cons {f : σ → ε → σ} {cond : σ → ε → Prop} {s : σ} {e : ε} {es : List ε}
    (hc : cond s e) (h : Meets (Moves f) cond (f s e) es) : Meets (Moves f) cond s (e :: es) := by
  refine ⟨hc,fun t ht => ?_⟩
  cases ht
  exact h

theorem run_foldl (f : σ → ε → σ) (s : σ) (es : List ε) :
    Run (Moves f) s es (es.foldl f s) := by
  induction es generalizing s with
  | nil => exact .nil s
  | cons e es ih => exact .cons rfl (ih (f s e))

theorem run_moves_iff {f : σ → ε → σ} {s t : σ} {es : List ε} :
    Run (Moves f) s es t ↔ es.foldl f s = t := by
  constructor
  · intro h
    induction h with
    | nil => rfl
    | cons he _ ih =>
      cases he
      exact ih
  · intro h
    exact h ▸ run_foldl f s es

/-- Steps that meet the condition keep the invariant `P`, and with it the property `R`; a step
that does not loses `R` for good. Then `R` holds after a run exactly when every step met the
condition. -/
theorem foldl_iff_meets {f : σ → ε → σ} {cond : σ → ε → Prop} {P R lost : σ → Prop}
    {ok : ε → Prop} (hkeep : ∀ s e, ok e → P s → cond s e → P (f s e))
    (hlose : ∀ s e, ok e → P s → ¬ cond s e → lost (f s e))
    (hlost : ∀ s e, lost s → lost (f s e)) (hR : ∀ s, P s → R s) (hnot : ∀ s, lost s → ¬ R s)
    {s : σ} {es : List ε} (hes : ∀ e ∈ es, ok e) (hs : P s) :
    R (es.foldl f s) ↔ Meets (Moves f) cond s es := by
  have hgone : ∀ (es : List ε) (s : σ), lost s → lost (es.foldl f s) := by
    intro es
    induction es with
    | nil => exact fun s h => h
    | cons e es ih => exact fun s h => ih (f s e) (hlost s e h)
  induction es generalizing s with
  | nil => exact ⟨fun _ => trivial,fun _ => hR s hs⟩
  | cons e es ih =>
    have hok := hes e List.mem_cons_self
    have hrest : ∀ e ∈ es, ok e := fun e' he' => hes e' (List.mem_cons_of_mem _ he')
    constructor
    · intro hend
      have hc : cond s e := by
        refine Classical.byContradiction fun hc => ?_
        exact hnot _ (hgone es _ (hlose s e hok hs hc)) hend
      refine ⟨hc,fun t ht => ?_⟩
      cases ht
      exact (ih hrest (hkeep s e hok hs hc)).mp hend
    · intro hm
      exact (ih hrest (hkeep s e hok hs hm.1)).mpr (hm.2 _ rfl)

/-- The run of a step function, up to its first error. -/
def exec (f : σ → ε → Except κ σ) : σ → List ε → Except κ σ
  | s, [] => .ok s
  | s, e :: es =>
    match f s e with
    | .ok t => exec f t es
    | .error k => .error k

/-- The steps of a function that end without an error. -/
def Steps (f : σ → ε → Except κ σ) (s : σ) (e : ε) (t : σ) : Prop := f s e = .ok t

section exec
variable {f : σ → ε → Except κ σ} {cond : σ → ε → Prop} {P : σ → Prop}

theorem exec_cons_ok {s t : σ} {e : ε} (h : f s e = .ok t) (es : List ε) :
    exec f s (e :: es) = exec f t es := by simp only [exec,h]

theorem meets_cons {s t : σ} {e : ε} {es : List ε} (h : f s e = .ok t) (hc : cond s e)
    (ht : Meets (Steps f) cond t es) : Meets (Steps f) cond s (e :: es) := by
  refine ⟨hc,fun u hu => ?_⟩
  have htu : t = u := Except.ok.inj (h.symm.trans hu)
  exact htu ▸ ht

theorem meets_cons_iff {s t : σ} {e : ε} {es : List ε} (h : f s e = .ok t) :
    Meets (Steps f) cond s (e :: es) ↔ cond s e ∧ Meets (Steps f) cond t es :=
  ⟨fun hm => ⟨hm.1,hm.2 t h⟩,fun hm => meets_cons h hm.1 hm.2⟩

theorem meets_cons_error {s : σ} {e : ε} {es : List ε} {k : κ} (h : f s e = .error k) :
    Meets (Steps f) cond s (e :: es) ↔ cond s e := by
  refine ⟨And.left,fun hc => ⟨hc,fun t ht => ?_⟩⟩
  cases h.symm.trans ht

instance decidableMeets [∀ s e, Decidable (cond s e)] :
    ∀ (s : σ) (es : List ε), Decidable (Meets (Steps f) cond s es)
  | _, [] => isTrue trivial
  | s, e :: es =>
    match h : f s e with
    | .ok t =>
      have := decidableMeets t es
      decidable_of_iff _ (meets_cons_iff h).symm
    | .error _ => decidable_of_iff _ (meets_cons_error h).symm

theorem meets_append {s t : σ} {es fs : List ε} (h : exec f s es = .ok t)
    (hm : Meets (Steps f) cond s es) (ht : Meets (Steps f) cond t fs) :
    Meets (Steps f) cond s (es ++ fs) := by
  induction es generalizing s with
  | nil =>
    cases h
    exact ht
  | cons e es ih =>
    refine ⟨hm.1,fun u hu => ih ?_ (hm.2 u hu)⟩
    rwa [exec_cons_ok hu] at h

/-- A run over two lists is a run over the second behind a run over the first. -/
theorem exec_bind (s : σ) (es fs : List ε) :
    exec f s (es ++ fs) = exec f s es >>= fun t => exec f t fs := by
  induction es generalizing s with
  | nil => rfl
  | cons e es ih =>
    rw [List.cons_append,exec,exec]
    cases f s e with
    | error k => rfl
    | ok u => exact ih u

theorem exec_append {s t : σ} {es fs : List ε} (h : exec f s es = .ok t) :
    exec f s (es ++ fs) = exec f t fs := by
  rw [exec_bind,h]
  rfl

theorem exec_ok_iff {s t : σ} {es : List ε} : exec f s es = .ok t ↔ Run (Steps f) s es t := by
  constructor
  · intro h
    induction es generalizing s with
    | nil =>
      cases h
      exact .nil _
    | cons e es ih =>
      cases he : f s e with
      | error k => simp [exec,he] at h
      | ok u => exact .cons he (ih (exec_cons_ok he es ▸ h))
  · intro h
    induction h with
    | nil => rfl
    | cons he _ ih => exact (exec_cons_ok he _).trans ih

/-- A step function that cannot fail where the condition holds runs to the end of every list
whose steps meet the condition. -/
theorem exec_ok_of_meets (hstep : ∀ s e, P s → cond s e → ∃ t, f s e = .ok t ∧ P t) {s : σ}
    {es : List ε} (hm : Meets (Steps f) cond s es) (hs : P s) :
    ∃ t, exec f s es = .ok t ∧ P t := by
  induction es generalizing s with
  | nil => exact ⟨s,rfl,hs⟩
  | cons e es ih =>
    obtain ⟨t,ht,hpt⟩ := hstep s e hs hm.1
    rw [exec_cons_ok ht]
    exact ih (hm.2 t ht) hpt

/-- Where a step fails exactly when it breaks the condition, a run fails exactly when one of its
steps does. -/
theorem exec_ok_iff_meets (hkeep : ∀ s e, P s → cond s e → ∃ t, f s e = .ok t ∧ P t)
    (hfail : ∀ s e, P s → ¬ cond s e → ∃ k, f s e = .error k) {s : σ} {es : List ε} (hs : P s) :
    (∃ t, exec f s es = .ok t) ↔ Meets (Steps f) cond s es := by
  constructor
  · intro hok
    induction es generalizing s with
    | nil => exact trivial
    | cons e es ih =>
      by_cases hc : cond s e
      · obtain ⟨t,ht,hpt⟩ := hkeep s e hs hc
        rw [exec_cons_ok ht] at hok
        exact meets_cons ht hc (ih hpt hok)
      · obtain ⟨k,hk⟩ := hfail s e hs hc
        obtain ⟨t,ht⟩ := hok
        simp [exec,hk] at ht
  · intro hm
    obtain ⟨t,ht,-⟩ := exec_ok_of_meets hkeep hm hs
    exact ⟨t,ht⟩

end exec

/-- Where a step from a state with the property keeps it exactly when it meets the condition, every
state of a run has the property exactly when every step meets the condition. -/
theorem always_iff_meets {f : σ → ε → Except κ σ} {cond fair : σ → ε → Prop} {P R : σ → Prop}
    (hstep : ∀ s e, P s → cond s e → ∃ t, f s e = .ok t ∧ P t ∧ (R s → (R t ↔ fair s e))) {s : σ}
    {es : List ε} (hm : Meets (Steps f) cond s es) (hs : P s) (hR : R s) :
    (∀ us, us <+: es → ∀ t, exec f s us = .ok t → R t) ↔ Meets (Steps f) fair s es := by
  induction es generalizing s with
  | nil =>
    refine ⟨fun _ => trivial,fun _ us hus t ht => ?_⟩
    rw [List.prefix_nil.mp hus] at ht
    cases ht
    exact hR
  | cons e es ih =>
    obtain ⟨t,ht,hpt,hiff⟩ := hstep s e hs hm.1
    have hiff := hiff hR
    constructor
    · intro hall
      have hRt : R t := hall [e] ⟨es,rfl⟩ t (exec_cons_ok ht [])
      refine meets_cons ht (hiff.mp hRt) ((ih (hm.2 t ht) hpt hRt).mp fun us hus u hu => ?_)
      exact hall (e :: us) (List.cons_prefix_cons.mpr ⟨rfl,hus⟩) u ((exec_cons_ok ht us).trans hu)
    · rintro ⟨hfair,hrest⟩ us hus u hu
      have hRt := hiff.mpr hfair
      cases us with
      | nil =>
        cases hu
        exact hR
      | cons e' us =>
        obtain ⟨rfl,htail⟩ := List.cons_prefix_cons.mp hus
        rw [exec_cons_ok ht] at hu
        exact (ih (hm.2 t ht) hpt hRt).mpr (hrest t ht) us htail u hu

/-! ### Trails -/

/-- The labels of the steps of a run that `lab` shows, up to the first error. -/
def trail {ι : Type*} (f : σ → ε → Except κ σ) (lab : σ → ε → Option ι) : σ → List ε → List ι
  | _, [] => []
  | s, e :: es =>
    (lab s e).toList ++
      match f s e with
      | .ok t => trail f lab t es
      | .error _ => []

theorem trail_cons_ok {ι : Type*} {f : σ → ε → Except κ σ} {lab : σ → ε → Option ι} {s t : σ}
    {e : ε} (h : f s e = .ok t) (es : List ε) :
    trail f lab s (e :: es) = (lab s e).toList ++ trail f lab t es := by simp only [trail,h]

/-- Forward simulation: where a step that meets the condition succeeds, keeps the invariant and is
the step of the other system that its label names, or none, a run of such steps succeeds and is a
run of the other system along its trail. -/
theorem exec_trail {ι : Type*} {f : σ → ε → Except κ σ} {cond : σ → ε → Prop} {P : σ → Prop}
    {lab : σ → ε → Option ι} {step' : τ → ι → τ → Prop} (g : σ → τ)
    (hstep : ∀ s e, P s → cond s e →
      ∃ t, f s e = .ok t ∧ P t ∧ Run step' (g s) (lab s e).toList (g t))
    {s : σ} {es : List ε} (hm : Meets (Steps f) cond s es) (hs : P s) :
    ∃ t, exec f s es = .ok t ∧ P t ∧ Run step' (g s) (trail f lab s es) (g t) := by
  induction es generalizing s with
  | nil => exact ⟨s,rfl,hs,.nil _⟩
  | cons e es ih =>
    obtain ⟨t,ht,hpt,hone⟩ := hstep s e hs hm.1
    obtain ⟨u,hu,hpu,hrest⟩ := ih (hm.2 t ht) hpt
    refine ⟨u,?_,hpu,?_⟩
    · rwa [exec_cons_ok ht]
    · rw [trail_cons_ok ht]
      exact hone.append hrest

/-! ### Machines with outputs -/

section
variable {ο : Type*} {f : σ → ε → σ × ο} {s t : σ}

def outputs (f : σ → ε → σ × ο) : σ → List ε → List ο
  | _, [] => []
  | s, e :: es => (f s e).2 :: outputs f (f s e).1 es

/-- No inputs tell the two states apart. -/
def Like (f : σ → ε → σ × ο) (s t : σ) : Prop := ∀ es, outputs f s es = outputs f t es

theorem Like.output (h : Like f s t) (e : ε) : (f s e).2 = (f t e).2 :=
  (List.cons.inj (h [e])).1

/-- States that a bisimulation relates are alike. -/
theorem like_of_bisim {R : σ → σ → Prop}
    (hstep : ∀ s t e, R s t → (f s e).2 = (f t e).2 ∧ R (f s e).1 (f t e).1) (h : R s t) :
    Like f s t := by
  intro es
  induction es generalizing s t with
  | nil => rfl
  | cons e es ih =>
    obtain ⟨hout,hnext⟩ := hstep s t e h
    rw [outputs,outputs,hout,ih hnext]

end
end Lts
