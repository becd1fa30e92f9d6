import Mathlib.Logic.Function.Basic

/-! A memory whose cells have one writer each, who changes them one write at a time: the writes
that are still to be made, and the memory after them. -/
namespace Writes
variable {κ σ ω : Type*} (write : ω → σ → σ)

/-- A cell after some writes. -/
def after (ws : List ω) (x : σ) : σ := ws.foldl (fun x w => write w x) x

/-- The memory once everybody has made the writes that are still to be made. -/
def settle (mem : κ → σ) (todo : κ → List ω) : κ → σ := fun k => after write (todo k) (mem k)

@[simp] theorem after_nil (x : σ) : after write [] x = x := rfl

@[simp] theorem after_cons (w : ω) (ws : List ω) (x : σ) :
    after write (w :: ws) x = after write ws (write w x) := rfl

/-- What every write keeps. -/
theorem after_induct {P : σ → Prop} {ws : List ω} (h : ∀ w ∈ ws, ∀ x, P x → P (write w x)) {x : σ}
    (hx : P x) : P (after write ws x) := by
  induction ws generalizing x with
  | nil => exact hx
  | cons w ws ih =>
    apply ih (fun w' hw' => h w' (List.mem_cons_of_mem _ hw'))
    exact h w List.mem_cons_self x hx

variable {write} {mem : κ → σ} {todo : κ → List ω} {k : κ}

theorem settle_of_nil (h : todo k = []) : settle write mem todo k = mem k := by
  rw [settle,h,after_nil]

/-- Nobody has anything to write. -/
theorem settle_nil (h : ∀ k, todo k = []) : settle write mem todo = mem := by
  funext k
  exact settle_of_nil (h k)

variable [DecidableEq κ]

/-- A write that was still to be made changes nothing. -/
theorem settle_write {w : ω} {ws : List ω} (h : todo k = w :: ws) :
    settle write (Function.update mem k (write w (mem k))) (Function.update todo k ws) =
      settle write mem todo := by
  funext l
  by_cases hl : l = k
  · subst hl
    simp only [settle,Function.update_self,h,after_cons]
  · simp only [settle,Function.update_of_ne hl]

/-- A cell and the writes to it change together. -/
theorem settle_update (x : σ) (ws : List ω) :
    settle write (Function.update mem k x) (Function.update todo k ws) =
      Function.update (settle write mem todo) k (after write ws x) := by
  funext l
  by_cases hl : l = k
  · subst hl
    simp only [settle,Function.update_self]
  · simp only [settle,Function.update_of_ne hl]

/-- New writes to a cell without any. -/
theorem settle_defer (ws : List ω) :
    settle write mem (Function.update todo k ws) =
      Function.update (settle write mem todo) k (after write ws (mem k)) := by
  rw [← settle_update,Function.update_eq_self]

/-- Somebody else writes a cell that its owner is done with. -/
theorem settle_of_done (x : σ) (h : todo k = []) :
    settle write (Function.update mem k x) todo = Function.update (settle write mem todo) k x := by
  have hset : settle write (Function.update mem k x) (Function.update todo k []) =
      Function.update (settle write mem todo) k (after write [] x) := settle_update x []
  rwa [after_nil,← h,Function.update_eq_self] at hset

end Writes
