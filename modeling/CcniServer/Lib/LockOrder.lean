import CcniServer.Lib.Lts
import Mathlib.Computability.Language
import Mathlib.Order.CompletePartialOrder

/-! Threads that lock and unlock mutexes, each after a program of its own. A program is the language
of what it may do with mutexes from its start to its end: sequence, choice and iteration of
programs are the product, the sum and the star of languages. Programs that lock along a rank do not
deadlock. -/
namespace LockOrder
open Computability
variable {L T : Type*}

inductive Act (L : Type*)
  | acquire (l : L)
  | release (l : L)

abbrev Code (L : Type*) := Language (Act L)

def lock (l : L) : Code L := {[.acquire l]}

def unlock (l : L) : Code L := {[.release l]}

/-- A wait for a condition, which lets go of the mutex meanwhile. -/
def wait (l : L) : Code L := {[.release l,.acquire l]}

/-- A block that begins with a lock and ends with its release. -/
def scope (l : L) (P : Code L) : Code L := lock l * P * unlock l

section
variable [DecidableEq L]

/-- The mutexes held after some acts, given those held before. -/
def after : List L → List (Act L) → List L
  | h, [] => h
  | h, .acquire l :: w => after (l :: h) w
  | h, .release l :: w => after (h.erase l) w

/-- No act acquires a mutex while one of the same or a higher rank is held, or releases one that
is not held. -/
def Ordered (rank : L → ℕ) : List L → List (Act L) → Prop
  | _, [] => True
  | h, .acquire l :: w => (∀ k ∈ h, rank k < rank l) ∧ Ordered rank (l :: h) w
  | h, .release l :: w => l ∈ h ∧ Ordered rank (h.erase l) w

theorem after_append (h : List L) (v w : List (Act L)) :
    after h (v ++ w) = after (after h v) w := by
  induction v generalizing h with
  | nil => rfl
  | cons a v ih => cases a <;> exact ih _

theorem ordered_append {rank : L → ℕ} {h : List L} {v w : List (Act L)} :
    Ordered rank h (v ++ w) ↔ Ordered rank h v ∧ Ordered rank (after h v) w := by
  induction v generalizing h with
  | nil => simp [Ordered,after]
  | cons a v ih => cases a <;> simp [Ordered,after,ih,and_assoc]

/-! ### Programs -/

/-- A program that starts with the mutexes of `h` and ends with those of `h'`, in order. -/
def Passes (rank : L → ℕ) (h : List L) (P : Code L) (h' : List L) : Prop :=
  ∀ w ∈ P, Ordered rank h w ∧ after h w = h'

section
variable {rank : L → ℕ} {h h' h'' : List L} {P Q : Code L}

theorem passes_one : Passes rank h 1 h := by
  intro w hw
  rw [Language.mem_one] at hw
  rw [hw]
  exact ⟨trivial,rfl⟩

theorem Passes.mul (hP : Passes rank h P h') (hQ : Passes rank h' Q h'') :
    Passes rank h (P * Q) h'' := by
  intro w hw
  obtain ⟨v,hv,u,hu,rfl⟩ := Language.mem_mul.mp hw
  obtain ⟨hord,hafter⟩ := hP v hv
  rw [ordered_append,after_append,hafter]
  exact ⟨⟨hord,(hQ u hu).1⟩,(hQ u hu).2⟩

theorem Passes.add (hP : Passes rank h P h') (hQ : Passes rank h Q h') :
    Passes rank h (P + Q) h' := by
  intro w hw
  rcases (Language.mem_add P Q w).mp hw with hw | hw
  · exact hP w hw
  · exact hQ w hw

theorem Passes.kstar (hP : Passes rank h P h) : Passes rank h P∗ h := by
  intro w hw
  obtain ⟨ws,rfl,hws⟩ := Language.mem_kstar.mp hw
  clear hw
  induction ws with
  | nil => exact ⟨trivial,rfl⟩
  | cons v ws ih =>
    have hv := hP v (hws v List.mem_cons_self)
    have hrest := ih fun u hu => hws u (List.mem_cons_of_mem v hu)
    rw [List.flatten_cons,ordered_append,after_append,hv.2]
    exact ⟨⟨hv.1,hrest.1⟩,hrest.2⟩

theorem passes_iSup {ι : Type*} {F : ι → Code L} (hF : ∀ i, Passes rank h (F i) h') :
    Passes rank h (⨆ i, F i) h' := by
  intro w hw
  obtain ⟨i,hi⟩ := Language.mem_iSup.mp hw
  exact hF i w hi

theorem passes_lock {l : L} (hl : ∀ k ∈ h, rank k < rank l) : Passes rank h (lock l) (l :: h) := by
  intro w hw
  rw [Set.mem_singleton_iff.mp hw]
  exact ⟨⟨hl,trivial⟩,rfl⟩

theorem passes_unlock {l : L} : Passes rank (l :: h) (unlock l) h := by
  intro w hw
  rw [Set.mem_singleton_iff.mp hw]
  exact ⟨⟨List.mem_cons_self,trivial⟩,List.erase_cons_head l h⟩

theorem passes_wait {l : L} (hl : ∀ k ∈ h, rank k < rank l) :
    Passes rank (l :: h) (wait l) (l :: h) := by
  intro w hw
  rw [Set.mem_singleton_iff.mp hw]
  simp only [Ordered,after,List.erase_cons_head]
  exact ⟨⟨List.mem_cons_self,hl,trivial⟩,trivial⟩

end

/-- A program that can be called while mutexes below the rank `r` are held, and returns with
the same ones. -/
def Keeps (rank : L → ℕ) (r : ℕ) (P : Code L) : Prop :=
  ∀ h, (∀ k ∈ h, rank k < r) → Passes rank h P h

section
variable {rank : L → ℕ} {r : ℕ} {P Q : Code L}

theorem keeps_one : Keeps rank r 1 := fun _ _ => passes_one

theorem Keeps.mul (hP : Keeps rank r P) (hQ : Keeps rank r Q) : Keeps rank r (P * Q) :=
  fun h hh => (hP h hh).mul (hQ h hh)

theorem Keeps.add (hP : Keeps rank r P) (hQ : Keeps rank r Q) : Keeps rank r (P + Q) :=
  fun h hh => (hP h hh).add (hQ h hh)

theorem Keeps.kstar (hP : Keeps rank r P) : Keeps rank r P∗ :=
  fun h hh => (hP h hh).kstar

theorem keeps_iSup {ι : Type*} {F : ι → Code L} (hF : ∀ i, Keeps rank r (F i)) :
    Keeps rank r (⨆ i, F i) :=
  fun h hh => passes_iSup fun i => hF i h hh

theorem keeps_scope {l : L} (hl : r ≤ rank l) (hP : Keeps rank (rank l + 1) P) :
    Keeps rank r (scope l P) := by
  intro h hh
  have hlock : ∀ k ∈ h, rank k < rank l := fun k hk => (hh k hk).trans_le hl
  refine ((passes_lock hlock).mul (hP (l :: h) fun k hk => ?_)).mul passes_unlock
  rcases List.mem_cons.mp hk with rfl | hk
  · omega
  · exact Nat.lt_succ_of_lt (hlock k hk)

/-- A block with waits in it. -/
theorem keeps_waits {l : L} {W : Code L} (hl : r ≤ rank l)
    (hW : ∀ h, (∀ k ∈ h, rank k < rank l) → Passes rank (l :: h) W (l :: h)) :
    Keeps rank r (scope l W) := by
  intro h hh
  have hlock : ∀ k ∈ h, rank k < rank l := fun k hk => (hh k hk).trans_le hl
  exact ((passes_lock hlock).mul (hW h hlock)).mul passes_unlock

end

/-! ### Threads -/

/-- What each thread has done with mutexes, and the one it wants next, if it waits for one. -/
structure State (T L : Type*) where
  past : T → List (Act L)
  want : T → Option L

namespace State

def new : State T L := ⟨fun _ => [],fun _ => none⟩

def held (s : State T L) (t : T) : List L := after [] (s.past t)

variable [DecidableEq T]

def request (s : State T L) (t : T) (l : L) : State T L :=
  { s with want := Function.update s.want t (some l) }

def act (s : State T L) (t : T) (a : Act L) : State T L where
  past := Function.update s.past t (s.past t ++ [a])
  want := Function.update s.want t none

end State

inductive Event (T L : Type*)
  | request (t : T) (l : L)
  | acquire (t : T) (l : L)
  | release (t : T) (l : L)

/-- The threads of the set wait for each other, or for themselves. -/
def Deadlocked (s : State T L) (S : Set T) : Prop :=
  S.Nonempty ∧ ∀ t ∈ S, ∃ l, s.want t = some l ∧ ∃ u ∈ S, l ∈ s.held u

/-- A mutex that is wanted comes next in the thread's program. -/
def Follows (code : T → Code L) (s : State T L) : Prop :=
  ∀ t l, s.want t = some l → ∃ rest, s.past t ++ .acquire l :: rest ∈ code t

section
variable {code : T → Code L} {rank : L → ℕ} {s : State T L}

/-- What a thread holds ranks below what it wants. -/
theorem rank_lt (hcode : ∀ t, Keeps rank 0 (code t)) (h : Follows code s) {t : T} {k l : L}
    (hwant : s.want t = some l) (hheld : k ∈ s.held t) : rank k < rank l := by
  obtain ⟨rest,hrest⟩ := h t l hwant
  have hord := (hcode t [] (fun _ hk => absurd hk List.not_mem_nil) _ hrest).1
  exact (ordered_append.mp hord).2.1 k hheld

/-- A set of threads that wait for each other would want mutexes of every rank. -/
theorem not_deadlocked {n : ℕ} (hrank : ∀ l, rank l < n) (hcode : ∀ t, Keeps rank 0 (code t))
    (h : Follows code s) (S : Set T) : ¬ Deadlocked s S := by
  rintro ⟨⟨t,ht⟩,hwait⟩
  have hwants : ∀ m, ∃ u ∈ S, ∃ l, s.want u = some l ∧ m ≤ rank l := by
    intro m
    induction m with
    | zero =>
      obtain ⟨l,hl,-⟩ := hwait t ht
      exact ⟨t,ht,l,hl,Nat.zero_le _⟩
    | succ m ih =>
      obtain ⟨u,hu,l,hl,hm⟩ := ih
      obtain ⟨l',hl',v,hv,hheld⟩ := hwait u hu
      rw [hl,Option.some_inj] at hl'
      obtain ⟨k,hk,-⟩ := hwait v hv
      have hlt := rank_lt hcode h hk (hl' ▸ hheld)
      exact ⟨v,hv,k,hk,by omega⟩
  obtain ⟨u,-,l,-,hn⟩ := hwants n
  have hlt := hrank l
  omega

end

section
variable [DecidableEq T]

/-- A thread goes on as one of the words of its program says. It gets the mutex it wants only when
no thread holds it, itself included. -/
inductive Step (code : T → Code L) : State T L → Event T L → State T L → Prop
  | request {s t l} (hwant : s.want t = none)
      (hcode : ∃ rest, s.past t ++ .acquire l :: rest ∈ code t) :
      Step code s (.request t l) (s.request t l)
  | acquire {s t l} (hwant : s.want t = some l) (hfree : ∀ u, l ∉ s.held u) :
      Step code s (.acquire t l) (s.act t (.acquire l))
  | release {s t l} (hwant : s.want t = none)
      (hcode : ∃ rest, s.past t ++ .release l :: rest ∈ code t) :
      Step code s (.release t l) (s.act t (.release l))

variable {code : T → Code L} {s s' : State T L} {e : Event T L}

omit [DecidableEq L] in
theorem follows_act (h : Follows code s) (t : T) (a : Act L) : Follows code (s.act t a) := by
  intro u l hwant
  by_cases hu : u = t
  · subst hu
    simp [State.act] at hwant
  · simp only [State.act,Function.update_of_ne hu] at hwant ⊢
    exact h u l hwant

theorem follows_step (h : Follows code s) (hstep : Step code s e s') : Follows code s' := by
  cases hstep with
  | @request t l hwant hcode =>
    intro u k hk
    by_cases hu : u = t
    · subst hu
      simp only [State.request,Function.update_self,Option.some_inj] at hk ⊢
      exact hk ▸ hcode
    · simp only [State.request,Function.update_of_ne hu] at hk ⊢
      exact h u k hk
  | @acquire t l hwant hfree => exact follows_act h t _
  | @release t l hwant hcode => exact follows_act h t _

theorem follows_run {es : List (Event T L)} (h : Lts.Run (Step code) .new es s) :
    Follows code s :=
  h.invariant (fun _ _ _ hs hstep => follows_step hs hstep) nofun

end
end
end LockOrder
