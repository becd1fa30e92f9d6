import CcniServer.Lib.Lts
import Mathlib.Algebra.BigOperators.Group.Finset.Piecewise
import Mathlib.Data.Fintype.Card
import Mathlib.Logic.Function.Basic

/-!
The read/write mutex, with any number of threads. The operations run under `_state_change`, which
`pthread_cond_wait` releases; a thread that sleeps may wake without a broadcast. Nothing keeps a
thread from taking the read lock again while it holds it.
-/
namespace CcniServer
namespace CReadWriteMutex

structure state_data where
  shared_count : UInt32
  exclusive : Bool
  exclusive_waiting_blocked : Bool

/-- A thread is in its own code, or sleeps in `lockRead` or `lockWrite`; it is notified where a
broadcast has come since. -/
inductive Place
  | running
  | shared_cond (notified : Bool)
  | exclusive_cond (notified : Bool)
  deriving DecidableEq

/-- A broadcast on both conditions. -/
def Place.notify : Place → Place
  | .running => .running
  | .shared_cond _ => .shared_cond true
  | .exclusive_cond _ => .exclusive_cond true

inductive Event (ι : Type*)
  | lockRead (i : ι)
  | unlockRead (i : ι)
  | lockWrite (i : ι)
  | unlockWrite (i : ι)
  | wake (i : ι)

end CReadWriteMutex

/-- The state with the threads: where they are, how often each holds the read lock, and which of
them holds the write lock. -/
structure CReadWriteMutex (ι : Type*) extends CReadWriteMutex.state_data where
  place : ι → CReadWriteMutex.Place
  reads : ι → ℕ
  writes : ι → Bool

namespace CReadWriteMutex
variable {ι : Type*}

def new : CReadWriteMutex ι := ⟨⟨0,false,false⟩,fun _ => .running,fun _ => 0,fun _ => false⟩

def releaseWaiters (s : CReadWriteMutex ι) : CReadWriteMutex ι :=
  { s with place := fun i => (s.place i).notify }

section
variable [DecidableEq ι]

def goTo (s : CReadWriteMutex ι) (i : ι) (p : Place) : CReadWriteMutex ι :=
  { s with place := Function.update s.place i p }

/-- Once around the loop of `lockRead`. -/
def lockRead (s : CReadWriteMutex ι) (i : ι) : CReadWriteMutex ι :=
  if s.exclusive || s.exclusive_waiting_blocked then s.goTo i (.shared_cond false)
  else
    { s with
      shared_count := s.shared_count + 1
      reads := Function.update s.reads i (s.reads i + 1) }.goTo i .running

def unlockRead (s : CReadWriteMutex ι) (i : ι) : CReadWriteMutex ι :=
  let s := { s with
    shared_count := s.shared_count - 1
    reads := Function.update s.reads i (s.reads i - 1) }
  if s.shared_count = 0 then { s with exclusive_waiting_blocked := false }.releaseWaiters else s

/-- Once around the loop of `lockWrite`. -/
def lockWrite (s : CReadWriteMutex ι) (i : ι) : CReadWriteMutex ι :=
  if s.shared_count ≠ 0 || s.exclusive then
    { s with exclusive_waiting_blocked := true }.goTo i (.exclusive_cond false)
  else
    { s with
      exclusive := true
      writes := Function.update s.writes i true }.goTo i .running

def unlockWrite (s : CReadWriteMutex ι) (i : ι) : CReadWriteMutex ι :=
  { s with
    exclusive := false
    exclusive_waiting_blocked := false
    writes := Function.update s.writes i false }.releaseWaiters

/-- A thread that woke up goes around its loop again. -/
def wake (s : CReadWriteMutex ι) (i : ι) : CReadWriteMutex ι :=
  match s.place i with
  | .running => s
  | .shared_cond _ => s.lockRead i
  | .exclusive_cond _ => s.lockWrite i

def act (s : CReadWriteMutex ι) : Event ι → CReadWriteMutex ι
  | .lockRead i => s.lockRead i
  | .unlockRead i => s.unlockRead i
  | .lockWrite i => s.lockWrite i
  | .unlockWrite i => s.unlockWrite i
  | .wake i => s.wake i

/-- A thread that runs may lock, and unlock what it holds; one that sleeps may wake up. -/
def Enabled (s : CReadWriteMutex ι) : Event ι → Prop
  | .lockRead i => s.place i = .running
  | .unlockRead i => s.place i = .running ∧ 0 < s.reads i
  | .lockWrite i => s.place i = .running
  | .unlockWrite i => s.place i = .running ∧ s.writes i = true
  | .wake i => s.place i ≠ .running

def Step (s : CReadWriteMutex ι) (e : Event ι) (t : CReadWriteMutex ι) : Prop :=
  s.Enabled e ∧ s.act e = t

end

def Holds (s : CReadWriteMutex ι) (i : ι) : Prop := 0 < s.reads i ∨ s.writes i = true

/-- A thread sleeps, and nothing has come to wake it. -/
def Stranded (s : CReadWriteMutex ι) (i : ι) : Prop :=
  s.place i = .shared_cond false ∨ s.place i = .exclusive_cond false

section
variable [Fintype ι]

/-- The threads that hold the read lock. -/
def readers (s : CReadWriteMutex ι) : Finset ι := Finset.univ.filter (fun i => 0 < s.reads i)

/-- The read locks that are held, a thread's as often as it has taken it. -/
def held (s : CReadWriteMutex ι) : ℕ := ∑ i, s.reads i

/-- An `unsigned int` can count one more read lock. -/
def HasRoom (s : CReadWriteMutex ι) : Event ι → Prop
  | .lockRead _ => s.held + 1 < 2^32
  | .wake i => ∀ b, s.place i = .shared_cond b → s.held + 1 < 2^32
  | _ => True

instance (s : CReadWriteMutex ι) : DecidablePred s.HasRoom
  | .lockRead _ => inferInstanceAs (Decidable (_ < _))
  | .wake _ => inferInstanceAs (Decidable (∀ _ : Bool, _ → _))
  | .unlockRead _ => inferInstanceAs (Decidable True)
  | .lockWrite _ => inferInstanceAs (Decidable True)
  | .unlockWrite _ => inferInstanceAs (Decidable True)

structure Inv (s : CReadWriteMutex ι) : Prop where
  count : s.shared_count.toNat = s.held
  writer : s.exclusive = true ↔ ∃ i, s.writes i = true
  unique : ∀ i j, s.writes i = true → s.writes j = true → i = j
  excludes : s.exclusive = true → s.held = 0
  blocked : s.exclusive_waiting_blocked = true → 0 < s.held ∨ s.exclusive = true
  shared : ∀ i, s.place i = .shared_cond false →
    s.exclusive = true ∨ s.exclusive_waiting_blocked = true
  exclusive_cond : ∀ i, s.place i = .exclusive_cond false → 0 < s.held ∨ s.exclusive = true

end

section
variable {s t : CReadWriteMutex ι} {i j : ι} {p : Place}

theorem notify_ne (p : Place) :
    p.notify ≠ .shared_cond false ∧ p.notify ≠ .exclusive_cond false := by
  cases p <;> simp [Place.notify]

section
variable [Fintype ι]

theorem held_pos : 0 < s.held ↔ ∃ i, 0 < s.reads i := by
  simp [held,Nat.pos_iff_ne_zero,Finset.sum_eq_zero_iff]

/-- Where nobody has the lock twice, the locks are as many as the readers. -/
theorem held_eq_card (h : ∀ i, s.reads i ≤ 1) : s.held = s.readers.card := by
  rw [held,readers,Finset.card_filter]
  refine Finset.sum_congr rfl fun i _ => ?_
  have hi := h i
  split_ifs <;> omega

theorem new_inv : Inv (new : CReadWriteMutex ι) where
  count := by simp [new,held]
  writer := by simp [new]
  unique i j hi := by simp [new] at hi
  excludes h := by simp [new] at h
  blocked h := by simp [new] at h
  shared i h := by simp [new] at h
  exclusive_cond i h := by simp [new] at h

theorem Inv.count_zero (h : Inv s) : s.shared_count = 0 ↔ s.held = 0 := by
  rw [← UInt32.toNat_inj,h.count]
  rfl

theorem Inv.no_writer (h : Inv s) (hexclusive : s.exclusive = false) (j : ι) :
    s.writes j = false := by
  by_contra hj
  have htrue := h.writer.mpr ⟨j,by simpa using hj⟩
  rw [hexclusive] at htrue
  cases htrue

/-- Somebody holds the lock where it is not free. -/
theorem Inv.holds (h : Inv s) (hheld : 0 < s.held ∨ s.exclusive = true) : ∃ i, s.Holds i := by
  rcases hheld with hpos | he
  · obtain ⟨i,hi⟩ := held_pos.mp hpos
    exact ⟨i,.inl hi⟩
  · obtain ⟨i,hi⟩ := h.writer.mp he
    exact ⟨i,.inr hi⟩

theorem Inv.not_stranded (h : Inv s) (hfree : ∀ i, ¬ s.Holds i) (i : ι) : ¬ s.Stranded i := by
  have hnot : ¬ (0 < s.held ∨ s.exclusive = true) := by
    intro hheld
    obtain ⟨j,hj⟩ := h.holds hheld
    exact hfree j hj
  rintro (hi | hi)
  · rcases h.shared i hi with he | hb
    · exact hnot (.inr he)
    · exact hnot (h.blocked hb)
  · exact hnot (h.exclusive_cond i hi)

/-- Where the lock is free and everybody is told, nobody is stranded. -/
theorem Inv.release (hcount : s.shared_count.toNat = s.held) (hfree : s.held = 0)
    (hexclusive : s.exclusive = false) (hwrites : ∀ j, s.writes j = false) :
    Inv { s with exclusive_waiting_blocked := false }.releaseWaiters where
  count := hcount
  writer := by simp [releaseWaiters,hexclusive,hwrites]
  unique j k hj := by simp [releaseWaiters,hwrites] at hj
  excludes _ := hfree
  blocked hb := by simp [releaseWaiters] at hb
  shared j hj := absurd hj (notify_ne _).1
  exclusive_cond j hj := absurd hj (notify_ne _).2

end

variable [DecidableEq ι]

@[simp] theorem place_goTo : (s.goTo i p).place j = if j = i then p else s.place j :=
  Function.update_apply _ _ _ _

variable [Fintype ι]

/-- The locks that are held, once one thread holds another number. -/
theorem sum_update (f : ι → ℕ) (i : ι) (n : ℕ) :
    ∑ j, Function.update f i n j + f i = ∑ j, f j + n := by
  rw [Finset.sum_update_of_mem (Finset.mem_univ i),
    ← Finset.sum_sdiff (Finset.singleton_subset_iff.mpr (Finset.mem_univ i)),Finset.sum_singleton]
  omega

/-- A thread goes to sleep, or back to its own code. -/
theorem Inv.goTo (h : Inv s)
    (hshared : p = .shared_cond false → s.exclusive = true ∨ s.exclusive_waiting_blocked = true)
    (hexclusive : p = .exclusive_cond false → 0 < s.held ∨ s.exclusive = true) :
    Inv (s.goTo i p) where
  count := h.count
  writer := h.writer
  unique := h.unique
  excludes := h.excludes
  blocked := h.blocked
  shared j hj := by
    rw [place_goTo] at hj
    split_ifs at hj with hji
    · exact hshared hj
    · exact h.shared j hj
  exclusive_cond j hj := by
    rw [place_goTo] at hj
    split_ifs at hj with hji
    · exact hexclusive hj
    · exact h.exclusive_cond j hj

theorem Inv.run (h : Inv s) (i : ι) : Inv (s.goTo i .running) := by
  apply h.goTo <;> intros <;> contradiction

theorem lockRead_inv (h : Inv s) (hroom : s.held + 1 < 2^32) : Inv (s.lockRead i) := by
  unfold lockRead
  split_ifs with hwait
  · rw [Bool.or_eq_true] at hwait
    exact h.goTo (fun _ => hwait) (by simp)
  · simp only [Bool.or_eq_true,not_or,Bool.not_eq_true] at hwait
    have hrun := h.run i
    have hheld : ∑ j, Function.update s.reads i (s.reads i + 1) j = s.held + 1 := by
      have hsum := sum_update s.reads i (s.reads i + 1)
      unfold held
      omega
    have hpos : 0 < ∑ j, Function.update s.reads i (s.reads i + 1) j := by omega
    refine ⟨?_,hrun.writer,hrun.unique,fun he => absurd he (by simp [goTo,hwait.1]),
      fun _ => .inl hpos,hrun.shared,fun _ _ => .inl hpos⟩
    change (s.shared_count + 1).toNat = ∑ j, Function.update s.reads i (s.reads i + 1) j
    rw [hheld,UInt32.toNat_add,h.count]
    exact Nat.mod_eq_of_lt hroom

theorem lockWrite_inv (h : Inv s) : Inv (s.lockWrite i) := by
  unfold lockWrite
  split_ifs with hwait
  · have hheld : 0 < s.held ∨ s.exclusive = true := by
      simpa [h.count_zero,Nat.pos_iff_ne_zero] using hwait
    have hblocked : Inv { s with exclusive_waiting_blocked := true } :=
      ⟨h.count,h.writer,h.unique,h.excludes,fun _ => hheld,fun _ _ => .inr rfl,h.exclusive_cond⟩
    exact hblocked.goTo (by simp) (fun _ => hheld)
  · have hfree : s.held = 0 ∧ s.exclusive = false := by
      simpa [h.count_zero] using hwait
    have hnone := h.no_writer hfree.2
    have hrun := h.run i
    have hone : ∀ j, Function.update s.writes i true j = true → j = i := by
      intro j hj
      by_contra hji
      rw [Function.update_of_ne hji,hnone j] at hj
      cases hj
    refine ⟨hrun.count,?_,fun j k hj hk => (hone j hj).trans (hone k hk).symm,fun _ => hfree.1,
      fun _ => .inr rfl,fun _ _ => .inl rfl,fun _ _ => .inr rfl⟩
    exact iff_of_true rfl ⟨i,Function.update_self _ _ _⟩

theorem unlockRead_inv (h : Inv s) (hi : 0 < s.reads i) : Inv (s.unlockRead i) := by
  have hpos : 0 < s.held := held_pos.mpr ⟨i,hi⟩
  have hexclusive : s.exclusive = false := by
    by_contra he
    have hzero := h.excludes (by simpa using he)
    omega
  have hwrites := h.no_writer hexclusive
  have hheld : ∑ j, Function.update s.reads i (s.reads i - 1) j = s.held - 1 := by
    have hsum := sum_update s.reads i (s.reads i - 1)
    unfold held at hpos ⊢
    omega
  have hcount : (s.shared_count - 1).toNat =
      ∑ j, Function.update s.reads i (s.reads i - 1) j := by
    rw [hheld,UInt32.toNat_sub_of_le _ _ (UInt32.le_iff_toNat_le.mpr (h.count ▸ hpos)),h.count]
    rfl
  have hlast : s.shared_count - 1 = 0 ↔ ∑ j, Function.update s.reads i (s.reads i - 1) j = 0 := by
    rw [← hcount,← UInt32.toNat_inj]
    rfl
  unfold unlockRead
  dsimp only
  split_ifs with hzero
  · exact Inv.release (s := { s with
      shared_count := s.shared_count - 1, reads := Function.update s.reads i (s.reads i - 1) })
      hcount (hlast.mp hzero) hexclusive hwrites
  · have hmore : 0 < ∑ j, Function.update s.reads i (s.reads i - 1) j :=
      Nat.pos_of_ne_zero fun h0 => hzero (hlast.mpr h0)
    exact ⟨hcount,h.writer,h.unique,fun he => absurd he (by simp [hexclusive]),
      fun _ => .inl hmore,h.shared,fun _ _ => .inl hmore⟩

theorem unlockWrite_inv (h : Inv s) (hi : s.writes i = true) : Inv (s.unlockWrite i) := by
  have hfree : s.held = 0 := h.excludes (h.writer.mpr ⟨i,hi⟩)
  have hwrites : ∀ j, Function.update s.writes i false j = false := by
    intro j
    by_cases hji : j = i
    · rw [hji,Function.update_self]
    · rw [Function.update_of_ne hji]
      by_contra hj
      exact hji (h.unique j i (by simpa using hj) hi)
  exact Inv.release (s := { s with
    exclusive := false, writes := Function.update s.writes i false }) h.count hfree rfl hwrites

theorem step_inv {e : Event ι} (h : Inv s) (hroom : s.HasRoom e) (hs : Step s e t) : Inv t := by
  obtain ⟨henabled,rfl⟩ := hs
  cases e with
  | lockRead i => exact lockRead_inv h hroom
  | unlockRead i => exact unlockRead_inv h henabled.2
  | lockWrite i => exact lockWrite_inv h
  | unlockWrite i => exact unlockWrite_inv h henabled.2
  | wake i =>
    simp only [act,wake]
    split
    · exact h
    · next b hplace => exact lockRead_inv h (hroom b hplace)
    · exact lockWrite_inv h

end

/-- The state after a thread has taken the read lock so many times. -/
def reading [DecidableEq ι] (i : ι) (n : ℕ) : CReadWriteMutex ι :=
  { (new : CReadWriteMutex ι) with
    shared_count := .ofNat n
    reads := Function.update (fun _ => 0) i n }

theorem run_reading [DecidableEq ι] (i : ι) (n : ℕ) :
    Lts.Run Step new (List.replicate n (.lockRead i)) (reading i n) := by
  induction n with
  | zero =>
    have hnew : reading i 0 = new := by
      rw [reading,Function.update_eq_self_iff.mpr rfl]
      rfl
    rw [hnew]
    exact .nil _
  | succ n ih =>
    have hact : (reading i n).act (.lockRead i) = reading i (n + 1) := by
      simp [act,lockRead,goTo,reading,new,UInt32.ofNat_add]
    rw [List.replicate_succ']
    exact ih.append (.cons ⟨rfl,hact⟩ (.nil _))

/-- A thread that takes the read lock twice counts twice, and one that takes it until the count is
back at zero lets a writer in. -/
theorem lockRead_again :
    (∃ s : CReadWriteMutex Bool, Lts.Run Step new [.lockRead false,.lockRead false] s ∧
      s.shared_count = 2 ∧ s.readers.card = 1) ∧
    ∃ s : CReadWriteMutex Bool,
      Lts.Run Step new (List.replicate (2^32) (.lockRead false) ++ [.lockWrite true]) s ∧
      0 < s.reads false ∧ s.writes true = true := by
  refine ⟨⟨_,.cons ⟨rfl,rfl⟩ (.cons ⟨rfl,rfl⟩ (.nil _)),rfl,rfl⟩,?_⟩
  have hfree : ((reading false (2^32) : CReadWriteMutex Bool).shared_count ≠ 0 ||
      (reading false (2^32) : CReadWriteMutex Bool).exclusive) = false := by decide
  refine ⟨_,(run_reading false (2^32)).append (.cons ⟨rfl,rfl⟩ (.nil _)),?_,?_⟩
  · simp only [act,lockWrite,hfree,Bool.false_eq_true,if_false]
    exact Nat.two_pow_pos 32
  · simp only [act,lockWrite,hfree,Bool.false_eq_true,if_false]
    rfl

variable [Fintype ι] [DecidableEq ι] {es : List (Event ι)} {s : CReadWriteMutex ι}

theorem run_inv (h : Lts.Run Step new es s) (hroom : Lts.Meets Step HasRoom new es) : Inv s :=
  h.invariant_of_meets (fun _ _ _ hs hr ht => step_inv hs hr ht) hroom new_inv

theorem meets_act {e : Event ι} (hroom : s.HasRoom e) (h : Lts.Meets Step HasRoom (s.act e) es) :
    Lts.Meets Step HasRoom s (e :: es) := by
  refine ⟨hroom,?_⟩
  rintro _ ⟨-,rfl⟩
  exact h

/-- Readers and a writer exclude each other, and no thread is left asleep, as long as the count
holds all the read locks: a thread's as often as it has taken it. -/
theorem excludes_and_wakes (h : Lts.Run Step new es s) (hroom : Lts.Meets Step HasRoom new es) :
    s.shared_count.toNat = s.held ∧
    ((∀ i, s.reads i ≤ 1) → s.shared_count.toNat = s.readers.card) ∧
    (∀ i j, s.writes i = true → s.writes j = true → i = j) ∧
    (∀ i, s.writes i = true → s.shared_count = 0) ∧
    (s.exclusive_waiting_blocked = true → ∃ i, s.Holds i) ∧
    (∀ i, s.place i = .shared_cond false →
      s.exclusive = true ∨ s.exclusive_waiting_blocked = true) ∧
    (∀ i, s.place i = .exclusive_cond false → 0 < s.shared_count ∨ s.exclusive = true) ∧
    ((∀ i, ¬ s.Holds i) → ∀ i, ¬ s.Stranded i) := by
  have hinv := run_inv h hroom
  have hpos : 0 < s.held → 0 < s.shared_count := by
    intro hheld
    rw [← hinv.count] at hheld
    exact UInt32.lt_iff_toNat_lt.mpr hheld
  exact ⟨hinv.count,fun hone => hinv.count.trans (held_eq_card hone),hinv.unique,
    fun i hi => hinv.count_zero.mpr (hinv.excludes (hinv.writer.mpr ⟨i,hi⟩)),
    fun hb => hinv.holds (hinv.blocked hb),hinv.shared,
    fun i hi => (hinv.exclusive_cond i hi).imp_left hpos,hinv.not_stranded⟩

/-- A thread reads twice, a writer waits for it, and both are done. -/
theorem excludes_and_wakes_two : ∃ s : CReadWriteMutex Bool, Lts.Run Step new
    [.lockRead false,.lockRead false,.lockWrite true,.unlockRead false,.unlockRead false,
      .wake true,.unlockWrite true] s ∧ (∀ i, ¬ s.Holds i) ∧ ∀ i, ¬ s.Stranded i := by
  have hrun : Lts.Run Step (new : CReadWriteMutex Bool)
      [.lockRead false,.lockRead false,.lockWrite true,.unlockRead false,.unlockRead false,
        .wake true,.unlockWrite true] _ :=
    .cons ⟨rfl,rfl⟩ (.cons ⟨rfl,rfl⟩ (.cons ⟨rfl,rfl⟩ (.cons ⟨⟨rfl,by decide⟩,rfl⟩
      (.cons ⟨⟨rfl,by decide⟩,rfl⟩ (.cons ⟨Place.noConfusion,rfl⟩
        (.cons ⟨⟨rfl,rfl⟩,rfl⟩ (.nil _)))))))
  have hroom : Lts.Meets Step HasRoom (new : CReadWriteMutex Bool)
      [.lockRead false,.lockRead false,.lockWrite true,.unlockRead false,.unlockRead false,
        .wake true,.unlockWrite true] :=
    meets_act (by decide) (meets_act (by decide) (meets_act trivial (meets_act trivial
      (meets_act trivial (meets_act (by decide) (meets_act trivial trivial))))))
  obtain ⟨-,-,-,-,-,-,-,hfree⟩ := excludes_and_wakes hrun hroom
  refine ⟨_,hrun,?_,hfree ?_⟩ <;> rintro (_ | _) (hi | hi) <;> cases hi

end CReadWriteMutex
end CcniServer
