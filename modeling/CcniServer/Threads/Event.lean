import Mathlib.Tactic.NormNum
import Mathlib.Data.Int.Notation

/-!
Timed waits: the deadline that `CEvent::wait` passes on, and when `CCMsgQueue::receive` gives up.
-/
namespace CcniServer

/-- What `gettimeofday` answers. -/
structure Timeval where
  tv_sec : ℤ
  tv_usec : ℤ
  tv_usec_range : 0 ≤ tv_usec ∧ tv_usec < 1000000

structure Timespec where
  tv_sec : ℤ
  tv_nsec : ℤ
  deriving DecidableEq

def Timeval.micros (now : Timeval) : ℤ := now.tv_sec * 10^6 + now.tv_usec

def Timespec.nanos (t : Timespec) : ℤ := t.tv_sec * 10^9 + t.tv_nsec

/-- The time that lies a number of milliseconds ahead. -/
def Timeval.after (now : Timeval) (millisecond : ℤ) : ℤ := (now.micros + millisecond * 1000) * 1000

namespace CEvent

/-- The sum that is tested for a carry. -/
def usecSum (now : Timeval) (millisecond : ℤ) : ℤ := now.tv_usec + millisecond.tmod 1000 * 1000

/-- The deadline. The seconds are copied before the carry is added to them, and the milliseconds
below a second count only where there is a carry. -/
def timeout (now : Timeval) (millisecond : ℤ) : Timespec :=
  let tv_sec := now.tv_sec + millisecond.tdiv 1000
  let tv_usec :=
    if usecSum now millisecond > 1000000 then (usecSum now millisecond).tmod 1000000
    else now.tv_usec
  ⟨tv_sec,tv_usec * 1000⟩

/-- What `wait` passes on, nothing where it waits without a limit. -/
def wait (now : Timeval) (millisecond : ℤ) : Option Timespec :=
  if millisecond > 0 then some (timeout now millisecond) else none

section
variable {millisecond : ℤ} (now : Timeval) (h : 0 < millisecond)
include h

theorem usecSum_eq : usecSum now millisecond = now.tv_usec + millisecond % 1000 * 1000 := by
  rw [usecSum,Int.tmod_eq_emod_of_nonneg h.le]

theorem usecSum_range : 0 ≤ usecSum now millisecond ∧ usecSum now millisecond < 2000000 := by
  have hnow := now.tv_usec_range
  rw [usecSum_eq now h]
  omega

/-- By how much the deadline is too early. -/
theorem timeout_shortfall : now.after millisecond - (timeout now millisecond).nanos =
    if usecSum now millisecond > 1000000 then 10^9 else millisecond % 1000 * 10^6 := by
  have hsum := usecSum_eq now h
  have hrange := usecSum_range now h
  have hdiv : millisecond.tdiv 1000 = millisecond / 1000 := Int.tdiv_eq_ediv_of_nonneg h.le
  unfold Timeval.after Timeval.micros Timespec.nanos timeout
  split_ifs with hcarry
  · have hmod := Int.tmod_eq_emod_of_nonneg (b := 1000000) hrange.1
    simp only [hdiv,hmod]
    omega
  · simp only [hdiv]
    omega

theorem tv_nsec_range :
    0 ≤ (timeout now millisecond).tv_nsec ∧ (timeout now millisecond).tv_nsec < 10^9 := by
  have hnow := now.tv_usec_range
  have hrange := usecSum_range now h
  unfold timeout
  split_ifs with hcarry
  · have hmod := Int.tmod_eq_emod_of_nonneg (b := 1000000) hrange.1
    simp only [hmod]
    omega
  · dsimp only
    omega

/-- A whole number of seconds leaves no carry. -/
theorem timeout_exact_iff :
    (timeout now millisecond).nanos = now.after millisecond ↔ millisecond % 1000 = 0 := by
  have hnow := now.tv_usec_range
  have hsum := usecSum_eq now h
  have hshort := timeout_shortfall now h
  split_ifs at hshort <;> omega

/-- The deadline is never too late. -/
theorem timeout_le : (timeout now millisecond).nanos ≤ now.after millisecond := by
  have hshort := timeout_shortfall now h
  split_ifs at hshort <;> omega

end
end CEvent

/-! ### The queue -/

/-- How a wait ends: the messages that were sent meanwhile, and the clock where it timed out. -/
structure Woken (α : Type) where
  data : List α
  timedout : Option ℤ

/-- A wait times out when the clock has reached its deadline, and never without one. -/
def Woken.Possible {α : Type} (w : Woken α) (timeout : Option Timespec) : Prop :=
  ∀ clock, w.timedout = some clock → ∃ t, timeout = some t ∧ t.nanos ≤ clock

structure CCMsgQueue (α : Type) where
  data : List α

def CCMsgQueue.send {α : Type} (q : CCMsgQueue α) (buf : α) : Bool × CCMsgQueue α :=
  (true,⟨q.data ++ [buf]⟩)

/-- `receive` waits once where the queue is empty; without a message then it gives up. -/
def CCMsgQueue.receive {α : Type} (q : CCMsgQueue α) (w : Woken α) : Option α × CCMsgQueue α :=
  let data := if q.data.isEmpty then w.data else q.data
  match data with
  | [] => (none,⟨[]⟩)
  | p :: data => (some p,⟨data⟩)

/-- A time-out that comes before its time and ends `receive` without a message. -/
def CCMsgQueue.GivesUpEarly (α : Type) (now : Timeval) (millisecond : ℤ) : Prop :=
  ∃ (q : CCMsgQueue α) (w : Woken α) (clock : ℤ), w.Possible (CEvent.wait now millisecond) ∧
    (q.receive w).1 = none ∧ w.timedout = some clock ∧ clock < now.after millisecond

theorem CCMsgQueue.givesUpEarly_iff {α : Type} {now : Timeval} {millisecond : ℤ}
    (h : 0 < millisecond) : GivesUpEarly α now millisecond ↔
      (CEvent.timeout now millisecond).nanos < now.after millisecond := by
  have hwait : CEvent.wait now millisecond = some (CEvent.timeout now millisecond) := if_pos h
  constructor
  · rintro ⟨q,w,clock,hpossible,-,hout,hearly⟩
    obtain ⟨t,ht,hle⟩ := hpossible clock hout
    cases hwait.symm.trans ht
    exact hle.trans_lt hearly
  · intro hlt
    refine ⟨⟨[]⟩,⟨[],some (CEvent.timeout now millisecond).nanos⟩,_,fun clock hout => ?_,rfl,rfl,hlt⟩
    cases hout
    exact ⟨_,hwait,le_rfl⟩

/-- The deadline is a valid time, exactly the requested one, and `receive` does not give up before
it. -/
structure CEvent.OnTime (α : Type) (now : Timeval) (millisecond : ℤ) : Prop where
  range : 0 ≤ (timeout now millisecond).tv_nsec ∧ (timeout now millisecond).tv_nsec < 10^9
  exact : (timeout now millisecond).nanos = now.after millisecond
  patient : ¬ CCMsgQueue.GivesUpEarly α now millisecond

/-- Only a whole number of seconds is waited for as long as requested. -/
theorem CEvent.onTime_iff (α : Type) (now : Timeval) {millisecond : ℤ} (h : 0 < millisecond) :
    OnTime α now millisecond ↔ millisecond % 1000 = 0 := by
  rw [← timeout_exact_iff now h]
  constructor
  · exact fun hon => hon.exact
  · intro hexact
    refine ⟨tv_nsec_range now h,hexact,?_⟩
    rw [CCMsgQueue.givesUpEarly_iff h,hexact]
    exact lt_irrefl _

theorem CEvent.onTime_second : OnTime ℕ ⟨100,600000,by decide⟩ 1000 :=
  (onTime_iff ℕ ⟨100,600000,by decide⟩ (by decide : (0 : ℤ) < 1000)).mpr (by decide)

/-- A second and a half from 600 milliseconds past. -/
theorem CEvent.early_deadline : ¬ OnTime ℕ ⟨100,600000,by decide⟩ 1500 := by
  intro hon
  exact absurd hon.exact (by decide)

end CcniServer
