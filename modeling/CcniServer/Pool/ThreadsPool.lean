import CcniServer.Lib.Lts
import Mathlib.Algebra.BigOperators.Group.Finset.Basic
import Mathlib.Algebra.Order.Group.Multiset
import Mathlib.Tactic.Abel

/-!
The thread pool: a queue, a thread that hands its jobs to idle workers, and the workers, each with
a slot for one job. A step is a critical section, up to the wait where it has one; a wait that
returns is a step of its own.
-/
namespace CcniServer
variable {Job : Type*}

/-- What a worker does next: enter its critical section, wake up in it (after a broadcast or
without), run a job, or report that it is idle. -/
inductive CWorkThread.Pc (Job : Type*)
  | lock
  | asleep (signalled : Bool)
  | running (j : Job)
  | moveToIdleList

structure CWorkThread (Job : Type*) where
  pc : CWorkThread.Pc Job
  _job : Option Job

/-- What the pool's own thread does next. -/
inductive CThreadsPool.Pc (Job : Type*)
  | receive
  | receiving (signalled : Bool)
  | lock (job : Job)
  | asleep (job : Job) (signalled : Bool)
  | run (job : Job) (w : ℕ)

/-- The pool after `create`, with the jobs that were assigned and the jobs that have returned. -/
structure CThreadsPool (Job : Type*) where
  _threadCount : ℕ
  _queue : List (Option Job)
  _idleList : List ℕ
  _busyList : List ℕ
  worker : ℕ → CWorkThread Job
  pc : CThreadsPool.Pc Job
  assigned : Multiset Job
  ran : Multiset Job

namespace CWorkThread

/-- `_event.signal()`: a broadcast. -/
def signal (w : CWorkThread Job) : CWorkThread Job :=
  match w.pc with
  | .asleep _ => { w with pc := .asleep true }
  | _ => w

/-- `CWorkThread::run`. -/
def run (w : CWorkThread Job) (job : Job) : CWorkThread Job := { w with _job := some job }.signal

/-- The jobs in the slot and in the worker's hands. -/
def slot (w : CWorkThread Job) : Multiset Job := ↑w._job.toList

def beingRun (w : CWorkThread Job) : Multiset Job :=
  match w.pc with
  | .running j => {j}
  | _ => 0

end CWorkThread

namespace CThreadsPool

inductive Undefined
  | emptyFront
  | nullJob
  deriving DecidableEq

/-- A thread calls `assign`, the pool's thread goes on, or a worker does. -/
inductive Event (Job : Type*)
  | assign (jb : Option Job)
  | doWork
  | work (w : ℕ)

def create (cnt : ℕ) : CThreadsPool Job where
  _threadCount := cnt
  _queue := []
  _idleList := List.range cnt
  _busyList := []
  worker := fun _ => ⟨.lock,none⟩
  pc := .receive
  assigned := 0
  ran := 0

def setWorker (s : CThreadsPool Job) (w : ℕ) (th : CWorkThread Job) : CThreadsPool Job :=
  { s with worker := Function.update s.worker w th }

/-- `CCMsgQueue::send`; the pool's thread is the only one that can wait there. -/
def assign (s : CThreadsPool Job) (jb : Option Job) : CThreadsPool Job :=
  { s with
    _queue := s._queue ++ [jb]
    assigned := s.assigned + ↑jb.toList
    pc := match s.pc with
      | .receiving _ => .receiving true
      | p => p }

/-- `CCMsgQueue::receive` with the lock of the queue, at its first look and after every wait. A null
job is dropped. -/
def receive (s : CThreadsPool Job) : CThreadsPool Job :=
  match s._queue with
  | [] => { s with pc := .receiving false }
  | none :: q => { s with _queue := q, pc := .receive }
  | some job :: q => { s with _queue := q, pc := .lock job }

/-- The first idle worker becomes a busy one. -/
def takeIdle (s : CThreadsPool Job) (job : Job) : Except Undefined (CThreadsPool Job) :=
  match s._idleList with
  | [] => .error .emptyFront
  | w :: ws => .ok { s with _idleList := ws, _busyList := s._busyList ++ [w], pc := .run job w }

/-- `CThreadsPool::doWork`. -/
def doWork (s : CThreadsPool Job) : Except Undefined (CThreadsPool Job) :=
  match s.pc with
  | .receive => .ok s.receive
  | .receiving _ => .ok s.receive
  | .lock job => if s._idleList = [] then .ok { s with pc := .asleep job false } else s.takeIdle job
  | .asleep job _ => s.takeIdle job
  | .run job w => .ok { s.setWorker w ((s.worker w).run job) with pc := .receive }

/-- `_event.signal()` of the pool. -/
def signal (s : CThreadsPool Job) : CThreadsPool Job :=
  { s with pc := match s.pc with
      | .asleep job _ => .asleep job true
      | p => p }

def moveToIdleList (s : CThreadsPool Job) (w : ℕ) : CThreadsPool Job :=
  if w ∈ s._busyList then
    { s with _busyList := s._busyList.erase w, _idleList := s._idleList ++ [w] }.signal
  else s

/-- The job in the slot is taken and run. -/
def takeJob (s : CThreadsPool Job) (w : ℕ) : Except Undefined (CThreadsPool Job) :=
  match (s.worker w)._job with
  | none => .error .nullJob
  | some j => .ok (s.setWorker w ⟨.running j,none⟩)

/-- `CWorkThread::doWork`. -/
def work (s : CThreadsPool Job) (w : ℕ) : Except Undefined (CThreadsPool Job) :=
  match (s.worker w).pc with
  | .lock =>
    if (s.worker w)._job.isNone then .ok (s.setWorker w { s.worker w with pc := .asleep false })
    else s.takeJob w
  | .asleep _ => s.takeJob w
  | .running j =>
    .ok { s.setWorker w { s.worker w with pc := .moveToIdleList } with ran := s.ran + {j} }
  | .moveToIdleList => .ok ((s.moveToIdleList w).setWorker w { s.worker w with pc := .lock })

def step (s : CThreadsPool Job) : Event Job → Except Undefined (CThreadsPool Job)
  | .assign jb => .ok (s.assign jb)
  | .doWork => s.doWork
  | .work w => if w < s._threadCount then s.work w else .ok s

/-- The waits for an idle worker and for a job in a slot return after a broadcast only. -/
def Signalled (s : CThreadsPool Job) : Event Job → Prop
  | .assign _ => True
  | .doWork => ∀ job b, s.pc = .asleep job b → b = true
  | .work w => w < s._threadCount → ∀ b, (s.worker w).pc = .asleep b → b = true

/-! ### Where the jobs are -/

def queued (s : CThreadsPool Job) : Multiset Job := ↑(s._queue.filterMap id)

def inHand (s : CThreadsPool Job) : Multiset Job :=
  match s.pc with
  | .lock job => {job}
  | .asleep job _ => {job}
  | .run job _ => {job}
  | _ => 0

def slots (s : CThreadsPool Job) : Multiset Job :=
  ∑ w ∈ Finset.range s._threadCount, (s.worker w).slot

def beingRun (s : CThreadsPool Job) : Multiset Job :=
  ∑ w ∈ Finset.range s._threadCount, (s.worker w).beingRun

/-- Every job is in one place, every worker in one list, no job is written over another, and nobody
sleeps who has something to do and was not told. -/
structure Exact (s : CThreadsPool Job) : Prop where
  jobs : s.assigned = s.queued + s.inHand + s.slots + s.beingRun + s.ran
  lists : (s._idleList ++ s._busyList).Perm (List.range s._threadCount)
  idle : ∀ w ∈ s._idleList, (s.worker w)._job = none
  free : ∀ job w, s.pc = .run job w → (s.worker w)._job = none
  workers : ∀ w j, (s.worker w)._job = some j → (s.worker w).pc ≠ .asleep false
  dispatcher : ∀ job, s.pc = .asleep job false → s._idleList = []
  queue : s.pc = .receiving false → s._queue = []

/-- A worker that waits for a job, or will. -/
def Resting (th : CWorkThread Job) : Prop :=
  th._job = none ∧ (th.pc = .lock ∨ th.pc = .asleep false)

/-- A worker with a job in its slot, or on the way back from one. -/
inductive Working (th : CWorkThread Job) : Prop
  | filled {j : Job} (hjob : th._job = some j) (hpc : th.pc = .lock ∨ th.pc = .asleep true)
  | running {j : Job} (hjob : th._job = none) (hpc : th.pc = .running j)
  | returned (hjob : th._job = none) (hpc : th.pc = .moveToIdleList)

structure Inv (s : CThreadsPool Job) : Prop where
  jobs : s.assigned = s.queued + s.inHand + s.slots + s.beingRun + s.ran
  lists : (s._idleList ++ s._busyList).Perm (List.range s._threadCount)
  idle : ∀ w ∈ s._idleList, Resting (s.worker w)
  handed : ∀ job w, s.pc = .run job w → w ∈ s._busyList ∧ Resting (s.worker w)
  busy : ∀ w ∈ s._busyList, (∀ job, s.pc ≠ .run job w) → Working (s.worker w)
  outside : ∀ w, s._threadCount ≤ w → s.worker w = ⟨.lock,none⟩
  waiting : ∀ job b, s.pc = .asleep job b → (b = true ↔ s._idleList ≠ [])
  queue : s.pc = .receiving false → s._queue = []

section
variable {s : CThreadsPool Job} {w : ℕ} {th : CWorkThread Job}

/-! ### The lists -/

theorem Inv.nodup (h : s.Inv) : (s._idleList ++ s._busyList).Nodup :=
  h.lists.nodup_iff.mpr List.nodup_range

theorem Inv.lt_of_busy (h : s.Inv) (hw : w ∈ s._busyList) : w < s._threadCount :=
  List.mem_range.mp (h.lists.mem_iff.mp (List.mem_append_right _ hw))

theorem Inv.idle_or_busy (h : s.Inv) (hw : w < s._threadCount) :
    w ∈ s._idleList ∨ w ∈ s._busyList :=
  List.mem_append.mp (h.lists.mem_iff.mpr (List.mem_range.mpr hw))

theorem Inv.not_busy (h : s.Inv) (hw : w ∈ s._idleList) : w ∉ s._busyList :=
  fun hb => (List.nodup_append.mp h.nodup).2.2 w hw w hb rfl

/-! ### The jobs -/

/-- One worker of the sum changes. -/
theorem sum_update {n : ℕ} (f : CWorkThread Job → Multiset Job) (g : ℕ → CWorkThread Job)
    (hw : w < n) :
    ∑ i ∈ Finset.range n, f (Function.update g w th i) + f (g w) =
      ∑ i ∈ Finset.range n, f (g i) + f th := by
  have hmem := Finset.mem_range.mpr hw
  have hrest : ∑ i ∈ (Finset.range n).erase w, f (Function.update g w th i) =
      ∑ i ∈ (Finset.range n).erase w, f (g i) := by
    apply Finset.sum_congr rfl
    intro i hi
    rw [Function.update_of_ne (Finset.ne_of_mem_erase hi)]
  rw [← Finset.sum_erase_add _ _ hmem,← Finset.sum_erase_add _ _ hmem,hrest,Function.update_self]
  abel

@[simp] theorem worker_setWorker : (s.setWorker w th).worker w = th := by
  simp only [setWorker,Function.update_self]

theorem worker_setWorker_of_ne {w' : ℕ} (h : w' ≠ w) :
    (s.setWorker w th).worker w' = s.worker w' := by
  simp only [setWorker,Function.update_of_ne h]

theorem slots_setWorker (hw : w < s._threadCount) :
    (s.setWorker w th).slots + (s.worker w).slot = s.slots + th.slot :=
  sum_update CWorkThread.slot s.worker hw

theorem beingRun_setWorker (hw : w < s._threadCount) :
    (s.setWorker w th).beingRun + (s.worker w).beingRun = s.beingRun + th.beingRun :=
  sum_update CWorkThread.beingRun s.worker hw

theorem Resting.slot (h : Resting th) : th.slot = 0 := by
  rw [CWorkThread.slot,h.1]
  rfl

theorem Resting.beingRun (h : Resting th) : th.beingRun = 0 := by
  unfold CWorkThread.beingRun
  rcases h.2 with hpc | hpc <;> rw [hpc]

theorem Inv.exact (h : s.Inv) : s.Exact where
  jobs := h.jobs
  lists := h.lists
  idle := fun w hw => (h.idle w hw).1
  free := fun job w hpc => (h.handed job w hpc).2.1
  workers := by
    intro w j hj hpc
    have hresting : ¬ Resting (s.worker w) := fun hr => by simp [hr.1] at hj
    have hw : w < s._threadCount := by
      by_contra hge
      simp [h.outside w (Nat.le_of_not_lt hge)] at hj
    have hbusy := (h.idle_or_busy hw).resolve_left fun hi => hresting (h.idle w hi)
    cases h.busy w hbusy fun job hrun => hresting (h.handed job w hrun).2 with
    | filled _ h' => simp [hpc] at h'
    | running h' => simp [h'] at hj
    | returned h' => simp [h'] at hj
  dispatcher := by
    intro job hpc
    by_contra hne
    exact Bool.false_ne_true ((h.waiting job false hpc).mpr hne)
  queue := h.queue

theorem create_inv (cnt : ℕ) : (create cnt : CThreadsPool Job).Inv where
  jobs := by simp [create,queued,inHand,slots,beingRun,CWorkThread.slot,CWorkThread.beingRun]
  lists := by simp [create]
  idle := fun _ _ => ⟨rfl,.inl rfl⟩
  handed := nofun
  busy := nofun
  outside := fun _ _ => rfl
  waiting := nofun
  queue := nofun

/-! ### The pool's thread -/

theorem assign_pc (s : CThreadsPool Job) (jb : Option Job) :
    (s.assign jb).pc = s.pc ∨
      (∃ b, s.pc = .receiving b) ∧ (s.assign jb).pc = .receiving true := by
  unfold assign
  cases hpc : s.pc with
  | receiving b => exact .inr ⟨⟨b,rfl⟩,rfl⟩
  | _ => exact .inl rfl

theorem assign_queued (s : CThreadsPool Job) (jb : Option Job) :
    (s.assign jb).queued = s.queued + (jb.toList : Multiset Job) := by
  unfold queued assign
  dsimp only
  rw [List.filterMap_append,← Multiset.coe_add]
  cases jb <;> rfl

theorem assign_inv (h : s.Inv) (jb : Option Job) : (s.assign jb).Inv := by
  have hhand : (s.assign jb).inHand = s.inHand := by
    unfold inHand assign
    cases s.pc <;> rfl
  have hjobs : (s.assign jb).assigned = (s.assign jb).queued + (s.assign jb).inHand +
      (s.assign jb).slots + (s.assign jb).beingRun + (s.assign jb).ran := by
    change s.assigned + (jb.toList : Multiset Job) =
      (s.assign jb).queued + (s.assign jb).inHand + s.slots + s.beingRun + s.ran
    rw [assign_queued,hhand,h.jobs]
    abel
  rcases assign_pc s jb with hpc | ⟨⟨b,hwait⟩,hpc⟩
  · refine ⟨hjobs,h.lists,h.idle,?_,?_,h.outside,?_,fun hwait => ?_⟩
    · rw [hpc]
      exact h.handed
    · rw [hpc]
      exact h.busy
    · rw [hpc]
      exact h.waiting
    · unfold assign at hwait
      cases hs : s.pc <;> simp [hs] at hwait
  · have hother : ∀ job w, s.pc ≠ .run job w := by simp [hwait]
    refine ⟨hjobs,h.lists,h.idle,?_,fun w hw _ => h.busy w hw fun job => hother job w,h.outside,?_,?_⟩
    · rw [hpc]
      nofun
    · rw [hpc]
      nofun
    · rw [hpc]
      nofun

theorem receive_inv (h : s.Inv) (hpc : s.pc = .receive ∨ ∃ b, s.pc = .receiving b) :
    s.receive.Inv := by
  have hhand : s.inHand = 0 := by
    unfold inHand
    rcases hpc with hpc | ⟨b,hpc⟩ <;> rw [hpc]
  have hother : ∀ job w, s.pc ≠ .run job w := by
    rcases hpc with hpc | ⟨b,hpc⟩ <;> simp [hpc]
  have hjobs := h.jobs
  rw [hhand,add_zero] at hjobs
  unfold queued at hjobs
  unfold receive
  cases hqueue : s._queue with
  | nil =>
    rw [hqueue] at hjobs
    refine ⟨?_,h.lists,h.idle,nofun,fun w hw _ => h.busy w hw fun job => hother job w,h.outside,
      nofun,fun _ => rfl⟩
    exact hjobs.trans (by rw [inHand,add_zero]; rfl)
  | cons jb q =>
    rw [hqueue] at hjobs
    cases jb with
    | none =>
      refine ⟨?_,h.lists,h.idle,nofun,fun w hw _ => h.busy w hw fun job => hother job w,h.outside,
        nofun,nofun⟩
      exact hjobs.trans (by rw [inHand,add_zero]; rfl)
    | some job =>
      refine ⟨?_,h.lists,h.idle,nofun,fun w hw _ => h.busy w hw fun job => hother job w,h.outside,
        nofun,nofun⟩
      refine hjobs.trans ?_
      change ((job :: q.filterMap id : List Job) : Multiset Job) + s.slots + s.beingRun + s.ran =
        ↑(q.filterMap id) + {job} + s.slots + s.beingRun + s.ran
      rw [← Multiset.cons_coe,← Multiset.singleton_add]
      abel

/-- The worker at the front of the idle list is handed the job. -/
theorem takeIdle_inv (h : s.Inv) {job : Job}
    (hpc : s.pc = .lock job ∨ ∃ b, s.pc = .asleep job b) (hne : s._idleList ≠ []) :
    ∃ t, s.takeIdle job = .ok t ∧ t.Inv := by
  have hhand : s.inHand = {job} := by
    unfold inHand
    rcases hpc with hpc | ⟨b,hpc⟩ <;> rw [hpc]
  have hother : ∀ job w, s.pc ≠ .run job w := by
    rcases hpc with hpc | ⟨b,hpc⟩ <;> simp [hpc]
  have hjobs := h.jobs
  rw [hhand] at hjobs
  unfold takeIdle
  cases hidle : s._idleList with
  | nil => exact absurd hidle hne
  | cons w ws =>
    have hw : w ∈ s._idleList := by
      rw [hidle]
      exact List.mem_cons_self
    have hlists : (ws ++ (s._busyList ++ [w])).Perm (s._idleList ++ s._busyList) := by
      rw [hidle,← List.append_assoc]
      exact List.perm_append_singleton w (ws ++ s._busyList)
    refine ⟨_,rfl,hjobs,hlists.trans h.lists,fun w' hw' => ?_,fun job' w' hrun => ?_,
      fun w' hw' hrun => ?_,h.outside,nofun,nofun⟩
    · apply h.idle
      rw [hidle]
      exact List.mem_cons_of_mem _ hw'
    · cases hrun
      exact ⟨List.mem_append_right _ (List.mem_singleton_self w),h.idle w hw⟩
    · rcases List.mem_append.mp hw' with hw' | hw'
      · exact h.busy w' hw' fun job => hother job w'
      · rw [List.mem_singleton.mp hw'] at hrun
        exact absurd rfl (hrun job)

/-- The slot of a resting worker is filled, and the worker told. -/
theorem run_inv (h : s.Inv) {job : Job} (hpc : s.pc = .run job w) :
    ({ s.setWorker w ((s.worker w).run job) with pc := .receive } : CThreadsPool Job).Inv := by
  obtain ⟨hbusy,hresting⟩ := h.handed job w hpc
  have hlt := h.lt_of_busy hbusy
  have hth : ((s.worker w).run job)._job = some job ∧ (((s.worker w).run job).pc = .lock ∨
      ((s.worker w).run job).pc = .asleep true) := by
    unfold CWorkThread.run CWorkThread.signal
    rcases hresting.2 with hrest | hrest <;> simp [hrest]
  have hslot : ((s.worker w).run job).slot = {job} := by
    rw [CWorkThread.slot,hth.1]
    rfl
  have hnone : ((s.worker w).run job).beingRun = 0 := by
    unfold CWorkThread.beingRun
    rcases hth.2 with hpc | hpc <;> rw [hpc]
  have hslots := @slots_setWorker _ s w ((s.worker w).run job) hlt
  have hrun := @beingRun_setWorker _ s w ((s.worker w).run job) hlt
  have hjobs := h.jobs
  unfold inHand at hjobs
  rw [hpc] at hjobs
  rw [hresting.slot,hslot,add_zero] at hslots
  rw [hresting.beingRun,hnone,add_zero,add_zero] at hrun
  refine ⟨?_,h.lists,fun w' hw' => ?_,nofun,fun w' hw' _ => ?_,fun w' hw' => ?_,nofun,nofun⟩
  · change s.assigned = s.queued + 0 + (s.setWorker w _).slots + (s.setWorker w _).beingRun + s.ran
    rw [hslots,hrun,hjobs]
    abel
  · have hne : w' ≠ w := fun heq => h.not_busy hw' (heq ▸ hbusy)
    simp only [worker_setWorker_of_ne hne]
    exact h.idle w' hw'
  · by_cases hne : w' = w
    · simp only [hne,worker_setWorker]
      exact .filled hth.1 hth.2
    · simp only [worker_setWorker_of_ne hne]
      refine h.busy w' hw' fun job' hrun' => ?_
      rw [hpc] at hrun'
      cases hrun'
      exact hne rfl
  · have hne : w' ≠ w := fun heq => absurd hlt (Nat.not_lt.mpr (heq ▸ hw'))
    simp only [worker_setWorker_of_ne hne]
    exact h.outside w' hw'

theorem doWork_inv (h : s.Inv) (hsig : s.Signalled .doWork) :
    ∃ t, s.doWork = .ok t ∧ t.Inv := by
  unfold doWork
  cases hpc : s.pc with
  | receive => exact ⟨_,rfl,receive_inv h (.inl hpc)⟩
  | receiving b => exact ⟨_,rfl,receive_inv h (.inr ⟨b,hpc⟩)⟩
  | lock job =>
    dsimp only
    split_ifs with hidle
    · refine ⟨_,rfl,?_,h.lists,h.idle,nofun,fun w hw _ => h.busy w hw fun job' => by simp [hpc],
        h.outside,fun job' b hsleep => ?_,nofun⟩
      · have hjobs := h.jobs
        unfold inHand at hjobs
        rw [hpc] at hjobs
        exact hjobs
      · cases hsleep
        exact ⟨Bool.noConfusion,fun hne => absurd hidle hne⟩
    · exact takeIdle_inv h (.inl hpc) hidle
  | asleep job b =>
    exact takeIdle_inv h (.inr ⟨b,hpc⟩) ((h.waiting job b hpc).mp (hsig job b hpc))
  | run job w => exact ⟨_,rfl,run_inv h hpc⟩

/-! ### The workers -/

theorem Working.not_resting (h : Working th) : ¬ Resting th := by
  intro hrest
  cases h with
  | filled hjob => simp [hrest.1] at hjob
  | running _ hpc => simp [Resting,hpc] at hrest
  | returned _ hpc => simp [Resting,hpc] at hrest

theorem Inv.resting_or_working (h : s.Inv) (hw : w < s._threadCount) :
    Resting (s.worker w) ∨
      w ∈ s._busyList ∧ (∀ job, s.pc ≠ .run job w) ∧ Working (s.worker w) := by
  by_cases hrest : Resting (s.worker w)
  · exact .inl hrest
  · have hbusy := (h.idle_or_busy hw).resolve_left fun hi => hrest (h.idle w hi)
    have hother : ∀ job, s.pc ≠ .run job w := fun job hrun => hrest (h.handed job w hrun).2
    exact .inr ⟨hbusy,hother,h.busy w hbusy hother⟩

/-- One worker goes on and stays in its list. -/
theorem Inv.setWorker (h : s.Inv) {r : Multiset Job} (hw : w < s._threadCount)
    (hjobs : th.slot + th.beingRun + r = (s.worker w).slot + (s.worker w).beingRun + s.ran)
    (hrest : Resting (s.worker w) → Resting th) (hwork : Working (s.worker w) → Working th) :
    ({ s.setWorker w th with ran := r } : CThreadsPool Job).Inv := by
  have hslots := @slots_setWorker _ s w th hw
  have hrun := @beingRun_setWorker _ s w th hw
  refine ⟨?_,h.lists,fun w' hw' => ?_,fun job w' hpc => ?_,fun w' hw' hpc => ?_,fun w' hw' => ?_,
    h.waiting,h.queue⟩
  · change s.assigned = s.queued + s.inHand + (s.setWorker w th).slots +
      (s.setWorker w th).beingRun + r
    apply add_right_cancel (b := (s.worker w).slot + (s.worker w).beingRun)
    calc s.assigned + ((s.worker w).slot + (s.worker w).beingRun)
        = s.queued + s.inHand + s.slots + s.beingRun +
            ((s.worker w).slot + (s.worker w).beingRun + s.ran) := by
          rw [h.jobs]
          abel
      _ = s.queued + s.inHand + (s.slots + th.slot) + (s.beingRun + th.beingRun) + r := by
          rw [← hjobs]
          abel
      _ = _ := by
          rw [← hslots,← hrun]
          abel
  · by_cases hne : w' = w
    · subst hne
      simp only [worker_setWorker]
      exact hrest (h.idle w' hw')
    · simp only [worker_setWorker_of_ne hne]
      exact h.idle w' hw'
  · refine ⟨(h.handed job w' hpc).1,?_⟩
    by_cases hne : w' = w
    · subst hne
      simp only [worker_setWorker]
      exact hrest (h.handed job w' hpc).2
    · simp only [worker_setWorker_of_ne hne]
      exact (h.handed job w' hpc).2
  · by_cases hne : w' = w
    · subst hne
      simp only [worker_setWorker]
      exact hwork (h.busy w' hw' hpc)
    · simp only [worker_setWorker_of_ne hne]
      exact h.busy w' hw' hpc
  · have hne : w' ≠ w := fun heq => absurd hw (Nat.not_lt.mpr (heq ▸ hw'))
    simp only [worker_setWorker_of_ne hne]
    exact h.outside w' hw'

/-- A worker with a job in its slot takes it out. -/
theorem takeJob_inv (h : s.Inv) (hw : w < s._threadCount) {j : Job}
    (hjob : (s.worker w)._job = some j)
    (hpc : (s.worker w).pc = .lock ∨ ∃ b, (s.worker w).pc = .asleep b) :
    ∃ t, s.takeJob w = .ok t ∧ t.Inv := by
  unfold takeJob
  rw [hjob]
  refine ⟨_,rfl,h.setWorker hw ?_ (fun hrest => ?_) fun _ => .running rfl rfl⟩
  · have hnone : (s.worker w).beingRun = 0 := by
      unfold CWorkThread.beingRun
      rcases hpc with hpc | ⟨b,hpc⟩ <;> rw [hpc]
    have hslot : (s.worker w).slot = {j} := by
      rw [CWorkThread.slot,hjob]
      rfl
    rw [hnone,hslot,add_zero]
    simp [CWorkThread.slot,CWorkThread.beingRun]
  · simp [hrest.1] at hjob

theorem signal_inHand (s : CThreadsPool Job) : s.signal.inHand = s.inHand := by
  unfold signal inHand
  cases s.pc <;> rfl

theorem signal_run {job : Job} : s.signal.pc = .run job w ↔ s.pc = .run job w := by
  unfold signal
  cases s.pc <;> simp

theorem signal_asleep {job : Job} {b : Bool} (h : s.signal.pc = .asleep job b) : b = true := by
  unfold signal at h
  cases hpc : s.pc <;> simp [hpc] at h
  exact h.2

theorem signal_receiving {b : Bool} : s.signal.pc = .receiving b ↔ s.pc = .receiving b := by
  unfold signal
  cases s.pc <;> simp

theorem moveToIdleList_inv (h : s.Inv) (hw : w < s._threadCount)
    (hpc : (s.worker w).pc = .moveToIdleList) :
    ((s.moveToIdleList w).setWorker w { s.worker w with pc := .lock }).Inv := by
  obtain ⟨hbusy,hother,hworking⟩ := (h.resting_or_working hw).resolve_left fun hrest => by
    simp [Resting,hpc] at hrest
  have hjob : (s.worker w)._job = none := by
    cases hworking with
    | filled _ h' => simp [hpc] at h'
    | running h' => exact h'
    | returned h' => exact h'
  have hresting : Resting ({ s.worker w with pc := .lock } : CWorkThread Job) := ⟨hjob,.inl rfl⟩
  have hslots := @slots_setWorker _ s w { s.worker w with pc := .lock } hw
  have hrun := @beingRun_setWorker _ s w { s.worker w with pc := .lock } hw
  have hlists : ((s._idleList ++ [w]) ++ s._busyList.erase w).Perm (List.range s._threadCount) := by
    refine List.Perm.trans ?_ h.lists
    rw [List.append_assoc]
    exact List.Perm.append_left _ (List.perm_cons_erase hbusy).symm
  have hnodup : ((s._idleList ++ [w]) ++ s._busyList.erase w).Nodup :=
    hlists.nodup_iff.mpr List.nodup_range
  have hgone : ∀ w' ∈ s._busyList.erase w, w' ≠ w := by
    intro w' hw' heq
    exact (List.nodup_append.mp hnodup).2.2 w (by simp) w' hw' heq.symm
  unfold moveToIdleList
  rw [if_pos hbusy]
  refine ⟨?_,hlists,fun w' hw' => ?_,fun job w' hrun' => ?_,fun w' hw' hrun' => ?_,fun w' hw' => ?_,
    fun job b hsleep => ?_,fun hwait => h.queue (signal_receiving.mp hwait)⟩
  · have hslot : ({ s.worker w with pc := .lock } : CWorkThread Job).slot = (s.worker w).slot := rfl
    have hnone : (s.worker w).beingRun = 0 := by
      unfold CWorkThread.beingRun
      rw [hpc]
    have hnone' : ({ s.worker w with pc := .lock } : CWorkThread Job).beingRun = 0 := rfl
    rw [hslot] at hslots
    rw [hnone,hnone'] at hrun
    refine h.jobs.trans ?_
    rw [← add_right_cancel hslots,← add_right_cancel hrun,← signal_inHand s]
    rfl
  · by_cases hne : w' = w
    · subst hne
      simp only [worker_setWorker]
      exact hresting
    · simp only [worker_setWorker_of_ne hne]
      have hidle := (List.mem_append.mp hw').resolve_right fun hin => hne (List.mem_singleton.mp hin)
      exact h.idle w' hidle
  · have hrun'' : s.pc = .run job w' := signal_run.mp hrun'
    have hne : w' ≠ w := fun heq => hother job (heq ▸ hrun'')
    simp only [worker_setWorker_of_ne hne]
    obtain ⟨hin,hrest⟩ := h.handed job w' hrun''
    exact ⟨(List.mem_erase_of_ne hne).mpr hin,hrest⟩
  · have hne := hgone w' hw'
    simp only [worker_setWorker_of_ne hne]
    exact h.busy w' (List.mem_of_mem_erase hw') fun job hpc' => hrun' job (signal_run.mpr hpc')
  · have hne : w' ≠ w := fun heq => absurd hw (Nat.not_lt.mpr (heq ▸ hw'))
    simp only [worker_setWorker_of_ne hne]
    exact h.outside w' hw'
  · exact ⟨fun _ => List.append_ne_nil_of_right_ne_nil _ (List.cons_ne_nil w []),
      fun _ => signal_asleep hsleep⟩

theorem work_inv (h : s.Inv) (hw : w < s._threadCount) (hsig : s.Signalled (.work w)) :
    ∃ t, s.work w = .ok t ∧ t.Inv := by
  unfold work
  cases hpc : (s.worker w).pc with
  | lock =>
    dsimp only
    split_ifs with hnone
    · have hjob := Option.isNone_iff_eq_none.mp hnone
      refine ⟨_,rfl,h.setWorker hw ?_ (fun _ => ⟨hjob,.inr rfl⟩) fun hworking => ?_⟩
      · unfold CWorkThread.slot CWorkThread.beingRun
        rw [hpc]
      · exact absurd ⟨hjob,.inl hpc⟩ hworking.not_resting
    · obtain ⟨j,hjob⟩ := Option.ne_none_iff_exists'.mp (Option.isNone_iff_eq_none.not.mp hnone)
      exact takeJob_inv h hw hjob (.inl hpc)
  | asleep b =>
    have hb : b = true := hsig hw b hpc
    obtain ⟨-,-,hworking⟩ := (h.resting_or_working hw).resolve_left fun hrest => by
      simp [Resting,hpc,hb] at hrest
    cases hworking with
    | filled hjob => exact takeJob_inv h hw hjob (.inr ⟨b,hpc⟩)
    | running _ h' => simp [hpc] at h'
    | returned _ h' => simp [hpc] at h'
  | running j =>
    have hjob : (s.worker w)._job = none := by
      obtain ⟨-,-,hworking⟩ := (h.resting_or_working hw).resolve_left fun hrest => by
        simp [Resting,hpc] at hrest
      cases hworking with
      | filled _ h' => simp [hpc] at h'
      | running h' => exact h'
      | returned h' => exact h'
    refine ⟨_,rfl,h.setWorker hw ?_ (fun hrest => ?_) fun _ => .returned hjob rfl⟩
    · unfold CWorkThread.slot CWorkThread.beingRun
      rw [hpc]
      dsimp only
      rw [add_zero]
      abel
    · simp [Resting,hpc] at hrest
  | moveToIdleList => exact ⟨_,rfl,moveToIdleList_inv h hw hpc⟩

theorem step_inv (h : s.Inv) (e : Event Job) (hsig : s.Signalled e) :
    ∃ t, step s e = .ok t ∧ t.Inv := by
  cases e with
  | assign jb => exact ⟨_,rfl,assign_inv h jb⟩
  | doWork => exact doWork_inv h hsig
  | work w =>
    by_cases hw : w < s._threadCount
    · simp only [step,if_pos hw]
      exact work_inv h hw hsig
    · simp only [step,if_neg hw]
      exact ⟨s,rfl,h⟩

/-- A wait that returns without a broadcast finds what it waited for missing. -/
theorem step_error (h : s.Inv) (e : Event Job) (hsig : ¬ s.Signalled e) :
    ∃ k, step s e = .error k := by
  cases e with
  | assign jb => exact absurd trivial hsig
  | doWork =>
    simp only [Signalled,not_forall] at hsig
    obtain ⟨job,b,hpc,hb⟩ := hsig
    have hidle : s._idleList = [] := by
      by_contra hne
      exact hb ((h.waiting job b hpc).mpr hne)
    simp only [step,doWork,hpc,takeIdle,hidle]
    exact ⟨_,rfl⟩
  | work w =>
    simp only [Signalled,not_forall] at hsig
    obtain ⟨hw,b,hpc,hb⟩ := hsig
    have hjob : (s.worker w)._job = none := by
      rcases h.resting_or_working hw with hrest | ⟨-,-,hworking⟩
      · exact hrest.1
      · cases hworking with
        | filled _ h' => simp [hpc,hb] at h'
        | running h' => exact h'
        | returned h' => exact h'
    simp only [step,if_pos hw,work,hpc,takeJob,hjob]
    exact ⟨_,rfl⟩

end

/-! ### Runs -/

/-- In every interleaving whose waits return after broadcasts the jobs are in their places, each
once, and no step is undefined. -/
theorem jobs_exact (cnt : ℕ) {es : List (Event Job)}
    (hsig : Lts.Meets (Lts.Steps step) Signalled (create cnt) es) :
    ∃ s, Lts.exec step (create cnt) es = .ok s ∧ s.Exact := by
  obtain ⟨s,hs,hinv⟩ := Lts.exec_ok_of_meets (fun _ e h hsig => step_inv h e hsig) hsig
    (create_inv cnt)
  exact ⟨s,hs,hinv.exact⟩

/-- One worker falls asleep, is handed a job and runs it. -/
theorem jobs_exact_one : ∃ s, Lts.exec step (create 1)
    [.work 0,.assign (some 7),.doWork,.doWork,.doWork,.work 0,.work 0,.work 0] = .ok s ∧
      s.Exact := by
  refine jobs_exact 1 ?_
  refine Lts.meets_cons rfl (by simp [Signalled,create]) ?_
  refine Lts.meets_cons rfl trivial ?_
  refine Lts.meets_cons rfl (fun _ _ h => nomatch h) ?_
  refine Lts.meets_cons rfl (fun _ _ h => nomatch h) ?_
  refine Lts.meets_cons rfl (fun _ _ h => nomatch h) ?_
  refine Lts.meets_cons rfl (fun _ _ h => by cases h; rfl) ?_
  refine Lts.meets_cons rfl (fun _ _ h => nomatch h) ?_
  exact Lts.meets_cons rfl (fun _ _ h => nomatch h) trivial

/-- The pool stays defined exactly as long as the waits return after broadcasts only. -/
theorem defined_iff_signalled (cnt : ℕ) (es : List (Event Job)) :
    (∃ s, Lts.exec step (create cnt) es = .ok s) ↔
      Lts.Meets (Lts.Steps step) Signalled (create cnt) es :=
  Lts.exec_ok_iff_meets (fun _ e h hsig => step_inv h e hsig)
    (fun _ e h hsig => step_error h e hsig) (create_inv cnt)

/-- A worker wakes up without a cause. -/
theorem causeless_wakeup_nullJob :
    ¬ ∀ (cnt : ℕ) (es : List (Event ℕ)), ∃ s, Lts.exec step (create cnt) es = .ok s := by
  intro hall
  obtain ⟨s,hs⟩ := hall 1 [.work 0,.work 0]
  cases hs

end CThreadsPool
end CcniServer
