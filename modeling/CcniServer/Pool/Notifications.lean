import CcniServer.Hall.Room
import CcniServer.Lib.Lts

/-!
The way of a notification from a session event to its recipients. The event collects them under
the session's lock, the handler assigns the notifier to the pool when the lock is free again, the
pool hands its jobs to idle workers, and a worker queues the notification at one recipient after
the other.
-/
namespace CcniServer

/-- What a client's handler does to a session under the session's lock. -/
inductive SessionEvent
  | enter (sid : ℤ)
  | watch (sid : ℤ)
  | ready (sid : ℤ)
  | leave (sid : ℤ)

/-- The room and the clients after an event, and the notifiers that the handler will assign, in
this order. A game that starts is first announced to the client itself. -/
def SessionEvent.run (rm : CRoom) (heap : CClientPtr → CClient) (c : CClientPtr) :
    SessionEvent → Checked (CRoom × (CClientPtr → CClient) × List CNotifier)
  | enter sid =>
    let entered := rm.enterSession sid c .create
    .ok (entered.2.1,heap,if entered.1 < 0 then [] else [entered.2.2])
  | watch sid =>
    let watched := rm.watchSession sid c .create
    .ok (watched.2.1,heap,if watched.1 < 0 then [] else [watched.2.2])
  | ready sid => do
    let r ← rm.ready heap sid c .create
    ASSERT .doReadyReturned (r.ret ≥ 0)
    let started := ¬ r.notier.empty ∧ r.ret = 1
    return (rm,r.heap,if started then [CNotifier.create.addNotifiee c,r.notier] else [r.notier])
  | leave sid => do
    let left ← rm.leaveSession heap sid c .create .create
    return (left.1,heap,[left.2.1])

/-- A notifier with the number of the event it is about and the recipients it still has. -/
structure NotifierJob where
  event : ℕ
  clis : List CClientPtr
  deriving DecidableEq

/-- A job that goes before another one, of an earlier event, with a recipient in common. -/
def NotifierJob.Overtakes (j j' : NotifierJob) : Prop :=
  j'.event < j.event ∧ ∃ d ∈ j.clis, d ∈ j'.clis

theorem NotifierJob.Overtakes.of_subset {j k j' k' : NotifierJob} (h : k.Overtakes k')
    (he : k.event = j.event) (he' : k'.event = j'.event) (hs : k.clis ⊆ j.clis)
    (hs' : k'.clis ⊆ j'.clis) : j.Overtakes j' := by
  obtain ⟨hlt,d,hd,hd'⟩ := h
  exact ⟨he ▸ he' ▸ hlt,d,hs hd,hs' hd'⟩

/-- The room and the clients, the recipients of every event so far, the jobs that the handlers
have not assigned yet, the queue of the pool, the jobs of its workers, and the notifications
queued at every client, by their events. -/
structure Notifications where
  room : CRoom
  heap : CClientPtr → CClient
  events : ℕ
  clis : ℕ → List CClientPtr
  hand : CClientPtr → List NotifierJob
  queue : List NotifierJob
  workers : ℕ → Option NotifierJob
  notimsgs : CClientPtr → List ℕ

namespace Notifications

inductive Event
  | session (c : CClientPtr) (ev : SessionEvent)
  | assign (c : CClientPtr)
  | dispatch (w : ℕ)
  | work (w : ℕ)

def start (rm : CRoom) (heap : CClientPtr → CClient) : Notifications where
  room := rm
  heap := heap
  events := 0
  clis := fun _ => []
  hand := fun _ => []
  queue := []
  workers := fun _ => none
  notimsgs := fun _ => []

/-- The critical section of an event, by a handler that has assigned the jobs of its last one. -/
def session (s : Notifications) (c : CClientPtr) (ev : SessionEvent) : Checked Notifications :=
  match s.hand c with
  | _ :: _ => .ok s
  | [] => do
    let done ← ev.run s.room s.heap c
    let jobs := (done.2.2.filter (fun n => !n.empty)).map (fun n => ⟨s.events,n.clis⟩)
    return { s with
      room := done.1
      heap := done.2.1
      events := s.events + 1
      clis := Function.update s.clis s.events (jobs.flatMap NotifierJob.clis)
      hand := Function.update s.hand c jobs }

/-- `CThreadsPool::assign`. -/
def assign (s : Notifications) (c : CClientPtr) : Notifications :=
  match s.hand c with
  | [] => s
  | j :: js => { s with hand := Function.update s.hand c js, queue := s.queue ++ [j] }

/-- The pool's own thread gives the first job to an idle worker. -/
def dispatch (cnt : ℕ) (s : Notifications) (w : ℕ) : Notifications :=
  match s.queue, s.workers w with
  | j :: js, none =>
    if w < cnt then { s with queue := js, workers := Function.update s.workers w (some j) } else s
  | _, _ => s

/-- The next `queueNotification` of a worker, which is idle again after the last. -/
def work (s : Notifications) (w : ℕ) : Notifications :=
  match s.workers w with
  | none => s
  | some ⟨_,[]⟩ => { s with workers := Function.update s.workers w none }
  | some ⟨e,d :: ds⟩ =>
    { s with
      workers := Function.update s.workers w (some ⟨e,ds⟩)
      notimsgs := Function.update s.notimsgs d (s.notimsgs d ++ [e]) }

variable (cnt : ℕ)

def step (s : Notifications) : Event → Checked Notifications
  | .session c ev => s.session c ev
  | .assign c => .ok (s.assign c)
  | .dispatch w => .ok (s.dispatch cnt w)
  | .work w => .ok (s.work w)

/-- At every client the notifications stand in the order of the events, and none is queued before
that of an earlier event. -/
structure Ordered (s : Notifications) : Prop where
  sorted : ∀ d, (s.notimsgs d).Pairwise (· ≤ ·)
  before : ∀ d e₁ e₂, e₂ ∈ s.notimsgs d → e₁ < e₂ → d ∈ s.clis e₁ → e₁ ∈ s.notimsgs d

/-- No handler's job is overtaken on the way into the queue, and no worker's by another worker. -/
def InTurn (s : Notifications) : Event → Prop
  | .assign c => ∀ j, (s.hand c).head? = some j → ∀ c', ∀ j' ∈ s.hand c', ¬ j.Overtakes j'
  | .dispatch _ => ∀ j, s.queue.head? = some j → ∀ w' j', s.workers w' = some j' →
      ¬ j.Overtakes j'
  | _ => True

/-- A job somewhere on its way. -/
def Holds (s : Notifications) (j : NotifierJob) : Prop :=
  (∃ c, j ∈ s.hand c) ∨ j ∈ s.queue ∨ ∃ w, s.workers w = some j

def Pending (s : Notifications) (e : ℕ) (d : CClientPtr) : Prop :=
  ∃ j, s.Holds j ∧ j.event = e ∧ d ∈ j.clis

/-- Nothing on its way has overtaken anything. -/
structure Inv (s : Notifications) : Prop where
  queue_hand : ∀ j ∈ s.queue, ∀ c, ∀ j' ∈ s.hand c, ¬ j.Overtakes j'
  worker_hand : ∀ w j, s.workers w = some j → ∀ c, ∀ j' ∈ s.hand c, ¬ j.Overtakes j'
  queue_queue : s.queue.Pairwise (fun j j' => ¬ j.Overtakes j')
  worker_queue : ∀ w j, s.workers w = some j → ∀ j' ∈ s.queue, ¬ j.Overtakes j'
  worker_worker : ∀ w j w' j', s.workers w = some j → s.workers w' = some j' → ¬ j.Overtakes j'
  queued : ∀ d, ∀ e ∈ s.notimsgs d, e < s.events ∧ ∀ e' < e, ¬ s.Pending e' d
  held : ∀ j, s.Holds j → j.event < s.events
  sorted : ∀ d, (s.notimsgs d).Pairwise (· ≤ ·)
  known : ∀ e d, d ∈ s.clis e → s.Pending e d ∨ e ∈ s.notimsgs d

theorem Inv.ordered {s : Notifications} (h : s.Inv) : s.Ordered := by
  refine ⟨h.sorted,fun d e₁ e₂ hmem hlt hd => ?_⟩
  exact (h.known e₁ d hd).resolve_left ((h.queued d e₂ hmem).2 e₁ hlt)

theorem start_inv (rm : CRoom) (heap : CClientPtr → CClient) : (start rm heap).Inv := by
  have hnone : ∀ j, ¬ (start rm heap).Holds j := by
    rintro j (⟨c,hj⟩ | hj | ⟨w,hj⟩) <;> cases hj
  refine ⟨nofun,nofun,.nil,nofun,nofun,nofun,fun j hj => absurd hj (hnone j),fun d => .nil,nofun⟩

theorem Pending.mono {s s' : Notifications} {e : ℕ} {d : CClientPtr} (h : s.Pending e d)
    (hmono : ∀ j, s.Holds j → s'.Holds j) : s'.Pending e d := by
  obtain ⟨j,hj,he,hd⟩ := h
  exact ⟨j,hmono j hj,he,hd⟩

/-- The state after an event with the given jobs for its handler. -/
def after (s : Notifications) (c : CClientPtr) (rm : CRoom) (heap : CClientPtr → CClient)
    (jobs : List NotifierJob) : Notifications :=
  { s with
    room := rm
    heap := heap
    events := s.events + 1
    clis := Function.update s.clis s.events (jobs.flatMap NotifierJob.clis)
    hand := Function.update s.hand c jobs }

section
variable {s : Notifications} {c : CClientPtr} {rm : CRoom} {heap : CClientPtr → CClient}
  {jobs : List NotifierJob}

theorem mem_hand_after (hhand : s.hand c = []) {c' : CClientPtr} {j : NotifierJob} :
    j ∈ (s.after c rm heap jobs).hand c' ↔ j ∈ s.hand c' ∨ (c' = c ∧ j ∈ jobs) := by
  unfold after
  by_cases hc : c' = c
  · simp [hc,hhand]
  · simp [hc]

theorem holds_after (hhand : s.hand c = []) {j : NotifierJob} :
    (s.after c rm heap jobs).Holds j ↔ s.Holds j ∨ j ∈ jobs := by
  constructor
  · rintro (⟨c',hj⟩ | hj | hj)
    · exact ((mem_hand_after hhand).mp hj).imp (fun hj => .inl ⟨c',hj⟩) And.right
    · exact .inl (.inr (.inl hj))
    · exact .inl (.inr (.inr hj))
  · rintro ((⟨c',hj⟩ | hj | hj) | hj)
    · exact .inl ⟨c',(mem_hand_after hhand).mpr (.inl hj)⟩
    · exact .inr (.inl hj)
    · exact .inr (.inr hj)
    · exact .inl ⟨c,(mem_hand_after hhand).mpr (.inr ⟨rfl,hj⟩)⟩

/-- The new jobs have the greatest number so far, and overtake nothing that is under way. -/
theorem after_inv (h : s.Inv) (hhand : s.hand c = []) (hnew : ∀ j ∈ jobs, j.event = s.events) :
    (s.after c rm heap jobs).Inv := by
  have hlate : ∀ j, s.Holds j → ∀ j' ∈ jobs, ¬ j.Overtakes j' := by
    intro j hj j' hj' hover
    have hlt := h.held j hj
    have hgt := hover.1
    rw [hnew j' hj'] at hgt
    omega
  refine ⟨fun j hj c' j' hj' => ?_,fun w j hj c' j' hj' => ?_,h.queue_queue,h.worker_queue,
    h.worker_worker,fun d e he => ?_,fun j hj => ?_,h.sorted,fun e d hd => ?_⟩
  · rcases (mem_hand_after hhand).mp hj' with hj' | ⟨-,hj'⟩
    · exact h.queue_hand j hj c' j' hj'
    · exact hlate j (.inr (.inl hj)) j' hj'
  · rcases (mem_hand_after hhand).mp hj' with hj' | ⟨-,hj'⟩
    · exact h.worker_hand w j hj c' j' hj'
    · exact hlate j (.inr (.inr ⟨w,hj⟩)) j' hj'
  · obtain ⟨hlt,hquiet⟩ := h.queued d e he
    refine ⟨Nat.lt_succ_of_lt hlt,fun e' he' ⟨j,hj,hje,hjd⟩ => ?_⟩
    rcases (holds_after hhand).mp hj with hj | hj
    · exact hquiet e' he' ⟨j,hj,hje,hjd⟩
    · have hnum := hnew j hj
      omega
  · rcases (holds_after hhand).mp hj with hj | hj
    · exact Nat.lt_succ_of_lt (h.held j hj)
    · rw [hnew j hj]
      exact Nat.lt_succ_self _
  · by_cases he : e = s.events
    · simp only [after,he,Function.update_self] at hd
      obtain ⟨j,hj,hjd⟩ := List.mem_flatMap.mp hd
      exact .inl ⟨j,(holds_after hhand).mpr (.inr hj),(hnew j hj).trans he.symm,hjd⟩
    · simp only [after,Function.update_of_ne he] at hd
      exact (h.known e d hd).imp_left fun hp =>
        hp.mono fun j hj => (holds_after hhand).mpr (.inl hj)

end

theorem session_inv {s s' : Notifications} (h : s.Inv) {c : CClientPtr} {ev : SessionEvent}
    (hstep : s.session c ev = .ok s') : s'.Inv := by
  unfold session at hstep
  cases hhand : s.hand c with
  | cons j js =>
    rw [hhand] at hstep
    cases hstep
    exact h
  | nil =>
    rw [hhand] at hstep
    cases hrun : ev.run s.room s.heap c with
    | error site =>
      rw [hrun] at hstep
      cases hstep
    | ok done =>
      rw [hrun] at hstep
      cases hstep
      refine after_inv h hhand fun j hj => ?_
      obtain ⟨n,-,rfl⟩ := List.mem_map.mp hj
      rfl

/-- Nothing is pending that was not, and nothing pending is lost. -/
structure SamePending (s s' : Notifications) : Prop where
  events : s'.events = s.events
  clis : s'.clis = s.clis
  notimsgs : s'.notimsgs = s.notimsgs
  holds : ∀ j, s'.Holds j ↔ s.Holds j

theorem Inv.samePending {s s' : Notifications} (h : s.Inv) (hs : SamePending s s')
    (hqh : ∀ j ∈ s'.queue, ∀ c, ∀ j' ∈ s'.hand c, ¬ j.Overtakes j')
    (hwh : ∀ w j, s'.workers w = some j → ∀ c, ∀ j' ∈ s'.hand c, ¬ j.Overtakes j')
    (hqq : s'.queue.Pairwise (fun j j' => ¬ j.Overtakes j'))
    (hwq : ∀ w j, s'.workers w = some j → ∀ j' ∈ s'.queue, ¬ j.Overtakes j')
    (hww : ∀ w j w' j', s'.workers w = some j → s'.workers w' = some j' → ¬ j.Overtakes j') :
    s'.Inv := by
  refine ⟨hqh,hwh,hqq,hwq,hww,fun d e he => ?_,fun j hj => ?_,?_,fun e d hd => ?_⟩
  · rw [hs.notimsgs] at he
    obtain ⟨hlt,hquiet⟩ := h.queued d e he
    rw [hs.events]
    exact ⟨hlt,fun e' he' hp => hquiet e' he' (hp.mono fun j hj => (hs.holds j).mp hj)⟩
  · rw [hs.events]
    exact h.held j ((hs.holds j).mp hj)
  · rw [hs.notimsgs]
    exact h.sorted
  · rw [hs.clis] at hd
    rw [hs.notimsgs]
    exact (h.known e d hd).imp_left fun hp => hp.mono fun j hj => (hs.holds j).mpr hj

section assign
variable {s : Notifications} {c : CClientPtr} {j₀ : NotifierJob} {js : List NotifierJob}

/-- What is in a hand after the first job of one has left it was in that hand before. -/
theorem mem_hand_of_assigned (hhand : s.hand c = j₀ :: js) {c' : CClientPtr} {j : NotifierJob}
    (hj : j ∈ Function.update s.hand c js c') : j ∈ s.hand c' := by
  by_cases hc : c' = c
  · rw [hc,Function.update_self] at hj
    rw [hc,hhand]
    exact List.mem_cons_of_mem _ hj
  · rwa [Function.update_of_ne hc] at hj

theorem mem_queue_assigned {j : NotifierJob} (hj : j ∈ s.queue ++ [j₀]) : j ∈ s.queue ∨ j = j₀ := by
  simpa using hj

theorem holds_assigned (hhand : s.hand c = j₀ :: js) (j : NotifierJob) :
    Holds { s with hand := Function.update s.hand c js, queue := s.queue ++ [j₀] } j ↔
      s.Holds j := by
  constructor
  · rintro (⟨c',hj⟩ | hj | hj)
    · exact .inl ⟨c',mem_hand_of_assigned hhand hj⟩
    · rcases mem_queue_assigned hj with hj | rfl
      · exact .inr (.inl hj)
      · exact .inl ⟨c,by simp [hhand]⟩
    · exact .inr (.inr hj)
  · rintro (⟨c',hj⟩ | hj | hj)
    · by_cases hc : c' = c
      · rw [hc,hhand] at hj
        rcases List.mem_cons.mp hj with rfl | hj
        · exact .inr (.inl (by simp))
        · exact .inl ⟨c,by simpa using hj⟩
      · exact .inl ⟨c',by simpa [hc] using hj⟩
    · exact .inr (.inl (by simp [hj]))
    · exact .inr (.inr hj)

theorem assign_inv (h : s.Inv) (hturn : s.InTurn (.assign c)) : (s.assign c).Inv := by
  unfold assign
  cases hhand : s.hand c with
  | nil => exact h
  | cons j₀ js =>
    dsimp only
    have hfirst : ∀ c', ∀ j' ∈ s.hand c', ¬ j₀.Overtakes j' := hturn j₀ (by rw [hhand]; rfl)
    have hin₀ : j₀ ∈ s.hand c := by rw [hhand]; exact List.mem_cons_self
    refine h.samePending ⟨rfl,rfl,rfl,holds_assigned hhand⟩ (fun j hj c' j' hj' => ?_)
      (fun w j hj c' j' hj' => ?_) ?_ (fun w j hj j' hj' => ?_) h.worker_worker
    · rcases mem_queue_assigned hj with hj | rfl
      · exact h.queue_hand j hj c' j' (mem_hand_of_assigned hhand hj')
      · exact hfirst c' j' (mem_hand_of_assigned hhand hj')
    · exact h.worker_hand w j hj c' j' (mem_hand_of_assigned hhand hj')
    · refine List.pairwise_append.mpr ⟨h.queue_queue,List.pairwise_singleton _ _,?_⟩
      intro j hj j' hj'
      rw [List.mem_singleton.mp hj']
      exact h.queue_hand j hj c j₀ hin₀
    · rcases mem_queue_assigned hj' with hj' | rfl
      · exact h.worker_queue w j hj j' hj'
      · exact h.worker_hand w j hj c j' hin₀

end assign

section dispatch
variable {s : Notifications} {w : ℕ} {j₀ : NotifierJob} {js : List NotifierJob}

theorem workers_dispatched {w' : ℕ} {j : NotifierJob}
    (hj : Function.update s.workers w (some j₀) w' = some j) : j = j₀ ∨ s.workers w' = some j := by
  by_cases hw : w' = w
  · rw [hw,Function.update_self] at hj
    exact .inl (Option.some.inj hj).symm
  · rw [Function.update_of_ne hw] at hj
    exact .inr hj

theorem holds_dispatched (hqueue : s.queue = j₀ :: js) (hidle : s.workers w = none)
    (j : NotifierJob) :
    Holds { s with queue := js, workers := Function.update s.workers w (some j₀) } j ↔
      s.Holds j := by
  constructor
  · rintro (hj | hj | ⟨w',hj⟩)
    · exact .inl hj
    · exact .inr (.inl (by simp [hqueue,show j ∈ js from hj]))
    · rcases workers_dispatched hj with rfl | hj
      · exact .inr (.inl (by simp [hqueue]))
      · exact .inr (.inr ⟨w',hj⟩)
  · rintro (hj | hj | ⟨w',hj⟩)
    · exact .inl hj
    · rw [hqueue] at hj
      rcases List.mem_cons.mp hj with rfl | hj
      · exact .inr (.inr ⟨w,by simp⟩)
      · exact .inr (.inl hj)
    · have hw : w' ≠ w := by
        rintro rfl
        rw [hidle] at hj
        cases hj
      exact .inr (.inr ⟨w',by simpa [hw] using hj⟩)

theorem dispatch_inv (h : s.Inv) (hturn : s.InTurn (.dispatch w)) : (s.dispatch cnt w).Inv := by
  unfold dispatch
  split
  · next j₀ js hqueue hidle =>
    split_ifs with hcnt
    · have hfirst : ∀ w' j', s.workers w' = some j' → ¬ j₀.Overtakes j' :=
        hturn j₀ (by rw [hqueue]; rfl)
      have hin₀ : j₀ ∈ s.queue := by rw [hqueue]; exact List.mem_cons_self
      have hjs : ∀ j ∈ js, j ∈ s.queue := by
        intro j hj
        rw [hqueue]
        exact List.mem_cons_of_mem _ hj
      have hpair := h.queue_queue
      rw [hqueue,List.pairwise_cons] at hpair
      refine h.samePending ⟨rfl,rfl,rfl,holds_dispatched hqueue hidle⟩
        (fun j hj => h.queue_hand j (hjs j hj)) (fun w' j hj => ?_) hpair.2
        (fun w' j hj j' hj' => ?_) (fun w₁ j w₂ j' hj hj' => ?_)
      · rcases workers_dispatched hj with rfl | hj
        · exact h.queue_hand j hin₀
        · exact h.worker_hand w' j hj
      · rcases workers_dispatched hj with rfl | hj
        · exact hpair.1 j' hj'
        · exact h.worker_queue w' j hj j' (hjs j' hj')
      · rcases workers_dispatched hj with heq | hold
        · rcases workers_dispatched hj' with heq' | hold'
          · rw [heq,heq']
            exact fun hover => lt_irrefl _ hover.1
          · rw [heq]
            exact hfirst w₂ j' hold'
        · rcases workers_dispatched hj' with heq' | hold'
          · rw [heq']
            exact h.worker_queue w₁ j hold j₀ hin₀
          · exact h.worker_worker w₁ j w₂ j' hold hold'
    · exact h
  · exact h

end dispatch

/-- The workers go on with their jobs, and nothing pending is forgotten. -/
theorem Inv.workers {s : Notifications} (h : s.Inv) {f : ℕ → Option NotifierJob}
    {g : CClientPtr → List ℕ}
    (hold : ∀ w j, f w = some j →
      ∃ j₁, s.workers w = some j₁ ∧ j.event = j₁.event ∧ j.clis ⊆ j₁.clis)
    (hqueued : ∀ d, ∀ e ∈ g d, e < s.events ∧ ∀ e' < e, ¬ s.Pending e' d)
    (hsorted : ∀ d, (g d).Pairwise (· ≤ ·))
    (hknown : ∀ e d, s.Pending e d ∨ e ∈ s.notimsgs d →
      Pending { s with workers := f, notimsgs := g } e d ∨ e ∈ g d) :
    Inv { s with workers := f, notimsgs := g } := by
  have hback : ∀ j, Holds { s with workers := f, notimsgs := g } j →
      ∃ j₁, s.Holds j₁ ∧ j.event = j₁.event ∧ j.clis ⊆ j₁.clis := by
    rintro j (hj | hj | ⟨w,hj⟩)
    · exact ⟨j,.inl hj,rfl,List.Subset.refl _⟩
    · exact ⟨j,.inr (.inl hj),rfl,List.Subset.refl _⟩
    · obtain ⟨j₁,hj₁,he,hs⟩ := hold w j hj
      exact ⟨j₁,.inr (.inr ⟨w,hj₁⟩),he,hs⟩
  refine ⟨h.queue_hand,fun w j hj c j' hj' hover => ?_,h.queue_queue,
    fun w j hj j' hj' hover => ?_,fun w j w' j' hj hj' hover => ?_,fun d e he => ?_,
    fun j hj => ?_,hsorted,fun e d hd => hknown e d (h.known e d hd)⟩
  · obtain ⟨j₁,hj₁,he,hs⟩ := hold w j hj
    exact h.worker_hand w j₁ hj₁ c j' hj' (.of_subset hover he rfl hs (List.Subset.refl _))
  · obtain ⟨j₁,hj₁,he,hs⟩ := hold w j hj
    exact h.worker_queue w j₁ hj₁ j' hj' (.of_subset hover he rfl hs (List.Subset.refl _))
  · obtain ⟨j₁,hj₁,he,hs⟩ := hold w j hj
    obtain ⟨j₂,hj₂,he',hs'⟩ := hold w' j' hj'
    exact h.worker_worker w j₁ w' j₂ hj₁ hj₂ (.of_subset hover he he' hs hs')
  · obtain ⟨hlt,hquiet⟩ := hqueued d e he
    refine ⟨hlt,fun e' he' ⟨j,hj,hje,hjd⟩ => ?_⟩
    obtain ⟨j₁,hj₁,hej,hs⟩ := hback j hj
    exact hquiet e' he' ⟨j₁,hj₁,hej ▸ hje,hs hjd⟩
  · obtain ⟨j₁,hj₁,he,-⟩ := hback j hj
    exact he ▸ h.held j₁ hj₁

/-- A step of one worker leaves all jobs but its own where they are. -/
theorem Holds.other {s : Notifications} {j : NotifierJob} (hj : s.Holds j) (w : ℕ)
    (v : Option NotifierJob) (g : CClientPtr → List ℕ) :
    Holds { s with workers := Function.update s.workers w v, notimsgs := g } j ∨
      s.workers w = some j := by
  rcases hj with hj | hj | ⟨w',hj⟩
  · exact .inl (.inl hj)
  · exact .inl (.inr (.inl hj))
  · by_cases hww : w' = w
    · exact .inr (hww ▸ hj)
    · exact .inl (.inr (.inr ⟨w',by simpa [hww] using hj⟩))

/-- A worker that has told everybody. -/
theorem idle_inv {s : Notifications} (h : s.Inv) {w e₀ : ℕ} (hw : s.workers w = some ⟨e₀,[]⟩) :
    Inv { s with workers := Function.update s.workers w none } := by
  refine h.workers (fun w' j hj => ?_) h.queued h.sorted fun e d hp => ?_
  · by_cases hww : w' = w
    · rw [hww,Function.update_self] at hj
      cases hj
    · rw [Function.update_of_ne hww] at hj
      exact ⟨j,hj,rfl,List.Subset.refl _⟩
  · refine hp.imp_left fun ⟨j,hj,he,hd⟩ => ?_
    rcases hj.other w none s.notimsgs with hj | hown
    · exact ⟨j,hj,he,hd⟩
    · rw [hw] at hown
      cases hown
      cases hd

/-- Nothing earlier is pending for the recipients of a worker's job. -/
theorem Inv.quiet {s : Notifications} (h : s.Inv) {w : ℕ} {j : NotifierJob}
    (hw : s.workers w = some j) {d : CClientPtr} (hd : d ∈ j.clis) :
    ∀ e < j.event, ¬ s.Pending e d := by
  rintro e hlt ⟨j',hj',he,hd'⟩
  have hover : j.Overtakes j' := ⟨he ▸ hlt,d,hd,hd'⟩
  rcases hj' with ⟨c,hj'⟩ | hj' | ⟨w',hj'⟩
  · exact h.worker_hand w j hw c j' hj' hover
  · exact h.worker_queue w j hw j' hj' hover
  · exact h.worker_worker w j w' j' hw hj' hover

/-- A worker queues a notification at the next recipient. -/
theorem queueNotification_inv {s : Notifications} (h : s.Inv) {w e₀ : ℕ} {d₀ : CClientPtr}
    {ds : List CClientPtr} (hw : s.workers w = some ⟨e₀,d₀ :: ds⟩) :
    Inv { s with
      workers := Function.update s.workers w (some ⟨e₀,ds⟩)
      notimsgs := Function.update s.notimsgs d₀ (s.notimsgs d₀ ++ [e₀]) } := by
  have hpend : s.Pending e₀ d₀ := ⟨_,.inr (.inr ⟨w,hw⟩),rfl,List.mem_cons_self⟩
  refine h.workers (fun w' j hj => ?_) (fun d e he => ?_) (fun d => ?_) fun e d hp => ?_
  · by_cases hww : w' = w
    · rw [hww,Function.update_self] at hj
      cases hj
      exact ⟨⟨e₀,d₀ :: ds⟩,hww ▸ hw,rfl,List.subset_cons_self _ _⟩
    · rw [Function.update_of_ne hww] at hj
      exact ⟨j,hj,rfl,List.Subset.refl _⟩
  · by_cases hd : d = d₀
    · rw [hd,Function.update_self,List.mem_append,List.mem_singleton] at he
      rw [hd]
      rcases he with he | rfl
      · exact h.queued d₀ e he
      · exact ⟨h.held _ (.inr (.inr ⟨w,hw⟩)),h.quiet hw List.mem_cons_self⟩
    · rw [Function.update_of_ne hd] at he
      exact h.queued d e he
  · by_cases hd : d = d₀
    · rw [hd,Function.update_self,List.pairwise_append]
      refine ⟨h.sorted d₀,List.pairwise_singleton _ _,fun e he e' he' => ?_⟩
      rw [List.mem_singleton.mp he',← Nat.not_lt]
      intro hlt
      exact (h.queued d₀ e he).2 e₀ hlt hpend
    · rw [Function.update_of_ne hd]
      exact h.sorted d
  · by_cases hnew : d = d₀ ∧ e = e₀
    · right
      rw [hnew.1,Function.update_self,hnew.2]
      simp
    · rcases hp with ⟨j,hj,he,hd⟩ | hp
      · left
        rcases hj.other w (some ⟨e₀,ds⟩)
          (Function.update s.notimsgs d₀ (s.notimsgs d₀ ++ [e₀])) with hj | hown
        · exact ⟨j,hj,he,hd⟩
        · rw [hw] at hown
          cases hown
          have hds : d ∈ ds := by
            refine (List.mem_cons.mp hd).resolve_left fun hdd => ?_
            exact hnew ⟨hdd,he.symm⟩
          exact ⟨⟨e₀,ds⟩,.inr (.inr ⟨w,by simp⟩),he,hds⟩
      · right
        by_cases hd : d = d₀
        · rw [hd,Function.update_self,List.mem_append]
          exact .inl (hd ▸ hp)
        · rwa [Function.update_of_ne hd]

theorem work_inv {s : Notifications} (h : s.Inv) (w : ℕ) : (s.work w).Inv := by
  unfold work
  cases hw : s.workers w with
  | none => exact h
  | some j₀ =>
    obtain ⟨e₀,ds₀⟩ := j₀
    cases ds₀ with
    | nil => exact idle_inv h hw
    | cons d₀ ds => exact queueNotification_inv h hw

theorem step_inv {s s' : Notifications} (h : s.Inv) {e : Event} (hturn : s.InTurn e)
    (hstep : s.step cnt e = .ok s') : s'.Inv := by
  cases e with
  | session c ev => exact session_inv h hstep
  | assign c =>
    cases hstep
    exact assign_inv h hturn
  | dispatch w =>
    cases hstep
    exact dispatch_inv cnt h hturn
  | work w =>
    cases hstep
    exact work_inv h w

/-- In a run in which no job is overtaken, the notifications arrive in the order of the events. -/
theorem notifications_ordered (rm : CRoom) (heap : CClientPtr → CClient) (es : List Event)
    (s : Notifications) (hrun : Lts.exec (step cnt) (start rm heap) es = .ok s)
    (hturn : Lts.Meets (Lts.Steps (step cnt)) InTurn (start rm heap) es) : s.Ordered := by
  have hinv : s.Inv := (Lts.exec_ok_iff.mp hrun).invariant_of_meets
    (fun s e s' h hc hstep => step_inv cnt h hc hstep) hturn (start_inv rm heap)
  exact hinv.ordered

/-- A room with a session of the client 1. -/
def oneSession : CRoom :=
  (CRoom.new ⟨1,10,"",Nat.one_pos,CRoomConfig.one_lt⟩).setSession 1 (CSession.new 1 .create 1)

/-- A player enters and a watcher comes; two workers tell the others, each in turn. Then the player
is ready. -/
def threeEvents : List Event :=
  [.session 2 (.enter 1),.session 3 (.watch 1),.assign 2,.dispatch 0,.assign 3,.work 0,.dispatch 1,
   .work 1,.session 2 (.ready 1),.work 0,.work 1,.assign 2,.dispatch 0,.work 0,.work 0]

theorem notifications_ordered_three : ∃ s,
    Lts.exec (step 2) (start oneSession fun _ => .absent) threeEvents = .ok s ∧ s.Ordered ∧
    s.notimsgs 1 = [0,1,2] ∧ s.notimsgs 2 = [1] ∧ s.notimsgs 3 = [2] := by
  refine ⟨_,rfl,notifications_ordered 2 oneSession (fun _ => .absent) threeEvents _ rfl ?_,
    rfl,rfl,rfl⟩
  -- the jobs in hand are no older than the assigned one, and the workers hold spent jobs
  refine Lts.meets_cons rfl trivial <| Lts.meets_cons rfl trivial <| Lts.meets_cons rfl ?_ <|
    Lts.meets_cons rfl ?_ <| Lts.meets_cons rfl ?_ <| Lts.meets_cons rfl trivial <|
    Lts.meets_cons rfl ?_ <| Lts.meets_cons rfl trivial <| Lts.meets_cons rfl trivial <|
    Lts.meets_cons rfl trivial <| Lts.meets_cons rfl trivial <| Lts.meets_cons rfl ?_ <|
    Lts.meets_cons rfl ?_ <| Lts.meets_cons rfl trivial <| Lts.meets_cons rfl trivial trivial
  · intro j hj c' j' hj' hover
    cases hj
    exact Nat.not_lt_zero _ hover.1
  · intro j hj w' j' hj' hover
    cases hj
    exact Nat.not_lt_zero _ hover.1
  · intro j hj c' j' hj' hover
    cases hj
    match c', hj' with
    | 0, hj' => cases hj'
    | 1, hj' => cases hj'
    | 2, hj' => cases hj'
    | 3, hj' =>
      rw [List.mem_singleton.mp hj'] at hover
      exact lt_irrefl _ hover.1
    | n + 4, hj' => cases hj'
  · intro j hj w' j' hj' hover
    cases hj
    match w', hj' with
    | 0, hj' =>
      cases hj'
      obtain ⟨-,d,-,hd⟩ := hover
      cases hd
    | n + 1, hj' => cases hj'
  · intro j hj c' j' hj' hover
    cases hj
    match c', hj' with
    | 0, hj' => cases hj'
    | 1, hj' => cases hj'
    | 2, hj' =>
      rw [List.mem_singleton.mp hj'] at hover
      exact lt_irrefl _ hover.1
    | 3, hj' => cases hj'
    | n + 4, hj' => cases hj'
  · intro j hj w' j' hj' hover
    cases hj
    match w', hj' with
    | 0, hj' => cases hj'
    | 1, hj' =>
      cases hj'
      obtain ⟨-,d,-,hd⟩ := hover
      cases hd
    | n + 2, hj' => cases hj'

/-- A player enters and is ready; the worker with the second notification is the faster one. -/
def twoWorkers : List Event :=
  [.session 2 (.enter 1),.assign 2,.session 2 (.ready 1),.assign 2,.dispatch 0,.dispatch 1,
    .work 1,.work 0]

theorem notification_overtaken :
    ∃ s, Lts.exec (step 2) (start oneSession fun _ => .absent) twoWorkers = .ok s ∧
      ¬ s.Ordered := by
  refine ⟨_,rfl,fun h => ?_⟩
  have hsorted : [1,0].Pairwise (· ≤ ·) := h.sorted 1
  exact absurd hsorted (by decide)

end Notifications
end CcniServer
