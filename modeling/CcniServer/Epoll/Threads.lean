import CcniServer.Client.Io
import Mathlib.Data.Finset.Basic

/-!
The threads around one client: the listener threads, each with an epoll set of its own, the
workers of the pool that run the client's task, and the jobs that queue notifications. Each step is
one access to what they share, but for `rmFromEpoll`, whose `epoll_ctl` and store to `_epfd` are one
step, and the return of a thread, which releases what it has locked.
-/
namespace CcniServer

/-- A listener thread, as far as the client is concerned: it waits, it has got the client's
event, or it has called `rmFromEpoll` and goes on to the thread pool. -/
inductive ListenPc
  | waiting
  | event
  | removed
  deriving DecidableEq

/-- A thread that can call `addToEpoll`: the login job, a worker, a notifier. -/
inductive Thread
  | login
  | worker (w : ℕ)
  | notifier (n : ℕ)
  deriving DecidableEq

/-- What such a thread does next. -/
inductive Pc
  | out
  | lock
  | body
  | retire
  | rmFromEpoll
  | donotify
  | assign
  | add
  | store (l : ℕ)
  | leave
  deriving DecidableEq

/-- One client with its task, and the threads. `-1` in `_epfd` is `none`; `jobs` counts the
jobs of the task that wait in the thread pool. -/
structure CClientTask where
  io : CClientIo
  epoll : Finset ℕ
  _epfd : Option ℕ
  _iolk : Option Thread
  _lk : Option Thread
  jobs : ℕ
  listener : ℕ → ListenPc
  pc : Thread → Pc

namespace CClientTask

/-- After `addClient`, in front of `CUserListener::assign`. -/
def new (sock : Sock) : CClientTask where
  io := .new sock
  epoll := ∅
  _epfd := none
  _iolk := none
  _lk := none
  jobs := 0
  listener := fun _ => .waiting
  pc := fun t => if t = .login then .assign else .out

def setListener (s : CClientTask) (l : ℕ) (p : ListenPc) : CClientTask :=
  { s with listener := Function.update s.listener l p }

def setPc (s : CClientTask) (t : Thread) (p : Pc) : CClientTask :=
  { s with pc := Function.update s.pc t p }

/-- A failed `epoll_ctl` changes nothing, and every caller ignores it. -/
def rmFromEpoll (s : CClientTask) : CClientTask :=
  match s._epfd with
  | none => s
  | some l => if l ∈ s.epoll then { s with epoll := s.epoll.erase l, _epfd := none } else s

def unlock (t : Thread) (lk : Option Thread) : Option Thread := if lk = some t then none else lk

/-- A step of a listener thread, of a worker, of a notifier, or of any of those that lock and
arm. -/
inductive Event
  | wait (l : ℕ)
  | rm (l : ℕ)
  | pool (l : ℕ)
  | take (w : ℕ)
  | work (w : ℕ) (dump : Option (List UInt8))
  | retire (w : ℕ)
  | call (n : ℕ)
  | push (n : ℕ) (dump : List UInt8)
  | rmIdle (n : ℕ)
  | donotify (n : ℕ)
  | lock (t : Thread)
  | assign (t : Thread)
  | add (t : Thread) (l : ℕ)
  | addFail (t : Thread)
  | store (t : Thread)
  | leave (t : Thread)

variable (createFromXmlCdata : List UInt8 → Option CXmlNode)

inductive Step : CClientTask → Event → CClientTask → Prop
  /- `epoll_wait` reports a registered descriptor. -/
  | wait {s : CClientTask} {l : ℕ} (hpc : s.listener l = .waiting) (hreg : l ∈ s.epoll) :
      Step s (.wait l) (s.setListener l .event)
  /- The listener takes no lock, and asks the client for the set to leave. -/
  | rm {s : CClientTask} {l : ℕ} (hpc : s.listener l = .event) :
      Step s (.rm l) (s.rmFromEpoll.setListener l .removed)
  | pool {s : CClientTask} {l : ℕ} (hpc : s.listener l = .removed) :
      Step s (.pool l) ({ s with jobs := s.jobs + 1 }.setListener l .waiting)
  | take {s : CClientTask} {w : ℕ} (hpc : s.pc (.worker w) = .out) (hjob : 0 < s.jobs) :
      Step s (.take w) ({ s with jobs := s.jobs - 1 }.setPc (.worker w) .lock)
  | work {s : CClientTask} {w : ℕ} {dump : Option (List UInt8)}
      (hpc : s.pc (.worker w) = .body) :
      Step s (.work w dump)
        ({ s with io := (CClientIo.resume createFromXmlCdata dump s.io).2 }.setPc (.worker w)
          (if (CClientIo.resume createFromXmlCdata dump s.io).1 then .assign else .retire))
  /- The disconnect path deletes the task. -/
  | retire {s : CClientTask} {w : ℕ} (hpc : s.pc (.worker w) = .retire) :
      Step s (.retire w)
        ({ s with io := { s.io with _ctsk := false }, _iolk := none }.setPc (.worker w) .out)
  | call {s : CClientTask} {n : ℕ} (hpc : s.pc (.notifier n) = .out) :
      Step s (.call n) (s.setPc (.notifier n) .lock)
  | push {s : CClientTask} {n : ℕ} {dump : List UInt8} (hpc : s.pc (.notifier n) = .body) :
      Step s (.push n dump)
        ({ s with
          io := s.io.push_back (CCNIMsgPacker.new.pack (some dump) 0 0 0 0).2.frame
          }.setPc (.notifier n) (if s.io._pstate = io_state_t.iostIdle then .rmFromEpoll else .leave))
  | rmIdle {s : CClientTask} {n : ℕ} (hpc : s.pc (.notifier n) = .rmFromEpoll) :
      Step s (.rmIdle n) (s.rmFromEpoll.setPc (.notifier n) .donotify)
  | donotify {s : CClientTask} {n : ℕ} (hpc : s.pc (.notifier n) = .donotify) :
      Step s (.donotify n) ({ s with io := s.io.donotify.2 }.setPc (.notifier n) .assign)
  | lock {s : CClientTask} {t : Thread} (hpc : s.pc t = .lock) (hfree : s._iolk = none) :
      Step s (.lock t) ({ s with _iolk := some t }.setPc t .body)
  /- `CUserListener::assign` takes its own lock and picks a listener thread. -/
  | assign {s : CClientTask} {t : Thread} (hpc : s.pc t = .assign) (hfree : s._lk = none) :
      Step s (.assign t) ({ s with _lk := some t }.setPc t .add)
  | add {s : CClientTask} {t : Thread} {l : ℕ} (hpc : s.pc t = .add) (hnew : l ∉ s.epoll) :
      Step s (.add t l) ({ s with epoll := insert l s.epoll }.setPc t (.store l))
  | addFail {s : CClientTask} {t : Thread} (hpc : s.pc t = .add) :
      Step s (.addFail t) (s.setPc t .leave)
  | store {s : CClientTask} {t : Thread} {l : ℕ} (hpc : s.pc t = .store l) :
      Step s (.store t) ({ s with _epfd := some l }.setPc t .leave)
  | leave {s : CClientTask} {t : Thread} (hpc : s.pc t = .leave) :
      Step s (.leave t)
        ({ s with _lk := unlock t s._lk, _iolk := unlock t s._iolk }.setPc t .out)

theorem Step.det {createFromXmlCdata : List UInt8 → Option CXmlNode} {s t t' : CClientTask}
    {e : Event} (h : Step createFromXmlCdata s e t) (h' : Step createFromXmlCdata s e t') :
    t = t' := by
  cases h with
  | store hpc =>
    cases h' with
    | store hpc' =>
      obtain rfl := Pc.store.inj (hpc.symm.trans hpc')
      rfl
  | _ =>
    cases h'
    rfl

section
variable (s : CClientTask)

@[simp] theorem setPc_pc (t : Thread) (p : Pc) (t' : Thread) :
    (s.setPc t p).pc t' = if t' = t then p else s.pc t' := Function.update_apply _ _ _ _

@[simp] theorem setListener_listener (l : ℕ) (p : ListenPc) (l' : ℕ) :
    (s.setListener l p).listener l' = if l' = l then p else s.listener l' :=
  Function.update_apply _ _ _ _

@[simp] theorem rmFromEpoll_pc : s.rmFromEpoll.pc = s.pc := by
  unfold rmFromEpoll
  split
  · rfl
  · split <;> rfl

@[simp] theorem rmFromEpoll_io : s.rmFromEpoll.io = s.io := by
  unfold rmFromEpoll
  split
  · rfl
  · split <;> rfl

end

end CClientTask
end CcniServer
