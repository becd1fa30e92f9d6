import CcniServer.Epoll.Ownership

/-!
The calls on one client as its lock orders them: whenever no thread is inside, the client is
where some sequence of whole calls leads.
-/
namespace CcniServer
namespace CClientTask

section
variable {createFromXmlCdata : List UInt8 → Option CXmlNode} {sock : Sock}

/-- Some sequence of whole calls leads to the state. -/
def Reached (createFromXmlCdata : List UInt8 → Option CXmlNode) (sock : Sock) (c : CClientIo) :
    Prop :=
  ∃ es, Lts.Run (CClientIo.Step createFromXmlCdata) (CClientIo.new sock) es c

/-- The thread is inside a call on the client. The login arms the client without its lock. -/
def Inside : Thread → Pc → Prop
  | _, .body => True
  | _, .retire => True
  | _, .rmFromEpoll => True
  | _, .donotify => True
  | .login, _ => False
  | _, .assign => True
  | _, .add => True
  | _, .store _ => True
  | _, .leave => True
  | _, _ => False

/-- What the client looks like while a thread is inside: between the parts of a call, or as a
whole call has left it. -/
def Phase (createFromXmlCdata : List UInt8 → Option CXmlNode) (sock : Sock) (c : CClientIo) :
    Pc → Prop
  | .retire => Reached createFromXmlCdata sock { c with _ctsk := false }
  | .rmFromEpoll => ∃ c₀ dump, Reached createFromXmlCdata sock c₀ ∧ c₀._pstate = .iostIdle ∧
      c = c₀.push_back (CCNIMsgPacker.new.pack (some dump) 0 0 0 0).2.frame
  | .donotify => ∃ c₀ dump, Reached createFromXmlCdata sock c₀ ∧ c₀._pstate = .iostIdle ∧
      c = c₀.push_back (CCNIMsgPacker.new.pack (some dump) 0 0 0 0).2.frame
  | _ => Reached createFromXmlCdata sock c

structure Atomic (createFromXmlCdata : List UInt8 → Option CXmlNode) (sock : Sock)
    (s : CClientTask) : Prop where
  inside : ∀ t, Inside t (s.pc t) → s._iolk = some t
  free : s._iolk = none → Reached createFromXmlCdata sock s.io
  held : ∀ t, s._iolk = some t → Phase createFromXmlCdata sock s.io (s.pc t)

/-! ### Whole calls -/

theorem Reached.step {c : CClientIo} (h : Reached createFromXmlCdata sock c)
    (e : CClientIo.Event) :
    Reached createFromXmlCdata sock (CClientIo.step createFromXmlCdata c e) := by
  obtain ⟨es,hrun⟩ := h
  exact ⟨es ++ [e],hrun.append (.cons rfl (.nil _))⟩

/-- The part of `doWork` under the switch, with or without the disconnect path. -/
theorem Reached.resume {c : CClientIo} (h : Reached createFromXmlCdata sock c)
    (htask : c._ctsk = true) (dump : Option (List UInt8)) :
    Phase createFromXmlCdata sock (CClientIo.resume createFromXmlCdata dump c).2
      (if (CClientIo.resume createFromXmlCdata dump c).1 then .assign else .retire) := by
  have hstep := h.step (.doWork dump)
  dsimp only [CClientIo.step,CClientIo.doWork] at hstep
  rw [if_pos htask] at hstep
  cases hret : (CClientIo.resume createFromXmlCdata dump c).1 with
  | true =>
    rw [hret,if_pos rfl] at hstep
    exact hstep
  | false =>
    rw [hret,if_neg Bool.false_ne_true] at hstep
    exact hstep

theorem Reached.push {c : CClientIo} (h : Reached createFromXmlCdata sock c)
    (dump : List UInt8) :
    Phase createFromXmlCdata sock
      (c.push_back (CCNIMsgPacker.new.pack (some dump) 0 0 0 0).2.frame)
      (if c._pstate = .iostIdle then .rmFromEpoll else .leave) := by
  split
  · next hidle => exact ⟨c,dump,h,hidle,rfl⟩
  · next hbusy =>
    have hstep := h.step (.queueNotification dump)
    rw [CClientIo.step_queueNotification,CClientIo.queueNotification_busy hbusy] at hstep
    exact hstep

theorem Reached.donotify {c : CClientIo}
    (h : Phase createFromXmlCdata sock c .donotify) :
    Reached createFromXmlCdata sock c.donotify.2 := by
  obtain ⟨c₀,dump,hreached,hidle,rfl⟩ := h
  have hstep := hreached.step (.queueNotification dump)
  rw [CClientIo.step_queueNotification,CClientIo.queueNotification_idle hidle] at hstep
  exact hstep

/-! ### The steps of the threads -/

variable {s s' : CClientTask} {e : Event}

theorem new_atomic : Atomic createFromXmlCdata sock (new sock) := by
  refine ⟨fun t ht => ?_,fun _ => ⟨[],.nil _⟩,fun t ht => absurd ht.symm (Option.some_ne_none t)⟩
  cases t <;> exact ht.elim

/-- A step outside the lock, or inside it without an access to the client. -/
theorem Atomic.move (h : Atomic createFromXmlCdata sock s) {t : Thread} {p : Pc}
    {epoll : Finset ℕ} {epfd : Option ℕ} {lk : Option Thread} {jobs : ℕ}
    (hin : Inside t p → Inside t (s.pc t))
    (hphase : Phase createFromXmlCdata sock s.io (s.pc t) → Phase createFromXmlCdata sock s.io p) :
    Atomic createFromXmlCdata sock
      ({ s with epoll := epoll, _epfd := epfd, _lk := lk, jobs := jobs }.setPc t p) := by
  refine ⟨fun t' ht' => ?_,h.free,fun t' ht' => ?_⟩
  · rw [setPc_pc] at ht'
    split at ht'
    · next heq => exact heq ▸ h.inside t (hin (heq ▸ ht'))
    · exact h.inside t' ht'
  · rw [setPc_pc]
    split
    · next heq => exact hphase (heq ▸ h.held t' ht')
    · exact h.held t' ht'

/-- A step on the client by the thread inside. -/
theorem Atomic.act (h : Atomic createFromXmlCdata sock s) {t : Thread} {p : Pc} {io : CClientIo}
    (hin : Inside t (s.pc t)) (hphase : Phase createFromXmlCdata sock io p) :
    Atomic createFromXmlCdata sock ({ s with io := io }.setPc t p) := by
  have hlock := h.inside t hin
  refine ⟨fun t' ht' => ?_,fun hfree => ?_,fun t' ht' => ?_⟩
  · rw [setPc_pc] at ht'
    split at ht'
    · next heq => exact heq ▸ hlock
    · exact h.inside t' ht'
  · exact absurd (hlock.symm.trans hfree) (Option.some_ne_none t)
  · have hsame : t' = t := Option.some.inj (ht'.symm.trans hlock)
    rw [setPc_pc,if_pos hsame]
    exact hphase

theorem Atomic.rm (h : Atomic createFromXmlCdata sock s) :
    Atomic createFromXmlCdata sock s.rmFromEpoll := by
  unfold CClientTask.rmFromEpoll
  split
  · exact h
  · split
    · exact ⟨h.inside,h.free,h.held⟩
    · exact h

theorem Atomic.lock (h : Atomic createFromXmlCdata sock s) {t : Thread} (hfree : s._iolk = none) :
    Atomic createFromXmlCdata sock ({ s with _iolk := some t }.setPc t .body) := by
  refine ⟨fun t' ht' => ?_,fun hnone => absurd hnone (Option.some_ne_none t),fun t' ht' => ?_⟩
  · rw [setPc_pc] at ht'
    split at ht'
    · next heq => exact congrArg some heq.symm
    · exact absurd ((h.inside t' ht').symm.trans hfree) (Option.some_ne_none t')
  · have hsame : t' = t := (Option.some.inj ht').symm
    rw [setPc_pc,if_pos hsame]
    exact h.free hfree

theorem Atomic.retire (h : Atomic createFromXmlCdata sock s) {w : ℕ}
    (hpc : s.pc (.worker w) = .retire) :
    Atomic createFromXmlCdata sock
      ({ s with io := { s.io with _ctsk := false }, _iolk := none }.setPc (.worker w) .out) := by
  have hlock := h.inside (.worker w) (by rw [hpc]; exact trivial)
  have hphase := h.held (.worker w) hlock
  rw [hpc] at hphase
  refine ⟨fun t' ht' => ?_,fun _ => hphase,fun t' ht' => absurd ht'.symm (Option.some_ne_none t')⟩
  rw [setPc_pc] at ht'
  split at ht'
  · next heq =>
    rw [heq] at ht'
    exact ht'.elim
  · next hne => exact absurd (Option.some.inj ((h.inside t' ht').symm.trans hlock)) hne

theorem Atomic.leave (h : Atomic createFromXmlCdata sock s) {t : Thread}
    (hpc : s.pc t = .leave) :
    Atomic createFromXmlCdata sock
      ({ s with _lk := unlock t s._lk, _iolk := unlock t s._iolk }.setPc t .out) := by
  have hother : ∀ t', unlock t s._iolk = some t' → t' ≠ t ∧ s._iolk = some t' := by
    intro t' ht'
    unfold unlock at ht'
    split at ht'
    · exact absurd ht'.symm (Option.some_ne_none t')
    · next hne =>
      refine ⟨fun heq => hne ?_,ht'⟩
      rw [← heq]
      exact ht'
  refine ⟨fun t' ht' => ?_,fun hnone => ?_,fun t' ht' => ?_⟩
  · rw [setPc_pc] at ht'
    split at ht'
    · next heq =>
      rw [heq] at ht'
      cases t <;> exact ht'.elim
    · next hne =>
      have hheld := h.inside t' ht'
      change unlock t s._iolk = some t'
      unfold unlock
      rw [hheld,if_neg (fun heq => hne (Option.some.inj heq))]
  · change unlock t s._iolk = none at hnone
    unfold unlock at hnone
    split at hnone
    · next hlock =>
      have hphase := h.held t hlock
      rw [hpc] at hphase
      exact hphase
    · exact h.free hnone
  · obtain ⟨hne,hheld⟩ := hother t' ht'
    rw [setPc_pc,if_neg hne]
    exact h.held t' hheld

theorem step_atomic (hi : Inv s) (h : Atomic createFromXmlCdata sock s)
    (hs : Step createFromXmlCdata s e s') : Atomic createFromXmlCdata sock s' := by
  cases hs with
  | wait hpc hreg => exact ⟨h.inside,h.free,h.held⟩
  | rm hpc => exact ⟨h.rm.inside,h.rm.free,h.rm.held⟩
  | pool hpc => exact ⟨h.inside,h.free,h.held⟩
  | take hpc hjob => exact h.move (fun hin => hin.elim) (fun hp => by rw [hpc] at hp; exact hp)
  | @work w dump hpc =>
    have hin : Inside (.worker w) (s.pc (.worker w)) := by
      rw [hpc]
      exact trivial
    have hphase := h.held _ (h.inside _ hin)
    rw [hpc] at hphase
    have hself : s.Owns (.thread (.worker w)) := by simp [Owns,hpc,holds]
    have htask : s.io._ctsk = true := by
      cases hgone : s.io._ctsk with
      | true => rfl
      | false => exact absurd hself (hi.gone hgone _)
    exact h.act hin (Reached.resume hphase htask dump)
  | retire hpc => exact h.retire hpc
  | call hpc => exact h.move (fun hin => hin.elim) (fun hp => by rw [hpc] at hp; exact hp)
  | @push n dump hpc =>
    have hin : Inside (.notifier n) (s.pc (.notifier n)) := by
      rw [hpc]
      exact trivial
    have hphase := h.held _ (h.inside _ hin)
    rw [hpc] at hphase
    exact h.act hin (Reached.push hphase dump)
  | rmIdle hpc =>
    rw [← s.rmFromEpoll_pc] at hpc
    refine h.rm.move (fun _ => ?_) (fun hp => ?_)
    · rw [hpc]
      exact trivial
    · rw [hpc] at hp
      exact hp
  | @donotify n hpc =>
    have hin : Inside (.notifier n) (s.pc (.notifier n)) := by
      rw [hpc]
      exact trivial
    have hphase := h.held _ (h.inside _ hin)
    rw [hpc] at hphase
    exact h.act hin (Reached.donotify hphase)
  | lock hpc hfree => exact h.lock hfree
  | @assign t hpc hfree =>
    refine h.move (fun hin => ?_) (fun hp => by rw [hpc] at hp; exact hp)
    rw [hpc]
    cases t <;> exact hin
  | @add t l hpc hnew =>
    refine h.move (fun hin => ?_) (fun hp => by rw [hpc] at hp; exact hp)
    rw [hpc]
    cases t <;> exact hin
  | @addFail t hpc =>
    refine h.move (fun hin => ?_) (fun hp => by rw [hpc] at hp; exact hp)
    rw [hpc]
    cases t <;> exact hin
  | @store t l hpc =>
    refine h.move (fun hin => ?_) (fun hp => by rw [hpc] at hp; exact hp)
    rw [hpc]
    cases t <;> exact hin
  | leave hpc => exact h.leave hpc

end

/-- Where `rmFromEpoll` finds the client, a client that no thread is inside of is where a
sequence of whole calls leads. -/
theorem unlocked_reached (createFromXmlCdata : List UInt8 → Option CXmlNode) (sock : Sock)
    {es : List Event} {s : CClientTask}
    (hrun : Lts.Run (Step createFromXmlCdata) (new sock) es s)
    (hfound : Lts.Meets (Step createFromXmlCdata) Found (new sock) es)
    (hfree : s._iolk = none) : Reached createFromXmlCdata sock s.io := by
  have hstep : ∀ s e s', Inv s ∧ Atomic createFromXmlCdata sock s → Found s e →
      Step createFromXmlCdata s e s' → Inv s' ∧ Atomic createFromXmlCdata sock s' :=
    fun s e s' h hc hs => ⟨step_inv h.1 hc hs,step_atomic h.1 h.2 hs⟩
  have hboth := hrun.invariant_of_meets hstep hfound ⟨new_inv sock,new_atomic⟩
  exact hboth.2.free hfree

/-- The stream of a client is framed also where the threads interleave. -/
theorem unlocked_framed (createFromXmlCdata : List UInt8 → Option CXmlNode) (sock : Sock)
    {es : List Event} {s : CClientTask}
    (hrun : Lts.Run (Step createFromXmlCdata) (new sock) es s)
    (hfound : Lts.Meets (Step createFromXmlCdata) Found (new sock) es)
    (hfree : s._iolk = none) :
    (∃ sent next tail, Framed sock.out s.io sent next tail) ∧
    (s.io._pstate = .iostIdle → s.io._notimsgs = []) := by
  obtain ⟨calls,hcalls⟩ := unlocked_reached createFromXmlCdata sock hrun hfound hfree
  have hinv : CClientIo.Inv sock.out s.io := hcalls.invariant
    (fun _ e _ h hs => hs ▸ CClientIo.step_inv createFromXmlCdata e h) (CClientIo.new_inv sock)
  exact hinv.framed

end CClientTask
end CcniServer
