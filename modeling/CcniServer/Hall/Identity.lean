import CcniServer.Hall.Replies

/-!
What a client keeps from its login to its end: the name that it logged in with, and the socket and
the address that broadcasts go to. No handler writes them, of whatever client; and a client whose
task has ended gets another one only with another login.
-/
namespace CcniServer

/-- The name, the way to the client over UDP, and its task. -/
structure CClient.Ident where
  uname : String
  udp : CUdpSockDataPtr
  udpaddr : SockaddrIn
  ctsk : Bool
  deriving DecidableEq

def CClient.ident (cl : CClient) : CClient.Ident := ⟨cl.uname,cl.udp,cl.udpaddr,cl.ctsk⟩

namespace CEngine

/-- Everybody is who he was. -/
def SameIdent (s t : CEngine) : Prop := ∀ d, (t.clients d).ident = (s.clients d).ident

section
variable {s t u : CEngine} {c : CClientPtr}

theorem SameIdent.refl (s : CEngine) : SameIdent s s := fun _ => rfl

theorem SameIdent.trans (h : SameIdent s t) (h' : SameIdent t u) : SameIdent s u :=
  fun d => (h' d).trans (h d)

theorem SameIdent.of_clients (h : t.clients = s.clients) : SameIdent s t := by
  intro d
  rw [h]

/-- A write of other fields of one client. -/
theorem SameIdent.modify (h : SameIdent s t) {f : CClient → CClient}
    (hf : ∀ cl, (f cl).ident = cl.ident) : SameIdent s (t.modify c f) := by
  intro d
  by_cases hd : d = c
  · subst hd
    rw [clients_modify,hf]
    exact h d
  · rw [clients_modify_of_ne _ _ hd]
    exact h d

theorem SameIdent.assign (h : SameIdent s t) (job : CJob) : SameIdent s (t.assign job) := h

theorem SameIdent.appendmsg (h : SameIdent s t) (m : CXmlNode) : SameIdent s (t.appendmsg c m) :=
  h.modify fun _ => rfl

theorem SameIdent.doreturn (h : SameIdent s t) (tag des : String) (rcode : ℤ) :
    SameIdent s (CClient.doreturn t c tag rcode des).1 := h.appendmsg _

theorem SameIdent.sessionRes (h : SameIdent s t) (ret : ℤ) (success : String) :
    SameIdent s (CClient.sessionRes t c ret success).1 := by
  unfold CClient.sessionRes
  split_ifs <;> apply h.doreturn

end
end CEngine

namespace CClient
open CEngine

section
variable {s t : CEngine} {c : CClientPtr}

theorem genBdsAndNotis_ident (s : CEngine) (c : CClientPtr) :
    SameIdent s (genBdsAndNotis s c) := (SameIdent.refl s).modify fun _ => rfl

theorem consumeBdsAndNotis_ident (s : CEngine) (c : CClientPtr) :
    SameIdent s (consumeBdsAndNotis s c) := by
  have hassign : ∀ (s : CEngine) (job : CJob) (f : CClient → CClient),
      (∀ cl, (f cl).ident = cl.ident) → SameIdent s ((s.assign job).modify c f) :=
    fun s job f hf => SameIdent.modify (.of_clients rfl) hf
  have hbds : SameIdent s (consumeBds s c) := by
    unfold consumeBds
    split_ifs
    · exact .refl s
    · exact hassign s _ _ fun _ => rfl
  refine hbds.trans ?_
  unfold consumeBdsAndNotis consumeNotis
  split_ifs
  · exact .refl _
  · exact hassign _ _ _ fun _ => rfl

theorem leaveRoom_ident (h : leaveRoom s c = .ok t) : SameIdent s t := by
  unfold leaveRoom at h
  cases hrm : s.findRoom (s.clients c).roomid with
  | none =>
    simp only [hrm] at h
    cases h
  | some rm =>
    simp only [hrm] at h
    obtain ⟨_,-,h⟩ := Checked.bind_eq_ok.mp h
    cases h
    exact SameIdent.modify (.of_clients rfl) fun _ => rfl

theorem enterRoom_ident (s : CEngine) (c : CClientPtr) (rid : ℤ) :
    SameIdent s (enterRoom s c rid).1 := by
  unfold enterRoom
  split_ifs
  · exact .refl s
  · cases s.findRoom rid with
    | none => exact .refl s
    | some rm =>
      dsimp only
      split_ifs
      · dsimp only
        apply SameIdent.modify
        · exact .of_clients rfl
        · exact fun _ => rfl
      · exact .refl s

theorem createSession_ident {cfg : CSessionConfig} {res : CEngine × ℤ}
    (h : createSession s c cfg = .ok res) : SameIdent s res.1 := by
  obtain ⟨_,-,h⟩ := Checked.bind_eq_ok.mp h
  cases hrm : s.findRoom (s.clients c).roomid with
  | none =>
    simp only [hrm] at h
    cases h
  | some rm =>
    simp only [hrm] at h
    obtain ⟨made,-,h⟩ := Checked.bind_eq_ok.mp h
    cases h
    dsimp only
    apply SameIdent.modify
    · exact .of_clients rfl
    · exact fun _ => rfl

theorem leaveSession_ident {res : CEngine × ℤ} (h : leaveSession s c = .ok res) :
    SameIdent s res.1 := by
  obtain ⟨_,-,h⟩ := Checked.bind_eq_ok.mp h
  cases hrm : s.findRoom (s.clients c).roomid with
  | none =>
    simp only [hrm] at h
    cases h
  | some rm =>
    simp only [hrm] at h
    obtain ⟨left,-,h⟩ := Checked.bind_eq_ok.mp h
    cases h
    dsimp only
    apply SameIdent.modify
    · exact .of_clients rfl
    · exact fun _ => rfl

theorem enterSession_ident {sid : ℤ} {res : CEngine × ℤ} (h : enterSession s c sid = .ok res) :
    SameIdent s res.1 := by
  obtain ⟨_,-,h⟩ := Checked.bind_eq_ok.mp h
  cases hrm : s.findRoom (s.clients c).roomid with
  | none =>
    simp only [hrm] at h
    cases h
  | some rm =>
    simp only [hrm] at h
    split_ifs at h
    · cases h
      exact .refl s
    · cases h
      dsimp only
      apply SameIdent.modify
      · exact .of_clients rfl
      · exact fun _ => rfl

theorem watchSession_ident {sid : ℤ} {res : CEngine × ℤ} (h : watchSession s c sid = .ok res) :
    SameIdent s res.1 := by
  obtain ⟨_,-,h⟩ := Checked.bind_eq_ok.mp h
  cases hrm : s.findRoom (s.clients c).roomid with
  | none =>
    simp only [hrm] at h
    cases h
  | some rm =>
    simp only [hrm] at h
    split_ifs at h
    · cases h
      exact .refl s
    · cases h
      dsimp only
      apply SameIdent.modify
      · exact .of_clients rfl
      · exact fun _ => rfl

theorem doReady_ident {res : CEngine × ℤ} (h : doReady s c = .ok res) : SameIdent s res.1 := by
  obtain ⟨_,-,h⟩ := Checked.bind_eq_ok.mp h
  cases hrm : s.findRoom (s.clients c).roomid with
  | none =>
    simp only [hrm] at h
    cases h
  | some rm =>
    simp only [hrm] at h
    obtain ⟨ready,hready,h⟩ := Checked.bind_eq_ok.mp h
    obtain ⟨_,-,h⟩ := Checked.bind_eq_ok.mp h
    cases h
    have hheap : SameIdent s { s with clients := ready.heap } := by
      intro d
      obtain ⟨st,hst⟩ := (ready_effect hready).1 d
      change (ready.heap d).ident = _
      rw [hst]
      rfl
    apply SameIdent.doreturn
    refine hheap.trans ?_
    unfold readyMsgs
    split_ifs
    · exact (SameIdent.refl _).modify fun _ => rfl
    · dsimp only
      apply SameIdent.assign
      exact (SameIdent.refl _).modify fun _ => rfl
    · exact (SameIdent.refl _).modify fun _ => rfl

theorem run_ident {fn : Msghnd} {msg : CXmlNode} {res : CEngine × ℤ}
    (h : fn.run s c msg = .ok res) : SameIdent s res.1 := by
  cases fn with
  | doEnterRoom =>
    change doEnterRoom s c msg = .ok res at h
    unfold doEnterRoom at h
    dsimp only at h
    split_ifs at h <;>
    · cases h
      exact (enterRoom_ident s c _).doreturn _ _ _
  | doLeaveRoom =>
    obtain ⟨_,-,h⟩ := Checked.bind_eq_ok.mp h
    obtain ⟨t,hleft,h⟩ := Checked.bind_eq_ok.mp h
    cases h
    exact (leaveRoom_ident hleft).doreturn _ _ _
  | doNewSession =>
    obtain ⟨made,hmade,h⟩ := Checked.bind_eq_ok.mp h
    have hsame := createSession_ident hmade
    split_ifs at h <;>
    · cases h
      exact hsame.appendmsg _
  | doEnterSession =>
    obtain ⟨entered,hentered,h⟩ := Checked.bind_eq_ok.mp h
    cases h
    exact (enterSession_ident hentered).sessionRes _ _
  | doWatchSession =>
    obtain ⟨watched,hwatched,h⟩ := Checked.bind_eq_ok.mp h
    cases h
    exact (watchSession_ident hwatched).sessionRes _ _
  | doLeaveSession =>
    obtain ⟨left,hleft,h⟩ := Checked.bind_eq_ok.mp h
    cases h
    exact (leaveSession_ident hleft).doreturn _ _ _
  | doReady => exact doReady_ident h
  | doListSessions =>
    obtain ⟨_,-,h⟩ := Checked.bind_eq_ok.mp h
    cases hrm : s.findRoom (s.clients c).roomid with
    | none =>
      simp only [hrm] at h
      cases h
    | some rm =>
      simp only [hrm] at h
      cases h
      exact (SameIdent.refl s).appendmsg _
  | doLogout | doCCNI | doMyState | doListRooms | doUnknow =>
    cases h
    exact (SameIdent.refl s).appendmsg _
  | doMove | doDraw | doGiveUp | doSendMessages =>
    cases h
    exact .refl s

theorem procMsg_ident {msg : CXmlNode} {res : CEngine × Bool} (h : procMsg s c msg = .ok res) :
    SameIdent s res.1 := by
  by_cases hel : msg.isElement = true
  · rw [procMsg_eq s c hel] at h
    obtain ⟨handled,hhandled,h⟩ := Checked.bind_eq_ok.mp h
    have hsame : SameIdent s handled.1 := by
      unfold handle checkstate at hhandled
      by_cases hst : (s.clients c).state.isIn (findHnd msg.name).vstate = true
      · simp only [hst,if_true] at hhandled
        exact (genBdsAndNotis_ident s c).trans (run_ident hhandled)
      · simp only [hst] at hhandled
        cases hhandled
        exact (SameIdent.refl s).appendmsg _
    split_ifs at h
    · cases h
      exact hsame
    · cases h
      exact hsame.trans (consumeBdsAndNotis_ident _ c)
  · rw [procMsg,if_neg hel] at h
    cases h
    exact .refl s

theorem dropSession_ident (h : dropSession s c = .ok t) : SameIdent s t := by
  unfold dropSession at h
  split_ifs at h
  · obtain ⟨left,hleft,h⟩ := Checked.bind_eq_ok.mp h
    cases h
    exact ((genBdsAndNotis_ident s c).trans (leaveSession_ident hleft)).trans
      (consumeBdsAndNotis_ident _ c)
  · cases h
    exact .refl s

theorem dropRoom_ident (h : dropRoom s c = .ok t) : SameIdent s t := by
  unfold dropRoom at h
  split_ifs at h
  · obtain ⟨left,hleft,h⟩ := Checked.bind_eq_ok.mp h
    cases h
    exact ((genBdsAndNotis_ident s c).trans (leaveRoom_ident hleft)).trans
      (consumeBdsAndNotis_ident _ c)
  · cases h
    exact .refl s

/-- The client loses its task; the others keep theirs. -/
theorem breakLine_ident (h : breakLine s c = .ok t) (d : CClientPtr) :
    (t.clients d).ident =
      if d = c then { (s.clients d).ident with ctsk := false } else (s.clients d).ident := by
  obtain ⟨u,hu,h⟩ := Checked.bind_eq_ok.mp h
  obtain ⟨v,hv,h⟩ := Checked.bind_eq_ok.mp h
  cases h
  have hsame := (dropSession_ident hu).trans (dropRoom_ident hv)
  split_ifs with hd
  · subst hd
    rw [clients_modify,← hsame d]
    rfl
  · rw [clients_modify_of_ne _ _ hd]
    exact hsame d

end
end CClient

namespace CEngine

/-- Apart from logins no step gives a client a task, and nobody with a task changes. -/
theorem step_ident {s t : CEngine} {e : Event}
    (he : ∀ c udp udpaddr uname, e ≠ .login c udp udpaddr uname) (h : s.step e = .ok t)
    {d : CClientPtr} (hd : (t.clients d).ctsk = true) :
    (t.clients d).ident = (s.clients d).ident := by
  cases e with
  | login c udp udpaddr uname => exact absurd rfl (he c udp udpaddr uname)
  | frame c =>
    simp only [step] at h
    split_ifs at h
    · cases h
      have hsame : SameIdent s (s.modify c (fun cl => { cl with resmsg := [] })) :=
        (SameIdent.refl s).modify fun _ => rfl
      exact hsame d
    · cases h
      rfl
  | request c msg =>
    simp only [step] at h
    split_ifs at h
    · cases hres : CClient.procMsg s c msg with
      | error site =>
        rw [hres] at h
        cases h
      | ok res =>
        rw [hres] at h
        cases h
        exact CClient.procMsg_ident hres d
    · cases h
      rfl
  | disconnect c =>
    simp only [step] at h
    split_ifs at h
    · have hident := CClient.breakLine_ident h d
      split_ifs at hident with hdc
      · have hno : (t.clients d).ident.ctsk = false := by rw [hident]
        exact absurd hd (by rw [show (t.clients d).ctsk = false from hno]; decide)
      · exact hident
    · cases h
      rfl

theorem clients_addClient (s : CEngine) (c : CClientPtr) :
    (s.addClient c).2.clients = s.clients := by
  unfold addClient
  split <;> rfl

/-- A login that succeeds makes the client at its address, with a task, and no other. -/
theorem login_ident (s : CEngine) (c : CClientPtr) (udp : CUdpSockDataPtr) (udpaddr : SockaddrIn)
    (uname : String) (d : CClientPtr) :
    ((s.login c udp udpaddr uname).clients d).ident = (s.clients d).ident ∨
      d = c ∧ ((s.login c udp udpaddr uname).clients d).ident = ⟨uname,udp,udpaddr,true⟩ := by
  unfold login
  dsimp only
  split_ifs with hok
  · by_cases hd : d = c
    · subst hd
      refine .inr ⟨rfl,?_⟩
      rw [clients_modify,clients_addClient,clients_modify]
      rfl
    · rw [clients_modify_of_ne _ _ hd,clients_addClient,clients_modify_of_ne _ _ hd]
      exact .inl rfl
  · exact .inl rfl

end CEngine
end CcniServer
