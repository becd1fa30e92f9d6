import CcniServer.Hall.Membership
import CcniServer.Hall.Replies

/-!
Refused requests: what is pending when a handler starts, and what a request leaves behind that
`checkstate` or its handler refuses.
-/
namespace CcniServer

/-! ### Collecting recipients appends no message -/

namespace CBroadCaster

theorem msg_insertaddrs (b : CBroadCaster) (heap : CClientPtr → CClient) (cs : List CClientPtr) :
    (b.insertaddrs heap cs).msg = b.msg := by
  unfold insertaddrs
  induction cs generalizing b with
  | nil => rfl
  | cons c cs ih =>
    rw [List.foldl_cons,ih]
    unfold insertaddr
    cases b.broadcaster.find? (heap c).udp <;> rfl

theorem eq_create {b : CBroadCaster} (hmsg : b.msg = []) (hempty : b.empty = true) :
    b = create := by
  obtain ⟨msg,⟨entries,hsorted⟩⟩ := b
  have hnil : entries = [] := by simpa [empty,OrdMap.size] using hempty
  subst hnil
  cases hmsg
  rfl

end CBroadCaster

namespace CNotifier

theorem msg_addNotifiees (n : CNotifier) (cs : List CClientPtr) :
    (n.addNotifiees cs).msg = n.msg := by
  unfold addNotifiees
  induction cs generalizing n with
  | nil => rfl
  | cons c cs ih => rw [List.foldl_cons,ih,addNotifiee]

theorem eq_create {n : CNotifier} (hmsg : n.msg = []) (hempty : n.empty = true) :
    n = create := by
  obtain ⟨msg,clis⟩ := n
  have hnil : clis = [] := by simpa [empty] using hempty
  subst hnil
  cases hmsg
  rfl

end CNotifier

namespace CRoom

theorem enter_msg (rm : CRoom) (heap : CClientPtr → CClient) (c : CClientPtr) (bd : CBroadCaster) :
    (rm.enter heap c bd).2.2.msg = bd.msg := by
  unfold enter
  cases rm.addUser c with
  | none => rfl
  | some rm' => exact bd.msg_insertaddrs heap _

theorem leave_msg (rm : CRoom) (heap : CClientPtr → CClient) (c : CClientPtr) (bd : CBroadCaster) :
    (rm.leave heap c bd).2.2.msg = bd.msg := by
  unfold leave
  cases rm.dismiss c with
  | none => rfl
  | some rm' => exact bd.msg_insertaddrs heap _

theorem createSession_msg {rm : CRoom} {heap : CClientPtr → CClient} {c : CClientPtr}
    {cfg : CSessionConfig} {bd : CBroadCaster} {idseed : ℕ}
    {made : CSession × CRoom × CBroadCaster × ℕ}
    (h : rm.createSession heap c cfg bd idseed = .ok made) : made.2.2.1.msg = bd.msg := by
  obtain ⟨_,-,h⟩ := Checked.bind_eq_ok.mp h
  cases h
  exact bd.msg_insertaddrs heap _

theorem leaveSession_msg {rm : CRoom} {heap : CClientPtr → CClient} {sid : ℤ} {c : CClientPtr}
    {noti : CNotifier} {bd : CBroadCaster} {left : CRoom × CNotifier × CBroadCaster}
    (h : rm.leaveSession heap sid c noti bd = .ok left) :
    left.2.1.msg = noti.msg ∧ left.2.2.msg = bd.msg := by
  unfold leaveSession at h
  cases hss : rm.sessions.find? (Scan.toUInt32 sid) with
  | none =>
    simp only [hss] at h
    cases h
  | some ss =>
    simp only [hss] at h
    obtain ⟨_,-,h⟩ := Checked.bind_eq_ok.mp h
    have hnoti : (ss.leave c noti).2.2.msg = noti.msg := by
      unfold CSession.leave
      cases ss.unseat c with
      | none => rfl
      | some ss' => exact noti.msg_addNotifiees _
    split_ifs at h
    · cases h
      exact ⟨hnoti,bd.msg_insertaddrs heap _⟩
    · cases h
      exact ⟨hnoti,rfl⟩

theorem enterSession_msg (rm : CRoom) (sid : ℤ) (c : CClientPtr) (noti : CNotifier) :
    (rm.enterSession sid c noti).2.2.msg = noti.msg := by
  cases hss : rm.sessions.find? (Scan.toUInt32 sid) with
  | none => simp [enterSession,hss]
  | some ss =>
    cases hseat : ss.takeSeat c with
    | none => simp [enterSession,CSession.enter,hss,hseat]
    | some ss' => simp [enterSession,CSession.enter,hss,hseat,CNotifier.msg_addNotifiees]

theorem watchSession_msg (rm : CRoom) (sid : ℤ) (c : CClientPtr) (noti : CNotifier) :
    (rm.watchSession sid c noti).2.2.msg = noti.msg := by
  cases hss : rm.sessions.find? (Scan.toUInt32 sid) with
  | none => simp [watchSession,hss]
  | some ss =>
    cases hseat : ss.addWatcher c with
    | none => simp [watchSession,CSession.watch,hss,hseat]
    | some ss' => simp [watchSession,CSession.watch,hss,hseat,CNotifier.msg_addNotifiees]

end CRoom

namespace CClient
open CXmlMsg

/-! ### What is pending -/

/-- No recipient is collected and no message appended. -/
structure Clear (cl : CClient) : Prop where
  bder : cl.bder.getD CBroadCaster.create = CBroadCaster.create
  notifier : cl.notifier.getD CNotifier.create = CNotifier.create

/-- After a handler the client's messages have recipients, and nobody else's are touched. -/
structure Collected (s t : CEngine) (c : CClientPtr) : Prop where
  others : ∀ d, d ≠ c →
    (t.clients d).bder = (s.clients d).bder ∧ (t.clients d).notifier = (s.clients d).notifier
  bder : (theBder t c).empty = true → theBder t c = CBroadCaster.create
  notifier : (theNotifier t c).empty = true → theNotifier t c = CNotifier.create

theorem announce_clear {bd : CBroadCaster} {m : CXmlNode} (hmsg : bd.msg = [])
    (h : (announce bd m).empty = true) : announce bd m = CBroadCaster.create := by
  unfold announce at h ⊢
  split_ifs at h ⊢ with hempty
  · exact CBroadCaster.eq_create hmsg h
  · exact absurd h hempty

theorem notify_clear {noti : CNotifier} {m : CXmlNode} (hmsg : noti.msg = [])
    (h : (notify noti m).empty = true) : notify noti m = CNotifier.create := by
  unfold notify at h ⊢
  split_ifs at h ⊢ with hempty
  · exact CNotifier.eq_create hmsg h
  · exact absurd h hempty

section
variable {s t : CEngine} {c : CClientPtr}

theorem Clear.collected (h : Clear (s.clients c)) : Collected s s c where
  others := fun _ _ => ⟨rfl,rfl⟩
  bder := fun _ => h.bder
  notifier := fun _ => h.notifier

theorem Clear.bder_msg (h : Clear (s.clients c)) : (theBder s c).msg = [] := by
  rw [theBder,h.bder]
  rfl

theorem Clear.notifier_msg (h : Clear (s.clients c)) : (theNotifier s c).msg = [] := by
  rw [theNotifier,h.notifier]
  rfl

/-- Only the client's own object is written. -/
theorem Collected.modify {f : CClient → CClient} (ht : t.clients = s.clients)
    (hb : ((f (s.clients c)).bder.getD .create).empty = true →
      (f (s.clients c)).bder.getD .create = CBroadCaster.create)
    (hn : ((f (s.clients c)).notifier.getD .create).empty = true →
      (f (s.clients c)).notifier.getD .create = CNotifier.create) :
    Collected s (t.modify c f) c := by
  refine ⟨fun d hd => ?_,?_,?_⟩
  · rw [CEngine.clients_modify_of_ne t f hd,ht]
    exact ⟨rfl,rfl⟩
  · rw [theBder,CEngine.clients_modify,ht]
    exact hb
  · rw [theNotifier,CEngine.clients_modify,ht]
    exact hn

theorem Collected.appendmsg (h : Collected s t c) (m : CXmlNode) :
    Collected s (t.appendmsg c m) c := by
  refine ⟨fun d hd => ?_,?_,?_⟩
  · rw [CEngine.appendmsg,CEngine.clients_modify_of_ne t _ hd]
    exact h.others d hd
  · rw [theBder,CEngine.appendmsg,CEngine.clients_modify]
    exact h.bder
  · rw [theNotifier,CEngine.appendmsg,CEngine.clients_modify]
    exact h.notifier

theorem Collected.assign (h : Collected s t c) (job : CJob) : Collected s (t.assign job) c :=
  ⟨h.others,h.bder,h.notifier⟩

theorem Collected.doreturn (h : Collected s t c) (tag des : String) (rcode : ℤ) :
    Collected s (doreturn t c tag rcode des).1 c := h.appendmsg _

theorem Collected.sessionRes (h : Collected s t c) (ret : ℤ) (success : String) :
    Collected s (sessionRes t c ret success).1 c := by
  unfold CClient.sessionRes
  split_ifs <;> exact h.doreturn _ _ _

theorem enterRoom_collected (h : Clear (s.clients c)) (rid : ℤ) :
    Collected s (enterRoom s c rid).1 c := by
  unfold enterRoom
  split_ifs with hst
  · exact h.collected
  · cases s.findRoom rid with
    | none => exact h.collected
    | some rm =>
      dsimp only
      split_ifs with hin
      · dsimp only
        refine Collected.modify rfl ?_ fun _ => h.notifier
        apply announce_clear
        rw [CRoom.enter_msg,h.bder_msg]
      · exact h.collected

theorem doEnterRoom_collected {msg : CXmlNode} {res : CEngine × ℤ} (h : Clear (s.clients c))
    (hres : doEnterRoom s c msg = .ok res) : Collected s res.1 c := by
  have hroom := enterRoom_collected h (idOf msg)
  unfold doEnterRoom at hres
  dsimp only at hres
  split_ifs at hres <;>
  · cases hres
    exact hroom.doreturn _ _ _

theorem leaveRoom_collected (h : Clear (s.clients c)) (hres : leaveRoom s c = .ok t) :
    Collected s t c := by
  unfold leaveRoom at hres
  cases hrm : s.findRoom (s.clients c).roomid with
  | none =>
    simp only [hrm] at hres
    cases hres
  | some rm =>
    simp only [hrm] at hres
    obtain ⟨_,-,hres⟩ := Checked.bind_eq_ok.mp hres
    cases hres
    refine Collected.modify rfl ?_ fun _ => h.notifier
    apply announce_clear
    rw [CRoom.leave_msg,h.bder_msg]

theorem createSession_collected {cfg : CSessionConfig} {res : CEngine × ℤ}
    (h : Clear (s.clients c)) (hres : createSession s c cfg = .ok res) : Collected s res.1 c := by
  obtain ⟨_,-,hres⟩ := Checked.bind_eq_ok.mp hres
  cases hrm : s.findRoom (s.clients c).roomid with
  | none =>
    simp only [hrm] at hres
    cases hres
  | some rm =>
    simp only [hrm] at hres
    obtain ⟨made,hmade,hres⟩ := Checked.bind_eq_ok.mp hres
    cases hres
    dsimp only
    refine Collected.modify rfl ?_ fun _ => h.notifier
    apply announce_clear
    rw [CRoom.createSession_msg hmade,h.bder_msg]

theorem leaveSession_collected {res : CEngine × ℤ} (h : Clear (s.clients c))
    (hres : leaveSession s c = .ok res) : Collected s res.1 c := by
  obtain ⟨_,-,hres⟩ := Checked.bind_eq_ok.mp hres
  cases hrm : s.findRoom (s.clients c).roomid with
  | none =>
    simp only [hrm] at hres
    cases hres
  | some rm =>
    simp only [hrm] at hres
    obtain ⟨left,hleft,hres⟩ := Checked.bind_eq_ok.mp hres
    obtain ⟨hnoti,hbd⟩ := CRoom.leaveSession_msg hleft
    cases hres
    dsimp only
    refine Collected.modify rfl ?_ ?_
    · apply announce_clear
      rw [hbd,h.bder_msg]
    · apply notify_clear
      rw [hnoti,h.notifier_msg]

theorem enterSession_collected {sid : ℤ} {res : CEngine × ℤ} (h : Clear (s.clients c))
    (hres : enterSession s c sid = .ok res) : Collected s res.1 c := by
  obtain ⟨_,-,hres⟩ := Checked.bind_eq_ok.mp hres
  cases hrm : s.findRoom (s.clients c).roomid with
  | none =>
    simp only [hrm] at hres
    cases hres
  | some rm =>
    simp only [hrm] at hres
    split_ifs at hres
    · cases hres
      exact h.collected
    · cases hres
      dsimp only
      refine Collected.modify rfl (fun _ => h.bder) ?_
      apply notify_clear
      rw [CRoom.enterSession_msg,h.notifier_msg]

theorem watchSession_collected {sid : ℤ} {res : CEngine × ℤ} (h : Clear (s.clients c))
    (hres : watchSession s c sid = .ok res) : Collected s res.1 c := by
  obtain ⟨_,-,hres⟩ := Checked.bind_eq_ok.mp hres
  cases hrm : s.findRoom (s.clients c).roomid with
  | none =>
    simp only [hrm] at hres
    cases hres
  | some rm =>
    simp only [hrm] at hres
    split_ifs at hres
    · cases hres
      exact h.collected
    · cases hres
      dsimp only
      refine Collected.modify rfl (fun _ => h.bder) ?_
      apply notify_clear
      rw [CRoom.watchSession_msg,h.notifier_msg]

theorem readyMsgs_collected {res : CSession.ReadyRes} (h : Clear (t.clients c))
    (hmsg : res.notier.msg = []) : Collected t (readyMsgs t c res) c := by
  unfold readyMsgs
  dsimp only
  split_ifs with hempty
  · exact Collected.modify rfl (fun _ => h.bder) (CNotifier.eq_create hmsg)
  · refine Collected.assign (Collected.modify rfl (fun _ => h.bder) fun hn => ?_) _
    exact absurd hn hempty
  · exact Collected.modify rfl (fun _ => h.bder) fun hn => absurd hn hempty

theorem doReady_collected {res : CEngine × ℤ} (h : Clear (s.clients c))
    (hres : doReady s c = .ok res) : Collected s res.1 c := by
  obtain ⟨_,-,hres⟩ := Checked.bind_eq_ok.mp hres
  cases hrm : s.findRoom (s.clients c).roomid with
  | none =>
    simp only [hrm] at hres
    cases hres
  | some rm =>
    simp only [hrm] at hres
    obtain ⟨ready,hready,hres⟩ := Checked.bind_eq_ok.mp hres
    obtain ⟨_,-,hres⟩ := Checked.bind_eq_ok.mp hres
    cases hres
    obtain ⟨hheap,cs,hnoti⟩ := ready_effect hready
    have hsame : ∀ d, (ready.heap d).bder = (s.clients d).bder ∧
        (ready.heap d).notifier = (s.clients d).notifier := by
      intro d
      obtain ⟨st,hst⟩ := hheap d
      rw [hst]
      exact ⟨rfl,rfl⟩
    have hclear : Clear (ready.heap c) := by
      obtain ⟨hb,hn⟩ := hsame c
      exact ⟨hb ▸ h.bder,hn ▸ h.notifier⟩
    have hmsg : ready.notier.msg = [] := by
      rw [hnoti,CNotifier.msg_addNotifiees,h.notifier_msg]
    have hcoll := readyMsgs_collected (t := { s with clients := ready.heap }) hclear hmsg
    refine Collected.doreturn ⟨fun d hd => ?_,hcoll.bder,hcoll.notifier⟩ _ _ _
    obtain ⟨hb,hn⟩ := hcoll.others d hd
    exact ⟨hb.trans (hsame d).1,hn.trans (hsame d).2⟩

theorem run_collected {fn : Msghnd} {msg : CXmlNode} {res : CEngine × ℤ} (h : Clear (s.clients c))
    (hres : fn.run s c msg = .ok res) : Collected s res.1 c := by
  cases fn with
  | doEnterRoom => exact doEnterRoom_collected h hres
  | doLeaveRoom =>
    obtain ⟨_,-,hres⟩ := Checked.bind_eq_ok.mp hres
    obtain ⟨t,hleft,hres⟩ := Checked.bind_eq_ok.mp hres
    cases hres
    exact (leaveRoom_collected h hleft).doreturn _ _ _
  | doNewSession =>
    obtain ⟨made,hmade,hres⟩ := Checked.bind_eq_ok.mp hres
    have hcoll := createSession_collected h hmade
    split_ifs at hres <;>
    · cases hres
      exact hcoll.appendmsg _
  | doEnterSession =>
    obtain ⟨entered,hentered,hres⟩ := Checked.bind_eq_ok.mp hres
    cases hres
    exact (enterSession_collected h hentered).sessionRes _ _
  | doWatchSession =>
    obtain ⟨watched,hwatched,hres⟩ := Checked.bind_eq_ok.mp hres
    cases hres
    exact (watchSession_collected h hwatched).sessionRes _ _
  | doLeaveSession =>
    obtain ⟨left,hleft,hres⟩ := Checked.bind_eq_ok.mp hres
    cases hres
    exact (leaveSession_collected h hleft).doreturn _ _ _
  | doReady => exact doReady_collected h hres
  | doListSessions =>
    obtain ⟨_,-,hres⟩ := Checked.bind_eq_ok.mp hres
    cases hrm : s.findRoom (s.clients c).roomid with
    | none =>
      simp only [hrm] at hres
      cases hres
    | some rm =>
      simp only [hrm] at hres
      cases hres
      exact h.collected.appendmsg _
  | doLogout | doCCNI | doMyState | doListRooms | doUnknow =>
    cases hres
    exact h.collected.appendmsg _
  | doMove | doDraw | doGiveUp | doSendMessages =>
    cases hres
    exact h.collected

/-! ### The hand-over -/

theorem consumeBds_collected (h : Collected s t c) :
    Collected s (consumeBds t c) c ∧ theBder (consumeBds t c) c = CBroadCaster.create := by
  unfold consumeBds
  split_ifs with hempty
  · exact ⟨h,h.bder hempty⟩
  · refine ⟨⟨fun d hd => ?_,?_,?_⟩,?_⟩
    · rw [CEngine.clients_modify_of_ne _ _ hd]
      exact h.others d hd
    · rw [theBder,CEngine.clients_modify]
      exact fun _ => rfl
    · rw [theNotifier,CEngine.clients_modify]
      exact h.notifier
    · rw [theBder,CEngine.clients_modify]
      rfl

/-- Whoever had nothing pending before the handler has nothing pending after the hand-over. -/
theorem consumeBdsAndNotis_clear (hclear : ∀ d, Clear (s.clients d)) (h : Collected s t c)
    (d : CClientPtr) : Clear ((consumeBdsAndNotis t c).clients d) := by
  obtain ⟨hcoll,hbder⟩ := consumeBds_collected h
  unfold consumeBdsAndNotis consumeNotis
  by_cases hd : d = c
  · subst hd
    split_ifs with hempty
    · exact ⟨hbder,hcoll.notifier hempty⟩
    · rw [CEngine.clients_modify]
      exact ⟨hbder,rfl⟩
  · obtain ⟨hb,hn⟩ := hcoll.others d hd
    have hother : Clear ((consumeBds t c).clients d) :=
      ⟨hb ▸ (hclear d).bder,hn ▸ (hclear d).notifier⟩
    split_ifs
    · exact hother
    · rw [CEngine.clients_modify_of_ne _ _ hd]
      exact hother

/-- One client's object is written and keeps what it has pending. -/
theorem clear_modify {f : CClient → CClient} (h : ∀ d, Clear (s.clients d))
    (hf : Clear (f (s.clients c))) (d : CClientPtr) : Clear ((s.modify c f).clients d) := by
  by_cases hd : d = c
  · rw [hd,CEngine.clients_modify]
    exact hf
  · rw [CEngine.clients_modify_of_ne s f hd]
    exact h d

theorem clear_genBdsAndNotis (h : ∀ d, Clear (s.clients d)) (d : CClientPtr) :
    Clear ((genBdsAndNotis s c).clients d) :=
  clear_modify h ⟨(h c).bder,(h c).notifier⟩ d

/-! ### Refused requests -/

/-- Nothing has changed but the client's answer, which has one element more. -/
structure Unchanged (s t : CEngine) (c : CClientPtr) : Prop where
  hall : t.hall = s.hall
  assigned : t.assigned = s.assigned
  others : ∀ d, d ≠ c → t.clients d = s.clients d
  resmsg : ∃ m, (t.clients c).resmsg = (s.clients c).resmsg ++ [m]
  pending : theBder t c = theBder s c ∧ theNotifier t c = theNotifier s c

theorem appendmsg_unchanged (s : CEngine) (c : CClientPtr) (m : CXmlNode) :
    Unchanged s (s.appendmsg c m) c where
  hall := hall_appendmsg s c m
  assigned := rfl
  others := fun _ hd => CEngine.clients_modify_of_ne s _ hd
  resmsg := ⟨m,CEngine.clients_appendmsg s c m⟩
  pending := by simp [theBder,theNotifier,CEngine.appendmsg]

theorem genBdsAndNotis_unchanged (h : Unchanged (genBdsAndNotis s c) t c) : Unchanged s t c where
  hall := h.hall.trans (hall_genBdsAndNotis s c)
  assigned := h.assigned
  others := fun d hd => (h.others d hd).trans (CEngine.clients_modify_of_ne s _ hd)
  resmsg := by
    obtain ⟨m,hm⟩ := h.resmsg
    exact ⟨m,by rw [hm,resmsg_genBdsAndNotis]⟩
  pending := by
    obtain ⟨hb,hn⟩ := h.pending
    rw [hb,hn]
    simp [theBder,theNotifier,genBdsAndNotis]

theorem enterRoom_refused {rid : ℤ} (h : (enterRoom s c rid).2 < 0) : (enterRoom s c rid).1 = s := by
  unfold enterRoom at h ⊢
  split_ifs at h ⊢
  · rfl
  · cases hrm : s.findRoom rid with
    | none => rfl
    | some rm =>
      simp only [hrm] at h ⊢
      split_ifs at h ⊢
      · exact absurd h (lt_irrefl 0)
      · rfl

/-- A handler that returns a negative code has done nothing but answer. -/
theorem run_refused {fn : Msghnd} {msg : CXmlNode} {res : CEngine × ℤ}
    (h : fn.run s c msg = .ok res) (hneg : res.2 < 0) : ∃ m, res.1 = s.appendmsg c m := by
  have hsession : ∀ {joined : Prop} {t : CEngine} {code : ℤ} {success : String},
      (joined ∧ code = 0 ∧ (t.clients c).resmsg = (s.clients c).resmsg) ∨
        (¬ joined ∧ (code = -2 ∨ code = -3) ∧ t = s) →
      (sessionRes t c code success).2 < 0 →
      ∃ m, (sessionRes t c code success).1 = s.appendmsg c m := by
    intro joined t code success hcases hneg
    rcases hcases with ⟨-,rfl,-⟩ | ⟨-,rfl | rfl,rfl⟩
    · exact absurd hneg (lt_irrefl 0)
    · exact ⟨_,rfl⟩
    · exact ⟨_,rfl⟩
  rcases run_cases h with ⟨-,hans⟩ | ⟨hacc,-⟩
  · rw [hans.code] at hneg
    exact absurd hneg (lt_irrefl 0)
  · cases fn with
    | doEnterRoom =>
      have hroom := @enterRoom_refused s c (idOf msg)
      simp only [Msghnd.run,doEnterRoom] at h
      split_ifs at h with h₁ h₂ h₃
      · cases h
        exact ⟨_,by rw [hroom (by omega)]; rfl⟩
      · cases h
        exact ⟨_,by rw [hroom (by omega)]; rfl⟩
      · cases h
        exact ⟨_,by rw [hroom (by omega)]; rfl⟩
      · cases h
        exact absurd hneg (lt_irrefl 0)
    | doEnterSession =>
      obtain ⟨entered,hentered,h⟩ := Checked.bind_eq_ok.mp h
      cases h
      exact hsession (enterSession_cases hentered) hneg
    | doWatchSession =>
      obtain ⟨watched,hwatched,h⟩ := Checked.bind_eq_ok.mp h
      cases h
      exact hsession (watchSession_cases hwatched) hneg
    | doListSessions => exact absurd (doListSessions_answered h).1 hacc
    | _ => exact absurd trivial hacc

/-- `checkstate` refuses the message, or its handler returns a negative code. -/
def IsRefused (s : CEngine) (c : CClientPtr) (msg : CXmlNode) : Prop :=
  ((checkstate s c msg (findHnd msg.name).vstate).2 = false) ∨
    ∃ res, (findHnd msg.name).fn.run (genBdsAndNotis s c) c msg = .ok res ∧ res.2 < 0

theorem handle_refused {msg : CXmlNode} (h : IsRefused s c msg) :
    ∃ res, handle s c msg = .ok res ∧ res.2 < 0 ∧ Unchanged s res.1 c := by
  unfold handle
  by_cases hst : (s.clients c).state.isIn (findHnd msg.name).vstate = true
  · simp only [IsRefused,checkstate,hst,if_true] at h ⊢
    obtain ⟨res,hres,hneg⟩ := h.resolve_left (by simp)
    obtain ⟨m,hm⟩ := run_refused hres hneg
    refine ⟨res,hres,hneg,genBdsAndNotis_unchanged ?_⟩
    exact hm ▸ appendmsg_unchanged (genBdsAndNotis s c) c m
  · simp only [checkstate,hst]
    exact ⟨_,rfl,neg_one_lt_zero,appendmsg_unchanged s c _⟩

/-! ### Every event leaves nothing pending -/

theorem procMsg_clear {msg : CXmlNode} {res : CEngine × Bool} (h : ∀ d, Clear (s.clients d))
    (hres : procMsg s c msg = .ok res) (d : CClientPtr) : Clear (res.1.clients d) := by
  have hgen := clear_genBdsAndNotis (c := c) h
  have happ : ∀ (t : CEngine) m, (∀ d, Clear (t.clients d)) →
      ∀ d, Clear ((t.appendmsg c m).clients d) :=
    fun t m ht => clear_modify ht ⟨(ht c).bder,(ht c).notifier⟩
  by_cases hel : msg.isElement = true
  · rw [procMsg_eq s c hel] at hres
    obtain ⟨handled,hhandled,hres⟩ := Checked.bind_eq_ok.mp hres
    unfold handle checkstate at hhandled
    by_cases hst : (s.clients c).state.isIn (findHnd msg.name).vstate = true
    · simp only [hst,if_true] at hhandled
      split_ifs at hres with hneg
      · cases hres
        obtain ⟨m,hm⟩ := run_refused hhandled hneg
        rw [hm]
        exact happ _ m hgen d
      · cases hres
        exact consumeBdsAndNotis_clear hgen (run_collected (hgen c) hhandled) d
    · simp only [hst] at hhandled
      cases hhandled
      cases hres
      exact happ s _ h d
  · rw [procMsg,if_neg hel] at hres
    cases hres
    exact h d

theorem dropSession_clear (h : ∀ d, Clear (s.clients d)) (hres : dropSession s c = .ok t)
    (d : CClientPtr) : Clear (t.clients d) := by
  have hgen := clear_genBdsAndNotis (c := c) h
  unfold dropSession at hres
  split_ifs at hres
  · obtain ⟨left,hleft,hres⟩ := Checked.bind_eq_ok.mp hres
    cases hres
    exact consumeBdsAndNotis_clear hgen (leaveSession_collected (hgen c) hleft) d
  · cases hres
    exact h d

theorem dropRoom_clear (h : ∀ d, Clear (s.clients d)) (hres : dropRoom s c = .ok t)
    (d : CClientPtr) : Clear (t.clients d) := by
  have hgen := clear_genBdsAndNotis (c := c) h
  unfold dropRoom at hres
  split_ifs at hres
  · obtain ⟨left,hleft,hres⟩ := Checked.bind_eq_ok.mp hres
    cases hres
    exact consumeBdsAndNotis_clear hgen (leaveRoom_collected (hgen c) hleft) d
  · cases hres
    exact h d

theorem breakLine_clear (h : ∀ d, Clear (s.clients d)) (hres : breakLine s c = .ok t)
    (d : CClientPtr) : Clear (t.clients d) := by
  obtain ⟨u,hu,hres⟩ := Checked.bind_eq_ok.mp hres
  obtain ⟨v,hv,hres⟩ := Checked.bind_eq_ok.mp hres
  cases hres
  have hroom := dropRoom_clear (dropSession_clear h hu) hv
  exact clear_modify (s := v.delClient (v.uname c)) hroom ⟨(hroom c).bder,(hroom c).notifier⟩ d

end
end CClient

namespace CEngine
open CClient
variable {s t : CEngine}

theorem login_clear (h : ∀ d, Clear (s.clients d)) (c : CClientPtr) (udp : CUdpSockDataPtr)
    (udpaddr : SockaddrIn) (uname : String) (d : CClientPtr) :
    Clear ((s.login c udp udpaddr uname).clients d) := by
  have hmade : ∀ d, Clear ((s.modify c (fun _ => CClient.new udp udpaddr uname)).clients d) :=
    clear_modify h ⟨rfl,rfl⟩
  unfold login
  generalize s.modify c (fun _ => CClient.new udp udpaddr uname) = made at hmade
  cases hfind : made.list.find? (made.uname c) with
  | some _ =>
    simp only [addClient,hfind]
    exact h d
  | none =>
    simp only [addClient,hfind,if_true]
    exact clear_modify (s := { made with list := made.list.insert (made.uname c) c }) hmade
      ⟨(hmade c).bder,(hmade c).notifier⟩ d

theorem step_clear {e : Event} (h : ∀ d, Clear (s.clients d)) (hstep : s.step e = .ok t)
    (d : CClientPtr) : Clear (t.clients d) := by
  cases e with
  | login c udp udpaddr uname =>
    simp only [step] at hstep
    split_ifs at hstep
    · cases hstep
      exact h d
    · cases hstep
      exact login_clear h c udp udpaddr uname d
  | frame c =>
    simp only [step] at hstep
    split_ifs at hstep
    · cases hstep
      exact clear_modify h ⟨(h c).bder,(h c).notifier⟩ d
    · cases hstep
      exact h d
  | request c msg =>
    simp only [step] at hstep
    split_ifs at hstep
    · obtain ⟨res,hres,ht⟩ := Checked.map_eq_ok.mp hstep
      exact ht ▸ procMsg_clear h hres d
    · cases hstep
      exact h d
  | disconnect c =>
    simp only [step] at hstep
    split_ifs at hstep
    · exact breakLine_clear h hstep d
    · cases hstep
      exact h d

theorem run_clear {cfgs : List CRoomConfig} {es : List Event} (hrun : (create cfgs).run es = .ok s)
    (d : CClientPtr) : Clear (s.clients d) :=
  (Lts.exec_ok_iff.mp hrun).invariant (fun _ _ _ h hstep => step_clear h hstep)
    (fun _ => ⟨rfl,rfl⟩) d

/-- In a state the server can reach nothing is pending when a handler starts, and a request that
is refused changes nothing but the answer. -/
theorem refused_unchanged {cfgs : List CRoomConfig} {es : List Event}
    (hrun : (create cfgs).run es = .ok s) (c : CClientPtr) (msg : CXmlNode) :
    ((genBdsAndNotis s c).clients c).bder = some CBroadCaster.create ∧
    ((genBdsAndNotis s c).clients c).notifier = some CNotifier.create ∧
    (msg.isElement = true → IsRefused s c msg →
      ∃ t, procMsg s c msg = .ok (t,false) ∧ Unchanged s t c) := by
  have hclear := run_clear hrun c
  refine ⟨?_,?_,fun hel href => ?_⟩
  · rw [genBdsAndNotis,clients_modify]
    exact congrArg some hclear.bder
  · rw [genBdsAndNotis,clients_modify]
    exact congrArg some hclear.notifier
  · obtain ⟨res,hres,hneg,hsame⟩ := handle_refused href
    refine ⟨res.1,?_,hsame⟩
    rw [procMsg_eq s c hel,hres,Checked.ok_bind,if_pos hneg]

/-- A session that does not exist. -/
theorem refused_unchanged_unknown : ∃ s t,
    (create [room1]).run (arrive 1 "alice") = .ok s ∧
      procMsg s 1 (requestOf xmlTagEnterSession "7") = .ok (t,false) ∧ Unchanged s t 1 := by
  obtain ⟨s,hrun,href⟩ : ∃ s, (create [room1]).run (arrive 1 "alice") = .ok s ∧
      IsRefused s 1 (requestOf xmlTagEnterSession "7") := ⟨_,rfl,.inr ⟨_,rfl,by decide⟩⟩
  obtain ⟨-,-,hsame⟩ := refused_unchanged hrun 1 (requestOf xmlTagEnterSession "7")
  obtain ⟨t,ht,hunchanged⟩ := hsame rfl href
  exact ⟨s,t,hrun,ht,hunchanged⟩

end CEngine
end CcniServer
