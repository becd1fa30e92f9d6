import CcniServer.Hall.Hall

/-! Every operation of the engine acts on its hall as the hall's own operation does, and fails
an `ASSERT` exactly where that one is undefined. -/
namespace CcniServer
open CClient

/-! ### What the messages leave alone -/

theorem hall_modify (s : CEngine) (c : CClientPtr) (f : CClient → CClient) :
    (s.modify c f).hall = s.hall.setMember c (f (s.clients c)).member := by
  simp only [CEngine.hall,CEngine.modify,Hall.setMember,Function.comp_update]

theorem setMember_self (h : Hall) (c : CClientPtr) : h.setMember c (h.member c) = h := by
  simp only [Hall.setMember,Function.update_eq_self]

theorem hall_modify_of_member (s : CEngine) (c : CClientPtr) (f : CClient → CClient)
    (hf : (f (s.clients c)).member = (s.clients c).member) : (s.modify c f).hall = s.hall := by
  rw [hall_modify,hf]
  exact setMember_self s.hall c

@[simp] theorem hall_member (s : CEngine) (c : CClientPtr) :
    s.hall.member c = (s.clients c).member := rfl

@[simp] theorem hall_find? (s : CEngine) (rid : ℤ) : s.hall.rooms.find? rid = s.findRoom rid := rfl

@[simp] theorem hall_appendmsg (s : CEngine) (c : CClientPtr) (m : CXmlNode) :
    (s.appendmsg c m).hall = s.hall := hall_modify_of_member s c _ rfl

@[simp] theorem hall_assign (s : CEngine) (job : CJob) : (s.assign job).hall = s.hall := rfl

@[simp] theorem hall_genBdsAndNotis (s : CEngine) (c : CClientPtr) :
    (genBdsAndNotis s c).hall = s.hall := hall_modify_of_member s c _ rfl

@[simp] theorem hall_consumeBdsAndNotis (s : CEngine) (c : CClientPtr) :
    (consumeBdsAndNotis s c).hall = s.hall := by
  have hb : (consumeBds s c).hall = s.hall := by
    unfold consumeBds
    split_ifs
    · rfl
    · exact hall_modify_of_member (s.assign _) c _ rfl
  unfold consumeBdsAndNotis consumeNotis
  split_ifs
  · exact hb
  · exact (hall_modify_of_member ((consumeBds s c).assign _) c _ rfl).trans hb

@[simp] theorem hall_doreturn (s : CEngine) (c : CClientPtr) (tag des : String) (rcode : ℤ) :
    (doreturn s c tag rcode des).1.hall = s.hall := hall_appendmsg s c _

/-- The hall a computation ends in. -/
def endHall : Checked CEngine → Option Hall
  | .ok s => some s.hall
  | .error _ => none

def endHallRes : Checked (CEngine × ℤ) → Option Hall
  | .ok r => some r.1.hall
  | .error _ => none

/-! ### Rooms -/

theorem enterRoom_hall (s : CEngine) (c : CClientPtr) (rid : ℤ) :
    (enterRoom s c rid).1.hall = s.hall.enterRoom c rid := by
  simp only [enterRoom,Hall.enterRoom,hall_member,hall_find?,CClient.member]
  by_cases hst : (s.clients c).state ≠ .stOnline ∨ (s.clients c).ctsk = false
  · simp only [hst,if_true]
  · simp only [hst,if_false]
    cases hrm : s.findRoom rid with
    | none => rfl
    | some rm =>
      cases hadm : rm.addUser c with
      | none => simp [CRoom.enter,hadm]
      | some rm' =>
        simp only [Option.bind_some,CRoom.enter,hadm,if_true]
        exact hall_modify _ c _

theorem leaveRoom_hall (s : CEngine) (c : CClientPtr) :
    endHall (leaveRoom s c) = s.hall.leaveRoom c := by
  simp only [leaveRoom,Hall.leaveRoom,hall_member,hall_find?,CClient.member]
  cases hrm : s.findRoom (s.clients c).roomid with
  | none => rfl
  | some rm =>
    cases hdis : rm.dismiss c with
    | none => simp [CRoom.leave,hdis,ASSERT,endHall]
    | some rm' =>
      simp only [Option.bind_some,Option.map_some,CRoom.leave,hdis]
      exact congrArg some (hall_modify _ c _)

/-! ### Sessions -/

theorem createSession_hall (s : CEngine) (c : CClientPtr) :
    endHallRes (createSession s c .create) = s.hall.newSession c := by
  simp only [createSession]
  unfold Hall.newSession
  by_cases hst : (s.clients c).state = .stIdle ∧ (s.clients c).ctsk = true ∧
      (s.clients c).roomid > 0
  · refine Eq.trans ?_ (if_pos hst).symm
    rw [Checked.ASSERT_pos (decide_eq_true hst),hall_member,CClient.member,hall_find?]
    cases hrm : s.findRoom (s.clients c).roomid with
    | none => rfl
    | some rm =>
      simp only [Option.bind_some,CRoom.createSession]
      by_cases hin : c ∈ rm.usrlist
      · rw [if_pos hin,Checked.ASSERT_pos (decide_eq_true hin)]
        simp only [Checked.ok_bind,Checked.pure_eq,endHallRes,hall_modify]
        rfl
      · rw [if_neg hin,Checked.ASSERT_neg (decide_eq_false hin)]
        rfl
  · refine Eq.trans ?_ (if_neg hst).symm
    rw [Checked.ASSERT_neg (decide_eq_false hst)]
    rfl

theorem leaveSession_hall (s : CEngine) (c : CClientPtr) :
    endHallRes (leaveSession s c) = s.hall.leaveSession c := by
  simp only [leaveSession]
  unfold Hall.leaveSession
  by_cases hst : (s.clients c).ctsk = true ∧ (s.clients c).roomid > 0 ∧
      (s.clients c).sessionid > 0
  · refine Eq.trans ?_ (if_pos hst).symm
    rw [Checked.ASSERT_pos (decide_eq_true hst),hall_member,CClient.member,hall_find?]
    cases hrm : s.findRoom (s.clients c).roomid with
    | none => rfl
    | some rm =>
      simp only [Option.bind_some,CRoom.leaveSession]
      cases hss : rm.sessions.find? (Scan.toUInt32 (s.clients c).sessionid) with
      | none => rfl
      | some ss =>
        cases hun : ss.unseat c with
        | none => simp [CSession.leave,hun,ASSERT,endHallRes]
        | some ss' =>
          have hleft : decide ((ss'.members.length : ℤ) ≥ 0) = true := by simp
          simp only [CSession.leave,hun,Option.bind_some,Option.map_some,Checked.ok_bind,
            Checked.ASSERT_pos hleft,Hall.putSession]
          by_cases hmem : ss'.members = []
          · simp only [hmem,List.length_nil,Nat.cast_zero,if_true]
            exact congrArg some (hall_modify _ c _)
          · have hne : ¬ (ss'.members.length : ℤ) = 0 := by simpa using hmem
            simp only [hmem,hne,if_false]
            exact congrArg some (hall_modify _ c _)
  · refine Eq.trans ?_ (if_neg hst).symm
    rw [Checked.ASSERT_neg (decide_eq_false hst)]
    rfl

theorem enterSession_hall (s : CEngine) (c : CClientPtr) (sid : ℤ) :
    endHallRes (enterSession s c sid) = s.hall.enterSession c sid := by
  simp only [enterSession]
  unfold Hall.enterSession Hall.joinSession
  by_cases hst : (s.clients c).ctsk = true ∧ (s.clients c).roomid > 0 ∧
      (s.clients c).sessionid < 0
  · refine Eq.trans ?_ (if_pos hst).symm
    rw [Checked.ASSERT_pos (decide_eq_true hst),hall_member,CClient.member,hall_find?]
    cases hrm : s.findRoom (s.clients c).roomid with
    | none => rfl
    | some rm =>
      simp only [Option.map_some,Checked.ok_bind]
      cases hss : (rm.sessions.find? (Scan.toUInt32 sid)).bind (fun ss => ss.takeSeat c) with
      | none =>
        have hneg := CRoom.enterSession_of_none hss (theNotifier s c)
        rw [if_pos hneg]
        rfl
      | some ss' =>
        obtain ⟨hret,hroom⟩ := CRoom.enterSession_of_some hss (theNotifier s c)
        rw [if_neg (by omega),hroom]
        exact congrArg some (hall_modify _ c _)
  · refine Eq.trans ?_ (if_neg hst).symm
    rw [Checked.ASSERT_neg (decide_eq_false hst)]
    rfl

theorem watchSession_hall (s : CEngine) (c : CClientPtr) (sid : ℤ) :
    endHallRes (watchSession s c sid) = s.hall.watchSession c sid := by
  simp only [watchSession]
  unfold Hall.watchSession Hall.joinSession
  by_cases hst : (s.clients c).ctsk = true ∧ (s.clients c).roomid > 0 ∧
      (s.clients c).sessionid < 0
  · refine Eq.trans ?_ (if_pos hst).symm
    rw [Checked.ASSERT_pos (decide_eq_true hst),hall_member,CClient.member,hall_find?]
    cases hrm : s.findRoom (s.clients c).roomid with
    | none => rfl
    | some rm =>
      simp only [Option.map_some,Checked.ok_bind]
      cases hss : (rm.sessions.find? (Scan.toUInt32 sid)).bind (fun ss => ss.addWatcher c) with
      | none =>
        have hneg := CRoom.watchSession_of_none hss (theNotifier s c)
        rw [if_pos hneg]
        rfl
      | some ss' =>
        obtain ⟨hret,hroom⟩ := CRoom.watchSession_of_some hss (theNotifier s c)
        rw [if_neg (by omega),hroom]
        exact congrArg some (hall_modify _ c _)
  · refine Eq.trans ?_ (if_neg hst).symm
    rw [Checked.ASSERT_neg (decide_eq_false hst)]
    rfl

/-! ### Ready -/

theorem member_setstate (heap : CClientPtr → CClient) (c : CClientPtr) (st : CClient.State) :
    CClient.member ∘ CSession.setstate heap c st =
      Hall.setState (CClient.member ∘ heap) c st := by
  rw [CSession.setstate,Function.comp_update]
  rfl

theorem member_updatePlayersState (ss : CSession) (heap : CClientPtr → CClient)
    (ow op : CClientPtr) :
    CClient.member ∘ (ss.updatePlayersState heap ow op).1 =
      Hall.startGame ss (CClient.member ∘ heap) ow op := by
  unfold CSession.updatePlayersState Hall.startGame
  split_ifs <;> simp only [member_setstate]

theorem member_readyAgainst (ss : CSession) (heap : CClientPtr → CClient)
    (ow op other : CClientPtr) (noti : CNotifier) :
    CClient.member ∘ (ss.readyAgainst heap ow op other noti).heap =
      (if ((CClient.member ∘ heap) other).state = .stReady then
        Hall.startGame ss (CClient.member ∘ heap) ow op
      else CClient.member ∘ heap) := by
  unfold CSession.readyAgainst
  by_cases hr : (heap other).state = .stReady
  · have hr' : ((CClient.member ∘ heap) other).state = .stReady := hr
    simp only [hr,if_true,if_pos hr',member_updatePlayersState]
  · have hr' : ¬ ((CClient.member ∘ heap) other).state = .stReady := hr
    simp only [hr,if_false,if_neg hr']

theorem readyAgainst_ret (ss : CSession) (heap : CClientPtr → CClient)
    (ow op other : CClientPtr) (noti : CNotifier) :
    (ss.readyAgainst heap ow op other noti).ret ≥ 0 := by
  unfold CSession.readyAgainst
  split_ifs
  · exact zero_le_one
  · exact le_refl 0

/-- What `CSession::ready` does to the members; it fails for a client that is no player. -/
theorem session_ready (ss : CSession) (heap : CClientPtr → CClient) (c : CClientPtr)
    (noti : CNotifier) :
    (∃ res, ss.ready heap c noti = .ok res ∧ res.ret ≥ 0 ∧
      Hall.readyMembers ss (CClient.member ∘ heap) c = some (CClient.member ∘ res.heap)) ∨
    (ss.ready heap c noti = .error .readySeated ∧
      Hall.readyMembers ss (CClient.member ∘ heap) c = none) := by
  simp only [CSession.ready,Hall.readyMembers,← member_setstate]
  by_cases how : ss.owner = some c
  · left
    simp only [how,if_true]
    cases hop : ss.opponent with
    | none => exact ⟨_,rfl,le_refl _,rfl⟩
    | some op => exact ⟨_,rfl,readyAgainst_ret _ _ _ _ _ _,by rw [member_readyAgainst]⟩
  · by_cases hop : ss.opponent = some c
    · left
      simp only [how,if_false,hop,if_true]
      cases how' : ss.owner with
      | none => exact ⟨_,rfl,le_refl _,rfl⟩
      | some ow => exact ⟨_,rfl,readyAgainst_ret _ _ _ _ _ _,by rw [member_readyAgainst]⟩
    · right
      simp only [how,hop,if_false,and_self]

theorem hall_readyMsgs (s : CEngine) (c : CClientPtr) (res : CSession.ReadyRes) :
    (readyMsgs s c res).hall = s.hall := by
  unfold readyMsgs
  split_ifs
  · exact hall_modify_of_member s c _ rfl
  · exact (hall_assign _ _).trans (hall_modify_of_member s c _ rfl)
  · exact hall_modify_of_member s c _ rfl

theorem doReady_hall (s : CEngine) (c : CClientPtr) :
    endHallRes (doReady s c) = s.hall.ready c := by
  simp only [doReady]
  unfold Hall.ready
  by_cases hst : (s.clients c).ctsk = true ∧ (s.clients c).roomid > 0 ∧
      (s.clients c).sessionid > 0
  · refine Eq.trans ?_ (if_pos hst).symm
    rw [Checked.ASSERT_pos (decide_eq_true hst),hall_member,CClient.member,hall_find?]
    cases hrm : s.findRoom (s.clients c).roomid with
    | none => rfl
    | some rm =>
      simp only [Option.bind_some,CRoom.ready,Checked.ok_bind]
      cases hss : rm.sessions.find? (Scan.toUInt32 (s.clients c).sessionid) with
      | none => rfl
      | some ss =>
        simp only [Option.bind_some]
        rcases session_ready ss s.clients c (theNotifier s c) with
          ⟨res,hres,hret,hmem⟩ | ⟨hres,hmem⟩
        · have hmem' : Hall.readyMembers ss s.hall.member c = _ := hmem
          rw [hres,hmem',Checked.ok_bind,Checked.ASSERT_pos (decide_eq_true hret)]
          simp only [Checked.ok_bind,Checked.pure_eq,endHallRes,hall_doreturn,hall_readyMsgs]
          rfl
        · have hmem' : Hall.readyMembers ss s.hall.member c = _ := hmem
          rw [hres,hmem']
          rfl
  · refine Eq.trans ?_ (if_neg hst).symm
    rw [Checked.ASSERT_neg (decide_eq_false hst)]
    rfl

/-! ### Handlers -/

theorem endHallRes_bind {x : Checked (CEngine × ℤ)} {f : CEngine × ℤ → Checked (CEngine × ℤ)}
    (hf : ∀ r, endHallRes (f r) = some r.1.hall) : endHallRes (x >>= f) = endHallRes x := by
  cases x with
  | error site => rfl
  | ok r => exact hf r

@[simp] theorem hall_sessionRes (s : CEngine) (c : CClientPtr) (ret : ℤ) (success : String) :
    (sessionRes s c ret success).1.hall = s.hall := by
  unfold sessionRes
  split_ifs <;> exact hall_doreturn _ _ _ _ _

theorem doEnterRoom_hall (s : CEngine) (c : CClientPtr) (msg : CXmlNode) :
    endHallRes (doEnterRoom s c msg) = some (s.hall.enterRoom c (idOf msg)) := by
  rw [← enterRoom_hall]
  simp only [doEnterRoom]
  split_ifs <;> simp only [endHallRes,hall_doreturn]

theorem doLeaveRoom_hall (s : CEngine) (c : CClientPtr) :
    endHallRes (doLeaveRoom s c) = s.hall.act (.leaveRoom c) := by
  unfold doLeaveRoom
  rw [Hall.act]
  by_cases hroom : (s.clients c).roomid > 0
  · refine Eq.trans ?_ (if_pos hroom).symm
    rw [Checked.ASSERT_pos (decide_eq_true hroom),← leaveRoom_hall]
    cases leaveRoom s c with
    | error site => rfl
    | ok s' => exact congrArg some (hall_doreturn s' c _ _ _)
  · refine Eq.trans ?_ (if_neg hroom).symm
    rw [Checked.ASSERT_neg (decide_eq_false hroom)]
    rfl

theorem doNewSession_hall (s : CEngine) (c : CClientPtr) :
    endHallRes (doNewSession s c) = s.hall.newSession c := by
  rw [← createSession_hall]
  refine endHallRes_bind (fun r => ?_)
  split_ifs <;> simp only [Checked.pure_eq,endHallRes,hall_doreturn,hall_appendmsg]

theorem doListSessions_hall (s : CEngine) (c : CClientPtr) :
    endHallRes (doListSessions s c) = s.hall.act (.listSessions c) := by
  unfold doListSessions
  rw [Hall.act]
  by_cases hroom : (s.clients c).roomid > 0
  · rw [Checked.ASSERT_pos (decide_eq_true hroom)]
    cases hrm : s.findRoom (s.clients c).roomid with
    | none =>
      refine Eq.trans ?_ (if_neg ?_).symm
      · rfl
      · rintro ⟨_,hsome⟩
        rw [hall_find?,hall_member,CClient.member,hrm] at hsome
        simp at hsome
    | some rm =>
      refine Eq.trans ?_ (if_pos ⟨hroom,?_⟩).symm
      · exact congrArg some (hall_appendmsg s c _)
      · rw [hall_find?,hall_member,CClient.member,hrm]
        rfl
  · rw [Checked.ASSERT_neg (decide_eq_false hroom)]
    exact (if_neg (fun h => hroom h.1)).symm

theorem run_hall (fn : Msghnd) (s : CEngine) (c : CClientPtr) (msg : CXmlNode) :
    endHallRes (fn.run s c msg) = s.hall.act (Hall.handlerAction c msg fn) := by
  cases fn with
  | doEnterRoom => exact doEnterRoom_hall s c msg
  | doLeaveRoom => exact doLeaveRoom_hall s c
  | doNewSession => exact doNewSession_hall s c
  | doEnterSession =>
    refine Eq.trans (endHallRes_bind (fun r => ?_)) (enterSession_hall s c (idOf msg))
    exact congrArg some (hall_sessionRes r.1 c r.2 _)
  | doLeaveSession =>
    refine Eq.trans (endHallRes_bind (fun r => ?_)) (leaveSession_hall s c)
    exact congrArg some (hall_doreturn r.1 c _ _ _)
  | doWatchSession =>
    refine Eq.trans (endHallRes_bind (fun r => ?_)) (watchSession_hall s c (idOf msg))
    exact congrArg some (hall_sessionRes r.1 c r.2 _)
  | doReady => exact doReady_hall s c
  | doListSessions => exact doListSessions_hall s c
  | doLogout => exact congrArg some (hall_doreturn s c _ _ _)
  | doCCNI | doMyState | doListRooms | doUnknow =>
    exact congrArg some (hall_appendmsg s c _)
  | doMove | doDraw | doGiveUp | doSendMessages => rfl

/-! ### Events -/

theorem procMsg_hall (s : CEngine) (c : CClientPtr) (msg : CXmlNode)
    (hc : (s.clients c).ctsk = true) :
    endHall ((procMsg s c msg).map Prod.fst) = s.hall.act (s.hall.action (.request c msg)) := by
  unfold procMsg Hall.action checkstate
  by_cases hel : msg.isElement = true
  · by_cases hst : (s.clients c).state.isIn (findHnd msg.name).vstate = true
    · have hact : (s.clients c).ctsk = true ∧ msg.isElement = true ∧
          (s.clients c).state.isIn (findHnd msg.name).vstate = true := ⟨hc,hel,hst⟩
      refine Eq.trans ?_ (congrArg s.hall.act (if_pos hact).symm)
      have hrun := run_hall (findHnd msg.name).fn (genBdsAndNotis s c) c msg
      rw [hall_genBdsAndNotis] at hrun
      rw [← hrun,if_pos hel]
      simp only [hst,if_true]
      cases (findHnd msg.name).fn.run (genBdsAndNotis s c) c msg with
      | error site => rfl
      | ok res =>
        rw [Checked.ok_bind]
        by_cases hneg : res.2 < 0
        · rw [if_pos hneg]
          rfl
        · rw [if_neg hneg]
          exact congrArg some (hall_consumeBdsAndNotis res.1 c)
    · refine Eq.trans ?_ (congrArg s.hall.act (if_neg (fun h => hst h.2.2)).symm)
      rw [if_pos hel]
      simp only [hst]
      exact congrArg some (hall_appendmsg s c _)
  · refine Eq.trans ?_ (congrArg s.hall.act (if_neg (fun h => hel h.2.1)).symm)
    rw [if_neg hel]
    rfl

theorem dropSession_hall (s : CEngine) (c : CClientPtr) :
    endHall (dropSession s c) = s.hall.dropSession c := by
  unfold dropSession Hall.dropSession
  by_cases hpos : (s.clients c).sessionid > 0
  · refine Eq.trans ?_ (if_pos hpos).symm
    rw [if_pos hpos,← hall_genBdsAndNotis s c,← leaveSession_hall]
    cases leaveSession (genBdsAndNotis s c) c with
    | error site => rfl
    | ok left => exact congrArg some (hall_consumeBdsAndNotis left.1 c)
  · rw [if_neg hpos]
    exact (if_neg hpos).symm

theorem dropRoom_hall (s : CEngine) (c : CClientPtr) :
    endHall (dropRoom s c) = s.hall.dropRoom c := by
  unfold dropRoom Hall.dropRoom
  by_cases hpos : (s.clients c).roomid > 0
  · refine Eq.trans ?_ (if_pos hpos).symm
    rw [if_pos hpos,← hall_genBdsAndNotis s c,← leaveRoom_hall]
    cases leaveRoom (genBdsAndNotis s c) c with
    | error site => rfl
    | ok s' => exact congrArg some (hall_consumeBdsAndNotis s' c)
  · rw [if_neg hpos]
    exact (if_neg hpos).symm

theorem hall_retire (s : CEngine) (c : CClientPtr) :
    ((s.delClient (s.uname c)).modify c
      (fun cl => { cl with state := .stOffline, ctsk := false })).hall = s.hall.retire c :=
  hall_modify _ c _

theorem breakLine_hall (s : CEngine) (c : CClientPtr) :
    endHall (breakLine s c) = s.hall.breakLine c := by
  unfold breakLine Hall.breakLine
  rw [← dropSession_hall]
  cases dropSession s c with
  | error site => rfl
  | ok s₁ =>
    simp only [Checked.ok_bind,endHall,Option.bind_some]
    rw [← dropRoom_hall]
    cases dropRoom s₁ c with
    | error site => rfl
    | ok s₂ => exact congrArg some (hall_retire s₂ c)

theorem login_hall (s : CEngine) (c : CClientPtr) (udp : CUdpSockDataPtr)
    (udpaddr : SockaddrIn) (uname : String) :
    (s.login c udp udpaddr uname).hall = s.hall.login c uname := by
  have hname : (s.modify c (fun _ => CClient.new udp udpaddr uname)).uname c = uname := by
    simp only [CEngine.uname,CEngine.modify,Function.update_self,CClient.new]
  have hlist : (s.modify c (fun _ => CClient.new udp udpaddr uname)).list = s.list := rfl
  have hhall : s.hall.list = s.list := rfl
  simp only [CEngine.login,CEngine.addClient,hname,hlist,Hall.login,hhall]
  cases s.list.find? uname with
  | some c' => rfl
  | none =>
    simp only [if_true,CEngine.hall,CEngine.modify,Function.update_self,Function.update_idem,
      Function.comp_update]
    rfl

/-- One event: the hall takes the action the event asks of it, and is undefined exactly where
an `ASSERT` ends the server. -/
theorem step_hall (s : CEngine) (e : Event) :
    endHall (s.step e) = s.hall.act (s.hall.action e) := by
  cases e with
  | login c udp udpaddr uname =>
    by_cases hc : (s.clients c).ctsk = true
    · refine Eq.trans ?_ (congrArg s.hall.act (if_pos hc).symm)
      rw [CEngine.step,if_pos hc]
      rfl
    · refine Eq.trans ?_ (congrArg s.hall.act (if_neg hc).symm)
      rw [CEngine.step,if_neg hc]
      exact congrArg some (login_hall s c udp udpaddr uname)
  | frame c =>
    by_cases hc : (s.clients c).ctsk = true
    · rw [CEngine.step,if_pos hc]
      exact congrArg some (hall_modify_of_member s c _ rfl)
    · rw [CEngine.step,if_neg hc]
      rfl
  | request c msg =>
    by_cases hc : (s.clients c).ctsk = true
    · rw [CEngine.step,if_pos hc]
      exact procMsg_hall s c msg hc
    · refine Eq.trans ?_ (congrArg s.hall.act (if_neg (fun h => hc h.1)).symm)
      rw [CEngine.step,if_neg hc]
      rfl
  | disconnect c =>
    by_cases hc : (s.clients c).ctsk = true
    · refine Eq.trans ?_ (congrArg s.hall.act (if_pos hc).symm)
      rw [CEngine.step,if_pos hc]
      exact breakLine_hall s c
    · refine Eq.trans ?_ (congrArg s.hall.act (if_neg hc).symm)
      rw [CEngine.step,if_neg hc]
      rfl

theorem step_ok_hall {s t : CEngine} {e : Event} (h : s.step e = .ok t) :
    Hall.Step s.hall e t.hall := by
  have hstep := step_hall s e
  rw [h] at hstep
  exact hstep.symm

theorem step_ok_of_act {s : CEngine} {e : Event} {h' : Hall}
    (h : s.hall.act (s.hall.action e) = some h') : ∃ t, s.step e = .ok t ∧ t.hall = h' := by
  have hstep := step_hall s e
  rw [h] at hstep
  cases hs : s.step e with
  | error site =>
    rw [hs] at hstep
    cases hstep
  | ok t =>
    rw [hs] at hstep
    exact ⟨t,rfl,Option.some.inj hstep⟩

/-- A run of the engine is a run of its hall over the same events. -/
theorem run_ok_hall {s t : CEngine} {es : List Event} (h : s.run es = .ok t) :
    Lts.Run Hall.Step s.hall es t.hall :=
  (Lts.exec_ok_iff.mp h).map CEngine.hall (fun _ _ _ hst => step_ok_hall hst)

end CcniServer
