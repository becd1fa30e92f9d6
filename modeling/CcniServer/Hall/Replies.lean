import CcniServer.Hall.Simulation

/-!
The answers of the message handlers: which requests a handler accepts, the answer it then gives,
and what a refused request leaves behind.
-/
namespace CcniServer

namespace Checked
variable {α β : Type}

theorem bind_eq_ok {x : Checked α} {f : α → Checked β} {b : β} :
    x >>= f = .ok b ↔ ∃ a, x = .ok a ∧ f a = .ok b := by
  cases x with
  | error site => simp
  | ok a => simp

end Checked

/-! ### What the handlers leave alone -/

namespace CEngine

@[simp] theorem clients_modify (s : CEngine) (c : CClientPtr) (f : CClient → CClient) :
    (s.modify c f).clients c = f (s.clients c) := Function.update_self _ _ _

theorem clients_modify_of_ne (s : CEngine) {c d : CClientPtr} (f : CClient → CClient) (hd : d ≠ c) :
    (s.modify c f).clients d = s.clients d := Function.update_of_ne hd _ _

@[simp] theorem clients_setRoom (s : CEngine) (r : ℤ) (rm : CRoom) :
    (s.setRoom r rm).clients = s.clients := rfl

@[simp] theorem clients_assign (s : CEngine) (job : CJob) : (s.assign job).clients = s.clients := rfl

@[simp] theorem clients_appendmsg (s : CEngine) (c : CClientPtr) (m : CXmlNode) :
    ((s.appendmsg c m).clients c).resmsg = (s.clients c).resmsg ++ [m] := by
  rw [appendmsg,clients_modify]

end CEngine

namespace CClient
open CXmlMsg

@[simp] theorem resmsg_genBdsAndNotis (s : CEngine) (c : CClientPtr) :
    ((genBdsAndNotis s c).clients c).resmsg = (s.clients c).resmsg := by
  rw [genBdsAndNotis,CEngine.clients_modify]

@[simp] theorem resmsg_consumeBdsAndNotis (s : CEngine) (c : CClientPtr) :
    ((consumeBdsAndNotis s c).clients c).resmsg = (s.clients c).resmsg := by
  have hb : ((consumeBds s c).clients c).resmsg = (s.clients c).resmsg := by
    unfold consumeBds
    split_ifs <;> simp
  unfold consumeBdsAndNotis consumeNotis
  split_ifs <;> simpa using hb

theorem resmsg_leaveRoom {s t : CEngine} {c : CClientPtr} (h : leaveRoom s c = .ok t) :
    (t.clients c).resmsg = (s.clients c).resmsg := by
  unfold leaveRoom at h
  cases hrm : s.findRoom (s.clients c).roomid with
  | none =>
    simp only [hrm] at h
    cases h
  | some rm =>
    simp only [hrm] at h
    obtain ⟨_,-,h⟩ := Checked.bind_eq_ok.mp h
    cases h
    simp

theorem resmsg_leaveSession {s : CEngine} {c : CClientPtr} {res : CEngine × ℤ}
    (h : leaveSession s c = .ok res) : (res.1.clients c).resmsg = (s.clients c).resmsg := by
  obtain ⟨_,-,h⟩ := Checked.bind_eq_ok.mp h
  cases hrm : s.findRoom (s.clients c).roomid with
  | none =>
    simp only [hrm] at h
    cases h
  | some rm =>
    simp only [hrm] at h
    obtain ⟨left,-,h⟩ := Checked.bind_eq_ok.mp h
    cases h
    simp

theorem resmsg_createSession {s : CEngine} {c : CClientPtr} {cfg : CSessionConfig}
    {res : CEngine × ℤ} (h : createSession s c cfg = .ok res) :
    res.2 = 0 ∧ (res.1.clients c).resmsg = (s.clients c).resmsg ∧
      (res.1.clients c).sessionid = (CSession.genid s.idseed).2 := by
  obtain ⟨_,-,h⟩ := Checked.bind_eq_ok.mp h
  cases hrm : s.findRoom (s.clients c).roomid with
  | none =>
    simp only [hrm] at h
    cases h
  | some rm =>
    simp only [hrm] at h
    obtain ⟨made,hmade,h⟩ := Checked.bind_eq_ok.mp h
    obtain ⟨_,-,hmade⟩ := Checked.bind_eq_ok.mp hmade
    cases hmade
    cases h
    simp [CSession.new]

/-- The clients are the same up to their states. -/
def OnlyStates (heap heap' : CClientPtr → CClient) : Prop :=
  ∀ d, ∃ st, heap' d = { heap d with state := st }

theorem OnlyStates.trans {heap₁ heap₂ heap₃ : CClientPtr → CClient} (h : OnlyStates heap₁ heap₂)
    (h' : OnlyStates heap₂ heap₃) : OnlyStates heap₁ heap₃ := by
  intro d
  obtain ⟨st,hst⟩ := h d
  obtain ⟨st',hst'⟩ := h' d
  exact ⟨st',by rw [hst',hst]⟩

theorem onlyStates_setstate (heap : CClientPtr → CClient) (c : CClientPtr) (st : State) :
    OnlyStates heap (CSession.setstate heap c st) := by
  intro d
  by_cases hd : d = c
  · exact ⟨st,by rw [hd,CSession.setstate,Function.update_self]⟩
  · exact ⟨(heap d).state,by rw [CSession.setstate,Function.update_of_ne hd]⟩

theorem onlyStates_updatePlayersState (ss : CSession) (heap : CClientPtr → CClient)
    (ow op : CClientPtr) : OnlyStates heap (ss.updatePlayersState heap ow op).1 := by
  unfold CSession.updatePlayersState
  split_ifs
  · exact (onlyStates_setstate _ _ _).trans (onlyStates_setstate _ _ _)
  · exact (onlyStates_setstate _ _ _).trans (onlyStates_setstate _ _ _)

/-- `ready` changes the states of clients and collects recipients. -/
theorem ready_effect {rm : CRoom} {heap : CClientPtr → CClient} {sid : ℤ} {c : CClientPtr}
    {noti : CNotifier} {res : CSession.ReadyRes} (h : rm.ready heap sid c noti = .ok res) :
    OnlyStates heap res.heap ∧ ∃ cs, res.notier = noti.addNotifiees cs := by
  have hself : OnlyStates heap heap := fun d => ⟨(heap d).state,rfl⟩
  have hset := onlyStates_setstate heap c .stReady
  have hagainst : ∀ (ss : CSession) ow op other,
      OnlyStates heap (ss.readyAgainst (CSession.setstate heap c .stReady) ow op other noti).heap ∧
        ∃ cs, (ss.readyAgainst (CSession.setstate heap c .stReady) ow op other noti).notier =
          noti.addNotifiees cs := by
    intro ss ow op other
    unfold CSession.readyAgainst
    dsimp only
    split_ifs
    · exact ⟨hset.trans (onlyStates_updatePlayersState ss _ ow op),_ :: _,rfl⟩
    · exact ⟨hset,_ :: _,rfl⟩
  unfold CRoom.ready at h
  cases hss : rm.sessions.find? (Scan.toUInt32 sid) with
  | none =>
    simp only [hss] at h
    cases h
    exact ⟨hself,[],rfl⟩
  | some ss =>
    simp only [hss,CSession.ready] at h
    split_ifs at h
    · cases hop : ss.opponent with
      | none =>
        simp only [hop] at h
        cases h
        exact ⟨hset,_,rfl⟩
      | some op =>
        simp only [hop] at h
        cases h
        exact hagainst ss c op op
    · cases how : ss.owner with
      | none =>
        simp only [how] at h
        cases h
        exact ⟨hset,_,rfl⟩
      | some ow =>
        simp only [how] at h
        cases h
        exact hagainst ss ow c ow

theorem resmsg_ready {rm : CRoom} {heap : CClientPtr → CClient} {sid : ℤ} {c : CClientPtr}
    {noti : CNotifier} {res : CSession.ReadyRes} (h : rm.ready heap sid c noti = .ok res) :
    (res.heap c).resmsg = (heap c).resmsg := by
  obtain ⟨st,hst⟩ := (ready_effect h).1 c
  rw [hst]

theorem resmsg_readyMsgs (s : CEngine) (c : CClientPtr) (res : CSession.ReadyRes) :
    ((readyMsgs s c res).clients c).resmsg = (s.clients c).resmsg := by
  unfold readyMsgs
  split_ifs <;> simp

/-! ### Accepted and refused requests -/

/-- The session of the client's room that a request names. -/
def sessionOf (s : CEngine) (c : CClientPtr) (sid : ℤ) : Option CSession :=
  (s.findRoom (s.clients c).roomid).bind (fun rm => rm.sessions.find? (Scan.toUInt32 sid))

/-- The requests a handler takes: for a room with a free place, for a session with a free seat or
with room for one more watcher, for the sessions of a room, and any request of another kind. -/
def Msghnd.Accepts (s : CEngine) (c : CClientPtr) (msg : CXmlNode) : Msghnd → Prop
  | .doEnterRoom => (s.clients c).state = .stOnline ∧ (s.clients c).ctsk = true ∧
      ((s.findRoom (idOf msg)).bind (fun rm => rm.addUser c)).isSome
  | .doEnterSession => ((sessionOf s c (idOf msg)).bind (fun ss => ss.takeSeat c)).isSome
  | .doWatchSession => ((sessionOf s c (idOf msg)).bind (fun ss => ss.addWatcher c)).isSome
  | .doListSessions => (s.findRoom (s.clients c).roomid).isSome
  | _ => True

/-- An element with the return code zero and one more child. -/
def listRes (tag : String) (nd : CXmlNode) : CXmlNode :=
  (addIntParameter (CXmlNode.create tag) xmlTagReturnCode 0).addChild nd

/-- What a handler answers to a request that it takes. -/
def Msghnd.answer (s : CEngine) (c : CClientPtr) : Msghnd → List CXmlNode
  | .doCCNI =>
    [listRes xmlTagCCNIRes (addParameter (addParameter (addParameter (bdmsg xmlTagServerInformation
      xmlTagServerType "CCNIServer") xmlTagServerVersion "1.0") xmlTagCCNIVersion "1.0")
      xmlTagDescription "CCNI Chinese Chess server 1.0 for Linux")]
  | .doMyState =>
    [addParameter (addIntParameter (CXmlNode.create xmlTagMyStateRes) xmlTagReturnCode 0)
      xmlTagState (s.clients c).state.str]
  | .doLogout => [resWith xmlTagLogoutRes 0 "logout success"]
  | .doEnterRoom => [resWith xmlTagEnterRoomRes 0 "enter room success"]
  | .doLeaveRoom => [resWith xmlTagLeaveRoomRes 0 "leave room success"]
  | .doNewSession =>
    [(resWith xmlTagNewSessionRes 0 "create session success").addChild
      (addIntParameter (CXmlNode.create xmlTagSession) xmlTagId (CSession.genid s.idseed).2)]
  | .doEnterSession => [resWith xmlTagEnterSessionRes 0 "enter session success"]
  | .doLeaveSession => [resWith xmlTagLeaveSessionRes 0 "leave session success"]
  | .doWatchSession => [resWith xmlTagEnterSessionRes 0 "watch session success"]
  | .doReady => [resWith xmlTagReadyRes 0 "Ready ok"]
  | .doListRooms => [listRes xmlTagListRoomsRes s.xmlRoomList]
  | .doListSessions => (s.findRoom (s.clients c).roomid).toList.map
      (fun rm => listRes xmlTagListSessionsRes (rm.xmlSessionList s.uname))
  | .doUnknow => [CXmlNode.create xmlTagUnknowMessage]
  | .doMove | .doDraw | .doGiveUp | .doSendMessages => []

/-- The handler returned zero and added its answer. -/
structure Answered (s : CEngine) (c : CClientPtr) (answer : List CXmlNode)
    (res : CEngine × ℤ) : Prop where
  code : res.2 = 0
  resmsg : (res.1.clients c).resmsg = (s.clients c).resmsg ++ answer

/-- The handler returned a negative code, which it also answered, and changed nothing. -/
structure Refused (s : CEngine) (c : CClientPtr) (res : CEngine × ℤ) : Prop where
  code : res.2 = -1 ∨ res.2 = -2 ∨ res.2 = -3
  hall : res.1.hall = s.hall
  resmsg : ∃ tag des, (res.1.clients c).resmsg = (s.clients c).resmsg ++ [resWith tag res.2 des]

theorem answered_doreturn {s t : CEngine} {c : CClientPtr}
    (h : (t.clients c).resmsg = (s.clients c).resmsg) (tag des : String) :
    Answered s c [resWith tag 0 des] (doreturn t c tag 0 des) := by
  refine ⟨rfl,?_⟩
  rw [doreturn,CEngine.clients_appendmsg,h]

theorem refused_doreturn {s : CEngine} {c : CClientPtr} {code : ℤ}
    (hcode : code = -1 ∨ code = -2 ∨ code = -3) (tag des : String) :
    Refused s c (doreturn s c tag code des) :=
  ⟨hcode,hall_doreturn s c tag des code,tag,des,CEngine.clients_appendmsg s c _⟩

theorem answered_appendmsg (s : CEngine) (c : CClientPtr) (m : CXmlNode) :
    Answered s c [m] (s.appendmsg c m,0) := ⟨rfl,CEngine.clients_appendmsg s c m⟩

/-- A room takes a client or the request is refused with one of the three codes. -/
theorem doEnterRoom_cases {s : CEngine} {c : CClientPtr} {msg : CXmlNode} {res : CEngine × ℤ}
    (h : doEnterRoom s c msg = .ok res) :
    (Msghnd.doEnterRoom.Accepts s c msg ∧
      Answered s c (Msghnd.doEnterRoom.answer s c) res) ∨
    (¬ Msghnd.doEnterRoom.Accepts s c msg ∧ Refused s c res) := by
  unfold doEnterRoom enterRoom at h
  simp only [Msghnd.Accepts,Msghnd.answer]
  by_cases hst : (s.clients c).state ≠ .stOnline ∨ (s.clients c).ctsk = false
  · right
    rw [if_pos hst] at h
    cases h
    refine ⟨fun hacc => ?_,refused_doreturn (.inl rfl) _ _⟩
    rcases hst with hst | hst
    · exact hst hacc.1
    · simp [hst] at hacc
  · rw [if_neg hst] at h
    cases hrm : s.findRoom (idOf msg) with
    | none =>
      right
      simp only [hrm] at h
      cases h
      exact ⟨by simp,refused_doreturn (.inr (.inl rfl)) _ _⟩
    | some rm =>
      cases hadd : rm.addUser c with
      | none =>
        right
        simp only [hrm,CRoom.enter,hadd] at h
        cases h
        exact ⟨by simp [hadd],refused_doreturn (.inr (.inr rfl)) _ _⟩
      | some rm' =>
        left
        simp only [hrm,CRoom.enter,hadd] at h
        cases h
        refine ⟨?_,answered_doreturn ?_ _ _⟩
        · simpa [hadd] using hst
        · simp

/-- A session takes the client, or the request is refused with one of the two codes. -/
theorem sessionRes_cases {s t : CEngine} {c : CClientPtr} {code : ℤ} {joined : Prop}
    {success : String} (h : (joined ∧ code = 0 ∧ (t.clients c).resmsg = (s.clients c).resmsg) ∨
      (¬ joined ∧ (code = -2 ∨ code = -3) ∧ t = s)) :
    (joined ∧ Answered s c [resWith xmlTagEnterSessionRes 0 success] (sessionRes t c code success)) ∨
    (¬ joined ∧ Refused s c (sessionRes t c code success)) := by
  rcases h with ⟨hjoin,rfl,hres⟩ | ⟨hjoin,hcode,rfl⟩
  · exact .inl ⟨hjoin,answered_doreturn hres _ _⟩
  · right
    refine ⟨hjoin,?_⟩
    rcases hcode with rfl | rfl
    · exact refused_doreturn (.inr (.inl rfl)) _ _
    · exact refused_doreturn (.inr (.inr rfl)) _ _

/-- A session of the room is joined or not; `code` is what the room's operation returns. -/
theorem joined_cases {s : CEngine} {c : CClientPtr} {sid : ℤ} {join : CSession → Option CSession}
    {rm : CRoom} {code : ℤ} {t : CEngine} {res : CEngine × ℤ}
    (hrm : s.findRoom (s.clients c).roomid = some rm)
    (hcode : (((rm.sessions.find? (Scan.toUInt32 sid)).bind join).isSome ∧ code = 0) ∨
      (¬ ((rm.sessions.find? (Scan.toUInt32 sid)).bind join).isSome ∧
        (code = -2 ∨ code = -3)))
    (ht : (t.clients c).resmsg = (s.clients c).resmsg)
    (h : (if code < 0 then (pure (s,code) : Checked (CEngine × ℤ)) else pure (t,0)) =
      .ok res) :
    (((sessionOf s c sid).bind join).isSome ∧ res.2 = 0 ∧
      (res.1.clients c).resmsg = (s.clients c).resmsg) ∨
    (¬ ((sessionOf s c sid).bind join).isSome ∧ (res.2 = -2 ∨ res.2 = -3) ∧ res.1 = s) := by
  rw [sessionOf,hrm,Option.bind_some]
  rcases hcode with ⟨hjoin,hcode⟩ | ⟨hjoin,hcode⟩
  · rw [if_neg (by omega)] at h
    cases h
    exact .inl ⟨hjoin,rfl,ht⟩
  · rw [if_pos (by omega)] at h
    cases h
    exact .inr ⟨hjoin,hcode,rfl⟩

theorem enterSession_code (rm : CRoom) (sid : ℤ) (c : CClientPtr) (noti : CNotifier) :
    (((rm.sessions.find? (Scan.toUInt32 sid)).bind (fun ss => ss.takeSeat c)).isSome ∧
      (rm.enterSession sid c noti).1 = 0) ∨
    (¬ ((rm.sessions.find? (Scan.toUInt32 sid)).bind (fun ss => ss.takeSeat c)).isSome ∧
      ((rm.enterSession sid c noti).1 = -2 ∨ (rm.enterSession sid c noti).1 = -3)) := by
  cases hss : rm.sessions.find? (Scan.toUInt32 sid) with
  | none => simp [CRoom.enterSession,hss]
  | some ss => cases hseat : ss.takeSeat c <;> simp [CRoom.enterSession,CSession.enter,hss,hseat]

theorem watchSession_code (rm : CRoom) (sid : ℤ) (c : CClientPtr) (noti : CNotifier) :
    (((rm.sessions.find? (Scan.toUInt32 sid)).bind (fun ss => ss.addWatcher c)).isSome ∧
      (rm.watchSession sid c noti).1 = 0) ∨
    (¬ ((rm.sessions.find? (Scan.toUInt32 sid)).bind (fun ss => ss.addWatcher c)).isSome ∧
      ((rm.watchSession sid c noti).1 = -2 ∨ (rm.watchSession sid c noti).1 = -3)) := by
  cases hss : rm.sessions.find? (Scan.toUInt32 sid) with
  | none => simp [CRoom.watchSession,hss]
  | some ss => cases hseat : ss.addWatcher c <;> simp [CRoom.watchSession,CSession.watch,hss,hseat]

theorem enterSession_cases {s : CEngine} {c : CClientPtr} {sid : ℤ} {res : CEngine × ℤ}
    (h : enterSession s c sid = .ok res) :
    (((sessionOf s c sid).bind (fun ss => ss.takeSeat c)).isSome ∧ res.2 = 0 ∧
      (res.1.clients c).resmsg = (s.clients c).resmsg) ∨
    (¬ ((sessionOf s c sid).bind (fun ss => ss.takeSeat c)).isSome ∧
      (res.2 = -2 ∨ res.2 = -3) ∧ res.1 = s) := by
  obtain ⟨_,-,h⟩ := Checked.bind_eq_ok.mp h
  cases hrm : s.findRoom (s.clients c).roomid with
  | none =>
    simp only [hrm] at h
    cases h
  | some rm =>
    simp only [hrm] at h
    refine joined_cases hrm (enterSession_code rm sid c (theNotifier s c)) ?_ h
    simp

theorem watchSession_cases {s : CEngine} {c : CClientPtr} {sid : ℤ} {res : CEngine × ℤ}
    (h : watchSession s c sid = .ok res) :
    (((sessionOf s c sid).bind (fun ss => ss.addWatcher c)).isSome ∧ res.2 = 0 ∧
      (res.1.clients c).resmsg = (s.clients c).resmsg) ∨
    (¬ ((sessionOf s c sid).bind (fun ss => ss.addWatcher c)).isSome ∧
      (res.2 = -2 ∨ res.2 = -3) ∧ res.1 = s) := by
  obtain ⟨_,-,h⟩ := Checked.bind_eq_ok.mp h
  cases hrm : s.findRoom (s.clients c).roomid with
  | none =>
    simp only [hrm] at h
    cases h
  | some rm =>
    simp only [hrm] at h
    refine joined_cases hrm (watchSession_code rm sid c (theNotifier s c)) ?_ h
    simp

theorem doReady_answered {s : CEngine} {c : CClientPtr} {res : CEngine × ℤ}
    (h : doReady s c = .ok res) : Answered s c (Msghnd.doReady.answer s c) res := by
  obtain ⟨_,-,h⟩ := Checked.bind_eq_ok.mp h
  cases hrm : s.findRoom (s.clients c).roomid with
  | none =>
    simp only [hrm] at h
    cases h
  | some rm =>
    simp only [hrm] at h
    obtain ⟨ready,hready,h⟩ := Checked.bind_eq_ok.mp h
    obtain ⟨_,-,h⟩ := Checked.bind_eq_ok.mp h
    cases h
    refine answered_doreturn ?_ _ _
    exact (resmsg_readyMsgs _ c ready).trans (resmsg_ready hready)

theorem doNewSession_answered {s : CEngine} {c : CClientPtr} {res : CEngine × ℤ}
    (h : doNewSession s c = .ok res) : Answered s c (Msghnd.doNewSession.answer s c) res := by
  obtain ⟨made,hmade,h⟩ := Checked.bind_eq_ok.mp h
  obtain ⟨hcode,hresmsg,hid⟩ := resmsg_createSession hmade
  rw [if_neg (by omega),if_neg (by omega)] at h
  cases h
  refine ⟨rfl,?_⟩
  rw [CEngine.clients_appendmsg,hresmsg,hid]
  rfl

theorem doListSessions_answered {s : CEngine} {c : CClientPtr} {res : CEngine × ℤ}
    (h : doListSessions s c = .ok res) : (s.findRoom (s.clients c).roomid).isSome ∧
      Answered s c (Msghnd.doListSessions.answer s c) res := by
  obtain ⟨_,-,h⟩ := Checked.bind_eq_ok.mp h
  cases hrm : s.findRoom (s.clients c).roomid with
  | none =>
    simp only [hrm] at h
    cases h
  | some rm =>
    simp only [hrm] at h
    cases h
    simp only [Msghnd.answer,hrm]
    exact ⟨rfl,answered_appendmsg s c _⟩

/-- A handler that ends takes the request and answers it, or refuses it. -/
theorem run_cases {fn : Msghnd} {s : CEngine} {c : CClientPtr} {msg : CXmlNode}
    {res : CEngine × ℤ} (h : fn.run s c msg = .ok res) :
    (fn.Accepts s c msg ∧ Answered s c (fn.answer s c) res) ∨
    (¬ fn.Accepts s c msg ∧ Refused s c res) := by
  cases fn with
  | doEnterRoom => exact doEnterRoom_cases h
  | doEnterSession =>
    obtain ⟨entered,hentered,h⟩ := Checked.bind_eq_ok.mp h
    cases h
    exact sessionRes_cases (enterSession_cases hentered)
  | doWatchSession =>
    obtain ⟨watched,hwatched,h⟩ := Checked.bind_eq_ok.mp h
    cases h
    exact sessionRes_cases (watchSession_cases hwatched)
  | doLeaveRoom =>
    obtain ⟨_,-,h⟩ := Checked.bind_eq_ok.mp h
    obtain ⟨t,hleft,h⟩ := Checked.bind_eq_ok.mp h
    cases h
    exact .inl ⟨trivial,answered_doreturn (resmsg_leaveRoom hleft) _ _⟩
  | doLeaveSession =>
    obtain ⟨left,hleft,h⟩ := Checked.bind_eq_ok.mp h
    cases h
    exact .inl ⟨trivial,answered_doreturn (resmsg_leaveSession hleft) _ _⟩
  | doNewSession => exact .inl ⟨trivial,doNewSession_answered h⟩
  | doReady => exact .inl ⟨trivial,doReady_answered h⟩
  | doListSessions => exact .inl (doListSessions_answered h)
  | doLogout =>
    cases h
    exact .inl ⟨trivial,answered_doreturn rfl _ _⟩
  | doCCNI | doMyState | doListRooms | doUnknow =>
    cases h
    exact .inl ⟨trivial,answered_appendmsg s c _⟩
  | doMove | doDraw | doGiveUp | doSendMessages =>
    cases h
    exact .inl ⟨trivial,rfl,(List.append_nil _).symm⟩

/-- Answers and acceptance depend on the hall alone. -/
theorem answer_congr {s t : CEngine} (h : s.hall = t.hall) (fn : Msghnd) (c : CClientPtr) :
    fn.answer s c = fn.answer t c := by
  have hmember : ∀ d, (s.clients d).member = (t.clients d).member :=
    fun d => congrFun (congrArg Hall.member h) d
  have hrooms : s.rooms = t.rooms := congrArg Hall.rooms h
  have hidseed : s.idseed = t.idseed := congrArg Hall.idseed h
  have huname : s.uname = t.uname := funext fun d => congrArg Member.uname (hmember d)
  have hstate : (s.clients c).state = (t.clients c).state := congrArg Member.state (hmember c)
  have hroomid : (s.clients c).roomid = (t.clients c).roomid :=
    congrArg Member.roomid (hmember c)
  cases fn <;> simp only [Msghnd.answer,CEngine.findRoom,CEngine.xmlRoomList,hrooms,hidseed,
    huname,hstate,hroomid]

theorem accepts_congr {s t : CEngine} (h : s.hall = t.hall) (fn : Msghnd) (c : CClientPtr)
    (msg : CXmlNode) : fn.Accepts s c msg ↔ fn.Accepts t c msg := by
  have hmember : (s.clients c).member = (t.clients c).member := congrFun (congrArg Hall.member h) c
  have hrooms : s.rooms = t.rooms := congrArg Hall.rooms h
  have hstate : (s.clients c).state = (t.clients c).state := congrArg Member.state hmember
  have hroomid : (s.clients c).roomid = (t.clients c).roomid := congrArg Member.roomid hmember
  have hctsk : (s.clients c).ctsk = (t.clients c).ctsk := congrArg Member.ctsk hmember
  cases fn <;> simp only [Msghnd.Accepts,sessionOf,CEngine.findRoom,hrooms,hstate,hroomid,hctsk]

/-! ### The messages of a batch -/

/-- The document of the reply, empty before the messages are processed. -/
def createRes (s : CEngine) (c : CClientPtr) : CEngine :=
  s.modify c (fun cl => { cl with resmsg := [] })

/-- The state after `checkstate` and the handler, and what they return. -/
def handle (s : CEngine) (c : CClientPtr) (msg : CXmlNode) : Checked (CEngine × ℤ) :=
  let hnd := findHnd msg.name
  let checked := checkstate s c msg hnd.vstate
  if checked.2 then hnd.fn.run (genBdsAndNotis checked.1 c) c msg else .ok (checked.1,-1)

/-- `procMsgs` with the last code that a message returned. -/
def procCodes (s : CEngine) (c : CClientPtr) (code : Option ℤ) :
    List CXmlNode → Checked (CEngine × Option ℤ)
  | [] => .ok (s,code)
  | msg :: msgs =>
    if msg.isElement then do
      let res ← handle s c msg
      if res.2 < 0 then return (res.1,some res.2)
      else procCodes (consumeBdsAndNotis res.1 c) c (some res.2) msgs
    else procCodes s c code msgs

theorem procMsg_eq (s : CEngine) (c : CClientPtr) {msg : CXmlNode} (h : msg.isElement = true) :
    procMsg s c msg = (handle s c msg >>= fun res =>
      if res.2 < 0 then .ok (res.1,false) else .ok (consumeBdsAndNotis res.1 c,true)) := by
  simp only [procMsg,handle,if_pos h]
  by_cases hst : (checkstate s c msg (findHnd msg.name).vstate).2 = true
  · simp only [hst,if_true]
    rfl
  · simp [hst]

theorem map_procCodes (s : CEngine) (c : CClientPtr) (code : Option ℤ) (msgs : List CXmlNode) :
    (procCodes s c code msgs).map Prod.fst = procMsgs s c msgs := by
  induction msgs generalizing s code with
  | nil => rfl
  | cons msg msgs ih =>
    rw [procCodes,procMsgs]
    by_cases hel : msg.isElement = true
    · rw [if_pos hel,procMsg_eq s c hel]
      cases handle s c msg with
      | error site => rfl
      | ok res =>
        simp only [Checked.ok_bind]
        by_cases hneg : res.2 < 0
        · rw [if_pos hneg,if_pos hneg]
          rfl
        · rw [if_neg hneg,if_neg hneg]
          exact ih _ _
    · rw [if_neg hel,procMsg,if_neg hel]
      exact ih _ _

/-- What is no element is skipped. -/
theorem procCodes_filter (s : CEngine) (c : CClientPtr) (code : Option ℤ) (msgs : List CXmlNode) :
    procCodes s c code msgs = procCodes s c code (msgs.filter CXmlNode.isElement) := by
  induction msgs generalizing s code with
  | nil => rfl
  | cons msg msgs ih =>
    by_cases hel : msg.isElement = true
    · rw [List.filter_cons_of_pos hel,procCodes,procCodes,if_pos hel,if_pos hel]
      cases handle s c msg with
      | error site => rfl
      | ok res =>
        simp only [Checked.ok_bind]
        split_ifs
        · rfl
        · exact ih _ _
    · rw [List.filter_cons_of_neg hel,procCodes,if_neg hel]
      exact ih _ _

/-- A message in a valid state that its handler takes. -/
def Taken (s : CEngine) (c : CClientPtr) (msg : CXmlNode) : Prop :=
  (s.clients c).state.isIn (findHnd msg.name).vstate = true ∧
    (findHnd msg.name).fn.Accepts s c msg

theorem handle_cases {s : CEngine} {c : CClientPtr} {msg : CXmlNode} {res : CEngine × ℤ}
    (h : handle s c msg = .ok res) :
    (Taken s c msg ∧ Answered s c ((findHnd msg.name).fn.answer s c) res) ∨
    (¬ Taken s c msg ∧ Refused s c res) := by
  unfold handle checkstate at h
  by_cases hst : (s.clients c).state.isIn (findHnd msg.name).vstate = true
  · simp only [hst,if_true] at h
    have hhall := hall_genBdsAndNotis s c
    have hresmsg := resmsg_genBdsAndNotis s c
    rcases run_cases h with ⟨hacc,hans⟩ | ⟨hacc,href⟩
    · left
      rw [accepts_congr hhall] at hacc
      rw [answer_congr hhall] at hans
      exact ⟨⟨hst,hacc⟩,hans.code,hresmsg ▸ hans.resmsg⟩
    · right
      rw [accepts_congr hhall] at hacc
      exact ⟨fun htaken => hacc htaken.2,href.code,href.hall.trans hhall,hresmsg ▸ href.resmsg⟩
  · right
    simp only [hst] at h
    cases h
    exact ⟨fun htaken => hst htaken.1,refused_doreturn (.inl rfl) _ _⟩

/-- A batch of one message: its handler took it and answered, or it was refused. -/
theorem procCodes_one {s t : CEngine} {c : CClientPtr} {code : Option ℤ} {msg : CXmlNode}
    {msgs : List CXmlNode} (hmsgs : msgs.filter CXmlNode.isElement = [msg])
    (h : procCodes s c none msgs = .ok (t,code)) :
    (Taken s c msg ∧ code = some 0 ∧
      (t.clients c).resmsg = (s.clients c).resmsg ++ (findHnd msg.name).fn.answer s c) ∨
    (¬ Taken s c msg ∧ t.hall = s.hall ∧ ∃ tag rcode des,
      (rcode = -1 ∨ rcode = -2 ∨ rcode = -3) ∧ code = some rcode ∧
      (t.clients c).resmsg = (s.clients c).resmsg ++ [resWith tag rcode des]) := by
  have hel : msg.isElement = true := by
    have hmem : msg ∈ msgs.filter CXmlNode.isElement := hmsgs ▸ List.mem_singleton_self msg
    exact (List.mem_filter.mp hmem).2
  rw [procCodes_filter,hmsgs,procCodes,if_pos hel] at h
  obtain ⟨res,hres,h⟩ := Checked.bind_eq_ok.mp h
  rcases handle_cases hres with ⟨htaken,hans⟩ | ⟨htaken,href⟩
  · left
    rw [if_neg (by rw [hans.code]; exact lt_irrefl 0),procCodes] at h
    cases h
    exact ⟨htaken,congrArg some hans.code,(resmsg_consumeBdsAndNotis _ c).trans hans.resmsg⟩
  · right
    obtain ⟨tag,des,hresmsg⟩ := href.resmsg
    have hneg : res.2 < 0 := by
      rcases href.code with hcode | hcode | hcode <;> omega
    rw [if_pos hneg] at h
    cases h
    exact ⟨htaken,href.hall,tag,res.2,des,href.code,rfl,hresmsg⟩

end CClient
end CcniServer
