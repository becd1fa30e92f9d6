import CcniServer.Hall.Handlers

/-! The hall: the engine without its outgoing messages. A client is what the rooms and sessions
know of it, and each operation is a partial function that is undefined where an `ASSERT`
fails. -/
namespace CcniServer

structure Member where
  state : CClient.State
  uname : String
  roomid : ℤ
  sessionid : ℤ
  ctsk : Bool

structure Hall where
  member : CClientPtr → Member
  list : OrdMap String CClientPtr
  rooms : OrdMap ℤ CRoom
  idseed : ℕ

/-- What is asked of the hall in one step. -/
inductive Action
  | quiet
  | login (c : CClientPtr) (uname : String)
  | enterRoom (c : CClientPtr) (rid : ℤ)
  | leaveRoom (c : CClientPtr)
  | newSession (c : CClientPtr)
  | enterSession (c : CClientPtr) (sid : ℤ)
  | leaveSession (c : CClientPtr)
  | watchSession (c : CClientPtr) (sid : ℤ)
  | ready (c : CClientPtr)
  | listSessions (c : CClientPtr)
  | disconnect (c : CClientPtr)

namespace Hall

def setMember (h : Hall) (c : CClientPtr) (m : Member) : Hall :=
  { h with member := Function.update h.member c m }

def setRoom (h : Hall) (rid : ℤ) (rm : CRoom) : Hall :=
  { h with rooms := h.rooms.insert rid rm }

def login (h : Hall) (c : CClientPtr) (uname : String) : Hall :=
  match h.list.find? uname with
  | some _ => h
  | none => { h.setMember c ⟨.stOnline,uname,-1,-1,true⟩ with list := h.list.insert uname c }

def enterRoom (h : Hall) (c : CClientPtr) (rid : ℤ) : Hall :=
  if (h.member c).state ≠ .stOnline ∨ (h.member c).ctsk = false then h
  else
    match (h.rooms.find? rid).bind (fun rm => rm.addUser c) with
    | none => h
    | some rm =>
      (h.setRoom rid rm).setMember c { h.member c with state := .stIdle, roomid := rid }

def leaveRoom (h : Hall) (c : CClientPtr) : Option Hall :=
  ((h.rooms.find? (h.member c).roomid).bind (fun rm => rm.dismiss c)).map (fun rm =>
    (h.setRoom (h.member c).roomid rm).setMember c
      { h.member c with state := .stOnline, roomid := -1 })

def newSession (h : Hall) (c : CClientPtr) : Option Hall :=
  if (h.member c).state = .stIdle ∧ (h.member c).ctsk ∧ (h.member c).roomid > 0 then
    (h.rooms.find? (h.member c).roomid).bind (fun rm =>
      if c ∈ rm.usrlist then
        let gen := CSession.genid h.idseed
        some { (h.setRoom (h.member c).roomid
            (rm.setSession gen.2 (CSession.new c .create gen.2))).setMember c
              { h.member c with state := .stSessional, sessionid := gen.2 } with
          idseed := gen.1 }
      else none)
  else none

/-- A session after a leave: erased when nobody is left. -/
def putSession (rm : CRoom) (k : ℕ) (ss : CSession) : CRoom :=
  if ss.members = [] then rm.eraseSession k else rm.setSession k ss

def leaveSession (h : Hall) (c : CClientPtr) : Option Hall :=
  if (h.member c).ctsk ∧ (h.member c).roomid > 0 ∧ (h.member c).sessionid > 0 then
    (h.rooms.find? (h.member c).roomid).bind (fun rm =>
      ((rm.sessions.find? (Scan.toUInt32 (h.member c).sessionid)).bind
        (fun ss => ss.unseat c)).map (fun ss =>
          (h.setRoom (h.member c).roomid
            (putSession rm (Scan.toUInt32 (h.member c).sessionid) ss)).setMember c
              { h.member c with state := .stIdle, sessionid := -1 }))
  else none

theorem leaveRoom_state {h h' : Hall} {c : CClientPtr} (hl : h.leaveRoom c = some h') :
    (h'.member c).state = .stOnline := by
  obtain ⟨rm,-,rfl⟩ := Option.map_eq_some_iff.mp hl
  simp [setMember]

theorem leaveSession_state {h h' : Hall} {c : CClientPtr} (hl : h.leaveSession c = some h') :
    (h'.member c).state = .stIdle := by
  unfold leaveSession at hl
  split_ifs at hl
  obtain ⟨rm,-,hl⟩ := Option.bind_eq_some_iff.mp hl
  obtain ⟨ss,-,rfl⟩ := Option.map_eq_some_iff.mp hl
  simp [setMember]

/-- A place in a session, for a player or for a watcher, where there is one. -/
def joinSession (h : Hall) (c : CClientPtr) (sid : ℤ) (join : CSession → Option CSession)
    (st : CClient.State) : Option Hall :=
  if (h.member c).ctsk ∧ (h.member c).roomid > 0 ∧ (h.member c).sessionid < 0 then
    (h.rooms.find? (h.member c).roomid).map (fun rm =>
      match (rm.sessions.find? (Scan.toUInt32 sid)).bind join with
      | none => h
      | some ss =>
        (h.setRoom (h.member c).roomid (rm.setSession (Scan.toUInt32 sid) ss)).setMember c
          { h.member c with state := st, sessionid := sid })
  else none

def enterSession (h : Hall) (c : CClientPtr) (sid : ℤ) : Option Hall :=
  h.joinSession c sid (fun ss => ss.takeSeat c) .stSessional

def watchSession (h : Hall) (c : CClientPtr) (sid : ℤ) : Option Hall :=
  h.joinSession c sid (fun ss => ss.addWatcher c) .stWatching

def setState (m : CClientPtr → Member) (c : CClientPtr) (st : CClient.State) :
    CClientPtr → Member :=
  Function.update m c { m c with state := st }

@[simp] theorem setState_uname (m : CClientPtr → Member) (c d : CClientPtr) (st : CClient.State) :
    (setState m c st d).uname = (m d).uname := by
  by_cases hd : d = c <;> simp [setState,hd]

@[simp] theorem setState_roomid (m : CClientPtr → Member) (c d : CClientPtr) (st : CClient.State) :
    (setState m c st d).roomid = (m d).roomid := by
  by_cases hd : d = c <;> simp [setState,hd]

@[simp] theorem setState_sessionid (m : CClientPtr → Member) (c d : CClientPtr)
    (st : CClient.State) : (setState m c st d).sessionid = (m d).sessionid := by
  by_cases hd : d = c <;> simp [setState,hd]

@[simp] theorem setState_ctsk (m : CClientPtr → Member) (c d : CClientPtr) (st : CClient.State) :
    (setState m c st d).ctsk = (m d).ctsk := by
  by_cases hd : d = c <;> simp [setState,hd]

@[simp] theorem setState_state (m : CClientPtr → Member) (c d : CClientPtr) (st : CClient.State) :
    (setState m c st d).state = if d = c then st else (m d).state := by
  by_cases hd : d = c <;> simp [setState,hd]

theorem setState_of_ne {m : CClientPtr → Member} {c d : CClientPtr} {st : CClient.State}
    (h : d ≠ c) : setState m c st d = m d := Function.update_of_ne h _ _

/-- The states of the two players when a game starts. -/
def startGame (ss : CSession) (m : CClientPtr → Member) (ow op : CClientPtr) :
    CClientPtr → Member :=
  if ss.cfg.red = 0 then setState (setState m ow .stMoving) op .stPondering
  else setState (setState m ow .stPondering) op .stMoving

/-- The members after `ready`, nothing for a client that is not a player. -/
def readyMembers (ss : CSession) (m : CClientPtr → Member) (c : CClientPtr) :
    Option (CClientPtr → Member) :=
  let m := setState m c .stReady
  if ss.owner = some c then
    match ss.opponent with
    | none => some m
    | some op => some (if (m op).state = .stReady then startGame ss m c op else m)
  else if ss.opponent = some c then
    match ss.owner with
    | none => some m
    | some ow => some (if (m ow).state = .stReady then startGame ss m ow c else m)
  else none

theorem startGame_setState (ss : CSession) (m : CClientPtr → Member) {ow op c : CClientPtr}
    (st : CClient.State) (hne : ow ≠ op) (hc : c = ow ∨ c = op) :
    ∃ a b, (a = ow ∧ b = op ∨ a = op ∧ b = ow) ∧
      startGame ss (setState m c st) ow op = setState (setState m a .stMoving) b .stPondering := by
  have hswap : ∀ x y : CClientPtr, x ≠ y → (c = x ∨ c = y) → ∀ st₁ st₂ : CClient.State,
      setState (setState (setState m c st) x st₁) y st₂ = setState (setState m x st₁) y st₂ := by
    intro x y hxy hxc st₁ st₂
    funext d
    simp only [setState,Function.update_apply]
    rcases hxc with rfl | rfl <;> grind
  unfold startGame
  split_ifs
  · exact ⟨ow,op,.inl ⟨rfl,rfl⟩,hswap ow op hne hc _ _⟩
  · refine ⟨op,ow,.inr ⟨rfl,rfl⟩,?_⟩
    rw [hswap ow op hne hc]
    funext d
    simp only [setState,Function.update_apply]
    grind

/-- A ready player waits for the other one, or both begin to play. -/
theorem readyMembers_some {ss : CSession} {m m' : CClientPtr → Member} {c : CClientPtr}
    (hnd : ss.members.Nodup) (h : readyMembers ss m c = some m') :
    ((ss.owner = some c ∨ ss.opponent = some c) ∧
      (∀ d, d ≠ c → ss.owner = some d ∨ ss.opponent = some d → (m d).state ≠ .stReady) ∧
      m' = setState m c .stReady) ∨
    ∃ a b, a ≠ b ∧ (ss.owner = some a ∧ ss.opponent = some b ∨
        ss.owner = some b ∧ ss.opponent = some a) ∧
      (c = a ∧ (m b).state = .stReady ∨ c = b ∧ (m a).state = .stReady) ∧
      m' = setState (setState m a .stMoving) b .stPondering := by
  obtain ⟨hone,-⟩ := CSession.nodup_members.mp hnd
  unfold readyMembers at h
  by_cases how : ss.owner = some c
  · simp only [how,if_true] at h
    cases hop : ss.opponent with
    | none =>
      simp only [hop,Option.some.injEq] at h
      refine .inl ⟨.inl how,?_,h.symm⟩
      rintro d hd (hd' | hd')
      · exact absurd (Option.some.inj (how.symm.trans hd')).symm hd
      · exact absurd hd' (by simp)
    | some op =>
      have hne : c ≠ op := fun he => hone c how (he ▸ hop)
      simp only [hop,Option.some.injEq,setState_of_ne (Ne.symm hne)] at h
      split_ifs at h with hr
      · obtain ⟨a,b,hab,hst⟩ := startGame_setState ss m .stReady hne (.inl rfl)
        refine .inr ⟨a,b,?_,?_,?_,h.symm.trans hst⟩ <;> grind
      · refine .inl ⟨.inl how,?_,h.symm⟩
        rintro d hd (hd' | hd')
        · exact absurd (Option.some.inj (how.symm.trans hd')).symm hd
        · rwa [← Option.some.inj hd']
  · by_cases hop : ss.opponent = some c
    · simp only [how,hop,if_false,if_true] at h
      cases how' : ss.owner with
      | none =>
        simp only [how',Option.some.injEq] at h
        refine .inl ⟨.inr hop,?_,h.symm⟩
        rintro d hd (hd' | hd')
        · exact absurd hd' (by simp)
        · exact absurd (Option.some.inj (hop.symm.trans hd')).symm hd
      | some ow =>
        have hne : ow ≠ c := fun he => how (he ▸ how')
        simp only [how',Option.some.injEq,setState_of_ne hne] at h
        split_ifs at h with hr
        · obtain ⟨a,b,hab,hst⟩ := startGame_setState ss m .stReady hne (.inr rfl)
          refine .inr ⟨a,b,?_,?_,?_,h.symm.trans hst⟩ <;> grind
        · refine .inl ⟨.inr hop,?_,h.symm⟩
          rintro d hd (hd' | hd')
          · rwa [← Option.some.inj hd']
          · exact absurd (Option.some.inj (hop.symm.trans hd')).symm hd
    · simp only [how,hop,if_false] at h
      cases h

theorem readyMembers_isSome {ss : CSession} {m : CClientPtr → Member} {c : CClientPtr}
    (hc : ss.owner = some c ∨ ss.opponent = some c) : (readyMembers ss m c).isSome := by
  unfold readyMembers
  by_cases how : ss.owner = some c
  · rw [if_pos how]
    cases ss.opponent <;> rfl
  · rw [if_neg how,if_pos (hc.resolve_left how)]
    cases ss.owner <;> rfl

def ready (h : Hall) (c : CClientPtr) : Option Hall :=
  if (h.member c).ctsk ∧ (h.member c).roomid > 0 ∧ (h.member c).sessionid > 0 then
    (h.rooms.find? (h.member c).roomid).bind (fun rm =>
      ((rm.sessions.find? (Scan.toUInt32 (h.member c).sessionid)).bind
        (fun ss => readyMembers ss h.member c)).map (fun m => { h with member := m }))
  else none

def dropSession (h : Hall) (c : CClientPtr) : Option Hall :=
  if (h.member c).sessionid > 0 then h.leaveSession c else some h

def dropRoom (h : Hall) (c : CClientPtr) : Option Hall :=
  if (h.member c).roomid > 0 then h.leaveRoom c else some h

/-- The client goes offline and its name is free again. -/
def retire (h : Hall) (c : CClientPtr) : Hall :=
  { h.setMember c { h.member c with state := .stOffline, ctsk := false } with
    list := h.list.erase (h.member c).uname }

def breakLine (h : Hall) (c : CClientPtr) : Option Hall :=
  ((h.dropSession c).bind (fun h => h.dropRoom c)).map (fun h => h.retire c)

/-- The hall after an action, unless an `ASSERT` fails. -/
def act (h : Hall) : Action → Option Hall
  | .quiet => some h
  | .login c uname => some (h.login c uname)
  | .enterRoom c rid => some (h.enterRoom c rid)
  | .leaveRoom c => if (h.member c).roomid > 0 then h.leaveRoom c else none
  | .newSession c => h.newSession c
  | .enterSession c sid => h.enterSession c sid
  | .leaveSession c => h.leaveSession c
  | .watchSession c sid => h.watchSession c sid
  | .ready c => h.ready c
  | .listSessions c =>
    if (h.member c).roomid > 0 ∧ (h.rooms.find? (h.member c).roomid).isSome then some h else none
  | .disconnect c => h.breakLine c

/-- The action a handler takes on behalf of a client. -/
def handlerAction (c : CClientPtr) (msg : CXmlNode) : CClient.Msghnd → Action
  | .doEnterRoom => .enterRoom c (CClient.idOf msg)
  | .doLeaveRoom => .leaveRoom c
  | .doNewSession => .newSession c
  | .doEnterSession => .enterSession c (CClient.idOf msg)
  | .doLeaveSession => .leaveSession c
  | .doWatchSession => .watchSession c (CClient.idOf msg)
  | .doReady => .ready c
  | .doListSessions => .listSessions c
  | _ => .quiet

/-- What an event asks of the hall: nothing for a client without a task, for a message the
client's state refuses, or for a node that is no element. -/
def action (h : Hall) : Event → Action
  | .login c _ _ uname => if (h.member c).ctsk then .quiet else .login c uname
  | .frame _ => .quiet
  | .request c msg =>
    if (h.member c).ctsk ∧ msg.isElement ∧
        (h.member c).state.isIn (CClient.findHnd msg.name).vstate then
      handlerAction c msg (CClient.findHnd msg.name).fn
    else .quiet
  | .disconnect c => if (h.member c).ctsk then .disconnect c else .quiet

/-- What the table and the task check before an action is taken. -/
def Guard (h : Hall) : Action → Prop
  | .quiet => True
  | .login c _ => (h.member c).ctsk = false
  | .enterRoom c _ => (h.member c).ctsk = true ∧ (h.member c).state = .stOnline
  | .leaveRoom c => (h.member c).ctsk = true ∧ (h.member c).state = .stIdle
  | .newSession c => (h.member c).ctsk = true ∧ (h.member c).state = .stIdle
  | .enterSession c sid => (h.member c).ctsk = true ∧ (h.member c).state = .stIdle ∧
      -2^31 ≤ sid ∧ sid < 2^31
  | .leaveSession c => (h.member c).ctsk = true ∧
      (h.member c).state.isIn CClient.State.stInSession = true
  | .watchSession c sid => (h.member c).ctsk = true ∧ (h.member c).state = .stIdle ∧
      -2^31 ≤ sid ∧ sid < 2^31
  | .ready c => (h.member c).ctsk = true ∧ (h.member c).state = .stSessional
  | .listSessions c => (h.member c).ctsk = true ∧
      (h.member c).state.isIn CClient.State.stInRoom = true
  | .disconnect c => (h.member c).ctsk = true

theorem findHnd_cases (name : String) :
    (CClient.findHnd name ∈ CClient.msghnds ∧ (CClient.findHnd name).label = name) ∨
      CClient.findHnd name = ⟨"",CClient.State.stConnected,.doUnknow⟩ := by
  unfold CClient.findHnd
  cases hfind : CClient.msghnds.find? (fun e => e.label == name) with
  | none => exact .inr rfl
  | some hnd =>
    have hlabel : hnd.label = name := by simpa using List.find?_some hfind
    exact .inl ⟨List.mem_of_find?_eq_some hfind,hlabel⟩

theorem eq_of_isIn_val {st st' : CClient.State} (h : st.isIn st'.val = true) : st = st' := by
  cases st <;> cases st' <;> first | rfl | exact absurd h (by decide)

theorem handlerAction_guard {h : Hall} {c : CClientPtr} {msg : CXmlNode}
    {hnd : CClient.HndtableT} (hmem : hnd ∈ CClient.msghnds) (hc : (h.member c).ctsk = true)
    (hst : (h.member c).state.isIn hnd.vstate = true) : h.Guard (handlerAction c msg hnd.fn) := by
  have hid : -2^31 ≤ CClient.idOf msg ∧ CClient.idOf msg < 2^31 := CXmlNode.getIntContent_range _
  simp only [CClient.msghnds,List.mem_cons,List.not_mem_nil,or_false] at hmem
  rcases hmem with rfl | rfl | rfl | rfl | rfl | rfl | rfl | rfl | rfl | rfl | rfl | rfl | rfl |
    rfl | rfl | rfl
  all_goals first
    | exact trivial
    | exact ⟨hc,eq_of_isIn_val hst⟩
    | exact ⟨hc,eq_of_isIn_val hst,hid⟩
    | exact ⟨hc,hst⟩

theorem action_guard (h : Hall) (e : Event) : h.Guard (h.action e) := by
  cases e with
  | login c udp udpaddr uname =>
    simp only [action]
    split_ifs with hc
    · exact trivial
    · exact Bool.eq_false_iff.mpr hc
  | frame c => exact trivial
  | request c msg =>
    simp only [action]
    split_ifs with hreq
    · obtain ⟨hc,-,hst⟩ := hreq
      rcases findHnd_cases msg.name with ⟨hmem,-⟩ | hdef
      · exact handlerAction_guard hmem hc hst
      · rw [hdef]
        exact trivial
    · exact trivial
  | disconnect c =>
    simp only [action]
    split_ifs with hc
    · exact hc
    · exact trivial

/-! ### The events behind an action -/

/-- The action of a request is that of a handler for the message's name. -/
theorem action_request {h : Hall} {c : CClientPtr} {msg : CXmlNode} {a : Action}
    (ha : h.action (.request c msg) = a) (hq : a ≠ .quiet) :
    ∃ hnd ∈ CClient.msghnds, hnd.label = msg.name ∧
      (h.member c).state.isIn hnd.vstate = true ∧ handlerAction c msg hnd.fn = a := by
  simp only [action] at ha
  split_ifs at ha with hreq
  · rcases findHnd_cases msg.name with ⟨hmem,hlabel⟩ | hdef
    · exact ⟨_,hmem,hlabel,hreq.2.2,ha⟩
    · rw [hdef] at ha
      exact absurd ha.symm hq
  · exact absurd ha.symm hq

theorem action_newSession {h : Hall} {e : Event} {c : CClientPtr}
    (ha : h.action e = .newSession c) :
    ∃ msg, e = .request c msg ∧ (h.member c).state = .stIdle ∧ msg.name = xmlTagNewSession := by
  cases e with
  | login c' udp udpaddr uname =>
    simp only [action] at ha
    split_ifs at ha
  | frame c' => cases ha
  | disconnect c' =>
    simp only [action] at ha
    split_ifs at ha
  | request c' msg =>
    obtain ⟨hnd,hmem,hlabel,hst,hact⟩ := action_request ha nofun
    simp only [CClient.msghnds,List.mem_cons,List.not_mem_nil,or_false] at hmem
    rcases hmem with rfl | rfl | rfl | rfl | rfl | rfl | rfl | rfl | rfl | rfl | rfl | rfl |
      rfl | rfl | rfl | rfl
    all_goals cases hact
    exact ⟨msg,rfl,eq_of_isIn_val hst,hlabel.symm⟩

theorem action_enterSession {h : Hall} {e : Event} {c : CClientPtr} {sid : ℤ}
    (ha : h.action e = .enterSession c sid) :
    ∃ msg, e = .request c msg ∧ (h.member c).state = .stIdle ∧
      msg.name = xmlTagEnterSession ∧ sid = CClient.idOf msg := by
  cases e with
  | login c' udp udpaddr uname =>
    simp only [action] at ha
    split_ifs at ha
  | frame c' => cases ha
  | disconnect c' =>
    simp only [action] at ha
    split_ifs at ha
  | request c' msg =>
    obtain ⟨hnd,hmem,hlabel,hst,hact⟩ := action_request ha nofun
    simp only [CClient.msghnds,List.mem_cons,List.not_mem_nil,or_false] at hmem
    rcases hmem with rfl | rfl | rfl | rfl | rfl | rfl | rfl | rfl | rfl | rfl | rfl | rfl |
      rfl | rfl | rfl | rfl
    all_goals cases hact
    exact ⟨msg,rfl,eq_of_isIn_val hst,hlabel.symm,rfl⟩

theorem action_disconnect {h : Hall} {e : Event} {c : CClientPtr}
    (ha : h.action e = .disconnect c) : e = .disconnect c := by
  cases e with
  | login c' udp udpaddr uname =>
    simp only [action] at ha
    split_ifs at ha
  | frame c' => cases ha
  | disconnect c' =>
    simp only [action] at ha
    split_ifs at ha
    cases ha
    rfl
  | request c' msg =>
    obtain ⟨hnd,hmem,-,-,hact⟩ := action_request ha nofun
    simp only [CClient.msghnds,List.mem_cons,List.not_mem_nil,or_false] at hmem
    rcases hmem with rfl | rfl | rfl | rfl | rfl | rfl | rfl | rfl | rfl | rfl | rfl | rfl |
      rfl | rfl | rfl | rfl
    all_goals cases hact

/-- The steps of the hall under the events of the engine. -/
def Step (h : Hall) (e : Event) (h' : Hall) : Prop := h.act (h.action e) = some h'

end Hall

def CClient.member (cl : CClient) : Member := ⟨cl.state,cl.uname,cl.roomid,cl.sessionid,cl.ctsk⟩

/-- The engine without its messages. -/
def CEngine.hall (s : CEngine) : Hall := ⟨CClient.member ∘ s.clients,s.list,s.rooms,s.idseed⟩
end CcniServer
