import CcniServer.Hall.Games
import CcniServer.Hall.Recipients
import CcniServer.Hall.Refusals
import CcniServer.Lib.References

/-!
Starts of games: what `doReady` does to both players, whatever colour is configured, and what is
queued at every client. The messages name the players by their user names, in which libxml2 reads
references.
-/
namespace CcniServer

/-! ### Deliveries -/

/-- The messages that a job of the pool queues at a client. -/
def CJob.deliver (d : CClientPtr) : CJob → List CXmlNode
  | .broadCaster _ => []
  | .notifier n => (List.replicate (n.clis.count d) n.msg).flatten

def CJob.deliveries (jobs : List CJob) (d : CClientPtr) : List CXmlNode :=
  jobs.flatMap (CJob.deliver d)

/-- The messages in the trees of libxml2, which has read the names in them. -/
def CJob.queued (e : List Char → List Char) (jobs : List CJob) (d : CClientPtr) : List CXmlNode :=
  (CJob.deliveries jobs d).map (CXmlNode.expanded e)

/-! ### The session -/

namespace CSession
variable {ss : CSession} {heap : CClientPtr → CClient} {c : CClientPtr} {n : CNotifier}

/-- The session with another configured colour. -/
def withRed (ss : CSession) (red : ℤ) : CSession :=
  { ss with cfg := { ss.cfg with red := red }, watchers_le := ss.watchers_le }

@[simp] theorem members_withRed (red : ℤ) : (ss.withRed red).members = ss.members := rfl

/-- The seat across from a player. -/
def other (ss : CSession) (c : CClientPtr) : Option CClientPtr :=
  if ss.owner = some c then ss.opponent else ss.owner

/-- The seat across is taken by a client that is ready. -/
def Begins (ss : CSession) (heap : CClientPtr → CClient) (c : CClientPtr) : Prop :=
  ∃ o, ss.other c = some o ∧ (heap o).state = .stReady

/-- The moving and the pondering player of a game. -/
def Colours (ss : CSession) (mv pd : CClientPtr) : Prop :=
  if ss.cfg.red = 0 then ss.owner = some mv ∧ ss.opponent = some pd
  else ss.opponent = some mv ∧ ss.owner = some pd

/-- The clients with a moving and a pondering one. -/
def paired (heap : CClientPtr → CClient) (mv pd : CClientPtr) : CClientPtr → CClient :=
  setstate (setstate heap mv .stMoving) pd .stPondering

theorem setstate_comm {a b : CClientPtr} (hne : a ≠ b) (st st' : CClient.State) :
    setstate (setstate heap a st) b st' = setstate (setstate heap b st') a st := by
  unfold setstate
  rw [Function.update_of_ne hne.symm,Function.update_of_ne hne,Function.update_comm hne]

theorem setstate_setstate (a : CClientPtr) (st st' : CClient.State) :
    setstate (setstate heap a st) a st' = setstate heap a st' := by
  unfold setstate
  rw [Function.update_self,Function.update_idem]

/-- The state a player was given first is written over. -/
theorem paired_setstate {mv pd : CClientPtr} (hne : mv ≠ pd) (hc : c = mv ∨ c = pd)
    (st : CClient.State) : paired (setstate heap c st) mv pd = paired heap mv pd := by
  unfold paired
  rcases hc with rfl | rfl
  · rw [setstate_setstate]
  · rw [setstate_comm hne.symm,setstate_setstate]

theorem uname_setstate (a d : CClientPtr) (st : CClient.State) :
    (setstate heap a st d).uname = (heap d).uname := by
  by_cases hd : d = a
  · rw [hd,setstate,Function.update_self]
  · rw [setstate,Function.update_of_ne hd]

theorem updatePlayersState_paired {ow op : CClientPtr} (how : ss.owner = some ow)
    (hop : ss.opponent = some op) (hne : ow ≠ op) : ∃ mv pd, ss.Colours mv pd ∧ mv ≠ pd ∧
      (∀ d, d = ow ∨ d = op → d = mv ∨ d = pd) ∧
      ss.updatePlayersState heap ow op = (paired heap mv pd,(heap mv).uname,(heap pd).uname) := by
  unfold Colours updatePlayersState
  split_ifs
  · exact ⟨ow,op,⟨how,hop⟩,hne,fun d hd => hd,rfl⟩
  · refine ⟨op,ow,⟨hop,how⟩,hne.symm,fun d hd => hd.symm,?_⟩
    rw [setstate_comm hne]
    rfl

/-- `ready` of a player, with and without a counterpart. -/
theorem ready_player (hc : ss.owner = some c ∨ ss.opponent = some c) (hnd : ss.members.Nodup)
    {res : ReadyRes} (h : ss.ready heap c n = .ok res) :
    (ss.other c = none ∧
      res = ⟨0,setstate heap c .stReady,n.addNotifiees ss.watchers.toList,"",""⟩) ∨
    ∃ ow op o, ss.owner = some ow ∧ ss.opponent = some op ∧ ow ≠ op ∧ ss.other c = some o ∧
      o ≠ c ∧ (c = ow ∨ c = op) ∧ res = ss.readyAgainst (setstate heap c .stReady) ow op o n := by
  have hne : ∀ ow op, ss.owner = some ow → ss.opponent = some op → ow ≠ op := by
    intro ow op how hop heq
    exact (nodup_members.mp hnd).1 ow how (heq ▸ hop)
  unfold ready at h
  unfold other
  by_cases how : ss.owner = some c
  · simp only [how,if_true] at h ⊢
    cases hop : ss.opponent with
    | none =>
      simp only [hop] at h
      cases h
      exact .inl ⟨rfl,rfl⟩
    | some op =>
      simp only [hop] at h
      cases h
      have hcop := hne c op how hop
      exact .inr ⟨c,op,op,rfl,rfl,hcop,rfl,hcop.symm,.inl rfl,rfl⟩
  · have hop := hc.resolve_left how
    simp only [how,hop,if_true,if_false] at h ⊢
    cases how' : ss.owner with
    | none =>
      simp only [how'] at h
      cases h
      exact .inl ⟨rfl,rfl⟩
    | some ow =>
      simp only [how'] at h
      cases h
      have hcow := hne ow c how' hop
      exact .inr ⟨ow,c,ow,rfl,rfl,hcow,rfl,hcow,.inr rfl,rfl⟩

theorem ready_msg (hc : ss.owner = some c ∨ ss.opponent = some c) (hnd : ss.members.Nodup)
    {res : ReadyRes} (h : ss.ready heap c n = .ok res) : res.notier.msg = n.msg := by
  obtain ⟨-,rfl⟩ | ⟨ow,op,o,-,-,-,-,-,-,rfl⟩ := ready_player hc hnd h
  · exact n.msg_addNotifiees _
  · unfold readyAgainst
    dsimp only
    split_ifs <;> exact (n.addNotifiee o).msg_addNotifiees _

/-- The seats across from each other are the two colours. -/
theorem Colours.other {mv pd o : CClientPtr} (h : ss.Colours mv pd) (hne : mv ≠ pd)
    (hc : c = mv ∨ c = pd) (ho : ss.other c = some o) : mv = c ∧ pd = o ∨ mv = o ∧ pd = c := by
  unfold Colours at h
  unfold CSession.other at ho
  rcases hc with rfl | rfl
  · refine .inl ⟨rfl,?_⟩
    split_ifs at h
    · rw [if_pos h.1,h.2] at ho
      exact Option.some.inj ho
    · rw [h.2,if_neg (by simpa using hne.symm)] at ho
      exact Option.some.inj ho
  · refine .inr ⟨?_,rfl⟩
    split_ifs at h
    · rw [h.1,if_neg (by simpa using hne)] at ho
      exact Option.some.inj ho
    · rw [if_pos h.2,h.1] at ho
      exact Option.some.inj ho

theorem Colours.unique {mv pd mv' pd' : CClientPtr} (h : ss.Colours mv pd)
    (h' : ss.Colours mv' pd') : mv' = mv ∧ pd' = pd := by
  unfold Colours at h h'
  split_ifs at h h' <;>
    exact ⟨Option.some.inj (h'.1.symm.trans h.1),Option.some.inj (h'.2.symm.trans h.2)⟩

theorem Colours.mem {mv pd : CClientPtr} (h : ss.Colours mv pd) :
    mv ∈ ss.members ∧ pd ∈ ss.members := by
  unfold Colours at h
  simp only [mem_members]
  split_ifs at h
  · exact ⟨.inl h.1,.inr (.inl h.2)⟩
  · exact ⟨.inr (.inl h.1),.inl h.2⟩

/-- A player whose counterpart is not ready only gets ready. -/
theorem ready_waits (hc : ss.owner = some c ∨ ss.opponent = some c) (hnd : ss.members.Nodup)
    (hwait : ¬ ss.Begins heap c) {res : ReadyRes} (h : ss.ready heap c n = .ok res) :
    res.ret = 0 ∧ res.heap = setstate heap c .stReady := by
  obtain ⟨-,rfl⟩ | ⟨ow,op,o,-,-,-,hother,ho,-,rfl⟩ := ready_player hc hnd h
  · exact ⟨rfl,rfl⟩
  · have hstate : (setstate heap c .stReady o).state ≠ .stReady := by
      rw [setstate,Function.update_of_ne ho]
      exact fun hr => hwait ⟨o,hother,hr⟩
    rw [readyAgainst,if_neg hstate]
    exact ⟨rfl,rfl⟩

/-- A player whose counterpart is ready begins the game. -/
theorem ready_begins (hc : ss.owner = some c ∨ ss.opponent = some c) (hnd : ss.members.Nodup)
    (hbegins : ss.Begins heap c) {res : ReadyRes} (h : ss.ready heap c n = .ok res) :
    ∃ mv pd, ss.Colours mv pd ∧ mv ≠ pd ∧ (c = mv ∨ c = pd) ∧ res.ret = 1 ∧
      res.heap = paired heap mv pd ∧ res.redn = (heap mv).uname ∧ res.bkn = (heap pd).uname := by
  obtain ⟨o,hother,hr⟩ := hbegins
  obtain ⟨hnone,-⟩ | ⟨ow,op,o',how,hop,hne,hother',ho,hcp,rfl⟩ := ready_player hc hnd h
  · rw [hnone] at hother
    cases hother
  · cases hother'.symm.trans hother
    obtain ⟨mv,pd,hcol,hmp,hplayers,hupd⟩ : ∃ mv pd, ss.Colours mv pd ∧ mv ≠ pd ∧ _ ∧
        ss.updatePlayersState (setstate heap c .stReady) ow op = (_,_,_) :=
      updatePlayersState_paired how hop hne
    have hstate : (setstate heap c .stReady o).state = .stReady := by
      rw [setstate,Function.update_of_ne ho]
      exact hr
    rw [readyAgainst,if_pos hstate,hupd]
    refine ⟨mv,pd,hcol,hmp,hplayers c hcp,rfl,paired_setstate hmp (hplayers c hcp) _,?_,?_⟩
    · exact uname_setstate c mv .stReady
    · exact uname_setstate c pd .stReady

theorem ready_ret (hc : ss.owner = some c ∨ ss.opponent = some c) (hnd : ss.members.Nodup)
    {res : ReadyRes} (h : ss.ready heap c n = .ok res) : 0 ≤ res.ret := by
  by_cases hb : ss.Begins heap c
  · obtain ⟨_,_,-,-,-,hret,-⟩ := ready_begins hc hnd hb h
    omega
  · obtain ⟨hret,-⟩ := ready_waits hc hnd hb h
    omega

/-- The other player and the watchers are collected once, and nobody else. -/
theorem count_told {ss : CSession} {n : CNotifier} (h : ss.Told c .create n) (d : CClientPtr) :
    n.clis.count d = if d ∈ ss.members ∧ d ≠ c then 1 else 0 := by
  rw [h.once d]
  exact Nat.zero_add _

end CSession

/-! ### The handler -/

namespace CClient
open CXmlMsg
variable {s : CEngine} {c : CClientPtr} {res : CSession.ReadyRes}

def notifyReady (uname : String) : CXmlNode := bdmsg xmlTagNotifyReady xmlTagUserName uname

def notifyStartGame (moving pondering : String) : CXmlNode :=
  addParameter (bdmsg xmlTagNotifyStartGame xmlTagMoving moving) xmlTagPondering pondering

theorem names_notifyStartGame (moving pondering : String) :
    CXmlNode.getContent (CXmlNode.findChild (some (notifyStartGame moving pondering)) xmlTagMoving) =
      moving ∧
    CXmlNode.getContent
      (CXmlNode.findChild (some (notifyStartGame moving pondering)) xmlTagPondering) = pondering := by
  have hcontent : ∀ tag value, CXmlNode.getContent (some (.element tag [.text value])) = value := by
    intro tag value
    exact String.append_empty
  exact ⟨hcontent xmlTagMoving moving,hcontent xmlTagPondering pondering⟩

theorem name_notifyReady (uname : String) :
    CXmlNode.getContent (CXmlNode.findChild (some (notifyReady uname)) xmlTagUserName) = uname :=
  String.append_empty

theorem notifyReady_inj {u v : String} (h : notifyReady u = notifyReady v) : u = v := by
  rw [← name_notifyReady u,h,name_notifyReady]

theorem notifyStartGame_inj {u v u' v' : String}
    (h : notifyStartGame u v = notifyStartGame u' v') : u = u' ∧ v = v' := by
  obtain ⟨hm,hp⟩ := names_notifyStartGame u v
  obtain ⟨hm',hp'⟩ := names_notifyStartGame u' v'
  rw [h] at hm hp
  exact ⟨hm.symm.trans hm',hp.symm.trans hp'⟩

theorem expanded_notifyReady (e : List Char → List Char) (uname : String) :
    (notifyReady uname).expanded e = notifyReady (expandText e uname) := by
  rw [notifyReady,bdmsg,expanded_addParameter]
  rfl

theorem expanded_notifyStartGame (e : List Char → List Char) (moving pondering : String) :
    (notifyStartGame moving pondering).expanded e =
      notifyStartGame (expandText e moving) (expandText e pondering) := by
  rw [notifyStartGame,expanded_addParameter,bdmsg,expanded_addParameter]
  rfl

/-- The jobs that the handler and the hand-over assign. -/
def readyJobs (uname : String) (c : CClientPtr) (res : CSession.ReadyRes) : List CJob :=
  if res.notier.empty then []
  else
    let noti := res.notier.append (notifyReady uname)
    let start := notifyStartGame res.redn res.bkn
    if res.ret = 1 then
      [.notifier ((CNotifier.create.addNotifiee c).append start),.notifier (noti.append start)]
    else [.notifier noti]

theorem consumeNotis_assigned (s : CEngine) (c : CClientPtr) : (consumeNotis s c).assigned =
    s.assigned ++ if (theNotifier s c).empty then [] else [.notifier (theNotifier s c)] := by
  unfold consumeNotis
  split_ifs
  · exact (List.append_nil _).symm
  · rfl

@[simp] theorem theBder_appendmsg (s : CEngine) (c : CClientPtr) (m : CXmlNode) :
    theBder (s.appendmsg c m) c = theBder s c := by simp [theBder,CEngine.appendmsg]

@[simp] theorem theNotifier_appendmsg (s : CEngine) (c : CClientPtr) (m : CXmlNode) :
    theNotifier (s.appendmsg c m) c = theNotifier s c := by simp [theNotifier,CEngine.appendmsg]

@[simp] theorem assigned_appendmsg (s : CEngine) (c : CClientPtr) (m : CXmlNode) :
    (s.appendmsg c m).assigned = s.assigned := rfl

theorem theBder_readyMsgs (s : CEngine) (c : CClientPtr) (res : CSession.ReadyRes) :
    theBder (readyMsgs s c res) c = theBder s c := by
  unfold readyMsgs theBder
  split_ifs <;> simp

/-- What is pending after the messages and what is assigned already. -/
theorem readyMsgs_jobs (s : CEngine) (c : CClientPtr) (res : CSession.ReadyRes) :
    (readyMsgs s c res).assigned ++
        (if (theNotifier (readyMsgs s c res) c).empty then []
          else [.notifier (theNotifier (readyMsgs s c res) c)]) =
      s.assigned ++ readyJobs (s.uname c) c res := by
  have happend : ∀ (n : CNotifier) m, (n.append m).empty = n.empty := fun _ _ => rfl
  unfold readyMsgs readyJobs theNotifier
  by_cases hempty : res.notier.empty = true
  · simp [hempty,CEngine.modify]
  · by_cases hret : res.ret = 1
    · simp [hempty,hret,happend,CEngine.modify,CEngine.assign,notifyReady,notifyStartGame]
    · simp [hempty,hret,happend,CEngine.modify,notifyReady]

theorem consumed_readyMsgs (hbder : theBder s c = .create) (tag des : String) (rcode : ℤ) :
    (consumeBdsAndNotis (doreturn (readyMsgs s c res) c tag rcode des).1 c).assigned =
      s.assigned ++ readyJobs (s.uname c) c res := by
  have hempty : (theBder (doreturn (readyMsgs s c res) c tag rcode des).1 c).empty = true := by
    rw [doreturn,theBder_appendmsg,theBder_readyMsgs,hbder]
    rfl
  rw [consumeBdsAndNotis,consumeBds,if_pos hempty,consumeNotis_assigned,doreturn,
    theNotifier_appendmsg,assigned_appendmsg]
  exact readyMsgs_jobs s c res

theorem deliveries_readyJobs (hmsg : res.notier.msg = []) (hc : c ∉ res.notier.clis)
    (uname : String) (d : CClientPtr) : CJob.deliveries (readyJobs uname c res) d =
      if d = c then
        if res.ret = 1 ∧ res.notier.clis ≠ [] then [notifyStartGame res.redn res.bkn] else []
      else (List.replicate (res.notier.clis.count d) (notifyReady uname ::
        if res.ret = 1 then [notifyStartGame res.redn res.bkn] else [])).flatten := by
  have hempty : res.notier.empty = true ↔ res.notier.clis = [] := List.isEmpty_iff
  have hself : res.notier.clis.count c = 0 := List.count_eq_zero.mpr hc
  unfold readyJobs
  by_cases hnil : res.notier.clis = []
  · simp [hempty.mpr hnil,hnil,CJob.deliveries]
  · have hne : ¬ res.notier.empty = true := fun h => hnil (hempty.mp h)
    by_cases hret : res.ret = 1
    · by_cases hd : d = c
      · subst hd
        simp [hne,hret,hnil,hself,CJob.deliveries,CJob.deliver,CNotifier.append,
          CNotifier.addNotifiee,CNotifier.create]
      · simp [hne,hret,hd,hmsg,CJob.deliveries,CJob.deliver,CNotifier.append,
          CNotifier.addNotifiee,CNotifier.create,Ne.symm hd]
    · by_cases hd : d = c
      · subst hd
        simp [hne,hret,hself,CJob.deliveries,CJob.deliver,CNotifier.append]
      · simp [hne,hret,hd,hmsg,CJob.deliveries,CJob.deliver,CNotifier.append]

/-- The handler of a player in its session. -/
theorem doReady_ok {rm : CRoom} (htsk : (s.clients c).ctsk = true)
    (hroom : 0 < (s.clients c).roomid) (hsid : 0 < (s.clients c).sessionid)
    (hrm : s.findRoom (s.clients c).roomid = some rm)
    (hready : rm.ready s.clients (s.clients c).sessionid c (theNotifier s c) = .ok res)
    (hret : 0 ≤ res.ret) : doReady s c =
      .ok (doreturn (readyMsgs { s with clients := res.heap } c res) c xmlTagReadyRes 0 "Ready ok") := by
  have hassert : decide ((s.clients c).ctsk ∧ (s.clients c).roomid > 0 ∧ (s.clients c).sessionid > 0)
      = true := decide_eq_true ⟨htsk,hroom,hsid⟩
  simp only [doReady,Checked.ASSERT_pos hassert,hrm,hready,Checked.ok_bind,
    Checked.ASSERT_pos (decide_eq_true hret)]
  rfl

end CClient

namespace CEngine
open CClient CJob References

/-- The state with another colour configured for a session. -/
def withRed (s : CEngine) (r : ℤ) (rm : CRoom) (k : ℕ) (ss : CSession) (red : ℤ) : CEngine :=
  s.setRoom r (rm.setSession k (ss.withRed red))

/-- The game begins: the states of both players, and the messages queued at every member. -/
structure Started (s t : CEngine) (ss : CSession) (c : CClientPtr)
    (told : CClientPtr → List CXmlNode) (mv pd : CClientPtr) : Prop where
  colours : ss.Colours mv pd
  moving : (t.clients mv).state = .stMoving
  pondering : (t.clients pd).state = .stPondering
  rest : ∀ d, d ≠ mv → d ≠ pd → t.hall.member d = s.hall.member d
  self : told c = [notifyStartGame (s.uname mv) (s.uname pd)]
  others : ∀ d ∈ ss.members, d ≠ c → told d =
    [notifyReady (s.uname c),notifyStartGame (s.uname mv) (s.uname pd)]

/-- The player waits for its counterpart. -/
structure Waits (s t : CEngine) (ss : CSession) (c : CClientPtr)
    (told : CClientPtr → List CXmlNode) : Prop where
  state : (t.clients c).state = .stReady
  rest : ∀ d, d ≠ c → t.hall.member d = s.hall.member d
  self : told c = []
  others : ∀ d ∈ ss.members, d ≠ c → told d = [notifyReady (s.uname c)]

variable {s t : CEngine} {ss : CSession} {c : CClientPtr} {heap : CClientPtr → CClient}
  {res : CSession.ReadyRes}

/-- A client in its session whose `Ready` comes to `ready` of the session. -/
theorem procMsg_ready {rm : CRoom} {msg : CXmlNode}
    (hclear : Clear (s.clients c)) (htsk : (s.clients c).ctsk = true)
    (hroom : 0 < (s.clients c).roomid) (hsid : 0 < (s.clients c).sessionid)
    (hrm : s.findRoom (s.clients c).roomid = some rm)
    (hss : rm.sessions.find? (Scan.toUInt32 (s.clients c).sessionid) = some ss)
    (hst : (s.clients c).state = .stSessional) (hel : msg.isElement = true)
    (hname : msg.name = xmlTagReady)
    (hready : ss.ready (genBdsAndNotis s c).clients c .create = .ok res) (hret : 0 ≤ res.ret) :
    ∃ t, procMsg s c msg = .ok (t,true) ∧
      t.hall = { s.hall with member := CClient.member ∘ res.heap } ∧
      t.assigned = s.assigned ++ readyJobs (res.heap c).uname c res := by
  have hgen := clients_modify s c (fun cl => { cl with
    bder := some (cl.bder.getD CBroadCaster.create)
    notifier := some (cl.notifier.getD CNotifier.create) })
  have hroomid : ((genBdsAndNotis s c).clients c).roomid = (s.clients c).roomid := by
    rw [genBdsAndNotis,hgen]
  have hsessionid : ((genBdsAndNotis s c).clients c).sessionid = (s.clients c).sessionid := by
    rw [genBdsAndNotis,hgen]
  have hctsk : ((genBdsAndNotis s c).clients c).ctsk = (s.clients c).ctsk := by
    rw [genBdsAndNotis,hgen]
  have hnoti : theNotifier (genBdsAndNotis s c) c = .create := by
    rw [theNotifier,genBdsAndNotis,hgen]
    exact hclear.notifier
  have hrmready : rm.ready (genBdsAndNotis s c).clients ((genBdsAndNotis s c).clients c).sessionid
      c (theNotifier (genBdsAndNotis s c) c) = .ok res := by
    rw [CRoom.ready,hsessionid,hss,hnoti]
    exact hready
  have hbder : theBder { genBdsAndNotis s c with clients := res.heap } c = .create := by
    obtain ⟨st,hheap⟩ := (ready_effect hrmready).1 c
    change (res.heap c).bder.getD CBroadCaster.create = CBroadCaster.create
    rw [hheap,genBdsAndNotis,hgen]
    exact hclear.bder
  have hhandle : handle s c msg = .ok (doreturn
      (readyMsgs { genBdsAndNotis s c with clients := res.heap } c res) c xmlTagReadyRes 0
      "Ready ok") := by
    have hhnd : findHnd msg.name = ⟨xmlTagReady,State.stSessional.val,.doReady⟩ := by
      rw [hname]
      rfl
    have hcheck : checkstate s c msg State.stSessional.val = (s,true) := by
      rw [checkstate,hst]
      rfl
    simp only [handle,hhnd,hcheck,if_true]
    exact doReady_ok (hctsk.trans htsk) (by rwa [hroomid]) (by rwa [hsessionid])
      (by rwa [hroomid]) hrmready hret
  refine ⟨_,?_,?_,consumed_readyMsgs hbder xmlTagReadyRes "Ready ok" 0⟩
  · rw [procMsg_eq s c hel,hhandle]
    rfl
  · rw [hall_consumeBdsAndNotis,hall_doreturn,hall_readyMsgs]
    rfl

section
variable (hc : ss.owner = some c ∨ ss.opponent = some c) (hnd : ss.members.Nodup)
  (hready : ss.ready heap c .create = .ok res) (hold : ∀ d, (heap d).member = s.hall.member d)
  (hnew : ∀ d, t.hall.member d = (res.heap d).member)
include hc hnd hready

theorem told_of_ready : ss.Told c .create res.notier := by
  obtain ⟨res',hres',htold⟩ := CSession.ready_told (n := .create) hnd hc heap
  cases hready.symm.trans hres'
  exact htold

/-- What is queued at a client. -/
theorem deliveries_ready (uname : String) (d : CClientPtr) :
    deliveries (readyJobs uname c res) d =
      if d = c then
        if res.ret = 1 ∧ res.notier.clis ≠ [] then [notifyStartGame res.redn res.bkn] else []
      else if d ∈ ss.members then
        notifyReady uname :: if res.ret = 1 then [notifyStartGame res.redn res.bkn] else []
      else [] := by
  have htold := told_of_ready hc hnd hready
  have hself : c ∉ res.notier.clis := by
    rw [← List.count_eq_zero,CSession.count_told htold,if_neg (fun h => h.2 rfl)]
  rw [deliveries_readyJobs (CSession.ready_msg hc hnd hready) hself]
  by_cases hd : d = c
  · simp [hd]
  · by_cases hmem : d ∈ ss.members <;> simp [hd,hmem,CSession.count_told htold]

include hold hnew

theorem started_of_ready (hbegins : ss.Begins heap c) :
    ∃ mv pd, Started s t ss c (deliveries (readyJobs (s.uname c) c res)) mv pd ∧ mv ≠ pd ∧
      (c = mv ∨ c = pd) := by
  obtain ⟨mv,pd,hcol,hne,hcp,hret,hheap,hredn,hbkn⟩ := CSession.ready_begins hc hnd hbegins hready
  have huname : ∀ d, (heap d).uname = s.uname d := fun d => congrArg Member.uname (hold d)
  have hstate : ∀ d, (t.clients d).state = (res.heap d).state :=
    fun d => congrArg Member.state (hnew d)
  have hclis : res.notier.clis ≠ [] := by
    have htold := told_of_ready hc hnd hready
    obtain ⟨o,hmem,ho⟩ : ∃ o ∈ ss.members, o ≠ c := by
      obtain rfl | rfl := hcp
      · exact ⟨pd,hcol.mem.2,hne.symm⟩
      · exact ⟨mv,hcol.mem.1,hne⟩
    have hone := CSession.count_told htold o
    rw [if_pos ⟨hmem,ho⟩] at hone
    refine List.ne_nil_of_mem (a := o) (List.count_pos_iff.mp ?_)
    rw [hone]
    exact Nat.one_pos
  have hqueued := deliveries_ready hc hnd hready (s.uname c)
  refine ⟨mv,pd,⟨hcol,?_,?_,fun d hm hp => ?_,?_,fun d hmem hd => ?_⟩,hne,hcp⟩
  · rw [hstate,hheap,CSession.paired,CSession.setstate,Function.update_of_ne hne,CSession.setstate,
      Function.update_self]
  · rw [hstate,hheap,CSession.paired,CSession.setstate,Function.update_self]
  · rw [hnew,hheap,CSession.paired,CSession.setstate,Function.update_of_ne hp,CSession.setstate,
      Function.update_of_ne hm,hold]
  · rw [hqueued,if_pos rfl,if_pos ⟨hret,hclis⟩,hredn,hbkn,huname,huname]
  · rw [hqueued,if_neg hd,if_pos hmem,if_pos hret,hredn,hbkn,huname,huname]

theorem waits_of_ready (hwait : ¬ ss.Begins heap c) :
    Waits s t ss c (deliveries (readyJobs (s.uname c) c res)) := by
  obtain ⟨hret,hheap⟩ := CSession.ready_waits hc hnd hwait hready
  have hone : ¬ res.ret = 1 := by
    rw [hret]
    exact zero_ne_one
  have hqueued := deliveries_ready hc hnd hready (s.uname c)
  refine ⟨?_,fun d hd => ?_,?_,fun d hmem hd => ?_⟩
  · refine (congrArg Member.state (hnew c)).trans ?_
    rw [hheap,CSession.setstate,Function.update_self]
    rfl
  · rw [hnew,hheap,CSession.setstate,Function.update_of_ne hd,hold]
  · rw [hqueued,if_pos rfl,if_neg (fun h => hone h.1)]
  · rw [hqueued,if_neg hd,if_pos hmem,if_neg hone]

end

/-- What `doReady` does in a state that the server can reach, and the jobs that it assigns. -/
theorem ready_sends {cfgs : List CRoomConfig} {es : List Event}
    (hrun : (create cfgs).run es = .ok s) {r : ℤ} {rm : CRoom} {k : ℕ} {ss : CSession}
    (hlive : s.Live r rm k ss) {c : CClientPtr}
    (hc : ss.owner = some c ∨ ss.opponent = some c) (hst : (s.clients c).state = .stSessional)
    (red : ℤ) {msg : CXmlNode} (hel : msg.isElement = true) (hname : msg.name = xmlTagReady) :
    ∃ t jobs, procMsg (s.withRed r rm k ss red) c msg = .ok (t,true) ∧
      t.rooms = (s.withRed r rm k ss red).rooms ∧ t.list = s.list ∧
      t.assigned = s.assigned ++ jobs ∧ (∀ d, d ∉ ss.members → deliveries jobs d = []) ∧
      (ss.Begins s.clients c → ∃ mv pd, Started s t (ss.withRed red) c (deliveries jobs) mv pd ∧
        mv ≠ pd ∧ (c = mv ∨ c = pd)) ∧
      (¬ ss.Begins s.clients c → Waits s t ss c (deliveries jobs)) := by
  have ok := Hall.ok_of_run hrun
  have hok := hlive.ok hrun
  have hnd : (ss.withRed red).members.Nodup := hok.nodup
  have hc' : (ss.withRed red).owner = some c ∨ (ss.withRed red).opponent = some c := hc
  have hmem : c ∈ ss.members := CSession.mem_members.mpr (hc.elim .inl (fun hop => .inr (.inl hop)))
  have hroomid : (s.clients c).roomid = r := hok.roomid c hmem
  have hsessionid : (s.clients c).sessionid = k := hok.sessionid c hmem
  have hsid : 0 < (s.clients c).sessionid := by
    rw [hsessionid]
    exact Int.natCast_pos.mpr hok.key.1
  have hkey : Scan.toUInt32 (s.clients c).sessionid = k := by
    rw [hsessionid]
    exact Scan.toUInt32_natCast (by have := hok.key.2; omega)
  have hrm : (s.withRed r rm k ss red).findRoom (s.clients c).roomid =
      some (rm.setSession k (ss.withRed red)) := by
    rw [hroomid,withRed,setRoom,findRoom,OrdMap.find?_insert,if_pos rfl]
  have hss : (rm.setSession k (ss.withRed red)).sessions.find?
      (Scan.toUInt32 (s.clients c).sessionid) = some (ss.withRed red) := by
    rw [hkey,CRoom.setSession,OrdMap.find?_insert,if_pos rfl]
  have hheap : ∀ d, ((genBdsAndNotis (s.withRed r rm k ss red) c).clients d).member =
      (s.clients d).member := by
    intro d
    exact congrFun (congrArg Hall.member (hall_genBdsAndNotis (s.withRed r rm k ss red) c)) d
  obtain ⟨res,hready,-⟩ := CSession.ready_told (n := .create) hnd hc'
    (genBdsAndNotis (s.withRed r rm k ss red) c).clients
  have hbegins : (ss.withRed red).Begins (genBdsAndNotis (s.withRed r rm k ss red) c).clients c ↔
      ss.Begins s.clients c := by
    have hstate := fun d => congrArg Member.state (hheap d)
    simp only [CClient.member] at hstate
    simp only [CSession.Begins,hstate]
    rfl
  obtain ⟨t,hproc,hhall,hjobs⟩ := procMsg_ready (s := s.withRed r rm k ss red)
    (run_clear hrun c) ((ok.member c).ctsk_of_sessionid hsid)
    (hroomid.symm ▸ ok.room_pos hlive.room) hsid hrm hss hst hel hname hready
    (CSession.ready_ret hc' hnd hready)
  have huname : (res.heap c).uname = s.uname c := by
    have hrmready : (rm.setSession k (ss.withRed red)).ready
        (genBdsAndNotis (s.withRed r rm k ss red) c).clients (s.clients c).sessionid c .create =
          .ok res := by
      rw [CRoom.ready,hss]
      exact hready
    obtain ⟨st,hst'⟩ := (ready_effect hrmready).1 c
    rw [hst']
    exact congrArg Member.uname (hheap c)
  have hnew : ∀ d, t.hall.member d = (res.heap d).member := by
    intro d
    rw [hhall]
    rfl
  rw [huname] at hjobs
  refine ⟨t,_,hproc,congrArg Hall.rooms hhall,congrArg Hall.list hhall,hjobs,fun d hd => ?_,
    fun hb => ?_,fun hb => ?_⟩
  · have hdc : d ≠ c := fun h => hd (h ▸ hmem)
    rw [deliveries_ready hc' hnd hready,if_neg hdc]
    exact if_neg hd
  · exact started_of_ready hc' hnd hready hheap hnew (hbegins.mpr hb)
  · obtain ⟨hstate,hrest,hself,hothers⟩ :=
      waits_of_ready hc' hnd hready hheap hnew (fun h => hb (hbegins.mp h))
    exact ⟨hstate,hrest,hself,hothers⟩

/-! ### The names in the messages -/

section
variable {e : List Char → List Char} {jobs : List CJob}

/-- The messages at the start of a game name the players where both names are read as they are. -/
theorem started_queued_iff {mv pd : CClientPtr} (h : Started s t ss c (deliveries jobs) mv pd)
    (hc : c = mv ∨ c = pd) : (∃ mv pd, Started s t ss c (queued e jobs) mv pd) ↔
      expandText e (s.uname mv) = s.uname mv ∧ expandText e (s.uname pd) = s.uname pd := by
  constructor
  · rintro ⟨mv',pd',h'⟩
    obtain ⟨rfl,rfl⟩ := h.colours.unique h'.colours
    have hself := h'.self
    rw [queued,h.self,List.map_singleton,expanded_notifyStartGame,List.singleton_inj] at hself
    exact notifyStartGame_inj hself
  · rintro ⟨hmv,hpd⟩
    have hname : expandText e (s.uname c) = s.uname c := by
      rcases hc with rfl | rfl
      · exact hmv
      · exact hpd
    refine ⟨mv,pd,h.colours,h.moving,h.pondering,h.rest,?_,fun d hd hdc => ?_⟩
    · rw [queued,h.self,List.map_singleton,expanded_notifyStartGame,hmv,hpd]
    · rw [queued,h.others d hd hdc,List.map_cons,List.map_singleton,expanded_notifyReady,
        expanded_notifyStartGame,hname,hmv,hpd]

/-- The message of a player that waits names it where somebody gets it and the name is read as it
is. -/
theorem waits_queued_iff (h : Waits s t ss c (deliveries jobs)) :
    Waits s t ss c (queued e jobs) ↔
      ∀ d ∈ ss.members, d ≠ c → expandText e (s.uname c) = s.uname c := by
  constructor
  · intro h' d hd hdc
    have hother := h'.others d hd hdc
    rw [queued,h.others d hd hdc,List.map_singleton,expanded_notifyReady,List.singleton_inj] at hother
    exact notifyReady_inj hother
  · intro hname
    refine ⟨h.state,h.rest,?_,fun d hd hdc => ?_⟩
    · rw [queued,h.self,List.map_nil]
    · rw [queued,h.others d hd hdc,List.map_singleton,expanded_notifyReady,hname d hd hdc]

end

/-- The `Ready` of a player, with any colour configured, begins the game if its counterpart is
ready, and only makes it wait otherwise. Every other member is told of it, and at the start every
member of the same two players. -/
def ReadyStarts (e : List Char → List Char) (s : CEngine) (r : ℤ) (rm : CRoom) (k : ℕ)
    (ss : CSession) (c : CClientPtr) (red : ℤ) (msg : CXmlNode) : Prop :=
  ∃ t jobs, procMsg (s.withRed r rm k ss red) c msg = .ok (t,true) ∧
    t.rooms = (s.withRed r rm k ss red).rooms ∧ t.list = s.list ∧
    t.assigned = s.assigned ++ jobs ∧ (∀ d, d ∉ ss.members → queued e jobs d = []) ∧
    (ss.Begins s.clients c → ∃ mv pd, Started s t (ss.withRed red) c (queued e jobs) mv pd) ∧
    (¬ ss.Begins s.clients c → Waits s t ss c (queued e jobs))

/-- What holds of the name of the player where anybody else is in the session, and of the name of
its counterpart where that is ready. -/
def Named (P : String → Prop) (s : CEngine) (ss : CSession) (c : CClientPtr) : Prop :=
  (∀ d ∈ ss.members, d ≠ c → P (s.uname c)) ∧
    (ss.Begins s.clients c → ∀ o, ss.other c = some o → P (s.uname o))

theorem other_mem {o : CClientPtr} (ho : ss.other c = some o) : o ∈ ss.members := by
  unfold CSession.other at ho
  split_ifs at ho
  · exact CSession.mem_members.mpr (.inr (.inl ho))
  · exact CSession.mem_members.mpr (.inl ho)

section
variable {cfgs : List CRoomConfig} {es : List Event} (hrun : (create cfgs).run es = .ok s) {r : ℤ}
  {rm : CRoom} {k : ℕ} (hlive : s.Live r rm k ss)
  (hc : ss.owner = some c ∨ ss.opponent = some c) (hst : (s.clients c).state = .stSessional)
  (red : ℤ) {msg : CXmlNode} (hel : msg.isElement = true) (hname : msg.name = xmlTagReady)
include hrun hlive hc hst hel hname

theorem readyStarts_iff (e : List Char → List Char) : ReadyStarts e s r rm k ss c red msg ↔
    s.Named (fun u => expandText e u = u) ss c := by
  obtain ⟨t,jobs,hproc,hrooms,hlist,hjobs,hout,hbegins,hwaits⟩ :=
    ready_sends hrun hlive hc hst red hel hname
  have hready : ReadyStarts e s r rm k ss c red msg ↔
      (ss.Begins s.clients c → ∃ mv pd, Started s t (ss.withRed red) c (queued e jobs) mv pd) ∧
      (¬ ss.Begins s.clients c → Waits s t ss c (queued e jobs)) := by
    constructor
    · rintro ⟨t',jobs',hproc',-,-,hjobs',-,hboth⟩
      cases hproc.symm.trans hproc'
      cases List.append_cancel_left (hjobs.symm.trans hjobs')
      exact hboth
    · intro hboth
      refine ⟨t,jobs,hproc,hrooms,hlist,hjobs,fun d hd => ?_,hboth⟩
      rw [queued,hout d hd,List.map_nil]
  rw [hready,Named]
  by_cases hb : ss.Begins s.clients c
  · obtain ⟨mv,pd,hstarted,hne,hcp⟩ := hbegins hb
    obtain ⟨o,ho,-⟩ := id hb
    have hocp := hstarted.colours.other hne hcp (show (ss.withRed red).other c = some o from ho)
    have hoc : o ≠ c := by
      rintro rfl
      rcases hocp with ⟨rfl,rfl⟩ | ⟨rfl,rfl⟩ <;> exact hne rfl
    have hnames : (expandText e (s.uname mv) = s.uname mv ∧ expandText e (s.uname pd) = s.uname pd) ↔
        expandText e (s.uname c) = s.uname c ∧ expandText e (s.uname o) = s.uname o := by
      rcases hocp with ⟨rfl,rfl⟩ | ⟨rfl,rfl⟩
      · exact Iff.rfl
      · exact and_comm
    rw [and_iff_left fun h => absurd hb h,forall_prop_of_true hb,
      started_queued_iff hstarted hcp,hnames,forall_prop_of_true hb]
    refine and_congr ⟨fun h d _ _ => h,fun h => h o (other_mem ho) hoc⟩
      ⟨fun h o' ho' => ?_,fun h => h o ho⟩
    cases ho.symm.trans ho'
    exact h
  · have hnames := waits_queued_iff (e := e) (hwaits hb)
    constructor
    · rintro ⟨-,h⟩
      exact ⟨hnames.mp (h hb),fun h => absurd h hb⟩
    · rintro ⟨h,-⟩
      exact ⟨fun h => absurd h hb,fun _ => hnames.mpr h⟩

/-- In a state the server can reach the `Ready` of a player does all that, whatever libxml2 makes of
a `&` with no reference, exactly where the names that are announced have no `&` in them. -/
theorem ready_starts_iff : (∀ e, Expansion e → ReadyStarts e s r rm k ss c red msg) ↔
    s.Named (fun u => '&' ∉ u.toList) ss c := by
  simp only [readyStarts_iff hrun hlive hc hst red hel hname,expandText_eq_iff,Named]
  constructor
  · intro h
    obtain ⟨hself,hother⟩ := h expand expansion_expand
    exact ⟨fun d hd hdc => expand_eq_iff.mp (hself d hd hdc),
      fun hb o ho => expand_eq_iff.mp (hother hb o ho)⟩
  · rintro ⟨hself,hother⟩ e he
    exact ⟨fun d hd hdc => he.plain _ (hself d hd hdc),fun hb o ho => he.plain _ (hother hb o ho)⟩

end

/-- The counterpart of a ready owner gets ready where the opponent moves first. -/
theorem ready_starts_black : ∃ s t rm ss jobs mv pd,
    (create [room1]).run (twoPlayers.take 7) = .ok s ∧
      procMsg (s.withRed 1 rm 2 ss 1) 2 (requestOf xmlTagReady "") = .ok (t,true) ∧
      Started s t (ss.withRed 1) 2 (queued expand jobs) mv pd := by
  obtain ⟨s,rm,ss,hrun,hlive,hop,hst,hother,hready,halice,hbob⟩ : ∃ s rm ss,
      (create [room1]).run (twoPlayers.take 7) = .ok s ∧ s.Live 1 rm 2 ss ∧
      ss.opponent = some 2 ∧ (s.clients 2).state = .stSessional ∧ ss.other 2 = some 1 ∧
      (s.clients 1).state = .stReady ∧ s.uname 1 = "alice" ∧ s.uname 2 = "bob" :=
    ⟨_,_,_,rfl,⟨rfl,rfl⟩,rfl,rfl,rfl,rfl,rfl,rfl⟩
  have hplain : s.Named (fun u => '&' ∉ u.toList) ss 2 := by
    refine ⟨fun _ _ _ => ?_,fun _ o ho => ?_⟩
    · rw [hbob]
      decide
    · cases hother.symm.trans ho
      rw [halice]
      decide
  obtain ⟨t,jobs,hproc,-,-,-,-,hstarts,-⟩ :=
    (ready_starts_iff hrun hlive (.inr hop) hst 1
      (rfl : (requestOf xmlTagReady "").isElement = true) rfl).mpr hplain expand expansion_expand
  obtain ⟨mv,pd,hstarted⟩ := hstarts ⟨1,hother,hready⟩
  exact ⟨s,t,rm,ss,jobs,mv,pd,hrun,hproc,hstarted⟩

/-- The player `a&amp;b` waits in a session with bob, who is told of a player `a&b`. -/
def reference : List Event :=
  arrive 1 "a&amp;b" ++ arrive 2 "bob" ++
    [.request 1 (requestOf xmlTagNewSession ""),.request 2 (requestOf xmlTagEnterSession "2")]

theorem reference_changed : ∃ s rm ss, (create [room1]).run reference = .ok s ∧
    s.Live 1 rm 2 ss ∧ ss.owner = some 1 ∧ (s.clients 1).state = .stSessional ∧
    Expansion expand ∧ ¬ ReadyStarts expand s 1 rm 2 ss 1 0 (requestOf xmlTagReady "") := by
  obtain ⟨s,rm,ss,hrun,hlive,how,hop,hst,hname⟩ : ∃ s rm ss,
      (create [room1]).run reference = .ok s ∧ s.Live 1 rm 2 ss ∧ ss.owner = some 1 ∧
      ss.opponent = some 2 ∧ (s.clients 1).state = .stSessional ∧ s.uname 1 = "a&amp;b" :=
    ⟨_,_,_,rfl,⟨rfl,rfl⟩,rfl,rfl,rfl,rfl⟩
  refine ⟨s,rm,ss,hrun,hlive,how,hst,expansion_expand,fun h => ?_⟩
  have hsame := ((readyStarts_iff hrun hlive (.inl how) hst 0 rfl rfl expand).mp h).1 2
    (CSession.mem_members.mpr (.inr (.inl hop))) (by decide)
  dsimp only at hsame
  rw [expandText_eq_iff,expand_eq_iff,hname] at hsame
  exact absurd hsame (by decide)

end CEngine
end CcniServer
