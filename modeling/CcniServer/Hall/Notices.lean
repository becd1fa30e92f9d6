import CcniServer.Hall.Starts
import CcniServer.Hall.LifeCycle

/-!
Notices: what a step of the engine queues at every client. It depends on the action and on the
session that the action is about, and on nothing that is pending.
-/
namespace CcniServer
open CClient CXmlMsg

/-! ### The notices of an action -/

namespace Hall

/-- The session of the client's room under an id. -/
def sessionOf (h : Hall) (c : CClientPtr) (sid : ℤ) : Option CSession :=
  (h.rooms.find? (h.member c).roomid).bind (fun rm => rm.sessions.find? (Scan.toUInt32 sid))

def userNotice (h : Hall) (tag : String) (c : CClientPtr) : CXmlNode :=
  bdmsg tag xmlTagUserName (h.member c).uname

/-- The notice of a client that joins a session, to the members that it finds there. -/
def joinNotice (h : Hall) (c : CClientPtr) (sid : ℤ) (join : CSession → Option CSession)
    (tag : String) : Option (List CClientPtr × CXmlNode) :=
  (h.sessionOf c sid).bind (fun ss => (join ss).map (fun _ => (ss.members,h.userNotice tag c)))

/-- The notice of a client that leaves its session, to the members that stay. -/
def leaveNotice (h : Hall) (c : CClientPtr) : Option (List CClientPtr × CXmlNode) :=
  (h.sessionOf c (h.member c).sessionid).bind (fun ss =>
    (ss.unseat c).map (fun ss' => (ss'.members,h.userNotice xmlTagNotifyLeaveSession c)))

/-- The clients that get the notice of an action, and the notice. -/
def notice (h : Hall) : Action → Option (List CClientPtr × CXmlNode)
  | .enterSession c sid =>
    h.joinNotice c sid (fun ss => ss.takeSeat c) xmlTagNotifyEnterSession
  | .watchSession c sid =>
    h.joinNotice c sid (fun ss => ss.addWatcher c) xmlTagNotifyWatchSession
  | .leaveSession c => h.leaveNotice c
  | .disconnect c => if (h.member c).sessionid > 0 then h.leaveNotice c else none
  | _ => none

/-- A notice at one client. -/
def heard (n : Option (List CClientPtr × CXmlNode)) (d : CClientPtr) : List CXmlNode :=
  (n.map (fun x => if d ∈ x.1 then [x.2] else [])).getD []

/-- The moving and the pondering player of a game that begins. -/
def starters (ss : CSession) : Option (CClientPtr × CClientPtr) :=
  ss.owner.bind (fun ow => ss.opponent.map (fun op => if ss.cfg.red = 0 then (ow,op) else (op,ow)))

/-- The start of a game, where the counterpart of a player is ready. -/
def startNotice (h : Hall) (ss : CSession) (c : CClientPtr) : List CXmlNode :=
  if (ss.other c).any (fun o => (h.member o).state = .stReady) then
    (starters ss).toList.map (fun p => notifyStartGame (h.member p.1).uname (h.member p.2).uname)
  else []

/-- What an action queues at a client. -/
def told (h : Hall) (a : Action) (d : CClientPtr) : List CXmlNode :=
  match a with
  | .ready c => ((h.sessionOf c (h.member c).sessionid).map (fun ss =>
      if d ∈ ss.members then
        (if d = c then [] else [notifyReady (h.member c).uname]) ++ h.startNotice ss c
      else [])).getD []
  | a => heard (h.notice a) d

theorem told_of_ne {h : Hall} {a : Action} (ha : ∀ c, a ≠ .ready c) (d : CClientPtr) :
    h.told a d = heard (h.notice a) d := by
  cases a <;> first | exact absurd rfl (ha _) | rfl

theorem sessionOf_ok {h : Hall} (ok : h.Ok) {c : CClientPtr} {sid : ℤ} {ss : CSession}
    (hss : h.sessionOf c sid = some ss) :
    ss.Ok h.member (h.member c).roomid (Scan.toUInt32 sid) := by
  obtain ⟨rm,hrm,hss⟩ := Option.bind_eq_some_iff.mp hss
  exact ok.session _ rm hrm _ ss hss

/-- No client gets a notice twice. -/
theorem nodup_notice {h : Hall} (ok : h.Ok) {a : Action} : ∀ x ∈ h.notice a, x.1.Nodup := by
  have hjoin : ∀ {c : CClientPtr} {sid : ℤ} {join : CSession → Option CSession} {tag : String},
      ∀ x ∈ h.joinNotice c sid join tag, x.1.Nodup := by
    intro c sid join tag x hx
    obtain ⟨ss,hss,hx⟩ := Option.bind_eq_some_iff.mp hx
    obtain ⟨ss',-,rfl⟩ := Option.map_eq_some_iff.mp hx
    exact (sessionOf_ok ok hss).nodup
  have hleave : ∀ {c : CClientPtr}, ∀ x ∈ h.leaveNotice c, x.1.Nodup := by
    intro c x hx
    obtain ⟨ss,hss,hx⟩ := Option.bind_eq_some_iff.mp hx
    obtain ⟨ss',hun,rfl⟩ := Option.map_eq_some_iff.mp hx
    exact CSession.nodup_unseat (sessionOf_ok ok hss).nodup hun
  cases a with
  | enterSession c sid => exact hjoin
  | watchSession c sid => exact hjoin
  | leaveSession c => exact hleave
  | disconnect c =>
    intro x hx
    simp only [notice] at hx
    split_ifs at hx
    · exact hleave x hx
    · cases hx
  | _ => exact fun x hx => nomatch hx

theorem player_of_readyMembers {ss : CSession} {m m' : CClientPtr → Member} {c : CClientPtr}
    (h : readyMembers ss m c = some m') : ss.owner = some c ∨ ss.opponent = some c := by
  unfold readyMembers at h
  by_cases how : ss.owner = some c
  · exact .inl how
  · by_cases hop : ss.opponent = some c
    · exact .inr hop
    · simp only [how,hop,if_false] at h
      cases h

end Hall

/-! ### What a handler leaves pending -/

/-- Everybody that stays in a session is given to the notifier. -/
theorem CRoom.leaveSession_notifier {rm : CRoom} {heap : CClientPtr → CClient} {sid : ℤ}
    {c : CClientPtr} {n : CNotifier} {bd : CBroadCaster} {left : CRoom × CNotifier × CBroadCaster}
    (h : rm.leaveSession heap sid c n bd = .ok left) :
    ∃ ss ss', rm.sessions.find? (Scan.toUInt32 sid) = some ss ∧ ss.unseat c = some ss' ∧
      left.2.1 = n.addNotifiees ss'.members := by
  unfold CRoom.leaveSession at h
  cases hss : rm.sessions.find? (Scan.toUInt32 sid) with
  | none =>
    simp only [hss] at h
    cases h
  | some ss =>
    simp only [hss] at h
    obtain ⟨_,hseated,h⟩ := Checked.bind_eq_ok.mp h
    unfold CSession.leave at hseated h
    cases hseat : ss.unseat c with
    | none =>
      simp only [hseat] at hseated
      cases hseated
    | some ss' =>
      simp only [hseat] at h
      refine ⟨ss,ss',rfl,hseat,?_⟩
      split_ifs at h <;>
      · cases h
        rfl

namespace CClient
variable {s t : CEngine} {c : CClientPtr}

/-- Nothing is assigned yet, and the client's notifier is the given one. -/
structure Pending (s t : CEngine) (c : CClientPtr) (noti : CNotifier) : Prop where
  assigned : t.assigned = s.assigned
  notifier : theNotifier t c = noti

/-- The notifier of a notice. -/
def noticeOf (n : Option (List CClientPtr × CXmlNode)) : CNotifier :=
  n.elim .create (fun n => notify (CNotifier.create.addNotifiees n.1) n.2)

theorem sessionOf_hall (s : CEngine) (c : CClientPtr) (sid : ℤ) :
    s.hall.sessionOf c sid = sessionOf s c sid := rfl

theorem Clear.pending (h : Clear (s.clients c)) : Pending s s c .create := ⟨rfl,h.notifier⟩

theorem Pending.appendmsg {noti : CNotifier} (h : Pending s t c noti) (m : CXmlNode) :
    Pending s (t.appendmsg c m) c noti := ⟨h.assigned,(theNotifier_appendmsg t c m).trans h.notifier⟩

theorem Pending.sessionRes {noti : CNotifier} (h : Pending s t c noti) (ret : ℤ)
    (success : String) : Pending s (sessionRes t c ret success).1 c noti := by
  unfold CClient.sessionRes
  split_ifs <;> exact h.appendmsg _

theorem enterRoom_pending (h : Clear (s.clients c)) (rid : ℤ) :
    Pending s (enterRoom s c rid).1 c .create := by
  unfold enterRoom
  split_ifs
  · exact h.pending
  · cases s.findRoom rid with
    | none => exact h.pending
    | some rm =>
      dsimp only
      split_ifs
      · refine ⟨rfl,?_⟩
        rw [theNotifier,CEngine.clients_modify]
        exact h.notifier
      · exact h.pending

theorem doEnterRoom_pending {msg : CXmlNode} {res : CEngine × ℤ} (h : Clear (s.clients c))
    (hres : doEnterRoom s c msg = .ok res) : Pending s res.1 c .create := by
  have hroom := enterRoom_pending h (idOf msg)
  unfold doEnterRoom at hres
  dsimp only at hres
  split_ifs at hres <;>
  · cases hres
    exact hroom.appendmsg _

theorem leaveRoom_pending (h : Clear (s.clients c)) (hres : leaveRoom s c = .ok t) :
    Pending s t c .create := by
  unfold leaveRoom at hres
  cases hrm : s.findRoom (s.clients c).roomid with
  | none =>
    simp only [hrm] at hres
    cases hres
  | some rm =>
    simp only [hrm] at hres
    obtain ⟨_,-,hres⟩ := Checked.bind_eq_ok.mp hres
    cases hres
    refine ⟨rfl,?_⟩
    rw [theNotifier,CEngine.clients_modify]
    exact h.notifier

theorem createSession_pending {cfg : CSessionConfig} {res : CEngine × ℤ}
    (h : Clear (s.clients c)) (hres : createSession s c cfg = .ok res) :
    Pending s res.1 c .create := by
  obtain ⟨_,-,hres⟩ := Checked.bind_eq_ok.mp hres
  cases hrm : s.findRoom (s.clients c).roomid with
  | none =>
    simp only [hrm] at hres
    cases hres
  | some rm =>
    simp only [hrm] at hres
    obtain ⟨made,-,hres⟩ := Checked.bind_eq_ok.mp hres
    cases hres
    refine ⟨rfl,?_⟩
    rw [theNotifier,CEngine.clients_modify]
    exact h.notifier

theorem leaveSession_pending {res : CEngine × ℤ} (h : Clear (s.clients c))
    (hres : leaveSession s c = .ok res) :
    Pending s res.1 c (noticeOf (s.hall.notice (.leaveSession c))) := by
  obtain ⟨_,-,hres⟩ := Checked.bind_eq_ok.mp hres
  cases hrm : s.findRoom (s.clients c).roomid with
  | none =>
    simp only [hrm] at hres
    cases hres
  | some rm =>
    simp only [hrm] at hres
    obtain ⟨left,hleft,hres⟩ := Checked.bind_eq_ok.mp hres
    cases hres
    obtain ⟨ss,ss',hss,hun,hnoti⟩ := CRoom.leaveSession_notifier hleft
    have hnotice : s.hall.notice (.leaveSession c) =
        some (ss'.members,s.hall.userNotice xmlTagNotifyLeaveSession c) := by
      have hsession : s.hall.sessionOf c (s.hall.member c).sessionid = some ss := by
        rw [sessionOf_hall,sessionOf,hrm]
        exact hss
      simp only [Hall.notice,Hall.leaveNotice,hsession,Option.bind_some,hun,Option.map_some]
    refine ⟨rfl,?_⟩
    rw [hnotice,theNotifier,CEngine.clients_modify]
    simp only [Option.getD_some,hnoti,theNotifier,h.notifier]
    rfl

/-- A session that is joined, and the notice that its members get. -/
theorem joined_pending {sid : ℤ} {join : CSession → Option CSession} {rm : CRoom}
    {joined : ℤ × CRoom × CNotifier} {tag : String} {st : CClient.State} {res : CEngine × ℤ}
    (h : Clear (s.clients c)) (hrm : s.findRoom (s.clients c).roomid = some rm)
    (hnone : (rm.sessions.find? (Scan.toUInt32 sid)).bind join = none → joined.1 < 0)
    (hsome : ∀ ss ss', rm.sessions.find? (Scan.toUInt32 sid) = some ss → join ss = some ss' →
      joined.1 = 0 ∧ joined.2.2 = (theNotifier s c).addNotifiees ss.members)
    (hres : (if joined.1 < 0 then (pure (s,joined.1) : Checked (CEngine × ℤ))
      else pure ((s.setRoom (s.clients c).roomid joined.2.1).modify c
        (fun cl => { cl with
          state := st
          sessionid := sid
          notifier := some (notify joined.2.2 (bdmsg tag xmlTagUserName (s.uname c))) }),0)) =
      .ok res) :
    Pending s res.1 c (noticeOf (s.hall.joinNotice c sid join tag)) := by
  have hsession : s.hall.sessionOf c sid = rm.sessions.find? (Scan.toUInt32 sid) := by
    rw [sessionOf_hall,sessionOf,hrm]
    rfl
  rw [Hall.joinNotice,hsession]
  cases hjoin : (rm.sessions.find? (Scan.toUInt32 sid)).bind join with
  | none =>
    have hnotice : ((rm.sessions.find? (Scan.toUInt32 sid)).bind (fun ss =>
        (join ss).map (fun _ => (ss.members,s.hall.userNotice tag c)))) = none := by
      cases hss : rm.sessions.find? (Scan.toUInt32 sid) with
      | none => rfl
      | some ss =>
        rw [hss,Option.bind_some] at hjoin
        simp [hjoin]
    rw [if_pos (hnone hjoin)] at hres
    cases hres
    rw [hnotice]
    exact h.pending
  | some ss' =>
    obtain ⟨ss,hss,hjoined⟩ := Option.bind_eq_some_iff.mp hjoin
    obtain ⟨hzero,hnoti⟩ := hsome ss ss' hss hjoined
    rw [if_neg (by omega)] at hres
    cases hres
    refine ⟨rfl,?_⟩
    rw [hss,Option.bind_some,hjoined,Option.map_some,theNotifier,CEngine.clients_modify]
    simp only [Option.getD_some,hnoti,theNotifier,h.notifier]
    rfl

theorem enterSession_pending {sid : ℤ} {res : CEngine × ℤ} (h : Clear (s.clients c))
    (hres : enterSession s c sid = .ok res) :
    Pending s res.1 c (noticeOf (s.hall.notice (.enterSession c sid))) := by
  obtain ⟨_,-,hres⟩ := Checked.bind_eq_ok.mp hres
  cases hrm : s.findRoom (s.clients c).roomid with
  | none =>
    simp only [hrm] at hres
    cases hres
  | some rm =>
    simp only [hrm] at hres
    refine joined_pending h hrm (fun hnone => CRoom.enterSession_of_none hnone _) ?_ hres
    intro ss ss' hss hts
    simp only [CRoom.enterSession,hss,CSession.enter,hts,and_self]

theorem watchSession_pending {sid : ℤ} {res : CEngine × ℤ} (h : Clear (s.clients c))
    (hres : watchSession s c sid = .ok res) :
    Pending s res.1 c (noticeOf (s.hall.notice (.watchSession c sid))) := by
  obtain ⟨_,-,hres⟩ := Checked.bind_eq_ok.mp hres
  cases hrm : s.findRoom (s.clients c).roomid with
  | none =>
    simp only [hrm] at hres
    cases hres
  | some rm =>
    simp only [hrm] at hres
    refine joined_pending h hrm (fun hnone => CRoom.watchSession_of_none hnone _) ?_ hres
    intro ss ss' hss haw
    simp only [CRoom.watchSession,hss,CSession.watch,haw,and_self]

/-- Every handler but `doReady` leaves the notice of its action to the hand-over. -/
theorem run_pending {fn : Msghnd} {msg : CXmlNode} {res : CEngine × ℤ} (h : Clear (s.clients c))
    (hfn : fn ≠ .doReady) (hres : fn.run s c msg = .ok res) :
    Pending s res.1 c (noticeOf (s.hall.notice (Hall.handlerAction c msg fn))) := by
  cases fn with
  | doEnterRoom => exact doEnterRoom_pending h hres
  | doLeaveRoom =>
    obtain ⟨_,-,hres⟩ := Checked.bind_eq_ok.mp hres
    obtain ⟨t,hleft,hres⟩ := Checked.bind_eq_ok.mp hres
    cases hres
    exact (leaveRoom_pending h hleft).appendmsg _
  | doNewSession =>
    obtain ⟨made,hmade,hres⟩ := Checked.bind_eq_ok.mp hres
    have hmadep := createSession_pending h hmade
    split_ifs at hres <;>
    · cases hres
      exact hmadep.appendmsg _
  | doEnterSession =>
    obtain ⟨entered,hentered,hres⟩ := Checked.bind_eq_ok.mp hres
    cases hres
    exact (enterSession_pending h hentered).sessionRes _ _
  | doWatchSession =>
    obtain ⟨watched,hwatched,hres⟩ := Checked.bind_eq_ok.mp hres
    cases hres
    exact (watchSession_pending h hwatched).sessionRes _ _
  | doLeaveSession =>
    obtain ⟨left,hleft,hres⟩ := Checked.bind_eq_ok.mp hres
    cases hres
    exact (leaveSession_pending h hleft).appendmsg _
  | doReady => exact absurd rfl hfn
  | doListSessions =>
    obtain ⟨_,-,hres⟩ := Checked.bind_eq_ok.mp hres
    cases hrm : s.findRoom (s.clients c).roomid with
    | none =>
      simp only [hrm] at hres
      cases hres
    | some rm =>
      simp only [hrm] at hres
      cases hres
      exact h.pending.appendmsg _
  | doLogout | doCCNI | doMyState | doListRooms | doUnknow =>
    cases hres
    exact h.pending.appendmsg _
  | doMove | doDraw | doGiveUp | doSendMessages =>
    cases hres
    exact h.pending

/-! ### The hand-over -/

/-- The jobs assigned between two states, and what they queue at every client. -/
def Sends (s t : CEngine) (told : CClientPtr → List CXmlNode) : Prop :=
  ∃ jobs, t.assigned = s.assigned ++ jobs ∧ ∀ d, CJob.deliveries jobs d = told d

theorem Sends.nothing {told : CClientPtr → List CXmlNode} (h : t.assigned = s.assigned)
    (htold : ∀ d, told d = []) : Sends s t told :=
  ⟨[],h.trans (List.append_nil _).symm,fun d => (htold d).symm⟩

theorem Sends.congr {told told' : CClientPtr → List CXmlNode} (h : Sends s t told)
    (htold : ∀ d, told d = told' d) : Sends s t told' := by
  obtain ⟨jobs,hjobs,hd⟩ := h
  exact ⟨jobs,hjobs,fun d => (hd d).trans (htold d)⟩

theorem Sends.trans {u : CEngine} {told told' : CClientPtr → List CXmlNode} (h : Sends s t told)
    (h' : Sends t u told') : Sends s u (fun d => told d ++ told' d) := by
  obtain ⟨jobs,hjobs,hd⟩ := h
  obtain ⟨jobs',hjobs',hd'⟩ := h'
  refine ⟨jobs ++ jobs',by rw [hjobs',hjobs,List.append_assoc],fun d => ?_⟩
  rw [CJob.deliveries,List.flatMap_append]
  exact congrArg₂ _ (hd d) (hd' d)

theorem noticeOf_some {cs : List CClientPtr} (hcs : cs ≠ []) (m : CXmlNode) :
    noticeOf (some (cs,m)) = ⟨[m],cs⟩ := by
  have hclis : (CNotifier.create.addNotifiees cs).clis = cs := by
    rw [CNotifier.clis_addNotifiees]
    rfl
  have hmsg : (CNotifier.create.addNotifiees cs).msg = [] := CNotifier.msg_addNotifiees _ _
  have hempty : ¬ (CNotifier.create.addNotifiees cs).empty = true := by
    rw [CNotifier.empty,hclis,List.isEmpty_iff]
    exact hcs
  rw [noticeOf,Option.elim_some,notify,if_neg hempty,CNotifier.append,hclis,hmsg]
  rfl

/-- The notifier of a notice reaches each of its clients once. -/
theorem deliver_noticeOf {n : Option (List CClientPtr × CXmlNode)}
    (hnd : ∀ x ∈ n, x.1.Nodup) (d : CClientPtr) :
    CJob.deliveries (if (noticeOf n).empty then [] else [.notifier (noticeOf n)]) d =
      Hall.heard n d := by
  cases n with
  | none => rfl
  | some x =>
    obtain ⟨cs,m⟩ := x
    cases cs with
    | nil => rfl
    | cons a cs =>
      have hone := List.Nodup.count (hnd (a :: cs,m) rfl) (a := d)
      rw [noticeOf_some (List.cons_ne_nil a cs)]
      simp only [CNotifier.empty,List.isEmpty_cons,Bool.false_eq_true,if_false,CJob.deliveries,
        List.flatMap_cons,List.flatMap_nil,List.append_nil,CJob.deliver,hone,Hall.heard,
        Option.map_some,Option.getD_some]
      split_ifs <;> rfl

theorem consumeBds_sends (s : CEngine) (c : CClientPtr) : Sends s (consumeBds s c) (fun _ => []) := by
  unfold consumeBds
  split_ifs
  · exact .nothing rfl fun _ => rfl
  · exact ⟨[_],rfl,fun _ => rfl⟩

theorem theNotifier_consumeBds (s : CEngine) (c : CClientPtr) :
    theNotifier (consumeBds s c) c = theNotifier s c := by
  unfold consumeBds
  split_ifs
  · rfl
  · rw [theNotifier,CEngine.clients_modify]
    rfl

theorem Pending.sends {n : Option (List CClientPtr × CXmlNode)} (h : Pending s t c (noticeOf n))
    (hnd : ∀ x ∈ n, x.1.Nodup) : Sends s (consumeBdsAndNotis t c) (Hall.heard n) := by
  have hnotis : Sends (consumeBds t c) (consumeBdsAndNotis t c) (Hall.heard n) := by
    refine ⟨_,consumeNotis_assigned _ c,?_⟩
    rw [theNotifier_consumeBds,h.notifier]
    exact deliver_noticeOf hnd
  have hnone : Sends s t (fun _ => []) := .nothing h.assigned fun _ => rfl
  have hboth := hnone.trans ((consumeBds_sends t c).trans hnotis)
  exact hboth.congr fun d => rfl

/-! ### Requests -/

/-- The handler that makes a client ready is that of one name. -/
theorem name_of_doReady {name : String} (h : (findHnd name).fn = .doReady) :
    name = xmlTagReady := by
  obtain ⟨hmem,hlabel⟩ | hnone := Hall.findHnd_cases name
  · rw [← hlabel]
    have hall : ∀ hnd ∈ msghnds, hnd.fn = .doReady → hnd.label = xmlTagReady := by decide
    exact hall _ hmem h
  · rw [hnone] at h
    cases h

theorem handlerAction_ne_ready {msg : CXmlNode} {fn : Msghnd} (hfn : fn ≠ .doReady)
    (d : CClientPtr) : Hall.handlerAction c msg fn ≠ .ready d := by
  cases fn <;> first | exact absurd rfl hfn | exact fun h => nomatch h

/-- A request that is no `Ready`. -/
theorem run_sends {fn : Msghnd} {msg : CXmlNode} {res : CEngine × ℤ} (ok : s.hall.Ok)
    (hclear : Clear (s.clients c)) (hfn : fn ≠ .doReady) (hres : fn.run s c msg = .ok res) :
    Sends s (if res.2 < 0 then res.1 else consumeBdsAndNotis res.1 c)
      (s.hall.told (Hall.handlerAction c msg fn)) := by
  have hpend := run_pending hclear hfn hres
  have htold : ∀ d, Hall.heard (s.hall.notice (Hall.handlerAction c msg fn)) d =
      s.hall.told (Hall.handlerAction c msg fn) d :=
    fun d => (Hall.told_of_ne (handlerAction_ne_ready hfn) d).symm
  have hnd := Hall.nodup_notice ok (a := Hall.handlerAction c msg fn)
  split_ifs with hneg
  · -- a refused request has left the notifier empty
    obtain ⟨m,hm⟩ := run_refused hres hneg
    have hempty := hpend.notifier
    rw [hm,theNotifier_appendmsg,theNotifier,hclear.notifier] at hempty
    refine .nothing hpend.assigned fun d => ?_
    rw [← htold d,← deliver_noticeOf hnd d,← hempty]
    rfl
  · exact (hpend.sends hnd).congr htold

theorem starters_of_colours {ss : CSession} {mv pd : CClientPtr} (h : ss.Colours mv pd) :
    Hall.starters ss = some (mv,pd) := by
  unfold CSession.Colours at h
  unfold Hall.starters
  split_ifs at h ⊢ <;> simp [h.1,h.2]

/-- The start that is told is the one of `ready`. -/
theorem startNotice_eq {ss : CSession} {heap : CClientPtr → CClient} {res : CSession.ReadyRes}
    (hc : ss.owner = some c ∨ ss.opponent = some c) (hnd : ss.members.Nodup)
    (hheap : ∀ d, (heap d).member = s.hall.member d) (h : ss.ready heap c .create = .ok res) :
    s.hall.startNotice ss c =
      if res.ret = 1 ∧ res.notier.clis ≠ [] then [notifyStartGame res.redn res.bkn] else [] := by
  have hstate : ∀ d, (heap d).state = (s.hall.member d).state :=
    fun d => congrArg Member.state (hheap d)
  have huname : ∀ d, (heap d).uname = (s.hall.member d).uname :=
    fun d => congrArg Member.uname (hheap d)
  have hany : (ss.other c).any (fun o => decide ((s.hall.member o).state = .stReady)) = true ↔
      ss.Begins heap c := by
    rw [Option.any_eq_true]
    simp only [CSession.Begins,hstate,decide_eq_true_eq]
  unfold Hall.startNotice
  by_cases hb : ss.Begins heap c
  · obtain ⟨mv,pd,hcol,hne,hcp,hret,-,hredn,hbkn⟩ := CSession.ready_begins hc hnd hb h
    have hclis : res.notier.clis ≠ [] := by
      have htold := CEngine.told_of_ready hc hnd h
      obtain ⟨o,hmem,ho⟩ : ∃ o ∈ ss.members, o ≠ c := by
        obtain rfl | rfl := hcp
        · exact ⟨pd,hcol.mem.2,hne.symm⟩
        · exact ⟨mv,hcol.mem.1,hne⟩
      have hone := CSession.count_told htold o
      rw [if_pos ⟨hmem,ho⟩] at hone
      refine List.ne_nil_of_mem (a := o) (List.count_pos_iff.mp ?_)
      rw [hone]
      exact Nat.one_pos
    rw [if_pos (hany.mpr hb),starters_of_colours hcol,if_pos ⟨hret,hclis⟩,hredn,hbkn,huname,huname]
    rfl
  · obtain ⟨hret,-⟩ := CSession.ready_waits hc hnd hb h
    rw [if_neg (mt hany.mp hb),if_neg]
    rw [hret]
    exact fun hone => zero_ne_one hone.1

/-- A `Ready`. -/
theorem ready_sends {msg : CXmlNode} {res : CEngine × Bool} (ok : s.hall.Ok)
    (hclear : Clear (s.clients c)) (hact : s.hall.action (.request c msg) = .ready c)
    (hel : msg.isElement = true) (hname : msg.name = xmlTagReady)
    (hres : procMsg s c msg = .ok res) : Sends s res.1 (s.hall.told (.ready c)) := by
  have hguard := s.hall.action_guard (.request c msg)
  rw [hact] at hguard
  obtain ⟨htsk,hst⟩ := hguard
  have hhall := procMsg_hall s c msg htsk
  rw [hres,hact] at hhall
  have hready : s.hall.ready c = some res.1.hall := hhall.symm
  unfold Hall.ready at hready
  split_ifs at hready with hc
  obtain ⟨rm,hrm,hready⟩ := Option.bind_eq_some_iff.mp hready
  obtain ⟨m',hm',-⟩ := Option.map_eq_some_iff.mp hready
  obtain ⟨ss,hss,hm'⟩ := Option.bind_eq_some_iff.mp hm'
  have hnd := (ok.session _ rm hrm _ ss hss).nodup
  have hseat : ss.owner = some c ∨ ss.opponent = some c := Hall.player_of_readyMembers hm'
  have hmem : c ∈ ss.members :=
    CSession.mem_members.mpr (hseat.elim .inl fun hop => .inr (.inl hop))
  obtain ⟨ready,hr,htold⟩ := CSession.ready_told (n := .create) hnd hseat
    (genBdsAndNotis s c).clients
  obtain ⟨t,ht,-,hjobs⟩ := CEngine.procMsg_ready hclear htsk hc.2.1 hc.2.2 hrm hss hst hel hname hr
    (CSession.ready_ret hseat hnd hr)
  rw [ht] at hres
  cases hres
  have hheap : ∀ d, ((genBdsAndNotis s c).clients d).member = s.hall.member d := fun d =>
    congrFun (congrArg Hall.member (hall_genBdsAndNotis s c)) d
  have huname : (ready.heap c).uname = (s.hall.member c).uname := by
    have hrmready : rm.ready (genBdsAndNotis s c).clients (s.clients c).sessionid c .create =
        .ok ready := by
      rw [CRoom.ready,show rm.sessions.find? (Scan.toUInt32 (s.clients c).sessionid) = some ss
        from hss]
      exact hr
    obtain ⟨st,hst'⟩ := (ready_effect hrmready).1 c
    rw [hst']
    exact congrArg Member.uname (hheap c)
  have hstart := startNotice_eq hseat hnd hheap hr
  have hsession : s.hall.sessionOf c (s.hall.member c).sessionid = some ss := by
    rw [Hall.sessionOf,hrm]
    exact hss
  refine ⟨_,hjobs,fun d => ?_⟩
  rw [CEngine.deliveries_ready hseat hnd hr,huname]
  simp only [Hall.told,hsession,Option.map_some,Option.getD_some]
  by_cases hd : d = c
  · subst hd
    rw [if_pos rfl,if_pos hmem,if_pos rfl,List.nil_append,hstart]
  · rw [if_neg hd,if_neg hd,hstart]
    by_cases hin : d ∈ ss.members
    · have hclis : ready.notier.clis ≠ [] := by
        have hone := CSession.count_told htold d
        rw [if_pos ⟨hin,hd⟩] at hone
        exact List.ne_nil_of_mem (List.count_pos_iff.mp (hone ▸ Nat.one_pos))
      simp only [hin,hclis,if_true,and_true,ne_eq,not_false_eq_true,List.singleton_append]
    · rw [if_neg hin,if_neg hin]

theorem procMsg_sends {msg : CXmlNode} {res : CEngine × Bool} (ok : s.hall.Ok)
    (hclear : ∀ d, Clear (s.clients d)) (hc : (s.clients c).ctsk = true)
    (hres : procMsg s c msg = .ok res) :
    Sends s res.1 (s.hall.told (s.hall.action (.request c msg))) := by
  have hquiet : ∀ {t : CEngine}, t.assigned = s.assigned → Sends s t (s.hall.told .quiet) :=
    fun ht => .nothing ht fun _ => rfl
  by_cases hel : msg.isElement = true
  · by_cases hst : (s.clients c).state.isIn (findHnd msg.name).vstate = true
    · have hact : s.hall.action (.request c msg) =
          Hall.handlerAction c msg (findHnd msg.name).fn := if_pos ⟨hc,hel,hst⟩
      by_cases hfn : (findHnd msg.name).fn = .doReady
      · rw [hfn] at hact
        rw [hact]
        exact ready_sends ok (hclear c) hact hel (name_of_doReady hfn) hres
      · rw [hact]
        rw [procMsg_eq s c hel] at hres
        obtain ⟨run,hrun,hres⟩ := Checked.bind_eq_ok.mp hres
        simp only [handle,checkstate,hst,if_true] at hrun
        have hhall := hall_genBdsAndNotis s c
        have hsends := run_sends (s := genBdsAndNotis s c) (by rwa [hhall])
          (clear_genBdsAndNotis hclear c) hfn hrun
        rw [hhall] at hsends
        split_ifs at hres hsends <;>
        · cases hres
          exact hsends
    · have hact : s.hall.action (.request c msg) = .quiet := if_neg fun h => hst h.2.2
      rw [hact]
      rw [procMsg_eq s c hel] at hres
      obtain ⟨run,hrun,hres⟩ := Checked.bind_eq_ok.mp hres
      simp only [handle,checkstate,hst] at hrun
      cases hrun
      cases hres
      exact hquiet rfl
  · have hact : s.hall.action (.request c msg) = .quiet := if_neg fun h => hel h.2.1
    rw [hact]
    rw [procMsg,if_neg hel] at hres
    cases hres
    exact hquiet rfl

/-! ### Events -/

theorem dropSession_sends (ok : s.hall.Ok) (hclear : ∀ d, Clear (s.clients d))
    (hres : dropSession s c = .ok t) : Sends s t (s.hall.told (.disconnect c)) := by
  have htold : ∀ d, Hall.heard (s.hall.notice (.disconnect c)) d = s.hall.told (.disconnect c) d :=
    fun d => (Hall.told_of_ne (fun _ => Action.noConfusion) d).symm
  have hnd := Hall.nodup_notice ok (a := .disconnect c)
  unfold dropSession at hres
  split_ifs at hres with hpos
  · obtain ⟨left,hleft,hres⟩ := Checked.bind_eq_ok.mp hres
    cases hres
    have hpend := leaveSession_pending (clear_genBdsAndNotis hclear c) hleft
    have hnotice : s.hall.notice (.disconnect c) = s.hall.notice (.leaveSession c) := if_pos hpos
    rw [hall_genBdsAndNotis,← hnotice] at hpend
    exact (hpend.sends hnd).congr htold
  · cases hres
    have hnone : s.hall.notice (.disconnect c) = none := if_neg hpos
    refine .nothing rfl fun d => ?_
    rw [← htold d,hnone]
    rfl

theorem dropRoom_sends (hclear : ∀ d, Clear (s.clients d)) (hres : dropRoom s c = .ok t) :
    Sends s t (fun _ => []) := by
  unfold dropRoom at hres
  split_ifs at hres
  · obtain ⟨left,hleft,hres⟩ := Checked.bind_eq_ok.mp hres
    cases hres
    have hpend := leaveRoom_pending (clear_genBdsAndNotis hclear c) hleft
    have hpend' : Pending s left c (noticeOf none) := ⟨hpend.assigned,hpend.notifier⟩
    exact hpend'.sends fun x hx => nomatch hx
  · cases hres
    exact .nothing rfl fun _ => rfl

theorem breakLine_sends (ok : s.hall.Ok) (hclear : ∀ d, Clear (s.clients d))
    (hres : breakLine s c = .ok t) : Sends s t (s.hall.told (.disconnect c)) := by
  obtain ⟨u,hu,hres⟩ := Checked.bind_eq_ok.mp hres
  obtain ⟨v,hv,hres⟩ := Checked.bind_eq_ok.mp hres
  cases hres
  have hsession := dropSession_sends ok hclear hu
  have hroom := dropRoom_sends (dropSession_clear hclear hu) hv
  obtain ⟨jobs,hjobs,hd⟩ := hsession.trans hroom
  exact ⟨jobs,hjobs,fun d => (hd d).trans (List.append_nil _)⟩

end CClient

namespace CEngine
open CClient
variable {s t : CEngine} {e : Event}

/-- One event queues at every client what its action tells it. -/
theorem step_sends (ok : s.hall.Ok) (hclear : ∀ d, Clear (s.clients d)) (h : s.step e = .ok t) :
    Sends s t (s.hall.told (s.hall.action e)) := by
  have hquiet : ∀ {t : CEngine}, t.assigned = s.assigned → Sends s t (s.hall.told .quiet) :=
    fun ht => .nothing ht fun _ => rfl
  cases e with
  | login c udp udpaddr uname =>
    simp only [step,Hall.action] at h ⊢
    by_cases hc : (s.clients c).ctsk = true
    · rw [if_pos hc] at h
      cases h
      exact .nothing rfl fun d => by split_ifs <;> rfl
    · rw [if_neg hc] at h
      cases h
      refine .nothing ?_ fun d => by split_ifs <;> rfl
      unfold login
      generalize hmade : s.modify c (fun _ => CClient.new udp udpaddr uname) = made
      cases hfind : made.list.find? (made.uname c) with
      | some _ => simp only [addClient,hfind,Bool.false_eq_true,if_false]
      | none =>
        simp only [addClient,hfind,if_true]
        rw [← hmade]
        rfl
  | frame c =>
    simp only [step] at h
    split_ifs at h <;>
    · cases h
      exact hquiet rfl
  | request c msg =>
    simp only [step] at h
    split_ifs at h with hc
    · obtain ⟨res,hres,rfl⟩ := Checked.map_eq_ok.mp h
      exact procMsg_sends ok hclear hc hres
    · cases h
      have hact : s.hall.action (.request c msg) = .quiet := if_neg fun h => hc h.1
      rw [hact]
      exact hquiet rfl
  | disconnect c =>
    simp only [step] at h
    split_ifs at h with hc
    · have hact : s.hall.action (.disconnect c) = .disconnect c := if_pos hc
      rw [hact]
      exact breakLine_sends ok hclear h
    · cases h
      have hact : s.hall.action (.disconnect c) = .quiet := if_neg hc
      rw [hact]
      exact hquiet rfl

end CEngine
end CcniServer
