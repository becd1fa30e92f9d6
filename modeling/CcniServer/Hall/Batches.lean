import CcniServer.Hall.Replies

/-!
A frame with many messages and many frames with one message each: no handler looks at the answers
before its own, so both leave the same state and give the same answers.
-/
namespace CcniServer

/-- Every client with more elements at the front of its answer. -/
def precededHeap (pre : CClientPtr → List CXmlNode) (heap : CClientPtr → CClient) :
    CClientPtr → CClient :=
  fun d => { heap d with resmsg := pre d ++ (heap d).resmsg }

def CEngine.preceded (pre : CClientPtr → List CXmlNode) (s : CEngine) : CEngine :=
  { s with clients := precededHeap pre s.clients }

variable (pre : CClientPtr → List CXmlNode) (s : CEngine) (c : CClientPtr)

namespace CEngine

/-- The client's room does not depend on the answers. -/
theorem findRoom_preceded : (s.preceded pre).findRoom ((s.preceded pre).clients c).roomid =
    s.findRoom (s.clients c).roomid := rfl

/-- What does not concern the answer is written the same way. -/
theorem modify_preceded {f : CClient → CClient}
    (hf : ∀ cl l, f { cl with resmsg := l ++ cl.resmsg } =
      { f cl with resmsg := l ++ (f cl).resmsg }) :
    (s.preceded pre).modify c f = (s.modify c f).preceded pre := by
  have hclients : ((s.preceded pre).modify c f).clients =
      ((s.modify c f).preceded pre).clients := by
    funext d
    by_cases hd : d = c
    · subst hd
      simp only [preceded,precededHeap,modify,Function.update_self]
      exact hf _ _
    · simp only [preceded,precededHeap,modify,Function.update_of_ne hd]
  exact congrArg (fun heap => { s with clients := heap }) hclients

theorem appendmsg_preceded (m : CXmlNode) :
    (s.preceded pre).appendmsg c m = (s.appendmsg c m).preceded pre := by
  apply modify_preceded
  intro cl l
  dsimp only
  rw [List.append_assoc]

end CEngine

/-- The result of a computation with the same elements in front. -/
def precededRes {α : Type} (x : Checked (CEngine × α)) : Checked (CEngine × α) :=
  x.map (fun res => (res.1.preceded pre,res.2))

namespace CClient

theorem doreturn_preceded (tag des : String) (rcode : ℤ) :
    doreturn (s.preceded pre) c tag rcode des =
      ((doreturn s c tag rcode des).1.preceded pre,(doreturn s c tag rcode des).2) :=
  Prod.ext (s.appendmsg_preceded pre c _) rfl

theorem genBdsAndNotis_preceded :
    genBdsAndNotis (s.preceded pre) c = (genBdsAndNotis s c).preceded pre :=
  s.modify_preceded pre c fun _ _ => rfl

theorem consumeBds_preceded : consumeBds (s.preceded pre) c = (consumeBds s c).preceded pre := by
  have hsame : theBder (s.preceded pre) c = theBder s c := rfl
  unfold consumeBds
  rw [hsame]
  split_ifs
  · rfl
  · exact (s.assign (.broadCaster (theBder s c))).modify_preceded pre c fun _ _ => rfl

theorem consumeNotis_preceded :
    consumeNotis (s.preceded pre) c = (consumeNotis s c).preceded pre := by
  have hsame : theNotifier (s.preceded pre) c = theNotifier s c := rfl
  unfold consumeNotis
  rw [hsame]
  split_ifs
  · rfl
  · exact (s.assign (.notifier (theNotifier s c))).modify_preceded pre c fun _ _ => rfl

theorem consumeBdsAndNotis_preceded :
    consumeBdsAndNotis (s.preceded pre) c = (consumeBdsAndNotis s c).preceded pre := by
  rw [consumeBdsAndNotis,consumeBdsAndNotis,consumeBds_preceded,consumeNotis_preceded]

theorem enterRoom_preceded (rid : ℤ) : enterRoom (s.preceded pre) c rid =
    ((enterRoom s c rid).1.preceded pre,(enterRoom s c rid).2) := by
  have hfind : (s.preceded pre).findRoom rid = s.findRoom rid := rfl
  have henter : ∀ rm : CRoom, rm.enter (s.preceded pre).clients c (theBder (s.preceded pre) c) =
      rm.enter s.clients c (theBder s c) := fun _ => rfl
  have hstate : ((s.preceded pre).clients c).state = (s.clients c).state := rfl
  have hctsk : ((s.preceded pre).clients c).ctsk = (s.clients c).ctsk := rfl
  unfold enterRoom
  rw [hstate,hctsk,hfind]
  by_cases hst : (s.clients c).state ≠ .stOnline ∨ (s.clients c).ctsk = false
  · rw [if_pos hst,if_pos hst]
  · rw [if_neg hst,if_neg hst]
    cases s.findRoom rid with
    | none => rfl
    | some rm =>
      simp only [henter]
      split_ifs
      · refine congrArg (fun t => (t,(0 : ℤ))) ?_
        exact (s.setRoom rid _).modify_preceded pre c fun _ _ => rfl
      · rfl

theorem leaveRoom_preceded : leaveRoom (s.preceded pre) c =
    (leaveRoom s c).map (CEngine.preceded pre) := by
  have hleave : ∀ rm : CRoom, rm.leave (s.preceded pre).clients c (theBder (s.preceded pre) c) =
      rm.leave s.clients c (theBder s c) := fun _ => rfl
  unfold leaveRoom
  simp only [CEngine.findRoom_preceded]
  cases s.findRoom (s.clients c).roomid with
  | none => rfl
  | some rm =>
    simp only [hleave]
    cases ASSERT .leaveRoomLeft (rm.leave s.clients c (theBder s c)).1 with
    | error site => rfl
    | ok _ => exact congrArg Except.ok ((s.setRoom _ _).modify_preceded pre c fun _ _ => rfl)

theorem createSession_preceded (cfg : CSessionConfig) : createSession (s.preceded pre) c cfg =
    precededRes pre (createSession s c cfg) := by
  have hmade : ∀ rm : CRoom, rm.createSession (s.preceded pre).clients c cfg
      (theBder (s.preceded pre) c) (s.preceded pre).idseed =
      rm.createSession s.clients c cfg (theBder s c) s.idseed := fun _ => rfl
  have hassert : ASSERT .createSessionState (((s.preceded pre).clients c).state = .stIdle ∧
      ((s.preceded pre).clients c).ctsk ∧ ((s.preceded pre).clients c).roomid > 0) =
      ASSERT .createSessionState ((s.clients c).state = .stIdle ∧ (s.clients c).ctsk ∧
        (s.clients c).roomid > 0) := rfl
  unfold createSession
  simp only [CEngine.findRoom_preceded,hassert]
  cases ASSERT .createSessionState ((s.clients c).state = .stIdle ∧ (s.clients c).ctsk ∧
      (s.clients c).roomid > 0) with
  | error site => rfl
  | ok _ =>
    simp only [Checked.ok_bind]
    cases s.findRoom (s.clients c).roomid with
    | none => rfl
    | some rm =>
      simp only [hmade]
      cases rm.createSession s.clients c cfg (theBder s c) s.idseed with
      | error site => rfl
      | ok made =>
        refine congrArg (fun t => Except.ok (t,(0 : ℤ))) ?_
        exact CEngine.modify_preceded pre { s.setRoom _ _ with idseed := _ } c fun _ _ => rfl

theorem leaveSession_preceded : leaveSession (s.preceded pre) c =
    precededRes pre (leaveSession s c) := by
  have hleft : ∀ rm : CRoom, rm.leaveSession (s.preceded pre).clients
      ((s.preceded pre).clients c).sessionid c (theNotifier (s.preceded pre) c)
      (theBder (s.preceded pre) c) = rm.leaveSession s.clients (s.clients c).sessionid c
      (theNotifier s c) (theBder s c) := fun _ => rfl
  have hassert : ASSERT .leaveSessionState (((s.preceded pre).clients c).ctsk ∧
      ((s.preceded pre).clients c).roomid > 0 ∧ ((s.preceded pre).clients c).sessionid > 0) =
      ASSERT .leaveSessionState ((s.clients c).ctsk ∧ (s.clients c).roomid > 0 ∧
        (s.clients c).sessionid > 0) := rfl
  unfold leaveSession
  simp only [CEngine.findRoom_preceded,hassert]
  cases ASSERT .leaveSessionState ((s.clients c).ctsk ∧ (s.clients c).roomid > 0 ∧
      (s.clients c).sessionid > 0) with
  | error site => rfl
  | ok _ =>
    simp only [Checked.ok_bind]
    cases s.findRoom (s.clients c).roomid with
    | none => rfl
    | some rm =>
      simp only [hleft]
      cases rm.leaveSession s.clients (s.clients c).sessionid c (theNotifier s c)
          (theBder s c) with
      | error site => rfl
      | ok left =>
        refine congrArg (fun t => Except.ok (t,(0 : ℤ))) ?_
        exact (s.setRoom _ _).modify_preceded pre c fun _ _ => rfl

theorem enterSession_preceded (sid : ℤ) : enterSession (s.preceded pre) c sid =
    precededRes pre (enterSession s c sid) := by
  have hentered : ∀ rm : CRoom, rm.enterSession sid c (theNotifier (s.preceded pre) c) =
      rm.enterSession sid c (theNotifier s c) := fun _ => rfl
  have hassert : ASSERT .enterSessionState (((s.preceded pre).clients c).ctsk ∧
      ((s.preceded pre).clients c).roomid > 0 ∧ ((s.preceded pre).clients c).sessionid < 0) =
      ASSERT .enterSessionState ((s.clients c).ctsk ∧ (s.clients c).roomid > 0 ∧
        (s.clients c).sessionid < 0) := rfl
  unfold enterSession
  simp only [CEngine.findRoom_preceded,hassert]
  cases ASSERT .enterSessionState ((s.clients c).ctsk ∧ (s.clients c).roomid > 0 ∧
      (s.clients c).sessionid < 0) with
  | error site => rfl
  | ok _ =>
    simp only [Checked.ok_bind]
    cases s.findRoom (s.clients c).roomid with
    | none => rfl
    | some rm =>
      simp only [hentered]
      split_ifs
      · rfl
      · refine congrArg (fun t => Except.ok (t,(0 : ℤ))) ?_
        exact (s.setRoom _ _).modify_preceded pre c fun _ _ => rfl

theorem watchSession_preceded (sid : ℤ) : watchSession (s.preceded pre) c sid =
    precededRes pre (watchSession s c sid) := by
  have hwatched : ∀ rm : CRoom, rm.watchSession sid c (theNotifier (s.preceded pre) c) =
      rm.watchSession sid c (theNotifier s c) := fun _ => rfl
  have hassert : ASSERT .watchSessionState (((s.preceded pre).clients c).ctsk ∧
      ((s.preceded pre).clients c).roomid > 0 ∧ ((s.preceded pre).clients c).sessionid < 0) =
      ASSERT .watchSessionState ((s.clients c).ctsk ∧ (s.clients c).roomid > 0 ∧
        (s.clients c).sessionid < 0) := rfl
  unfold watchSession
  simp only [CEngine.findRoom_preceded,hassert]
  cases ASSERT .watchSessionState ((s.clients c).ctsk ∧ (s.clients c).roomid > 0 ∧
      (s.clients c).sessionid < 0) with
  | error site => rfl
  | ok _ =>
    simp only [Checked.ok_bind]
    cases s.findRoom (s.clients c).roomid with
    | none => rfl
    | some rm =>
      simp only [hwatched]
      split_ifs
      · rfl
      · refine congrArg (fun t => Except.ok (t,(0 : ℤ))) ?_
        exact (s.setRoom _ _).modify_preceded pre c fun _ _ => rfl

/-! ### `ready` -/

variable (heap : CClientPtr → CClient)

theorem setstate_preceded (st : State) :
    CSession.setstate (precededHeap pre heap) c st =
      precededHeap pre (CSession.setstate heap c st) := by
  funext d
  by_cases hd : d = c
  · simp only [CSession.setstate,precededHeap,hd,Function.update_self]
  · simp only [CSession.setstate,precededHeap,Function.update_of_ne hd]

theorem updatePlayersState_preceded (ss : CSession) (ow op : CClientPtr) :
    ss.updatePlayersState (precededHeap pre heap) ow op =
      (precededHeap pre (ss.updatePlayersState heap ow op).1,
        (ss.updatePlayersState heap ow op).2) := by
  unfold CSession.updatePlayersState
  split_ifs
  · simp only [setstate_preceded]
    rfl
  · simp only [setstate_preceded]
    rfl

/-- What `ready` returns with the same elements in front. -/
def precededReady (res : CSession.ReadyRes) : CSession.ReadyRes :=
  { res with heap := precededHeap pre res.heap }

theorem readyAgainst_preceded (ss : CSession) (ow op other : CClientPtr) (noti : CNotifier) :
    ss.readyAgainst (precededHeap pre heap) ow op other noti =
      precededReady pre (ss.readyAgainst heap ow op other noti) := by
  have hstate : (precededHeap pre heap other).state = (heap other).state := rfl
  unfold CSession.readyAgainst
  simp only [hstate,updatePlayersState_preceded]
  split_ifs <;> rfl

theorem ready_preceded (rm : CRoom) (sid : ℤ) (noti : CNotifier) :
    rm.ready (precededHeap pre heap) sid c noti =
      (rm.ready heap sid c noti).map (precededReady pre) := by
  unfold CRoom.ready
  cases rm.sessions.find? (Scan.toUInt32 sid) with
  | none => rfl
  | some ss =>
    simp only [CSession.ready,setstate_preceded,readyAgainst_preceded]
    split_ifs
    · cases ss.opponent <;> rfl
    · cases ss.owner <;> rfl
    · rfl

theorem readyMsgs_preceded (res : CSession.ReadyRes) :
    readyMsgs (s.preceded pre) c res = (readyMsgs s c res).preceded pre := by
  have huname : (s.preceded pre).uname c = s.uname c := rfl
  unfold readyMsgs
  simp only [huname]
  split_ifs
  · exact s.modify_preceded pre c fun _ _ => rfl
  · exact congrArg (fun t => CEngine.assign t _) (s.modify_preceded pre c fun _ _ => rfl)
  · exact s.modify_preceded pre c fun _ _ => rfl

theorem doReady_preceded : doReady (s.preceded pre) c = precededRes pre (doReady s c) := by
  have hassert : ASSERT .doReadyState (((s.preceded pre).clients c).ctsk ∧
      ((s.preceded pre).clients c).roomid > 0 ∧ ((s.preceded pre).clients c).sessionid > 0) =
      ASSERT .doReadyState ((s.clients c).ctsk ∧ (s.clients c).roomid > 0 ∧
        (s.clients c).sessionid > 0) := rfl
  have hready : ∀ rm : CRoom, rm.ready (s.preceded pre).clients
      ((s.preceded pre).clients c).sessionid c (theNotifier (s.preceded pre) c) =
      (rm.ready s.clients (s.clients c).sessionid c (theNotifier s c)).map (precededReady pre) :=
    fun rm => ready_preceded pre c s.clients rm _ _
  unfold doReady
  simp only [CEngine.findRoom_preceded,hassert]
  cases ASSERT .doReadyState ((s.clients c).ctsk ∧ (s.clients c).roomid > 0 ∧
      (s.clients c).sessionid > 0) with
  | error site => rfl
  | ok _ =>
    simp only [Checked.ok_bind]
    cases s.findRoom (s.clients c).roomid with
    | none => rfl
    | some rm =>
      simp only [hready]
      cases rm.ready s.clients (s.clients c).sessionid c (theNotifier s c) with
      | error site => rfl
      | ok res =>
        have hmsgs := readyMsgs_preceded pre { s with clients := res.heap } c res
        change (ASSERT .doReadyReturned (res.ret ≥ 0) >>= fun _ => _) =
          precededRes pre (ASSERT .doReadyReturned (res.ret ≥ 0) >>= fun _ => _)
        cases ASSERT .doReadyReturned (res.ret ≥ 0) with
        | error site => rfl
        | ok _ =>
          refine congrArg Except.ok ?_
          exact (congrArg (fun t => doreturn t c xmlTagReadyRes 0 "Ready ok") hmsgs).trans
            (doreturn_preceded pre _ c _ _ _)

/-! ### The handlers -/

theorem doEnterRoom_preceded (msg : CXmlNode) : doEnterRoom (s.preceded pre) c msg =
    precededRes pre (doEnterRoom s c msg) := by
  unfold doEnterRoom
  simp only [enterRoom_preceded,doreturn_preceded]
  split_ifs <;> rfl

theorem doLeaveRoom_preceded : doLeaveRoom (s.preceded pre) c =
    precededRes pre (doLeaveRoom s c) := by
  have hassert : ASSERT .doLeaveRoomState (((s.preceded pre).clients c).roomid > 0) =
      ASSERT .doLeaveRoomState ((s.clients c).roomid > 0) := rfl
  unfold doLeaveRoom
  simp only [hassert,leaveRoom_preceded]
  cases ASSERT .doLeaveRoomState ((s.clients c).roomid > 0) with
  | error site => rfl
  | ok _ =>
    simp only [Checked.ok_bind]
    cases leaveRoom s c with
    | error site => rfl
    | ok t => exact congrArg Except.ok (doreturn_preceded pre t c _ _ _)

theorem doNewSession_preceded : doNewSession (s.preceded pre) c =
    precededRes pre (doNewSession s c) := by
  unfold doNewSession
  rw [createSession_preceded]
  cases createSession s c .create with
  | error site => rfl
  | ok made =>
    have hsid : ((made.1.preceded pre).clients c).sessionid = (made.1.clients c).sessionid := rfl
    simp only [precededRes,Except.map,Checked.ok_bind,Checked.pure_eq,hsid,doreturn_preceded,
      CEngine.appendmsg_preceded]
    split_ifs <;> rfl

theorem doListSessions_preceded : doListSessions (s.preceded pre) c =
    precededRes pre (doListSessions s c) := by
  have hassert : ASSERT .doListSessionsState (((s.preceded pre).clients c).roomid > 0) =
      ASSERT .doListSessionsState ((s.clients c).roomid > 0) := rfl
  unfold doListSessions
  simp only [CEngine.findRoom_preceded,hassert]
  cases ASSERT .doListSessionsState ((s.clients c).roomid > 0) with
  | error site => rfl
  | ok _ =>
    simp only [Checked.ok_bind]
    cases s.findRoom (s.clients c).roomid with
    | none => rfl
    | some rm =>
      exact congrArg (fun t => Except.ok (t,(0 : ℤ))) (s.appendmsg_preceded pre c _)

theorem sessionRes_preceded (ret : ℤ) (success : String) :
    sessionRes (s.preceded pre) c ret success =
      ((sessionRes s c ret success).1.preceded pre,(sessionRes s c ret success).2) := by
  unfold sessionRes
  simp only [doreturn_preceded]
  split_ifs <;> rfl

theorem run_preceded (fn : Msghnd) (msg : CXmlNode) :
    fn.run (s.preceded pre) c msg = precededRes pre (fn.run s c msg) := by
  cases fn with
  | doEnterRoom => exact doEnterRoom_preceded pre s c msg
  | doLeaveRoom => exact doLeaveRoom_preceded pre s c
  | doNewSession => exact doNewSession_preceded pre s c
  | doListSessions => exact doListSessions_preceded pre s c
  | doReady => exact doReady_preceded pre s c
  | doEnterSession =>
    simp only [Msghnd.run,doEnterSession,enterSession_preceded]
    cases enterSession s c (idOf msg) with
    | error site => rfl
    | ok entered => exact congrArg Except.ok (sessionRes_preceded pre entered.1 c _ _)
  | doWatchSession =>
    simp only [Msghnd.run,doWatchSession,watchSession_preceded]
    cases watchSession s c (idOf msg) with
    | error site => rfl
    | ok watched => exact congrArg Except.ok (sessionRes_preceded pre watched.1 c _ _)
  | doLeaveSession =>
    simp only [Msghnd.run,doLeaveSession,leaveSession_preceded]
    cases leaveSession s c with
    | error site => rfl
    | ok left => exact congrArg Except.ok (doreturn_preceded pre left.1 c _ _ _)
  | doLogout => exact congrArg Except.ok (doreturn_preceded pre s c _ _ _)
  | doCCNI | doMyState | doListRooms | doUnknow =>
    exact congrArg (fun t => Except.ok (t,(0 : ℤ))) (s.appendmsg_preceded pre c _)
  | doMove | doDraw | doGiveUp | doSendMessages => rfl

theorem checkstate_preceded (msg : CXmlNode) (vstate : ℕ) :
    checkstate (s.preceded pre) c msg vstate =
      ((checkstate s c msg vstate).1.preceded pre,(checkstate s c msg vstate).2) := by
  have hstate : ((s.preceded pre).clients c).state = (s.clients c).state := rfl
  unfold checkstate
  simp only [hstate,CEngine.appendmsg_preceded]
  split_ifs <;> rfl

/-- One message: what precedes its answer makes no difference. -/
theorem procMsg_preceded (msg : CXmlNode) :
    procMsg (s.preceded pre) c msg = precededRes pre (procMsg s c msg) := by
  unfold procMsg
  simp only [checkstate_preceded,genBdsAndNotis_preceded,run_preceded]
  split_ifs
  · cases (findHnd msg.name).fn.run
        (genBdsAndNotis (checkstate s c msg (findHnd msg.name).vstate).1 c) c msg with
    | error site => rfl
    | ok res =>
      simp only [precededRes,Except.map,Checked.ok_bind,Checked.pure_eq,
        consumeBdsAndNotis_preceded]
      split_ifs <;> rfl
  · rfl
  · rfl

/-! ### Batches -/

/-- Every message in a frame of its own, up to the first one that breaks the loop: the state after
the last frame, and the answers of all of them. -/
def oneByOne (s : CEngine) (c : CClientPtr) : List CXmlNode → Checked (CEngine × List CXmlNode)
  | [] => .ok (s,[])
  | msg :: msgs => do
    let res ← procMsg (createRes s c) c msg
    let answer := (res.1.clients c).resmsg
    if res.2 then do
      let rest ← oneByOne res.1 c msgs
      return (rest.1,answer ++ rest.2)
    else return (res.1,answer)

/-- A frame with one message is one round of the loop. -/
theorem procMsgs_one (msg : CXmlNode) : procMsgs s c [msg] = (procMsg s c msg).map Prod.fst := by
  simp only [procMsgs]
  cases procMsg s c msg with
  | error site => rfl
  | ok res =>
    simp only [Checked.ok_bind,Except.map]
    split_ifs <;> rfl

/-- The client's answer is replaced. -/
def withAnswer (c : CClientPtr) (l : List CXmlNode) (s : CEngine) : CEngine :=
  s.modify c (fun cl => { cl with resmsg := l })

theorem preceded_single (l : List CXmlNode) :
    s.preceded (Function.update (fun _ => []) c l) =
      withAnswer c (l ++ (s.clients c).resmsg) s := by
  have hclients : precededHeap (Function.update (fun _ => []) c l) s.clients =
      (withAnswer c (l ++ (s.clients c).resmsg) s).clients := by
    funext d
    by_cases hd : d = c
    · subst hd
      simp only [precededHeap,withAnswer,CEngine.modify,Function.update_self]
    · simp only [precededHeap,withAnswer,CEngine.modify,Function.update_of_ne hd,List.nil_append]
  exact congrArg (fun heap => { s with clients := heap }) hclients

theorem withAnswer_withAnswer (l l' : List CXmlNode) :
    withAnswer c l (withAnswer c l' s) = withAnswer c l s := by
  simp only [withAnswer,CEngine.modify,Function.update_self,Function.update_idem]

theorem withAnswer_self : withAnswer c (s.clients c).resmsg s = s := by
  simp only [withAnswer,CEngine.modify,Function.update_eq_self]

@[simp] theorem resmsg_withAnswer (l : List CXmlNode) :
    ((withAnswer c l s).clients c).resmsg = l := by
  rw [withAnswer,CEngine.clients_modify]

/-- The answer to one message is the one it gets in a frame of its own, after what is there. -/
theorem procMsg_eq_createRes (msg : CXmlNode) :
    procMsg s c msg = (procMsg (createRes s c) c msg).map (fun res =>
      (withAnswer c ((s.clients c).resmsg ++ (res.1.clients c).resmsg) res.1,res.2)) := by
  have hstart : (createRes s c).preceded
      (Function.update (fun _ => []) c (s.clients c).resmsg) = s := by
    rw [preceded_single,createRes,CEngine.clients_modify,List.append_nil]
    exact (withAnswer_withAnswer s c _ []).trans (withAnswer_self s c)
  have hround := procMsg_preceded (Function.update (fun _ => []) c (s.clients c).resmsg)
    (createRes s c) c msg
  rw [hstart] at hround
  rw [hround,precededRes]
  simp only [preceded_single]

theorem oneByOne_withAnswer (l l' : List CXmlNode) (msgs : List CXmlNode) :
    (oneByOne (withAnswer c l s) c msgs).map (fun res => withAnswer c (l' ++ res.2) res.1) =
      (oneByOne s c msgs).map (fun res => withAnswer c (l' ++ res.2) res.1) := by
  cases msgs with
  | nil => exact congrArg Except.ok (withAnswer_withAnswer s c _ _)
  | cons msg msgs =>
    have hcreate : createRes (withAnswer c l s) c = createRes s c := withAnswer_withAnswer s c [] l
    rw [oneByOne,oneByOne,hcreate]

/-- A batch leaves the state, assigns the jobs and gives the answers that its messages do one by
one. -/
theorem procMsgs_eq_oneByOne (msgs : List CXmlNode) :
    procMsgs s c msgs = (oneByOne s c (msgs.filter CXmlNode.isElement)).map
      (fun res => withAnswer c ((s.clients c).resmsg ++ res.2) res.1) := by
  induction msgs generalizing s with
  | nil =>
    refine congrArg Except.ok ?_
    dsimp only
    rw [List.append_nil,withAnswer_self]
  | cons msg msgs ih =>
    by_cases hel : msg.isElement = true
    · rw [List.filter_cons_of_pos hel,procMsgs,oneByOne,procMsg_eq_createRes]
      cases procMsg (createRes s c) c msg with
      | error site => rfl
      | ok res =>
        simp only [Except.map,Checked.ok_bind]
        split_ifs with hgo
        · have hrest := oneByOne_withAnswer res.1 c
            ((s.clients c).resmsg ++ (res.1.clients c).resmsg)
            ((s.clients c).resmsg ++ (res.1.clients c).resmsg) (msgs.filter CXmlNode.isElement)
          rw [ih,resmsg_withAnswer]
          refine hrest.trans ?_
          cases oneByOne res.1 c (msgs.filter CXmlNode.isElement) with
          | error site => rfl
          | ok rest =>
            refine congrArg Except.ok ?_
            dsimp only
            rw [List.append_assoc]
        · rfl
    · rw [List.filter_cons_of_neg hel,procMsgs,procMsg,if_neg hel]
      exact ih s

end CClient
end CcniServer
