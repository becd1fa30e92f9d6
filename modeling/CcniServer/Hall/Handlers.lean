import CcniServer.Hall.Engine

/-! The message handlers, the table that dispatches them and the loop over the messages of one
request. -/
namespace CcniServer
namespace CClient
open CXmlMsg

/-- The answer `doreturn` appends. -/
def resWith (tag : String) (rcode : ℤ) (des : String) : CXmlNode :=
  addParameter (addIntParameter (CXmlNode.create tag) xmlTagReturnCode rcode) xmlTagDescription des

def doreturn (s : CEngine) (c : CClientPtr) (tag : String) (rcode : ℤ) (des : String) :
    CEngine × ℤ := (s.appendmsg c (resWith tag rcode des),rcode)

/-- The number in the `Id` child of a request. -/
def idOf (msg : CXmlNode) : ℤ := CXmlNode.getIntContent (CXmlNode.findChild (some msg) xmlTagId)

def doEnterRoom (s : CEngine) (c : CClientPtr) (msg : CXmlNode) : Checked (CEngine × ℤ) :=
  let entered := enterRoom s c (idOf msg)
  if entered.2 = -1 then .ok (doreturn entered.1 c xmlTagEnterRoomRes (-1) "user state error")
  else if entered.2 = -2 then .ok (doreturn entered.1 c xmlTagEnterRoomRes (-2) "unknow room id")
  else if entered.2 = -3 then .ok (doreturn entered.1 c xmlTagEnterRoomRes (-3) "room full")
  else .ok (doreturn entered.1 c xmlTagEnterRoomRes 0 "enter room success")

def doLeaveRoom (s : CEngine) (c : CClientPtr) : Checked (CEngine × ℤ) := do
  ASSERT .doLeaveRoomState ((s.clients c).roomid > 0)
  let s ← leaveRoom s c
  return doreturn s c xmlTagLeaveRoomRes 0 "leave room success"

def doNewSession (s : CEngine) (c : CClientPtr) : Checked (CEngine × ℤ) := do
  let made ← createSession s c .create
  if made.2 = -1 then return doreturn made.1 c xmlTagNewSessionRes (-1) "user state error"
  else if made.2 = -2 then
    return doreturn made.1 c xmlTagNewSessionRes (-2) "error session parameter"
  else
    let nds := addIntParameter (CXmlNode.create xmlTagSession) xmlTagId (made.1.clients c).sessionid
    return (made.1.appendmsg c
      ((resWith xmlTagNewSessionRes 0 "create session success").addChild nds),0)

def doListSessions (s : CEngine) (c : CClientPtr) : Checked (CEngine × ℤ) := do
  ASSERT .doListSessionsState ((s.clients c).roomid > 0)
  let some rm := s.findRoom (s.clients c).roomid | throw .doListSessionsFound
  let lgmsg := addIntParameter (CXmlNode.create xmlTagListSessionsRes) xmlTagReturnCode 0
  return (s.appendmsg c (lgmsg.addChild (rm.xmlSessionList s.uname)),0)

/-- The answers of `doEnterSession` and `doWatchSession`, which use one tag. -/
def sessionRes (s : CEngine) (c : CClientPtr) (ret : ℤ) (success : String) : CEngine × ℤ :=
  if ret = -2 then doreturn s c xmlTagEnterSessionRes (-2) "error session id"
  else if ret = -3 then doreturn s c xmlTagEnterSessionRes (-3) "session full"
  else doreturn s c xmlTagEnterSessionRes 0 success

def doEnterSession (s : CEngine) (c : CClientPtr) (msg : CXmlNode) : Checked (CEngine × ℤ) := do
  let entered ← enterSession s c (idOf msg)
  return sessionRes entered.1 c entered.2 "enter session success"

def doLeaveSession (s : CEngine) (c : CClientPtr) : Checked (CEngine × ℤ) := do
  let left ← leaveSession s c
  return doreturn left.1 c xmlTagLeaveSessionRes 0 "leave session success"

def doWatchSession (s : CEngine) (c : CClientPtr) (msg : CXmlNode) : Checked (CEngine × ℤ) := do
  let watched ← watchSession s c (idOf msg)
  return sessionRes watched.1 c watched.2 "watch session success"

/-- The notifications of a successful `ready`: to the other members through the client's own
notifier, and at the start of a game to the client itself through a notifier of its own. -/
def readyMsgs (s : CEngine) (c : CClientPtr) (res : CSession.ReadyRes) : CEngine :=
  if res.notier.empty then s.modify c (fun cl => { cl with notifier := some res.notier })
  else
    let noti := res.notier.append (bdmsg xmlTagNotifyReady xmlTagUserName (s.uname c))
    if res.ret = 1 then
      let start := addParameter (bdmsg xmlTagNotifyStartGame xmlTagMoving res.redn)
        xmlTagPondering res.bkn
      let n := (CNotifier.create.addNotifiee c).append start
      (s.modify c (fun cl => { cl with notifier := some (noti.append start) })).assign (.notifier n)
    else s.modify c (fun cl => { cl with notifier := some noti })

def doReady (s : CEngine) (c : CClientPtr) : Checked (CEngine × ℤ) := do
  let cl := s.clients c
  ASSERT .doReadyState (cl.ctsk ∧ cl.roomid > 0 ∧ cl.sessionid > 0)
  let some rm := s.findRoom cl.roomid | throw .doReadyFound
  let res ← rm.ready s.clients cl.sessionid c (theNotifier s c)
  ASSERT .doReadyReturned (res.ret ≥ 0)
  let s := readyMsgs { s with clients := res.heap } c res
  return doreturn s c xmlTagReadyRes 0 "Ready ok"

def doListRooms (s : CEngine) (c : CClientPtr) : CEngine × ℤ :=
  let lgmsg := addIntParameter (CXmlNode.create xmlTagListRoomsRes) xmlTagReturnCode 0
  (s.appendmsg c (lgmsg.addChild s.xmlRoomList),0)

def doUnknow (s : CEngine) (c : CClientPtr) : CEngine × ℤ :=
  (s.appendmsg c (CXmlNode.create xmlTagUnknowMessage),0)

def doCCNI (s : CEngine) (c : CClientPtr) : CEngine × ℤ :=
  let lgmsg := addIntParameter (CXmlNode.create xmlTagCCNIRes) xmlTagReturnCode 0
  let svrinfo := bdmsg xmlTagServerInformation xmlTagServerType "CCNIServer"
  let svrinfo := addParameter svrinfo xmlTagServerVersion "1.0"
  let svrinfo := addParameter svrinfo xmlTagCCNIVersion "1.0"
  let svrinfo := addParameter svrinfo xmlTagDescription "CCNI Chinese Chess server 1.0 for Linux"
  (s.appendmsg c (lgmsg.addChild svrinfo),0)

def doMyState (s : CEngine) (c : CClientPtr) : CEngine × ℤ :=
  let lgmsg := addIntParameter (CXmlNode.create xmlTagMyStateRes) xmlTagReturnCode 0
  (s.appendmsg c (addParameter lgmsg xmlTagState (s.clients c).state.str),0)

def doLogout (s : CEngine) (c : CClientPtr) : CEngine × ℤ :=
  doreturn s c xmlTagLogoutRes 0 "logout success"

/-- The handlers the table points to. -/
inductive Msghnd
  | doCCNI
  | doMyState
  | doLogout
  | doEnterRoom
  | doLeaveRoom
  | doNewSession
  | doEnterSession
  | doLeaveSession
  | doWatchSession
  | doReady
  | doMove
  | doDraw
  | doGiveUp
  | doListRooms
  | doListSessions
  | doSendMessages
  | doUnknow
  deriving DecidableEq

/-- A handler applied to the request; the negative codes stop the request. -/
def Msghnd.run : Msghnd → CEngine → CClientPtr → CXmlNode → Checked (CEngine × ℤ)
  | .doCCNI, s, c, _ => .ok (CClient.doCCNI s c)
  | .doMyState, s, c, _ => .ok (CClient.doMyState s c)
  | .doLogout, s, c, _ => .ok (CClient.doLogout s c)
  | .doEnterRoom, s, c, msg => CClient.doEnterRoom s c msg
  | .doLeaveRoom, s, c, _ => CClient.doLeaveRoom s c
  | .doNewSession, s, c, _ => CClient.doNewSession s c
  | .doEnterSession, s, c, msg => CClient.doEnterSession s c msg
  | .doLeaveSession, s, c, _ => CClient.doLeaveSession s c
  | .doWatchSession, s, c, msg => CClient.doWatchSession s c msg
  | .doReady, s, c, _ => CClient.doReady s c
  | .doMove, s, _, _ => .ok (s,0)
  | .doDraw, s, _, _ => .ok (s,0)
  | .doGiveUp, s, _, _ => .ok (s,0)
  | .doListRooms, s, c, _ => .ok (CClient.doListRooms s c)
  | .doListSessions, s, c, _ => CClient.doListSessions s c
  | .doSendMessages, s, _, _ => .ok (s,0)
  | .doUnknow, s, c, _ => .ok (CClient.doUnknow s c)

structure HndtableT where
  label : String
  vstate : ℕ
  fn : Msghnd

open State in
/-- The table up to its last entry, which has no label. -/
def msghnds : List HndtableT :=
  [⟨xmlTagCCNI,stConnected,.doCCNI⟩,
   ⟨xmlTagMyState,stConnected,.doMyState⟩,
   ⟨xmlTagLogout,stOnline.val,.doLogout⟩,
   ⟨xmlTagEnterRoom,stOnline.val,.doEnterRoom⟩,
   ⟨xmlTagLeaveRoom,stIdle.val,.doLeaveRoom⟩,
   ⟨xmlTagNewSession,stIdle.val,.doNewSession⟩,
   ⟨xmlTagEnterSession,stIdle.val,.doEnterSession⟩,
   ⟨xmlTagLeaveSession,stInSession,.doLeaveSession⟩,
   ⟨xmlTagWatchSession,stIdle.val,.doWatchSession⟩,
   ⟨xmlTagReady,stSessional.val,.doReady⟩,
   ⟨xmlTagMove,stMoving.val,.doMove⟩,
   ⟨xmlTagDraw,stPlaying,.doDraw⟩,
   ⟨xmlTagGiveUp,stPlaying,.doGiveUp⟩,
   ⟨xmlTagListRooms,stConnected,.doListRooms⟩,
   ⟨xmlTagListSessions,stInRoom,.doListSessions⟩,
   ⟨xmlTagSendMessage,stConnected,.doSendMessages⟩]

/-- The entry whose label is the name of the message, or the last one. -/
def findHnd (name : String) : HndtableT :=
  (msghnds.find? (fun e => e.label == name)).getD ⟨"",State.stConnected,.doUnknow⟩

def checkstate (s : CEngine) (c : CClientPtr) (msg : CXmlNode) (vstate : ℕ) : CEngine × Bool :=
  if (s.clients c).state.isIn vstate then (s,true)
  else (s.appendmsg c (resWith (msg.name ++ xmlTagRes) (-1) "user state error"),false)

/-- One round of the loop of `procMsgs`; false breaks the loop. -/
def procMsg (s : CEngine) (c : CClientPtr) (msg : CXmlNode) : Checked (CEngine × Bool) := do
  if msg.isElement then
    let hnd := findHnd msg.name
    let checked := checkstate s c msg hnd.vstate
    if checked.2 then
      let res ← hnd.fn.run (genBdsAndNotis checked.1 c) c msg
      if res.2 < 0 then return (res.1,false)
      else return (consumeBdsAndNotis res.1 c,true)
    else return (checked.1,false)
  else return (s,true)

/-- The messages of one request, up to the first that breaks the loop. -/
def procMsgs (s : CEngine) (c : CClientPtr) : List CXmlNode → Checked CEngine
  | [] => .ok s
  | msg :: msgs => do
    let res ← procMsg s c msg
    if res.2 then procMsgs res.1 c msgs else return res.1

/-- The session of a client whose connection broke. -/
def dropSession (s : CEngine) (c : CClientPtr) : Checked CEngine :=
  if (s.clients c).sessionid > 0 then do
    let left ← leaveSession (genBdsAndNotis s c) c
    return consumeBdsAndNotis left.1 c
  else .ok s

def dropRoom (s : CEngine) (c : CClientPtr) : Checked CEngine :=
  if (s.clients c).roomid > 0 then do
    let s ← leaveRoom (genBdsAndNotis s c) c
    return consumeBdsAndNotis s c
  else .ok s

/-- `doWork` after an I/O error: the client gives up its session and its room, is deleted from
the registry and loses its task. -/
def breakLine (s : CEngine) (c : CClientPtr) : Checked CEngine := do
  let s ← dropSession s c
  let s ← dropRoom s c
  return (s.delClient (s.uname c)).modify c
    (fun cl => { cl with state := .stOffline, ctsk := false })

end CClient

/-- What happens to the engine in one step: the end of a login, the arrival of a request frame,
one message of it, or a broken connection. -/
inductive Event
  | login (c : CClientPtr) (udp : CUdpSockDataPtr) (udpaddr : SockaddrIn) (uname : String)
  | frame (c : CClientPtr)
  | request (c : CClientPtr) (msg : CXmlNode)
  | disconnect (c : CClientPtr)

namespace CEngine

/-- A login at a free address makes a client object, registers it and gives it a task; a name
in use drops the object. -/
def login (s : CEngine) (c : CClientPtr) (udp : CUdpSockDataPtr) (udpaddr : SockaddrIn)
    (uname : String) : CEngine :=
  let made := s.modify c (fun _ => CClient.new udp udpaddr uname)
  let added := made.addClient c
  if added.1 then added.2.modify c (fun cl => { cl with ctsk := true }) else s

/-- Only a client with a task is served, and a login needs an address without one. -/
def step (s : CEngine) : Event → Checked CEngine
  | .login c udp udpaddr uname =>
    if (s.clients c).ctsk then .ok s else .ok (s.login c udp udpaddr uname)
  | .frame c =>
    if (s.clients c).ctsk then .ok (s.modify c (fun cl => { cl with resmsg := [] })) else .ok s
  | .request c msg =>
    if (s.clients c).ctsk then (CClient.procMsg s c msg).map Prod.fst else .ok s
  | .disconnect c =>
    if (s.clients c).ctsk then CClient.breakLine s c else .ok s

/-- The state after a list of events, unless an `ASSERT` ends the server before. -/
def run (s : CEngine) (es : List Event) : Checked CEngine := Lts.exec step s es

end CEngine
end CcniServer
