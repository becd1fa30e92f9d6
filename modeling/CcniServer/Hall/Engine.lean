import CcniServer.Hall.Room
import CcniServer.Lib.Lts
import Mathlib.Data.String.Basic

/-! The engine's shared state and the operations of `CClient` on it: entering and leaving rooms
and sessions, with the broadcasts and notifications each one prepares. -/
namespace CcniServer

/-- The client objects, the registry and the rooms of `CDataMgr`, the counter of
`CSession::genid` and the jobs assigned to the thread pool so far. -/
structure CEngine where
  clients : CClientPtr → CClient
  list : OrdMap String CClientPtr
  rooms : OrdMap ℤ CRoom
  idseed : ℕ
  assigned : List CJob

namespace CEngine

/-- `CDataMgr::create`: a room for every configuration, stored under its id. -/
def createRooms (cfgs : List CRoomConfig) : OrdMap ℤ CRoom :=
  cfgs.foldl (fun rooms cfg => rooms.insert (cfg.id : ℤ) (CRoom.new cfg)) OrdMap.empty

def create (cfgs : List CRoomConfig) : CEngine where
  clients := fun _ => CClient.absent
  list := OrdMap.empty
  rooms := createRooms cfgs
  idseed := 0
  assigned := []

def findRoom (s : CEngine) (roomid : ℤ) : Option CRoom := s.rooms.find? roomid

def setRoom (s : CEngine) (roomid : ℤ) (rm : CRoom) : CEngine :=
  { s with rooms := s.rooms.insert roomid rm }

/-- The fields of one client object change. -/
def modify (s : CEngine) (c : CClientPtr) (f : CClient → CClient) : CEngine :=
  { s with clients := Function.update s.clients c (f (s.clients c)) }

def assign (s : CEngine) (job : CJob) : CEngine := { s with assigned := s.assigned ++ [job] }

def uname (s : CEngine) (c : CClientPtr) : String := (s.clients c).uname

def appendmsg (s : CEngine) (c : CClientPtr) (m : CXmlNode) : CEngine :=
  s.modify c (fun cl => { cl with resmsg := cl.resmsg ++ [m] })

/-- `CDataMgr::addClient`, false for a name in use. -/
def addClient (s : CEngine) (c : CClientPtr) : Bool × CEngine :=
  match s.list.find? (s.uname c) with
  | some _ => (false,s)
  | none => (true,{ s with list := s.list.insert (s.uname c) c })

def delClient (s : CEngine) (name : String) : CEngine := { s with list := s.list.erase name }

def xmlRoomList (s : CEngine) : CXmlNode :=
  s.rooms.entries.foldl (fun nd e => nd.addChild e.2.toXml) (CXmlNode.create xmlTagRooms)

end CEngine

namespace CClient
open CXmlMsg

/-- An element with one parameter. -/
def bdmsg (tag paramName value : String) : CXmlNode :=
  addParameter (CXmlNode.create tag) paramName value

def genBdsAndNotis (s : CEngine) (c : CClientPtr) : CEngine :=
  s.modify c (fun cl => { cl with
    bder := some (cl.bder.getD CBroadCaster.create)
    notifier := some (cl.notifier.getD CNotifier.create) })

/-- The pending broadcaster, never null after `genBdsAndNotis`. -/
def theBder (s : CEngine) (c : CClientPtr) : CBroadCaster :=
  (s.clients c).bder.getD CBroadCaster.create

def theNotifier (s : CEngine) (c : CClientPtr) : CNotifier :=
  (s.clients c).notifier.getD CNotifier.create

def consumeBds (s : CEngine) (c : CClientPtr) : CEngine :=
  if (theBder s c).empty then s
  else (s.assign (.broadCaster (theBder s c))).modify c
    (fun cl => { cl with bder := some CBroadCaster.create })

def consumeNotis (s : CEngine) (c : CClientPtr) : CEngine :=
  if (theNotifier s c).empty then s
  else (s.assign (.notifier (theNotifier s c))).modify c
    (fun cl => { cl with notifier := some CNotifier.create })

def consumeBdsAndNotis (s : CEngine) (c : CClientPtr) : CEngine := consumeNotis (consumeBds s c) c

/-- A message is appended to a broadcaster that has recipients. -/
def announce (bd : CBroadCaster) (m : CXmlNode) : CBroadCaster :=
  if bd.empty then bd else bd.append m

def notify (noti : CNotifier) (m : CXmlNode) : CNotifier :=
  if noti.empty then noti else noti.append m

def leaveRoom (s : CEngine) (c : CClientPtr) : Checked CEngine := do
  let roomid := (s.clients c).roomid
  let some rm := s.findRoom roomid | throw .leaveRoomFound
  let left := rm.leave s.clients c (theBder s c)
  ASSERT .leaveRoomLeft left.1
  let bd := announce left.2.2 (bdmsg xmlTagBroadcastLeaveRoom xmlTagUserName (s.uname c))
  return (s.setRoom roomid left.2.1).modify c
    (fun cl => { cl with state := .stOnline, roomid := -1, bder := some bd })

/-- -1 for a wrong state, -2 for an unknown room, -3 for a full one. -/
def enterRoom (s : CEngine) (c : CClientPtr) (rid : ℤ) : CEngine × ℤ :=
  if (s.clients c).state ≠ .stOnline ∨ (s.clients c).ctsk = false then (s,-1)
  else
    match s.findRoom rid with
    | none => (s,-2)
    | some rm =>
      let entered := rm.enter s.clients c (theBder s c)
      if entered.1 then
        let bd := announce entered.2.2 (bdmsg xmlTagBroadcastEnterRoom xmlTagUserName (s.uname c))
        ((s.setRoom rid entered.2.1).modify c
          (fun cl => { cl with state := .stIdle, roomid := rid, bder := some bd }),0)
      else (s,-3)

def createSession (s : CEngine) (c : CClientPtr) (cfg : CSessionConfig) :
    Checked (CEngine × ℤ) := do
  let cl := s.clients c
  ASSERT .createSessionState (cl.state = .stIdle ∧ cl.ctsk ∧ cl.roomid > 0)
  let some rm := s.findRoom cl.roomid | throw .createSessionFound
  let made ← rm.createSession s.clients c cfg (theBder s c) s.idseed
  let ss := made.1
  let bd := announce made.2.2.1
    ((CXmlNode.create xmlTagBroadcastNewSession).addChild (ss.toXml s.uname))
  let s := { s.setRoom cl.roomid made.2.1 with idseed := made.2.2.2 }
  return (s.modify c
    (fun cl => { cl with state := .stSessional, sessionid := ss.id, bder := some bd }),0)

def leaveSession (s : CEngine) (c : CClientPtr) : Checked (CEngine × ℤ) := do
  let cl := s.clients c
  ASSERT .leaveSessionState (cl.ctsk ∧ cl.roomid > 0 ∧ cl.sessionid > 0)
  let some rm := s.findRoom cl.roomid | throw .leaveSessionFound
  let left ← rm.leaveSession s.clients cl.sessionid c (theNotifier s c) (theBder s c)
  let bd := announce left.2.2
    (addIntParameter (CXmlNode.create xmlTagBroadcastDelSession) xmlTagId cl.sessionid)
  let noti := notify left.2.1 (bdmsg xmlTagNotifyLeaveSession xmlTagUserName (s.uname c))
  return ((s.setRoom cl.roomid left.1).modify c
    (fun cl => { cl with
      state := .stIdle
      sessionid := -1
      bder := some bd
      notifier := some noti }),0)

def watchSession (s : CEngine) (c : CClientPtr) (sid : ℤ) : Checked (CEngine × ℤ) := do
  let cl := s.clients c
  ASSERT .watchSessionState (cl.ctsk ∧ cl.roomid > 0 ∧ cl.sessionid < 0)
  let some rm := s.findRoom cl.roomid | throw .watchSessionFound
  let watched := rm.watchSession sid c (theNotifier s c)
  if watched.1 < 0 then return (s,watched.1)
  else
    let noti := notify watched.2.2 (bdmsg xmlTagNotifyWatchSession xmlTagUserName (s.uname c))
    return ((s.setRoom cl.roomid watched.2.1).modify c
      (fun cl => { cl with state := .stWatching, sessionid := sid, notifier := some noti }),0)

def enterSession (s : CEngine) (c : CClientPtr) (sid : ℤ) : Checked (CEngine × ℤ) := do
  let cl := s.clients c
  ASSERT .enterSessionState (cl.ctsk ∧ cl.roomid > 0 ∧ cl.sessionid < 0)
  let some rm := s.findRoom cl.roomid | throw .enterSessionFound
  let entered := rm.enterSession sid c (theNotifier s c)
  if entered.1 < 0 then return (s,entered.1)
  else
    let noti := notify entered.2.2 (bdmsg xmlTagNotifyEnterSession xmlTagUserName (s.uname c))
    return ((s.setRoom cl.roomid entered.2.1).modify c
      (fun cl => { cl with state := .stSessional, sessionid := sid, notifier := some noti }),0)

end CClient
end CcniServer
