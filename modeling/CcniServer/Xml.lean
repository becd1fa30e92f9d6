import CcniServer.Lib.Scan

/-! XML trees as `CXmlNode` and `CXmlMsg` build and read them, and the element names of the
protocol. In a tree that is built a text node keeps the argument of `setContent`, which libxml2
reads as XML text: the tree that it then holds is `expanded`, where `e` stands for what it makes of
an argument. -/
namespace CcniServer

/-- A node of a document: an element with its children, a text node, or a node of any other
type (a comment, a processing instruction). -/
inductive CXmlNode
  | element (name : String) (children : List CXmlNode)
  | text (content : String)
  | other

namespace CXmlNode

def name : CXmlNode → String
  | element n _ => n
  | text _ => "text"
  | other => "comment"

def children : CXmlNode → List CXmlNode
  | element _ cs => cs
  | text _ => []
  | other => []

def isElement : CXmlNode → Bool
  | element _ _ => true
  | text _ => false
  | other => false

def isNamed (n : String) (nd : CXmlNode) : Bool := nd.isElement && nd.name == n

/-- The first element child of the name, nothing for the empty node. -/
def findChild (nd : Option CXmlNode) (n : String) : Option CXmlNode :=
  nd.bind (fun nd => nd.children.find? (isNamed n))

mutual
/-- `xmlNodeGetContent`: the text below a node, comments left out. -/
def content : CXmlNode → String
  | element _ cs => contents cs
  | text s => s
  | other => ""
def contents : List CXmlNode → String
  | [] => ""
  | c :: cs => c.content ++ contents cs
end

def getContent : Option CXmlNode → String
  | none => ""
  | some nd => nd.content

/-- The number `%d` reads at the head of the content, zero where it reads none. -/
def getIntContent (nd : Option CXmlNode) : ℤ := (Scan.scanInt (getContent nd)).getD 0

def create (n : String) : CXmlNode := element n []

def addChild (nd c : CXmlNode) : CXmlNode :=
  match nd with
  | element n cs => element n (cs ++ [c])
  | text s => text s
  | other => other

/-- `xmlAddPrevSibling` before the first child of the name, at the end where there is none. -/
def insertBefore (n : String) (dn : CXmlNode) (cs : List CXmlNode) : List CXmlNode :=
  cs.takeWhile (fun c => !isNamed n c) ++ dn :: cs.dropWhile (fun c => !isNamed n c)

theorem getIntContent_range (nd : Option CXmlNode) :
    -2^31 ≤ getIntContent nd ∧ getIntContent nd < 2^31 := by
  unfold getIntContent
  cases h : Scan.scanInt (getContent nd) with
  | none => norm_num
  | some n => exact Scan.scanInt_range h

end CXmlNode

/-! ### Element names -/

abbrev xmlTagRes := "Res"
abbrev xmlTagCCNI := "CCNI"
abbrev xmlTagCCNIRes := "CCNIRes"
abbrev xmlTagMyState := "MyState"
abbrev xmlTagMyStateRes := "MyStateRes"
abbrev xmlTagLogin := "Login"
abbrev xmlTagLoginRes := "LoginRes"
abbrev xmlTagLogout := "Logout"
abbrev xmlTagLogoutRes := "LogoutRes"
abbrev xmlTagEnterRoom := "EnterRoom"
abbrev xmlTagEnterRoomRes := "EnterRoomRes"
abbrev xmlTagBroadcastEnterRoom := "BroadcastEnterRoom"
abbrev xmlTagLeaveRoom := "LeaveRoom"
abbrev xmlTagLeaveRoomRes := "LeaveRoomRes"
abbrev xmlTagBroadcastLeaveRoom := "BroadcastLeaveRoom"
abbrev xmlTagNewSession := "NewSession"
abbrev xmlTagNewSessionRes := "NewSessionRes"
abbrev xmlTagBroadcastNewSession := "BroadcastNewSession"
abbrev xmlTagBroadcastDelSession := "BroadcastDelSession"
abbrev xmlTagEnterSession := "EnterSession"
abbrev xmlTagEnterSessionRes := "EnterSessionRes"
abbrev xmlTagNotifyEnterSession := "NotifyEnterSession"
abbrev xmlTagWatchSession := "WatchSession"
abbrev xmlTagNotifyWatchSession := "NotifyWatchSession"
abbrev xmlTagReady := "Ready"
abbrev xmlTagReadyRes := "ReadyRes"
abbrev xmlTagNotifyReady := "NotifyReady"
abbrev xmlTagNotifyStartGame := "NotifyStartGame"
abbrev xmlTagMove := "Move"
abbrev xmlTagDraw := "Draw"
abbrev xmlTagGiveUp := "GiveUp"
abbrev xmlTagLeaveSession := "LeaveSession"
abbrev xmlTagLeaveSessionRes := "LeaveSessionRes"
abbrev xmlTagNotifyLeaveSession := "NotifyLeaveSession"
abbrev xmlTagListRooms := "ListRooms"
abbrev xmlTagListRoomsRes := "ListRoomsRes"
abbrev xmlTagListSessions := "ListSessions"
abbrev xmlTagListSessionsRes := "ListSessionsRes"
abbrev xmlTagSendMessage := "SendMessage"
abbrev xmlTagUnknowMessage := "UnknowMessage"
abbrev xmlTagReturnCode := "ReturnCode"
abbrev xmlTagReturnInfo := "ReturnInfo"
abbrev xmlTagDescription := "Description"
abbrev xmlTagUserName := "UserName"
abbrev xmlTagPassword := "Password"
abbrev xmlTagState := "State"
abbrev xmlTagId := "Id"
abbrev xmlTagSessions := "Sessions"
abbrev xmlTagSession := "Session"
abbrev xmlTagFen := "Fen"
abbrev xmlTagRed := "Red"
abbrev xmlTagInnings := "Innings"
abbrev xmlTagRule := "Rule"
abbrev xmlTagTotalTime := "TotalTime"
abbrev xmlTagStepTime := "StepTime"
abbrev xmlTagBonusPerStep := "BonusPerStep"
abbrev xmlTagRequiredScore := "RequiredScore"
abbrev xmlTagAnte := "Ante"
abbrev xmlTagMaxWatcherCount := "MaxWatcherCount"
abbrev xmlTagOwner := "Owner"
abbrev xmlTagOpponent := "Opponent"
abbrev xmlTagWatchers := "Watchers"
abbrev xmlTagServerInformation := "ServerInformation"
abbrev xmlTagServerType := "ServerType"
abbrev xmlTagServerVersion := "ServerVersion"
abbrev xmlTagCCNIVersion := "CCNIVersion"
abbrev xmlTagRooms := "Rooms"
abbrev xmlTagRoom := "Room"
abbrev xmlTagCapacity := "Capacity"
abbrev xmlTagUserCount := "UserCount"
abbrev xmlTagMoving := "Moving"
abbrev xmlTagPondering := "Pondering"

namespace CXmlMsg
open CXmlNode

/-- `addParameter(paramName, value)`: a new element goes in front of the description. What becomes
of the references in the value is seen in `expanded`. -/
def addParameter (nd : CXmlNode) (paramName value : String) : CXmlNode :=
  match nd with
  | element n cs => element n (insertBefore xmlTagDescription (element paramName [text value]) cs)
  | text s => text s
  | other => other

/-- The overload for integers prints with `%d`. -/
def addIntParameter (nd : CXmlNode) (paramName : String) (value : ℤ) : CXmlNode :=
  addParameter nd paramName (toString value)

end CXmlMsg

/-! ### Trees after `setContent` -/

def expandText (e : List Char → List Char) (s : String) : String := String.ofList (e s.toList)

mutual
/-- The tree with the texts that libxml2 makes of the arguments of `setContent`. -/
def CXmlNode.expanded (e : List Char → List Char) : CXmlNode → CXmlNode
  | .element n cs => .element n (CXmlNode.expandeds e cs)
  | .text s => .text (expandText e s)
  | .other => .other
def CXmlNode.expandeds (e : List Char → List Char) : List CXmlNode → List CXmlNode
  | [] => []
  | c :: cs => c.expanded e :: CXmlNode.expandeds e cs
end

section
variable (e : List Char → List Char)

theorem expandText_eq_iff {s : String} : expandText e s = s ↔ e s.toList = s.toList := by
  rw [expandText,← String.toList_inj,String.toList_ofList]

theorem expandeds_eq_map (cs : List CXmlNode) :
    CXmlNode.expandeds e cs = cs.map (CXmlNode.expanded e) := by
  induction cs with
  | nil => rfl
  | cons c cs ih => rw [CXmlNode.expandeds,ih,List.map_cons]

theorem isNamed_expanded (n : String) (nd : CXmlNode) :
    CXmlNode.isNamed n (nd.expanded e) = CXmlNode.isNamed n nd := by
  cases nd <;> rfl

theorem expanded_addParameter (nd : CXmlNode) (n v : String) :
    (CXmlMsg.addParameter nd n v).expanded e =
      CXmlMsg.addParameter (nd.expanded e) n (expandText e v) := by
  cases nd with
  | element m cs =>
    have hcomp : (fun c => !CXmlNode.isNamed xmlTagDescription c) ∘ CXmlNode.expanded e =
        fun c => !CXmlNode.isNamed xmlTagDescription c := by
      funext c
      exact congrArg _ (isNamed_expanded e xmlTagDescription c)
    simp only [CXmlMsg.addParameter,CXmlNode.expanded,expandeds_eq_map,CXmlNode.insertBefore,
      List.map_append,List.map_cons,List.map_nil,List.takeWhile_map,List.dropWhile_map,hcomp]
  | text s => rfl
  | other => rfl

end
end CcniServer
