import CcniServer.Config.Config
import CcniServer.Libccni.Lists

/-!
Missing nodes: the documents that a configuration file, a request or a reply can be, and the null
pointers that the code which reads them would dereference.
-/
namespace CcniServer

/-! ### Requests -/

namespace CXmlDoc

/-- What `parse` asks of a document. -/
def accepts (doc : CXmlDoc) : Derefs Bool := do
  return (← doc.getRoot.name) = xmlTagCCNIMessages

def getfirst (doc : CXmlDoc) : Derefs CXmlNodePtr := doc.getRoot.child

def getmsg (doc : CXmlDoc) (msgname : String) : CXmlNodePtr := doc.getRoot.findChild msgname

end CXmlDoc

/-- The loop of `procMsgs` over the messages. -/
def CClient.procNodes (s : CEngine) (c : CClientPtr) : CXmlNodePtr → Derefs (Checked CEngine)
  | [] => .ok (.ok s)
  | msg :: msgs => do
    if (← CXmlNodePtr.type (msg :: msgs)) ≠ .XML_ELEMENT_NODE then procNodes s c msgs
    else
      let _label ← CXmlNodePtr.name (msg :: msgs)
      match procMsg s c msg with
      | .error site => return .error site
      | .ok (s,true) => procNodes s c msgs
      | .ok (s,false) => return .ok s

def CClient.procDoc (s : CEngine) (c : CClientPtr) (doc : CXmlDoc) : Derefs (Checked CEngine) := do
  let msg ← doc.getfirst
  procNodes s c msg

/-- The loop is the one over the messages themselves. -/
theorem CClient.procNodes_eq (s : CEngine) (c : CClientPtr) (msgs : List CXmlNode) :
    procNodes s c msgs = .ok (procMsgs s c msgs) := by
  induction msgs generalizing s with
  | nil => rfl
  | cons msg msgs ih =>
    cases msg with
    | element n cs =>
      change (match procMsg s c (.element n cs) with
        | .error site => .ok (.error site)
        | .ok (s,true) => procNodes s c msgs
        | .ok (s,false) => .ok (.ok s) : Derefs (Checked CEngine)) = _
      rw [procMsgs]
      cases hmsg : procMsg s c (.element n cs) with
      | error site => rfl
      | ok res =>
        obtain ⟨t,more⟩ := res
        cases more with
        | true => exact ih t
        | false => rfl
    | text content => exact ih s
    | other => exact ih s

/-- What `doLogin` reads: nothing without a login message. -/
def CTcpJob.doLogin (doc : CXmlDoc) : Derefs (Option (String × String)) :=
  let msglogin := doc.getmsg xmlTagLogin
  if msglogin.isEmpty then .ok none
  else .ok (some ((msglogin.findChild xmlTagUserName).getContent,
    (msglogin.findChild xmlTagPassword).getContent))

/-! ### Replies -/

namespace CCNIConnection

/-- A reply that `talkToServer` hands to a method. -/
def Accepted (m : Method) (doc : CXmlDoc) : Prop :=
  doc.accepts = .ok true ∧ Recognised m.tag doc.root

/-- The rooms that `listrooms` finds. -/
def readRooms (doc : CXmlDoc) : Derefs (List CCNIConnection.CRoom) := do
  let rooms := (doc.getRoot.findChild xmlTagListRoomsRes).findChild xmlTagRooms
  let nd ← rooms.child
  CXmlNodePtr.each (CXmlNodePtr.ifNamed xmlTagRoom (fun lst nd => lst ++ [roomOf nd])) [] nd

/-- The sessions that `listsessions` counts. -/
def readSessions (doc : CXmlDoc) : Derefs ℤ := do
  let msg := (doc.getRoot.findChild xmlTagListSessionsRes).findChild xmlTagSessions
  let nd ← msg.child
  CXmlNodePtr.each (CXmlNodePtr.ifNamed xmlTagSession (fun c _ => c + 1)) 0 nd

def readState (doc : CXmlDoc) : Derefs ℤ :=
  .ok (Method.stateOf ((doc.getRoot.findChild xmlTagMyStateRes).findChild xmlTagState).getContent)

/-- The node that `ccni` prints. -/
def readCCNI (doc : CXmlDoc) : Derefs CXmlNodePtr :=
  .ok ((doc.getRoot.findChild xmlTagCCNIRes).findChild xmlTagServerInformation)

/-- A list in a reply. -/
theorem findChild_findChild (doc : CXmlDoc) (res tag : String) :
    (doc.getRoot.findChild res).findChild tag ≠ [] ↔
      (CXmlNode.findChild (CXmlNode.findChild (some doc.root) res) tag).isSome := by
  rw [CXmlNodePtr.findChild_ne_nil,CXmlNodePtr.head?_findChild]
  rfl

theorem readRooms_ok_iff (doc : CXmlDoc) : (∃ lst, readRooms doc = .ok lst) ↔
    (CXmlNode.findChild (CXmlNode.findChild (some doc.root) xmlTagListRoomsRes)
      xmlTagRooms).isSome :=
  (CXmlNodePtr.child_each_ok_iff _ _ _ _).trans (findChild_findChild doc _ _)

theorem readSessions_ok_iff (doc : CXmlDoc) : (∃ c, readSessions doc = .ok c) ↔
    (CXmlNode.findChild (CXmlNode.findChild (some doc.root) xmlTagListSessionsRes)
      xmlTagSessions).isSome :=
  (CXmlNodePtr.child_each_ok_iff _ _ _ _).trans (findChild_findChild doc _ _)

/-- Where there is a list, `listrooms` fills in its rooms. -/
theorem readRooms_listrooms {doc : CXmlDoc} (haccepted : Accepted .listrooms doc)
    {lst : List CCNIConnection.CRoom} (h : readRooms doc = .ok lst) :
    listrooms (some doc.root) = some lst := by
  have hroot : Method.listrooms.talkToServer (some doc.root) = some doc.root :=
    Option.filter_some_pos (decide_eq_true haccepted.2)
  have hhead := (CXmlNodePtr.head?_findChild (doc.getRoot.findChild xmlTagListRoomsRes)
    xmlTagRooms).trans (congrArg (CXmlNode.findChild · xmlTagRooms)
      (CXmlNodePtr.head?_findChild doc.getRoot xmlTagListRoomsRes))
  have hsame : readRooms doc = (CXmlNode.findChild (CXmlNode.findChild (some doc.root)
      xmlTagListRoomsRes) xmlTagRooms).elim (.error .child) (fun n => .ok
        ((n.children.filter (CXmlNode.isNamed xmlTagRoom)).foldl
          (fun lst nd => lst ++ [roomOf nd]) [])) := hhead ▸ CXmlNodePtr.child_each _ _ _ _
  rw [h] at hsame
  rw [listrooms,hroot,Option.map_some]
  cases hfound : CXmlNode.findChild (CXmlNode.findChild (some doc.root) xmlTagListRoomsRes)
      xmlTagRooms with
  | none =>
    rw [hfound] at hsame
    cases hsame
  | some rooms =>
    rw [hfound] at hsame
    rw [Except.ok.inj hsame,List.foldl_append_eq_append,List.nil_append,← List.flatMap_def]
    exact congrArg some List.map_eq_flatMap

end CCNIConnection

/-- No method dereferences a null pointer, whatever it is given the document as. -/
structure CXmlDoc.Safe (doc : CXmlDoc) : Prop where
  config : ∀ executable_path, ∃ cfg, CConfig.create executable_path doc = .ok cfg
  parse : ∃ accepted, doc.accepts = .ok accepted
  procMsgs : doc.accepts = .ok true → ∀ s c, ∃ t, CClient.procDoc s c doc = .ok t
  doLogin : doc.accepts = .ok true → ∃ account, CTcpJob.doLogin doc = .ok account
  listrooms : CCNIConnection.Accepted .listrooms doc → ∃ lst, CCNIConnection.readRooms doc = .ok lst
  listsessions : CCNIConnection.Accepted .listsessions doc →
    ∃ c, CCNIConnection.readSessions doc = .ok c
  state : CCNIConnection.Accepted .state doc → ∃ st, CCNIConnection.readState doc = .ok st
  ccni : CCNIConnection.Accepted .ccni doc → ∃ nd, CCNIConnection.readCCNI doc = .ok nd

/-- Given a document, no method dereferences a null pointer exactly when a configuration has its
rooms and an accepted list of rooms or sessions has the list. -/
theorem safe_iff (doc : CXmlDoc) : doc.Safe ↔
    (doc.root.name = xmlCCNIServerConfiguration →
      (CXmlNode.findChild (some doc.root) xmlHallConfig).isSome) ∧
    (CCNIConnection.Accepted .listrooms doc →
      (CXmlNode.findChild (CXmlNode.findChild (some doc.root) xmlTagListRoomsRes)
        xmlTagRooms).isSome) ∧
    (CCNIConnection.Accepted .listsessions doc →
      (CXmlNode.findChild (CXmlNode.findChild (some doc.root) xmlTagListSessionsRes)
        xmlTagSessions).isSome) := by
  constructor
  · intro h
    refine ⟨(CConfig.create_ok_iff "/" doc).mp (h.config "/"),fun ha => ?_,fun ha => ?_⟩
    · exact (CCNIConnection.readRooms_ok_iff doc).mp (h.listrooms ha)
    · exact (CCNIConnection.readSessions_ok_iff doc).mp (h.listsessions ha)
  · rintro ⟨hconfig,hrooms,hsessions⟩
    refine ⟨fun path => ?_,⟨_,rfl⟩,fun _ s c => ?_,fun _ => ?_,fun ha => ?_,fun ha => ?_,
      fun _ => ⟨_,rfl⟩,fun _ => ⟨_,rfl⟩⟩
    · exact (CConfig.create_ok_iff path doc).mpr hconfig
    · exact ⟨_,CClient.procNodes_eq s c doc.root.children⟩
    · unfold CTcpJob.doLogin
      dsimp only
      split_ifs <;> exact ⟨_,rfl⟩
    · exact (CCNIConnection.readRooms_ok_iff doc).mpr (hrooms ha)
    · exact (CCNIConnection.readSessions_ok_iff doc).mpr (hsessions ha)

/-- A configuration without rooms. -/
theorem missing_hall : ¬ CXmlDoc.Safe ⟨.element xmlCCNIServerConfiguration [],[],rfl⟩ := by
  intro h
  obtain ⟨cfg,hcfg⟩ := h.config "/"
  cases hcfg

end CcniServer
