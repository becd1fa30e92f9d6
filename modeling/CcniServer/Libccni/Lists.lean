import CcniServer.Libccni.Outcomes

/-!
The lists of rooms and sessions: what `listrooms` and `listsessions` read in the documents that the
handlers build.
-/
namespace CcniServer
open CXmlMsg

/-! ### The library's side -/

/-- `CCNIConnection::CRoom`. -/
structure CCNIConnection.CRoom where
  id : ℤ
  des : String
  capacity : ℤ
  usrcount : ℤ

namespace CCNIConnection

/-- One room of the list. -/
def roomOf (nd : CXmlNode) : CCNIConnection.CRoom where
  id := CXmlNode.getIntContent (CXmlNode.findChild (some nd) xmlTagId)
  des := CXmlNode.getContent (CXmlNode.findChild (some nd) xmlTagDescription)
  capacity := CXmlNode.getIntContent (CXmlNode.findChild (some nd) xmlTagCapacity)
  usrcount := CXmlNode.getIntContent (CXmlNode.findChild (some nd) xmlTagUserCount)

/-- The list `listrooms` fills, given the document that came in; nothing for a failure. -/
def listrooms (res : Option CXmlNode) : Option (List CCNIConnection.CRoom) :=
  (Method.listrooms.talkToServer res).map (fun res =>
    let rooms := CXmlNode.findChild (CXmlNode.findChild (some res) xmlTagListRoomsRes) xmlTagRooms
    ((rooms.elim [] CXmlNode.children).filter (CXmlNode.isNamed xmlTagRoom)).map roomOf)

/-- What `listsessions` returns. -/
def listsessions (res : Option CXmlNode) : ℤ :=
  Method.listsessions.result (Method.listsessions.talkToServer res)

end CCNIConnection

/-! ### The server's side -/

/-- A parameter with a number. -/
def intNode (n : String) (i : ℤ) : CXmlNode := .element n [.text (toString i)]

theorem CRoom.toXml_eq (rm : CRoom) : rm.toXml = .element xmlTagRoom
    [intNode xmlTagCapacity rm.cfg.capacity,intNode xmlTagId rm.cfg.id,
     intNode xmlTagUserCount rm.usrlist.size,
     .element xmlTagDescription [.text rm.cfg.description]] := rfl

theorem foldl_addChild {α : Type} (f : α → CXmlNode) (n : String) (cs : List CXmlNode)
    (l : List α) : l.foldl (fun nd a => CXmlNode.addChild nd (f a)) (.element n cs) =
      .element n (cs ++ l.map f) := by
  induction l generalizing cs with
  | nil => rw [List.map_nil,List.append_nil]; rfl
  | cons a l ih =>
    rw [List.foldl_cons,CXmlNode.addChild,ih,List.map_cons,List.append_assoc]
    rfl

theorem CEngine.xmlRoomList_eq (s : CEngine) :
    s.xmlRoomList = .element xmlTagRooms (s.rooms.entries.map fun e => e.2.toXml) :=
  foldl_addChild (fun e : ℤ × CRoom => e.2.toXml) _ [] _

theorem CRoom.xmlSessionList_eq (rm : CRoom) (uname : CClientPtr → String) :
    rm.xmlSessionList uname =
      .element xmlTagSessions (rm.sessions.entries.map fun e => e.2.toXml uname) :=
  foldl_addChild (fun e : ℕ × CSession => e.2.toXml uname) _ [] _

/-- A session's element has its name, whoever has a seat. -/
theorem CSession.toXml_eq (ss : CSession) (uname : CClientPtr → String) :
    ∃ cs, ss.toXml uname = .element xmlTagSession cs := by
  unfold CSession.toXml
  cases ss.owner <;> cases ss.opponent <;> exact ⟨_,rfl⟩

/-! ### From one side to the other -/

theorem findInt_range {d d' : CXmlNode} {n : String} {i : ℤ} (hi : -2^31 ≤ i ∧ i < 2^31)
    (h : Reread d d') (hfound : CXmlNode.findChild (some d) n = some (intNode n i)) :
    CXmlNode.getIntContent (CXmlNode.findChild (some d') n) = i := by
  rw [h.findInt hfound,Scan.scanInt_toString hi,Option.getD_some]

/-- The numbers of a room. -/
theorem roomOf_reread {rm : CRoom} {nd : CXmlNode} (hcap : rm.cfg.capacity < 2^31)
    (h : Reread rm.toXml nd) :
    (CCNIConnection.roomOf nd).id = rm.cfg.id ∧
    (CCNIConnection.roomOf nd).capacity = rm.cfg.capacity ∧
    (CCNIConnection.roomOf nd).usrcount = rm.usrlist.size := by
  have hid := rm.cfg.id_lt
  have hcount := rm.usrlist_le
  have hfind : ∀ n i, CXmlNode.findChild (some rm.toXml) n = some (intNode n i) →
      -2^31 ≤ i ∧ i < 2^31 → CXmlNode.getIntContent (CXmlNode.findChild (some nd) n) = i :=
    fun n i hfound hi => findInt_range hi h hfound
  refine ⟨hfind _ _ ?_ (by omega),hfind _ _ ?_ (by omega),hfind _ _ ?_ (by omega)⟩
  · rfl
  · rfl
  · rfl

/-- An answer with a list that the library recognises. -/
theorem listRes_reread {m : CCNIConnection.Method} {n : String} {cs : List CXmlNode}
    {doc : CXmlNode} (hread : Reread (document [CClient.listRes (m.tag ++ xmlTagRes)
      (.element n cs)]) doc) (hn : n ≠ xmlTagReturnCode) :
    m.talkToServer (some doc) = some doc ∧
    ∃ nd, CXmlNode.findChild (CXmlNode.findChild (some doc) (m.tag ++ xmlTagRes)) n = some nd ∧
      Reread (.element n cs) nd := by
  have hres : CXmlNode.findChild (some (document [CClient.listRes (m.tag ++ xmlTagRes)
      (.element n cs)])) (m.tag ++ xmlTagRes) =
      some (CClient.listRes (m.tag ++ xmlTagRes) (.element n cs)) := by
    simp [CXmlNode.findChild,document,CXmlNode.children,CClient.listRes,CXmlNode.create,
      addIntParameter,addParameter,CXmlNode.insertBefore,CXmlNode.addChild,CXmlNode.isNamed,
      CXmlNode.isElement,CXmlNode.name]
  obtain ⟨res,hfound,hresread⟩ := hread.findSome hres
  have hcode : CXmlNode.getIntContent (CXmlNode.findChild (some res) xmlTagReturnCode) = 0 :=
    findInt_range (by decide) hresread rfl
  have hlist : CXmlNode.findChild (some (CClient.listRes (m.tag ++ xmlTagRes) (.element n cs))) n =
      some (.element n cs) := by
    simp [CXmlNode.findChild,CXmlNode.children,CClient.listRes,CXmlNode.create,
      addIntParameter,addParameter,CXmlNode.insertBefore,CXmlNode.addChild,CXmlNode.isNamed,
      CXmlNode.isElement,CXmlNode.name,Ne.symm hn]
  obtain ⟨nd,hnd,hndread⟩ := hresread.findSome hlist
  refine ⟨?_,nd,by rw [hfound,hnd],hndread⟩
  have hrec : CCNIConnection.Recognised m.tag doc := ⟨res,hfound,hcode⟩
  simp [CCNIConnection.Method.talkToServer,hrec]

/-- What a list tells of a room. -/
def CCNIConnection.CRoom.numbers (r : CCNIConnection.CRoom) : ℤ × ℤ × ℤ :=
  (r.id,r.capacity,r.usrcount)

def CRoom.numbers (rm : CRoom) : ℤ × ℤ × ℤ := (rm.cfg.id,rm.cfg.capacity,rm.usrlist.size)

theorem numbers_listed {l : List (ℤ × CRoom)} {nds : List CXmlNode}
    (hcap : ∀ e ∈ l, e.2.cfg.capacity < 2^31)
    (h : List.Forall₂ (fun e nd => Reread e.2.toXml nd) l nds) :
    (nds.map CCNIConnection.roomOf).map CCNIConnection.CRoom.numbers =
      l.map (fun e => e.2.numbers) := by
  induction h with
  | nil => rfl
  | @cons e nd l nds hread _ ih =>
    obtain ⟨hid,hcapacity,hcount⟩ := roomOf_reread (hcap e List.mem_cons_self) hread
    have hrest := ih fun e he => hcap e (List.mem_cons_of_mem _ he)
    rw [List.map_cons,List.map_cons,hrest,List.map_cons]
    simp only [CCNIConnection.CRoom.numbers,CRoom.numbers,hid,hcapacity,hcount]

/-- The rooms that `listrooms` reads are those of the server, in the order of their ids. -/
theorem listrooms_eq {s : CEngine} {doc : CXmlNode}
    (hids : ∀ e ∈ s.rooms.entries, (e.2.cfg.id : ℤ) = e.1)
    (hcap : ∀ e ∈ s.rooms.entries, e.2.cfg.capacity < 2^31)
    (hread : Reread (document [CClient.listRes xmlTagListRoomsRes s.xmlRoomList]) doc) :
    ∃ lst, CCNIConnection.listrooms (some doc) = some lst ∧
      lst.map CCNIConnection.CRoom.numbers = s.rooms.entries.map (fun e => e.2.numbers) ∧
      (lst.map CCNIConnection.CRoom.id).Pairwise (· < ·) := by
  rw [CEngine.xmlRoomList_eq] at hread
  obtain ⟨hrec,nd,hnd,hndread⟩ := listRes_reread (m := .listrooms) hread (by decide)
  have hrooms := hndread.listed (fun e : ℤ × CRoom => ⟨_,CRoom.toXml_eq e.2⟩)
  have hnumbers := numbers_listed hcap hrooms
  refine ⟨(nd.children.filter (CXmlNode.isNamed xmlTagRoom)).map CCNIConnection.roomOf,?_,
    hnumbers,?_⟩
  · have hlist : CXmlNode.findChild (CXmlNode.findChild (some doc) xmlTagListRoomsRes)
        xmlTagRooms = some nd := hnd
    rw [CCNIConnection.listrooms,hrec]
    simp only [Option.map_some,hlist,Option.elim_some]
  · have hfst := congrArg (List.map Prod.fst) hnumbers
    simp only [List.map_map] at hfst
    have hkeys : s.rooms.entries.map (Prod.fst ∘ fun e => e.2.numbers) =
        s.rooms.entries.map Prod.fst := List.map_congr_left hids
    rw [List.map_map]
    refine Eq.mpr (congrArg (List.Pairwise (· < ·)) (hfst.trans hkeys)) ?_
    exact s.rooms.sorted.pairwise

/-- The number that `listsessions` returns is that of the room's sessions. -/
theorem listsessions_eq {rm : CRoom} {uname : CClientPtr → String} {doc : CXmlNode}
    (hread : Reread (document [CClient.listRes xmlTagListSessionsRes (rm.xmlSessionList uname)])
      doc) : CCNIConnection.listsessions (some doc) = rm.sessions.size := by
  rw [CRoom.xmlSessionList_eq] at hread
  obtain ⟨hrec,nd,hnd,hndread⟩ := listRes_reread (m := .listsessions) hread (by decide)
  have hsessions := hndread.listed (fun e : ℕ × CSession => e.2.toXml_eq uname)
  have hlist : CXmlNode.findChild (CXmlNode.findChild (some doc) xmlTagListSessionsRes)
      xmlTagSessions = some nd := hnd
  rw [CCNIConnection.listsessions,hrec]
  simp only [CCNIConnection.Method.result,CCNIConnection.Method.countChildren,hlist,
    Option.elim_some,List.countP_eq_length_filter,OrdMap.size,hsessions.length_eq]

/-- The two lists come back: one entry a room, in the order of the ids, and the number of the
sessions of the client's room. -/
theorem lists_read_back (s : CEngine) (c : CClientPtr)
    (hids : ∀ e ∈ s.rooms.entries, (e.2.cfg.id : ℤ) = e.1)
    (hcap : ∀ e ∈ s.rooms.entries, e.2.cfg.capacity < 2^31) :
    (∀ doc, Reread (document ((CClient.doListRooms (CClient.createRes s c) c).1.clients c).resmsg)
        doc → ∃ lst, CCNIConnection.listrooms (some doc) = some lst ∧
      lst.map CCNIConnection.CRoom.numbers = s.rooms.entries.map (fun e => e.2.numbers) ∧
      (lst.map CCNIConnection.CRoom.id).Pairwise (· < ·)) ∧
    ∀ res rm doc, CClient.doListSessions (CClient.createRes s c) c = .ok res →
      s.findRoom (s.clients c).roomid = some rm →
      Reread (document (res.1.clients c).resmsg) doc →
      CCNIConnection.listsessions (some doc) = rm.sessions.size := by
  constructor
  · intro doc hread
    have hresmsg : ((CClient.doListRooms (CClient.createRes s c) c).1.clients c).resmsg =
        [CClient.listRes xmlTagListRoomsRes s.xmlRoomList] := by
      rw [CClient.doListRooms,CEngine.clients_appendmsg,resmsg_createRes]
      rfl
    rw [hresmsg] at hread
    exact listrooms_eq hids hcap hread
  · intro res rm doc hres hrm hread
    have hans := (CClient.doListSessions_answered hres).2
    have hroom : (CClient.createRes s c).findRoom ((CClient.createRes s c).clients c).roomid =
        some rm := by
      rw [CClient.createRes,CEngine.clients_modify]
      exact hrm
    have hresmsg := hans.resmsg
    rw [resmsg_createRes] at hresmsg
    simp only [CClient.Msghnd.answer,hroom] at hresmsg
    rw [hresmsg] at hread
    exact listsessions_eq hread

/-- Bob asks for both lists, in texts with line breaks, while alice sits in a session of hers. -/
theorem lists_read_back_two : ∃ s res rm lst,
    (CEngine.create [CEngine.room1,⟨2,5,"Room002",by decide,by decide⟩]).run
      (CEngine.arrive 1 "alice" ++ CEngine.arrive 2 "bob" ++
        [.request 1 (CEngine.requestOf xmlTagNewSession "")]) = .ok s ∧
    CClient.doListSessions (CClient.createRes s 2) 2 = .ok res ∧
    s.findRoom (s.clients 2).roomid = some rm ∧ rm.sessions.size = 1 ∧
    CCNIConnection.listrooms (some (laid 0 (document
      ((CClient.doListRooms (CClient.createRes s 2) 2).1.clients 2).resmsg))) = some lst ∧
    lst.map CCNIConnection.CRoom.numbers = [(1,10,2),(2,5,0)] ∧
    CCNIConnection.listsessions (some (laid 0 (document (res.1.clients 2).resmsg))) = 1 := by
  obtain ⟨s,res,rm,hrun,hres,hrm,hsize,hnumbers,hrooms⟩ : ∃ s res rm,
      (CEngine.create [CEngine.room1,⟨2,5,"Room002",by decide,by decide⟩]).run
        (CEngine.arrive 1 "alice" ++ CEngine.arrive 2 "bob" ++
          [.request 1 (CEngine.requestOf xmlTagNewSession "")]) = .ok s ∧
      CClient.doListSessions (CClient.createRes s 2) 2 = .ok res ∧
      s.findRoom (s.clients 2).roomid = some rm ∧ rm.sessions.size = 1 ∧
      s.rooms.entries.map (fun e => e.2.numbers) = [(1,10,2),(2,5,0)] ∧
      s.rooms.entries.map (fun e => (e.1,e.2.cfg.id,e.2.cfg.capacity)) = [(1,1,10),(2,2,5)] :=
    ⟨_,_,_,rfl,rfl,rfl,rfl,rfl,rfl⟩
  have hentry : ∀ e ∈ s.rooms.entries, (e.2.cfg.id : ℤ) = e.1 ∧ e.2.cfg.capacity < 2^31 := by
    intro e he
    have hmem : (e.1,e.2.cfg.id,e.2.cfg.capacity) ∈ [((1 : ℤ),1,10),(2,2,5)] :=
      hrooms ▸ List.mem_map_of_mem he
    simp only [List.mem_cons,Prod.mk.injEq,List.not_mem_nil,or_false] at hmem
    omega
  obtain ⟨hlist,hsessions⟩ := lists_read_back s 2 (fun e he => (hentry e he).1)
    (fun e he => (hentry e he).2)
  obtain ⟨lst,hlst,hread,-⟩ := hlist _ (returned_laid 0 _ rfl).reread
  exact ⟨s,res,rm,lst,hrun,hres,hrm,hsize,hlst,hread.trans hnumbers,
    (hsessions res rm _ hres hrm (returned_laid 0 _ rfl).reread).trans (congrArg Nat.cast hsize)⟩

end CcniServer
