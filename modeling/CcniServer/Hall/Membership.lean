import CcniServer.Hall.Preservation

/-!
Rooms and sessions have no phantom members: at every state of a run, the user lists, the seats
and the registry name exactly the clients whose own fields say so.
-/
namespace CcniServer
namespace CEngine

/-- A session is live in a room. -/
structure Live (s : CEngine) (r : ℤ) (rm : CRoom) (k : ℕ) (ss : CSession) : Prop where
  room : s.findRoom r = some rm
  session : rm.sessions.find? k = some ss

/-- A request with one argument. -/
def requestOf (tag id : String) : CXmlNode := .element tag [.element xmlTagId [.text id]]

/-- A room of ten, and a client that logs in and enters it. -/
def room1 : CRoomConfig := ⟨1,10,"Room001",Nat.one_pos,CRoomConfig.one_lt⟩

def arrive (c : CClientPtr) (uname : String) : List Event :=
  [.login c 0 ⟨0,0⟩ uname,.request c (requestOf xmlTagEnterRoom "1")]

variable {cfgs : List CRoomConfig} {es : List Event} {s : CEngine}

theorem Live.ok {r : ℤ} {rm : CRoom} {k : ℕ} {ss : CSession} (h : s.Live r rm k ss)
    (hrun : (create cfgs).run es = .ok s) : ss.Ok s.hall.member r k :=
  (Hall.ok_of_run hrun).session r rm h.room k ss h.session

/-- A live session is stored under its id and has a member. Each member is a registered user of
the room that names the room and the session, and its only seat in all live sessions is one
seat of this one. -/
theorem session_members (hrun : (create cfgs).run es = .ok s) {r : ℤ} {rm : CRoom} {k : ℕ}
    {ss : CSession} (hlive : s.Live r rm k ss) :
    ss.id = k ∧ ss.members ≠ [] ∧ ∀ c ∈ ss.members,
      s.list.find? (s.uname c) = some c ∧ c ∈ rm.usrlist ∧
      (s.clients c).sessionid = ss.id ∧ (s.clients c).roomid = rm.cfg.id ∧
      ss.members.count c = 1 ∧
      ∀ r' rm' k' ss', s.Live r' rm' k' ss' → c ∈ ss'.members → r' = r ∧ k' = k := by
  have ok := Hall.ok_of_run hrun
  have hok := hlive.ok hrun
  refine ⟨hok.id,hok.members_ne,?_⟩
  intro c hc
  have hroom : (s.clients c).roomid = r := hok.roomid c hc
  have hsid : (s.clients c).sessionid = k := hok.sessionid c hc
  have hpos : 0 < (s.clients c).sessionid := by
    rw [hsid]
    exact Int.natCast_pos.mpr hok.key.1
  have htsk := (ok.member c).ctsk_of_sessionid hpos
  refine ⟨(ok.registered _ c).mpr ⟨htsk,rfl⟩,(ok.user r rm hlive.room c).mpr hroom,?_,?_,?_,?_⟩
  · rw [hsid,hok.id]
  · rw [hroom,ok.room r rm hlive.room]
  · exact List.count_eq_one_of_mem hok.nodup hc
  · intro r' rm' k' ss' hlive' hc'
    have hok' := hlive'.ok hrun
    have hr' : (s.clients c).roomid = r' := hok'.roomid c hc'
    have hk' : (s.clients c).sessionid = k' := hok'.sessionid c hc'
    exact ⟨hr'.symm.trans hroom,Int.natCast_inj.mp (hk'.symm.trans hsid)⟩

/-- A client in a session of its own. -/
theorem session_members_alone : ∃ s rm ss,
    (create [room1]).run (arrive 1 "alice" ++ [.request 1 (requestOf xmlTagNewSession "")]) =
      .ok s ∧ s.Live 1 rm 2 ss ∧ s.list.find? (s.uname 1) = some 1 ∧ 1 ∈ rm.usrlist := by
  obtain ⟨s,rm,ss,hrun,hlive,hmem⟩ : ∃ s rm ss,
      (create [room1]).run (arrive 1 "alice" ++ [.request 1 (requestOf xmlTagNewSession "")]) =
        .ok s ∧ s.Live 1 rm 2 ss ∧ ss.members = [1] := ⟨_,_,_,rfl,⟨rfl,rfl⟩,rfl⟩
  obtain ⟨-,-,hall⟩ := session_members hrun hlive
  obtain ⟨hreg,huser,-⟩ := hall 1 (by rw [hmem]; decide)
  exact ⟨s,rm,ss,hrun,hlive,hreg,huser⟩

/-- The two limits, and the two records of where a client is. -/
theorem room_members (hrun : (create cfgs).run es = .ok s) :
    (∀ r rm, s.findRoom r = some rm → rm.usrlist.size ≤ rm.cfg.capacity ∧
      ∀ k ss, rm.sessions.find? k = some ss → (ss.watchers.size : ℤ) ≤ ss.cfg.watcherCount) ∧
    ∀ c, (s.clients c).ctsk = true →
      (∀ r rm r' rm', s.findRoom r = some rm → s.findRoom r' = some rm' →
        c ∈ rm.usrlist → c ∈ rm'.usrlist → r = r') ∧
      (∀ r rm, s.findRoom r = some rm → (c ∈ rm.usrlist ↔ (s.clients c).roomid = rm.cfg.id)) ∧
      ((∃ r rm, s.findRoom r = some rm ∧ c ∈ rm.usrlist) ↔
        (s.clients c).state.isIn CClient.State.stInRoom = true) ∧
      ((s.clients c).roomid = -1 ↔ (s.clients c).state = .stOnline) := by
  have ok := Hall.ok_of_run hrun
  refine ⟨fun r rm _ => ⟨rm.usrlist_le,fun k ss _ => ss.watchers_le⟩,?_⟩
  intro c hc
  have hm : (s.clients c).member.Ok := ok.member c
  have huser : ∀ r rm, s.findRoom r = some rm → (c ∈ rm.usrlist ↔ (s.clients c).roomid = r) :=
    fun r rm hrm => ok.user r rm hrm c
  refine ⟨?_,?_,?_,?_⟩
  · intro r rm r' rm' hrm hrm' hin hin'
    rw [← (huser r rm hrm).mp hin,(huser r' rm' hrm').mp hin']
  · intro r rm hrm
    rw [huser r rm hrm,ok.room r rm hrm]
  · have hroom : (s.clients c).state.isIn CClient.State.stInRoom = true ↔
        0 < (s.clients c).roomid := hm.isIn_room
    rw [hroom]
    constructor
    · rintro ⟨r,rm,hrm,hin⟩
      rw [(huser r rm hrm).mp hin]
      exact ok.room_pos hrm
    · intro hpos
      obtain ⟨rm,hrm⟩ := ok.found c hpos
      exact ⟨_,rm,hrm,(huser _ rm hrm).mpr rfl⟩
  · constructor
    · intro hroom
      have hno : ¬ (s.clients c).state.isIn CClient.State.stInRoom = true := by
        intro hin
        have hpos : 0 < (s.clients c).roomid := hm.inRoom hin
        omega
      have hoff : (s.clients c).state ≠ .stOffline := hm.served.mp hc
      revert hno hoff
      cases (s.clients c).state <;> decide
    · intro hst
      apply hm.noRoom
      change (s.clients c).state.isIn CClient.State.stInRoom = false
      rw [hst]
      rfl

theorem room_members_alone : ∃ s, (create [room1]).run (arrive 1 "alice") = .ok s ∧
    (s.clients 1).ctsk = true ∧
    ((∃ r rm, s.findRoom r = some rm ∧ 1 ∈ rm.usrlist) ↔
      (s.clients 1).state.isIn CClient.State.stInRoom = true) := by
  obtain ⟨s,hrun,hc⟩ : ∃ s, (create [room1]).run (arrive 1 "alice") = .ok s ∧
      (s.clients 1).ctsk = true := ⟨_,rfl,rfl⟩
  exact ⟨s,hrun,hc,((room_members hrun).2 1 hc).2.2.1⟩

end CEngine
end CcniServer
