import CcniServer.Hall.Membership

/-!
A game and its two players. The handler table keeps a playing client in its session, so that
only a broken connection, or the reuse of the session's id, can take a player from the other.
-/
namespace CcniServer

/-- The two players of a session, in either order. -/
def CSession.Pair (ss : CSession) (a b : CClientPtr) : Prop :=
  ss.owner = some a ∧ ss.opponent = some b ∨ ss.owner = some b ∧ ss.opponent = some a

namespace Hall
open CClient.State

/-- A client in a session with both players, one of them itself, where `a` moves and `b`
ponders. -/
structure InGame (h : Hall) (c a b : CClientPtr) (rm : CRoom) (ss : CSession) : Prop where
  room : h.rooms.find? (h.member c).roomid = some rm
  session : rm.sessions.find? (Scan.toUInt32 (h.member c).sessionid) = some ss
  pair : ss.Pair a b
  player : c = a ∨ c = b
  moving : (h.member a).state = .stMoving
  pondering : (h.member b).state = .stPondering

def Playing (h : Hall) (c : CClientPtr) : Prop := (h.member c).state.isIn stPlaying = true

/-- Every playing client is in a game. -/
def Games (h : Hall) : Prop := ∀ c, h.Playing c → ∃ a b rm ss, h.InGame c a b rm ss

/-- The conditions under which an action separates no two players. -/
def Fair (h : Hall) : Action → Prop
  | .newSession c => ∀ rm ss, h.rooms.find? (h.member c).roomid = some rm →
      rm.sessions.find? (CSession.genid h.idseed).2 = some ss → ∀ d ∈ ss.members, ¬ h.Playing d
  | .disconnect c => ¬ h.Playing c
  | _ => True

theorem playing_of_moving {h : Hall} {c : CClientPtr} (hc : (h.member c).state = .stMoving) :
    h.Playing c := by
  rw [Playing,hc]
  rfl

theorem playing_of_pondering {h : Hall} {c : CClientPtr}
    (hc : (h.member c).state = .stPondering) : h.Playing c := by
  rw [Playing,hc]
  rfl

theorem playing_iff {h : Hall} {c : CClientPtr} :
    h.Playing c ↔ (h.member c).state = .stMoving ∨ (h.member c).state = .stPondering := by
  unfold Playing
  cases (h.member c).state <;> decide

namespace Games
variable {h : Hall}

/-- The registry and the counter of ids do not matter. -/
theorem congr (hg : h.Games) {h' : Hall} (hm : h'.member = h.member) (hr : h'.rooms = h.rooms) :
    h'.Games := by
  intro c hc
  rw [Playing,hm] at hc
  obtain ⟨a,b,rm,ss,hin⟩ := hg c hc
  refine ⟨a,b,rm,ss,?_,?_,hin.pair,hin.player,?_,?_⟩
  · rw [hm,hr]
    exact hin.room
  · rw [hm]
    exact hin.session
  · rw [hm]
    exact hin.moving
  · rw [hm]
    exact hin.pondering

/-- One client that does not play and its room change, and no pair that plays is separated. -/
theorem put (hg : h.Games) {c : CClientPtr} {r : ℤ} {rm rm' : CRoom} {m' : Member}
    (hrm : h.rooms.find? r = some rm) (hold : ¬ h.Playing c) (hnew : m'.state.isIn stPlaying = false)
    (hkeep : ∀ k ss a b, rm.sessions.find? k = some ss → ss.Pair a b → a ≠ c → b ≠ c →
      h.Playing a → ∃ ss', rm'.sessions.find? k = some ss' ∧ ss'.Pair a b) :
    ((h.setRoom r rm').setMember c m').Games := by
  intro d hd
  have hdc : d ≠ c := by
    rintro rfl
    rw [Playing,setMember_member,Function.update_self,hnew] at hd
    simp at hd
  have hd' : h.Playing d := by
    rwa [Playing,setMember_member,Function.update_of_ne hdc] at hd
  obtain ⟨a,b,rm₀,ss,hin⟩ := hg d hd'
  have hac : a ≠ c := by
    rintro rfl
    exact hold (playing_of_moving hin.moving)
  have hbc : b ≠ c := by
    rintro rfl
    exact hold (playing_of_pondering hin.pondering)
  have hdd : ((h.setRoom r rm').setMember c m').member d = h.member d :=
    Function.update_of_ne hdc _ _
  have hmov : ((h.setRoom r rm').setMember c m').member a = h.member a :=
    Function.update_of_ne hac _ _
  have hpon : ((h.setRoom r rm').setMember c m').member b = h.member b :=
    Function.update_of_ne hbc _ _
  by_cases hr : (h.member d).roomid = r
  · have hrm₀ := hin.room
    rw [hr,hrm] at hrm₀
    cases hrm₀
    obtain ⟨ss',hss',hpair⟩ :=
      hkeep _ ss a b hin.session hin.pair hac hbc (playing_of_moving hin.moving)
    refine ⟨a,b,rm',ss',?_,?_,hpair,hin.player,hmov ▸ hin.moving,hpon ▸ hin.pondering⟩
    · rw [hdd,setMember_rooms,setRoom_rooms,OrdMap.find?_insert,if_pos hr]
    · rw [hdd]
      exact hss'
  · refine ⟨a,b,rm₀,ss,?_,?_,hin.pair,hin.player,hmov ▸ hin.moving,hpon ▸ hin.pondering⟩
    · rw [hdd,setMember_rooms,setRoom_rooms,OrdMap.find?_insert,if_neg hr]
      exact hin.room
    · rw [hdd]
      exact hin.session

/-- The rooms stay, and a client changes that does not play. -/
theorem setMember (hg : h.Games) {c : CClientPtr} {m' : Member} (hold : ¬ h.Playing c)
    (hnew : m'.state.isIn stPlaying = false) : (h.setMember c m').Games := by
  intro d hd
  have hdc : d ≠ c := by
    rintro rfl
    rw [Playing,setMember_member,Function.update_self,hnew] at hd
    simp at hd
  rw [Playing,setMember_member,Function.update_of_ne hdc] at hd
  obtain ⟨a,b,rm,ss,hin⟩ := hg d hd
  have hother : ∀ e, h.Playing e → (h.setMember c m').member e = h.member e := by
    intro e he
    refine Function.update_of_ne ?_ _ _
    rintro rfl
    exact hold he
  have hmov := hother a (playing_of_moving hin.moving)
  have hpon := hother b (playing_of_pondering hin.pondering)
  refine ⟨a,b,rm,ss,?_,?_,hin.pair,hin.player,hmov ▸ hin.moving,hpon ▸ hin.pondering⟩
  · rw [hother d hd]
    exact hin.room
  · rw [hother d hd]
    exact hin.session

theorem not_playing {c : CClientPtr} {st : CClient.State} (hst : (h.member c).state = st)
    (hno : st.isIn stPlaying = false) : ¬ h.Playing c := by
  rw [Playing,hst,hno]
  simp

theorem login (hg : h.Games) (ok : h.Ok) {c : CClientPtr} (hc : (h.member c).ctsk = false)
    (uname : String) : (h.login c uname).Games := by
  unfold Hall.login
  cases h.list.find? uname with
  | some c' => exact hg
  | none =>
    have hoff : (h.member c).state = .stOffline := by
      by_contra hne
      rw [(ok.member c).served.mpr hne] at hc
      simp at hc
    have hnew : isIn .stOnline stPlaying = false := by decide
    have hset : (h.setMember c ⟨.stOnline,uname,-1,-1,true⟩).Games :=
      hg.setMember (not_playing hoff (by decide)) hnew
    exact hset.congr rfl rfl

theorem enterRoom (hg : h.Games) (c : CClientPtr) (rid : ℤ) : (h.enterRoom c rid).Games := by
  unfold Hall.enterRoom
  split_ifs with hst
  · exact hg
  · have hst : (h.member c).state = .stOnline := not_not.mp (not_or.mp hst).1
    cases hadm : (h.rooms.find? rid).bind (fun rm => rm.addUser c) with
    | none => exact hg
    | some rm' =>
      obtain ⟨rm,hrm,hadm⟩ := Option.bind_eq_some_iff.mp hadm
      obtain ⟨-,hsess,-⟩ := CRoom.addUser_some hadm
      have hnew : isIn .stIdle stPlaying = false := by decide
      apply hg.put hrm (not_playing hst (by decide)) hnew
      intro k ss a b hss hpair _ _ _
      exact ⟨ss,hsess ▸ hss,hpair⟩

theorem leaveRoom (hg : h.Games) {c : CClientPtr} {h' : Hall} (hc : ¬ h.Playing c)
    (hl : h.leaveRoom c = some h') : h'.Games := by
  obtain ⟨rm',hdis,rfl⟩ := Option.map_eq_some_iff.mp hl
  obtain ⟨rm,hrm,hdis⟩ := Option.bind_eq_some_iff.mp hdis
  obtain ⟨-,-,hsess,-⟩ := CRoom.dismiss_some hdis
  have hnew : isIn .stOnline stPlaying = false := by decide
  apply hg.put hrm hc hnew
  intro k ss a b hss hpair _ _ _
  exact ⟨ss,hsess ▸ hss,hpair⟩

theorem newSession (hg : h.Games) {c : CClientPtr} {h' : Hall} (hfair : h.Fair (.newSession c))
    (hn : h.newSession c = some h') : h'.Games := by
  unfold Hall.newSession at hn
  split_ifs at hn with hst
  obtain ⟨rm,hrm,hn⟩ := Option.bind_eq_some_iff.mp hn
  split_ifs at hn with hin
  cases hn
  have hfair := hfair rm
  generalize CSession.genid h.idseed = gen at hfair ⊢
  have hnew : isIn .stSessional stPlaying = false := by decide
  have hput : ((h.setRoom (h.member c).roomid
      (rm.setSession gen.2 (CSession.new c .create gen.2))).setMember c
        { h.member c with state := .stSessional, sessionid := gen.2 }).Games := by
    apply hg.put hrm (not_playing hst.1 (by decide)) hnew
    intro k ss a b hss hpair _ _ ha
    refine ⟨ss,?_,hpair⟩
    have hk : k ≠ gen.2 := by
      rintro rfl
      refine hfair ss hrm hss a ?_ ha
      rw [CSession.mem_members]
      rcases hpair with ⟨how,-⟩ | ⟨-,hop⟩
      · exact .inl how
      · exact .inr (.inl hop)
    rwa [CRoom.setSession,OrdMap.find?_insert,if_neg hk]
  exact hput.congr rfl rfl

theorem leaveSession (hg : h.Games) (ok : h.Ok) {c : CClientPtr} {h' : Hall}
    (hc : ¬ h.Playing c) (hl : h.leaveSession c = some h') : h'.Games := by
  unfold Hall.leaveSession at hl
  split_ifs at hl with hst
  obtain ⟨rm,hrm,hl⟩ := Option.bind_eq_some_iff.mp hl
  obtain ⟨ss',hun,rfl⟩ := Option.map_eq_some_iff.mp hl
  obtain ⟨ss,hss,hun⟩ := Option.bind_eq_some_iff.mp hun
  obtain ⟨-,how,hop,-⟩ := CSession.unseat_some (ok.session _ rm hrm _ ss hss).nodup hun
  generalize Scan.toUInt32 (h.member c).sessionid = k at hss ⊢
  have hnew : isIn .stIdle stPlaying = false := by decide
  apply hg.put hrm hc hnew
  intro k' ss₀ a b hss₀ hpair ha hb _
  by_cases hk : k' = k
  · subst hk
    rw [hss] at hss₀
    cases hss₀
    have hpair' : ss'.Pair a b := by
      rcases hpair with ⟨h₁,h₂⟩ | ⟨h₁,h₂⟩
      · exact .inl ⟨(how a).mpr ⟨h₁,ha⟩,(hop b).mpr ⟨h₂,hb⟩⟩
      · exact .inr ⟨(how b).mpr ⟨h₁,hb⟩,(hop a).mpr ⟨h₂,ha⟩⟩
    have hne : ss'.members ≠ [] := by
      rcases hpair' with ⟨h₁,-⟩ | ⟨h₁,-⟩
      · exact List.ne_nil_of_mem (CSession.mem_members.mpr (.inl h₁))
      · exact List.ne_nil_of_mem (CSession.mem_members.mpr (.inl h₁))
    refine ⟨ss',?_,hpair'⟩
    unfold putSession
    rw [if_neg hne,CRoom.setSession,OrdMap.find?_insert,if_pos rfl]
  · refine ⟨ss₀,?_,hpair⟩
    unfold putSession
    split_ifs
    · rwa [CRoom.eraseSession,OrdMap.find?_erase,if_neg hk]
    · rwa [CRoom.setSession,OrdMap.find?_insert,if_neg hk]

theorem joinSession (hg : h.Games) {c : CClientPtr} {sid : ℤ}
    {join : CSession → Option CSession} {st : CClient.State} {h' : Hall}
    (hidle : (h.member c).state = .stIdle) (hst : st.isIn stPlaying = false)
    (hjoin : ∀ ss ss' a b, join ss = some ss' → ss.Pair a b → ss'.Pair a b)
    (hj : h.joinSession c sid join st = some h') : h'.Games := by
  unfold Hall.joinSession at hj
  split_ifs at hj with hc
  obtain ⟨rm,hrm,rfl⟩ := Option.map_eq_some_iff.mp hj
  cases hbind : (rm.sessions.find? (Scan.toUInt32 sid)).bind join with
  | none => exact hg
  | some ss' =>
    obtain ⟨ss,hss,hjoined⟩ := Option.bind_eq_some_iff.mp hbind
    apply hg.put hrm (not_playing hidle (by decide)) hst
    intro k ss₀ a b hss₀ hpair _ _ _
    by_cases hk : k = Scan.toUInt32 sid
    · subst hk
      rw [hss] at hss₀
      cases hss₀
      refine ⟨ss',?_,hjoin ss ss' a b hjoined hpair⟩
      rw [CRoom.setSession,OrdMap.find?_insert,if_pos rfl]
    · refine ⟨ss₀,?_,hpair⟩
      rwa [CRoom.setSession,OrdMap.find?_insert,if_neg hk]

theorem enterSession (hg : h.Games) {c : CClientPtr} {sid : ℤ} {h' : Hall}
    (hidle : (h.member c).state = .stIdle) (he : h.enterSession c sid = some h') : h'.Games := by
  refine hg.joinSession hidle (by decide) ?_ he
  intro ss ss' a b hts hpair
  have hfull : ss.owner ≠ none ∧ ss.opponent ≠ none := by
    rcases hpair with ⟨h₁,h₂⟩ | ⟨h₁,h₂⟩ <;> simp [h₁,h₂]
  rcases CSession.takeSeat_some hts with ⟨-,hop,-⟩ | ⟨how,-,-⟩ | ⟨how,-,-⟩
  · exact absurd hop hfull.2
  · exact absurd how hfull.1
  · exact absurd how hfull.1

theorem watchSession (hg : h.Games) {c : CClientPtr} {sid : ℤ} {h' : Hall}
    (hidle : (h.member c).state = .stIdle) (hw : h.watchSession c sid = some h') : h'.Games := by
  refine hg.joinSession hidle (by decide) ?_ hw
  intro ss ss' a b haw hpair
  obtain ⟨-,how,hop,-⟩ := CSession.addWatcher_some haw
  rwa [CSession.Pair,how,hop]

/-- Nobody who plays already is touched. -/
theorem member_of_readyMembers {ss : CSession} {c d : CClientPtr} {m' : CClientPtr → Member}
    (hnd : ss.members.Nodup) (hst : (h.member c).state = .stSessional)
    (hm' : readyMembers ss h.member c = some m') (hd : h.Playing d) : m' d = h.member d := by
  have hdc : d ≠ c := by
    rintro rfl
    exact not_playing hst (by decide) hd
  rcases readyMembers_some hnd hm' with ⟨-,-,rfl⟩ | ⟨a,b,hab,-,hcase,rfl⟩
  · exact setState_of_ne hdc
  · have hda : d ≠ a := by
      rintro rfl
      rcases hcase with ⟨rfl,-⟩ | ⟨-,hready⟩
      · exact hdc rfl
      · exact not_playing hready (by decide) hd
    have hdb : d ≠ b := by
      rintro rfl
      rcases hcase with ⟨-,hready⟩ | ⟨rfl,-⟩
      · exact not_playing hready (by decide) hd
      · exact hdc rfl
    rw [setState_of_ne hdb,setState_of_ne hda]

/-- A client that did not play before is one of the two that begin. -/
theorem begins_of_readyMembers {ss : CSession} {c d : CClientPtr} {m' : CClientPtr → Member}
    (hnd : ss.members.Nodup) (hm' : readyMembers ss h.member c = some m') (hbefore : ¬ h.Playing d)
    (hd : ({ h with member := m' } : Hall).Playing d) :
    ∃ a b, a ≠ b ∧ ss.Pair a b ∧ (d = a ∨ d = b) ∧
      m' = setState (setState h.member a .stMoving) b .stPondering := by
  rcases readyMembers_some hnd hm' with ⟨-,-,rfl⟩ | ⟨a,b,hab,hpair,-,rfl⟩
  · refine absurd ?_ hbefore
    simp only [Playing,setState_state] at hd ⊢
    split_ifs at hd
    · cases hd
    · exact hd
  · refine ⟨a,b,hab,hpair,?_,rfl⟩
    by_contra hne
    obtain ⟨hda,hdb⟩ := not_or.mp hne
    apply hbefore
    simp only [Playing] at hd ⊢
    rwa [setState_of_ne hdb,setState_of_ne hda] at hd

/-- Two players begin, or one more waits. -/
theorem ready (hg : h.Games) (ok : h.Ok) {c : CClientPtr} {h' : Hall}
    (hst : (h.member c).state = .stSessional) (hr : h.ready c = some h') : h'.Games := by
  unfold Hall.ready at hr
  split_ifs at hr with hc
  obtain ⟨rm,hrm,hr⟩ := Option.bind_eq_some_iff.mp hr
  obtain ⟨m',hm',rfl⟩ := Option.map_eq_some_iff.mp hr
  obtain ⟨ss,hss,hm'⟩ := Option.bind_eq_some_iff.mp hm'
  have hok := ok.session _ rm hrm _ ss hss
  intro d hd
  by_cases hbefore : h.Playing d
  · have hfields : (m' d).roomid = (h.member d).roomid ∧
        (m' d).sessionid = (h.member d).sessionid := by
      rw [member_of_readyMembers hok.nodup hst hm' hbefore]
      exact ⟨rfl,rfl⟩
    obtain ⟨a,b,rm₀,ss₀,hin⟩ := hg d hbefore
    refine ⟨a,b,rm₀,ss₀,?_,?_,hin.pair,hin.player,?_,?_⟩
    · simp only [hfields.1]
      exact hin.room
    · simp only [hfields.2]
      exact hin.session
    · change (m' a).state = .stMoving
      rw [member_of_readyMembers hok.nodup hst hm' (playing_of_moving hin.moving)]
      exact hin.moving
    · change (m' b).state = .stPondering
      rw [member_of_readyMembers hok.nodup hst hm' (playing_of_pondering hin.pondering)]
      exact hin.pondering
  · obtain ⟨a,b,hab,hpair,hdab,rfl⟩ := begins_of_readyMembers hok.nodup hm' hbefore hd
    have hmem : d ∈ ss.members := by
      rw [CSession.mem_members]
      rcases hpair with ⟨h₁,h₂⟩ | ⟨h₁,h₂⟩ <;> rcases hdab with rfl | rfl <;> simp [h₁,h₂]
    have hsid := hok.sessionid d hmem
    have hcmem : (h.member d).roomid = (h.member c).roomid := hok.roomid d hmem
    refine ⟨a,b,rm,ss,?_,?_,hpair,hdab,?_,?_⟩
    · simp only [setState_roomid,hcmem]
      exact hrm
    · simp only [setState_sessionid,hsid]
      rw [Scan.toUInt32_natCast (by have := hok.key.2; omega)]
      exact hss
    · simp [setState_state,hab]
    · simp [setState_state]

theorem breakLine (hg : h.Games) (ok : h.Ok) {c : CClientPtr} {h' : Hall} (hc : ¬ h.Playing c)
    (hb : h.breakLine c = some h') : h'.Games := by
  obtain ⟨h₂,h₂b,rfl⟩ := Option.map_eq_some_iff.mp hb
  obtain ⟨h₁,h₁b,h₂b⟩ := Option.bind_eq_some_iff.mp h₂b
  have hg₁ : h₁.Games ∧ ¬ h₁.Playing c := by
    unfold Hall.dropSession at h₁b
    split_ifs at h₁b
    · exact ⟨hg.leaveSession ok hc h₁b,not_playing (leaveSession_state h₁b) (by decide)⟩
    · cases h₁b
      exact ⟨hg,hc⟩
  have hg₂ : h₂.Games ∧ ¬ h₂.Playing c := by
    unfold Hall.dropRoom at h₂b
    split_ifs at h₂b
    · exact ⟨hg₁.1.leaveRoom hg₁.2 h₂b,not_playing (leaveRoom_state h₂b) (by decide)⟩
    · cases h₂b
      exact hg₁
  have hnew : isIn .stOffline stPlaying = false := by decide
  have hset : (h₂.setMember c { h₂.member c with state := .stOffline, ctsk := false }).Games :=
    hg₂.1.setMember hg₂.2 hnew
  exact hset.congr rfl rfl

theorem act (hg : h.Games) (ok : h.Ok) {a : Action} {h' : Hall} (hguard : h.Guard a)
    (hfair : h.Fair a) (ha : h.act a = some h') : h'.Games := by
  cases a with
  | quiet =>
    cases ha
    exact hg
  | login c uname =>
    cases ha
    exact hg.login ok hguard uname
  | enterRoom c rid =>
    cases ha
    exact hg.enterRoom c rid
  | leaveRoom c =>
    simp only [Hall.act] at ha
    split_ifs at ha
    exact hg.leaveRoom (not_playing hguard.2 (by decide)) ha
  | newSession c => exact hg.newSession hfair ha
  | enterSession c sid => exact hg.enterSession hguard.2.1 ha
  | leaveSession c =>
    refine hg.leaveSession ok ?_ ha
    have hin := hguard.2
    unfold Playing
    revert hin
    cases (h.member c).state <;> decide
  | watchSession c sid => exact hg.watchSession hguard.2.1 ha
  | ready c => exact hg.ready ok hguard.2 ha
  | listSessions c =>
    simp only [Hall.act] at ha
    split_ifs at ha
    cases ha
    exact hg
  | disconnect c => exact hg.breakLine ok hfair ha

end Games
theorem create_games (cfgs : List CRoomConfig) : (CEngine.create cfgs).hall.Games := by
  intro c hc
  have hoff : ((CEngine.create cfgs).hall.member c).state = .stOffline := rfl
  exact absurd hc (Games.not_playing hoff (by decide))

end Hall

namespace CEngine

/-- A playing client is one of the two players of its live session, where one moves and one
ponders; and the players of a session are never both ready. -/
def GamesPaired (s : CEngine) : Prop :=
  (∀ c, (s.clients c).state = .stMoving ∨ (s.clients c).state = .stPondering →
    ∃ rm ss ow op,
      s.Live (s.clients c).roomid rm (Scan.toUInt32 (s.clients c).sessionid) ss ∧
      ss.owner = some ow ∧ ss.opponent = some op ∧ (c = ow ∨ c = op) ∧
      ((s.clients ow).state = .stMoving ∧ (s.clients op).state = .stPondering ∨
        (s.clients ow).state = .stPondering ∧ (s.clients op).state = .stMoving)) ∧
  ∀ r rm k ss ow op, s.Live r rm k ss → ss.owner = some ow → ss.opponent = some op →
    ¬ ((s.clients ow).state = .stReady ∧ (s.clients op).state = .stReady)

/-- An event that separates no two players: no playing client is disconnected, and the id that
`NewSession` is about to use does not belong to a session in play. -/
def FairEvent (s : CEngine) : Event → Prop
  | .disconnect c => (s.clients c).state ≠ .stMoving ∧ (s.clients c).state ≠ .stPondering
  | .request c msg => (s.clients c).state = .stIdle → msg.name = xmlTagNewSession →
      ∀ rm ss, s.Live (s.clients c).roomid rm (CSession.genid s.idseed).2 ss →
        ∀ d ∈ ss.members, (s.clients d).state ≠ .stMoving ∧ (s.clients d).state ≠ .stPondering
  | _ => True

theorem not_playing_iff {s : CEngine} {c : CClientPtr} :
    ¬ s.hall.Playing c ↔ (s.clients c).state ≠ .stMoving ∧ (s.clients c).state ≠ .stPondering := by
  rw [Hall.playing_iff,not_or]
  rfl

theorem FairEvent.fair {s : CEngine} {e : Event} (h : s.FairEvent e) :
    s.hall.Fair (s.hall.action e) := by
  cases ha : s.hall.action e with
  | newSession c =>
    obtain ⟨msg,rfl,hst,hname⟩ := Hall.action_newSession ha
    intro rm ss hrm hss d hd
    exact not_playing_iff.mpr (h hst hname rm ss ⟨hrm,hss⟩ d hd)
  | disconnect c =>
    obtain rfl := Hall.action_disconnect ha
    exact not_playing_iff.mpr h
  | _ => exact trivial

theorem gamesPaired_of_games {s : CEngine} (ok : s.hall.Ok) (hg : s.hall.Games) :
    s.GamesPaired := by
  refine ⟨fun c hc => ?_,fun r rm k ss ow op hlive => ?_⟩
  · obtain ⟨a,b,rm,ss,hin⟩ := hg c (Hall.playing_iff.mpr hc)
    have hlive : s.Live (s.clients c).roomid rm (Scan.toUInt32 (s.clients c).sessionid) ss :=
      ⟨hin.room,hin.session⟩
    rcases hin.pair with ⟨how,hop⟩ | ⟨how,hop⟩
    · exact ⟨rm,ss,a,b,hlive,how,hop,hin.player,.inl ⟨hin.moving,hin.pondering⟩⟩
    · exact ⟨rm,ss,b,a,hlive,how,hop,hin.player.symm,.inr ⟨hin.pondering,hin.moving⟩⟩
  · exact (ok.session r rm hlive.room k ss hlive.session).notBothReady ow op

/-- In a run of fair events every state has its games paired. -/
theorem games_paired {cfgs : List CRoomConfig} {es : List Event} {s : CEngine}
    (hfair : Lts.Meets (Lts.Steps step) FairEvent (create cfgs) es)
    (hrun : (create cfgs).run es = .ok s) : s.GamesPaired := by
  have hstep : ∀ s e t, (s.hall.Ok ∧ s.hall.Games) → FairEvent s e → Lts.Steps step s e t →
      t.hall.Ok ∧ t.hall.Games := by
    rintro s e t ⟨ok,hg⟩ he hst
    have hact := step_ok_hall hst
    exact ⟨ok.step hact,hg.act ok (s.hall.action_guard e) he.fair hact⟩
  obtain ⟨ok,hg⟩ := (Lts.exec_ok_iff.mp hrun).invariant_of_meets hstep hfair
    ⟨Hall.create_ok cfgs,Hall.create_games cfgs⟩
  exact gamesPaired_of_games ok hg

/-- Two clients begin a game. -/
def twoPlayers : List Event :=
  arrive 1 "alice" ++ arrive 2 "bob" ++
    [.request 1 (requestOf xmlTagNewSession ""),.request 2 (requestOf xmlTagEnterSession "2"),
     .request 1 (requestOf xmlTagReady ""),.request 2 (requestOf xmlTagReady "")]

theorem twoPlayers_paired : ∃ s, (create [room1]).run twoPlayers = .ok s ∧ s.GamesPaired := by
  have hname : ∀ {s : CEngine} {c tag id}, tag ≠ xmlTagNewSession →
      s.FairEvent (.request c (requestOf tag id)) := fun htag _ hn => absurd hn htag
  have hfair : Lts.Meets (Lts.Steps step) FairEvent (create [room1]) twoPlayers := by
    refine Lts.meets_cons rfl trivial (Lts.meets_cons rfl (hname (by decide)) ?_)
    refine Lts.meets_cons rfl trivial (Lts.meets_cons rfl (hname (by decide)) ?_)
    refine Lts.meets_cons rfl ?_ (Lts.meets_cons rfl (hname (by decide)) ?_)
    · rintro - - rm ss ⟨hrm,hss⟩
      cases hrm
      cases hss
    · exact Lts.meets_cons rfl (hname (by decide)) (Lts.meets_cons rfl (hname (by decide)) trivial)
  obtain ⟨s,hrun⟩ : ∃ s, (create [room1]).run twoPlayers = .ok s := ⟨_,rfl⟩
  exact ⟨s,hrun,games_paired hfair hrun⟩

/-- The partner of a player that breaks its connection ponders for ever. -/
theorem abandoned_game :
    ∃ s, (create [room1]).run (twoPlayers ++ [.disconnect 1]) = .ok s ∧ ¬ s.GamesPaired := by
  obtain ⟨s,rm,ss,hrun,hst,hlive,how⟩ : ∃ s rm ss,
      (create [room1]).run (twoPlayers ++ [.disconnect 1]) = .ok s ∧
      (s.clients 2).state = .stPondering ∧
      s.Live (s.clients 2).roomid rm (Scan.toUInt32 (s.clients 2).sessionid) ss ∧
      ss.owner = none := ⟨_,_,_,rfl,rfl,⟨rfl,rfl⟩,rfl⟩
  refine ⟨s,hrun,?_⟩
  rintro ⟨hplaying,-⟩
  obtain ⟨rm',ss',ow,op,hlive',how',-⟩ := hplaying 2 (.inr hst)
  have hrm : rm = rm' := Option.some.inj (hlive.room.symm.trans hlive'.room)
  subst hrm
  have hss : ss = ss' := Option.some.inj (hlive.session.symm.trans hlive'.session)
  subst hss
  rw [how] at how'
  cases how'

end CEngine
end CcniServer
