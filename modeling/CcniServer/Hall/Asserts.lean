import CcniServer.Hall.Membership

/-!
When no `ASSERT` fails. The invariant is not enough: a client may name a session that has no
seat for it, after `EnterSession` into a session of watchers only, or after its session was
replaced under a reused id. Where no step does either, every client that names a session has a
seat in it, and then every check of every handler holds.
-/
namespace CcniServer
namespace Hall
open CClient.State

/-- A client has a seat in the session it names. -/
def HasSeat (h : Hall) (c : CClientPtr) : Prop :=
  ∃ rm ss, h.rooms.find? (h.member c).roomid = some rm ∧
    rm.sessions.find? (Scan.toUInt32 (h.member c).sessionid) = some ss ∧ c ∈ ss.members

def Seated (h : Hall) : Prop := ∀ c, 0 < (h.member c).sessionid → h.HasSeat c

/-- The two conditions under which an action takes nobody's seat away. -/
def Seats (h : Hall) : Action → Prop
  | .newSession c => ∀ rm, h.rooms.find? (h.member c).roomid = some rm →
      rm.sessions.find? (CSession.genid h.idseed).2 = none
  | .enterSession c sid => ∀ rm ss, h.rooms.find? (h.member c).roomid = some rm →
      rm.sessions.find? (Scan.toUInt32 sid) = some ss → ss.owner ≠ none ∨ ss.opponent ≠ none
  | _ => True

namespace Seated
variable {h : Hall}

/-! ### Progress -/

theorem leaveRoom_isSome (ok : h.Ok) {c : CClientPtr} (hpos : 0 < (h.member c).roomid) :
    (h.leaveRoom c).isSome := by
  obtain ⟨rm,hrm⟩ := ok.found c hpos
  have hin : c ∈ rm.usrlist := (ok.user _ rm hrm c).mpr rfl
  simp only [Hall.leaveRoom,hrm,Option.bind_some,CRoom.dismiss,if_pos hin,Option.map_some,
    Option.isSome_some]

theorem leaveSession_isSome (ok : h.Ok) {c : CClientPtr} (hpos : 0 < (h.member c).sessionid)
    (hseat : h.HasSeat c) : (h.leaveSession c).isSome := by
  obtain ⟨rm,ss,hrm,hss,hmem⟩ := hseat
  have htsk := (ok.member c).ctsk_of_sessionid hpos
  have hroom := (ok.member c).roomid_pos hpos
  obtain ⟨ss',hun⟩ := Option.isSome_iff_exists.mp (CSession.unseat_isSome.mpr hmem)
  unfold Hall.leaveSession
  rw [if_pos ⟨htsk,hroom,hpos⟩,hrm]
  simp only [Option.bind_some,hss,hun,Option.map_some,Option.isSome_some]

theorem newSession_isSome (ok : h.Ok) {c : CClientPtr} (hc : (h.member c).ctsk = true)
    (hidle : (h.member c).state = .stIdle) : (h.newSession c).isSome := by
  have hpos := (ok.member c).inRoom (by rw [hidle]; rfl)
  obtain ⟨rm,hrm⟩ := ok.found c hpos
  have hin : c ∈ rm.usrlist := (ok.user _ rm hrm c).mpr rfl
  unfold Hall.newSession
  rw [if_pos ⟨hidle,hc,hpos⟩,hrm,Option.bind_some,if_pos hin]
  rfl

theorem joinSession_isSome (ok : h.Ok) {c : CClientPtr} (hc : (h.member c).ctsk = true)
    (hidle : (h.member c).state = .stIdle) (sid : ℤ) (join : CSession → Option CSession)
    (st : CClient.State) : (h.joinSession c sid join st).isSome := by
  have hpos := (ok.member c).inRoom (by rw [hidle]; rfl)
  have hno := (ok.member c).noSession (by rw [hidle]; rfl)
  obtain ⟨rm,hrm⟩ := ok.found c hpos
  unfold Hall.joinSession
  rw [if_pos ⟨hc,hpos,by omega⟩,hrm]
  rfl

/-- A seated client in the state `Sessional` is a player. -/
theorem ready_isSome (hs : h.Seated) (ok : h.Ok) {c : CClientPtr}
    (hst : (h.member c).state = .stSessional) : (h.ready c).isSome := by
  have hpos := (ok.member c).inSession (by rw [hst]; rfl)
  obtain ⟨rm,ss,hrm,hss,hmem⟩ := hs c hpos
  have hok := ok.session _ rm hrm _ ss hss
  have htsk := (ok.member c).ctsk_of_sessionid hpos
  have hroom := (ok.member c).roomid_pos hpos
  have hplayer : ss.owner = some c ∨ ss.opponent = some c := by
    rcases CSession.mem_members.mp hmem with how | hop | hw
    · exact .inl how
    · exact .inr hop
    · have hwatch := hok.watcher c hw
      rw [hst] at hwatch
      cases hwatch
  unfold Hall.ready
  rw [if_pos ⟨htsk,hroom,hpos⟩,hrm]
  simp only [Option.bind_some,hss,Option.isSome_map]
  exact readyMembers_isSome hplayer

theorem breakLine_isSome (hs : h.Seated) (ok : h.Ok) (c : CClientPtr) :
    (h.breakLine c).isSome := by
  have hdrop : (h.dropSession c).isSome := by
    unfold Hall.dropSession
    split_ifs with hpos
    · exact leaveSession_isSome ok hpos (hs c hpos)
    · rfl
  obtain ⟨h₁,hd₁⟩ := Option.isSome_iff_exists.mp hdrop
  have hroom : (h₁.dropRoom c).isSome := by
    unfold Hall.dropRoom
    split_ifs with hpos
    · exact leaveRoom_isSome (ok.dropSession hd₁).1 hpos
    · rfl
  obtain ⟨h₂,hd₂⟩ := Option.isSome_iff_exists.mp hroom
  simp only [Hall.breakLine,hd₁,Option.bind_some,hd₂,Option.map_some,Option.isSome_some]

/-- No `ASSERT` fails where every client has its seat. -/
theorem act_isSome (hs : h.Seated) (ok : h.Ok) {a : Action} (hg : h.Guard a) :
    (h.act a).isSome := by
  cases a with
  | quiet => rfl
  | login c uname => rfl
  | enterRoom c rid => rfl
  | leaveRoom c =>
    have hpos := (ok.member c).inRoom (by rw [hg.2]; rfl)
    rw [Hall.act,if_pos hpos]
    exact leaveRoom_isSome ok hpos
  | newSession c => exact newSession_isSome ok hg.1 hg.2
  | enterSession c sid => exact joinSession_isSome ok hg.1 hg.2.1 sid _ _
  | leaveSession c =>
    have hin : (h.member c).state.isIn (stInSession ||| stPlaying) = true := by
      have hst := hg.2
      revert hst
      cases (h.member c).state <;> decide
    have hpos := (ok.member c).inSession hin
    exact leaveSession_isSome ok hpos (hs c hpos)
  | watchSession c sid => exact joinSession_isSome ok hg.1 hg.2.1 sid _ _
  | ready c => exact hs.ready_isSome ok hg.2
  | listSessions c =>
    have hpos := (ok.member c).inRoom hg.2
    obtain ⟨rm,hrm⟩ := ok.found c hpos
    rw [Hall.act,if_pos ⟨hpos,by rw [hrm]; rfl⟩]
    rfl
  | disconnect c => exact hs.breakLine_isSome ok c

/-! ### Preservation -/

/-- One client and its room change, and nobody else in the room loses a seat. -/
theorem put (hs : h.Seated) {c : CClientPtr} {r : ℤ} {rm rm' : CRoom} {m' : Member}
    (hrm : h.rooms.find? r = some rm)
    (hc : 0 < m'.sessionid → m'.roomid = r ∧ ∃ ss,
      rm'.sessions.find? (Scan.toUInt32 m'.sessionid) = some ss ∧ c ∈ ss.members)
    (hkeep : ∀ k ss, rm.sessions.find? k = some ss → ∀ d, d ≠ c → d ∈ ss.members →
      ∃ ss', rm'.sessions.find? k = some ss' ∧ d ∈ ss'.members) :
    ((h.setRoom r rm').setMember c m').Seated := by
  intro d hpos
  simp only [HasSeat,setMember_member,setMember_rooms,setRoom_member,setRoom_rooms,
    OrdMap.find?_insert] at hpos ⊢
  by_cases hd : d = c
  · subst hd
    rw [Function.update_self] at hpos ⊢
    obtain ⟨hroom,ss,hss,hmem⟩ := hc hpos
    exact ⟨rm',ss,if_pos hroom,hss,hmem⟩
  · rw [Function.update_of_ne hd] at hpos ⊢
    obtain ⟨rm₀,ss,hrm₀,hss,hmem⟩ := hs d hpos
    split_ifs with hr
    · rw [hr,hrm] at hrm₀
      cases hrm₀
      obtain ⟨ss',hss',hmem'⟩ := hkeep _ ss hss d hd hmem
      exact ⟨rm',ss',rfl,hss',hmem'⟩
    · exact ⟨rm₀,ss,hrm₀,hss,hmem⟩

/-- The rooms stay, and a client changes that names no session. -/
theorem setMember (hs : h.Seated) {c : CClientPtr} {m' : Member} (hc : ¬ 0 < m'.sessionid) :
    (h.setMember c m').Seated := by
  intro d hpos
  simp only [HasSeat,setMember_member,setMember_rooms] at hpos ⊢
  by_cases hd : d = c
  · subst hd
    rw [Function.update_self] at hpos
    exact absurd hpos hc
  · rw [Function.update_of_ne hd] at hpos ⊢
    exact hs d hpos

theorem login (hs : h.Seated) (c : CClientPtr) (uname : String) : (h.login c uname).Seated := by
  unfold Hall.login
  cases h.list.find? uname with
  | some c' => exact hs
  | none =>
    have hneg : ¬ 0 < (-1 : ℤ) := by decide
    exact hs.setMember hneg

theorem enterRoom (hs : h.Seated) (ok : h.Ok) (c : CClientPtr) (rid : ℤ) :
    (h.enterRoom c rid).Seated := by
  unfold Hall.enterRoom
  split_ifs with hst
  · exact hs
  · have hst : (h.member c).state = .stOnline := not_not.mp (not_or.mp hst).1
    have hsid := (ok.member c).noSession (by rw [hst]; rfl)
    cases hadm : (h.rooms.find? rid).bind (fun rm => rm.addUser c) with
    | none => exact hs
    | some rm' =>
      obtain ⟨rm,hrm,hadm⟩ := Option.bind_eq_some_iff.mp hadm
      obtain ⟨-,hsess,-⟩ := CRoom.addUser_some hadm
      refine hs.put hrm (fun hpos => ?_) ?_
      · exact absurd (hsid ▸ hpos) (by decide)
      · intro k ss hss d _ hd
        exact ⟨ss,hsess ▸ hss,hd⟩

theorem leaveRoom (hs : h.Seated) {c : CClientPtr} {h' : Hall}
    (hsid : (h.member c).sessionid = -1) (hl : h.leaveRoom c = some h') : h'.Seated := by
  obtain ⟨rm',hdis,rfl⟩ := Option.map_eq_some_iff.mp hl
  obtain ⟨rm,hrm,hdis⟩ := Option.bind_eq_some_iff.mp hdis
  obtain ⟨-,-,hsess,-⟩ := CRoom.dismiss_some hdis
  refine hs.put hrm (fun hpos => ?_) ?_
  · exact absurd (hsid ▸ hpos) (by decide)
  · intro k ss hss d _ hd
    exact ⟨ss,hsess ▸ hss,hd⟩

theorem newSession (hs : h.Seated) {c : CClientPtr} {h' : Hall} (hfree : h.Seats (.newSession c))
    (hn : h.newSession c = some h') : h'.Seated := by
  unfold Hall.newSession at hn
  split_ifs at hn with hst
  obtain ⟨rm,hrm,hn⟩ := Option.bind_eq_some_iff.mp hn
  split_ifs at hn with hin
  cases hn
  have hfree := hfree rm hrm
  have hseed := CSession.genid_range h.idseed
  generalize CSession.genid h.idseed = gen at hfree hseed ⊢
  have hkey : Scan.toUInt32 (gen.2 : ℤ) = gen.2 := Scan.toUInt32_natCast (by omega)
  have hput : ((h.setRoom (h.member c).roomid
      (rm.setSession gen.2 (CSession.new c .create gen.2))).setMember c
        { h.member c with state := .stSessional, sessionid := gen.2 }).Seated := by
    refine hs.put hrm (fun _ => ⟨rfl,CSession.new c .create gen.2,?_,?_⟩) ?_
    · rw [hkey,CRoom.setSession,OrdMap.find?_insert,if_pos rfl]
    · simp [CSession.new]
    · intro k ss hss d _ hd
      refine ⟨ss,?_,hd⟩
      have hk : k ≠ gen.2 := by
        rintro rfl
        rw [hfree] at hss
        cases hss
      rwa [CRoom.setSession,OrdMap.find?_insert,if_neg hk]
  exact hput

theorem leaveSession (hs : h.Seated) (ok : h.Ok) {c : CClientPtr} {h' : Hall}
    (hl : h.leaveSession c = some h') : h'.Seated := by
  unfold Hall.leaveSession at hl
  split_ifs at hl with hst
  obtain ⟨rm,hrm,hl⟩ := Option.bind_eq_some_iff.mp hl
  obtain ⟨ss',hun,rfl⟩ := Option.map_eq_some_iff.mp hl
  obtain ⟨ss,hss,hun⟩ := Option.bind_eq_some_iff.mp hun
  have hok := ok.session _ rm hrm _ ss hss
  generalize Scan.toUInt32 (h.member c).sessionid = k at hss ⊢
  refine hs.put hrm (fun hpos => ?_) ?_
  · have hneg : ¬ 0 < (-1 : ℤ) := by decide
    exact absurd hpos hneg
  · intro k' ss₀ hss₀ d hd hmem
    by_cases hk : k' = k
    · subst hk
      rw [hss] at hss₀
      cases hss₀
      have hmem' := (CSession.mem_unseat hok.nodup hun).mpr ⟨hmem,hd⟩
      refine ⟨ss',?_,hmem'⟩
      unfold putSession
      rw [if_neg (List.ne_nil_of_mem hmem'),CRoom.setSession,OrdMap.find?_insert,if_pos rfl]
    · refine ⟨ss₀,?_,hmem⟩
      unfold putSession
      split_ifs
      · rwa [CRoom.eraseSession,OrdMap.find?_erase,if_neg hk]
      · rwa [CRoom.setSession,OrdMap.find?_insert,if_neg hk]

theorem joinSession (hs : h.Seated) {c : CClientPtr} {sid : ℤ}
    {join : CSession → Option CSession} {st : CClient.State} {h' : Hall}
    (hjoin : ∀ rm ss ss', h.rooms.find? (h.member c).roomid = some rm →
      rm.sessions.find? (Scan.toUInt32 sid) = some ss → join ss = some ss' →
      c ∈ ss'.members ∧ ∀ d ∈ ss.members, d ∈ ss'.members)
    (hj : h.joinSession c sid join st = some h') : h'.Seated := by
  unfold Hall.joinSession at hj
  split_ifs at hj with hc
  obtain ⟨rm,hrm,rfl⟩ := Option.map_eq_some_iff.mp hj
  cases hbind : (rm.sessions.find? (Scan.toUInt32 sid)).bind join with
  | none => exact hs
  | some ss' =>
    obtain ⟨ss,hss,hjoined⟩ := Option.bind_eq_some_iff.mp hbind
    obtain ⟨hin,hkeep⟩ := hjoin rm ss ss' hrm hss hjoined
    refine hs.put hrm (fun _ => ⟨rfl,ss',?_,hin⟩) ?_
    · rw [CRoom.setSession,OrdMap.find?_insert,if_pos rfl]
    · intro k ss₀ hss₀ d _ hd
      by_cases hk : k = Scan.toUInt32 sid
      · subst hk
        rw [hss] at hss₀
        cases hss₀
        refine ⟨ss',?_,hkeep d hd⟩
        rw [CRoom.setSession,OrdMap.find?_insert,if_pos rfl]
      · refine ⟨ss₀,?_,hd⟩
        rwa [CRoom.setSession,OrdMap.find?_insert,if_neg hk]

theorem ready (hs : h.Seated) (ok : h.Ok) {c : CClientPtr} {h' : Hall} (hr : h.ready c = some h') :
    h'.Seated := by
  unfold Hall.ready at hr
  split_ifs at hr with hst
  obtain ⟨rm,hrm,hr⟩ := Option.bind_eq_some_iff.mp hr
  obtain ⟨m',hm',rfl⟩ := Option.map_eq_some_iff.mp hr
  obtain ⟨ss,hss,hm'⟩ := Option.bind_eq_some_iff.mp hm'
  have hnd := (ok.session _ rm hrm _ ss hss).nodup
  have hsame : ∀ d, (m' d).roomid = (h.member d).roomid ∧
      (m' d).sessionid = (h.member d).sessionid := by
    intro d
    rcases readyMembers_some hnd hm' with ⟨-,-,rfl⟩ | ⟨a,b,-,-,-,rfl⟩
    · simp
    · simp
  intro d hpos
  obtain ⟨hroom,hsid⟩ := hsame d
  simp only [HasSeat,hroom,hsid] at hpos ⊢
  exact hs d hpos

theorem breakLine (hs : h.Seated) (ok : h.Ok) {c : CClientPtr} {h' : Hall}
    (hb : h.breakLine c = some h') : h'.Seated := by
  obtain ⟨h₂,h₂b,rfl⟩ := Option.map_eq_some_iff.mp hb
  obtain ⟨h₁,h₁b,h₂b⟩ := Option.bind_eq_some_iff.mp h₂b
  obtain ⟨ok₁,hsid₁,-⟩ := ok.dropSession h₁b
  obtain ⟨-,hsid₂,-⟩ := ok₁.dropRoom hsid₁ h₂b
  have hs₁ : h₁.Seated := by
    unfold Hall.dropSession at h₁b
    split_ifs at h₁b
    · exact hs.leaveSession ok h₁b
    · cases h₁b
      exact hs
  have hs₂ : h₂.Seated := by
    unfold Hall.dropRoom at h₂b
    split_ifs at h₂b
    · exact hs₁.leaveRoom hsid₁ h₂b
    · cases h₂b
      exact hs₁
  have hneg : ¬ 0 < (h₂.member c).sessionid := by omega
  exact hs₂.setMember hneg

theorem act (hs : h.Seated) (ok : h.Ok) {a : Action} {h' : Hall} (hg : h.Guard a)
    (hseats : h.Seats a) (ha : h.act a = some h') : h'.Seated := by
  cases a with
  | quiet =>
    cases ha
    exact hs
  | login c uname =>
    cases ha
    exact hs.login c uname
  | enterRoom c rid =>
    cases ha
    exact hs.enterRoom ok c rid
  | leaveRoom c =>
    have hsid := (ok.member c).noSession (by rw [hg.2]; rfl)
    simp only [Hall.act] at ha
    split_ifs at ha
    exact hs.leaveRoom hsid ha
  | newSession c => exact hs.newSession hseats ha
  | enterSession c sid =>
    refine hs.joinSession (fun rm ss ss' hrm hss hts => ?_) ha
    have hplayer := hseats rm ss hrm hss
    exact ⟨(CSession.mem_takeSeat hplayer hts).mpr (.inl rfl),
      fun d hd => CSession.mem_takeSeat_of_mem hts hd⟩
  | leaveSession c => exact hs.leaveSession ok ha
  | watchSession c sid =>
    refine hs.joinSession (fun rm ss ss' hrm hss haw => ?_) ha
    exact ⟨(CSession.mem_addWatcher haw).mpr (.inl rfl),
      fun d hd => (CSession.mem_addWatcher haw).mpr (.inr hd)⟩
  | ready c => exact hs.ready ok ha
  | listSessions c =>
    simp only [Hall.act] at ha
    split_ifs at ha
    cases ha
    exact hs
  | disconnect c => exact hs.breakLine ok ha

end Seated
theorem create_seated (cfgs : List CRoomConfig) : (CEngine.create cfgs).hall.Seated := by
  intro c hpos
  have hneg : ¬ 0 < (-1 : ℤ) := by decide
  exact absurd hpos hneg

/-! ### Without the conditions -/

/-- A client that names a session without a seat for it cannot even be disconnected. -/
theorem breakLine_none {h : Hall} {c : CClientPtr} (hpos : 0 < (h.member c).sessionid)
    (hno : ¬ h.HasSeat c) : h.breakLine c = none := by
  have hdrop : h.dropSession c = none := by
    unfold Hall.dropSession
    rw [if_pos hpos]
    rw [← Option.not_isSome_iff_eq_none]
    intro hsome
    unfold Hall.leaveSession at hsome
    split_ifs at hsome with hst
    · obtain ⟨h',hl⟩ := Option.isSome_iff_exists.mp hsome
      obtain ⟨rm,hrm,hl⟩ := Option.bind_eq_some_iff.mp hl
      obtain ⟨ss',hun,-⟩ := Option.map_eq_some_iff.mp hl
      obtain ⟨ss,hss,hun⟩ := Option.bind_eq_some_iff.mp hun
      exact hno ⟨rm,ss,hrm,hss,CSession.unseat_isSome.mp (by rw [hun]; rfl)⟩
    · cases hsome
  unfold Hall.breakLine
  rw [hdrop]
  rfl

/-- An action that breaks a condition leaves a client without a seat in the session it names. -/
theorem exists_unseated {h h' : Hall} (ok : h.Ok) {a : Action} (hg : h.Guard a)
    (hseats : ¬ h.Seats a) (ha : h.act a = some h') :
    ∃ c, 0 < (h'.member c).sessionid ∧ ¬ h'.HasSeat c := by
  cases a with
  | newSession c =>
    simp only [Seats,not_forall] at hseats
    obtain ⟨rm,hrm,hlive⟩ := hseats
    obtain ⟨ss,hss⟩ := Option.ne_none_iff_exists'.mp hlive
    have hok := ok.session _ rm hrm _ ss hss
    obtain ⟨d,hd⟩ := List.exists_mem_of_ne_nil _ hok.members_ne
    have hno := (ok.member c).noSession (by rw [hg.2]; rfl)
    have hdsid := hok.sessionid d hd
    have hdroom := hok.roomid d hd
    have hdc : d ≠ c := by
      rintro rfl
      omega
    simp only [Hall.act,Hall.newSession,hrm,Option.bind_some] at ha
    split_ifs at ha
    cases ha
    refine ⟨d,?_,?_⟩
    · simp only [setMember_member,setRoom_member]
      rw [Function.update_of_ne hdc,hdsid]
      exact Int.natCast_pos.mpr hok.key.1
    · rintro ⟨rm',ss',hrm',hss',hmem⟩
      simp only [setMember_member,setMember_rooms,setRoom_member,setRoom_rooms,
        Function.update_of_ne hdc,hdroom,hdsid,OrdMap.find?_insert,if_true] at hrm' hss'
      cases hrm'
      rw [Scan.toUInt32_natCast (by have := hok.key.2; omega),CRoom.setSession,
        OrdMap.find?_insert,if_pos rfl] at hss'
      cases hss'
      simp only [CSession.mem_members,CSession.new,Option.some.injEq,reduceCtorEq,
        OrdSet.not_mem_empty,or_false] at hmem
      exact hdc hmem.symm
  | enterSession c sid =>
    simp only [Seats,not_forall] at hseats
    obtain ⟨rm,ss,hrm,hss,hplayer⟩ := hseats
    obtain ⟨how,hop⟩ := not_or.mp hplayer
    have hts : ss.takeSeat c = some ss := by
      rw [not_not] at how hop
      simp only [CSession.takeSeat,how,hop]
    have hok := ok.session _ rm hrm _ ss hss
    have hkey := ok.toUInt32_key hrm hg.2.2 hss
    have hno := (ok.member c).noSession (by rw [hg.2.1]; rfl)
    have hpos := hok.key.1
    have hout : c ∉ ss.members := ok.not_mem_members hrm hss (fun _ => by omega)
    simp only [Hall.act,Hall.enterSession,Hall.joinSession,hrm,hss,hts,Option.bind_some,
      Option.map_some] at ha
    split_ifs at ha
    cases ha
    refine ⟨c,?_,?_⟩
    · rw [setMember_member,Function.update_self]
      change 0 < sid
      omega
    · rintro ⟨rm',ss',hrm',hss',hmem⟩
      simp only [setMember_member,setMember_rooms,setRoom_rooms,Function.update_self,
        OrdMap.find?_insert,if_true] at hrm' hss'
      cases hrm'
      rw [CRoom.setSession,OrdMap.find?_insert,if_pos rfl] at hss'
      cases hss'
      exact hout hmem
  | _ => exact absurd trivial hseats

end Hall

namespace CEngine

/-- A request that takes nobody's seat: `EnterSession` does not lead into a session of watchers
only, and the id that `NewSession` is about to use is free in the client's room. -/
def SafeEvent (s : CEngine) : Event → Prop
  | .request c msg => (s.clients c).state = .stIdle →
      (msg.name = xmlTagEnterSession →
        ∀ rm ss, s.Live (s.clients c).roomid rm (Scan.toUInt32 (CClient.idOf msg)) ss →
          ss.owner ≠ none ∨ ss.opponent ≠ none) ∧
      (msg.name = xmlTagNewSession →
        ∀ rm ss, ¬ s.Live (s.clients c).roomid rm (CSession.genid s.idseed).2 ss)
  | _ => True

theorem SafeEvent.seats {s : CEngine} {e : Event} (h : s.SafeEvent e) :
    s.hall.Seats (s.hall.action e) := by
  cases ha : s.hall.action e with
  | newSession c =>
    obtain ⟨msg,rfl,hst,hname⟩ := Hall.action_newSession ha
    intro rm hrm
    refine Option.eq_none_iff_forall_ne_some.mpr (fun ss hss => ?_)
    exact (h hst).2 hname rm ss ⟨hrm,hss⟩
  | enterSession c sid =>
    obtain ⟨msg,rfl,hst,hname,rfl⟩ := Hall.action_enterSession ha
    intro rm ss hrm hss
    exact (h hst).1 hname rm ss ⟨hrm,hss⟩
  | _ => exact trivial

theorem safeEvent_of_seats {s : CEngine} {e : Event} (ok : s.hall.Ok)
    (h : s.hall.Seats (s.hall.action e)) : s.SafeEvent e := by
  cases e with
  | login c udp udpaddr uname => exact trivial
  | frame c => exact trivial
  | disconnect c => exact trivial
  | request c msg =>
    intro hst
    have htsk : (s.clients c).ctsk = true := (ok.member c).served.mpr (by
      change (s.clients c).state ≠ .stOffline
      rw [hst]
      decide)
    have hel : ∀ tag, msg.name = tag → tag ≠ "text" → tag ≠ "comment" → msg.isElement = true := by
      rintro tag rfl htext hother
      cases msg with
      | element n cs => rfl
      | text t => contradiction
      | other => contradiction
    refine ⟨fun hname rm ss hlive => ?_,fun hname rm ss hlive => ?_⟩
    · have hact : s.hall.action (.request c msg) = .enterSession c (CClient.idOf msg) := by
        simp only [Hall.action,hall_member,CClient.member,hname,hst]
        exact if_pos ⟨htsk,hel _ hname (by decide) (by decide),rfl⟩
      rw [hact] at h
      exact h rm ss hlive.room hlive.session
    · have hact : s.hall.action (.request c msg) = .newSession c := by
        simp only [Hall.action,hall_member,CClient.member,hname,hst]
        exact if_pos ⟨htsk,hel _ hname (by decide) (by decide),rfl⟩
      rw [hact] at h
      have hnone := h rm hlive.room
      have hsome : rm.sessions.find? (CSession.genid s.hall.idseed).2 = some ss := hlive.session
      rw [hnone] at hsome
      cases hsome

/-- After an event that is not safe there is a client whose disconnection exits. -/
theorem exit_of_not_safe {cfgs : List CRoomConfig} {es : List Event} {s t : CEngine} {e : Event}
    (hrun : (create cfgs).run es = .ok s) (hbad : ¬ s.SafeEvent e) (hstep : s.step e = .ok t) :
    ∃ c site, t.step (.disconnect c) = .error site := by
  have ok := Hall.ok_of_run hrun
  have hact := step_ok_hall hstep
  have ok' := ok.step hact
  obtain ⟨c,hpos,hno⟩ := Hall.exists_unseated ok (s.hall.action_guard e)
    (fun h => hbad (safeEvent_of_seats ok h)) hact
  have htsk := (ok'.member c).ctsk_of_sessionid hpos
  have hend := step_hall t (.disconnect c)
  rw [Hall.action,if_pos htsk,Hall.act,Hall.breakLine_none hpos hno] at hend
  cases hd : t.step (.disconnect c) with
  | error site => exact ⟨c,site,hd⟩
  | ok u =>
    rw [hd] at hend
    cases hend

/-- A run of safe events never exits through an `ASSERT`. -/
theorem run_ok_of_safe {cfgs : List CRoomConfig} {es : List Event}
    (hsafe : Lts.Meets (Lts.Steps step) SafeEvent (create cfgs) es) :
    ∃ s, (create cfgs).run es = .ok s := by
  have hstep : ∀ s e, (s.hall.Ok ∧ s.hall.Seated) → SafeEvent s e →
      ∃ t, s.step e = .ok t ∧ t.hall.Ok ∧ t.hall.Seated := by
    rintro s e ⟨ok,hs⟩ he
    have hg := s.hall.action_guard e
    obtain ⟨h',hact⟩ := Option.isSome_iff_exists.mp (hs.act_isSome ok hg)
    obtain ⟨t,ht,rfl⟩ := step_ok_of_act hact
    exact ⟨t,ht,ok.act hg hact,hs.act ok hg he.seats hact⟩
  obtain ⟨s,hs,-⟩ := Lts.exec_ok_of_meets hstep hsafe
    ⟨Hall.create_ok cfgs,Hall.create_seated cfgs⟩
  exact ⟨s,hs⟩

theorem run_ok_of_safe_alone : ∃ s, (create [room1]).run
    (arrive 1 "alice" ++ [.request 1 (requestOf xmlTagNewSession "")]) = .ok s := by
  apply run_ok_of_safe
  refine Lts.meets_cons rfl trivial (Lts.meets_cons rfl ?_ (Lts.meets_cons rfl ?_ trivial))
  · intro hst
    cases hst
  · refine fun _ => ⟨fun hname => absurd hname (by decide),?_⟩
    rintro - rm ss ⟨hrm,hss⟩
    cases hrm
    cases hss

/-- The last player leaves a watched session, and the next one to enter it gets no seat. -/
def watchersOnly : List Event :=
  arrive 1 "alice" ++ arrive 2 "bob" ++ arrive 3 "carol" ++
    [.request 1 (requestOf xmlTagNewSession ""),.request 2 (requestOf xmlTagWatchSession "2"),
     .request 1 (requestOf xmlTagLeaveSession ""),.request 3 (requestOf xmlTagEnterSession "2"),
     .request 3 (requestOf xmlTagReady "")]

theorem watchersOnly_exits : (create [room1]).run watchersOnly = .error .readySeated := rfl

end CEngine
end CcniServer
