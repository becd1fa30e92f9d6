import CcniServer.Hall.Invariant

/-!
Every operation of the hall keeps its invariant. An operation changes the fields of one client
and one room, or the states of two players, so that two update rules carry all of them.
-/
namespace CcniServer
namespace Hall
namespace Ok
open CClient.State
variable {h : Hall}

/-! ### Update rules -/

/-- One client and its room change. -/
theorem put (ok : h.Ok) {c : CClientPtr} {r : ℤ} {rm rm' : CRoom} {m' : Member}
    (hrm : h.rooms.find? r = some rm) (hcfg : rm'.cfg = rm.cfg) (hm : m'.Ok)
    (hname : m'.uname = (h.member c).uname) (htsk : m'.ctsk = (h.member c).ctsk)
    (hold : (h.member c).roomid = -1 ∨ (h.member c).roomid = r)
    (hnew : m'.roomid = -1 ∨ m'.roomid = r)
    (huser : ∀ d, d ∈ rm'.usrlist ↔ (Function.update h.member c m' d).roomid = r)
    (hsess : ∀ k ss, rm'.sessions.find? k = some ss → ss.Ok (Function.update h.member c m') r k) :
    ((h.setRoom r rm').setMember c m').Ok := by
  have hrpos := ok.room_pos hrm
  have hother : ∀ r', r' ≠ r → 0 < r' →
      ∀ d, (Function.update h.member c m' d).roomid = r' ↔ (h.member d).roomid = r' := by
    intro r' hne hpos d
    by_cases hd : d = c
    · subst hd
      rw [Function.update_self]
      omega
    · rw [Function.update_of_ne hd]
  refine ⟨ok.idseed,?_,?_,?_,?_,?_,?_⟩
  · intro d
    simp only [setMember_member]
    by_cases hd : d = c
    · subst hd
      rwa [Function.update_self]
    · rw [Function.update_of_ne hd]
      exact ok.member d
  · intro u d
    apply (ok.registered u d).trans
    simp only [setMember_member]
    by_cases hd : d = c
    · subst hd
      rw [Function.update_self,hname,htsk]
    · rw [Function.update_of_ne hd]
      rfl
  · intro r' rm₀ h₀
    simp only [setMember_rooms,setRoom_rooms,OrdMap.find?_insert] at h₀
    split_ifs at h₀ with hr
    · cases h₀
      rw [hcfg,hr]
      exact ok.room r rm hrm
    · exact ok.room r' rm₀ h₀
  · intro r' rm₀ h₀ d
    simp only [setMember_rooms,setRoom_rooms,OrdMap.find?_insert] at h₀
    split_ifs at h₀ with hr
    · cases h₀
      rw [hr]
      exact huser d
    · rw [setMember_member,setRoom_member,hother r' hr (ok.room_pos h₀) d]
      exact ok.user r' rm₀ h₀ d
  · intro d hd
    simp only [setMember_member] at hd ⊢
    simp only [setMember_rooms,setRoom_rooms,OrdMap.find?_insert]
    split_ifs with hr
    · exact ⟨rm',rfl⟩
    · have hd' := (hother _ hr hd d).mp rfl
      rw [← hd']
      exact ok.found d (by omega)
  · intro r' rm₀ h₀ k ss hss
    simp only [setMember_rooms,setRoom_rooms,OrdMap.find?_insert] at h₀
    split_ifs at h₀ with hr
    · cases h₀
      rw [hr]
      exact hsess k ss hss
    · apply (ok.session r' rm₀ h₀ k ss hss).congr
      intro d hd
      refine Function.update_of_ne ?_ _ _
      rintro rfl
      have hroom := (ok.session r' rm₀ h₀ k ss hss).roomid d hd
      have hpos := ok.room_pos h₀
      omega

/-- Only states change, inside the room. -/
theorem setStates (ok : h.Ok) {m' : CClientPtr → Member} (hm : ∀ c, (m' c).Ok)
    (hname : ∀ c, (m' c).uname = (h.member c).uname) (htsk : ∀ c, (m' c).ctsk = (h.member c).ctsk)
    (hroom : ∀ c, (m' c).roomid = (h.member c).roomid)
    (hsess : ∀ r rm, h.rooms.find? r = some rm →
      ∀ k ss, rm.sessions.find? k = some ss → ss.Ok m' r k) :
    ({ h with member := m' } : Hall).Ok := by
  refine ⟨ok.idseed,hm,?_,ok.room,?_,?_,hsess⟩
  · intro u c
    rw [ok.registered u c,hname,htsk]
  · intro r rm hrm c
    rw [ok.user r rm hrm c,hroom]
  · intro c hc
    simp only [hroom] at hc ⊢
    exact ok.found c hc

/-- The user list of a room agrees with a client that stays in it. -/
theorem user_update (ok : h.Ok) {c : CClientPtr} {r : ℤ} {rm rm' : CRoom}
    (hrm : h.rooms.find? r = some rm) (hlist : rm'.usrlist = rm.usrlist) (st : CClient.State)
    (sid : ℤ) (d : CClientPtr) : d ∈ rm'.usrlist ↔
      (Function.update h.member c { h.member c with state := st, sessionid := sid } d).roomid =
        r := by
  rw [hlist,ok.user r rm hrm d]
  by_cases hd : d = c
  · subst hd
    rw [Function.update_self]
  · rw [Function.update_of_ne hd]

/-- The sessions in which a client has no seat do not depend on it. -/
theorem session_update (ok : h.Ok) {c : CClientPtr} {r : ℤ} {rm : CRoom} {k : ℕ} {ss : CSession}
    (m' : Member) (hrm : h.rooms.find? r = some rm) (hss : rm.sessions.find? k = some ss)
    (hc : (h.member c).roomid = r → (h.member c).sessionid ≠ k) :
    ss.Ok (Function.update h.member c m') r k := by
  apply (ok.session r rm hrm k ss hss).congr
  intro d hd
  refine Function.update_of_ne ?_ _ _
  rintro rfl
  exact ok.not_mem_members hrm hss hc hd

/-- The sessions of a room after one of them was stored. -/
theorem session_setSession (ok : h.Ok) {c : CClientPtr} {r : ℤ} {rm : CRoom} {k : ℕ}
    {ss : CSession} {m' : Member} (hrm : h.rooms.find? r = some rm)
    (hc : (h.member c).sessionid = -1 ∨ (h.member c).sessionid = k)
    (hok : ss.Ok (Function.update h.member c m') r k) (k' : ℕ) (ss' : CSession)
    (hss' : (rm.setSession k ss).sessions.find? k' = some ss') :
    ss'.Ok (Function.update h.member c m') r k' := by
  simp only [CRoom.setSession,OrdMap.find?_insert] at hss'
  split_ifs at hss' with hk
  · cases hss'
    rwa [hk]
  · apply ok.session_update m' hrm hss'
    intro _
    omega

theorem setIdseed (ok : h.Ok) {n : ℕ} (hn : n < 20000) : ({ h with idseed := n } : Hall).Ok :=
  ⟨hn,ok.member,ok.registered,ok.room,ok.user,ok.found,ok.session⟩

/-! ### Login and rooms -/

theorem login (ok : h.Ok) {c : CClientPtr} (hc : (h.member c).ctsk = false) (uname : String) :
    (h.login c uname).Ok := by
  unfold Hall.login
  cases hfind : h.list.find? uname with
  | some c' => exact ok
  | none =>
    have hroomid : ¬ 0 < (h.member c).roomid := by
      intro hpos
      rw [(ok.member c).ctsk_of_roomid hpos] at hc
      simp at hc
    have hsess : ∀ r rm, h.rooms.find? r = some rm → (h.member c).roomid ≠ r := by
      intro r rm hrm
      have hpos := ok.room_pos hrm
      omega
    refine ⟨ok.idseed,?_,?_,ok.room,?_,?_,?_⟩
    · intro d
      simp only [setMember_member]
      by_cases hd : d = c
      · subst hd
        rw [Function.update_self]
        exact .online rfl rfl rfl rfl
      · rw [Function.update_of_ne hd]
        exact ok.member d
    · intro u d
      simp only [setMember_member,OrdMap.find?_insert]
      by_cases hd : d = c
      · subst hd
        rw [Function.update_self]
        split_ifs with hu
        · simp [hu]
        · have hnot : h.list.find? u ≠ some d := by
            rw [Ne,ok.registered,hc]
            simp
          simp [hnot,Ne.symm hu]
      · rw [Function.update_of_ne hd,← ok.registered u d]
        split_ifs with hu
        · rw [hu,hfind]
          simp [Ne.symm hd]
        · rfl
    · intro r rm hrm d
      rw [ok.user r rm hrm d,setMember_member]
      by_cases hd : d = c
      · subst hd
        have hpos := ok.room_pos hrm
        have hne := hsess r rm hrm
        rw [Function.update_self]
        simp only [hne,false_iff]
        omega
      · rw [Function.update_of_ne hd]
    · intro d hd
      simp only [setMember_member] at hd ⊢
      by_cases hdc : d = c
      · subst hdc
        rw [Function.update_self] at hd
        have hneg : ¬ 0 < (-1 : ℤ) := by decide
        exact absurd hd hneg
      · rw [Function.update_of_ne hdc] at hd ⊢
        exact ok.found d hd
    · intro r rm hrm k ss hss
      exact ok.session_update _ hrm hss (fun he => absurd he (hsess r rm hrm))

theorem enterRoom (ok : h.Ok) (c : CClientPtr) (rid : ℤ) : (h.enterRoom c rid).Ok := by
  unfold Hall.enterRoom
  split_ifs with hst
  · exact ok
  · obtain ⟨hst,htsk⟩ := not_or.mp hst
    have hst : (h.member c).state = .stOnline := not_not.mp hst
    have htsk : (h.member c).ctsk = true := by simpa using htsk
    cases hadm : (h.rooms.find? rid).bind (fun rm => rm.addUser c) with
    | none => exact ok
    | some rm' =>
      obtain ⟨rm,hrm,hadm⟩ := Option.bind_eq_some_iff.mp hadm
      obtain ⟨hcfg,hsess,huser⟩ := CRoom.addUser_some hadm
      have hpos := ok.room_pos hrm
      have hroom : (h.member c).roomid = -1 := (ok.member c).noRoom (by rw [hst]; rfl)
      have hsid : (h.member c).sessionid = -1 := (ok.member c).noSession (by rw [hst]; rfl)
      have hm : ({ h.member c with state := .stIdle, roomid := rid } : Member).Ok :=
        .idle rfl htsk hpos hsid
      apply ok.put hrm hcfg hm rfl rfl (.inl hroom) (.inr rfl)
      · intro d
        rw [huser d,ok.user rid rm hrm d]
        by_cases hd : d = c
        · simp [hd]
        · simp [hd]
      · intro k ss hss
        rw [hsess] at hss
        apply ok.session_update _ hrm hss
        intro _
        omega

theorem leaveRoom (ok : h.Ok) {c : CClientPtr} {h' : Hall} (hsid : (h.member c).sessionid = -1)
    (hl : h.leaveRoom c = some h') : h'.Ok := by
  obtain ⟨rm',hdis,rfl⟩ := Option.map_eq_some_iff.mp hl
  obtain ⟨rm,hrm,hdis⟩ := Option.bind_eq_some_iff.mp hdis
  obtain ⟨hin,hcfg,hsess,huser⟩ := CRoom.dismiss_some hdis
  have hpos := ok.room_pos hrm
  have htsk := (ok.member c).ctsk_of_roomid hpos
  have hm : ({ h.member c with state := .stOnline, roomid := -1 } : Member).Ok :=
    .online rfl htsk rfl hsid
  apply ok.put hrm hcfg hm rfl rfl (.inr rfl) (.inl rfl)
  · intro d
    rw [huser d,ok.user _ rm hrm d]
    by_cases hd : d = c
    · subst hd
      simp only [ne_eq,not_true_eq_false,false_and,Function.update_self,false_iff]
      omega
    · simp [hd]
  · intro k ss hss
    rw [hsess] at hss
    apply ok.session_update _ hrm hss
    intro _
    omega

/-! ### Sessions -/

theorem newSession (ok : h.Ok) {c : CClientPtr} {h' : Hall} (hn : h.newSession c = some h') :
    h'.Ok := by
  unfold Hall.newSession at hn
  split_ifs at hn with hst
  obtain ⟨hidle,htsk,hpos⟩ := hst
  obtain ⟨rm,hrm,hn⟩ := Option.bind_eq_some_iff.mp hn
  split_ifs at hn with hin
  cases hn
  have hsid : (h.member c).sessionid = -1 := (ok.member c).noSession (by rw [hidle]; rfl)
  have hseed := CSession.genid_range h.idseed
  generalize CSession.genid h.idseed = gen at hseed ⊢
  obtain ⟨hlt,hkey⟩ := hseed
  have hstate : isIn .stSessional (stInSession ||| stPlaying) = true := by decide
  have hm : ({ h.member c with state := .stSessional, sessionid := gen.2 } : Member).Ok :=
    .seated hstate htsk hpos (Int.natCast_pos.mpr hkey.1)
  have hnew : (CSession.new c .create gen.2).Ok (Function.update h.member c
      { h.member c with state := .stSessional, sessionid := gen.2 }) (h.member c).roomid gen.2 := by
    refine ⟨rfl,hkey,by simp [CSession.members,CSession.new],?_,?_,?_,?_,?_,?_⟩
    · simp [CSession.members,CSession.new,OrdSet.empty]
    all_goals simp [CSession.new]
  have hput : ((h.setRoom (h.member c).roomid
      (rm.setSession gen.2 (CSession.new c .create gen.2))).setMember c
        { h.member c with state := .stSessional, sessionid := gen.2 }).Ok :=
    ok.put hrm rfl hm rfl rfl (.inr rfl) (.inr rfl) (ok.user_update hrm rfl _ _)
      (ok.session_setSession hrm (.inl hsid) hnew)
  exact hput.setIdseed hlt

theorem leaveSession (ok : h.Ok) {c : CClientPtr} {h' : Hall} (hl : h.leaveSession c = some h') :
    h'.Ok := by
  unfold Hall.leaveSession at hl
  split_ifs at hl with hst
  obtain ⟨htsk,hpos,hsid⟩ := hst
  obtain ⟨rm,hrm,hl⟩ := Option.bind_eq_some_iff.mp hl
  obtain ⟨ss',hun,rfl⟩ := Option.map_eq_some_iff.mp hl
  obtain ⟨ss,hss,hun⟩ := Option.bind_eq_some_iff.mp hun
  have hok := ok.session _ rm hrm _ ss hss
  have hmem : c ∈ ss.members := CSession.unseat_isSome.mp (by rw [hun]; rfl)
  have hkey := hok.sessionid c hmem
  generalize Scan.toUInt32 (h.member c).sessionid = k at hss hok hkey ⊢
  have hm : ({ h.member c with state := .stIdle, sessionid := -1 } : Member).Ok :=
    .idle rfl htsk hpos rfl
  refine ok.put hrm ?_ hm rfl rfl (.inr rfl) (.inr rfl) ?_ ?_
  · unfold putSession
    split_ifs <;> rfl
  · refine ok.user_update hrm ?_ _ _
    unfold putSession
    split_ifs <;> rfl
  · unfold putSession
    split_ifs with hempty
    · intro k' ss₀ h₀
      simp only [CRoom.eraseSession,OrdMap.find?_erase] at h₀
      split_ifs at h₀ with hk
      apply ok.session_update _ hrm h₀
      intro _
      omega
    · exact ok.session_setSession hrm (.inr hkey) (hok.unseat hempty hun)

theorem joinSession (ok : h.Ok) {c : CClientPtr} {sid : ℤ} {join : CSession → Option CSession}
    {st : CClient.State} {h' : Hall} (hidle : (h.member c).state = .stIdle)
    (hsid : -2^31 ≤ sid ∧ sid < 2^31) (hst : st.isIn (stInSession ||| stPlaying) = true)
    (hjoin : ∀ (m : CClientPtr → Member) (r : ℤ) (k : ℕ) (ss ss' : CSession), ss.Ok m r k →
      c ∉ ss.members → (m c).roomid = r → (m c).sessionid = k → (m c).state = st →
      join ss = some ss' → ss'.Ok m r k)
    (hj : h.joinSession c sid join st = some h') : h'.Ok := by
  unfold Hall.joinSession at hj
  split_ifs at hj with hc
  obtain ⟨htsk,hpos,hneg⟩ := hc
  obtain ⟨rm,hrm,rfl⟩ := Option.map_eq_some_iff.mp hj
  have hno : (h.member c).sessionid = -1 := (ok.member c).noSession (by rw [hidle]; rfl)
  cases hbind : (rm.sessions.find? (Scan.toUInt32 sid)).bind join with
  | none => exact ok
  | some ss' =>
    obtain ⟨ss,hss,hjoined⟩ := Option.bind_eq_some_iff.mp hbind
    have hok := ok.session _ rm hrm _ ss hss
    have hkey := ok.toUInt32_key hrm hsid hss
    generalize Scan.toUInt32 sid = k at hss hok hkey ⊢
    subst hkey
    have hout : c ∉ ss.members := by
      apply ok.not_mem_members hrm hss
      intro _
      omega
    have hm : ({ h.member c with state := st, sessionid := k } : Member).Ok :=
      .seated hst htsk hpos (Int.natCast_pos.mpr hok.key.1)
    refine ok.put hrm rfl hm rfl rfl (.inr rfl) (.inr rfl) (ok.user_update hrm rfl _ _)
      (ok.session_setSession hrm (.inl hno) ?_)
    refine hjoin _ _ _ ss ss' (hok.update hout _) hout ?_ ?_ ?_ hjoined
    all_goals rw [Function.update_self]

theorem enterSession (ok : h.Ok) {c : CClientPtr} {sid : ℤ} {h' : Hall}
    (hidle : (h.member c).state = .stIdle) (hsid : -2^31 ≤ sid ∧ sid < 2^31)
    (he : h.enterSession c sid = some h') : h'.Ok :=
  ok.joinSession hidle hsid (by decide)
    (fun _ _ _ _ _ hok hout hr hs hst hts => hok.takeSeat hout hr hs hst hts) he

theorem watchSession (ok : h.Ok) {c : CClientPtr} {sid : ℤ} {h' : Hall}
    (hidle : (h.member c).state = .stIdle) (hsid : -2^31 ≤ sid ∧ sid < 2^31)
    (hw : h.watchSession c sid = some h') : h'.Ok :=
  ok.joinSession hidle hsid (by decide)
    (fun _ _ _ _ _ hok hout hr hs hst haw => hok.addWatcher hout hr hs hst haw) hw

/-- A player's state changes within its session. -/
theorem setPlayer (ok : h.Ok) {c : CClientPtr} {r : ℤ} {rm : CRoom} {k : ℕ} {ss : CSession}
    {st : CClient.State} (hrm : h.rooms.find? r = some rm) (hss : rm.sessions.find? k = some ss)
    (hc : ss.owner = some c ∨ ss.opponent = some c)
    (hst : st.isIn (stInSession ||| stPlaying) = true) (hw : st ≠ .stWatching)
    (hready : st = .stReady → ∀ d, d ≠ c → ss.owner = some d ∨ ss.opponent = some d →
      (h.member d).state ≠ .stReady) :
    ({ h with member := setState h.member c st } : Hall).Ok := by
  have hok := ok.session r rm hrm k ss hss
  have hmem : c ∈ ss.members := by
    rw [CSession.mem_members]
    exact hc.imp_right .inl
  have hroom := hok.roomid c hmem
  have hsid := hok.sessionid c hmem
  refine ok.setStates ?_ (fun d => by simp) (fun d => by simp) (fun d => by simp) ?_
  · intro d
    by_cases hd : d = c
    · subst hd
      have hpos := Int.natCast_pos.mpr hok.key.1
      have hin : ({ h.member d with state := st } : Member).Ok :=
        .seated hst ((ok.member d).ctsk_of_sessionid (hsid ▸ hpos))
          ((ok.member d).roomid_pos (hsid ▸ hpos)) (hsid ▸ hpos)
      rwa [setState,Function.update_self]
    · rw [setState_of_ne hd]
      exact ok.member d
  · intro r' rm' hrm' k' ss' hss'
    by_cases hsame : r' = r ∧ k' = k
    · obtain ⟨rfl,rfl⟩ := hsame
      rw [hrm] at hrm'
      cases hrm'
      rw [hss] at hss'
      cases hss'
      exact hok.setState hc hw hready
    · apply ok.session_update _ hrm' hss'
      rw [hroom,hsid]
      rintro rfl hk
      exact hsame ⟨rfl,(Int.natCast_inj.mp hk).symm⟩

theorem ready (ok : h.Ok) {c : CClientPtr} {h' : Hall} (hr : h.ready c = some h') : h'.Ok := by
  unfold Hall.ready at hr
  split_ifs at hr with hst
  obtain ⟨rm,hrm,hr⟩ := Option.bind_eq_some_iff.mp hr
  obtain ⟨m',hm',rfl⟩ := Option.map_eq_some_iff.mp hr
  obtain ⟨ss,hss,hm'⟩ := Option.bind_eq_some_iff.mp hm'
  have hok := ok.session _ rm hrm _ ss hss
  rcases readyMembers_some hok.nodup hm' with ⟨hc,hother,rfl⟩ | ⟨a,b,hab,hseats,-,rfl⟩
  · exact ok.setPlayer hrm hss hc (by decide) (by decide) (fun _ => hother)
  · have ha : ss.owner = some a ∨ ss.opponent = some a := hseats.imp And.left And.right
    have hb : ss.owner = some b ∨ ss.opponent = some b := (hseats.imp And.right And.left).symm
    have hmove : ({ h with member := setState h.member a .stMoving } : Hall).Ok :=
      ok.setPlayer hrm hss ha (by decide) (by decide) nofun
    exact hmove.setPlayer hrm hss hb (by decide) (by decide) nofun

/-! ### Disconnection -/

/-- A client outside every room goes offline. -/
theorem retire (ok : h.Ok) {c : CClientPtr} (hroom : (h.member c).roomid = -1)
    (hsid : (h.member c).sessionid = -1) (hc : (h.member c).ctsk = true) : (h.retire c).Ok := by
  have hout : ∀ r rm, h.rooms.find? r = some rm → (h.member c).roomid ≠ r := by
    intro r rm hrm
    have hpos := ok.room_pos hrm
    omega
  refine ⟨ok.idseed,?_,?_,ok.room,?_,?_,?_⟩
  · intro d
    simp only [Hall.retire,setMember_member]
    by_cases hd : d = c
    · subst hd
      rw [Function.update_self]
      exact .offline rfl rfl hroom hsid
    · rw [Function.update_of_ne hd]
      exact ok.member d
  · intro u d
    have hreg := (ok.registered (h.member c).uname c).mpr ⟨hc,rfl⟩
    simp only [Hall.retire,setMember_member,OrdMap.find?_erase]
    by_cases hd : d = c
    · subst hd
      rw [Function.update_self]
      split_ifs with hu
      · simp
      · simp [ok.registered,Ne.symm hu]
    · rw [Function.update_of_ne hd,← ok.registered u d]
      split_ifs with hu
      · rw [hu,hreg]
        simp [Ne.symm hd]
      · rfl
  · intro r rm hrm d
    rw [ok.user r rm hrm d]
    simp only [Hall.retire,setMember_member]
    by_cases hd : d = c
    · subst hd
      rw [Function.update_self]
    · rw [Function.update_of_ne hd]
  · intro d hd
    simp only [Hall.retire,setMember_member] at hd ⊢
    by_cases hdc : d = c
    · subst hdc
      rw [Function.update_self] at hd ⊢
      exact ok.found d hd
    · rw [Function.update_of_ne hdc] at hd ⊢
      exact ok.found d hd
  · intro r rm hrm k ss hss
    exact ok.session_update _ hrm hss (fun he => absurd he (hout r rm hrm))

theorem dropSession (ok : h.Ok) {c : CClientPtr} {h' : Hall} (hd : h.dropSession c = some h') :
    h'.Ok ∧ (h'.member c).sessionid = -1 ∧ (h'.member c).ctsk = (h.member c).ctsk := by
  unfold Hall.dropSession at hd
  split_ifs at hd with hpos
  · refine ⟨ok.leaveSession hd,?_⟩
    unfold Hall.leaveSession at hd
    split_ifs at hd
    obtain ⟨rm,-,hd⟩ := Option.bind_eq_some_iff.mp hd
    obtain ⟨ss,-,rfl⟩ := Option.map_eq_some_iff.mp hd
    rw [setMember_member,Function.update_self]
    exact ⟨rfl,rfl⟩
  · cases hd
    exact ⟨ok,(ok.member c).sessionid_cases.resolve_right hpos,rfl⟩

theorem dropRoom (ok : h.Ok) {c : CClientPtr} {h' : Hall} (hsid : (h.member c).sessionid = -1)
    (hd : h.dropRoom c = some h') :
    h'.Ok ∧ (h'.member c).sessionid = -1 ∧ (h'.member c).roomid = -1 ∧
      (h'.member c).ctsk = (h.member c).ctsk := by
  unfold Hall.dropRoom at hd
  split_ifs at hd with hpos
  · refine ⟨ok.leaveRoom hsid hd,?_⟩
    obtain ⟨rm,-,rfl⟩ := Option.map_eq_some_iff.mp hd
    rw [setMember_member,Function.update_self]
    exact ⟨hsid,rfl,rfl⟩
  · cases hd
    exact ⟨ok,hsid,(ok.member c).roomid_cases.resolve_right hpos,rfl⟩

theorem breakLine (ok : h.Ok) {c : CClientPtr} {h' : Hall} (hc : (h.member c).ctsk = true)
    (hb : h.breakLine c = some h') : h'.Ok := by
  obtain ⟨h₂,h₂b,rfl⟩ := Option.map_eq_some_iff.mp hb
  obtain ⟨h₁,h₁b,h₂b⟩ := Option.bind_eq_some_iff.mp h₂b
  obtain ⟨ok₁,hsid₁,hc₁⟩ := ok.dropSession h₁b
  obtain ⟨ok₂,hsid₂,hroom₂,hc₂⟩ := ok₁.dropRoom hsid₁ h₂b
  exact ok₂.retire hroom₂ hsid₂ (hc₂.trans (hc₁.trans hc))

/-! ### Steps and runs -/

theorem act (ok : h.Ok) {a : Action} {h' : Hall} (hg : h.Guard a) (ha : h.act a = some h') :
    h'.Ok := by
  cases a with
  | quiet =>
    cases ha
    exact ok
  | login c uname =>
    cases ha
    exact ok.login hg uname
  | enterRoom c rid =>
    cases ha
    exact ok.enterRoom c rid
  | leaveRoom c =>
    have hsid : (h.member c).sessionid = -1 := (ok.member c).noSession (by rw [hg.2]; rfl)
    simp only [Hall.act] at ha
    split_ifs at ha
    exact ok.leaveRoom hsid ha
  | newSession c => exact ok.newSession ha
  | enterSession c sid => exact ok.enterSession hg.2.1 hg.2.2 ha
  | leaveSession c => exact ok.leaveSession ha
  | watchSession c sid => exact ok.watchSession hg.2.1 hg.2.2 ha
  | ready c => exact ok.ready ha
  | listSessions c =>
    simp only [Hall.act] at ha
    split_ifs at ha
    cases ha
    exact ok
  | disconnect c => exact ok.breakLine hg ha

theorem step (ok : h.Ok) {e : Event} {h' : Hall} (hs : Step h e h') : h'.Ok :=
  ok.act (h.action_guard e) hs

end Ok

/-- Every room of a new hall is a new room under its own id. -/
theorem createRooms_find? (cfgs : List CRoomConfig) {r : ℤ} {rm : CRoom}
    (hrm : (CEngine.createRooms cfgs).find? r = some rm) :
    ∃ cfg, rm = CRoom.new cfg ∧ (cfg.id : ℤ) = r := by
  have hfold : ∀ (cfgs : List CRoomConfig) (rooms : OrdMap ℤ CRoom),
      (∀ r rm, rooms.find? r = some rm → ∃ cfg, rm = CRoom.new cfg ∧ (cfg.id : ℤ) = r) →
      ∀ r rm, (cfgs.foldl (fun rooms cfg => rooms.insert (cfg.id : ℤ) (CRoom.new cfg)) rooms).find?
        r = some rm → ∃ cfg, rm = CRoom.new cfg ∧ (cfg.id : ℤ) = r := by
    intro cfgs
    induction cfgs with
    | nil => exact fun rooms hrooms => hrooms
    | cons cfg cfgs ih =>
      intro rooms hrooms
      apply ih _
      intro r rm hrm
      rw [OrdMap.find?_insert] at hrm
      split_ifs at hrm with hr
      · cases hrm
        exact ⟨cfg,rfl,hr.symm⟩
      · exact hrooms r rm hrm
  exact hfold cfgs OrdMap.empty (fun r rm h => by cases h) r rm hrm

theorem create_ok (cfgs : List CRoomConfig) : (CEngine.create cfgs).hall.Ok := by
  have hroom : ∀ r rm, (CEngine.create cfgs).hall.rooms.find? r = some rm →
      ∃ cfg, rm = CRoom.new cfg ∧ (cfg.id : ℤ) = r := fun r rm hrm => createRooms_find? cfgs hrm
  have hseed : (0 : ℕ) < 20000 := by decide
  refine ⟨hseed,fun c => .offline rfl rfl rfl rfl,?_,?_,?_,?_,?_⟩
  · intro u c
    refine ⟨fun h => (by cases h),?_⟩
    rintro ⟨h,-⟩
    cases h
  · intro r rm hrm
    obtain ⟨cfg,rfl,hr⟩ := hroom r rm hrm
    exact hr
  · intro r rm hrm c
    obtain ⟨cfg,rfl,hr⟩ := hroom r rm hrm
    have hid := cfg.id_pos
    have hroomid : ((CEngine.create cfgs).hall.member c).roomid = -1 := rfl
    rw [hroomid]
    refine ⟨fun hc => absurd hc (OrdSet.not_mem_empty c),?_⟩
    omega
  · intro c hc
    have hneg : ¬ 0 < (-1 : ℤ) := by decide
    exact absurd hc hneg
  · intro r rm hrm k ss hss
    obtain ⟨cfg,rfl,-⟩ := hroom r rm hrm
    cases hss

/-- The invariant holds in every state a run of the engine ends in. -/
theorem ok_of_run {cfgs : List CRoomConfig} {es : List Event} {s : CEngine}
    (hrun : (CEngine.create cfgs).run es = .ok s) : s.hall.Ok :=
  (run_ok_hall hrun).invariant (fun _ _ _ ok hs => ok.step hs) (create_ok cfgs)

end Hall
end CcniServer
