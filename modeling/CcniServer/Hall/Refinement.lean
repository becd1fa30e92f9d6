import CcniServer.Hall.Guests

/-!
The engine seats its guests by the rules: while no session loses a member to another one, each
step of the engine is the move of a guest, taken or refused as the places of all guests say.
-/
namespace CcniServer
open Seating (Side Phase Role Place Rules Move)

namespace Hall
variable {h h' : Hall} {c : CClientPtr}

/-! ### Placing one client -/

/-- The clients are where they were, but for one that is at a place of its own. -/
structure Placed (h : Hall) (c : CClientPtr) (p : Place ℤ ℤ) (h' : Hall) : Prop where
  guests : h'.guests = h.guests.put c p
  rules : h'.rules = h.rules
  standard : h'.Standard

theorem Placed.trans {h'' : Hall} {p q : Place ℤ ℤ} (h₁ : Placed h c p h')
    (h₂ : Placed h' c q h'') : Placed h c q h'' :=
  ⟨by rw [h₂.guests,h₁.guests,Seating.put_put],h₂.rules.trans h₁.rules,h₂.standard⟩

/-- The members of one room and the fields of one client change, and nobody else becomes or
ceases to be an owner. -/
theorem placeOf_put {r : ℤ} {rm rm' : CRoom} {m' : Member} (hrm : h.rooms.find? r = some rm)
    (hown : ∀ k d, d ≠ c → ((rm'.sessions.find? k).bind CSession.owner = some d ↔
      (rm.sessions.find? k).bind CSession.owner = some d)) {d : CClientPtr} (hd : d ≠ c) :
    ((h.setRoom r rm').setMember c m').placeOf d = h.placeOf d := by
  have hside : ((h.setRoom r rm').setMember c m').sideOf d = h.sideOf d := by
    unfold sideOf ownerOf
    simp only [setMember_member,setMember_rooms,setRoom_member,setRoom_rooms,OrdMap.find?_insert,
      Function.update_of_ne hd]
    split_ifs with hr howner hown' hown'
    · rfl
    · rw [hr,hrm] at hown'
      exact absurd ((hown _ d hd).mp howner) hown'
    · rw [hr,hrm] at hown'
      exact absurd ((hown _ d hd).mpr hown') howner
    · rfl
    · rfl
    · rfl
  rw [placeOf,placeOf,hside,setMember_member,setRoom_member,Function.update_of_ne hd]

theorem Placed.put {r : ℤ} {rm rm' : CRoom} {m' : Member} {p : Place ℤ ℤ} (hst : h.Standard)
    (hrm : h.rooms.find? r = some rm) (hcfg : rm'.cfg = rm.cfg)
    (hname : m'.uname = (h.member c).uname)
    (hown : ∀ k d, d ≠ c → ((rm'.sessions.find? k).bind CSession.owner = some d ↔
      (rm.sessions.find? k).bind CSession.owner = some d))
    (hplain : ∀ k ss, rm'.sessions.find? k = some ss → ss.cfg = .create)
    (hp : ((h.setRoom r rm').setMember c m').placeOf c = p)
    (hstate : CClient.State.ofPlace p = m'.state) :
    Placed h c p ((h.setRoom r rm').setMember c m') := by
  have hplace : ∀ d, ((h.setRoom r rm').setMember c m').placeOf d =
      if d = c then p else h.placeOf d := by
    intro d
    split_ifs with hd
    · rw [hd,hp]
    · exact placeOf_put hrm hown hd
  refine ⟨?_,?_,?_,?_⟩
  · refine Seating.ext (fun d => ?_) fun d => ?_
    · rw [Seating.place_put]
      exact hplace d
    · change (Function.update h.member c m' d).uname = (h.member d).uname
      by_cases hd : d = c
      · rw [hd,Function.update_self,hname]
      · rw [Function.update_of_ne hd]
  · unfold Hall.rules
    congr 1
    funext r'
    simp only [setMember_rooms,setRoom_rooms,OrdMap.find?_insert]
    split_ifs with hr
    · rw [hr,hrm,Option.map_some,Option.map_some,hcfg]
    · rfl
  · intro r' rm₀ h₀ k ss hss
    simp only [setMember_rooms,setRoom_rooms,OrdMap.find?_insert] at h₀
    split_ifs at h₀ with hr
    · cases h₀
      exact hplain k ss hss
    · exact hst.plain r' rm₀ h₀ k ss hss
  · intro d
    rw [hplace,setMember_member,setRoom_member]
    split_ifs with hd
    · rw [hd,Function.update_self,hstate]
    · rw [Function.update_of_ne hd]
      exact hst.state d

/-- A client takes a seat in a session of its room. -/
theorem sideOf_put (rm' : CRoom) (st : CClient.State) (sid : ℤ) :
    ((h.setRoom (h.member c).roomid rm').setMember c
      { h.member c with state := st, sessionid := sid }).sideOf c =
      if (rm'.sessions.find? (Scan.toUInt32 sid)).bind CSession.owner = some c then .owner
      else .opponent := by
  unfold sideOf ownerOf
  simp only [setMember_member,setMember_rooms,setRoom_rooms,Function.update_self,
    OrdMap.find?_insert,if_true,Option.bind_some]

theorem placeOf_eq (c : CClientPtr) : h.placeOf c = placeAt (h.member c) (h.sideOf c) := rfl

theorem sideOf_setState (c d : CClientPtr) (st : CClient.State) :
    ({ h with member := Hall.setState h.member c st } : Hall).sideOf d = h.sideOf d := by
  unfold sideOf ownerOf
  simp only [setState_roomid,setState_sessionid]

/-- Only the state of one client changes. -/
theorem Placed.setState {st : CClient.State} {p : Place ℤ ℤ} (hst : h.Standard)
    (hp : placeAt { h.member c with state := st } (h.sideOf c) = p)
    (hstate : CClient.State.ofPlace p = st) :
    Placed h c p { h with member := Hall.setState h.member c st } := by
  have hplace : ∀ d, ({ h with member := Hall.setState h.member c st } : Hall).placeOf d =
      if d = c then p else h.placeOf d := by
    intro d
    rw [placeOf_eq,sideOf_setState]
    split_ifs with hd
    · rw [hd,← hp]
      exact congrArg (placeAt · (h.sideOf c)) (Function.update_self _ _ _)
    · rw [placeOf_eq]
      exact congrArg (placeAt · (h.sideOf d)) (setState_of_ne hd)
  refine ⟨?_,rfl,hst.plain,fun d => ?_⟩
  · refine Seating.ext (fun d => ?_) fun d => ?_
    · rw [Seating.place_put]
      exact hplace d
    · exact setState_uname h.member c d st
  · rw [hplace,setState_state]
    split_ifs with hd
    · exact hstate
    · exact hst.state d

theorem placeOf_idle (hc : (h.member c).state = .stIdle) :
    h.placeOf c = .room (h.member c).roomid := by
  rw [placeOf_eq,placeAt,hc]

theorem placeOf_online (hc : (h.member c).state = .stOnline) : h.placeOf c = .online := by
  rw [placeOf_eq,placeAt,hc]

theorem placeOf_offline (ok : h.Ok) (hc : (h.member c).ctsk = false) : h.placeOf c = .offline := by
  have hoff : (h.member c).state = .stOffline := by
    by_contra hne
    rw [(ok.member c).served.mpr hne] at hc
    cases hc
  rw [placeOf_eq,placeAt,hoff]

/-! ### Logins and rooms -/

theorem login_guests (ok : h.Ok) (hst : h.Standard) (hc : (h.member c).ctsk = false)
    (uname : String) : Seating.Step h.rules h.guests (.arrive c uname) (h.login c uname).guests ∧
      (h.login c uname).rules = h.rules ∧ (h.login c uname).Standard := by
  unfold Hall.login
  cases hfind : h.list.find? uname with
  | some c' => exact ⟨.nameTaken ((named_guests ok uname).mpr (by rw [hfind]; rfl)),rfl,hst⟩
  | none =>
    have hfree : ¬ h.guests.Named uname := by
      rw [named_guests ok uname,hfind]
      decide
    have hside : ∀ d, d ≠ c → ({ h.setMember c ⟨.stOnline,uname,-1,-1,true⟩ with
        list := h.list.insert uname c } : Hall).placeOf d = h.placeOf d := by
      intro d hd
      unfold placeOf sideOf ownerOf
      simp only [setMember_member,setMember_rooms,Function.update_of_ne hd]
    have hself : ({ h.setMember c ⟨.stOnline,uname,-1,-1,true⟩ with
        list := h.list.insert uname c } : Hall).placeOf c = .online := by
      apply placeOf_online
      simp
    refine ⟨?_,rfl,hst.plain,fun d => ?_⟩
    · convert Seating.Step.arrive (placeOf_offline ok hc) hfree using 1
      refine Seating.ext (fun d => ?_) fun d => ?_
      · rw [Seating.place_rename,Seating.place_put]
        split_ifs with hd
        · rw [hd]
          exact hself
        · exact hside d hd
      · rw [Seating.name_rename]
        split_ifs with hd
        · rw [hd]
          simp [guests]
        · simp [guests,hd]
    · by_cases hd : d = c
      · rw [hd,hself]
        simp [CClient.State.ofPlace]
      · rw [hside d hd,hst.state d]
        simp [hd]

theorem addUser_none {rm : CRoom} (h : rm.addUser c = none) (hc : c ∉ rm.usrlist) :
    rm.cfg.capacity ≤ rm.usrlist.size := by
  unfold CRoom.addUser at h
  split_ifs at h with hfull
  exact hfull

theorem addUser_lt {rm rm' : CRoom} (h : rm.addUser c = some rm') :
    rm.usrlist.size < rm.cfg.capacity := by
  unfold CRoom.addUser at h
  split_ifs at h with hfull
  exact not_le.mp hfull

theorem enterRoom_guests (ok : h.Ok) (hst : h.Standard) (hc : (h.member c).ctsk = true)
    (hon : (h.member c).state = .stOnline) (rid : ℤ) :
    Seating.Step h.rules h.guests (.enter c rid) (h.enterRoom c rid).guests ∧
      (h.enterRoom c rid).rules = h.rules ∧ (h.enterRoom c rid).Standard := by
  unfold Hall.enterRoom
  rw [if_neg (by simp [hon,hc])]
  cases hadd : (h.rooms.find? rid).bind (fun rm => rm.addUser c) with
  | none =>
    refine ⟨.full (placeOf_online hon) fun n hn => ?_,rfl,hst⟩
    obtain ⟨rm,hrm,rfl⟩ := Option.map_eq_some_iff.mp hn
    have hout : c ∉ rm.usrlist := by
      have hroom := (ok.member c).noRoom (by rw [hon]; rfl)
      have hpos := ok.room_pos hrm
      rw [ok.user rid rm hrm c]
      omega
    rw [hrm,Option.bind_some] at hadd
    rw [inRoom_guests ok hrm]
    exact Nat.cast_le.mpr (addUser_none hadd hout)
  | some rm' =>
    obtain ⟨rm,hrm,hadd⟩ := Option.bind_eq_some_iff.mp hadd
    obtain ⟨hcfg,hsess,-⟩ := CRoom.addUser_some hadd
    have hp : Placed h c (.room rid) ((h.setRoom rid rm').setMember c
        { h.member c with state := .stIdle, roomid := rid }) := by
      refine .put hst hrm hcfg rfl (fun k d _ => by rw [hsess]) (fun k ss hss => ?_) ?_ rfl
      · exact hst.plain rid rm hrm k ss (hsess ▸ hss)
      · rw [placeOf_idle (by simp)]
        simp
    refine ⟨?_,hp.rules,hp.standard⟩
    rw [hp.guests]
    refine .enter (n := rm.cfg.capacity) (placeOf_online hon) ?_ ?_
    · exact Option.map_eq_some_iff.mpr ⟨rm,hrm,rfl⟩
    · rw [inRoom_guests ok hrm]
      exact Nat.cast_lt.mpr (addUser_lt hadd)

theorem leaveRoom_placed (hst : h.Standard) (hl : h.leaveRoom c = some h') :
    Placed h c .online h' := by
  obtain ⟨rm',hdis,rfl⟩ := Option.map_eq_some_iff.mp hl
  obtain ⟨rm,hrm,hdis⟩ := Option.bind_eq_some_iff.mp hdis
  obtain ⟨-,hcfg,hsess,-⟩ := CRoom.dismiss_some hdis
  refine .put hst hrm hcfg rfl (fun k d _ => by rw [hsess]) (fun k ss hss => ?_) ?_ rfl
  · exact hst.plain _ rm hrm k ss (hsess ▸ hss)
  · exact placeOf_online (by simp)

/-! ### Sessions -/

/-- The sessions of a room after one of them was stored are plain if it is. -/
theorem Standard.plain_setSession (hst : h.Standard) {r : ℤ} {rm : CRoom} {k : ℕ} {ss : CSession}
    (hrm : h.rooms.find? r = some rm) (hss : ss.cfg = .create) (k' : ℕ) (ss' : CSession)
    (hss' : (rm.setSession k ss).sessions.find? k' = some ss') : ss'.cfg = .create := by
  simp only [CRoom.setSession,OrdMap.find?_insert] at hss'
  split_ifs at hss'
  · cases hss'
    exact hss
  · exact hst.plain r rm hrm k' ss' hss'

/-- Storing a session makes nobody else an owner whom the old one under its id has not. -/
theorem owner_setSession {rm : CRoom} {k : ℕ} {ss : CSession}
    (hown : ∀ d, d ≠ c →
      (ss.owner = some d ↔ (rm.sessions.find? k).bind CSession.owner = some d))
    (k' : ℕ) (d : CClientPtr) (hd : d ≠ c) :
    ((rm.setSession k ss).sessions.find? k').bind CSession.owner = some d ↔
      (rm.sessions.find? k').bind CSession.owner = some d := by
  rw [CRoom.setSession,OrdMap.find?_insert]
  split_ifs with hk
  · rw [hk]
    exact hown d hd
  · exact Iff.rfl

theorem newSession_placed (hst : h.Standard) (hseats : h.Seats (.newSession c))
    (hn : h.newSession c = some h') :
    Placed h c (.table (h.member c).roomid (CSession.genid h.idseed).2 (.player .owner .waiting))
      h' := by
  unfold Hall.newSession at hn
  split_ifs at hn with hidle
  obtain ⟨rm,hrm,hn⟩ := Option.bind_eq_some_iff.mp hn
  split_ifs at hn with hin
  cases hn
  have hfree := hseats rm hrm
  have hseed := CSession.genid_range h.idseed
  generalize CSession.genid h.idseed = gen at hfree hseed ⊢
  have hkey : Scan.toUInt32 (gen.2 : ℤ) = gen.2 := Scan.toUInt32_natCast (by omega)
  have hp : Placed h c (.table (h.member c).roomid gen.2 (.player .owner .waiting))
      ((h.setRoom (h.member c).roomid
        (rm.setSession gen.2 (CSession.new c .create gen.2))).setMember c
          { h.member c with state := .stSessional, sessionid := gen.2 }) := by
    refine .put hst hrm rfl rfl (owner_setSession fun d hd => ?_)
      (hst.plain_setSession hrm rfl) ?_ rfl
    · rw [hfree]
      simp [CSession.new,Ne.symm hd]
    · rw [placeOf_eq,sideOf_put]
      simp [hkey,CRoom.setSession,CSession.new,placeAt]
  exact ⟨hp.guests,hp.rules,hp.standard.plain,hp.standard.state⟩

theorem newSession_guests (hs : h.Seated) (ok : h.Ok) (hst : h.Standard)
    (hidle : (h.member c).state = .stIdle) (hseats : h.Seats (.newSession c))
    (hn : h.newSession c = some h') : Seating.Step h.rules h.guests (.found c) h'.guests := by
  obtain ⟨rm,hrm⟩ := ok.found c ((ok.member c).inRoom (by rw [hidle]; rfl))
  have hseed := CSession.genid_range h.idseed
  have hkey : Scan.toUInt32 ((CSession.genid h.idseed).2 : ℤ) = (CSession.genid h.idseed).2 :=
    Scan.toUInt32_natCast (by omega)
  rw [(newSession_placed hst hseats hn).guests]
  refine .found (placeOf_idle hidle) (Set.not_nonempty_iff_eq_empty.mp fun hne => ?_)
  have hsome := ((atTable_guests hs ok hrm).mp hne).1
  rw [hkey,hseats rm hrm] at hsome
  cases hsome

/-- A place in a session, where there is one. -/
theorem joinSession_cases {sid : ℤ} {join : CSession → Option CSession} {st : CClient.State}
    (hj : h.joinSession c sid join st = some h') :
    ∃ rm, h.rooms.find? (h.member c).roomid = some rm ∧
      (((rm.sessions.find? (Scan.toUInt32 sid)).bind join = none ∧ h' = h) ∨
      ∃ ss ss', rm.sessions.find? (Scan.toUInt32 sid) = some ss ∧ join ss = some ss' ∧
        h' = (h.setRoom (h.member c).roomid (rm.setSession (Scan.toUInt32 sid) ss')).setMember c
          { h.member c with state := st, sessionid := sid }) := by
  unfold Hall.joinSession at hj
  split_ifs at hj
  obtain ⟨rm,hrm,rfl⟩ := Option.map_eq_some_iff.mp hj
  refine ⟨rm,hrm,?_⟩
  cases hjoin : (rm.sessions.find? (Scan.toUInt32 sid)).bind join with
  | none => exact .inl ⟨rfl,rfl⟩
  | some ss' =>
    obtain ⟨ss,hss,hss'⟩ := Option.bind_eq_some_iff.mp hjoin
    exact .inr ⟨ss,ss',hss,hss',rfl⟩

/-- The table of a session that is not live is empty. -/
theorem not_taken (hs : h.Seated) (ok : h.Ok) {r sid : ℤ} {rm : CRoom}
    (hrm : h.rooms.find? r = some rm) (hnone : rm.sessions.find? (Scan.toUInt32 sid) = none)
    (side : Side) : ¬ h.guests.Taken r sid side := by
  rintro ⟨d,phase,hd⟩
  obtain ⟨hsome,-⟩ := (atTable_guests hs ok hrm).mp ⟨d,_,hd⟩
  rw [hnone] at hsome
  cases hsome

theorem enterSession_guests (hs : h.Seated) (ok : h.Ok) (hst : h.Standard)
    (hidle : (h.member c).state = .stIdle) {sid : ℤ} (hsid : -2^31 ≤ sid ∧ sid < 2^31)
    (hseats : h.Seats (.enterSession c sid)) (he : h.enterSession c sid = some h') :
    Seating.Step h.rules h.guests (.join c sid) h'.guests ∧ h'.rules = h.rules ∧ h'.Standard := by
  obtain ⟨rm,hrm,⟨hjoin,rfl⟩ | ⟨ss,ss',hss,htake,rfl⟩⟩ := joinSession_cases he
  · refine ⟨.noSeat (placeOf_idle hidle) fun side htaken => ?_,rfl,hst⟩
    cases hss : rm.sessions.find? (Scan.toUInt32 sid) with
    | none => exact absurd htaken (not_taken hs ok hrm hss side.other)
    | some ss =>
      rw [hss,Option.bind_some] at hjoin
      have hkey := ok.toUInt32_key hrm hsid hss
      rw [taken_guests hs ok hrm hss hkey]
      unfold CSession.takeSeat at hjoin
      cases how : ss.owner <;> cases hop : ss.opponent <;> simp only [how,hop,reduceCtorEq] at hjoin
      cases side <;> simp [CSession.seat,how,hop]
  · have hkey := ok.toUInt32_key hrm hsid hss
    have hplain := hst.plain _ rm hrm _ ss hss
    have htaken := taken_guests hs ok hrm hss hkey
    have hplaced : ∀ side : Side, ss.seat side = none → ss'.cfg = .create →
        (∀ d, d ≠ c → (ss'.owner = some d ↔ ss.owner = some d)) →
        (ss'.owner = some c ↔ side = .owner) →
        Placed h c (.table (h.member c).roomid sid (.player side .waiting))
          ((h.setRoom (h.member c).roomid (rm.setSession (Scan.toUInt32 sid) ss')).setMember c
            { h.member c with state := .stSessional, sessionid := sid }) := by
      intro side hnone hcfg hown hside
      refine .put hst hrm rfl rfl (owner_setSession fun d hd => ?_)
        (hst.plain_setSession hrm hcfg) ?_ rfl
      · rw [hss,Option.bind_some]
        exact hown d hd
      · rw [placeOf_eq,sideOf_put,CRoom.setSession,OrdMap.find?_insert,if_pos rfl,
          Option.bind_some]
        simp only [hside,setMember_member,Function.update_self,placeAt]
        cases side <;> rfl
    obtain ⟨how,hop,rfl⟩ | ⟨how,hop,rfl⟩ | ⟨how,hop,-⟩ := CSession.takeSeat_some htake
    · have hp := hplaced .opponent hop hplain (fun d _ => Iff.rfl) (by
        simp only [reduceCtorEq,iff_false]
        intro hself
        have hmem := (ok.session _ rm hrm _ ss hss).sessionid c (by simp [hself])
        have hno := (ok.member c).noSession (by rw [hidle]; rfl)
        omega)
      refine ⟨?_,hp.rules,hp.standard⟩
      rw [hp.guests]
      refine .join (placeOf_idle hidle) ((htaken .owner).mpr how) fun h => ?_
      exact (htaken .opponent).mp h hop
    · have hp := hplaced .owner how hplain (fun d hd => by simp [how,Ne.symm hd]) (by simp)
      refine ⟨?_,hp.rules,hp.standard⟩
      rw [hp.guests]
      refine .join (placeOf_idle hidle) ((htaken .opponent).mpr hop) fun h => ?_
      exact (htaken .owner).mp h how
    · exact absurd (hseats rm ss hrm hss) (by simp [how,hop])

theorem watchSession_guests (hs : h.Seated) (ok : h.Ok) (hst : h.Standard)
    (hidle : (h.member c).state = .stIdle) {sid : ℤ} (hsid : -2^31 ≤ sid ∧ sid < 2^31)
    (hw : h.watchSession c sid = some h') :
    Seating.Step h.rules h.guests (.watch c sid) h'.guests ∧ h'.rules = h.rules ∧ h'.Standard := by
  obtain ⟨rm,hrm,⟨hjoin,rfl⟩ | ⟨ss,ss',hss,hadd,rfl⟩⟩ := joinSession_cases hw
  · refine ⟨.noView (placeOf_idle hidle) fun hne => ?_,rfl,hst⟩
    obtain ⟨hsome,hkey⟩ := (atTable_guests hs ok hrm).mp hne
    obtain ⟨ss,hss⟩ := Option.isSome_iff_exists.mp hsome
    rw [hss,Option.bind_some] at hjoin
    rw [watching_guests hs ok hrm hss hkey]
    unfold CSession.addWatcher at hjoin
    split_ifs at hjoin with hfull
    rw [hst.plain _ rm hrm _ ss hss] at hfull
    exact Nat.cast_le.mpr (Int.toNat_le.mpr hfull)
  · have hkey := ok.toUInt32_key hrm hsid hss
    obtain ⟨-,how,-,-⟩ := CSession.addWatcher_some hadd
    have hplain := hst.plain _ rm hrm _ ss hss
    unfold CSession.addWatcher at hadd
    split_ifs at hadd with hfull
    have hcfg : ss'.cfg = .create := by
      cases hadd
      exact hplain
    have hp : Placed h c (.table (h.member c).roomid sid .watcher)
        ((h.setRoom (h.member c).roomid (rm.setSession (Scan.toUInt32 sid) ss')).setMember c
          { h.member c with state := .stWatching, sessionid := sid }) := by
      refine .put hst hrm rfl rfl (owner_setSession fun d _ => ?_)
        (hst.plain_setSession hrm hcfg) ?_ rfl
      · rw [hss,Option.bind_some,how]
      · rw [placeOf_eq,placeAt,setMember_member,Function.update_self]
    refine ⟨?_,hp.rules,hp.standard⟩
    rw [hp.guests]
    refine .watch (placeOf_idle hidle) ?_ ?_
    · rw [atTable_guests hs ok hrm,hss]
      exact ⟨rfl,hkey⟩
    · rw [watching_guests hs ok hrm hss hkey]
      rw [hplain] at hfull
      exact Nat.cast_lt.mpr (Int.lt_toNat.mpr (not_le.mp hfull))

theorem unseat_cfg {ss ss' : CSession} (h : ss.unseat c = some ss') : ss'.cfg = ss.cfg := by
  unfold CSession.unseat at h
  split_ifs at h <;> cases h <;> rfl

theorem leaveSession_placed (ok : h.Ok) (hst : h.Standard) (hl : h.leaveSession c = some h') :
    Placed h c (.room (h.member c).roomid) h' := by
  unfold Hall.leaveSession at hl
  split_ifs at hl with hc
  obtain ⟨rm,hrm,hl⟩ := Option.bind_eq_some_iff.mp hl
  obtain ⟨ss',hun,rfl⟩ := Option.map_eq_some_iff.mp hl
  obtain ⟨ss,hss,hun⟩ := Option.bind_eq_some_iff.mp hun
  have hok := ok.session _ rm hrm _ ss hss
  obtain ⟨-,how,-,-⟩ := CSession.unseat_some hok.nodup hun
  have hown : ∀ d, d ≠ c → (ss'.owner = some d ↔ ss.owner = some d) := by
    intro d hd
    rw [how d]
    exact and_iff_left hd
  have hp : placeAt { h.member c with state := .stIdle, sessionid := -1 } .owner =
      .room (h.member c).roomid := rfl
  unfold putSession
  split_ifs with hnil
  · refine .put hst hrm rfl rfl (fun k d hd => ?_) (fun k ss₀ hss₀ => ?_) ?_ rfl
    · rw [CRoom.eraseSession,OrdMap.find?_erase]
      split_ifs with hk
      · rw [hk,hss,Option.bind_none,Option.bind_some,← hown d hd]
        have hno : ss'.owner = none := by
          cases how' : ss'.owner with
          | none => rfl
          | some e => exact absurd (CSession.mem_members.mpr (.inl how')) (by simp [hnil])
        rw [hno]
      · exact Iff.rfl
    · rw [CRoom.eraseSession,OrdMap.find?_erase] at hss₀
      split_ifs at hss₀
      exact hst.plain _ rm hrm k ss₀ hss₀
    · exact placeOf_idle (by simp) |>.trans (by simp)
  · refine .put hst hrm rfl rfl (owner_setSession fun d hd => ?_)
      (hst.plain_setSession hrm ((unseat_cfg hun).trans (hst.plain _ rm hrm _ ss hss))) ?_ rfl
    · rw [hss,Option.bind_some]
      exact hown d hd
    · exact placeOf_idle (by simp) |>.trans (by simp)

/-! ### Games -/

/-- In a plain session the owner moves. -/
theorem readyMembers_plain {ss : CSession} {m m' : CClientPtr → Member} (hcfg : ss.cfg = .create)
    (hnd : ss.members.Nodup) (hr : readyMembers ss m c = some m') :
    (∃ side, ss.seat side = some c ∧
      (∀ d, ss.seat side.other = some d → (m d).state ≠ .stReady) ∧
      m' = Hall.setState m c .stReady) ∨
    ∃ a b, a ≠ b ∧ ss.owner = some a ∧ ss.opponent = some b ∧
      (c = a ∧ (m b).state = .stReady ∨ c = b ∧ (m a).state = .stReady) ∧
      m' = Hall.setState (Hall.setState m a .stMoving) b .stPondering := by
  have hone := (CSession.nodup_members.mp hnd).1
  obtain ⟨hc,hwait,rfl⟩ | ⟨a,b,hab,hpair,hready,rfl⟩ := readyMembers_some hnd hr
  · left
    have hother : ∀ side : Side, ss.seat side = some c → ∀ d, ss.seat side.other = some d →
        (m d).state ≠ .stReady := by
      intro side hside d hd
      have hdc : d ≠ c := by
        rintro rfl
        cases side with
        | owner => exact hone d hside hd
        | opponent => exact hone d hd hside
      apply hwait d hdc
      cases side with
      | owner => exact .inr hd
      | opponent => exact .inl hd
    obtain how | hop := hc
    · exact ⟨.owner,how,hother .owner how,rfl⟩
    · exact ⟨.opponent,hop,hother .opponent hop,rfl⟩
  · right
    obtain ⟨how,hop⟩ | ⟨how,hop⟩ := hpair
    · exact ⟨a,b,hab,how,hop,hready,rfl⟩
    · -- The colour that the configuration gives excludes the other order.
      exfalso
      have hstart : Hall.setState (Hall.setState m a .stMoving) b .stPondering =
          startGame ss (Hall.setState m c .stReady) b a := by
        unfold readyMembers at hr
        obtain ⟨rfl,hb⟩ | ⟨rfl,ha⟩ := hready
        · have hne : ss.owner ≠ some c := fun h => hab (Option.some.inj (h.symm.trans how))
          simp only [how,hop,if_true,Option.some.injEq,hab.symm,if_false,
            setState_of_ne hab.symm,hb] at hr
          exact hr.symm
        · simp only [how,hop,if_true,Option.some.injEq,setState_of_ne hab,ha] at hr
          exact hr.symm
      have hstate := congrArg (fun m => (m a).state) hstart
      simp [startGame,hcfg,CSessionConfig.create,hab] at hstate

/-- The place of a player in a state that goes with its side. -/
theorem placeAt_seat (ok : h.Ok) {r : ℤ} {rm : CRoom} {k : ℕ} {ss : CSession} {side : Side}
    {d : CClientPtr} (hrm : h.rooms.find? r = some rm) (hss : rm.sessions.find? k = some ss)
    (hd : ss.seat side = some d) {st : CClient.State} (phase : Phase)
    (hst : CClient.State.ofPlace (.table 0 0 (.player side phase)) = st) :
    placeAt { h.member d with state := st } (h.sideOf d) = .table r k (.player side phase) := by
  have hok := ok.session r rm hrm k ss hss
  have hmem := CSession.mem_of_seat hd
  rw [sideOf_seat ok hrm hss hd,← hst,← hok.roomid d hmem,← hok.sessionid d hmem]
  cases side <;> cases phase <;> rfl

theorem ready_guests (hs : h.Seated) (ok : h.Ok) (hst : h.Standard)
    (hsess : (h.member c).state = .stSessional) (hr : h.ready c = some h') :
    Seating.Step h.rules h.guests (.ready c) h'.guests ∧ h'.rules = h.rules ∧ h'.Standard := by
  unfold Hall.ready at hr
  split_ifs at hr with hc
  obtain ⟨rm,hrm,hr⟩ := Option.bind_eq_some_iff.mp hr
  obtain ⟨m',hm',rfl⟩ := Option.map_eq_some_iff.mp hr
  obtain ⟨ss,hss,hm'⟩ := Option.bind_eq_some_iff.mp hm'
  have hok := ok.session _ rm hrm _ ss hss
  have hplace : ∀ (side : Side) (d : CClientPtr) (phase : Phase), ss.seat side = some d →
      CClient.State.ofPlace (.table 0 0 (.player side phase)) = (h.member d).state →
      h.placeOf d = .table (h.member c).roomid (Scan.toUInt32 (h.member c).sessionid)
        (.player side phase) := fun side d phase hd => placeAt_seat ok hrm hss hd phase
  obtain ⟨side,hseat,hwait,rfl⟩ | ⟨a,b,hab,how,hop,hready,rfl⟩ :=
    readyMembers_plain (hst.plain _ rm hrm _ ss hss) hok.nodup hm'
  · have hphase : CClient.State.ofPlace (.table 0 0 (.player side .ready)) = .stReady := by
      cases side <;> rfl
    have hp := Placed.setState hst (placeAt_seat ok hrm hss hseat .ready hphase) hphase
    refine ⟨?_,hp.rules,hp.standard⟩
    rw [hp.guests]
    refine .ready (hplace side c .waiting hseat (by rw [hsess]; cases side <;> rfl)) fun d hd => ?_
    -- A guest on the other side who is ready has the other seat.
    obtain ⟨rm',ss',hrm',hss',-,hseat'⟩ := seat_of_place hs ok hd
    rw [hrm] at hrm'
    cases hrm'
    rw [Scan.toUInt32_natCast (by have := hok.key; omega),hss] at hss'
    cases hss'
    apply hwait d hseat'
    rw [← hst.state d]
    exact (congrArg CClient.State.ofPlace hd).trans (by cases side <;> rfl)
  · have how : ss.seat .owner = some a := how
    have hop : ss.seat .opponent = some b := hop
    have hpa : Placed h a (.table (h.member c).roomid (Scan.toUInt32 (h.member c).sessionid)
        (.player .owner .playing)) { h with member := Hall.setState h.member a .stMoving } :=
      .setState hst (placeAt_seat ok hrm hss how .playing rfl) rfl
    have hbm : Hall.setState h.member a .stMoving b = h.member b := setState_of_ne hab.symm
    have hpb : placeAt { Hall.setState h.member a .stMoving b with state := .stPondering }
        (({ h with member := Hall.setState h.member a .stMoving } : Hall).sideOf b) =
        .table (h.member c).roomid (Scan.toUInt32 (h.member c).sessionid)
          (.player .opponent .playing) := by
      rw [sideOf_setState,hbm]
      exact placeAt_seat ok hrm hss hop .playing rfl
    have hp := Placed.setState hpa.standard hpb rfl
    refine ⟨?_,hp.rules.trans hpa.rules,hp.standard⟩
    rw [hp.guests,hpa.guests]
    obtain ⟨rfl,hb⟩ | ⟨rfl,ha⟩ := hready
    · have hc := hplace .owner c .waiting how hsess.symm
      have hb := hplace .opponent b .ready hop hb.symm
      exact Seating.Step.begins hc hb
    · rw [Seating.put_comm hab]
      have hc := hplace .opponent c .waiting hop hsess.symm
      have ha := hplace .owner a .ready how ha.symm
      exact Seating.Step.begins hc ha

/-! ### Steps -/

theorem retire_placed (hst : h.Standard) (c : CClientPtr) : Placed h c .offline (h.retire c) := by
  have hplace : ∀ d, (h.retire c).placeOf d = if d = c then .offline else h.placeOf d := by
    intro d
    split_ifs with hd
    · rw [hd,placeOf_eq,placeAt]
      simp [Hall.retire]
    · unfold placeOf sideOf ownerOf
      simp only [Hall.retire,setMember_member,setMember_rooms,Function.update_of_ne hd]
  refine ⟨Seating.ext (fun d => ?_) fun d => ?_,rfl,hst.plain,fun d => ?_⟩
  · rw [Seating.place_put]
    exact hplace d
  · change (Function.update h.member c _ d).uname = (h.member d).uname
    by_cases hd : d = c
    · rw [hd,Function.update_self]
    · rw [Function.update_of_ne hd]
  · rw [hplace]
    split_ifs with hd
    · rw [hd]
      simp [Hall.retire,CClient.State.ofPlace]
    · rw [hst.state d]
      simp [Hall.retire,hd]

theorem placed_self (hst : h.Standard) (c : CClientPtr) : Placed h c (h.placeOf c) h := by
  refine ⟨Seating.ext (fun d => ?_) fun d => rfl,rfl,hst⟩
  rw [Seating.place_put]
  split_ifs with hd
  · rw [hd]
    rfl
  · rfl

theorem breakLine_guests (ok : h.Ok) (hst : h.Standard) (hb : h.breakLine c = some h') :
    Seating.Step h.rules h.guests (.vanish c) h'.guests ∧ h'.rules = h.rules ∧ h'.Standard := by
  obtain ⟨h₂,h₂b,rfl⟩ := Option.map_eq_some_iff.mp hb
  obtain ⟨h₁,h₁b,h₂b⟩ := Option.bind_eq_some_iff.mp h₂b
  obtain ⟨p₁,hp₁⟩ : ∃ p, Placed h c p h₁ := by
    unfold Hall.dropSession at h₁b
    split_ifs at h₁b
    · exact ⟨_,leaveSession_placed ok hst h₁b⟩
    · cases h₁b
      exact ⟨_,placed_self hst c⟩
  obtain ⟨p₂,hp₂⟩ : ∃ p, Placed h₁ c p h₂ := by
    unfold Hall.dropRoom at h₂b
    split_ifs at h₂b
    · exact ⟨_,leaveRoom_placed hp₁.standard h₂b⟩
    · cases h₂b
      exact ⟨_,placed_self hp₁.standard c⟩
  have hp := (hp₁.trans hp₂).trans (retire_placed hp₂.standard c)
  refine ⟨?_,hp.rules,hp.standard⟩
  rw [hp.guests]
  exact .vanish

/-- What an action does to the clients is the move of a guest. -/
theorem act_guests (hs : h.Seated) (ok : h.Ok) (hst : h.Standard) {a : Action} (hg : h.Guard a)
    (hseats : h.Seats a) (ha : h.act a = some h') :
    Seating.Step h.rules h.guests a.move h'.guests ∧ h'.rules = h.rules ∧ h'.Standard := by
  cases a with
  | quiet =>
    cases ha
    exact ⟨.stay,rfl,hst⟩
  | login c uname =>
    cases ha
    exact login_guests ok hst hg uname
  | enterRoom c rid =>
    cases ha
    exact enterRoom_guests ok hst hg.1 hg.2 rid
  | leaveRoom c =>
    simp only [Hall.act] at ha
    split_ifs at ha
    have hp := leaveRoom_placed hst ha
    refine ⟨?_,hp.rules,hp.standard⟩
    rw [hp.guests]
    exact .leave (placeOf_idle hg.2)
  | newSession c =>
    have hp := newSession_placed hst hseats ha
    exact ⟨newSession_guests hs ok hst hg.2 hseats ha,hp.rules,hp.standard⟩
  | enterSession c sid => exact enterSession_guests hs ok hst hg.2.1 hg.2.2 hseats ha
  | leaveSession c =>
    have hp := leaveSession_placed ok hst ha
    refine ⟨?_,hp.rules,hp.standard⟩
    rw [hp.guests]
    obtain ⟨k,role,hplace⟩ : ∃ k role, h.placeOf c = .table (h.member c).roomid k role := by
      have hin := hg.2
      rw [placeOf_eq,placeAt]
      cases hm : (h.member c).state <;> rw [hm] at hin <;>
        first | exact ⟨_,_,rfl⟩ | exact absurd hin (by decide)
    refine .rise hplace ?_
    rintro ⟨r,k,side,hplay⟩
    have hin := hg.2
    rw [← hst.state c,show h.placeOf c = _ from hplay] at hin
    cases side with
    | owner =>
      change CClient.State.stMoving.isIn CClient.State.stInSession = true at hin
      exact absurd hin (by decide)
    | opponent =>
      change CClient.State.stPondering.isIn CClient.State.stInSession = true at hin
      exact absurd hin (by decide)
  | watchSession c sid => exact watchSession_guests hs ok hst hg.2.1 hg.2.2 ha
  | ready c => exact ready_guests hs ok hst hg.2 ha
  | listSessions c =>
    simp only [Hall.act] at ha
    split_ifs at ha
    cases ha
    exact ⟨.stay,rfl,hst⟩
  | disconnect c => exact breakLine_guests ok hst ha

/-- What an event asks of the hall is what it asks of the guests. -/
theorem move_action (ok : h.Ok) (hst : h.Standard) (e : Event) :
    (h.action e).move = h.guests.asked e := by
  have hoff : ∀ c, h.guests.place c = .offline ↔ (h.member c).ctsk = false := by
    intro c
    refine ⟨fun hp => ?_,placeOf_offline ok⟩
    have hstate := hst.state c
    rw [show h.placeOf c = .offline from hp] at hstate
    by_contra hc
    exact (ok.member c).served.mp (by simpa using hc) hstate.symm
  cases e with
  | login c udp udpaddr uname =>
    simp only [action,Guests.asked,hoff]
    by_cases hc : (h.member c).ctsk = true
    · simp [hc,Action.move]
    · simp [hc,Action.move]
  | frame c => rfl
  | request c msg =>
    simp only [action,Guests.asked]
    rw [show h.guests.place c = h.placeOf c from rfl,hst.state c]
    by_cases hc : (h.member c).ctsk = true
    · simp only [hc,true_and]
      split_ifs <;> rfl
    · have hstate : (h.member c).state = .stOffline := by
        by_contra hne
        exact hc ((ok.member c).served.mpr hne)
      have hno : ∀ mask, CClient.State.stOffline.isIn mask = false := by
        intro mask
        simp [CClient.State.isIn,CClient.State.val]
      simp [hc,hstate,hno,Action.move]
  | disconnect c =>
    simp only [action,Guests.asked,hoff]
    by_cases hc : (h.member c).ctsk = true
    · simp [hc,Action.move]
    · simp [hc,Action.move]

theorem create_standard (cfgs : List CRoomConfig) : (CEngine.create cfgs).hall.Standard := by
  refine ⟨fun r rm hrm k ss hss => ?_,fun c => rfl⟩
  obtain ⟨cfg,rfl,-⟩ := createRooms_find? cfgs hrm
  cases hss

end Hall

namespace CEngine

/-- The steps of guests under the events of the engine. -/
def GuestStep (rules : Rules ℤ) (g : Guests) (e : Event) (g' : Guests) : Prop :=
  Seating.Step rules g (g.asked e) g'

/-- In a run of safe events every client has its seat and every step is the move of a guest. -/
theorem guests_of_safe {cfgs : List CRoomConfig} {es : List Event} {s : CEngine}
    (hrun : (create cfgs).run es = .ok s)
    (hsafe : Lts.Meets (Lts.Steps step) SafeEvent (create cfgs) es) :
    (s.hall.Ok ∧ s.hall.Seated ∧ s.hall.Standard ∧ s.hall.rules = (create cfgs).hall.rules) ∧
      Lts.Run (GuestStep (create cfgs).hall.rules) (create cfgs).hall.guests es s.hall.guests := by
  have hstep : ∀ (s : CEngine) (e : Event) (t : CEngine),
      (s.hall.Ok ∧ s.hall.Seated ∧ s.hall.Standard ∧ s.hall.rules = (create cfgs).hall.rules) →
      SafeEvent s e → Lts.Steps step s e t →
      (t.hall.Ok ∧ t.hall.Seated ∧ t.hall.Standard ∧ t.hall.rules = (create cfgs).hall.rules) ∧
        GuestStep (create cfgs).hall.rules s.hall.guests e t.hall.guests := by
    rintro s e t ⟨ok,hs,hst,hrules⟩ hsafe hstep
    have hact := step_ok_hall hstep
    have hg := s.hall.action_guard e
    obtain ⟨hmove,hkeep,hst'⟩ := Hall.act_guests hs ok hst hg hsafe.seats hact
    rw [Hall.move_action ok hst,hrules] at hmove
    exact ⟨⟨ok.act hg hact,hs.act ok hg hsafe.seats hact,hst',hkeep.trans hrules⟩,hmove⟩
  exact (Lts.exec_ok_iff.mp hrun).map_of_meets (fun s => s.hall.guests) hstep hsafe
    ⟨Hall.create_ok cfgs,Hall.create_seated cfgs,Hall.create_standard cfgs,rfl⟩

/-- A run of safe events is a run of guests who keep the rules, from an empty house, and each
client's state is that of its place. -/
theorem run_seated {cfgs : List CRoomConfig} {es : List Event} {s : CEngine}
    (hrun : (create cfgs).run es = .ok s)
    (hsafe : Lts.Meets (Lts.Steps step) SafeEvent (create cfgs) es) :
    Lts.Run (GuestStep (create cfgs).hall.rules) (.start fun _ => "") es s.hall.guests ∧
      s.hall.guests.Orderly (create cfgs).hall.rules ∧
      ∀ c, CClient.State.ofPlace (s.hall.guests.place c) = (s.clients c).state := by
  obtain ⟨⟨-,-,hst,-⟩,hguests⟩ := guests_of_safe hrun hsafe
  refine ⟨hguests,?_,hst.state⟩
  exact hguests.invariant (fun _ _ _ ho hmove => Seating.Step.orderly hmove ho)
    (Seating.start_orderly _)

/-- Two players begin a game before a watcher, and the first of them breaks its connection. -/
def company : List Event :=
  arrive 1 "alice" ++ arrive 2 "bob" ++ arrive 3 "carol" ++
    [.request 1 (requestOf xmlTagNewSession ""),.request 2 (requestOf xmlTagEnterSession "2"),
     .request 3 (requestOf xmlTagWatchSession "2"),.request 1 (requestOf xmlTagReady ""),
     .request 2 (requestOf xmlTagReady ""),.disconnect 1]

theorem company_safe : Lts.Meets (Lts.Steps step) SafeEvent (create [room1]) company := by
  have hname : ∀ {s : CEngine} {c tag id}, tag ≠ xmlTagNewSession → tag ≠ xmlTagEnterSession →
      s.SafeEvent (.request c (requestOf tag id)) :=
    fun hnew henter _ => ⟨fun hn => absurd hn henter,fun hn => absurd hn hnew⟩
  refine Lts.meets_cons rfl trivial (Lts.meets_cons rfl (hname (by decide) (by decide)) ?_)
  refine Lts.meets_cons rfl trivial (Lts.meets_cons rfl (hname (by decide) (by decide)) ?_)
  refine Lts.meets_cons rfl trivial (Lts.meets_cons rfl (hname (by decide) (by decide)) ?_)
  refine Lts.meets_cons rfl ?_ (Lts.meets_cons rfl ?_ ?_)
  · refine fun _ => ⟨fun hn => absurd hn (by decide),?_⟩
    rintro - rm ss ⟨hrm,hss⟩
    cases hrm
    cases hss
  · refine fun _ => ⟨?_,fun hn => absurd hn (by decide)⟩
    rintro - rm ss ⟨hrm,hss⟩
    cases hrm
    cases hss
    exact .inl (Option.some_ne_none 1)
  · refine Lts.meets_cons rfl (hname (by decide) (by decide)) ?_
    refine Lts.meets_cons rfl (hname (by decide) (by decide)) ?_
    exact Lts.meets_cons rfl (hname (by decide) (by decide)) (Lts.meets_cons rfl trivial trivial)

theorem run_seated_company : ∃ s, (create [room1]).run company = .ok s ∧
    s.hall.guests.Orderly (create [room1]).hall.rules ∧
    CClient.State.ofPlace (s.hall.guests.place 1) = .stOffline ∧
    CClient.State.ofPlace (s.hall.guests.place 2) = .stPondering ∧
    CClient.State.ofPlace (s.hall.guests.place 3) = .stWatching := by
  obtain ⟨s,hrun,hgone,hleft,hwatch⟩ : ∃ s, (create [room1]).run company = .ok s ∧
      (s.clients 1).state = .stOffline ∧ (s.clients 2).state = .stPondering ∧
      (s.clients 3).state = .stWatching := ⟨_,rfl,rfl,rfl,rfl⟩
  obtain ⟨-,horderly,hstate⟩ := run_seated hrun company_safe
  exact ⟨s,hrun,horderly,(hstate 1).trans hgone,(hstate 2).trans hleft,(hstate 3).trans hwatch⟩

/-- In a run of safe events the registry, the user lists and the sessions are what the places of the
clients say. -/
theorem places_tell {cfgs : List CRoomConfig} {es : List Event} {s : CEngine}
    (hrun : (create cfgs).run es = .ok s)
    (hsafe : Lts.Meets (Lts.Steps step) SafeEvent (create cfgs) es) :
    (∀ u c, s.list.find? u = some c ↔
      s.hall.guests.place c ≠ .offline ∧ s.hall.guests.name c = u) ∧
    ∀ r rm, s.findRoom r = some rm →
      (∀ c, c ∈ rm.usrlist ↔ c ∈ s.hall.guests.inRoom r) ∧
      (∀ k, (rm.sessions.find? k).isSome ↔ (s.hall.guests.atTable r k).Nonempty) ∧
      ∀ k ss, rm.sessions.find? k = some ss →
        (∀ side c, ss.seat side = some c ↔
          ∃ phase, s.hall.guests.place c = .table r k (.player side phase)) ∧
        ∀ c, c ∈ ss.watchers ↔ c ∈ s.hall.guests.watching r k := by
  obtain ⟨⟨ok,hs,-,-⟩,-⟩ := guests_of_safe hrun hsafe
  have hkey : ∀ {k : ℕ}, k ≤ 20000 → Scan.toUInt32 (k : ℤ) = k :=
    fun hk => Scan.toUInt32_natCast (by omega)
  refine ⟨fun u c => ?_,fun r rm hrm => ⟨fun c => ?_,fun k => ?_,fun k ss hss => ?_⟩⟩
  · rw [show s.hall.guests.place c ≠ .offline ↔ _ from Hall.placeOf_ne_offline ok]
    exact ok.registered u c
  · rw [ok.user r rm hrm c]
    exact (Hall.room?_placeOf ok c (ok.room_pos hrm)).symm
  · rw [Hall.atTable_guests hs ok hrm]
    constructor
    · intro hsome
      obtain ⟨ss,hss⟩ := Option.isSome_iff_exists.mp hsome
      rw [hkey (ok.session r rm hrm k ss hss).key.2]
      exact ⟨hsome,rfl⟩
    · rintro ⟨hsome,hk⟩
      rwa [Nat.cast_inj.mp hk] at hsome
  · -- Whoever is at the table has a seat in the session under its number.
    have hseat : ∀ {role : Role} {c : CClientPtr}, s.hall.placeOf c = .table r k role →
        ss.HasRole c role := by
      intro role c hc
      obtain ⟨rm',ss',hrm',hss',-,hrole⟩ := Hall.seat_of_place hs ok hc
      cases hrm.symm.trans hrm'
      rw [hkey (ok.session r rm hrm k ss hss).key.2] at hss'
      cases hss.symm.trans hss'
      exact hrole
    refine ⟨fun side c => ⟨Hall.placeOf_seat ok hrm hss,?_⟩,
      fun c => ⟨Hall.placeOf_watcher ok hrm hss,fun hc => hseat hc⟩⟩
    rintro ⟨phase,hc⟩
    exact hseat hc

theorem places_tell_company : ∃ s rm ss, (create [room1]).run company = .ok s ∧
    s.Live 1 rm 2 ss ∧ s.hall.guests.place 1 = .offline ∧
    (∃ phase, s.hall.guests.place 2 = .table 1 (2 : ℕ) (.player .opponent phase)) ∧
    3 ∈ s.hall.guests.watching 1 (2 : ℕ) ∧ s.hall.guests.inRoom 1 = {2,3} := by
  obtain ⟨s,rm,ss,hrun,hlive,hleft,hop,hwatch,husers⟩ : ∃ s rm ss,
      (create [room1]).run company = .ok s ∧ s.Live 1 rm 2 ss ∧
      (s.uname 1 = "alice" ∧ s.list.find? "alice" = none) ∧ ss.seat .opponent = some 2 ∧
      ss.watchers.toList = [3] ∧ rm.usrlist.toList = [2,3] :=
    ⟨_,_,_,rfl,⟨rfl,rfl⟩,⟨rfl,rfl⟩,rfl,rfl,rfl⟩
  obtain ⟨hregistry,hrooms⟩ := places_tell hrun company_safe
  obtain ⟨hroom,-,hseats⟩ := hrooms 1 rm hlive.room
  obtain ⟨hseat,hwatching⟩ := hseats 2 ss hlive.session
  refine ⟨s,rm,ss,hrun,hlive,?_,(hseat .opponent 2).mp hop,(hwatching 3).mp ?_,?_⟩
  · by_contra hplace
    have hfound := (hregistry "alice" 1).mpr ⟨hplace,hleft.1⟩
    rw [hleft.2] at hfound
    cases hfound
  · rw [← OrdSet.mem_toList,hwatch]
    exact List.mem_singleton_self 3
  · ext c
    rw [← hroom c,← OrdSet.mem_toList,husers]
    simp

end CEngine
end CcniServer
