import CcniServer.Hall.Asserts

/-!
The ids of sessions, one request at a time. `genid` hands out 20000 ids in turn, so that a new
session replaces an old one exactly where the room still holds a session that was created a
multiple of 20000 creations before. A chronicle of the creations runs beside the engine and says
when that is.
-/
namespace CcniServer
namespace Hall
variable {h h' : Hall}

/-- A session is live under a key in a room. -/
def HasKey (h : Hall) (r : ℤ) (k : ℕ) : Prop :=
  ∃ rm ss, h.rooms.find? r = some rm ∧ rm.sessions.find? k = some ss

/-- No key appears and the counter of ids stays. -/
structure NoNewKey (h h' : Hall) : Prop where
  idseed : h'.idseed = h.idseed
  hasKey : ∀ r k, h'.HasKey r k → h.HasKey r k

namespace NoNewKey

theorem refl (h : Hall) : NoNewKey h h := ⟨rfl,fun _ _ hk => hk⟩

theorem trans {h h₁ h₂ : Hall} (h₁₂ : NoNewKey h h₁) (h₂₃ : NoNewKey h₁ h₂) : NoNewKey h h₂ :=
  ⟨h₂₃.idseed.trans h₁₂.idseed,fun r k hk => h₁₂.hasKey r k (h₂₃.hasKey r k hk)⟩

/-- One room changes and gets no key. -/
theorem put {r : ℤ} {rm rm' : CRoom} {c : CClientPtr} {m : Member}
    (hrm : h.rooms.find? r = some rm)
    (hsub : ∀ k ss, rm'.sessions.find? k = some ss → ∃ ss', rm.sessions.find? k = some ss') :
    NoNewKey h ((h.setRoom r rm').setMember c m) := by
  refine ⟨rfl,?_⟩
  rintro r' k ⟨rm₀,ss,hrm₀,hss⟩
  rw [setMember_rooms,setRoom_rooms,OrdMap.find?_insert] at hrm₀
  split_ifs at hrm₀ with hr
  · cases hrm₀
    obtain ⟨ss',hss'⟩ := hsub k ss hss
    exact ⟨rm,ss',hr ▸ hrm,hss'⟩
  · exact ⟨rm₀,ss,hrm₀,hss⟩

/-- A stored session has the key of the one it was made from. -/
theorem sub_setSession {rm : CRoom} {k : ℕ} {ss ss' : CSession}
    (hss : rm.sessions.find? k = some ss) (k' : ℕ) (ss₀ : CSession)
    (h₀ : (rm.setSession k ss').sessions.find? k' = some ss₀) :
    ∃ ss', rm.sessions.find? k' = some ss' := by
  rw [CRoom.setSession,OrdMap.find?_insert] at h₀
  split_ifs at h₀ with hkey
  · exact ⟨ss,hkey ▸ hss⟩
  · exact ⟨ss₀,h₀⟩

theorem enterRoom (c : CClientPtr) (rid : ℤ) : NoNewKey h (h.enterRoom c rid) := by
  unfold Hall.enterRoom
  split_ifs
  · exact refl h
  · cases hadm : (h.rooms.find? rid).bind (fun rm => rm.addUser c) with
    | none => exact refl h
    | some rm' =>
      obtain ⟨rm,hrm,hadm⟩ := Option.bind_eq_some_iff.mp hadm
      obtain ⟨-,hsess,-⟩ := CRoom.addUser_some hadm
      exact put hrm (fun k ss hss => ⟨ss,hsess ▸ hss⟩)

theorem leaveRoom {c : CClientPtr} (hl : h.leaveRoom c = some h') : NoNewKey h h' := by
  obtain ⟨rm',hdis,rfl⟩ := Option.map_eq_some_iff.mp hl
  obtain ⟨rm,hrm,hdis⟩ := Option.bind_eq_some_iff.mp hdis
  obtain ⟨-,-,hsess,-⟩ := CRoom.dismiss_some hdis
  exact put hrm (fun k ss hss => ⟨ss,hsess ▸ hss⟩)

theorem leaveSession {c : CClientPtr} (hl : h.leaveSession c = some h') : NoNewKey h h' := by
  unfold Hall.leaveSession at hl
  split_ifs at hl
  obtain ⟨rm,hrm,hl⟩ := Option.bind_eq_some_iff.mp hl
  obtain ⟨ss',hun,rfl⟩ := Option.map_eq_some_iff.mp hl
  obtain ⟨ss,hss,-⟩ := Option.bind_eq_some_iff.mp hun
  apply put hrm
  unfold putSession
  split_ifs
  · intro k ss₀ hss₀
    rw [CRoom.eraseSession,OrdMap.find?_erase] at hss₀
    split_ifs at hss₀
    exact ⟨ss₀,hss₀⟩
  · exact sub_setSession hss

theorem joinSession {c : CClientPtr} {sid : ℤ} {join : CSession → Option CSession}
    {st : CClient.State} (hj : h.joinSession c sid join st = some h') : NoNewKey h h' := by
  unfold Hall.joinSession at hj
  split_ifs at hj
  obtain ⟨rm,hrm,rfl⟩ := Option.map_eq_some_iff.mp hj
  cases hbind : (rm.sessions.find? (Scan.toUInt32 sid)).bind join with
  | none => exact refl h
  | some ss' =>
    obtain ⟨ss,hss,-⟩ := Option.bind_eq_some_iff.mp hbind
    exact put hrm (sub_setSession hss)

theorem breakLine {c : CClientPtr} (hb : h.breakLine c = some h') : NoNewKey h h' := by
  obtain ⟨h₂,h₂b,rfl⟩ := Option.map_eq_some_iff.mp hb
  obtain ⟨h₁,h₁b,h₂b⟩ := Option.bind_eq_some_iff.mp h₂b
  have hsess : NoNewKey h h₁ := by
    unfold Hall.dropSession at h₁b
    split_ifs at h₁b
    · exact leaveSession h₁b
    · cases h₁b
      exact refl _
  have hroom : NoNewKey h₁ h₂ := by
    unfold Hall.dropRoom at h₂b
    split_ifs at h₂b
    · exact leaveRoom h₂b
    · cases h₂b
      exact refl _
  exact (hsess.trans hroom).trans ⟨rfl,fun _ _ hk => hk⟩

end NoNewKey

/-- Only the creation of a session adds a key or moves the counter. -/
theorem noNewKey_act {a : Action} (ha : h.act a = some h') (hnew : ∀ c, a ≠ .newSession c) :
    NoNewKey h h' := by
  cases a with
  | newSession c => exact absurd rfl (hnew c)
  | quiet =>
    cases ha
    exact .refl h
  | login c uname =>
    cases ha
    unfold Hall.login
    cases h.list.find? uname with
    | some c' => exact .refl h
    | none => exact ⟨rfl,fun _ _ hk => hk⟩
  | enterRoom c rid =>
    cases ha
    exact .enterRoom c rid
  | leaveRoom c =>
    simp only [Hall.act] at ha
    split_ifs at ha
    exact .leaveRoom ha
  | enterSession c sid => exact .joinSession ha
  | leaveSession c => exact .leaveSession ha
  | watchSession c sid => exact .joinSession ha
  | ready c =>
    simp only [Hall.act,Hall.ready] at ha
    split_ifs at ha
    obtain ⟨rm,-,ha⟩ := Option.bind_eq_some_iff.mp ha
    obtain ⟨m',-,rfl⟩ := Option.map_eq_some_iff.mp ha
    exact ⟨rfl,fun _ _ hk => hk⟩
  | listSessions c =>
    simp only [Hall.act] at ha
    split_ifs at ha
    cases ha
    exact .refl h
  | disconnect c => exact .breakLine ha

/-- A creation moves the counter and adds no key but the id of the new session. -/
theorem newSession_keys {c : CClientPtr} (hn : h.newSession c = some h') :
    h'.idseed = (CSession.genid h.idseed).1 ∧ ∀ r k, h'.HasKey r k →
      h.HasKey r k ∨ r = (h.member c).roomid ∧ k = (CSession.genid h.idseed).2 := by
  unfold Hall.newSession at hn
  split_ifs at hn
  obtain ⟨rm,hrm,hn⟩ := Option.bind_eq_some_iff.mp hn
  split_ifs at hn
  cases hn
  refine ⟨rfl,?_⟩
  rintro r k ⟨rm₀,ss,hrm₀,hss⟩
  simp only [setMember_rooms,setRoom_rooms,OrdMap.find?_insert] at hrm₀
  split_ifs at hrm₀ with hr
  · cases hrm₀
    rw [CRoom.setSession,OrdMap.find?_insert] at hss
    split_ifs at hss with hkey
    · exact .inr ⟨hr,hkey⟩
    · exact .inl ⟨rm,ss,hr ▸ hrm,hss⟩
  · exact .inl ⟨rm₀,ss,hrm₀,hss⟩

/-- A creation keeps the keys that were there, and its client gets a seat. -/
theorem newSession_seated (ok : h.Ok) {c : CClientPtr} (hc : (h.member c).ctsk = true)
    (hidle : (h.member c).state = .stIdle) : ∃ h', h.newSession c = some h' ∧ h'.HasSeat c ∧
      (h'.member c).state = .stSessional ∧ (h'.member c).roomid = (h.member c).roomid ∧
      (h'.member c).sessionid = (CSession.genid h.idseed).2 ∧
      ∀ r k, h.HasKey r k → h'.HasKey r k := by
  have hpos := (ok.member c).inRoom (by rw [hidle]; rfl)
  obtain ⟨rm,hrm⟩ := ok.found c hpos
  have hin : c ∈ rm.usrlist := (ok.user _ rm hrm c).mpr rfl
  have hrange := CSession.genid_range h.idseed
  have hkey := Scan.toUInt32_natCast (show (CSession.genid h.idseed).2 < 2^32 by omega)
  unfold Hall.newSession
  rw [if_pos ⟨hidle,hc,hpos⟩,hrm,Option.bind_some,if_pos hin]
  generalize CSession.genid h.idseed = gen at hkey ⊢
  refine ⟨_,rfl,⟨rm.setSession gen.2 (CSession.new c .create gen.2),CSession.new c .create gen.2,?_,?_,?_⟩,
    ?_,?_,?_,?_⟩
  · simp only [setMember_member,setMember_rooms,setRoom_rooms,Function.update_self,
      OrdMap.find?_insert,if_true]
  · simp only [setMember_member,Function.update_self,hkey,CRoom.setSession,OrdMap.find?_insert,
      if_true]
  · simp [CSession.new]
  · simp
  · simp
  · simp
  · rintro r k ⟨rm₀,ss,hrm₀,hss⟩
    simp only [HasKey,setMember_rooms,setRoom_rooms,OrdMap.find?_insert]
    split_ifs with hr
    · rw [hr,hrm] at hrm₀
      cases hrm₀
      by_cases hk : k = gen.2
      · exact ⟨_,CSession.new c .create gen.2,rfl,by rw [CRoom.setSession,OrdMap.find?_insert,if_pos hk]⟩
      · exact ⟨_,ss,rfl,by rw [CRoom.setSession,OrdMap.find?_insert,if_neg hk]; exact hss⟩
    · exact ⟨rm₀,ss,hrm₀,hss⟩

/-- Leaving a session keeps the room and every other key. -/
theorem leaveSession_keys {c : CClientPtr} (hl : h.leaveSession c = some h') :
    (h'.member c).roomid = (h.member c).roomid ∧
      ∀ r k, k ≠ Scan.toUInt32 (h.member c).sessionid → h.HasKey r k → h'.HasKey r k := by
  unfold Hall.leaveSession at hl
  split_ifs at hl
  obtain ⟨rm,hrm,hl⟩ := Option.bind_eq_some_iff.mp hl
  obtain ⟨ss',-,rfl⟩ := Option.map_eq_some_iff.mp hl
  refine ⟨by simp,?_⟩
  rintro r k hk ⟨rm₀,ss,hrm₀,hss⟩
  simp only [HasKey,setMember_rooms,setRoom_rooms,OrdMap.find?_insert]
  split_ifs with hr
  · rw [hr,hrm] at hrm₀
    cases hrm₀
    refine ⟨_,ss,rfl,?_⟩
    unfold putSession
    split_ifs
    · rwa [CRoom.eraseSession,OrdMap.find?_erase,if_neg hk]
    · rwa [CRoom.setSession,OrdMap.find?_insert,if_neg hk]
  · exact ⟨rm₀,ss,hrm₀,hss⟩

end Hall

/-! ### The chronicle -/

/-- The engine with the number of sessions created so far and, for each room and key, the
number of the creation that last stored a session there. -/
structure Chronicle where
  engine : CEngine
  created : ℕ
  born : ℤ → ℕ → ℕ

namespace Chronicle

def create (cfgs : List CRoomConfig) : Chronicle := ⟨CEngine.create cfgs,0,fun _ _ => 0⟩

/-- What the chronicle records of a creation in the room `r` under the key `k`. -/
def record (s : Chronicle) (r : ℤ) (k : ℕ) (t : CEngine) : Chronicle where
  engine := t
  created := s.created + 1
  born := Function.update s.born r (Function.update (s.born r) k (s.created + 1))

def step (s : Chronicle) (e : Event) : Checked Chronicle :=
  (s.engine.step e).map (fun t =>
    match s.engine.hall.action e with
    | .newSession c => s.record (s.engine.clients c).roomid (CSession.genid s.engine.idseed).2 t
    | _ => { s with engine := t })

/-- The counter has passed every creation, and a key tells which creation it comes from, up to
the length of the round. -/
structure Ok (s : Chronicle) : Prop where
  hall : s.engine.hall.Ok
  idseed : s.engine.idseed = s.created % 20000
  born : ∀ r k, s.engine.hall.HasKey r k →
    0 < s.born r k ∧ s.born r k ≤ s.created ∧ k = s.born r k % 20000 + 1

theorem create_ok (cfgs : List CRoomConfig) : (create cfgs).Ok := by
  refine ⟨Hall.create_ok cfgs,rfl,?_⟩
  rintro r k ⟨rm,ss,hrm,hss⟩
  obtain ⟨cfg,rfl,-⟩ := Hall.createRooms_find? cfgs hrm
  cases hss

/-- The chronicle follows the engine. -/
theorem step_engine {s : Chronicle} {e : Event} :
    (s.step e).map Chronicle.engine = s.engine.step e := by
  unfold step
  cases s.engine.step e with
  | error site => rfl
  | ok t =>
    cases s.engine.hall.action e <;> rfl

theorem step_ok {s : Chronicle} {e : Event} {t : CEngine} (ht : s.engine.step e = .ok t) :
    ∃ t', s.step e = .ok t' ∧ t'.engine = t := by
  unfold step
  rw [ht]
  refine ⟨_,rfl,?_⟩
  cases s.engine.hall.action e <;> rfl

theorem Ok.step {s t : Chronicle} {e : Event} (ok : s.Ok) (hs : s.step e = .ok t) : t.Ok := by
  cases ht : s.engine.step e with
  | error site =>
    rw [Chronicle.step,ht] at hs
    cases hs
  | ok u =>
    have hact : s.engine.hall.act (s.engine.hall.action e) = some u.hall := step_ok_hall ht
    have hall := ok.hall.step (step_ok_hall ht)
    rw [Chronicle.step,ht] at hs
    cases ha : s.engine.hall.action e with
    | newSession c =>
      rw [ha] at hact
      simp only [ha] at hs
      cases hs
      obtain ⟨hseed,hkeys⟩ := Hall.newSession_keys hact
      have hidseed := ok.idseed
      refine ⟨hall,?_,?_⟩
      · change u.hall.idseed = (s.created + 1) % 20000
        rw [hseed]
        change (s.engine.idseed + 1) % 20000 = (s.created + 1) % 20000
        omega
      · intro r k hk
        by_cases hnew : r = (s.engine.clients c).roomid ∧ k = (CSession.genid s.engine.idseed).2
        · obtain ⟨rfl,hk'⟩ := hnew
          simp only [record,hk',Function.update_self]
          refine ⟨Nat.succ_pos _,le_refl _,?_⟩
          simp only [CSession.genid]
          omega
        · have hborn : (s.record (s.engine.clients c).roomid
              (CSession.genid s.engine.idseed).2 u).born r k = s.born r k := by
            simp only [record]
            by_cases hr : r = (s.engine.clients c).roomid
            · have hk' : k ≠ (CSession.genid s.engine.idseed).2 := fun hk' => hnew ⟨hr,hk'⟩
              rw [hr,Function.update_self,Function.update_of_ne hk']
            · rw [Function.update_of_ne hr]
          obtain ⟨hpos,hle,hkey⟩ := ok.born r k ((hkeys r k hk).resolve_right hnew)
          rw [hborn]
          exact ⟨hpos,hle.trans (Nat.le_succ _),hkey⟩
    | _ =>
      have hnokey := Hall.noNewKey_act hact (fun c hc => by rw [ha] at hc; cases hc)
      simp only [ha] at hs
      cases hs
      exact ⟨hall,hnokey.idseed.trans ok.idseed,fun r k hk => ok.born r k (hnokey.hasKey r k hk)⟩

/-- The room of the client holds no session that was created a multiple of 20000 creations
before the one that `NewSession` is about to make. -/
def NoOldSession (s : Chronicle) : Event → Prop
  | .request c msg => (s.engine.clients c).state = .stIdle → msg.name = xmlTagNewSession →
      ∀ rm k ss, s.engine.Live (s.engine.clients c).roomid rm k ss →
        ¬ 20000 ∣ s.created + 1 - s.born (s.engine.clients c).roomid k
  | _ => True

end Chronicle

namespace CEngine

/-- The id that `NewSession` is about to use is not the key of a live session of the room, so
that the store adds an entry to the session map. -/
def AddsSession (s : CEngine) : Event → Prop
  | .request c msg => (s.clients c).state = .stIdle → msg.name = xmlTagNewSession →
      ∀ rm, s.findRoom (s.clients c).roomid = some rm →
        rm.sessions.find? (CSession.genid s.idseed).2 = none ∧
        ∀ ss, (rm.setSession (CSession.genid s.idseed).2 ss).sessions.size = rm.sessions.size + 1
  | _ => True

end CEngine

theorem Chronicle.Ok.addsSession_iff {s : Chronicle} (ok : s.Ok) (e : Event) :
    s.engine.AddsSession e ↔ s.NoOldSession e := by
  cases e with
  | login c udp udpaddr uname => exact Iff.rfl
  | frame c => exact Iff.rfl
  | disconnect c => exact Iff.rfl
  | request c msg =>
    have hidseed := ok.idseed
    have hgen : (CSession.genid s.engine.idseed).2 = (s.created + 1) % 20000 + 1 := by
      simp only [CSession.genid]
      omega
    constructor
    · intro h hst hname rm k ss hlive hdvd
      obtain ⟨hpos,hle,hkey⟩ := ok.born _ k ⟨rm,ss,hlive.room,hlive.session⟩
      have hk : k = (CSession.genid s.engine.idseed).2 := by
        rw [hgen]
        omega
      have hnone := (h hst hname rm hlive.room).1
      rw [← hk,hlive.session] at hnone
      cases hnone
    · intro h hst hname rm hrm
      have hnone : rm.sessions.find? (CSession.genid s.engine.idseed).2 = none := by
        refine Option.eq_none_iff_forall_ne_some.mpr (fun ss hss => ?_)
        obtain ⟨hpos,hle,hkey⟩ := ok.born _ _ ⟨rm,ss,hrm,hss⟩
        apply h hst hname rm _ ss ⟨hrm,hss⟩
        rw [hgen] at hkey ⊢
        omega
      refine ⟨hnone,fun ss => ?_⟩
      rw [CRoom.setSession,OrdMap.size_insert,hnone]
      rfl

/-- A run creates every session under a free id exactly when none of its creations finds, in
its room, a session that is a multiple of 20000 creations old. -/
theorem addsSession_iff_noOldSession (cfgs : List CRoomConfig) (es : List Event) :
    Lts.Meets (Lts.Steps CEngine.step) CEngine.AddsSession (CEngine.create cfgs) es ↔
      Lts.Meets (Lts.Steps Chronicle.step) Chronicle.NoOldSession (Chronicle.create cfgs) es := by
  have hrun : ∀ (es : List Event) (s : Chronicle), s.Ok →
      (Lts.Meets (Lts.Steps CEngine.step) CEngine.AddsSession s.engine es ↔
        Lts.Meets (Lts.Steps Chronicle.step) Chronicle.NoOldSession s es) := by
    intro es
    induction es with
    | nil => exact fun s _ => Iff.rfl
    | cons e es ih =>
      intro s ok
      refine and_congr (ok.addsSession_iff e) ⟨fun h t ht => ?_,fun h t ht => ?_⟩
      · have hte : s.engine.step e = .ok t.engine := by
          rw [← Chronicle.step_engine,ht]
          rfl
        exact (ih t (ok.step ht)).mp (h t.engine hte)
      · obtain ⟨t',ht',rfl⟩ := Chronicle.step_ok ht
        exact (ih t' (ok.step ht')).mpr (h t' ht')
  exact hrun es (Chronicle.create cfgs) (Chronicle.create_ok cfgs)

/-! ### A session that outlives a round of ids -/

namespace CEngine

/-- One client creates a session and leaves it. -/
def createAndLeave (c : CClientPtr) : List Event :=
  [.request c (requestOf xmlTagNewSession ""),.request c (requestOf xmlTagLeaveSession "")]

/-- Alice keeps her session, while bob creates and leaves as many as the round has left. -/
def wholeRound : List Event :=
  arrive 1 "alice" ++ arrive 2 "bob" ++ [.request 1 (requestOf xmlTagNewSession "")] ++
    (List.replicate 19999 (createAndLeave 2)).flatten

/-- After `n` creations bob is idle next to the session with the id 2. -/
structure Spinning (s : CEngine) (n : ℕ) : Prop where
  ok : s.hall.Ok
  idle : (s.clients 2).state = .stIdle
  room : (s.clients 2).roomid = 1
  live : s.hall.HasKey 1 2
  idseed : s.idseed = n % 20000

theorem Spinning.createAndLeave {s : CEngine} {n : ℕ} (hs : s.Spinning n) (hpos : 0 < n)
    (hlt : n < 20000) : ∃ t, s.run (createAndLeave 2) = .ok t ∧ t.Spinning (n + 1) := by
  have htsk : (s.clients 2).ctsk = true := (hs.ok.member 2).served.mpr (by
    change (s.clients 2).state ≠ .stOffline
    rw [hs.idle]
    decide)
  have hidseed := hs.idseed
  have hrange := CSession.genid_range s.hall.idseed
  have hother : (CSession.genid s.idseed).2 ≠ 2 := by
    simp only [CSession.genid]
    omega
  obtain ⟨h₁,hn,hseat₁,hst₁,hroom₁,hsid₁,hkey₁⟩ := Hall.newSession_seated hs.ok htsk hs.idle
  have hact₁ : s.hall.action (.request 2 (requestOf xmlTagNewSession "")) = .newSession 2 := by
    simp only [Hall.action,hall_member,CClient.member,hs.idle]
    exact if_pos ⟨htsk,rfl,rfl⟩
  obtain ⟨s₁,hs₁,rfl⟩ := step_ok_of_act ((congrArg s.hall.act hact₁).trans hn)
  have ok₁ := hs.ok.step (step_ok_hall hs₁)
  have hpos₁ : 0 < (s₁.hall.member 2).sessionid := (ok₁.member 2).inSession (by rw [hst₁]; rfl)
  obtain ⟨h₂,hl⟩ := Option.isSome_iff_exists.mp
    (Hall.Seated.leaveSession_isSome ok₁ hpos₁ hseat₁)
  have hact₂ : s₁.hall.action (.request 2 (requestOf xmlTagLeaveSession "")) =
      .leaveSession 2 := by
    simp only [Hall.action,hst₁]
    exact if_pos ⟨(ok₁.member 2).ctsk_of_sessionid hpos₁,rfl,rfl⟩
  obtain ⟨s₂,hs₂,rfl⟩ := step_ok_of_act ((congrArg s₁.hall.act hact₂).trans hl)
  refine ⟨s₂,?_,ok₁.step (step_ok_hall hs₂),?_,?_,?_,?_⟩
  · exact (Lts.exec_cons_ok hs₁ _).trans (Lts.exec_cons_ok hs₂ _)
  · exact Hall.leaveSession_state hl
  · exact (Hall.leaveSession_keys hl).1.trans (hroom₁.trans hs.room)
  · refine (Hall.leaveSession_keys hl).2 1 2 ?_ (hkey₁ 1 2 hs.live)
    rw [hsid₁,Scan.toUInt32_natCast (show (CSession.genid s.hall.idseed).2 < 2^32 by omega)]
    exact Ne.symm hother
  · have hseed₂ : s₂.idseed = s₁.idseed := (Hall.NoNewKey.leaveSession hl).idseed
    have hseed₁ : s₁.idseed = (s.idseed + 1) % 20000 := (Hall.newSession_keys hn).1
    omega

theorem Spinning.replicate {s : CEngine} {n : ℕ} (hs : s.Spinning n) (hpos : 0 < n) (m : ℕ)
    (hle : n + m ≤ 20000) :
    ∃ t, s.run (List.replicate m (CEngine.createAndLeave 2)).flatten = .ok t ∧
      t.Spinning (n + m) := by
  induction m with
  | zero => exact ⟨s,rfl,hs⟩
  | succ m ih =>
    obtain ⟨t,ht,hspin⟩ := ih (by omega)
    obtain ⟨u,hu,hspin'⟩ := hspin.createAndLeave (by omega) (by omega)
    refine ⟨u,?_,hspin'⟩
    rw [List.replicate_succ',List.flatten_append,List.flatten_singleton]
    exact (Lts.exec_append ht).trans hu

/-- The round is over, and the next session takes the place of Alice's. -/
theorem wholeRound_replaces : ¬ Lts.Meets (Lts.Steps step) AddsSession (create [room1])
    (wholeRound ++ [.request 2 (requestOf xmlTagNewSession "")]) := by
  obtain ⟨s,rm,ss,hrun,hidle,hroom,hrm,hss,hseed⟩ : ∃ s rm ss, (create [room1]).run
      (arrive 1 "alice" ++ arrive 2 "bob" ++ [.request 1 (requestOf xmlTagNewSession "")]) =
        .ok s ∧ (s.clients 2).state = .stIdle ∧ (s.clients 2).roomid = 1 ∧
      s.findRoom 1 = some rm ∧ rm.sessions.find? 2 = some ss ∧ s.idseed = 1 :=
    ⟨_,_,_,rfl,rfl,rfl,rfl,rfl,rfl⟩
  have hspin : s.Spinning 1 := ⟨Hall.ok_of_run hrun,hidle,hroom,⟨rm,ss,hrm,hss⟩,hseed⟩
  obtain ⟨t,ht,hspin'⟩ := hspin.replicate Nat.one_pos 19999 (by decide)
  have hwhole : (create [room1]).run wholeRound = .ok t := (Lts.exec_append hrun).trans ht
  intro hmeets
  have hadds := ((Lts.exec_ok_iff.mp hwhole).meets_of_append hmeets).1
  obtain ⟨rm',ss',hrm',hss'⟩ := hspin'.live
  have hnone := (hadds hspin'.idle rfl rm' (hspin'.room.symm ▸ hrm')).1
  have hid : (CSession.genid t.idseed).2 = 2 := by
    rw [hspin'.idseed]
    rfl
  rw [hid,hss'] at hnone
  cases hnone

end CEngine
end CcniServer
