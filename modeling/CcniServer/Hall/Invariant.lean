import CcniServer.Hall.Simulation

/-!
What holds in every hall that a run can reach: the fields of a client agree with its state,
the registry and the user lists of the rooms agree with the clients, and the seats of every
session belong to clients that name this session as theirs.
-/
namespace CcniServer
open CClient.State

/-- The fields of a client agree with its state. -/
structure Member.Ok (m : Member) : Prop where
  served : m.ctsk = true ↔ m.state ≠ .stOffline
  inRoom : m.state.isIn stInRoom = true → 0 < m.roomid
  noRoom : m.state.isIn stInRoom = false → m.roomid = -1
  inSession : m.state.isIn (stInSession ||| stPlaying) = true → 0 < m.sessionid
  noSession : m.state.isIn (stInSession ||| stPlaying) = false → m.sessionid = -1

namespace Member.Ok
variable {m : Member}

theorem roomid_cases (h : m.Ok) : m.roomid = -1 ∨ 0 < m.roomid := by
  cases hr : m.state.isIn stInRoom with
  | true => exact .inr (h.inRoom hr)
  | false => exact .inl (h.noRoom hr)

theorem isIn_room (h : m.Ok) : m.state.isIn stInRoom = true ↔ 0 < m.roomid := by
  refine ⟨h.inRoom,fun hpos => ?_⟩
  by_contra hr
  have hroom := h.noRoom (by simpa using hr)
  omega

theorem isIn_session (h : m.Ok) :
    m.state.isIn (stInSession ||| stPlaying) = true ↔ 0 < m.sessionid := by
  refine ⟨h.inSession,fun hpos => ?_⟩
  by_contra hs
  have hsess := h.noSession (by simpa using hs)
  omega

theorem sessionid_cases (h : m.Ok) : m.sessionid = -1 ∨ 0 < m.sessionid := by
  cases hs : m.state.isIn (stInSession ||| stPlaying) with
  | true => exact .inr (h.inSession hs)
  | false => exact .inl (h.noSession hs)

/-- A session is in a room. -/
theorem roomid_pos (h : m.Ok) (hpos : 0 < m.sessionid) : 0 < m.roomid := by
  have hs := h.isIn_session.mpr hpos
  apply h.inRoom
  cases hst : m.state <;> rw [hst] at hs <;> first | rfl | exact absurd hs (by decide)

theorem ctsk_of_roomid (h : m.Ok) (hpos : 0 < m.roomid) : m.ctsk = true := by
  have hr := h.isIn_room.mpr hpos
  rw [h.served]
  rintro hst
  rw [hst] at hr
  exact absurd hr (by decide)

theorem ctsk_of_sessionid (h : m.Ok) (hpos : 0 < m.sessionid) : m.ctsk = true :=
  h.ctsk_of_roomid (h.roomid_pos hpos)

theorem offline (hst : m.state = .stOffline) (ht : m.ctsk = false) (hr : m.roomid = -1)
    (hs : m.sessionid = -1) : m.Ok := by
  refine ⟨by simp [hst,ht],?_,fun _ => hr,?_,fun _ => hs⟩
  all_goals
    rw [hst]
    intro hn
    exact absurd hn (by decide)

theorem online (hst : m.state = .stOnline) (ht : m.ctsk = true) (hr : m.roomid = -1)
    (hs : m.sessionid = -1) : m.Ok := by
  refine ⟨by simp [hst,ht],?_,fun _ => hr,?_,fun _ => hs⟩
  all_goals
    rw [hst]
    intro hn
    exact absurd hn (by decide)

theorem idle (hst : m.state = .stIdle) (ht : m.ctsk = true) (hr : 0 < m.roomid)
    (hs : m.sessionid = -1) : m.Ok := by
  refine ⟨by simp [hst,ht],fun _ => hr,?_,?_,fun _ => hs⟩
  all_goals
    rw [hst]
    intro hn
    exact absurd hn (by decide)

theorem seated (hst : m.state.isIn (stInSession ||| stPlaying) = true) (ht : m.ctsk = true)
    (hr : 0 < m.roomid) (hs : 0 < m.sessionid) : m.Ok := by
  refine ⟨?_,fun _ => hr,?_,fun _ => hs,?_⟩
  · rw [ht]
    refine ⟨fun _ hoff => ?_,fun _ => rfl⟩
    rw [hoff] at hst
    exact absurd hst (by decide)
  · intro hn
    cases hm : m.state <;> rw [hm] at hst hn <;> first
      | exact absurd hn (by decide)
      | exact absurd hst (by decide)
  · intro hn
    rw [hst] at hn
    exact Bool.noConfusion hn

end Member.Ok

/-- A session stored under `k` in the room `r`. -/
structure CSession.Ok (m : CClientPtr → Member) (r : ℤ) (k : ℕ) (ss : CSession) : Prop where
  id : ss.id = k
  key : 0 < k ∧ k ≤ 20000
  members_ne : ss.members ≠ []
  nodup : ss.members.Nodup
  roomid : ∀ c ∈ ss.members, (m c).roomid = r
  sessionid : ∀ c ∈ ss.members, (m c).sessionid = k
  player : ∀ c, ss.owner = some c ∨ ss.opponent = some c → (m c).state ≠ .stWatching
  watcher : ∀ c ∈ ss.watchers, (m c).state = .stWatching
  notBothReady : ∀ ow op, ss.owner = some ow → ss.opponent = some op →
    ¬ ((m ow).state = .stReady ∧ (m op).state = .stReady)

theorem CSession.Ok.congr {m m' : CClientPtr → Member} {r : ℤ} {k : ℕ} {ss : CSession}
    (h : ss.Ok m r k) (hm : ∀ c ∈ ss.members, m' c = m c) : ss.Ok m' r k := by
  have how : ∀ c, ss.owner = some c → m' c = m c := fun c hc => hm c (by simp [hc])
  have hop : ∀ c, ss.opponent = some c → m' c = m c := fun c hc => hm c (by simp [hc])
  refine ⟨h.id,h.key,h.members_ne,h.nodup,?_,?_,?_,?_,?_⟩
  · intro c hc
    rw [hm c hc]
    exact h.roomid c hc
  · intro c hc
    rw [hm c hc]
    exact h.sessionid c hc
  · intro c hc
    rw [hc.elim (how c) (hop c)]
    exact h.player c hc
  · intro c hc
    rw [hm c (by simp [hc])]
    exact h.watcher c hc
  · intro ow op h₁ h₂
    rw [how ow h₁,hop op h₂]
    exact h.notBothReady ow op h₁ h₂

theorem CSession.Ok.unseat {m : CClientPtr → Member} {r : ℤ} {k : ℕ} {ss ss' : CSession}
    {c : CClientPtr} {m' : Member} (h : ss.Ok m r k) (hne : ss'.members ≠ [])
    (hun : ss.unseat c = some ss') : ss'.Ok (Function.update m c m') r k := by
  obtain ⟨hid,how,hop,hwt⟩ := CSession.unseat_some h.nodup hun
  obtain ⟨hone,htwo⟩ := CSession.nodup_members.mp h.nodup
  have hmem : ∀ d ∈ ss'.members, d ∈ ss.members ∧ d ≠ c := fun d hd =>
    (CSession.mem_unseat h.nodup hun).mp hd
  have hok : ss'.Ok m r k := by
    refine ⟨hid.trans h.id,h.key,hne,?_,?_,?_,?_,?_,?_⟩
    · rw [CSession.nodup_members]
      grind
    · exact fun d hd => h.roomid d (hmem d hd).1
    · exact fun d hd => h.sessionid d (hmem d hd).1
    · exact fun d hd => h.player d (hd.imp (fun hd => ((how d).mp hd).1) (fun hd => ((hop d).mp hd).1))
    · exact fun d hd => h.watcher d ((hwt d).mp hd).1
    · exact fun a b ha hb => h.notBothReady a b ((how a).mp ha).1 ((hop b).mp hb).1
  exact hok.congr (fun d hd => Function.update_of_ne (hmem d hd).2 _ _)

/-- A client without a seat may change. -/
theorem CSession.Ok.update {m : CClientPtr → Member} {r : ℤ} {k : ℕ} {ss : CSession}
    {c : CClientPtr} (h : ss.Ok m r k) (hout : c ∉ ss.members) (m' : Member) :
    ss.Ok (Function.update m c m') r k := by
  refine h.congr (fun d hd => Function.update_of_ne ?_ _ _)
  rintro rfl
  exact hout hd

/-- A newcomer that names the session takes the free player's seat. -/
theorem CSession.Ok.takeSeat {m : CClientPtr → Member} {r : ℤ} {k : ℕ} {ss ss' : CSession}
    {c : CClientPtr} (h : ss.Ok m r k) (hout : c ∉ ss.members) (hroom : (m c).roomid = r)
    (hsid : (m c).sessionid = k) (hst : (m c).state = .stSessional)
    (hts : ss.takeSeat c = some ss') : ss'.Ok m r k := by
  obtain ⟨hone,htwo⟩ := CSession.nodup_members.mp h.nodup
  rw [CSession.mem_members] at hout
  have hr := h.roomid
  have hs := h.sessionid
  simp only [CSession.mem_members] at hr hs
  rcases CSession.takeSeat_some hts with ⟨hne,hop,rfl⟩ | ⟨how,hne,rfl⟩ | ⟨-,-,rfl⟩
  · refine ⟨h.id,h.key,?_,?_,?_,?_,?_,h.watcher,?_⟩
    · simp [CSession.members]
    · rw [CSession.nodup_members]
      grind
    · simp only [CSession.mem_members]
      grind
    · simp only [CSession.mem_members]
      grind
    · rintro d (hd | hd)
      · exact h.player d (.inl hd)
      · rw [← Option.some.inj hd,hst]
        decide
    · rintro a b - hb ⟨-,hready⟩
      rw [← Option.some.inj hb,hst] at hready
      cases hready
  · refine ⟨h.id,h.key,?_,?_,?_,?_,?_,h.watcher,?_⟩
    · simp [CSession.members]
    · rw [CSession.nodup_members]
      grind
    · simp only [CSession.mem_members]
      grind
    · simp only [CSession.mem_members]
      grind
    · rintro d (hd | hd)
      · rw [← Option.some.inj hd,hst]
        decide
      · exact h.player d (.inr hd)
    · rintro a b ha - ⟨hready,-⟩
      rw [← Option.some.inj ha,hst] at hready
      cases hready
  · exact h

theorem CSession.Ok.addWatcher {m : CClientPtr → Member} {r : ℤ} {k : ℕ} {ss ss' : CSession}
    {c : CClientPtr} (h : ss.Ok m r k) (hout : c ∉ ss.members) (hroom : (m c).roomid = r)
    (hsid : (m c).sessionid = k) (hst : (m c).state = .stWatching)
    (haw : ss.addWatcher c = some ss') : ss'.Ok m r k := by
  obtain ⟨hid,how,hop,hwt⟩ := CSession.addWatcher_some haw
  obtain ⟨hone,htwo⟩ := CSession.nodup_members.mp h.nodup
  have hmem : ∀ d, d ∈ ss'.members ↔ d = c ∨ d ∈ ss.members := fun d =>
    CSession.mem_addWatcher haw
  refine ⟨hid.trans h.id,h.key,?_,?_,?_,?_,?_,?_,?_⟩
  · exact List.ne_nil_of_mem ((hmem c).mpr (.inl rfl))
  · rw [CSession.mem_members] at hout
    rw [CSession.nodup_members]
    grind
  · intro d hd
    rcases (hmem d).mp hd with rfl | hd
    · exact hroom
    · exact h.roomid d hd
  · intro d hd
    rcases (hmem d).mp hd with rfl | hd
    · exact hsid
    · exact h.sessionid d hd
  · rw [how,hop]
    exact h.player
  · intro d hd
    rcases (hwt d).mp hd with rfl | hd
    · exact hst
    · exact h.watcher d hd
  · rw [how,hop]
    exact h.notBothReady

/-- A player's state changes, and not to ready next to a ready player. -/
theorem CSession.Ok.setState {m : CClientPtr → Member} {r : ℤ} {k : ℕ} {ss : CSession}
    {c : CClientPtr} {st : CClient.State} (h : ss.Ok m r k)
    (hc : ss.owner = some c ∨ ss.opponent = some c) (hw : st ≠ .stWatching)
    (hready : st = .stReady → ∀ d, d ≠ c → ss.owner = some d ∨ ss.opponent = some d →
      (m d).state ≠ .stReady) : ss.Ok (Hall.setState m c st) r k := by
  obtain ⟨hone,htwo⟩ := CSession.nodup_members.mp h.nodup
  refine ⟨h.id,h.key,h.members_ne,h.nodup,?_,?_,?_,?_,?_⟩
  · intro d hd
    rw [Hall.setState_roomid]
    exact h.roomid d hd
  · intro d hd
    rw [Hall.setState_sessionid]
    exact h.sessionid d hd
  · intro d hd
    rw [Hall.setState_state]
    split_ifs
    · exact hw
    · exact h.player d hd
  · intro d hd
    have hne : d ≠ c := by
      rintro rfl
      exact hc.elim (htwo d hd).1 (htwo d hd).2
    rw [Hall.setState_of_ne hne]
    exact h.watcher d hd
  · rintro ow op how hop ⟨hrow,hrop⟩
    have hne : ow ≠ op := fun he => hone ow how (he ▸ hop)
    rw [Hall.setState_state] at hrow hrop
    have hcase : c = ow ∨ c = op := by
      rcases hc with hc | hc
      · exact .inl (Option.some.inj (hc.symm.trans how))
      · exact .inr (Option.some.inj (hc.symm.trans hop))
    rcases hcase with rfl | rfl
    · rw [if_pos rfl] at hrow
      rw [if_neg (Ne.symm hne)] at hrop
      exact hready hrow op (Ne.symm hne) (.inr hop) hrop
    · rw [if_neg hne] at hrow
      rw [if_pos rfl] at hrop
      exact hready hrop ow hne (.inl how) hrow

/-- The invariant of the hall. -/
structure Hall.Ok (h : Hall) : Prop where
  idseed : h.idseed < 20000
  member : ∀ c, (h.member c).Ok
  registered : ∀ u c, h.list.find? u = some c ↔ (h.member c).ctsk = true ∧ (h.member c).uname = u
  room : ∀ r rm, h.rooms.find? r = some rm → (rm.cfg.id : ℤ) = r
  user : ∀ r rm, h.rooms.find? r = some rm → ∀ c, c ∈ rm.usrlist ↔ (h.member c).roomid = r
  found : ∀ c, 0 < (h.member c).roomid → ∃ rm, h.rooms.find? (h.member c).roomid = some rm
  session : ∀ r rm, h.rooms.find? r = some rm →
    ∀ k ss, rm.sessions.find? k = some ss → ss.Ok h.member r k

namespace Hall

@[simp] theorem setMember_member (h : Hall) (c : CClientPtr) (m : Member) :
    (h.setMember c m).member = Function.update h.member c m := rfl

@[simp] theorem setMember_rooms (h : Hall) (c : CClientPtr) (m : Member) :
    (h.setMember c m).rooms = h.rooms := rfl

@[simp] theorem setMember_list (h : Hall) (c : CClientPtr) (m : Member) :
    (h.setMember c m).list = h.list := rfl

@[simp] theorem setRoom_member (h : Hall) (r : ℤ) (rm : CRoom) :
    (h.setRoom r rm).member = h.member := rfl

@[simp] theorem setRoom_rooms (h : Hall) (r : ℤ) (rm : CRoom) :
    (h.setRoom r rm).rooms = h.rooms.insert r rm := rfl

namespace Ok
variable {h : Hall}

theorem room_pos (ok : h.Ok) {r : ℤ} {rm : CRoom} (hrm : h.rooms.find? r = some rm) : 0 < r := by
  have hid := ok.room r rm hrm
  have hpos := rm.cfg.id_pos
  omega

/-- A client in no session has no seat. -/
theorem not_mem_members (ok : h.Ok) {c : CClientPtr} {r : ℤ} {rm : CRoom} {k : ℕ} {ss : CSession}
    (hrm : h.rooms.find? r = some rm) (hss : rm.sessions.find? k = some ss)
    (hc : (h.member c).roomid = r → (h.member c).sessionid ≠ k) : c ∉ ss.members := by
  intro hmem
  have hok := ok.session r rm hrm k ss hss
  exact hc (hok.roomid c hmem) (hok.sessionid c hmem)

/-- The key of a live session is the number a client reads as its id. -/
theorem toUInt32_key (ok : h.Ok) {r : ℤ} {rm : CRoom} {sid : ℤ} {ss : CSession}
    (hrm : h.rooms.find? r = some rm) (hsid : -2^31 ≤ sid ∧ sid < 2^31)
    (hss : rm.sessions.find? (Scan.toUInt32 sid) = some ss) : (Scan.toUInt32 sid : ℤ) = sid := by
  have hkey := (ok.session r rm hrm _ ss hss).key
  exact Scan.toUInt32_of_range hsid (by omega)

end Ok
end Hall
end CcniServer
