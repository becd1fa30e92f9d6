import CcniServer.Hall.Asserts
import CcniServer.Lib.Seating

/-!
The clients as guests: where each one is, by its own fields and the side it has in its session,
and what an event asks of a guest. Rooms, sessions and registry can be read off the places.
-/
namespace CcniServer
open Seating (Side Phase Role Place Rules Move)

abbrev Guests := Seating CClientPtr ℤ ℤ String

/-- The state of a client at a place. The owner's side moves first. -/
def CClient.State.ofPlace : Place ℤ ℤ → CClient.State
  | .offline => .stOffline
  | .online => .stOnline
  | .room _ => .stIdle
  | .table _ _ (.player _ .waiting) => .stSessional
  | .table _ _ (.player _ .ready) => .stReady
  | .table _ _ .watcher => .stWatching
  | .table _ _ (.player .owner .playing) => .stMoving
  | .table _ _ (.player .opponent .playing) => .stPondering

def CSession.seat (ss : CSession) : Side → Option CClientPtr
  | .owner => ss.owner
  | .opponent => ss.opponent

theorem CSession.mem_of_seat {ss : CSession} {side : Side} {c : CClientPtr}
    (h : ss.seat side = some c) : c ∈ ss.members := by
  rw [CSession.mem_members]
  cases side with
  | owner => exact .inl h
  | opponent => exact .inr (.inl h)

/-- The seat of a client is that of its role. -/
def CSession.HasRole (ss : CSession) (c : CClientPtr) : Role → Prop
  | .player side _ => ss.seat side = some c
  | .watcher => c ∈ ss.watchers

/-- What a handler does for a client. -/
def Action.move : Action → Move CClientPtr ℤ ℤ String
  | .quiet => .stay
  | .login c uname => .arrive c uname
  | .enterRoom c rid => .enter c rid
  | .leaveRoom c => .leave c
  | .newSession c => .found c
  | .enterSession c sid => .join c sid
  | .leaveSession c => .rise c
  | .watchSession c sid => .watch c sid
  | .ready c => .ready c
  | .listSessions _ => .stay
  | .disconnect c => .vanish c

/-- What an event asks of the guests. -/
def Guests.asked (g : Guests) : Event → Move CClientPtr ℤ ℤ String
  | .login c _ _ uname => if g.place c = .offline then .arrive c uname else .stay
  | .frame _ => .stay
  | .request c msg =>
    if msg.isElement ∧
        (CClient.State.ofPlace (g.place c)).isIn (CClient.findHnd msg.name).vstate then
      (Hall.handlerAction c msg (CClient.findHnd msg.name).fn).move
    else .stay
  | .disconnect c => if g.place c = .offline then .stay else .vanish c

namespace Hall
variable {h : Hall}

/-- The owner of the session that a client names. -/
def ownerOf (h : Hall) (r sid : ℤ) : Option CClientPtr :=
  (h.rooms.find? r).bind (fun rm =>
    (rm.sessions.find? (Scan.toUInt32 sid)).bind CSession.owner)

def sideOf (h : Hall) (c : CClientPtr) : Side :=
  if h.ownerOf (h.member c).roomid (h.member c).sessionid = some c then .owner else .opponent

/-- The place of a client with its fields and its side. -/
def placeAt (m : Member) (side : Side) : Place ℤ ℤ :=
  match m.state with
  | .stOffline => .offline
  | .stOnline => .online
  | .stIdle => .room m.roomid
  | .stSessional => .table m.roomid m.sessionid (.player side .waiting)
  | .stReady => .table m.roomid m.sessionid (.player side .ready)
  | .stWatching => .table m.roomid m.sessionid .watcher
  | .stMoving => .table m.roomid m.sessionid (.player side .playing)
  | .stPondering => .table m.roomid m.sessionid (.player side .playing)

def placeOf (h : Hall) (c : CClientPtr) : Place ℤ ℤ := placeAt (h.member c) (h.sideOf c)

def guests (h : Hall) : Guests := ⟨h.placeOf,fun c => (h.member c).uname⟩

def rules (h : Hall) : Rules ℤ :=
  ⟨fun r => (h.rooms.find? r).map (fun rm => rm.cfg.capacity),
    CSessionConfig.create.watcherCount.toNat⟩

/-- Every session is one that a client made, and the owner's side moves. -/
structure Standard (h : Hall) : Prop where
  plain : ∀ r rm, h.rooms.find? r = some rm →
    ∀ k ss, rm.sessions.find? k = some ss → ss.cfg = .create
  state : ∀ c, CClient.State.ofPlace (h.placeOf c) = (h.member c).state

/-! ### Where a client is -/

theorem room?_placeOf (ok : h.Ok) (c : CClientPtr) {r : ℤ} (hr : 0 < r) :
    (h.placeOf c).room? = some r ↔ (h.member c).roomid = r := by
  have hm := ok.member c
  unfold placeOf placeAt
  cases hst : (h.member c).state with
  | stOffline | stOnline =>
    have hno := hm.noRoom (by rw [hst]; rfl)
    simp only [Place.room?,reduceCtorEq,false_iff]
    omega
  | _ => simp [Place.room?]

theorem inRoom_guests (ok : h.Ok) {r : ℤ} {rm : CRoom} (hrm : h.rooms.find? r = some rm) :
    (h.guests.inRoom r).encard = rm.usrlist.size := by
  have hset : h.guests.inRoom r = rm.usrlist.toList.toFinset := by
    ext c
    change (h.placeOf c).room? = some r ↔ _
    rw [room?_placeOf ok c (ok.room_pos hrm),← ok.user r rm hrm c]
    simp [OrdSet.mem_toList]
  rw [hset,Set.encard_coe_eq_coe_finsetCard,List.toFinset_card_of_nodup rm.usrlist.nodup]
  rfl

section
variable {r : ℤ} {rm : CRoom} {k : ℕ} {ss : CSession} {c : CClientPtr}

theorem sideOf_seat (ok : h.Ok) (hrm : h.rooms.find? r = some rm)
    (hss : rm.sessions.find? k = some ss) {side : Side} (hc : ss.seat side = some c) :
    h.sideOf c = side := by
  have hok := ok.session r rm hrm k ss hss
  have hmem := CSession.mem_of_seat hc
  have hkey : Scan.toUInt32 (k : ℤ) = k := Scan.toUInt32_natCast (by have := hok.key; omega)
  have howner : h.ownerOf (h.member c).roomid (h.member c).sessionid = ss.owner := by
    rw [hok.roomid c hmem,hok.sessionid c hmem,ownerOf,hrm,Option.bind_some,hkey,hss,
      Option.bind_some]
  unfold sideOf
  rw [howner]
  cases side with
  | owner => exact if_pos hc
  | opponent =>
    refine if_neg fun how => ?_
    exact (CSession.nodup_members.mp hok.nodup).1 c how hc

/-- A player is at its side of the table. -/
theorem placeOf_seat (ok : h.Ok) (hrm : h.rooms.find? r = some rm)
    (hss : rm.sessions.find? k = some ss) {side : Side} (hc : ss.seat side = some c) :
    ∃ phase, h.placeOf c = .table r k (.player side phase) := by
  have hok := ok.session r rm hrm k ss hss
  have hmem := CSession.mem_of_seat hc
  have hsid := hok.sessionid c hmem
  have hin : (h.member c).state.isIn (CClient.State.stInSession ||| CClient.State.stPlaying) =
      true := by
    have hkey := hok.key
    exact (ok.member c).isIn_session.mpr (by omega)
  have hwatch : (h.member c).state ≠ .stWatching := by
    apply hok.player
    cases side with
    | owner => exact .inl hc
    | opponent => exact .inr hc
  rw [placeOf,sideOf_seat ok hrm hss hc,placeAt,hok.roomid c hmem,hsid]
  cases hst : (h.member c).state with
  | stOffline | stOnline | stIdle =>
    rw [hst] at hin
    cases hin
  | stWatching => exact absurd hst hwatch
  | _ => exact ⟨_,rfl⟩

theorem placeOf_watcher (ok : h.Ok) (hrm : h.rooms.find? r = some rm)
    (hss : rm.sessions.find? k = some ss) (hc : c ∈ ss.watchers) :
    h.placeOf c = .table r k .watcher := by
  have hok := ok.session r rm hrm k ss hss
  have hmem : c ∈ ss.members := by simp [hc]
  rw [placeOf,placeAt,hok.watcher c hc,hok.roomid c hmem,hok.sessionid c hmem]

end

/-- A client at a table has a seat in the session it names. -/
theorem session_of_place (hs : h.Seated) (ok : h.Ok) {r sid : ℤ} {role : Role} {c : CClientPtr}
    (hc : h.placeOf c = .table r sid role) : ∃ rm ss, h.rooms.find? r = some rm ∧
      rm.sessions.find? (Scan.toUInt32 sid) = some ss ∧ c ∈ ss.members ∧
      (Scan.toUInt32 sid : ℤ) = sid := by
  have hfields : (h.member c).roomid = r ∧ (h.member c).sessionid = sid ∧
      (h.member c).state.isIn (CClient.State.stInSession ||| CClient.State.stPlaying) = true := by
    unfold placeOf placeAt at hc
    cases hst : (h.member c).state <;> rw [hst] at hc <;> cases hc <;> exact ⟨rfl,rfl,rfl⟩
  obtain ⟨rfl,rfl,hin⟩ := hfields
  obtain ⟨rm,ss,hrm,hss,hmem⟩ := hs c ((ok.member c).inSession hin)
  exact ⟨rm,ss,hrm,hss,hmem,((ok.session _ rm hrm _ ss hss).sessionid c hmem).symm⟩

/-- The role of a client at a table is that of its seat. -/
theorem seat_of_place (hs : h.Seated) (ok : h.Ok) {r sid : ℤ} {role : Role} {c : CClientPtr}
    (hc : h.placeOf c = .table r sid role) : ∃ rm ss, h.rooms.find? r = some rm ∧
      rm.sessions.find? (Scan.toUInt32 sid) = some ss ∧ (Scan.toUInt32 sid : ℤ) = sid ∧
      ss.HasRole c role := by
  obtain ⟨rm,ss,hrm,hss,hmem,hkey⟩ := session_of_place hs ok hc
  refine ⟨rm,ss,hrm,hss,hkey,?_⟩
  have hplayer : ∀ side, ss.seat side = some c → ∃ phase, role = .player side phase := by
    intro side hseat
    obtain ⟨phase,hplace⟩ := placeOf_seat ok hrm hss hseat
    rw [hc,hkey] at hplace
    cases hplace
    exact ⟨phase,rfl⟩
  obtain how | hop | hwt := CSession.mem_members.mp hmem
  · obtain ⟨phase,rfl⟩ := hplayer .owner how
    exact how
  · obtain ⟨phase,rfl⟩ := hplayer .opponent hop
    exact hop
  · have hplace := placeOf_watcher ok hrm hss hwt
    rw [hc,hkey] at hplace
    cases hplace
    exact hwt

section
variable {r sid : ℤ} {rm : CRoom}

theorem taken_guests (hs : h.Seated) (ok : h.Ok) (hrm : h.rooms.find? r = some rm) {ss : CSession}
    (hss : rm.sessions.find? (Scan.toUInt32 sid) = some ss)
    (hkey : (Scan.toUInt32 sid : ℤ) = sid) (side : Side) :
    h.guests.Taken r sid side ↔ ss.seat side ≠ none := by
  constructor
  · rintro ⟨c,phase,hc⟩
    obtain ⟨rm',ss',hrm',hss',-,hseat⟩ := seat_of_place hs ok hc
    rw [hrm] at hrm'
    cases hrm'
    rw [hss] at hss'
    cases hss'
    rw [hseat]
    exact Option.some_ne_none c
  · intro hne
    obtain ⟨c,hc⟩ := Option.ne_none_iff_exists'.mp hne
    obtain ⟨phase,hplace⟩ := placeOf_seat ok hrm hss hc
    rw [hkey] at hplace
    exact ⟨c,phase,hplace⟩

theorem watching_guests (hs : h.Seated) (ok : h.Ok) (hrm : h.rooms.find? r = some rm)
    {ss : CSession} (hss : rm.sessions.find? (Scan.toUInt32 sid) = some ss)
    (hkey : (Scan.toUInt32 sid : ℤ) = sid) :
    (h.guests.watching r sid).encard = ss.watchers.size := by
  have hset : h.guests.watching r sid = ss.watchers.toList.toFinset := by
    ext c
    rw [Finset.mem_coe,List.mem_toFinset,OrdSet.mem_toList]
    constructor
    · intro hc
      obtain ⟨rm',ss',hrm',hss',-,hseat⟩ := seat_of_place hs ok hc
      rw [hrm] at hrm'
      cases hrm'
      rw [hss] at hss'
      cases hss'
      exact hseat
    · intro hc
      have hplace := placeOf_watcher ok hrm hss hc
      rwa [hkey] at hplace
  rw [hset,Set.encard_coe_eq_coe_finsetCard,List.toFinset_card_of_nodup ss.watchers.nodup]
  rfl

/-- A table has guests where its session is live. -/
theorem atTable_guests (hs : h.Seated) (ok : h.Ok) (hrm : h.rooms.find? r = some rm) :
    (h.guests.atTable r sid).Nonempty ↔
      (rm.sessions.find? (Scan.toUInt32 sid)).isSome ∧ (Scan.toUInt32 sid : ℤ) = sid := by
  constructor
  · rintro ⟨c,role,hc⟩
    obtain ⟨rm',ss,hrm',hss,-,hkey⟩ := session_of_place hs ok hc
    rw [hrm] at hrm'
    cases hrm'
    rw [hss]
    exact ⟨rfl,hkey⟩
  · rintro ⟨hsome,hkey⟩
    obtain ⟨ss,hss⟩ := Option.isSome_iff_exists.mp hsome
    obtain ⟨c,hc⟩ := List.exists_mem_of_ne_nil _ (ok.session r rm hrm _ ss hss).members_ne
    obtain how | hop | hwt := CSession.mem_members.mp hc
    · obtain ⟨phase,hplace⟩ := placeOf_seat ok hrm hss (show ss.seat .owner = some c from how)
      exact ⟨c,_,hkey ▸ hplace⟩
    · obtain ⟨phase,hplace⟩ := placeOf_seat ok hrm hss (show ss.seat .opponent = some c from hop)
      exact ⟨c,_,hkey ▸ hplace⟩
    · exact ⟨c,_,hkey ▸ placeOf_watcher ok hrm hss hwt⟩

end

theorem placeOf_ne_offline (ok : h.Ok) {c : CClientPtr} :
    h.placeOf c ≠ .offline ↔ (h.member c).ctsk = true := by
  rw [(ok.member c).served,placeOf,placeAt]
  cases (h.member c).state <;> simp

theorem named_guests (ok : h.Ok) (u : String) :
    h.guests.Named u ↔ (h.list.find? u).isSome := by
  rw [Option.isSome_iff_exists]
  refine exists_congr fun c => ?_
  rw [ok.registered u c]
  exact and_congr (placeOf_ne_offline ok) Iff.rfl

end Hall
end CcniServer
