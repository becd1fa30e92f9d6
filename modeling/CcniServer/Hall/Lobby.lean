import CcniServer.Hall.Room
import CcniServer.Lib.Deltas
import CcniServer.Lib.Lts
import Mathlib.Data.Finset.Dedup

/-!
What the users of a room know of its sessions. `createSession` collects the users to tell under
one lock and stores the session under another, and other users come in between.
-/
namespace CcniServer
open Delta

namespace CRoom

/-- The first critical section of `createSession`: the users to tell. -/
def collect (rm : CRoom) (c : CClientPtr) : List CClientPtr :=
  rm.usrlist.toList.filter (fun u => u ≠ c)

/-- `createSession` is its two critical sections in a row. -/
theorem createSession_eq (rm : CRoom) (heap : CClientPtr → CClient) (c : CClientPtr)
    (cfg : CSessionConfig) (bd : CBroadCaster) (idseed : ℕ) (h : c ∈ rm.usrlist) :
    rm.createSession heap c cfg bd idseed =
      .ok (CSession.new c cfg (CSession.genid idseed).2,
        rm.setSession (CSession.genid idseed).2 (CSession.new c cfg (CSession.genid idseed).2),
        bd.insertaddrs heap (rm.collect c),(CSession.genid idseed).1) := by
  rw [createSession,Checked.ASSERT_pos (by simpa using h)]
  rfl

/-- The ids of the session map. -/
def ids (rm : CRoom) : Finset ℕ := (rm.sessions.entries.map Prod.fst).toFinset

/-- The ids in `xmlSessionList`. -/
def listed (rm : CRoom) : Finset ℕ := (rm.sessions.entries.map (fun e => e.2.id)).toFinset

/-- Every session is stored under its id. -/
def Keyed (rm : CRoom) : Prop := ∀ k ss, rm.sessions.find? k = some ss → ss.id = k

theorem mem_ids {rm : CRoom} {k : ℕ} : k ∈ rm.ids ↔ (rm.sessions.find? k).isSome := by
  rw [ids,List.mem_toFinset,OrdMap.find?,OrdMap.findEntry_isSome]

theorem ids_setSession (rm : CRoom) (k : ℕ) (ss : CSession) :
    (rm.setSession k ss).ids = insert k rm.ids := by
  ext k'
  rw [Finset.mem_insert,mem_ids,mem_ids,setSession,OrdMap.find?_insert]
  by_cases h : k' = k <;> simp [h]

theorem ids_eraseSession (rm : CRoom) (k : ℕ) : (rm.eraseSession k).ids = rm.ids.erase k := by
  ext k'
  rw [Finset.mem_erase,mem_ids,mem_ids,eraseSession,OrdMap.find?_erase]
  by_cases h : k' = k <;> simp [h]

theorem Keyed.listed_eq {rm : CRoom} (h : rm.Keyed) : rm.listed = rm.ids := by
  rw [listed,ids]
  apply congrArg List.toFinset
  apply List.map_congr_left
  intro e he
  exact h e.1 e.2 (OrdMap.find?_eq_some.mpr he)

theorem Keyed.setSession {rm : CRoom} (h : rm.Keyed) {k : ℕ} {ss : CSession} (hid : ss.id = k) :
    (rm.setSession k ss).Keyed := by
  intro k' ss' hfind
  rw [CRoom.setSession,OrdMap.find?_insert] at hfind
  split_ifs at hfind with hk
  · cases hfind
    exact hid.trans hk.symm
  · exact h k' ss' hfind

theorem Keyed.eraseSession {rm : CRoom} (h : rm.Keyed) (k : ℕ) : (rm.eraseSession k).Keyed := by
  intro k' ss' hfind
  rw [CRoom.eraseSession,OrdMap.find?_erase] at hfind
  split_ifs at hfind with hk
  exact h k' ss' hfind

/-- The ids and the users stay. -/
structure SameIds (rm rm' : CRoom) : Prop where
  ids : rm'.ids = rm.ids
  usrlist : rm'.usrlist = rm.usrlist
  keyed : rm.Keyed → rm'.Keyed

theorem SameIds.refl (rm : CRoom) : SameIds rm rm := ⟨rfl,rfl,id⟩

theorem sameIds_setSession {rm : CRoom} {k : ℕ} {ss ss' : CSession}
    (hfind : rm.sessions.find? k = some ss) (hid : ss'.id = ss.id) :
    SameIds rm (rm.setSession k ss') := by
  refine ⟨?_,rfl,fun hkeyed => hkeyed.setSession (hid.trans (hkeyed k ss hfind))⟩
  rw [ids_setSession]
  apply Finset.insert_eq_of_mem
  simp [mem_ids,hfind]

theorem enterSession_sameIds (rm : CRoom) (sid : ℤ) (c : CClientPtr) (noti : CNotifier) :
    SameIds rm (rm.enterSession sid c noti).2.1 := by
  cases hfind : rm.sessions.find? (Scan.toUInt32 sid) with
  | none =>
    simp only [enterSession,hfind]
    exact .refl rm
  | some ss =>
    simp only [enterSession,hfind]
    apply sameIds_setSession hfind
    cases hseat : ss.takeSeat c with
    | none => simp only [CSession.enter,hseat]
    | some ss' =>
      simp only [CSession.enter,hseat]
      rcases CSession.takeSeat_some hseat with ⟨-,-,rfl⟩ | ⟨-,-,rfl⟩ | ⟨-,-,rfl⟩ <;> rfl

theorem watchSession_sameIds (rm : CRoom) (sid : ℤ) (c : CClientPtr) (noti : CNotifier) :
    SameIds rm (rm.watchSession sid c noti).2.1 := by
  cases hfind : rm.sessions.find? (Scan.toUInt32 sid) with
  | none =>
    simp only [watchSession,hfind]
    exact .refl rm
  | some ss =>
    simp only [watchSession,hfind]
    apply sameIds_setSession hfind
    cases hseat : ss.addWatcher c with
    | none => simp only [CSession.watch,hseat]
    | some ss' =>
      simp only [CSession.watch,hseat]
      exact (CSession.addWatcher_some hseat).1

theorem leave_id (ss : CSession) (c : CClientPtr) (noti : CNotifier) :
    (ss.leave c noti).2.1.id = ss.id := by
  cases hseat : ss.unseat c with
  | none => simp only [CSession.leave,hseat]
  | some ss' =>
    simp only [CSession.leave,hseat]
    unfold CSession.unseat at hseat
    split_ifs at hseat <;> cases hseat <;> rfl

/-- A session left behind empty is erased, and else the ids stay. -/
theorem leaveSession_cases {rm : CRoom} {heap : CClientPtr → CClient} {sid : ℤ} {c : CClientPtr}
    {noti : CNotifier} {bd : CBroadCaster} {left : CRoom × CNotifier × CBroadCaster}
    (h : rm.leaveSession heap sid c noti bd = .ok left) :
    left.1 = rm.eraseSession (Scan.toUInt32 sid) ∨
      (SameIds rm left.1 ∧ Scan.toUInt32 sid ∈ rm.ids) := by
  unfold leaveSession at h
  cases hfind : rm.sessions.find? (Scan.toUInt32 sid) with
  | none =>
    simp only [hfind] at h
    cases h
  | some ss =>
    simp only [hfind] at h
    by_cases hret : (ss.leave c noti).1 ≥ 0
    · rw [Checked.ASSERT_pos (by simpa using hret),Checked.ok_bind] at h
      split_ifs at h with hempty
      · cases h
        exact .inl rfl
      · cases h
        right
        exact ⟨sameIds_setSession hfind (leave_id ss c noti),by simp [mem_ids,hfind]⟩
    · rw [Checked.ASSERT_neg (by simpa using hret)] at h
      cases h

end CRoom

/-- The room, the users whom a `createSession` in progress has collected, and what every user
has been told since it entered. -/
structure Lobby where
  room : CRoom
  creating : CClientPtr → Option (List CClientPtr)
  reader : CClientPtr → Reader ℕ

namespace Lobby

/-- The critical sections. A `createSession` has two; a session's id is what `genid` gives. -/
inductive Event
  | enter (c : CClientPtr)
  | leave (c : CClientPtr)
  | collect (c : CClientPtr)
  | store (c : CClientPtr) (cfg : CSessionConfig) (id : ℕ)
  | leaveSession (c : CClientPtr) (sid : Int32)
  | enterSession (c : CClientPtr) (sid : Int32)
  | watchSession (c : CClientPtr) (sid : Int32)
  | listSessions (c : CClientPtr)

def start (cfg : CRoomConfig) : Lobby := ⟨.new cfg,fun _ => none,fun _ => .new⟩

def setReader (s : Lobby) (c : CClientPtr) (r : Reader ℕ) : Lobby :=
  { s with reader := Function.update s.reader c r }

def setCreating (s : Lobby) (c : CClientPtr) (us : Option (List CClientPtr)) : Lobby :=
  { s with creating := Function.update s.creating c us }

/-- An announcement to a list of users. -/
def tell (s : Lobby) (us : List CClientPtr) (d : Delta ℕ) : Lobby :=
  { s with reader := fun u => if u ∈ us then (s.reader u).hear d else s.reader u }

/-- A client does one thing at a time. -/
def Busy (s : Lobby) : Event → Bool
  | .enter c => (s.creating c).isSome
  | .leave c => (s.creating c).isSome
  | .collect c => (s.creating c).isSome
  | .store c _ _ => (s.creating c).isNone
  | .leaveSession c _ => (s.creating c).isSome
  | .enterSession c _ => (s.creating c).isSome
  | .watchSession c _ => (s.creating c).isSome
  | .listSessions c => (s.creating c).isSome

variable (heap : CClientPtr → CClient)

/-- An emptied session is announced to everybody in the room. -/
def leaveSession (s : Lobby) (c : CClientPtr) (sid : ℤ) : Checked Lobby := do
  ASSERT .leaveSessionState (sid > 0)
  let left ← s.room.leaveSession heap sid c .create .create
  let s := { s with room := left.1 }
  if (left.1.sessions.find? (Scan.toUInt32 sid)).isSome then return s
  else return s.tell left.1.usrlist.toList (.removed sid.toNat)

/-- One critical section, with what it makes known to whom. The creator learns of its session
from `NewSessionRes`. -/
def act (s : Lobby) : Event → Checked Lobby
  | .enter c =>
    let entered := s.room.enter heap c .create
    if entered.1 then .ok ({ s with room := entered.2.1 }.setReader c .new) else .ok s
  | .leave c => .ok { s with room := (s.room.leave heap c .create).2.1 }
  | .collect c => do
    ASSERT .createSessionInRoom (c ∈ s.room.usrlist)
    return s.setCreating c (some (s.room.collect c))
  | .store c cfg id =>
    let ss := CSession.new c cfg id
    .ok (({ s with room := s.room.setSession ss.id ss }.setCreating c none).tell
      (c :: (s.creating c).getD []) (.added ss.id))
  | .leaveSession c sid => s.leaveSession heap c sid.toInt
  | .enterSession c sid => .ok { s with room := (s.room.enterSession sid.toInt c .create).2.1 }
  | .watchSession c sid => .ok { s with room := (s.room.watchSession sid.toInt c .create).2.1 }
  | .listSessions c => .ok (s.setReader c ((s.reader c).list s.room.listed))

def step (s : Lobby) (e : Event) : Checked Lobby := if s.Busy e then .ok s else s.act heap e

/-- Every user that has listed the sessions ends, with the announcements made to it since it
entered, at the ids of the session map. -/
def Agreed (s : Lobby) : Prop := ∀ u ∈ s.room.usrlist, (s.reader u).Knows s.room.ids

/-- Whoever has come in since a `createSession` collected the users has neither listed the
sessions before the new one is stored nor been told of the end of one with its id. -/
def Told (s : Lobby) : Event → Prop
  | .store c _ id => ∀ us, s.creating c = some us → id ∉ s.room.ids → ∀ u ∈ s.room.usrlist,
      u ≠ c → u ∉ us → (s.reader u).snap = none ∧ .removed id ∉ (s.reader u).heard
  | _ => True

structure Inv (s : Lobby) : Prop where
  keyed : s.room.Keyed
  follows : ∀ u ∈ s.room.usrlist, (s.reader u).Follows s.room.ids

theorem Inv.agreed {s : Lobby} (h : s.Inv) : s.Agreed := fun u hu => (h.follows u hu).knows

theorem start_inv (cfg : CRoomConfig) : (start cfg).Inv := by
  refine ⟨fun k ss hfind => ?_,fun u hu => ?_⟩
  · simp [start,CRoom.new] at hfind
  · exact absurd hu (OrdSet.not_mem_empty u)

/-- The ids of the room and the users it keeps are the old ones. -/
theorem Inv.sameIds {s : Lobby} (h : s.Inv) {rm : CRoom} (hrm : s.room.SameIds rm) :
    Inv { s with room := rm } := by
  refine ⟨hrm.keyed h.keyed,fun u hu => ?_⟩
  change (s.reader u).Follows rm.ids
  rw [hrm.ids]
  exact h.follows u (hrm.usrlist ▸ hu)

theorem enter_inv {s s' : Lobby} (h : s.Inv) {c : CClientPtr}
    (hact : s.act heap (.enter c) = .ok s') : s'.Inv := by
  unfold act at hact
  cases hadd : s.room.addUser c with
  | none =>
    simp only [CRoom.enter,hadd] at hact
    cases hact
    exact h
  | some rm' =>
    simp only [CRoom.enter,hadd,if_true] at hact
    cases hact
    obtain ⟨-,hsessions,hmem⟩ := CRoom.addUser_some hadd
    have hids : rm'.ids = s.room.ids := by rw [CRoom.ids,CRoom.ids,hsessions]
    refine ⟨fun k ss hfind => h.keyed k ss (hsessions ▸ hfind),fun u hu => ?_⟩
    change (Function.update s.reader c Reader.new u).Follows rm'.ids
    rw [hids]
    by_cases huc : u = c
    · rw [huc,Function.update_self]
      exact Reader.follows_new _
    · rw [Function.update_of_ne huc]
      exact h.follows u (((hmem u).mp hu).resolve_left huc)

theorem leave_inv {s s' : Lobby} (h : s.Inv) {c : CClientPtr}
    (hact : s.act heap (.leave c) = .ok s') : s'.Inv := by
  cases hact
  cases hdis : s.room.dismiss c with
  | none =>
    simp only [CRoom.leave,hdis]
    exact h
  | some rm' =>
    obtain ⟨-,-,hsessions,hmem⟩ := CRoom.dismiss_some hdis
    simp only [CRoom.leave,hdis]
    have hids : rm'.ids = s.room.ids := by rw [CRoom.ids,CRoom.ids,hsessions]
    refine ⟨fun k ss hfind => h.keyed k ss (hsessions ▸ hfind),fun u hu => ?_⟩
    change (s.reader u).Follows rm'.ids
    rw [hids]
    exact h.follows u ((hmem u).mp hu).2

/-- The users who are told follow, and those who are not have nothing to lose. -/
theorem store_inv {s s' : Lobby} (h : s.Inv) {c : CClientPtr} {cfg : CSessionConfig} {id : ℕ}
    (hbusy : s.Busy (.store c cfg id) = false) (htold : s.Told (.store c cfg id))
    (hact : s.act heap (.store c cfg id) = .ok s') : s'.Inv := by
  cases hact
  obtain ⟨us,hus⟩ : ∃ us, s.creating c = some us := by
    simpa [Busy,Option.isNone_eq_false_iff,Option.isSome_iff_exists] using hbusy
  have hrest := htold us hus
  refine ⟨h.keyed.setSession rfl,fun u hu => ?_⟩
  have hu : u ∈ s.room.usrlist := hu
  have hids : (s.room.setSession id (CSession.new c cfg id)).ids = insert id s.room.ids :=
    CRoom.ids_setSession _ _ _
  change Reader.Follows (CRoom.ids (s.room.setSession id (CSession.new c cfg id)))
    (if u ∈ c :: (s.creating c).getD [] then (s.reader u).hear (.added id) else s.reader u)
  rw [hids,hus,Option.getD_some]
  have hf := h.follows u hu
  split_ifs with hmem
  · exact hf.hear (.added id)
  · rw [List.mem_cons,not_or] at hmem
    by_cases hid : id ∈ s.room.ids
    · rw [Finset.insert_eq_of_mem hid]
      exact hf
    · obtain ⟨hsnap,hheard⟩ := hrest hid u hu hmem.1 hmem.2
      exact hf.silent hsnap hheard

/-- Everybody in the room is told. -/
theorem Inv.tellAll {s : Lobby} (h : s.Inv) {d : Delta ℕ} {rm : CRoom} (hkeyed : rm.Keyed)
    (hids : rm.ids = d.apply s.room.ids) (husr : rm.usrlist = s.room.usrlist) :
    Inv ({ s with room := rm }.tell rm.usrlist.toList d) := by
  refine ⟨hkeyed,fun u hu => ?_⟩
  have hmem : u ∈ rm.usrlist.toList := hu
  change Reader.Follows rm.ids
    (if u ∈ rm.usrlist.toList then (s.reader u).hear d else s.reader u)
  rw [if_pos hmem,hids]
  apply Reader.Follows.hear
  exact h.follows u (husr ▸ hu)

theorem leaveSession_inv {s s' : Lobby} (h : s.Inv) {c : CClientPtr} {sid : Int32}
    (hact : s.leaveSession heap c sid.toInt = .ok s') : s'.Inv := by
  unfold leaveSession at hact
  by_cases hpos : sid.toInt > 0
  · rw [Checked.ASSERT_pos (by simpa using hpos),Checked.ok_bind] at hact
    cases hleft : s.room.leaveSession heap sid.toInt c .create .create with
    | error site =>
      rw [hleft] at hact
      cases hact
    | ok left =>
      rw [hleft,Checked.ok_bind] at hact
      have hlt := sid.toInt_lt
      have hsid : Scan.toUInt32 sid.toInt = sid.toInt.toNat := by
        unfold Scan.toUInt32
        omega
      rcases CRoom.leaveSession_cases hleft with herased | ⟨hsame,hmem⟩
      · have hnone : left.1.sessions.find? (Scan.toUInt32 sid.toInt) = none := by
          rw [herased,CRoom.eraseSession,OrdMap.find?_erase,if_pos rfl]
        simp only [hnone,Option.isSome_none,Bool.false_eq_true,if_false] at hact
        cases hact
        apply h.tellAll
        · exact herased ▸ h.keyed.eraseSession _
        · rw [herased,CRoom.ids_eraseSession,hsid]
          rfl
        · rw [herased]
          rfl
      · have hsome : (left.1.sessions.find? (Scan.toUInt32 sid.toInt)).isSome := by
          rwa [← CRoom.mem_ids,hsame.ids]
        simp only [hsome,if_true] at hact
        cases hact
        exact h.sameIds hsame
  · rw [Checked.ASSERT_neg (by simpa using hpos)] at hact
    cases hact

theorem list_inv {s : Lobby} (h : s.Inv) (c : CClientPtr) :
    Inv (s.setReader c ((s.reader c).list s.room.listed)) := by
  refine ⟨h.keyed,fun u hu => ?_⟩
  have hf := h.follows u hu
  change (Function.update s.reader c _ u).Follows s.room.ids
  by_cases huc : u = c
  · rw [huc,Function.update_self,h.keyed.listed_eq]
    exact (huc ▸ hf).list
  · rw [Function.update_of_ne huc]
    exact hf

theorem step_inv {s s' : Lobby} {e : Event} (h : s.Inv) (htold : s.Told e)
    (hstep : s.step heap e = .ok s') : s'.Inv := by
  unfold step at hstep
  split_ifs at hstep with hbusy
  · cases hstep
    exact h
  · cases e with
    | enter c => exact enter_inv heap h hstep
    | leave c => exact leave_inv heap h hstep
    | collect c =>
      simp only [act] at hstep
      by_cases hc : c ∈ s.room.usrlist
      · rw [Checked.ASSERT_pos (by simpa using hc),Checked.ok_bind] at hstep
        cases hstep
        exact ⟨h.keyed,h.follows⟩
      · rw [Checked.ASSERT_neg (by simpa using hc)] at hstep
        cases hstep
    | store c cfg id => exact store_inv heap h (by simpa using hbusy) htold hstep
    | leaveSession c sid => exact leaveSession_inv heap h hstep
    | enterSession c sid =>
      cases hstep
      exact h.sameIds (CRoom.enterSession_sameIds _ _ _ _)
    | watchSession c sid =>
      cases hstep
      exact h.sameIds (CRoom.watchSession_sameIds _ _ _ _)
    | listSessions c =>
      cases hstep
      exact list_inv h c

/-- Where somebody has come in unnoticed, a user no longer knows the sessions, or does not once it
lists them. -/
theorem unknown_of_not_told {s s' : Lobby} (h : s.Inv) {c : CClientPtr} {cfg : CSessionConfig}
    {id : ℕ} (htold : ¬ s.Told (.store c cfg id)) (hact : s.act heap (.store c cfg id) = .ok s') :
    ∃ u ∈ s'.room.usrlist, ¬ (s'.reader u).Knows s'.room.ids ∨
      ¬ ((s'.reader u).list s'.room.ids).Knows s'.room.ids := by
  cases hact
  simp only [Told,not_forall] at htold
  obtain ⟨us,hus,hid,u,hu,huc,hunheard,hlost⟩ := htold
  have hf := h.follows u hu
  refine ⟨u,hu,?_⟩
  have hids : (s.room.setSession id (CSession.new c cfg id)).ids = insert id s.room.ids :=
    CRoom.ids_setSession _ _ _
  have hnot : u ∉ c :: (s.creating c).getD [] := by
    rw [hus,Option.getD_some,List.mem_cons,not_or]
    exact ⟨huc,hunheard⟩
  change ¬ Reader.Knows (CRoom.ids (s.room.setSession id (CSession.new c cfg id)))
      (if u ∈ c :: (s.creating c).getD [] then (s.reader u).hear (.added id) else s.reader u) ∨
    ¬ Reader.Knows (CRoom.ids (s.room.setSession id (CSession.new c cfg id)))
      ((if u ∈ c :: (s.creating c).getD [] then (s.reader u).hear (.added id)
        else s.reader u).list (CRoom.ids (s.room.setSession id (CSession.new c cfg id))))
  rw [if_neg hnot,hids]
  cases hsnap : (s.reader u).snap with
  | some snap =>
    -- The list it has taken lacks the session.
    left
    intro hknows
    have hold := hf.knows snap.1 snap.2 hsnap 0 (Nat.zero_le _)
    have hnew := hknows snap.1 snap.2 hsnap 0 (Nat.zero_le _)
    exact hid (by rw [← hold,hnew]; exact Finset.mem_insert_self _ _)
  | none =>
    -- The list it takes now has the session, and the old announcement removes it.
    right
    intro hknows
    have hheard : .removed id ∈ (s.reader u).heard := by
      by_contra hne
      exact hlost ⟨hsnap,hne⟩
    have hnew : replay (insert id s.room.ids) (s.reader u).heard = insert id s.room.ids :=
      hknows _ _ rfl 0 (Nat.zero_le _)
    have hlack := @Settled.not_mem_replay _ _ _ (insert id s.room.ids) _ hf.settled _ hid hheard
    rw [hnew] at hlack
    exact hlack (Finset.mem_insert_self _ _)

/-- In a run in which nobody comes in unnoticed, every user that lists the sessions knows them. -/
theorem sessions_known (cfg : CRoomConfig) (es : List Event) (s : Lobby)
    (hrun : Lts.exec (step heap) (start cfg) es = .ok s)
    (htold : Lts.Meets (Lts.Steps (step heap)) Told (start cfg) es) : s.Agreed := by
  have hinv : s.Inv := (Lts.exec_ok_iff.mp hrun).invariant_of_meets
    (fun s e s' h hc hstep => step_inv heap h hc hstep) htold (start_inv cfg)
  exact hinv.agreed

def smallRoom : CRoomConfig := ⟨1,2,"",Nat.one_pos,CRoomConfig.one_lt⟩

/-- The second user comes in while the first creates a session, and lists the sessions once it is
stored. The session ends while the second user creates another one. -/
def atOnce : List Event :=
  [.enter 1,.listSessions 1,.collect 1,.enter 2,.store 1 .create 1,.listSessions 2,.collect 2,
   .leaveSession 1 1,.store 2 .create 2]

theorem sessions_known_atOnce : ∃ s,
    Lts.exec (step fun _ => .absent) (start smallRoom) atOnce = .ok s ∧ s.Agreed ∧
    s.room.ids = {2} ∧ (s.reader 1).snap.isSome ∧ (s.reader 2).snap.isSome := by
  refine ⟨_,rfl,sessions_known (fun _ => .absent) smallRoom atOnce _ rfl ?_,by decide,rfl,rfl⟩
  refine Lts.meets_cons rfl trivial (Lts.meets_cons rfl trivial (Lts.meets_cons rfl trivial ?_))
  refine Lts.meets_cons rfl trivial (Lts.meets_cons rfl ?_ ?_)
  · rintro us hus hid u hu huc hmem
    have h12 : u ∈ [1,2] := hu
    obtain rfl | rfl := List.mem_pair.mp h12
    · exact absurd rfl huc
    · exact ⟨rfl,List.not_mem_nil⟩
  refine Lts.meets_cons rfl trivial (Lts.meets_cons rfl trivial (Lts.meets_cons rfl trivial ?_))
  refine Lts.meets_cons rfl ?_ trivial
  rintro us hus hid u hu huc hmem
  have h12 : u ∈ [1,2] := hu
  obtain rfl | rfl := List.mem_pair.mp h12
  · cases hus
    exact absurd (by decide) hmem
  · exact absurd rfl huc

/-- A user enters and lists the sessions while another one is creating a session. -/
def overtaken : List Event :=
  [.enter 1,.collect 1,.enter 2,.listSessions 2,.store 1 .create 1]

theorem session_missed : ∃ s, Lts.exec (step fun _ => .absent) (start smallRoom) overtaken = .ok s ∧
    (∀ c, s.creating c = none) ∧ ¬ s.Agreed := by
  refine ⟨_,rfl,fun c => ?_,fun hagreed => ?_⟩
  · change Function.update (Function.update (fun _ => none) 1 _) 1 none c = none
    simp [Function.update_apply]
  · have h := hagreed 2 (by decide) ∅ 0 rfl 0 le_rfl
    exact absurd h (by decide)

end Lobby
end CcniServer
