import CcniServer.Hall.SessionIds
import CcniServer.Hall.Linear

/-!
Ids drawn by interleaved threads. Nothing guards the static counter of `genid`: a thread that makes
a session reads it, writes it and reads it again, between its two critical sections. Annals of the
draws run beside the threads and say when the id that comes out is in use.
-/
namespace CcniServer

/-! ### Keys of the operations -/

namespace Hall
variable {h : Hall} {c : CClientPtr}

theorem hasKey_setRoom {r r' : ℤ} {rm' : CRoom} {k : ℕ} (hk : (h.setRoom r rm').HasKey r' k) :
    h.HasKey r' k ∨ r' = r ∧ ∃ ss, rm'.sessions.find? k = some ss := by
  obtain ⟨rm,ss,hrm,hss⟩ := hk
  rw [setRoom_rooms,OrdMap.find?_insert] at hrm
  split_ifs at hrm with hr
  · cases hrm
    exact .inr ⟨hr,ss,hss⟩
  · exact .inl ⟨rm,ss,hrm,hss⟩

/-- The room that is stored has no new key. -/
theorem hasKey_of_sub {r : ℤ} {rm rm' : CRoom} (hrm : h.rooms.find? r = some rm)
    (hsub : ∀ k ss, rm'.sessions.find? k = some ss → ∃ ss', rm.sessions.find? k = some ss') {r' : ℤ}
    {k : ℕ} (hk : (h.setRoom r rm').HasKey r' k) : h.HasKey r' k := by
  obtain hold | ⟨rfl,ss,hss⟩ := hasKey_setRoom hk
  · exact hold
  · obtain ⟨ss',hss'⟩ := hsub k ss hss
    exact ⟨rm,ss',hrm,hss'⟩

end Hall

namespace Instr
variable {h : Hall} {c : CClientPtr} {res : Hall × List Field} {r : ℤ} {k : ℕ}

theorem runLeaveRoom_hasKey (hr : runLeaveRoom h c = .ok res) (hk : res.1.HasKey r k) :
    h.HasKey r k := by
  simp only [runLeaveRoom] at hr
  split at hr
  · next rm hrm =>
    split at hr
    · next rm' hdis =>
      cases hr
      refine Hall.hasKey_of_sub hrm (fun k ss hss => ⟨ss,?_⟩) hk
      rwa [← (CRoom.dismiss_some hdis).2.2.1]
    · cases hr
  · cases hr

theorem runLeaveSession_hasKey (hr : runLeaveSession h c = .ok res) (hk : res.1.HasKey r k) :
    h.HasKey r k := by
  simp only [runLeaveSession,ASSERT] at hr
  split_ifs at hr
  · simp only [Checked.ok_bind] at hr
    split at hr
    · next rm hrm =>
      split at hr
      · next ss hss =>
        split at hr
        · next ss' hun =>
          cases hr
          refine Hall.hasKey_of_sub hrm ?_ hk
          unfold Hall.putSession
          split_ifs
          · intro k ss₀ hss₀
            rw [CRoom.eraseSession,OrdMap.find?_erase] at hss₀
            split_ifs at hss₀
            exact ⟨ss₀,hss₀⟩
          · exact Hall.NoNewKey.sub_setSession hss
        · cases hr
      · cases hr
    · cases hr
  · cases hr

theorem runJoin_hasKey {sid : ℤ} {stateSite foundSite : Assertion}
    {join : CSession → Option CSession} {st : CClient.State}
    (hr : runJoin h c sid stateSite foundSite join st = .ok res) (hk : res.1.HasKey r k) :
    h.HasKey r k := by
  simp only [runJoin,ASSERT] at hr
  split_ifs at hr
  · simp only [Checked.ok_bind] at hr
    split at hr
    · next rm hrm =>
      split at hr
      · cases hr
        exact hk
      · next ss' hjoin =>
        cases hr
        obtain ⟨ss,hss,-⟩ := Option.bind_eq_some_iff.mp hjoin
        exact Hall.hasKey_of_sub hrm (Hall.NoNewKey.sub_setSession hss) hk
    · cases hr
  · cases hr

/-- Only `store` adds a key. -/
theorem run_hasKey {i : Instr} {seed : Fin 20000} (hi : i ≠ .store)
    (hr : i.run h c seed = .ok res) (hk : res.1.HasKey r k) : h.HasKey r k := by
  cases i with
  | store => exact absurd rfl hi
  | enterRoom rid =>
    simp only [run] at hr
    split_ifs at hr
    · cases hr
      exact hk
    · split at hr
      · cases hr
        exact hk
      · next rm' hadm =>
        cases hr
        obtain ⟨rm,hrm,hadd⟩ := Option.bind_eq_some_iff.mp hadm
        refine Hall.hasKey_of_sub hrm (fun k ss hss => ⟨ss,?_⟩) hk
        rwa [← (CRoom.addUser_some hadd).2.1]
  | leaveRoom =>
    simp only [run,ASSERT] at hr
    split_ifs at hr
    · exact runLeaveRoom_hasKey hr hk
    · cases hr
  | collect =>
    simp only [run,ASSERT] at hr
    split_ifs at hr
    · simp only [Checked.ok_bind] at hr
      split at hr
      · split_ifs at hr
        · cases hr
          exact hk
        · cases hr
      · cases hr
    · cases hr
  | enterSession sid => exact runJoin_hasKey hr hk
  | leaveSession => exact runLeaveSession_hasKey hr hk
  | watchSession sid => exact runJoin_hasKey hr hk
  | ready =>
    obtain ⟨-,rm,ss,m,-,-,-,hres⟩ := run_ready hr
    rw [hres] at hk
    exact hk
  | listSessions =>
    rw [run_listSessions hr] at hk
    exact hk
  | dropSession =>
    simp only [run] at hr
    split_ifs at hr
    · exact runLeaveSession_hasKey hr hk
    · cases hr
      exact hk
  | dropRoom =>
    simp only [run] at hr
    split_ifs at hr
    · exact runLeaveRoom_hasKey hr hk
    · cases hr
      exact hk
  | delClient =>
    cases hr
    exact hk

end Instr

namespace Workers
variable {s s' : Workers} {c : CClientPtr} {seed : Fin 20000}

theorem go_hasKey (hs : s.go c seed = .ok s')
    (hstore : ∀ is, s.todo c = [] → s.code c ≠ .store :: is) {r : ℤ} {k : ℕ}
    (hk : s'.hall.HasKey r k) : s.hall.HasKey r k := by
  unfold go at hs
  split at hs
  · cases hs
    exact hk
  · next htodo =>
    split at hs
    · cases hs
      exact hk
    · next i is hcode =>
      have hi : i ≠ .store := fun hi => hstore is htodo (hi ▸ hcode)
      cases hr : i.run s.hall c seed with
      | error site =>
        rw [hr] at hs
        cases hs
      | ok res =>
        rw [hr] at hs
        cases hs
        exact Instr.run_hasKey hi hr hk

/-- No other turn changes the rooms. -/
theorem step_rooms {t : Turn} (ht : ∀ c seed, t ≠ .go c seed) (hs : s.step t = .ok s') :
    s'.hall.rooms = s.hall.rooms := by
  cases t with
  | login c uname =>
    simp only [step,register] at hs
    split_ifs at hs
    · split at hs <;> cases hs <;> rfl
    · cases hs
      rfl
  | request c msg =>
    simp only [step] at hs
    split_ifs at hs <;> cases hs <;> rfl
  | broken c =>
    simp only [step] at hs
    split_ifs at hs <;> cases hs <;> rfl
  | go c seed => exact absurd rfl (ht c seed)

end Workers

/-! ### The counter -/

/-- Where a thread is in `genid`: in front of it, or it has read `idseed`, or written it, or read
it again and has its id, which is one more. -/
inductive Genid
  | start
  | read (v : Fin 20000)
  | written
  | drawn (v : Fin 20000)

/-- A thread has read the counter and not finished with it. -/
def Genid.Inside : Genid → Prop
  | .read _ => True
  | .written => True
  | _ => False

/-- The threads with the static counter of `genid`. -/
structure Makers where
  workers : Workers
  idseed : Fin 20000
  genid : CClientPtr → Genid

namespace Makers

def create (cfgs : List CRoomConfig) : Makers := ⟨.create cfgs,0,fun _ => .start⟩

/-- The place in `genid` of a thread that makes a session, once it has collected the recipients. -/
def making (s : Makers) (c : CClientPtr) : Option Genid :=
  match s.workers.todo c, s.workers.code c with
  | [], .store :: _ => some (s.genid c)
  | _, _ => none

/-- The room that the client's session is stored in. -/
def roomid (s : Makers) (c : CClientPtr) : ℤ := (s.workers.hall.member c).roomid

/-- One access to the counter, the section that stores the session under the id, or a step that
has nothing to do with it. The section takes the seed from which `genid` makes the id. -/
def go (s : Makers) (c : CClientPtr) (seed : Fin 20000) : Checked Makers :=
  match s.making c with
  | some .start => .ok { s with genid := Function.update s.genid c (.read s.idseed) }
  | some (.read v) =>
    .ok { s with idseed := v + 1, genid := Function.update s.genid c .written }
  | some .written => .ok { s with genid := Function.update s.genid c (.drawn s.idseed) }
  | some (.drawn v) => (s.workers.go c (v - 1)).map fun w =>
      { s with workers := w, genid := Function.update s.genid c .start }
  | none => (s.workers.go c seed).map fun w => { s with workers := w }

def step (s : Makers) : Turn → Checked Makers
  | .go c seed => s.go c seed
  | t => (s.workers.step t).map fun w => { s with workers := w }

/-- Nobody draws an id while another thread does. -/
def Apart (s : Makers) : Turn → Prop
  | .go c _ => s.making c = some .start → ∀ d, ¬ (s.genid d).Inside
  | _ => True

/-- A session that is stored gets an id that no live session of the room has, and the session map
gets an entry more. -/
def AddsSession (s : Makers) : Turn → Prop
  | .go c seed => ∀ v, s.making c = some (.drawn v) →
      ∀ rm, s.workers.hall.rooms.find? (s.roomid c) = some rm →
        rm.sessions.find? (v + 1) = none ∧ ∀ t, s.go c seed = .ok t →
          ∃ rm', t.workers.hall.rooms.find? (s.roomid c) = some rm' ∧
            rm'.sessions.size = rm.sessions.size + 1
  | _ => True

variable {s t : Makers} {c : CClientPtr} {seed v : Fin 20000}

theorem of_making {g : Genid} (h : s.making c = some g) : s.workers.todo c = [] ∧
    (∃ is, s.workers.code c = .store :: is) ∧ s.genid c = g := by
  unfold making at h
  split at h
  · next is htodo hcode => exact ⟨htodo,⟨is,hcode⟩,Option.some.inj h⟩
  · cases h

/-- A section of another thread, or of this one where it makes no session. -/
theorem go_none (h : s.making c = none) (ht : s.go c seed = .ok t) :
    ∃ w, t = { s with workers := w } ∧ ∀ r k, w.hall.HasKey r k → s.workers.hall.HasKey r k := by
  simp only [go,h] at ht
  obtain ⟨w,hw,rfl⟩ := Checked.map_eq_ok.mp ht
  refine ⟨w,rfl,fun r k hk => Workers.go_hasKey hw (fun is htodo hcode => ?_) hk⟩
  rw [making,htodo,hcode] at h
  cases h

/-- The section stores a new session in the client's room, under the number after `v`. -/
theorem go_drawn (h : s.making c = some (.drawn v)) (ht : s.go c seed = .ok t) :
    ∃ rm ss w, s.workers.hall.rooms.find? (s.roomid c) = some rm ∧
      t = { s with workers := w, genid := Function.update s.genid c .start } ∧
      w.hall.rooms = s.workers.hall.rooms.insert (s.roomid c) (rm.setSession (v + 1) ss) := by
  obtain ⟨htodo,⟨is,hcode⟩,-⟩ := of_making h
  simp only [go,h] at ht
  obtain ⟨w,hw,rfl⟩ := Checked.map_eq_ok.mp ht
  have hgen : (CSession.genid (v - 1 : Fin 20000)).2 = v + 1 := by
    simp only [CSession.genid]
    omega
  simp only [Workers.go,htodo,hcode,Instr.run] at hw
  cases hrm : s.workers.hall.rooms.find? (s.workers.hall.member c).roomid with
  | none =>
    rw [hrm] at hw
    cases hw
  | some rm =>
    simp only [hrm,hgen] at hw
    cases hw
    exact ⟨rm,_,_,hrm,rfl,rfl⟩

/-- A thread leaves the places of the others. -/
theorem go_other {d : CClientPtr} (ht : s.go c seed = .ok t) (hd : d ≠ c) :
    t.genid d = s.genid d := by
  unfold go at ht
  split at ht
  · cases ht
    exact Function.update_of_ne hd ..
  · cases ht
    exact Function.update_of_ne hd ..
  · cases ht
    exact Function.update_of_ne hd ..
  · obtain ⟨w,-,rfl⟩ := Checked.map_eq_ok.mp ht
    exact Function.update_of_ne hd ..
  · obtain ⟨w,-,rfl⟩ := Checked.map_eq_ok.mp ht
    rfl

theorem step_others {u : Turn} (hu : ∀ c seed, u ≠ .go c seed) (ht : s.step u = .ok t) :
    ∃ w, t = { s with workers := w } ∧ w.hall.rooms = s.workers.hall.rooms := by
  cases u with
  | go c seed => exact absurd rfl (hu c seed)
  | _ =>
    obtain ⟨w,hw,rfl⟩ := Checked.map_eq_ok.mp ht
    exact ⟨w,rfl,Workers.step_rooms (by simp) hw⟩

end Makers

/-! ### Annals -/

/-- The threads with the number of ids drawn so far, the number of every client's last draw, and
the number of the draw from which the session under a key of a room has its id. -/
structure Annals where
  makers : Makers
  drawn : ℕ
  mine : CClientPtr → ℕ
  born : ℤ → ℕ → ℕ

namespace Annals

def create (cfgs : List CRoomConfig) : Annals := ⟨.create cfgs,0,fun _ => 0,fun _ _ => 0⟩

/-- What the annals record of a turn that leads to `m`. -/
def record (s : Annals) (m : Makers) : Turn → Annals
  | .go c _ =>
    match s.makers.making c with
    | some (.read _) =>
      { s with
        makers := m
        drawn := s.drawn + 1
        mine := Function.update s.mine c (s.drawn + 1) }
    | some (.drawn v) =>
      { s with
        makers := m
        born := Function.update s.born (s.makers.roomid c)
          (Function.update (s.born (s.makers.roomid c)) (v + 1) (s.mine c)) }
    | _ => { s with makers := m }
  | _ => { s with makers := m }

def step (s : Annals) (t : Turn) : Checked Annals :=
  (s.makers.step t).map fun m => s.record m t

/-- No session of the room has an id that was drawn a multiple of 20000 draws before or after the
client's. -/
def NoOldSession (s : Annals) : Turn → Prop
  | .go c _ => ∀ v, s.makers.making c = some (.drawn v) →
      ∀ rm k ss, s.makers.workers.hall.rooms.find? (s.makers.roomid c) = some rm →
        rm.sessions.find? k = some ss →
        ¬ (20000 : ℤ) ∣ s.mine c - s.born (s.makers.roomid c) k
  | _ => True

/-- What the place of a thread in `genid` says of the counter and of the thread's last draw. -/
def Place (idseed : Fin 20000) (drawn mine : ℕ) : Genid → Prop
  | .start => True
  | .read v => v = idseed
  | .written => mine = drawn
  | .drawn v => (v : ℕ) = mine % 20000

/-- One thread at most is inside `genid`. The counter has passed every draw, and an id tells from
which draw it is, up to the length of the round. -/
structure Ok (s : Annals) : Prop where
  idseed : (s.makers.idseed : ℕ) = s.drawn % 20000
  alone : ∀ c d, (s.makers.genid c).Inside → (s.makers.genid d).Inside → c = d
  place : ∀ c, Place s.makers.idseed s.drawn (s.mine c) (s.makers.genid c)
  born : ∀ r k, s.makers.workers.hall.HasKey r k → k = s.born r k % 20000 + 1

variable {s s' : Annals} {t : Turn} {c : CClientPtr} {seed v : Fin 20000}

theorem create_ok (cfgs : List CRoomConfig) : (create cfgs).Ok where
  idseed := rfl
  alone := nofun
  place _ := trivial
  born := by
    rintro r k ⟨rm,ss,hrm,hss⟩
    obtain ⟨cfg,rfl,-⟩ := Hall.createRooms_find? cfgs hrm
    cases hss

/-- The annals follow the threads. -/
@[simp] theorem record_makers (s : Annals) (m : Makers) (t : Turn) : (s.record m t).makers = m := by
  unfold record
  split
  · split <;> rfl
  · rfl

theorem Place.of_outside {idseed idseed' : Fin 20000} {drawn drawn' mine : ℕ} {g : Genid}
    (h : Place idseed drawn mine g) (hout : ¬ g.Inside) : Place idseed' drawn' mine g := by
  cases g with
  | start => trivial
  | read v => exact absurd trivial hout
  | written => exact absurd trivial hout
  | drawn v => exact h

/-- Threads outside `genid` stay there. -/
theorem alone_update {g : CClientPtr → Genid} (c : CClientPtr) (x : Genid)
    (hno : ∀ d, d ≠ c → ¬ (g d).Inside) (d e : CClientPtr) (hd : (Function.update g c x d).Inside)
    (he : (Function.update g c x e).Inside) : d = e := by
  have hall : ∀ d, (Function.update g c x d).Inside → d = c := by
    intro d hd
    by_contra hdc
    rw [Function.update_of_ne hdc] at hd
    exact hno d hdc hd
  exact (hall d hd).trans (hall e he).symm

namespace Ok

theorem others (ok : s.Ok) {w : Workers}
    (hkey : ∀ r k, w.hall.HasKey r k → s.makers.workers.hall.HasKey r k) :
    Ok { s with makers := { s.makers with workers := w } } :=
  ⟨ok.idseed,ok.alone,ok.place,fun r k hk => ok.born r k (hkey r k hk)⟩

/-- A thread goes on inside `genid`, where no other one is. -/
theorem outside (ok : s.Ok) (hc : (s.makers.genid c).Inside) (d : CClientPtr) (hd : d ≠ c) :
    ¬ (s.makers.genid d).Inside := fun hin => hd (ok.alone d c hin hc)

/-- A thread reads the counter when no other one is inside. -/
theorem start (ok : s.Ok) (hno : ∀ d, ¬ (s.makers.genid d).Inside) :
    Ok { s with makers := { s.makers with
      genid := Function.update s.makers.genid c (.read s.makers.idseed) } } where
  idseed := ok.idseed
  alone := alone_update c _ (fun d _ => hno d)
  place := (Function.forall_update_iff _ _).mpr ⟨rfl,fun d _ => ok.place d⟩
  born := ok.born

/-- It writes the counter: one more id is drawn. -/
theorem write (ok : s.Ok) (hc : s.makers.genid c = .read v) :
    Ok { s with
      makers := { s.makers with
        idseed := v + 1, genid := Function.update s.makers.genid c .written }
      drawn := s.drawn + 1
      mine := Function.update s.mine c (s.drawn + 1) } := by
  have hout := ok.outside (c := c) (by rw [hc]; trivial)
  have hv : v = s.makers.idseed := by
    have hplace := ok.place c
    rwa [hc] at hplace
  refine ⟨?_,alone_update c _ hout,?_,ok.born⟩
  · have hseed := ok.idseed
    change ((v + 1 : Fin 20000) : ℕ) = (s.drawn + 1) % 20000
    subst hv
    omega
  · refine (Function.forall_update_iff _ _).mpr ⟨Function.update_self ..,fun d hd => ?_⟩
    change Place _ _ (Function.update s.mine c (s.drawn + 1) d) _
    rw [Function.update_of_ne hd]
    exact (ok.place d).of_outside (hout d hd)

/-- It reads the counter again and has its own id. -/
theorem readAgain (ok : s.Ok) (hc : s.makers.genid c = .written) :
    Ok { s with makers := { s.makers with
      genid := Function.update s.makers.genid c (.drawn s.makers.idseed) } } where
  idseed := ok.idseed
  alone := alone_update c _ (ok.outside (by rw [hc]; trivial))
  place := by
    refine (Function.forall_update_iff _ _).mpr ⟨?_,fun d _ => ok.place d⟩
    have hplace := ok.place c
    rw [hc] at hplace
    change (s.makers.idseed : ℕ) = s.mine c % 20000
    rw [show s.mine c = s.drawn from hplace]
    exact ok.idseed
  born := ok.born

/-- It stores the session under the id, from its draw. -/
theorem store (ok : s.Ok) (hc : s.makers.genid c = .drawn v) {w : Workers} {rm : CRoom}
    {ss : CSession} (hrm : s.makers.workers.hall.rooms.find? (s.makers.roomid c) = some rm)
    (hw : w.hall.rooms =
      s.makers.workers.hall.rooms.insert (s.makers.roomid c) (rm.setSession (v + 1) ss)) :
    Ok { s with
      makers := { s.makers with
        workers := w, genid := Function.update s.makers.genid c .start }
      born := Function.update s.born (s.makers.roomid c)
        (Function.update (s.born (s.makers.roomid c)) (v + 1) (s.mine c)) } where
  idseed := ok.idseed
  alone := by
    have hstart : ∀ d, (Function.update s.makers.genid c .start d).Inside →
        (s.makers.genid d).Inside := by
      intro d hd
      by_cases hdc : d = c
      · rw [hdc,Function.update_self] at hd
        exact hd.elim
      · rwa [Function.update_of_ne hdc] at hd
    exact fun d e hd he => ok.alone d e (hstart d hd) (hstart e he)
  place := (Function.forall_update_iff _ _).mpr ⟨trivial,fun d _ => ok.place d⟩
  born := by
    rintro r k ⟨rm₀,ss₀,hrm₀,hss₀⟩
    have hplace := ok.place c
    rw [hc] at hplace
    rw [hw,OrdMap.find?_insert] at hrm₀
    change k = Function.update s.born _ _ r k % 20000 + 1
    split_ifs at hrm₀ with hr
    · cases hrm₀
      rw [CRoom.setSession,OrdMap.find?_insert] at hss₀
      rw [hr,Function.update_self]
      split_ifs at hss₀ with hk
      · rw [hk,Function.update_self]
        exact congrArg (· + 1) hplace
      · rw [Function.update_of_ne hk]
        exact ok.born _ k ⟨rm,ss₀,hrm,hss₀⟩
    · rw [Function.update_of_ne hr]
      exact ok.born r k ⟨rm₀,ss₀,hrm₀,hss₀⟩

theorem step (ok : s.Ok) (hapart : s.makers.Apart t) (hs : s.step t = .ok s') : s'.Ok := by
  obtain ⟨m,hm,rfl⟩ := Checked.map_eq_ok.mp hs
  cases t with
  | go c seed =>
    have hgo : s.makers.go c seed = .ok m := hm
    cases hmaking : s.makers.making c with
    | none =>
      obtain ⟨w,rfl,hkey⟩ := Makers.go_none hmaking hgo
      simp only [record,hmaking]
      exact ok.others hkey
    | some g =>
      obtain ⟨-,-,hg⟩ := Makers.of_making hmaking
      cases g with
      | start =>
        simp only [Makers.go,hmaking] at hgo
        cases hgo
        simp only [record,hmaking]
        exact ok.start (hapart hmaking)
      | read v =>
        simp only [Makers.go,hmaking] at hgo
        cases hgo
        simp only [record,hmaking]
        exact ok.write hg
      | written =>
        simp only [Makers.go,hmaking] at hgo
        cases hgo
        simp only [record,hmaking]
        exact ok.readAgain hg
      | drawn v =>
        obtain ⟨rm,ss,w,hrm,rfl,hw⟩ := Makers.go_drawn hmaking hgo
        simp only [record,hmaking]
        exact ok.store hg hrm hw
  | _ =>
    obtain ⟨w,rfl,hrooms⟩ := Makers.step_others (by simp) hm
    refine ok.others fun r k hk => ?_
    obtain ⟨rm,ss,hrm,hss⟩ := hk
    exact ⟨rm,ss,hrooms ▸ hrm,hss⟩

/-- The ages tell whether the id is in use. -/
theorem adds_iff (ok : s.Ok) (t : Turn) : s.makers.AddsSession t ↔ s.NoOldSession t := by
  cases t with
  | go c seed =>
    have hid : ∀ v, s.makers.making c = some (.drawn v) → (v : ℕ) = s.mine c % 20000 := by
      intro v hv
      have hplace := ok.place c
      rwa [(Makers.of_making hv).2.2] at hplace
    constructor
    · intro h v hv rm k ss hrm hss hdvd
      have hborn := ok.born _ k ⟨rm,ss,hrm,hss⟩
      have hk : k = v + 1 := by
        have := hid v hv
        omega
      have hnone := (h v hv rm hrm).1
      rw [← hk,hss] at hnone
      cases hnone
    · intro h v hv rm hrm
      have hnone : rm.sessions.find? (v + 1) = none := by
        refine Option.eq_none_iff_forall_ne_some.mpr fun ss hss => ?_
        have hborn := ok.born _ _ ⟨rm,ss,hrm,hss⟩
        apply h v hv rm _ ss hrm hss
        have := hid v hv
        omega
      refine ⟨hnone,fun t ht => ?_⟩
      obtain ⟨rm₀,ss,w,hrm₀,rfl,hw⟩ := Makers.go_drawn hv ht
      cases hrm.symm.trans hrm₀
      refine ⟨rm.setSession (v + 1) ss,?_,?_⟩
      · rw [hw,OrdMap.find?_insert,if_pos rfl]
      · rw [CRoom.setSession,OrdMap.size_insert,hnone]
        rfl
  | _ => exact Iff.rfl

end Ok
end Annals

namespace Makers
open Workers (on)
variable {cfgs : List CRoomConfig} {ts : List Turn} {s s' : Makers}

/-! ### Sessions that are added -/

/-- Every turn is one of the threads, or an access to the counter that they do not see. -/
theorem step_workers {t : Turn} (hs : s.step t = .ok s') :
    s'.workers = s.workers ∨ ∃ u, s.workers.step u = .ok s'.workers := by
  cases t with
  | go c seed =>
    have hgo : s.go c seed = .ok s' := hs
    unfold go at hgo
    split at hgo
    · cases hgo
      exact .inl rfl
    · cases hgo
      exact .inl rfl
    · cases hgo
      exact .inl rfl
    · next v hv =>
      obtain ⟨w,hw,rfl⟩ := Checked.map_eq_ok.mp hgo
      exact .inr ⟨.go c (v - 1),hw⟩
    · obtain ⟨w,hw,rfl⟩ := Checked.map_eq_ok.mp hgo
      exact .inr ⟨.go c seed,hw⟩
  | _ =>
    obtain ⟨w,hw,rfl⟩ := Checked.map_eq_ok.mp hs
    exact .inr ⟨_,hw⟩

theorem run_workers (hrun : Lts.exec step (create cfgs) ts = .ok s) :
    ∃ us, (Workers.create cfgs).run us = .ok s.workers := by
  have h : ∀ m : Makers, (∃ us, (Workers.create cfgs).run us = .ok m.workers) → ∀ t m',
      m.step t = .ok m' → ∃ us, (Workers.create cfgs).run us = .ok m'.workers := by
    rintro m ⟨us,hus⟩ t m' hm
    obtain hsame | ⟨u,hu⟩ := step_workers hm
    · exact ⟨us,hsame ▸ hus⟩
    · exact ⟨us ++ [u],(Lts.exec_append hus).trans (Lts.exec_cons_ok hu [])⟩
  exact (Lts.exec_ok_iff.mp hrun).invariant (fun m t m' hm ht => h m hm t m' ht) ⟨[],rfl⟩

/-- Where no two threads draw at once, a run adds every session under a free id exactly when none
of its sessions is stored in a room with a session a multiple of 20000 draws apart. -/
theorem stores_add_iff (hapart : Lts.Meets (Lts.Steps step) Apart (create cfgs) ts) :
    Lts.Meets (Lts.Steps step) AddsSession (create cfgs) ts ↔
      Lts.Meets (Lts.Steps Annals.step) Annals.NoOldSession (Annals.create cfgs) ts := by
  have hrun : ∀ (ts : List Turn) (s : Annals), s.Ok →
      Lts.Meets (Lts.Steps step) Apart s.makers ts →
      (Lts.Meets (Lts.Steps step) AddsSession s.makers ts ↔
        Lts.Meets (Lts.Steps Annals.step) Annals.NoOldSession s ts) := by
    intro ts
    induction ts with
    | nil => exact fun s ok hapart => Iff.rfl
    | cons t ts ih =>
      intro s ok hapart
      have hnext : ∀ m, s.makers.step t = .ok m → s.step t = .ok (s.record m t) :=
        fun m hm => Checked.map_eq_ok.mpr ⟨m,hm,rfl⟩
      refine and_congr (ok.adds_iff t) ⟨?_,?_⟩
      · intro h s' hs'
        obtain ⟨m,hm,rfl⟩ := Checked.map_eq_ok.mp hs'
        have hih := ih _ (ok.step hapart.1 hs')
        rw [Annals.record_makers] at hih
        exact (hih (hapart.2 m hm)).mp (h m hm)
      · intro h m hm
        have hih := ih _ (ok.step hapart.1 (hnext m hm))
        rw [Annals.record_makers] at hih
        exact (hih (hapart.2 m hm)).mpr (h _ (hnext m hm))
  exact hrun ts (Annals.create cfgs) (Annals.create_ok cfgs) hapart

/-- Two clients are in a room, and each has asked for a new session and collected its
recipients. -/
def asking : List Turn :=
  [.login 1 "alice",.login 2 "bob",on 1,on 2,
   .request 1 (CEngine.requestOf xmlTagEnterRoom "1"),
   .request 2 (CEngine.requestOf xmlTagEnterRoom "1"),
   on 1,on 2,on 2,on 1,on 1,on 2,
   .request 1 (CEngine.requestOf xmlTagNewSession ""),
   .request 2 (CEngine.requestOf xmlTagNewSession ""),on 1,on 2]

/-- The second client draws after the first, and stores its session before it. -/
def inTurn : List Turn := List.replicate 3 (on 1) ++ (List.replicate 4 (on 2) ++ [on 1])

/-- The second client reads the counter before the first has written it. -/
def atOnce : List Turn := [on 1,on 2,on 1,on 2,on 1,on 2,on 1,on 2]

/-- A turn that has nothing to do with the counter. -/
def Plain (s : Makers) : Turn → Prop
  | .go c _ => s.making c = none
  | _ => True

theorem Plain.apart (s : Makers) (t : Turn) (h : s.Plain t) : s.Apart t := by
  cases t with
  | go c seed => exact fun hstart => nomatch h.symm.trans hstart
  | _ => trivial

theorem Plain.adds (s : Makers) (t : Turn) (h : s.Plain t) : s.AddsSession t := by
  cases t with
  | go c seed => exact fun v hv => nomatch h.symm.trans hv
  | _ => trivial

theorem asking_plain : Lts.Meets (Lts.Steps step) Plain (create [CEngine.room1]) asking := by
  refine Lts.meets_cons rfl trivial (Lts.meets_cons rfl trivial ?_)
  refine Lts.meets_cons rfl rfl (Lts.meets_cons rfl rfl ?_)
  refine Lts.meets_cons rfl trivial (Lts.meets_cons rfl trivial ?_)
  refine Lts.meets_cons rfl rfl (Lts.meets_cons rfl rfl (Lts.meets_cons rfl rfl ?_))
  refine Lts.meets_cons rfl rfl (Lts.meets_cons rfl rfl (Lts.meets_cons rfl rfl ?_))
  refine Lts.meets_cons rfl trivial (Lts.meets_cons rfl trivial ?_)
  exact Lts.meets_cons rfl rfl (Lts.meets_cons rfl rfl trivial)

theorem genid_other {c d : CClientPtr} (hd : d ≠ c) {n : ℕ}
    (hrun : Lts.exec step s (List.replicate n (on c)) = .ok s') : s'.genid d = s.genid d := by
  induction n generalizing s with
  | zero =>
    cases hrun
    rfl
  | succ n ih =>
    obtain _ | ⟨hgo,hrest⟩ := Lts.exec_ok_iff.mp hrun
    rw [ih (Lts.exec_ok_iff.mpr hrest)]
    exact go_other hgo hd

/-- The draws of the two clients are apart and their sessions are added. -/
theorem stores_add_iff_inTurn :
    Lts.Meets (Lts.Steps Annals.step) Annals.NoOldSession (Annals.create [CEngine.room1])
      (asking ++ inTurn) := by
  obtain ⟨s,u,hs,hu,hgenid,hown,hapart,hapart',hadds,hadds'⟩ : ∃ s u,
      Lts.exec step (create [CEngine.room1]) asking = .ok s ∧
      Lts.exec step s (List.replicate 3 (on 1)) = .ok u ∧
      s.genid = (fun _ => .start) ∧ u.genid 1 = .drawn 1 ∧
      ((∀ d, ¬ (s.genid d).Inside) →
        Lts.Meets (Lts.Steps step) Apart s (List.replicate 3 (on 1))) ∧
      ((∀ d, ¬ (u.genid d).Inside) →
        Lts.Meets (Lts.Steps step) Apart u (List.replicate 4 (on 2) ++ [on 1])) ∧
      Lts.Meets (Lts.Steps step) AddsSession s (List.replicate 3 (on 1)) ∧
      Lts.Meets (Lts.Steps step) AddsSession u (List.replicate 4 (on 2) ++ [on 1]) := by
    refine ⟨_,_,rfl,rfl,rfl,rfl,fun hno => ?_,fun hno => ?_,?_,?_⟩
    · refine Lts.meets_cons rfl (fun _ => hno) ?_
      exact Lts.meets_cons rfl nofun (Lts.meets_cons rfl nofun trivial)
    · refine Lts.meets_cons rfl (fun _ => hno) ?_
      refine Lts.meets_cons rfl nofun (Lts.meets_cons rfl nofun ?_)
      exact Lts.meets_cons rfl nofun (Lts.meets_cons rfl nofun trivial)
    · exact Lts.meets_cons rfl nofun (Lts.meets_cons rfl nofun (Lts.meets_cons rfl nofun trivial))
    · refine Lts.meets_cons rfl nofun (Lts.meets_cons rfl nofun (Lts.meets_cons rfl nofun ?_))
      refine Lts.meets_cons rfl ?_ (Lts.meets_cons rfl ?_ trivial)
      · rintro v hv rm hrm
        cases hv
        cases hrm
        refine ⟨rfl,fun t ht => ?_⟩
        cases ht
        exact ⟨_,rfl,rfl⟩
      · rintro v hv rm hrm
        cases hv
        cases hrm
        refine ⟨rfl,fun t ht => ?_⟩
        cases ht
        exact ⟨_,rfl,rfl⟩
  have hout : ∀ d, ¬ (s.genid d).Inside := by
    rw [hgenid]
    exact fun _ => id
  have hout' : ∀ d, ¬ (u.genid d).Inside := by
    intro d hd
    by_cases hdone : d = 1
    · rw [hdone,hown] at hd
      exact hd
    · rw [genid_other hdone hu] at hd
      exact hout d hd
  refine (stores_add_iff (Lts.meets_append hs (asking_plain.imp Plain.apart)
    (Lts.meets_append hu (hapart hout) (hapart' hout')))).mp ?_
  exact Lts.meets_append hs (asking_plain.imp Plain.adds) (Lts.meets_append hu hadds hadds')

/-- Two sessions of a room get one id, and the second takes the place of the first. -/
theorem atOnce_replaces : ¬ Lts.Meets (Lts.Steps step) AddsSession (create [CEngine.room1])
    (asking ++ atOnce) := by
  obtain ⟨s,rm,ss,hs,hmaking,hrm,hss⟩ : ∃ s rm ss,
      Lts.exec step (create [CEngine.room1]) (asking ++ atOnce.take 7) = .ok s ∧
      s.making 2 = some (.drawn 1) ∧ s.workers.hall.rooms.find? (s.roomid 2) = some rm ∧
      rm.sessions.find? 2 = some ss := ⟨_,_,_,rfl,rfl,rfl,rfl⟩
  intro hmeets
  have hall : Lts.Meets (Lts.Steps step) AddsSession (create [CEngine.room1])
      ((asking ++ atOnce.take 7) ++ [on 2]) := hmeets
  have hlast : AddsSession s (on 2) := ((Lts.exec_ok_iff.mp hs).meets_of_append hall).1
  have hnone := (hlast 1 hmaking rm hrm).1
  cases hss.symm.trans hnone

end Makers
end CcniServer
