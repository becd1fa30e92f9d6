import CcniServer.Hall.Interleaving

/-!
Whole runs of the interleaved threads: what the shared tables say at any moment, the order in which
the operations take effect, and when a game keeps both its players.
-/
namespace CcniServer

/-- The instruction of a client in an operation. -/
def Op.of (c : CClientPtr) : Op → Option Instr
  | .login _ _ => none
  | .instr d _ i => if d = c then some i else none

namespace Workers
variable {s s' : Workers} {c d : CClientPtr} {cfgs : List CRoomConfig} {ts : List Turn}

/-- What one client's thread was given to run. -/
def askedOf (c : CClientPtr) (given : List (CClientPtr × List Instr)) : List Instr :=
  given.flatMap fun g => if g.1 = c then g.2 else []

/-! ### The order of the operations -/

theorem load_code (code : List Instr) :
    (s.load c code).code d = if c = d then code else s.code d := by
  by_cases hd : c = d
  · subst hd
    simp [load]
  · simp [load,hd,Function.update_of_ne (Ne.symm hd)]

/-- A turn takes the first of the instructions left, or it adds some where none are left. -/
theorem step_order {t : Turn} (ht : s.step t = .ok s') (c : CClientPtr) :
    (s.op t).toList.filterMap (Op.of c) ++ s'.code c =
      s.code c ++ askedOf c (s.asked t).toList := by
  cases t with
  | login d uname =>
    simp only [step] at ht
    split_ifs at ht with hc
    · cases ht
      simp [op,if_pos hc,Op.of,asked,askedOf,register_code]
    · cases ht
      simp [op,if_neg hc,asked,askedOf]
  | request d msg =>
    simp only [step] at ht
    split_ifs at ht with hc
    · cases ht
      have hnil : s.code d = [] := hc.1.2
      simp only [op,asked,if_pos hc,askedOf,load_code,Option.toList_none,Option.toList_some,
        List.filterMap_nil,List.nil_append,List.flatMap_singleton]
      split_ifs with hd
      · rw [← hd,hnil,List.nil_append]
      · rw [List.append_nil]
    · cases ht
      simp [op,asked,if_neg hc,askedOf]
  | broken d =>
    simp only [step] at ht
    split_ifs at ht with hc
    · cases ht
      have hnil : s.code d = [] := hc.1.2
      simp only [op,asked,if_pos hc,askedOf,load_code,Option.toList_none,Option.toList_some,
        List.filterMap_nil,List.nil_append,List.flatMap_singleton]
      split_ifs with hd
      · rw [← hd,hnil,List.nil_append]
      · rw [List.append_nil]
    · cases ht
      simp [op,asked,if_neg hc,askedOf]
  | go d seed =>
    simp only [step,go] at ht
    cases htodo : s.todo d with
    | cons w ws =>
      simp only [htodo] at ht
      cases ht
      simp [op,htodo,asked,askedOf]
    | nil =>
      cases hcode : s.code d with
      | nil =>
        simp only [htodo,hcode] at ht
        cases ht
        simp [op,htodo,hcode,asked,askedOf]
      | cons i is =>
        simp only [htodo,hcode] at ht
        cases hrun : i.run s.hall d seed with
        | error site =>
          rw [hrun] at ht
          cases ht
        | ok res =>
          rw [hrun] at ht
          cases ht
          simp only [op,htodo,hcode,asked,askedOf,Option.toList_some,Option.toList_none,
            List.flatMap_nil,List.append_nil]
          by_cases hd : d = c
          · subst hd
            simp [Op.of,hcode]
          · simp [Op.of,hd,Function.update_of_ne (Ne.symm hd)]

/-- Every thread runs what it was given, in this order and once. -/
theorem run_order (hrun : Lts.Run (Lts.Steps step) s ts s') (c : CClientPtr) :
    (Lts.trail step op s ts).filterMap (Op.of c) ++ s'.code c =
      s.code c ++ askedOf c (Lts.trail step asked s ts) := by
  induction hrun with
  | nil s => simp [Lts.trail,askedOf]
  | @cons s u s' t ts ht hrest ih =>
    have hone := step_order ht c
    rw [Lts.trail_cons_ok ht,Lts.trail_cons_ok ht,List.filterMap_append,List.append_assoc,ih,
      ← List.append_assoc,hone,List.append_assoc]
    simp only [askedOf,List.flatMap_append]

/-- Along a careful run no `ASSERT` fails, and at any moment the operations done so far could have
been done in one piece, one after another. -/
theorem inv_of_run (hcareful : Lts.Meets (Lts.Steps step) Careful (create cfgs) ts)
    (hrun : (create cfgs).run ts = .ok s) : s.Inv ∧
      Lts.Run Hall.Does (CEngine.create cfgs).hall (Lts.trail step op (create cfgs) ts)
        s.settled := by
  obtain ⟨t,ht,inv,hdone⟩ := Lts.exec_trail settled
    (fun s t inv ht => Inv.step inv ht) hcareful (create_inv cfgs)
  have hts : t = s := Except.ok.inj (ht.symm.trans hrun)
  subst hts
  refine ⟨inv,?_⟩
  rwa [create_settled] at hdone

theorem meets_idle {t : Turn} (hs : s.step t = .ok s') (ho : s.op t = none)
    (hm : Lts.Meets (Lts.Steps step) Careful s' ts) :
    Lts.Meets (Lts.Steps step) Careful s (t :: ts) := by
  refine Lts.meets_cons hs (fun o ho' => ?_) hm
  rw [ho] at ho'
  cases ho'

theorem meets_op {t : Turn} {o : Op} (hs : s.step t = .ok s') (ho : s.op t = some o)
    (hsp : s.hall.Spares o) (hm : Lts.Meets (Lts.Steps step) Careful s' ts) :
    Lts.Meets (Lts.Steps step) Careful s (t :: ts) := by
  refine Lts.meets_cons hs (fun o' ho' => ?_) hm
  rw [ho] at ho'
  cases ho'
  exact hsp

/-- A step of a thread that finds the counter of `genid` at its start. -/
def noSeed : Fin 20000 := ⟨0,Nat.succ_pos _⟩

def on (c : CClientPtr) : Turn := .go c noSeed

/-- Two clients come into a room at the same time, and the second enters the session of the first
before this one has written that it is in a session. -/
def together : List Turn :=
  [.login 1 "alice",.login 2 "bob",on 1,on 2,
   .request 1 (CEngine.requestOf xmlTagEnterRoom "1"),
   .request 2 (CEngine.requestOf xmlTagEnterRoom "1"),
   on 1,on 2,on 2,on 1,on 1,on 2,
   .request 1 (CEngine.requestOf xmlTagNewSession ""),
   .request 2 (CEngine.requestOf xmlTagEnterSession "2"),
   on 1,on 1,on 2,on 2,on 1,on 1,on 2]

theorem together_careful :
    Lts.Meets (Lts.Steps step) Careful (create [CEngine.room1]) together := by
  refine meets_op rfl rfl trivial (meets_op rfl rfl trivial ?_)
  refine meets_idle rfl rfl (meets_idle rfl rfl (meets_idle rfl rfl (meets_idle rfl rfl ?_)))
  refine meets_op rfl rfl trivial (meets_op rfl rfl trivial ?_)
  refine meets_idle rfl rfl (meets_idle rfl rfl (meets_idle rfl rfl (meets_idle rfl rfl ?_)))
  refine meets_idle rfl rfl (meets_idle rfl rfl (meets_op rfl rfl trivial (meets_op rfl rfl ?_ ?_)))
  · rintro rm hrm
    cases hrm
    rfl
  refine meets_op rfl rfl ?_ (meets_idle rfl rfl (meets_idle rfl rfl ?_))
  · rintro rm ss hrm hss
    cases hrm
    cases hss
    exact .inl (Option.some_ne_none _)
  · exact meets_idle rfl rfl (meets_idle rfl rfl trivial)

/-! ### Linear runs -/

/-- However the threads interleave, no `ASSERT` fails, and the hall is the one that the same
operations leave when each is done in one piece, in the order of their sections: once the writes
that are still to be made are made, and at once where there are none. Every thread does what its
client's requests ask for, in their order and once. -/
theorem run_linear (hcareful : Lts.Meets (Lts.Steps step) Careful (create cfgs) ts) :
    ∃ s, (create cfgs).run ts = .ok s ∧
      Lts.Run Hall.Does (CEngine.create cfgs).hall (Lts.trail step op (create cfgs) ts) s.settled ∧
      (∀ c, (Lts.trail step op (create cfgs) ts).filterMap (Op.of c) ++ s.code c =
        askedOf c (Lts.trail step asked (create cfgs) ts)) ∧
      ((∀ c, s.todo c = []) → s.settled = s.hall) := by
  obtain ⟨s,hrun,-,-⟩ := Lts.exec_trail settled (fun s t inv ht => Inv.step inv ht) hcareful
    (create_inv cfgs)
  have horder := run_order (Lts.exec_ok_iff.mp hrun)
  exact ⟨s,hrun,(inv_of_run hcareful hrun).2,fun c => horder c,settled_eq⟩

theorem run_linear_together : ∃ s, (create [CEngine.room1]).run together = .ok s ∧
    Lts.Run Hall.Does (CEngine.create [CEngine.room1]).hall
      [.login 1 "alice",.login 2 "bob",.instr 1 noSeed (.enterRoom 1),.instr 2 noSeed (.enterRoom 1),
       .instr 1 noSeed .collect,.instr 1 noSeed .store,.instr 2 noSeed (.enterSession 2)] s.settled := by
  obtain ⟨s,hrun,hlin,-⟩ := run_linear together_careful
  exact ⟨s,hrun,hlin⟩

/-! ### The tables at any moment -/

/-- Whatever the threads still have to write, the rooms and the sessions keep their bounds, nobody
has two seats or is in two rooms, and the fields of a client that has nothing to write say where it
is. -/
theorem tables_hold (hcareful : Lts.Meets (Lts.Steps step) Careful (create cfgs) ts)
    (hrun : (create cfgs).run ts = .ok s) :
    (∀ r rm k ss, s.hall.rooms.find? r = some rm → rm.sessions.find? k = some ss →
      rm.usrlist.size ≤ rm.cfg.capacity ∧ (ss.watchers.size : ℤ) ≤ ss.cfg.watcherCount ∧
      ss.id = k ∧ ss.members ≠ [] ∧ ss.members.Nodup ∧ ∀ c ∈ ss.members, c ∈ rm.usrlist ∧
        ∀ r' rm' k' ss', s.hall.rooms.find? r' = some rm' → rm'.sessions.find? k' = some ss' →
          c ∈ ss'.members → r' = r ∧ k' = k) ∧
    (∀ r rm r' rm' c, s.hall.rooms.find? r = some rm → s.hall.rooms.find? r' = some rm' →
      c ∈ rm.usrlist → c ∈ rm'.usrlist → r = r') ∧
    ∀ c, s.todo c = [] →
      (∀ u, s.hall.list.find? u = some c ↔
        (s.hall.member c).ctsk = true ∧ (s.hall.member c).uname = u) ∧
      (∀ r rm, s.hall.rooms.find? r = some rm →
        (c ∈ rm.usrlist ↔ (s.hall.member c).roomid = r) ∧
        ∀ k ss, rm.sessions.find? k = some ss →
          (c ∈ ss.members ↔ (s.hall.member c).roomid = r ∧ (s.hall.member c).sessionid = k)) ∧
      (s.hall.member c).Ok := by
  obtain ⟨⟨ok,hs,-,-⟩,-⟩ := inv_of_run hcareful hrun
  refine ⟨?_,?_,?_⟩
  · intro r rm k ss hrm hss
    have hok := ok.session r rm hrm k ss hss
    refine ⟨rm.usrlist_le,ss.watchers_le,hok.id,hok.members_ne,hok.nodup,fun c hc => ⟨?_,?_⟩⟩
    · exact (ok.user r rm hrm c).mpr (hok.roomid c hc)
    · intro r' rm' k' ss' hrm' hss' hc'
      have hok' := ok.session r' rm' hrm' k' ss' hss'
      have hk : (k' : ℤ) = k := (hok'.sessionid c hc').symm.trans (hok.sessionid c hc)
      exact ⟨(hok'.roomid c hc').symm.trans (hok.roomid c hc),Int.natCast_inj.mp hk⟩
  · intro r rm r' rm' c hrm hrm' hc hc'
    exact ((ok.user r rm hrm c).mp hc).symm.trans ((ok.user r' rm' hrm' c).mp hc')
  · intro c hdone
    have hm : s.settled.member c = s.hall.member c := Hall.settle_member hdone
    rw [← hm]
    refine ⟨fun u => ok.registered u c,fun r rm hrm => ⟨ok.user r rm hrm c,?_⟩,ok.member c⟩
    intro k ss hss
    have hok := ok.session r rm hrm k ss hss
    refine ⟨fun hc => ⟨hok.roomid c hc,hok.sessionid c hc⟩,?_⟩
    rintro ⟨hroom,hsid⟩
    obtain ⟨rm',ss',hrm',hss',hmem⟩ := hs c (by rw [hsid]; exact Int.natCast_pos.mpr hok.key.1)
    rw [hroom] at hrm'
    have hrms : rm = rm' := Option.some.inj (hrm.symm.trans hrm')
    subst hrms
    rw [hsid,Scan.toUInt32_natCast (by have := hok.key.2; omega)] at hss'
    have hsss : ss = ss' := Option.some.inj (hss.symm.trans hss')
    exact hsss ▸ hmem

/-- The two clients sit in one session. -/
theorem tables_hold_together : ∃ s rm ss, (create [CEngine.room1]).run together = .ok s ∧
    s.hall.rooms.find? 1 = some rm ∧ rm.sessions.find? 2 = some ss ∧
    1 ∈ ss.members ∧ 2 ∈ ss.members ∧ ss.members.Nodup := by
  obtain ⟨s,rm,ss,hrun,hrm,hss,hmem⟩ : ∃ s rm ss,
      (create [CEngine.room1]).run together = .ok s ∧ s.hall.rooms.find? 1 = some rm ∧
      rm.sessions.find? 2 = some ss ∧ ss.members = [1,2] := ⟨_,_,_,rfl,rfl,rfl,rfl⟩
  obtain ⟨hsess,-,-⟩ := tables_hold together_careful hrun
  obtain ⟨-,-,-,-,hnd,-⟩ := hsess 1 rm 2 ss hrm hss
  exact ⟨s,rm,ss,hrun,hrm,hss,by rw [hmem]; decide,by rw [hmem]; decide,hnd⟩

end Workers
end CcniServer
