import CcniServer.Hall.Operations

/-!
Interleaved threads. The writes that follow a section can be counted as part of it: nobody reads
them in between, but for the state that `CSession::ready` reads of the other player, and there
they make no difference. So every interleaving of the threads is a run in which whole operations
follow each other, in the order of their sections.
-/
namespace CcniServer
namespace Hall
variable {h : Hall} {c d : CClientPtr} {todo : CClientPtr → List Field} {i : Instr}
  {is : List Instr} {seed : Fin 20000}

/-! ### Writes still to be made -/

@[simp] theorem settle_rooms (h : Hall) (todo : CClientPtr → List Field) :
    (h.settle todo).rooms = h.rooms := rfl

theorem settle_member (hc : todo c = []) : (h.settle todo).member c = h.member c :=
  Writes.settle_of_nil hc

theorem settle_setState {m : CClientPtr → Member} (hc : todo c = []) (st : CClient.State) :
    Writes.settle Member.write (setState m c st) todo =
      setState (Writes.settle Member.write m todo) c st := by
  rw [setState,Writes.settle_of_done _ hc,setState,Writes.settle_of_nil hc]

theorem settle_startGame {m : CClientPtr → Member} (ss : CSession) (hc : todo c = [])
    (hd : todo d = []) : Writes.settle Member.write (startGame ss m c d) todo =
      startGame ss (Writes.settle Member.write m todo) c d := by
  unfold startGame
  split_ifs <;> rw [settle_setState hd,settle_setState hc]

/-- The writes of another player make no difference to `ready`, where they lead neither from nor to
the state `Ready`. -/
theorem settle_readyMembers {m : CClientPtr → Member} {ss : CSession} (hc : todo c = [])
    (hother : ∀ d, ss.owner = some d ∨ ss.opponent = some d → todo d = [] ∨
      (m d).state ≠ .stReady ∧ (Writes.settle Member.write m todo d).state ≠ .stReady) :
    readyMembers ss (Writes.settle Member.write m todo) c =
      (readyMembers ss m c).map fun m => Writes.settle Member.write m todo := by
  have hstate : ∀ d, ss.owner = some d ∨ ss.opponent = some d →
      ((setState (Writes.settle Member.write m todo) c .stReady d).state = .stReady ↔
        (setState m c .stReady d).state = .stReady) ∧
      ((setState m c .stReady d).state = .stReady → todo d = []) := by
    intro d hd
    simp only [setState_state]
    by_cases hdc : d = c
    · subst hdc
      simp [hc]
    · simp only [if_neg hdc]
      obtain hdone | ⟨hm,hs⟩ := hother d hd
      · rw [Writes.settle_of_nil hdone]
        exact ⟨Iff.rfl,fun _ => hdone⟩
      · exact ⟨⟨fun h => absurd h hs,fun h => absurd h hm⟩,fun h => absurd h hm⟩
  unfold readyMembers
  by_cases how : ss.owner = some c
  · simp only [how,if_true]
    cases hop : ss.opponent with
    | none => simp only [Option.map_some,settle_setState hc]
    | some op =>
      obtain ⟨hiff,hdone⟩ := hstate op (.inr hop)
      simp only [hiff,Option.map_some]
      split_ifs with hr
      · rw [settle_startGame ss hc (hdone hr),settle_setState hc]
      · rw [settle_setState hc]
  · by_cases hop : ss.opponent = some c
    · simp only [how,hop,if_false,if_true]
      cases how' : ss.owner with
      | none => simp only [Option.map_some,settle_setState hc]
      | some ow =>
        obtain ⟨hiff,hdone⟩ := hstate ow (.inl how')
        simp only [hiff,Option.map_some]
        split_ifs with hr
        · rw [settle_startGame ss (hdone hr) hc,settle_setState hc]
        · rw [settle_setState hc]
    · simp only [how,hop,if_false,Option.map_none]

/-- A client whose thread still has to write is not waiting for a game. -/
def Fresh (h : Hall) (todo : CClientPtr → List Field) : Prop := ∀ c, todo c ≠ [] →
  .state .stReady ∉ todo c ∧
    ((h.member c).state = .stReady → ¬ 0 < ((h.settle todo).member c).sessionid)

theorem write_not_ready {w : Field} {m : Member} (hw : w ≠ .state .stReady)
    (hm : m.state ≠ .stReady) : (Member.write w m).state ≠ .stReady := by
  cases w with
  | state st =>
    intro hst
    have hst : st = .stReady := hst
    exact hw (by rw [hst])
  | roomid r => exact hm
  | sessionid k => exact hm
  | ctsk served => exact hm

theorem Fresh.not_ready (hf : h.Fresh todo) (hc : todo c ≠ [])
    (hpos : 0 < ((h.settle todo).member c).sessionid) :
    (h.member c).state ≠ .stReady ∧ ((h.settle todo).member c).state ≠ .stReady := by
  obtain ⟨hno,hout⟩ := hf c hc
  have hm : (h.member c).state ≠ .stReady := fun hst => hout hst hpos
  refine ⟨hm,?_⟩
  exact Writes.after_induct (P := fun x => x.state ≠ .stReady) Member.write
    (fun w hw x hx => write_not_ready (fun he => hno (he ▸ hw)) hx) hm

/-- An operation does not depend on what the others have still to write. -/
theorem run_settle {res : Hall × List Field} (ok : (h.settle todo).Ok) (hf : h.Fresh todo)
    (hc : todo c = []) (hr : i.run (h.settle todo) c seed = .ok res) :
    ∃ h', i.run h c seed = .ok (h',res.2) ∧ res.1 = h'.settle todo := by
  have hmc : (h.settle todo).member c = h.member c := settle_member hc
  by_cases hi : i = .ready
  · subst hi
    obtain ⟨hst,rm,ss,m,hrm,hss,hm,rfl⟩ := Instr.run_ready hr
    have hok := ok.session _ rm hrm _ ss hss
    have hother : ∀ d, ss.owner = some d ∨ ss.opponent = some d → todo d = [] ∨
        (h.member d).state ≠ .stReady ∧ ((h.settle todo).member d).state ≠ .stReady := by
      intro d hd
      by_cases hdone : todo d = []
      · exact .inl hdone
      · refine .inr (hf.not_ready hdone ?_)
        have hmem : d ∈ ss.members := CSession.mem_members.mpr (hd.imp_right .inl)
        rw [hok.sessionid d hmem]
        exact Int.natCast_pos.mpr hok.key.1
    obtain ⟨m',hready,rfl⟩ :=
      Option.map_eq_some_iff.mp ((settle_readyMembers hc hother).symm.trans hm)
    rw [hmc] at hst hrm hss
    exact ⟨_,Instr.run_ready_eq hst hrm hss hready seed,rfl⟩
  · have hcongr := Instr.run_congr hi hmc.symm seed
    have heta : ({ h.settle todo with member := h.member } : Hall) = h := rfl
    rw [heta,hr] at hcongr
    refine ⟨{ res.1 with member := h.member },hcongr,?_⟩
    obtain ⟨⟨m,list,rooms,idseed⟩,ws⟩ := res
    have hm : m = (h.settle todo).member := Instr.run_member hi hr
    rw [hm]
    rfl

/-! ### What a thread leaves to write -/

/-- Nobody else becomes ready. -/
theorem readyMembers_ready {m m' : CClientPtr → Member} {ss : CSession}
    (hm : readyMembers ss m c = some m') (hd : d ≠ c) (hst : (m' d).state = .stReady) :
    (m d).state = .stReady := by
  have hset : ∀ st, (setState m c st d).state = .stReady → (m d).state = .stReady := by
    intro st h
    rwa [setState_of_ne hd] at h
  have hstart : ∀ a b, (startGame ss (setState m c .stReady) a b d).state = .stReady →
      (m d).state = .stReady := by
    intro a b h
    apply hset .stReady
    unfold startGame at h
    split_ifs at h <;> rw [setState_state] at h <;> split_ifs at h <;> rw [setState_state] at h <;>
      split_ifs at h <;> exact h
  unfold readyMembers at hm
  by_cases how : ss.owner = some c
  · simp only [how,if_true] at hm
    cases hop : ss.opponent with
    | none =>
      rw [hop] at hm
      cases hm
      exact hset _ hst
    | some op =>
      rw [hop] at hm
      cases hm
      split_ifs at hst
      · exact hstart _ _ hst
      · exact hset _ hst
  · by_cases hop : ss.opponent = some c
    · simp only [how,hop,if_false,if_true] at hm
      cases how' : ss.owner with
      | none =>
        rw [how'] at hm
        cases hm
        exact hset _ hst
      | some ow =>
        rw [how'] at hm
        cases hm
        split_ifs at hst
        · exact hstart _ _ hst
        · exact hset _ hst
    · simp only [how,hop,if_false] at hm
      cases hm

theorem run_ready_of {res : Hall × List Field} (hr : i.run h c seed = .ok res) (hd : d ≠ c)
    (hst : (res.1.member d).state = .stReady) : (h.member d).state = .stReady := by
  by_cases hi : i = .ready
  · subst hi
    obtain ⟨-,rm,ss,m,-,-,hm,rfl⟩ := Instr.run_ready hr
    exact readyMembers_ready hm hd hst
  · rwa [Instr.run_member hi hr] at hst

/-- A waiting client that leaves something to write gives up its session. -/
theorem effect_out (ok : h.Ok) {h' : Hall} (hf : (h.member c).Fits (i :: is))
    (he : h.effect (.instr c seed i) = some h') (hst : (h.member c).state = .stReady) :
    i = .listSessions ∨ (h'.member c).sessionid = -1 := by
  have hno : ∀ {P : Prop} {st : CClient.State}, (h.member c).state = st → st ≠ .stReady → P :=
    fun hst' hne => absurd (hst'.symm.trans hst) hne
  cases hf with
  | enterRoom rid hc hst => exact hno hst (by decide)
  | leaveRoom hc hst => exact hno hst (by decide)
  | collect hc hst => exact hno hst (by decide)
  | store hc hst => exact hno hst (by decide)
  | enterSession sid hc hst hr => exact hno hst (by decide)
  | leaveSession hc hpos =>
    have hd : h.dropSession c = some h' := by rwa [Hall.dropSession,if_pos hpos]
    exact .inr (ok.dropSession hd).2.1
  | watchSession sid hc hst hr => exact hno hst (by decide)
  | ready hc hst => exact hno hst (by decide)
  | listSessions hc hpos => exact .inl rfl
  | dropSession hc => exact .inr (ok.dropSession he).2.1
  | dropRoom hc hsid => exact .inr (ok.dropRoom hsid he).2.1
  | delClient hc hsid hroom =>
    cases he
    refine .inr ?_
    simp only [Hall.retire,setMember_member,Function.update_self]
    exact hsid

theorem spares_settle {o : Op} (ho : ∀ c seed i, o = .instr c seed i → todo c = [])
    (hs : h.Spares o) : (h.settle todo).Spares o := by
  cases o with
  | login c uname => trivial
  | instr c seed i =>
    have hm := settle_member (h := h) (ho c seed i rfl)
    cases i with
    | store =>
      intro rm hrm
      change h.rooms.find? ((h.settle todo).member c).roomid = some rm at hrm
      rw [hm] at hrm
      exact hs rm hrm
    | enterSession sid =>
      intro rm ss hrm hss
      rw [hm] at hrm
      exact hs rm ss hrm hss
    | _ => trivial

end Hall

namespace Workers
variable {s : Workers} {c d : CClientPtr}

/-- What holds whenever a thread can be interrupted. -/
structure Inv (s : Workers) : Prop where
  ok : s.settled.Ok
  seated : s.settled.Seated
  fits : ∀ c, (s.settled.member c).Fits (s.code c)
  fresh : s.hall.Fresh s.todo

/-- An operation that a turn runs takes nobody's seat. -/
def Careful (s : Workers) (t : Turn) : Prop := ∀ o, s.op t = some o → s.hall.Spares o

theorem op_instr {t : Turn} {seed : Fin 20000} {i : Instr} (h : s.op t = some (.instr c seed i)) :
    s.todo c = [] := by
  cases t with
  | login d uname =>
    simp only [op] at h
    split_ifs at h
    cases h
  | request d msg => cases h
  | broken d => cases h
  | go d seed' =>
    cases htodo : s.todo d with
    | cons w ws => simp [op,htodo] at h
    | nil =>
      cases hcode : s.code d with
      | nil => simp [op,htodo,hcode] at h
      | cons j is =>
        simp only [op,htodo,hcode] at h
        cases h
        exact htodo

/-! ### Turns without a section -/

/-- A write changes nothing that counts. -/
theorem Inv.write (inv : s.Inv) {w : Field} {ws : List Field} (hw : s.todo c = w :: ws) :
    (⟨s.hall.setMember c (Member.write w (s.hall.member c)),Function.update s.todo c ws,s.code⟩ :
      Workers).Inv ∧
    (s.hall.setMember c (Member.write w (s.hall.member c))).settle (Function.update s.todo c ws) =
      s.settled := by
  have hsame : (s.hall.setMember c (Member.write w (s.hall.member c))).settle
      (Function.update s.todo c ws) = s.settled := by
    simp only [Hall.settle,settled,Hall.setMember_member,Writes.settle_write hw]
    rfl
  refine ⟨⟨?_,?_,?_,?_⟩,hsame⟩
  · rw [settled,hsame]
    exact inv.ok
  · rw [settled,hsame]
    exact inv.seated
  · rw [settled,hsame]
    exact inv.fits
  · intro d hd
    simp only at hd ⊢
    rw [hsame]
    obtain ⟨hno,hout⟩ := inv.fresh c (by rw [hw]; exact List.cons_ne_nil _ _)
    by_cases hdc : d = c
    · subst hdc
      rw [Function.update_self]
      refine ⟨fun h => hno (by rw [hw]; exact List.mem_cons_of_mem _ h),fun hst => ?_⟩
      apply hout
      rw [Hall.setMember_member,Function.update_self] at hst
      by_contra hne
      refine Hall.write_not_ready ?_ hne hst
      rintro rfl
      exact hno (by rw [hw]; exact List.mem_cons_self)
    · rw [Function.update_of_ne hdc] at hd ⊢
      rw [Hall.setMember_of_ne hdc]
      exact inv.fresh d hd

theorem Inv.load (inv : s.Inv) {code : List Instr} (hf : (s.settled.member c).Fits code) :
    (s.load c code).Inv := by
  refine ⟨inv.ok,inv.seated,fun d => ?_,inv.fresh⟩
  change (s.settled.member d).Fits (Function.update s.code c code d)
  by_cases hdc : d = c
  · subst hdc
    rwa [Function.update_self]
  · rw [Function.update_of_ne hdc]
    exact inv.fits d

/-- What the table checks is what the operations of the handler rely on. -/
theorem fits_ofHandler {h : Hall} (ok : h.Ok) {msg : CXmlNode} {fn : CClient.Msghnd}
    (hg : h.Guard (Hall.handlerAction c msg fn)) : (h.member c).Fits (Instr.ofHandler msg fn) := by
  cases fn with
  | doEnterRoom => exact .enterRoom _ hg.1 hg.2
  | doLeaveRoom => exact .leaveRoom hg.1 hg.2
  | doNewSession => exact .collect hg.1 hg.2
  | doEnterSession => exact .enterSession _ hg.1 hg.2.1 hg.2.2
  | doLeaveSession =>
    refine .leaveSession hg.1 ((ok.member c).inSession ?_)
    have hst := hg.2
    revert hst
    cases (h.member c).state <;> decide
  | doWatchSession => exact .watchSession _ hg.1 hg.2.1 hg.2.2
  | doReady => exact .ready hg.1 hg.2
  | doListSessions => exact .listSessions hg.1 ((ok.member c).inRoom hg.2)
  | _ => exact .nil

theorem Inv.request (inv : s.Inv) {msg : CXmlNode} (ha : s.Admits c msg) :
    (s.load c (Instr.ofHandler msg (CClient.findHnd msg.name).fn)).Inv := by
  obtain ⟨⟨hdone,-⟩,hc,-,hst⟩ := ha
  apply inv.load
  have hm : s.settled.member c = s.hall.member c := Hall.settle_member hdone
  rw [← hm] at hc hst
  obtain ⟨hmem,-⟩ | hdef := Hall.findHnd_cases msg.name
  · exact fits_ofHandler inv.ok (Hall.handlerAction_guard hmem hc hst)
  · rw [hdef]
    exact .nil

/-! ### Sections -/

theorem register_code (s : Workers) (c : CClientPtr) (uname : String) :
    (s.register c uname).code = s.code := by
  unfold register
  cases s.hall.list.find? uname <;> rfl

theorem Inv.register (inv : s.Inv) (hrest : s.Resting c) (hc : (s.hall.member c).ctsk = false)
    (uname : String) : (s.register c uname).Inv ∧
      s.settled.Does (.login c uname) (s.register c uname).settled := by
  have hm : s.settled.member c = s.hall.member c := Hall.settle_member hrest.1
  have hallow : s.settled.Allows (.login c uname) := by
    change (s.settled.member c).ctsk = false
    rw [hm,hc]
  have hsame : (s.register c uname).settled = s.settled.login c uname := by
    have hlist : s.settled.list = s.hall.list := rfl
    unfold Workers.register Hall.login
    rw [hlist]
    cases s.hall.list.find? uname with
    | some c' => rfl
    | none =>
      simp only [settled,Hall.settle,Hall.setMember_member,Writes.settle_update]
      rfl
  have hdoes : s.settled.Does (.login c uname) (s.register c uname).settled :=
    ⟨hallow,congrArg some hsame.symm⟩
  have hspares : s.settled.Spares (.login c uname) := trivial
  refine ⟨⟨inv.ok.effect hdoes,inv.seated.effect inv.ok hspares hdoes,?_,?_⟩,hdoes⟩
  · intro d
    rw [register_code,hsame]
    by_cases hdc : d = c
    · subst hdc
      rw [hrest.2]
      exact .nil
    · rw [Hall.login_other _ _ hdc]
      exact inv.fits d
  · have hout : ∀ d, d ≠ c → (s.register c uname).settled.member d = s.settled.member d := by
      intro d hdc
      rw [hsame,Hall.login_other _ _ hdc]
    revert hout
    unfold Workers.register
    cases s.hall.list.find? uname with
    | some c' => exact fun _ => inv.fresh
    | none =>
      intro hout d hd
      by_cases hdc : d = c
      · subst hdc
        simp
      · have hsettled := hout d hdc
        simp only [Function.update_of_ne hdc] at hd ⊢
        obtain ⟨hno,hpos⟩ := inv.fresh d hd
        refine ⟨hno,fun hst => ?_⟩
        have hmd : (s.hall.setMember c ⟨.stOnline,uname,-1,-1,false⟩).member d = s.hall.member d :=
          Hall.setMember_of_ne hdc
        have hst : (s.hall.member d).state = .stReady := hmd ▸ hst
        have hneg : ¬ 0 < (s.settled.member d).sessionid := hpos hst
        rwa [← hsettled] at hneg

/-- A section and the writes that are to follow are one operation. -/
theorem Inv.instr {i : Instr} {is : List Instr} {seed : Fin 20000} (inv : s.Inv)
    (hdone : s.todo c = []) (hcode : s.code c = i :: is)
    (hsp : s.hall.Spares (.instr c seed i)) : ∃ res, i.run s.hall c seed = .ok res ∧
      (⟨res.1,Function.update s.todo c res.2,Function.update s.code c is⟩ : Workers).Inv ∧
      s.settled.Does (.instr c seed i) (res.1.settle (Function.update s.todo c res.2)) := by
  have hf : (s.settled.member c).Fits (i :: is) := hcode ▸ inv.fits c
  have hallow : s.settled.Allows (.instr c seed i) := ⟨is,hf⟩
  obtain ⟨h',he⟩ := Option.isSome_iff_exists.mp (Hall.effect_isSome inv.ok inv.seated hallow)
  obtain ⟨res,hrun,hmakes⟩ := Hall.run_makes inv.ok hf he
  obtain ⟨h₁,hrun₁,hres⟩ := Hall.run_settle inv.ok inv.fresh hdone hrun
  -- the section with its writes is the operation of the settled hall
  have hsettle : h₁.settle (Function.update s.todo c res.2) = h' := by
    rw [hmakes,hres,Hall.settle_member hdone]
    simp only [Hall.settle,Writes.settle_defer]
    rfl
  have hdoes : s.settled.Does (.instr c seed i) h' := ⟨hallow,he⟩
  have ok' := inv.ok.effect hdoes
  refine ⟨(h₁,res.2),hrun₁,⟨?_,?_,?_,?_⟩,hsettle.symm ▸ hdoes⟩
  · rw [settled,hsettle]
    exact ok'
  · rw [settled,hsettle]
    refine inv.seated.effect inv.ok (Hall.spares_settle ?_ hsp) hdoes
    rintro c' seed' i' ho
    cases ho
    exact hdone
  · intro d
    rw [settled,hsettle]
    simp only
    by_cases hdc : d = c
    · subst hdc
      rw [Function.update_self]
      exact Hall.effect_fits inv.ok hf he
    · rw [Function.update_of_ne hdc]
      obtain hsame | hb := Hall.effect_other inv.ok he hdc
      · rw [hsame]
        exact inv.fits d
      · obtain ⟨st,-,hm⟩ := hb.member
        rw [hm]
        exact (inv.fits d).begun hb.ready
  · intro d hd
    simp only at hd ⊢
    rw [hsettle]
    by_cases hdc : d = c
    · subst hdc
      rw [Function.update_self] at hd ⊢
      refine ⟨fun hw => Instr.run_writes hrun₁ hw,fun hst => ?_⟩
      have hready : i ≠ .ready := by
        rintro rfl
        obtain ⟨-,rm,ss,m,-,-,-,hres⟩ := Instr.run_ready hrun₁
        exact hd (congrArg Prod.snd hres)
      have hst : (s.settled.member d).state = .stReady := by
        have hm : h₁.member = s.hall.member := Instr.run_member hready hrun₁
        rw [settled,Hall.settle_member hdone,← hm]
        exact hst
      obtain rfl | hout := Hall.effect_out inv.ok hf he hst
      · exact absurd (congrArg Prod.snd (Instr.run_listSessions hrun₁)) hd
      · omega
    · rw [Function.update_of_ne hdc] at hd ⊢
      obtain ⟨hno,hout⟩ := inv.fresh d hd
      refine ⟨hno,fun hst hpos => hout (Hall.run_ready_of hrun₁ hdc hst) ?_⟩
      have hsid : (h'.member d).sessionid = (s.settled.member d).sessionid := by
        obtain hsame | hb := Hall.effect_other inv.ok he hdc
        · rw [hsame]
        · obtain ⟨st,-,hm⟩ := hb.member
          rw [hm]
      exact hsid ▸ hpos

/-! ### Steps and runs -/

/-- Where nobody has anything to write the settled hall is the hall. -/
theorem settled_eq (h : ∀ c, s.todo c = []) : s.settled = s.hall := by
  rw [settled,Hall.settle,Writes.settle_nil h]

theorem create_settled (cfgs : List CRoomConfig) :
    (create cfgs).settled = (CEngine.create cfgs).hall := settled_eq fun _ => rfl

theorem create_inv (cfgs : List CRoomConfig) : (create cfgs).Inv := by
  refine ⟨?_,?_,fun c => .nil,fun c hc => absurd rfl hc⟩
  · rw [create_settled]
    exact Hall.create_ok cfgs
  · rw [create_settled]
    exact Hall.create_seated cfgs

/-- A careful turn fails no `ASSERT`; it is one operation of the settled hall where it runs a section,
and otherwise none. -/
theorem Inv.step (inv : s.Inv) {t : Turn} (ht : s.Careful t) : ∃ s', s.step t = .ok s' ∧ s'.Inv ∧
    Lts.Run Hall.Does s.settled (s.op t).toList s'.settled := by
  cases t with
  | login c uname =>
    by_cases hc : s.Resting c ∧ (s.hall.member c).ctsk = false
    · obtain ⟨inv',hdoes⟩ := inv.register hc.1 hc.2 uname
      refine ⟨_,if_pos hc,inv',?_⟩
      simp only [op,if_pos hc,Option.toList_some]
      exact .cons hdoes (.nil _)
    · refine ⟨s,if_neg hc,inv,?_⟩
      simp only [op,if_neg hc,Option.toList_none]
      exact .nil _
  | request c msg =>
    by_cases hc : s.Admits c msg
    · exact ⟨_,if_pos hc,inv.request hc,.nil _⟩
    · exact ⟨s,if_neg hc,inv,.nil _⟩
  | broken c =>
    by_cases hc : s.Resting c ∧ (s.hall.member c).ctsk = true
    · refine ⟨_,if_pos hc,inv.load (.dropSession ?_),.nil _⟩
      rw [settled,Hall.settle_member hc.1.1]
      exact hc.2
    · exact ⟨s,if_neg hc,inv,.nil _⟩
  | go c seed =>
    cases htodo : s.todo c with
    | cons w ws =>
      obtain ⟨inv',hsame⟩ := inv.write htodo
      refine ⟨_,by simp only [Workers.step,go,htodo],inv',?_⟩
      simp only [op,htodo,Option.toList_none]
      exact hsame ▸ .nil _
    | nil =>
      cases hcode : s.code c with
      | nil =>
        refine ⟨s,by simp only [Workers.step,go,htodo,hcode],inv,?_⟩
        simp only [op,htodo,hcode,Option.toList_none]
        exact .nil _
      | cons i is =>
        have hop : s.op (.go c seed) = some (.instr c seed i) := by simp only [op,htodo,hcode]
        obtain ⟨res,hrun,inv',hdoes⟩ := inv.instr htodo hcode (ht _ hop)
        refine ⟨_,?_,inv',?_⟩
        · simp only [Workers.step,go,htodo,hcode,hrun,Checked.ok_bind]
          rfl
        · rw [hop]
          exact .cons hdoes (.nil _)

end Workers
end CcniServer
