import CcniServer.Hall.Engine

/-!
Concurrent logins. A job looks the name up, answers and registers its client in three steps,
each under the registry's lock for itself, and other jobs run in between.
-/
namespace CcniServer

/-- The registry of `CDataMgr`. -/
structure CDataMgr where
  _list : OrdMap String CClientPtr

namespace CDataMgr

def findClient (m : CDataMgr) (uname : String) : Option CClientPtr := m._list.find? uname

/-- False for a name in use. -/
def addClient (m : CDataMgr) (uname : String) (c : CClientPtr) : Bool × CDataMgr :=
  match m._list.find? uname with
  | some _ => (false,m)
  | none => (true,⟨m._list.insert uname c⟩)

def delClient (m : CDataMgr) (uname : String) : CDataMgr := ⟨m._list.erase uname⟩

theorem findClient_insert (m : CDataMgr) (uname uname' : String) (c : CClientPtr) :
    findClient ⟨m._list.insert uname c⟩ uname' =
      if uname' = uname then some c else m.findClient uname' := OrdMap.find?_insert _ _ _ _

theorem findClient_delClient (m : CDataMgr) (uname uname' : String) :
    (m.delClient uname).findClient uname' =
      if uname' = uname then none else m.findClient uname' := OrdMap.find?_erase _ _ _

end CDataMgr

/-- The registry of the engine is the same one. -/
theorem CEngine.addClient_eq (s : CEngine) (c : CClientPtr) :
    s.addClient c = ((CDataMgr.addClient ⟨s.list⟩ (s.uname c) c).1,
      { s with list := (CDataMgr.addClient ⟨s.list⟩ (s.uname c) c).2._list }) := by
  unfold CEngine.addClient CDataMgr.addClient
  cases s.list.find? (s.uname c) <;> rfl

theorem CEngine.delClient_eq (s : CEngine) (uname : String) :
    s.delClient uname = { s with list := (CDataMgr.delClient ⟨s.list⟩ uname)._list } := rfl

/-- The next step of `CTcpJob::doLogin`, or what has become of its connection. -/
inductive CTcpJob.Next
  | findClient
  | sendRes (code : ℤ)
  | addClient
  | assign
  | online
  | closed
  deriving DecidableEq

namespace CTcpJob.Next

/-- The job has looked the name up without finding it, and has not registered its client. -/
def Between (n : Next) : Prop := n = .sendRes 0 ∨ n = .addClient

/-- The registry has the client. -/
def Listed (n : Next) : Prop := n = .assign ∨ n = .online

end CTcpJob.Next

/-- A login job: its next step, the return code of the `LoginRes` it has sent, and what
`addClient` has answered it. -/
structure CTcpJob where
  next : CTcpJob.Next
  res : Option ℤ
  added : Option Bool

def CTcpJob.new : CTcpJob := ⟨.findClient,none,none⟩

/-- The registry and the jobs, one for each connection. -/
structure Logins where
  dataMgr : CDataMgr
  jobs : CClientPtr → CTcpJob

namespace Logins
open CDataMgr

def start : Logins := ⟨⟨OrdMap.empty⟩,fun _ => .new⟩

inductive Event
  | job (c : CClientPtr)
  | disconnect (c : CClientPtr)

def setJob (s : Logins) (c : CClientPtr) (j : CTcpJob) : Logins :=
  { s with jobs := Function.update s.jobs c j }

/-- The next step of `doLogin` for the user name of the connection. -/
def doLogin (uname : String) (s : Logins) (c : CClientPtr) : Logins :=
  match (s.jobs c).next with
  | .findClient =>
    if (s.dataMgr.findClient uname).isSome then s.setJob c { s.jobs c with next := .sendRes (-2) }
    else s.setJob c { s.jobs c with next := .sendRes 0 }
  | .sendRes code =>
    s.setJob c { s.jobs c with
      next := if code = 0 then .addClient else .closed
      res := some code }
  | .addClient =>
    let (ok,m) := s.dataMgr.addClient uname c
    { s with dataMgr := m }.setJob c { s.jobs c with
      next := if ok then .assign else .closed
      added := some ok }
  | .assign => s.setJob c { s.jobs c with next := .online }
  | .online => s
  | .closed => s

/-- The disconnect path of `doWork`, which only a client that was assigned to the user listener
can come to. -/
def disconnect (uname : String) (s : Logins) (c : CClientPtr) : Logins :=
  if (s.jobs c).next = .online then
    { s with dataMgr := s.dataMgr.delClient uname }.setJob c { s.jobs c with next := .closed }
  else s

variable (username : CClientPtr → String)

def step (s : Logins) : Event → Logins
  | .job c => doLogin (username c) s c
  | .disconnect c => disconnect (username c) s c

/-- The steps of all jobs and disconnect paths, in any order. -/
def Step : Logins → Event → Logins → Prop := Lts.Moves (step username)

/-- The connection has been told that it is logged in, and lives. -/
def Told (s : Logins) (c : CClientPtr) : Prop :=
  (s.jobs c).res = some 0 ∧ (s.jobs c).next ≠ .closed

/-- Who is told that he is logged in is registered by the same job, or will be by its next
step; and no two live connections are told so under one name. -/
structure Agreed (s : Logins) : Prop where
  registered : ∀ c, (s.jobs c).res = some 0 → (s.jobs c).added ≠ some false
  registers : ∀ c, (s.jobs c).res = some 0 → (s.jobs c).added = none →
    (s.jobs c).next = .addClient ∧ s.dataMgr.findClient (username c) = none
  unique : ∀ c d, s.Told c → s.Told d → username c = username d → c = d

/-- A job that is about to look up a free name is the only one with that name in between its
two steps on the registry. -/
def Alone (s : Logins) : Event → Prop
  | .job c => (s.jobs c).next = .findClient → s.dataMgr.findClient (username c) = none →
      ∀ d, username d = username c → ¬ (s.jobs d).next.Between
  | .disconnect _ => True

/-! ### The invariant -/

/-- What a job has sent and what `addClient` has answered go with its next step. -/
inductive Consistent : CTcpJob → Prop
  | findClient : Consistent ⟨.findClient,none,none⟩
  | sendRes (code : ℤ) (hcode : code = 0 ∨ code = -2) : Consistent ⟨.sendRes code,none,none⟩
  | addClient : Consistent ⟨.addClient,some 0,none⟩
  | assign : Consistent ⟨.assign,some 0,some true⟩
  | online : Consistent ⟨.online,some 0,some true⟩
  | refused : Consistent ⟨.closed,some (-2),none⟩
  | closed : Consistent ⟨.closed,some 0,some true⟩

/-- A job between its two steps on the registry, or in it, has the name for itself. -/
structure Inv (s : Logins) : Prop where
  consistent : ∀ c, Consistent (s.jobs c)
  unique : ∀ c d, (s.jobs c).next.Between ∨ (s.jobs c).next.Listed →
    (s.jobs d).next.Between ∨ (s.jobs d).next.Listed → username c = username d → c = d
  registry : ∀ uname c, s.dataMgr.findClient uname = some c ↔
    username c = uname ∧ (s.jobs c).next.Listed

section
variable {username : CClientPtr → String} {s : Logins} {c : CClientPtr}

theorem start_inv : Inv username start := by
  refine ⟨fun _ => .findClient,fun c d hc => ?_,fun uname c => ?_⟩
  · rcases hc with (hc | hc) | (hc | hc) <;> cases hc
  · simp [start,CTcpJob.new,CDataMgr.findClient,CTcpJob.Next.Listed]

/-- One job takes a step, and the registry goes with it. -/
theorem Inv.update (h : Inv username s) {m : CDataMgr} {j : CTcpJob} (hj : Consistent j)
    (hholds : j.next.Between ∨ j.next.Listed →
      ((s.jobs c).next.Between ∨ (s.jobs c).next.Listed) ∨
      ∀ d, username d = username c → ¬ ((s.jobs d).next.Between ∨ (s.jobs d).next.Listed))
    (hself : ∀ uname, m.findClient uname = some c ↔ username c = uname ∧ j.next.Listed)
    (hother : ∀ uname d, d ≠ c → (m.findClient uname = some d ↔
      s.dataMgr.findClient uname = some d)) :
    Inv username ({ s with dataMgr := m }.setJob c j) := by
  have hsame : ({ s with dataMgr := m }.setJob c j).jobs c = j := Function.update_self _ _ _
  have hrest : ∀ d, d ≠ c → ({ s with dataMgr := m }.setJob c j).jobs d = s.jobs d :=
    fun d hd => Function.update_of_ne hd _ _
  refine ⟨fun d => ?_,?_,fun uname d => ?_⟩
  · by_cases hd : d = c
    · rw [hd,hsame]
      exact hj
    · rw [hrest d hd]
      exact h.consistent d
  · -- Two jobs of one name: only `c` is new among those that have it.
    have hnew : ∀ d, d ≠ c → j.next.Between ∨ j.next.Listed →
        (s.jobs d).next.Between ∨ (s.jobs d).next.Listed → username d ≠ username c := by
      intro d hd hjn hdn heq
      rcases hholds hjn with hc | hnone
      · exact hd (h.unique d c hdn hc heq)
      · exact hnone d heq hdn
    intro d e hdn hen heq
    by_cases hd : d = c
    · by_cases he : e = c
      · exact hd.trans he.symm
      · rw [hd,hsame] at hdn
        rw [hrest e he] at hen
        rw [hd] at heq
        exact absurd heq.symm (hnew e he hdn hen)
    · rw [hrest d hd] at hdn
      by_cases he : e = c
      · rw [he,hsame] at hen
        rw [he] at heq
        exact absurd heq (hnew d hd hen hdn)
      · rw [hrest e he] at hen
        exact h.unique d e hdn hen heq
  · by_cases hd : d = c
    · rw [hd,hsame]
      exact hself uname
    · rw [hrest d hd]
      exact (hother uname d hd).trans (h.registry uname d)

/-- A step of a job that leaves the registry alone. -/
theorem Inv.move (h : Inv username s) {j : CTcpJob} (hj : Consistent j)
    (hholds : j.next.Between ∨ j.next.Listed →
      ((s.jobs c).next.Between ∨ (s.jobs c).next.Listed) ∨
      ∀ d, username d = username c → ¬ ((s.jobs d).next.Between ∨ (s.jobs d).next.Listed))
    (hlisted : (s.jobs c).next.Listed ↔ j.next.Listed) : Inv username (s.setJob c j) := by
  refine h.update hj hholds (fun uname => ?_) (fun _ _ _ => Iff.rfl)
  rw [h.registry,hlisted]

theorem not_listed_of_between {n : CTcpJob.Next} (h : n.Between) : ¬ n.Listed := by
  rcases h with rfl | rfl <;> rintro (h | h) <;> simp at h

/-- Nobody has a name that is free and that no other job is in between with. -/
theorem Inv.free (h : Inv username s)
    (hnone : s.dataMgr.findClient (username c) = none)
    (halone : ∀ d, username d = username c → ¬ (s.jobs d).next.Between) :
    ∀ d, username d = username c → ¬ ((s.jobs d).next.Between ∨ (s.jobs d).next.Listed) := by
  rintro d hd (hbetween | hlisted)
  · exact halone d hd hbetween
  · have hsome := (h.registry _ d).mpr ⟨hd,hlisted⟩
    exact Option.some_ne_none d (hsome.symm.trans hnone)

/-- A job on its way from a free name to its registration finds the name still free. -/
theorem Inv.still_free (h : Inv username s) (hbetween : (s.jobs c).next.Between) :
    s.dataMgr.findClient (username c) = none := by
  cases hfind : s.dataMgr.findClient (username c) with
  | none => rfl
  | some d =>
    obtain ⟨hd,hlisted⟩ := (h.registry _ d).mp hfind
    have hsame := h.unique d c (.inr hlisted) (.inl hbetween) hd
    rw [hsame] at hlisted
    exact absurd hlisted (not_listed_of_between hbetween)

theorem doLogin_inv (h : Inv username s) (halone : Alone username s (.job c)) :
    Inv username (doLogin (username c) s c) := by
  have hcons := h.consistent c
  rcases hjob : s.jobs c with ⟨next,res,added⟩
  have hnext : (s.jobs c).next = next := congrArg CTcpJob.next hjob
  rw [hjob] at hcons
  unfold doLogin
  rw [hjob]
  cases hcons with
  | findClient =>
    dsimp only
    split
    · apply h.move (.sendRes (-2) (.inr rfl))
      · rintro ((h0 | h0) | (h0 | h0)) <;> simp at h0
      · simp [hnext,CTcpJob.Next.Listed]
    · next hnone =>
      have hfree : s.dataMgr.findClient (username c) = none := by
        rwa [Option.not_isSome_iff_eq_none] at hnone
      refine h.move (.sendRes 0 (.inl rfl)) (fun _ => .inr ?_) ?_
      · exact h.free hfree (halone hnext hfree)
      · simp [hnext,CTcpJob.Next.Listed]
  | sendRes code hcode =>
    rcases hcode with rfl | rfl
    · apply h.move .addClient (fun _ => .inl (.inl (.inl hnext)))
      simp [hnext,CTcpJob.Next.Listed]
    · apply h.move .refused
      · rintro ((h0 | h0) | (h0 | h0)) <;> simp at h0
      · simp [hnext,CTcpJob.Next.Listed]
  | addClient =>
    have hfree : s.dataMgr._list.find? (username c) = none := h.still_free (.inr hnext)
    have hadd : s.dataMgr.addClient (username c) c =
        (true,⟨s.dataMgr._list.insert (username c) c⟩) := by
      unfold CDataMgr.addClient
      rw [hfree]
    dsimp only
    rw [hadd]
    refine h.update .assign (fun _ => .inl (.inl (.inr hnext))) (fun uname => ?_)
      (fun uname d hd => ?_)
    · rw [findClient_insert]
      split
      · next heq => exact ⟨fun _ => ⟨heq.symm,.inl rfl⟩,fun _ => rfl⟩
      · next hne =>
        refine ⟨fun hfind => absurd ((h.registry _ _).mp hfind).1.symm hne,fun hself => ?_⟩
        exact absurd hself.1.symm hne
    · rw [findClient_insert]
      split
      · next heq =>
        rw [heq]
        refine ⟨fun hsome => absurd (Option.some.inj hsome).symm hd,fun hfind => ?_⟩
        exact absurd (hfind.symm.trans hfree) (Option.some_ne_none d)
      · exact Iff.rfl
  | assign =>
    apply h.move .online (fun _ => .inl (.inr (.inl hnext)))
    simp [hnext,CTcpJob.Next.Listed]
  | online => exact h
  | refused => exact h
  | closed => exact h

theorem disconnect_inv (h : Inv username s) : Inv username (disconnect (username c) s c) := by
  unfold disconnect
  split
  · next honline =>
    have hlisted : s.dataMgr.findClient (username c) = some c :=
      (h.registry _ _).mpr ⟨rfl,.inr honline⟩
    have hcons := h.consistent c
    rcases hjob : s.jobs c with ⟨next,res,added⟩
    have hnext : next = .online := (congrArg CTcpJob.next hjob).symm.trans honline
    rw [hjob] at hcons
    cases hcons with
    | online =>
      refine h.update .closed ?_ (fun uname => ?_) (fun uname d hd => ?_)
      · rintro ((h0 | h0) | (h0 | h0)) <;> simp at h0
      · rw [findClient_delClient]
        split
        · refine ⟨fun hnone => absurd hnone.symm (Option.some_ne_none c),fun hself => ?_⟩
          rcases hself.2 with h0 | h0 <;> simp at h0
        · next hne =>
          refine ⟨fun hfind => absurd ((h.registry _ _).mp hfind).1.symm hne,fun hself => ?_⟩
          rcases hself.2 with h0 | h0 <;> simp at h0
      · rw [findClient_delClient]
        split
        · next heq =>
          rw [heq,hlisted]
          refine ⟨fun hnone => absurd hnone.symm (Option.some_ne_none d),fun hsome => ?_⟩
          exact absurd (Option.some.inj hsome).symm hd
        · exact Iff.rfl
    | _ => simp at hnext
  · exact h

theorem Inv.agreed (h : Inv username s) : Agreed username s := by
  have hcase : ∀ c, (s.jobs c).res = some 0 →
      (s.jobs c).next = .addClient ∧ (s.jobs c).added = none ∨ (s.jobs c).added = some true := by
    intro c hres
    have hcons := h.consistent c
    rcases hjob : s.jobs c with ⟨next,res,added⟩
    rw [hjob] at hcons hres
    cases hcons with
    | addClient => exact .inl ⟨rfl,rfl⟩
    | assign => exact .inr rfl
    | online => exact .inr rfl
    | closed => exact .inr rfl
    | findClient => simp at hres
    | sendRes => simp at hres
    | refused => simp at hres
  have htold : ∀ c, s.Told c → (s.jobs c).next.Between ∨ (s.jobs c).next.Listed := by
    rintro c ⟨hres,hopen⟩
    have hcons := h.consistent c
    rcases hjob : s.jobs c with ⟨next,res,added⟩
    rw [hjob] at hcons hres hopen
    cases hcons with
    | addClient => exact .inl (.inr rfl)
    | assign => exact .inr (.inl rfl)
    | online => exact .inr (.inr rfl)
    | findClient => simp at hres
    | sendRes => simp at hres
    | refused => simp at hopen
    | closed => simp at hopen
  refine ⟨fun c hres hadded => ?_,fun c hres hadded => ?_,fun c d hc hd => ?_⟩
  · rcases hcase c hres with ⟨-,hnone⟩ | htrue
    · simp [hnone] at hadded
    · simp [htrue] at hadded
  · rcases hcase c hres with ⟨hnext,-⟩ | htrue
    · exact ⟨hnext,h.still_free (.inr hnext)⟩
    · simp [htrue] at hadded
  · exact h.unique c d (htold c hc) (htold d hd)

theorem step_inv (e : Event) (h : Inv username s) (halone : Alone username s e) :
    Inv username (step username s e) := by
  cases e with
  | job c => exact doLogin_inv h halone
  | disconnect c => exact disconnect_inv h

theorem doLogin_findClient (hjob : s.jobs c = .new)
    (hfree : s.dataMgr.findClient (username c) = none) :
    step username s (.job c) = s.setJob c ⟨.sendRes 0,none,none⟩ := by
  dsimp only [step]
  unfold doLogin
  rw [hjob,hfree]
  rfl

theorem doLogin_sendRes (hjob : s.jobs c = ⟨.sendRes 0,none,none⟩) :
    step username s (.job c) = s.setJob c ⟨.addClient,some 0,none⟩ := by
  dsimp only [step]
  unfold doLogin
  rw [hjob]
  rfl

theorem jobs_setJob (c d : CClientPtr) (j : CTcpJob) :
    (s.setJob c j).jobs d = if d = c then j else s.jobs d := by
  by_cases hd : d = c
  · rw [if_pos hd,hd]
    exact Function.update_self _ _ _
  · rw [if_neg hd]
    exact Function.update_of_ne hd _ _

/-- The condition is exact: after a step that breaks it, the two jobs can both go on to their
answer. -/
theorem disagree_of_not_alone {e : Event} (h : Inv username s) (hno : ¬ Alone username s e) :
    ∃ es t, Lts.Run (Step username) s (e :: es) t ∧ ¬ Agreed username t := by
  cases e with
  | disconnect c => exact absurd trivial hno
  | job c =>
    simp only [Alone,Classical.not_imp,not_forall,not_not] at hno
    obtain ⟨hnext,hfree,d,hname,hbetween⟩ := hno
    have hcons := h.consistent c
    have hconsd := h.consistent d
    have hjob : s.jobs c = .new := by
      rcases hj : s.jobs c with ⟨next,res,added⟩
      have hn : next = .findClient := (congrArg CTcpJob.next hj).symm.trans hnext
      rw [hj] at hcons
      cases hcons with
      | findClient => rfl
      | _ => simp at hn
    have hdc : d ≠ c := by
      rintro rfl
      rcases hbetween with h0 | h0 <;> exact CTcpJob.Next.noConfusion (hnext.symm.trans h0)
    -- Both told and alive under one name.
    have hboth : ∀ t : Logins, t.jobs c = ⟨.addClient,some 0,none⟩ →
        t.jobs d = ⟨.addClient,some 0,none⟩ → ¬ Agreed username t := by
      intro t hc hd hagreed
      have htold : ∀ x, t.jobs x = ⟨.addClient,some 0,none⟩ → t.Told x := by
        intro x hx
        rw [Told,hx]
        exact ⟨rfl,CTcpJob.Next.noConfusion⟩
      exact hdc (hagreed.unique d c (htold d hd) (htold c hc) hname)
    have hfind := @doLogin_findClient username s c hjob hfree
    have hsend : step username (s.setJob c ⟨.sendRes 0,none,none⟩) (.job c) =
        (s.setJob c ⟨.sendRes 0,none,none⟩).setJob c ⟨.addClient,some 0,none⟩ :=
      doLogin_sendRes (by rw [jobs_setJob,if_pos rfl])
    rcases hj : s.jobs d with ⟨next,res,added⟩
    have hn : (s.jobs d).next = next := congrArg CTcpJob.next hj
    rw [hj] at hconsd
    rw [hn] at hbetween
    cases hconsd with
    | sendRes code =>
      have hcode : code = 0 := by
        rcases hbetween with h0 | h0
        · exact CTcpJob.Next.sendRes.inj h0
        · simp at h0
      have hlast : step username ((s.setJob c ⟨.sendRes 0,none,none⟩).setJob c
          ⟨.addClient,some 0,none⟩) (.job d) = ((s.setJob c ⟨.sendRes 0,none,none⟩).setJob c
          ⟨.addClient,some 0,none⟩).setJob d ⟨.addClient,some 0,none⟩ := by
        apply doLogin_sendRes
        rw [jobs_setJob,if_neg hdc,jobs_setJob,if_neg hdc,hj,hcode]
      refine ⟨[.job c,.job d],_,.cons hfind (.cons hsend (.cons hlast (.nil _))),hboth _ ?_ ?_⟩
      · rw [jobs_setJob,if_neg hdc.symm,jobs_setJob,if_pos rfl]
      · rw [jobs_setJob,if_pos rfl]
    | addClient =>
      refine ⟨[.job c],_,.cons hfind (.cons hsend (.nil _)),hboth _ ?_ ?_⟩
      · rw [jobs_setJob,if_pos rfl]
      · rw [jobs_setJob,if_neg hdc,jobs_setJob,if_neg hdc,hj]
    | _ => rcases hbetween with h0 | h0 <;> simp at h0

end

/-- While no job looks up a free name that another job is about to register, whoever is told
that he is logged in is the only one under his name, and is registered. -/
theorem logins_agree (username : CClientPtr → String) (es : List Event) (s : Logins)
    (hrun : Lts.Run (Step username) start es s)
    (halone : Lts.Meets (Step username) (Alone username) start es) : Agreed username s :=
  (hrun.invariant_of_meets (fun _ e _ h hc hs => hs ▸ step_inv e h hc) halone start_inv).agreed

/-- The second connection is bob's, the others say that they are alice. -/
def someUser (c : CClientPtr) : String := if c = 1 then "bob" else "alice"

/-- While bob logs in, alice does, is refused a second time, leaves, and logs in again. -/
def comings : List Event :=
  [.job 0,.job 1,.job 0,.job 1,.job 0,.job 2,.job 1,.job 2,.job 0,.job 1,.disconnect 0,.job 3,.job 3,
   .job 3,.job 3]

theorem logins_agree_comings : ∃ s, Lts.Run (Step someUser) start comings s ∧
    (s.jobs 1).next = .online ∧ (s.jobs 2).res = some (-2) ∧ (s.jobs 3).next = .online ∧
    Agreed someUser s := by
  have hbetween : ∀ {n : CTcpJob.Next}, n = .findClient ∨ n = .closed → ¬ n.Between := by
    rintro n (rfl | rfl) (h | h) <;> cases h
  refine ⟨_,Lts.run_foldl _ _ _,rfl,rfl,rfl,
    logins_agree someUser comings _ (Lts.run_foldl _ _ _) ?_⟩
  refine Lts.meets_moves_cons (fun _ _ d _ => hbetween (.inl rfl)) ?_
  refine Lts.meets_moves_cons (fun _ _ d hd => ?_) ?_
  · match d with
    | 0 => exact absurd hd (by decide)
    | n + 1 => exact hbetween (.inl rfl)
  refine Lts.meets_moves_cons nofun (Lts.meets_moves_cons nofun (Lts.meets_moves_cons nofun ?_))
  refine Lts.meets_moves_cons (fun _ h => nomatch h) (Lts.meets_moves_cons nofun ?_)
  refine Lts.meets_moves_cons nofun (Lts.meets_moves_cons nofun (Lts.meets_moves_cons nofun ?_))
  refine Lts.meets_moves_cons trivial (Lts.meets_moves_cons (fun _ _ d hd => ?_) ?_)
  · match d with
    | 0 => exact hbetween (.inr rfl)
    | 1 => exact absurd hd (by decide)
    | 2 => exact hbetween (.inr rfl)
    | n + 3 => exact hbetween (.inl rfl)
  refine Lts.meets_moves_cons nofun (Lts.meets_moves_cons nofun (Lts.meets_moves_cons nofun ?_))
  trivial

/-- Two jobs look the name up before either registers: both are told that they are logged in,
and one is not. -/
theorem both_logged_in :
    ∃ s, Lts.Run (Step fun _ => "alice") start
      [.job 0,.job 1,.job 0,.job 1,.job 0,.job 1] s ∧
    (s.jobs 1).res = some 0 ∧ (s.jobs 1).added = some false ∧
    ¬ Agreed (fun _ => "alice") s := by
  refine ⟨_,Lts.run_foldl _ _ _,rfl,rfl,fun h => ?_⟩
  exact h.registered 1 rfl rfl

end Logins
end CcniServer
