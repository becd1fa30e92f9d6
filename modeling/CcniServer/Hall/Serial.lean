import CcniServer.Hall.Interleaving

/-!
Threads that do not interrupt each other. A handler, or `doWork` with a broken line, is then one
step of the engine, so that every run of the engine is among the interleavings.
-/
namespace CcniServer
namespace Event

def client : Event → CClientPtr
  | .login c _ _ _ => c
  | .request c _ => c
  | .frame c => c
  | .disconnect c => c

/-- What the threads take up for an event. -/
def turns : Event → List Turn
  | .login c _ _ uname => [.login c uname]
  | .request c msg => [.request c msg]
  | .frame _ => []
  | .disconnect c => [.broken c]

end Event

namespace Workers
open Hall
variable {h h' h'' : Hall} {c : CClientPtr} {i : Instr} {is : List Instr} {seed : Fin 20000}

/-- One thread has something to run and nothing is left to write. -/
def busy (h : Hall) (c : CClientPtr) (code : List Instr) : Workers :=
  ⟨h,fun _ => [],Function.update (fun _ => []) c code⟩

/-- Only the thread of the client goes on. -/
def Goes (c : CClientPtr) (ts : List Turn) : Prop := ∀ t ∈ ts, ∃ seed, t = .go c seed

/-- The events are handled one after the other: the thread of the client takes one up and goes on
with it, and nobody else does anything before the next one. -/
inductive InTurn : List Event → List Turn → Prop
  | nil : InTurn [] []
  | cons {e : Event} {es : List Event} {us ts : List Turn} :
      Goes e.client us → InTurn es ts → InTurn (e :: es) (e.turns ++ us ++ ts)

theorem Goes.append {ts us : List Turn} (h : Goes c ts) (h' : Goes c us) : Goes c (ts ++ us) := by
  intro t ht
  rcases List.mem_append.mp ht with ht | ht
  · exact h t ht
  · exact h' t ht

theorem goes_replicate (c : CClientPtr) (n : ℕ) (seed : Fin 20000) :
    Goes c (List.replicate n (.go c seed)) :=
  fun _ ht => ⟨seed,List.eq_of_mem_replicate ht⟩

/-- All threads rest. -/
def still (h : Hall) : Workers := ⟨h,fun _ => [],fun _ => []⟩

@[simp] theorem busy_nil (h : Hall) (c : CClientPtr) : busy h c [] = still h := by
  rw [busy,Function.update_eq_self_iff.mpr rfl]
  rfl

/-- The writes after a section, one turn for each. -/
theorem run_flush (h : Hall) (c : CClientPtr) (seed : Fin 20000) (ws : List Field)
    (code : CClientPtr → List Instr) :
    (⟨h,Function.update (fun _ => []) c ws,code⟩ : Workers).run
      (List.replicate ws.length (.go c seed)) =
        .ok ⟨h.setMember c (Writes.after Member.write ws (h.member c)),fun _ => [],code⟩ := by
  induction ws generalizing h with
  | nil =>
    rw [Writes.after_nil,Hall.setMember_self,Function.update_eq_self_iff.mpr rfl]
    rfl
  | cons w ws ih =>
    have hstep : (⟨h,Function.update (fun _ => []) c (w :: ws),code⟩ : Workers).step (.go c seed) =
        .ok ⟨h.setMember c (Member.write w (h.member c)),Function.update (fun _ => []) c ws,code⟩ := by
      simp only [step,go,Function.update_self,Function.update_idem]
    rw [List.length_cons,List.replicate_succ,run,Lts.exec_cons_ok hstep]
    have hrest := ih (h.setMember c (Member.write w (h.member c)))
    rw [setMember_member,Function.update_self] at hrest
    simp only [Writes.after_cons]
    rw [run] at hrest
    rw [hrest]
    simp only [setMember,Function.update_idem]

/-- One operation without an interruption, and then the rest. -/
theorem run_busy {res : Hall × List Field} (hrun : i.run h c seed = .ok res)
    (hm : Makes c res h')
    (hrest : ∃ ts, Goes c ts ∧ (busy h' c is).run ts = .ok (still h'')) :
    ∃ ts, Goes c ts ∧ (busy h c (i :: is)).run ts = .ok (still h'') := by
  obtain ⟨ts,hgoes,hts⟩ := hrest
  have hstep : (busy h c (i :: is)).step (.go c seed) =
      .ok ⟨res.1,Function.update (fun _ => []) c res.2,Function.update (fun _ => []) c is⟩ := by
    simp only [step,go,busy,Function.update_self,Function.update_idem,hrun,Checked.ok_bind]
    rfl
  refine ⟨.go c seed :: (List.replicate res.2.length (.go c seed) ++ ts),
    (goes_replicate c 1 seed).append ((goes_replicate c _ seed).append hgoes),?_⟩
  rw [run,Lts.exec_cons_ok hstep]
  refine (Lts.exec_append ?_).trans hts
  refine (run_flush res.1 c seed res.2 _).trans ?_
  rw [← hm]
  rfl

/-- The last operation of a thread. -/
theorem run_last (ok : h.Ok) (hf : (h.member c).Fits [i]) (seed : Fin 20000)
    (he : h.effect (.instr c seed i) = some h') :
    ∃ ts, Goes c ts ∧ (busy h c [i]).run ts = .ok (still h') := by
  obtain ⟨res,hrun,hm⟩ := run_makes ok hf he
  exact run_busy hrun hm ⟨[],nofun,by rw [busy_nil]; rfl⟩

theorem run_handler (ok : h.Ok) {msg : CXmlNode} {fn : CClient.Msghnd}
    (hg : h.Guard (handlerAction c msg fn)) (ha : h.act (handlerAction c msg fn) = some h') :
    ∃ ts, Goes c ts ∧ (busy h c (Instr.ofHandler msg fn)).run ts = .ok (still h') := by
  have hf := fits_ofHandler ok hg
  have hquiet : h = h' → ∃ ts, Goes c ts ∧ (busy h c []).run ts = .ok (still h') := by
    rintro rfl
    exact ⟨[],nofun,by rw [busy_nil]; rfl⟩
  cases fn with
  | doEnterRoom => exact run_last ok hf ⟨h.idseed,ok.idseed⟩ ha
  | doLeaveRoom =>
    simp only [handlerAction,Hall.act] at ha
    split_ifs at ha
    exact run_last ok hf ⟨h.idseed,ok.idseed⟩ ha
  | doNewSession =>
    have hsame : h.effect (.instr c ⟨h.idseed,ok.idseed⟩ .collect) = some h := rfl
    obtain ⟨res,hrun,hm⟩ := run_makes ok hf hsame
    exact run_busy hrun hm (run_last ok (.store hg.1 hg.2) ⟨h.idseed,ok.idseed⟩ ha)
  | doEnterSession => exact run_last ok hf ⟨h.idseed,ok.idseed⟩ ha
  | doLeaveSession => exact run_last ok hf ⟨h.idseed,ok.idseed⟩ ha
  | doWatchSession => exact run_last ok hf ⟨h.idseed,ok.idseed⟩ ha
  | doReady => exact run_last ok hf ⟨h.idseed,ok.idseed⟩ ha
  | doListSessions =>
    simp only [handlerAction,Hall.act] at ha
    split_ifs at ha
    exact run_last ok hf ⟨h.idseed,ok.idseed⟩ ha
  | _ => exact hquiet (Option.some.inj ha)

/-- The three operations of a broken line. -/
theorem run_break (ok : h.Ok) (hc : (h.member c).ctsk = true) (hb : h.breakLine c = some h') :
    ∃ ts, Goes c ts ∧ (busy h c Instr.ofBreak).run ts = .ok (still h') := by
  obtain ⟨h₂,h₂b,rfl⟩ := Option.map_eq_some_iff.mp hb
  obtain ⟨h₁,h₁b,h₂b⟩ := Option.bind_eq_some_iff.mp h₂b
  obtain ⟨ok₁,hsid₁,hc₁⟩ := ok.dropSession h₁b
  obtain ⟨ok₂,hsid₂,hroom₂,hc₂⟩ := ok₁.dropRoom hsid₁ h₂b
  have hserved := hc₁.trans hc
  have hone : h.effect (.instr c ⟨h.idseed,ok.idseed⟩ .dropSession) = some h₁ := h₁b
  have htwo : h₁.effect (.instr c ⟨h.idseed,ok.idseed⟩ .dropRoom) = some h₂ := h₂b
  obtain ⟨res₁,hrun₁,hm₁⟩ := run_makes ok (.dropSession hc) hone
  obtain ⟨res₂,hrun₂,hm₂⟩ := run_makes ok₁ (.dropRoom hserved hsid₁) htwo
  refine run_busy hrun₁ hm₁ (run_busy hrun₂ hm₂ ?_)
  exact run_last ok₂ (.delClient (hc₂.trans hserved) hsid₂ hroom₂) ⟨h.idseed,ok.idseed⟩ rfl

theorem run_login (h : Hall) (uname : String) (hc : (h.member c).ctsk = false)
    (seed : Fin 20000) :
    (still h).run [.login c uname,.go c seed] = .ok (still (h.login c uname)) := by
  have hfree : (still h).Resting c ∧ ((still h).hall.member c).ctsk = false := ⟨⟨rfl,rfl⟩,hc⟩
  have hlogin : (still h).step (.login c uname) = .ok ((still h).register c uname) := if_pos hfree
  rw [run,Lts.exec_cons_ok hlogin]
  unfold register Hall.login
  have hlist : (still h).hall.list = h.list := rfl
  rw [hlist]
  cases h.list.find? uname with
  | some c' => rfl
  | none =>
    refine (run_flush _ c seed [.ctsk true] _).trans ?_
    simp only [still,setMember,Function.update_self,Function.update_idem]
    rfl

/-- An event of the engine, with nothing in between. -/
theorem run_event (ok : h.Ok) {e : Event} (hs : Hall.Step h e h') :
    ∃ us, Goes e.client us ∧ (still h).run (e.turns ++ us) = .ok (still h') := by
  have hg := h.action_guard e
  cases e with
  | frame c =>
    cases hs
    exact ⟨[],nofun,rfl⟩
  | login c udp udpaddr uname =>
    unfold Step at hs
    simp only [action] at hs
    split_ifs at hs with hc
    · cases hs
      have hbusy : ¬ ((still h).Resting c ∧ ((still h).hall.member c).ctsk = false) :=
        fun hfree => Bool.false_ne_true (hfree.2.symm.trans hc)
      exact ⟨[],nofun,Lts.exec_cons_ok (if_neg hbusy) []⟩
    · cases hs
      exact ⟨_,goes_replicate c 1 ⟨h.idseed,ok.idseed⟩,
        run_login h uname (Bool.eq_false_iff.mpr hc) ⟨h.idseed,ok.idseed⟩⟩
  | request c msg =>
    unfold Step at hs
    simp only [action] at hs hg
    split_ifs at hs hg with hreq
    · obtain ⟨us,hgoes,hus⟩ := run_handler ok hg hs
      have hadmit : (still h).Admits c msg := ⟨⟨rfl,rfl⟩,hreq⟩
      exact ⟨us,hgoes,(Lts.exec_cons_ok (if_pos hadmit) us).trans hus⟩
    · cases hs
      have hrefused : ¬ (still h).Admits c msg := fun hadmit => hreq hadmit.2
      exact ⟨[],nofun,Lts.exec_cons_ok (if_neg hrefused) []⟩
  | disconnect c =>
    unfold Step at hs
    simp only [action] at hs
    split_ifs at hs with hc
    · obtain ⟨us,hgoes,hus⟩ := run_break ok hc hs
      have hrest : (still h).Resting c ∧ ((still h).hall.member c).ctsk = true := ⟨⟨rfl,rfl⟩,hc⟩
      exact ⟨us,hgoes,(Lts.exec_cons_ok (if_pos hrest) us).trans hus⟩
    · cases hs
      have hgone : ¬ ((still h).Resting c ∧ ((still h).hall.member c).ctsk = true) :=
        fun hrest => hc hrest.2
      exact ⟨[],nofun,Lts.exec_cons_ok (if_neg hgone) []⟩

/-- Every run of the engine, one request or broken line at a time, is an interleaving of the
threads: the one in which they take up the same events and handle them one after the other. -/
theorem run_serial {cfgs : List CRoomConfig} {es : List Event} {s : CEngine}
    (hrun : (CEngine.create cfgs).run es = .ok s) :
    ∃ ts, InTurn es ts ∧ (Workers.create cfgs).run ts = .ok (still s.hall) := by
  have hall : ∀ {h h' : Hall} {es : List Event}, Lts.Run Hall.Step h es h' → h.Ok →
      ∃ ts, InTurn es ts ∧ (still h).run ts = .ok (still h') := by
    intro h h' es hr
    induction hr with
    | nil h => exact fun _ => ⟨[],.nil,rfl⟩
    | cons hs _ ih =>
      intro ok
      obtain ⟨us,hgoes,hus⟩ := run_event ok hs
      obtain ⟨ts,hturn,hts⟩ := ih (ok.step hs)
      exact ⟨_,.cons hgoes hturn,(Lts.exec_append hus).trans hts⟩
  exact hall (run_ok_hall hrun) (create_ok cfgs)

/-- Two clients play until the line of one of them breaks. -/
theorem run_serial_abandoned : ∃ ts s,
    (CEngine.create [CEngine.room1]).run (CEngine.twoPlayers ++ [.disconnect 1]) = .ok s ∧
      InTurn (CEngine.twoPlayers ++ [.disconnect 1]) ts ∧
      (Workers.create [CEngine.room1]).run ts = .ok (still s.hall) := by
  obtain ⟨s,hs⟩ : ∃ s, (CEngine.create [CEngine.room1]).run
      (CEngine.twoPlayers ++ [.disconnect 1]) = .ok s := ⟨_,rfl⟩
  obtain ⟨ts,hturn,hts⟩ := run_serial hs
  exact ⟨ts,s,hs,hturn,hts⟩

end Workers
end CcniServer
