import CcniServer.Keys.SecKeyMap
import CcniServer.Lib.Lts

/-!
The jobs of the UDP listener. A job inserts its key, sends it, and takes it back when the send
fails; the map's lock is free in between.
-/
namespace CcniServer

/-- The next step of `CUdpJob::run`. -/
inductive CUdpJob.Next
  | insert
  | sendto
  | remove
  | done
  deriving DecidableEq

/-- The map, the clock and the jobs. -/
structure UdpJobs where
  smap : CSecKeyMap
  now : ℤ
  next : ℕ → CUdpJob.Next

namespace UdpJobs
open CSecKeyMap

/-- `_map.erase(_map.end())`. -/
inductive Undefined
  | eraseEnd
  deriving DecidableEq

/-- A job goes on (`sent` is the answer of `sendto`, where that is its next step), a TCP job
calls `verifykey`, or time passes. -/
inductive Event
  | job (j : ℕ) (sent : Bool)
  | verifykey (k : CSecretKey) (ip : UInt32)
  | tick (dt : ℕ)

def start (secret_timeout : UInt32) (now : ℤ) : UdpJobs := ⟨.new secret_timeout,now,fun _ => .insert⟩

def setNext (s : UdpJobs) (j : ℕ) (n : CUdpJob.Next) : UdpJobs :=
  { s with next := Function.update s.next j n }

variable (key : ℕ → CSecretKey) (sock : ℕ → CUdpSockDataPtr) (addr : ℕ → SockaddrIn)

/-- One step of a job; its key is the one that `genSecret` made for it. -/
def run (s : UdpJobs) (j : ℕ) (sent : Bool) : Except Undefined UdpJobs :=
  match s.next j with
  | .insert =>
    let (ok,m) := s.smap.insert s.now (key j) (sock j) (addr j)
    .ok ({ s with smap := m }.setNext j (if ok then .sendto else .done))
  | .sendto => .ok (s.setNext j (if sent then .done else .remove))
  | .remove =>
    match s.smap.remove (key j) with
    | none => .error .eraseEnd
    | some m => .ok ({ s with smap := m }.setNext j .done)
  | .done => .ok s

def step (s : UdpJobs) : Event → Except Undefined UdpJobs
  | .job j sent => run key sock addr s j sent
  | .verifykey k ip => .ok { s with smap := (s.smap.verifykey k ip).2 }
  | .tick dt => .ok { s with now := s.now + dt }

/-- The job has inserted its key and may have to take it back. -/
def Open (s : UdpJobs) (j : ℕ) : Prop := s.next j = .sendto ∨ s.next j = .remove

/-- No step takes the key of a job in between away: it is not redeemed, and where its time is
over nobody inserts it again and no insert sweeps. -/
def Spares (s : UdpJobs) : Event → Prop
  | .job j _ => s.next j = .insert → ∀ i item, s.Open i → s.smap.map.find? (key i) = some item →
      CLEAN_THRESHOLD < s.smap.map.size ∨ key i = key j → s.now ≤ s.smap.deadline item
  | .verifykey k ip => ∀ i, s.Open i → key i = k → (addr i).sin_addr ≠ ip
  | .tick _ => True

/-- The key of a job in between is in the map, with the job's address, and is its own. -/
structure Inv (s : UdpJobs) : Prop where
  held : ∀ i, s.Open i → ∃ item, s.smap.map.find? (key i) = some item ∧ item.addr = addr i
  own : ∀ i j, s.Open i → s.Open j → key i = key j → i = j

section
variable {key : ℕ → CSecretKey} {sock : ℕ → CUdpSockDataPtr} {addr : ℕ → SockaddrIn}
variable {s : UdpJobs} {secret_timeout : UInt32} {now : ℤ} {i j : ℕ} {n : CUdpJob.Next}

@[simp] theorem next_setNext : (s.setNext j n).next i = if i = j then n else s.next i :=
  Function.update_apply _ _ _ _

theorem open_setNext_of_ne (h : i ≠ j) : (s.setNext j n).Open i ↔ s.Open i := by
  simp [Open,h]

theorem open_setNext_self : (s.setNext j n).Open j ↔ n = .sendto ∨ n = .remove := by
  simp [Open]

/-- What a job does to the other jobs and to the map. -/
theorem run_ok {t : UdpJobs} {sent : Bool} (h : run key sock addr s j sent = .ok t) :
    (∀ i, i ≠ j → t.next i = s.next i) ∧ t.next j ≠ .insert ∧
      ∀ k item, t.smap.map.find? k = some item →
        k = key j ∨ ∃ item', s.smap.map.find? k = some item' := by
  unfold run at h
  cases hnext : s.next j with
  | insert =>
    cases hins : s.smap.insert s.now (key j) (sock j) (addr j) with
    | mk ok m =>
      simp only [hnext,hins] at h
      cases h
      refine ⟨fun i hi => by simp [hi],?_,fun k item hk => ?_⟩
      · cases ok <;> simp
      · change m.map.find? k = some item at hk
        cases ok with
        | false =>
          obtain ⟨rfl,-⟩ := insert_false hins
          exact .inr ⟨item,(find?_sweep.mp hk).1⟩
        | true =>
          obtain ⟨rfl,-⟩ := insert_true hins
          simp only [OrdMap.find?_insert] at hk
          split_ifs at hk with hkey
          · exact .inl hkey
          · exact .inr ⟨item,(find?_sweep.mp hk).1⟩
  | sendto =>
    simp only [hnext] at h
    cases h
    refine ⟨fun i hi => by simp [hi],?_,fun k item hk => .inr ⟨item,hk⟩⟩
    cases sent <;> simp
  | remove =>
    cases hremove : s.smap.remove (key j) with
    | none => simp [hnext,hremove] at h
    | some m =>
      simp only [hnext,hremove] at h
      cases h
      obtain ⟨-,rfl⟩ := remove_eq_some.mp hremove
      refine ⟨fun i hi => by simp [hi],by simp,fun k item hk => ?_⟩
      change (s.smap.map.erase (key j)).find? k = some item at hk
      rw [OrdMap.find?_erase] at hk
      split_ifs at hk
      exact .inr ⟨item,hk⟩
  | done =>
    simp only [hnext] at h
    cases h
    exact ⟨fun i _ => rfl,by simp [hnext],fun k item hk => .inr ⟨item,hk⟩⟩

theorem start_inv : Inv key addr (start secret_timeout now) := by
  have hno : ∀ i, ¬ (start secret_timeout now).Open i := by
    rintro i (h | h) <;> cases h
  exact ⟨fun i hi => absurd hi (hno i),fun i j hi => absurd hi (hno i)⟩

/-- A job goes on and the map with it: the other jobs in between find their keys where they
were, and the job has its own if it is in between afterwards. -/
theorem Inv.update (h : Inv key addr s) {m : CSecKeyMap}
    (hothers : ∀ i item, i ≠ j → s.Open i → s.smap.map.find? (key i) = some item →
      m.map.find? (key i) = some item)
    (hself : n = .sendto ∨ n = .remove →
      (∃ item, m.map.find? (key j) = some item ∧ item.addr = addr j) ∧
      ∀ i, i ≠ j → s.Open i → key i ≠ key j) :
    Inv key addr ({ s with smap := m }.setNext j n) := by
  refine ⟨fun i hi => ?_,fun a b ha hb hab => ?_⟩
  · by_cases hij : i = j
    · subst hij
      exact (hself (open_setNext_self.mp hi)).1
    · obtain ⟨item,hfind,haddr⟩ := h.held i ((open_setNext_of_ne hij).mp hi)
      exact ⟨item,hothers i item hij ((open_setNext_of_ne hij).mp hi) hfind,haddr⟩
  · by_cases haj : a = j
    · by_cases hbj : b = j
      · exact haj.trans hbj.symm
      · subst haj
        exact absurd hab.symm
          ((hself (open_setNext_self.mp ha)).2 b hbj ((open_setNext_of_ne hbj).mp hb))
    · by_cases hbj : b = j
      · subst hbj
        exact absurd hab
          ((hself (open_setNext_self.mp hb)).2 a haj ((open_setNext_of_ne haj).mp ha))
      · exact h.own a b ((open_setNext_of_ne haj).mp ha) ((open_setNext_of_ne hbj).mp hb) hab

theorem run_inv (h : Inv key addr s) {sent : Bool} (hs : Spares key addr s (.job j sent)) :
    ∃ t, run key sock addr s j sent = .ok t ∧ Inv key addr t := by
  unfold run
  cases hnext : s.next j with
  | insert =>
    have hspares := hs hnext
    cases hins : s.smap.insert s.now (key j) (sock j) (addr j) with
    | mk ok m =>
      cases ok with
      | false =>
        obtain ⟨rfl,-⟩ := insert_false hins
        dsimp only
        refine ⟨_,rfl,h.update ?_ ?_⟩
        · intro i item _ hi hfind
          exact find?_sweep.mpr ⟨hfind,fun hl => hspares i item hi hfind (.inl hl)⟩
        · rintro (hn | hn) <;> cases hn
      | true =>
        obtain ⟨rfl,hexpired⟩ := insert_true hins
        dsimp only
        have hne : ∀ i, s.Open i → key i ≠ key j := by
          intro i hi hkey
          obtain ⟨item,hfind,-⟩ := h.held i hi
          exact absurd (hspares i item hi hfind (.inr hkey))
            (not_le.mpr (hexpired item (hkey ▸ hfind)))
        refine ⟨_,rfl,h.update ?_ ?_⟩
        · intro i item _ hi hfind
          dsimp only
          rw [OrdMap.find?_insert,if_neg (hne i hi)]
          exact find?_sweep.mpr ⟨hfind,fun hl => hspares i item hi hfind (.inl hl)⟩
        · intro _
          refine ⟨⟨⟨sock j,addr j,s.now⟩,?_,rfl⟩,fun i _ => hne i⟩
          dsimp only
          rw [OrdMap.find?_insert,if_pos rfl]
  | sendto =>
    refine ⟨_,rfl,h.update (fun _ _ _ _ hfind => hfind) fun _ => ?_⟩
    have hopen : s.Open j := .inl hnext
    exact ⟨h.held j hopen,fun i hij hi hkey => hij (h.own i j hi hopen hkey)⟩
  | remove =>
    have hopen : s.Open j := .inr hnext
    obtain ⟨item,hfind,-⟩ := h.held j hopen
    have hremove : s.smap.remove (key j) = some { s.smap with map := s.smap.map.erase (key j) } :=
      remove_eq_some.mpr ⟨by rw [hfind]; rfl,rfl⟩
    rw [hremove]
    refine ⟨_,rfl,h.update (fun i item hij hi hi' => ?_) ?_⟩
    · dsimp only
      rw [OrdMap.find?_erase,if_neg fun hkey => hij (h.own i j hi hopen hkey)]
      exact hi'
    · rintro (hn | hn) <;> cases hn
  | done => exact ⟨s,rfl,h⟩

theorem verifykey_inv (h : Inv key addr s) {k : CSecretKey} {ip : UInt32}
    (hs : Spares key addr s (.verifykey k ip)) :
    Inv key addr { s with smap := (s.smap.verifykey k ip).2 } := by
  refine ⟨fun i hi => ?_,h.own⟩
  obtain ⟨item,hfind,haddr⟩ := h.held i hi
  refine ⟨item,?_,haddr⟩
  cases hv : s.smap.verifykey k ip with
  | mk used m =>
    cases used with
    | none =>
      obtain ⟨rfl,-⟩ := verifykey_none hv
      exact hfind
    | some item' =>
      obtain ⟨hfind',hip,rfl⟩ := verifykey_some hv
      have hne : key i ≠ k := by
        intro hkey
        rw [hkey,hfind'] at hfind
        have hsame : item' = item := Option.some.inj hfind
        exact hs i hi hkey (by rw [← haddr,← hsame,hip])
      dsimp only
      rw [OrdMap.find?_erase,if_neg hne]
      exact hfind

theorem step_inv (h : Inv key addr s) {e : Event} (hs : Spares key addr s e) :
    ∃ t, step key sock addr s e = .ok t ∧ Inv key addr t := by
  cases e with
  | job j sent => exact run_inv h hs
  | verifykey k ip => exact ⟨_,rfl,verifykey_inv h hs⟩
  | tick dt => exact ⟨_,rfl,h.held,h.own⟩

/-! ### The condition is exact -/

/-- A key whose time is over can be inserted again. -/
theorem insert_late {m : CSecKeyMap} {k : CSecretKey} {udp : CUdpSockDataPtr} {ad : SockaddrIn}
    {item : CItem} (hfind : m.map.find? k = some item) (hlate : m.deadline item < now) :
    (m.insert now k udp ad).1 = true := by
  cases hins : m.insert now k udp ad with
  | mk ok m' =>
    cases ok with
    | true => rfl
    | false =>
      obtain ⟨-,item',hfind',hle⟩ := insert_false hins
      rw [hfind] at hfind'
      exact absurd (Option.some.inj hfind' ▸ hle) (not_le.mpr hlate)

/-- In a large map a key whose time is over goes when another one is inserted. -/
theorem find?_insert_late {m : CSecKeyMap} {k k' : CSecretKey} {udp : CUdpSockDataPtr}
    {ad : SockaddrIn} {item : CItem} (hlarge : CLEAN_THRESHOLD < m.map.size)
    (hfind : m.map.find? k = some item) (hlate : m.deadline item < now) (hne : k ≠ k') :
    (m.insert now k' udp ad).2.map.find? k = none := by
  have hswept : (m.sweep now).map.find? k = none := by
    rw [Option.eq_none_iff_forall_ne_some]
    intro item' hitem'
    obtain ⟨hfind',hle⟩ := find?_sweep.mp hitem'
    rw [hfind] at hfind'
    exact absurd (Option.some.inj hfind' ▸ hle hlarge) (not_le.mpr hlate)
  cases hins : m.insert now k' udp ad with
  | mk ok m' =>
    cases ok with
    | false => rw [(insert_false hins).1,hswept]
    | true =>
      rw [(insert_true hins).1]
      dsimp only
      rw [OrdMap.find?_insert,if_neg hne,hswept]

/-- A job in between whose key is gone fails to send, and removes it. -/
theorem undefined_of_absent (hi : s.Open i) (hnone : s.smap.map.find? (key i) = none) :
    ∃ es, Lts.exec (step key sock addr) s es = .error .eraseEnd := by
  have hremove : ∀ t : UdpJobs, t.smap = s.smap → t.next i = .remove →
      step key sock addr t (.job i false) = .error .eraseEnd := by
    intro t hsmap hnext
    simp only [step,run,hnext,hsmap,CSecKeyMap.remove,hnone,Option.map_none]
  rcases hi with hnext | hnext
  · refine ⟨[.job i false,.job i false],?_⟩
    have hsend : step key sock addr s (.job i false) = .ok (s.setNext i .remove) := by
      simp [step,run,hnext]
    have hlast := hremove (s.setNext i .remove) rfl (by simp)
    rw [Lts.exec_cons_ok hsend,Lts.exec,hlast]
  · exact ⟨[.job i false],by rw [Lts.exec,hremove s rfl hnext]⟩

/-- A job in between fails to send, and takes its key back. -/
theorem exec_remove (hi : s.Open i) (hsome : (s.smap.map.find? (key i)).isSome) :
    ∃ es t, Lts.exec (step key sock addr) s es = .ok t ∧ t.smap.map.find? (key i) = none ∧
      ∀ j, j ≠ i → (t.Open j ↔ s.Open j) := by
  have hremove : ∀ t : UdpJobs, t.smap = s.smap → t.next i = .remove →
      step key sock addr t (.job i false) =
        .ok ({ t with smap := { s.smap with map := s.smap.map.erase (key i) } }.setNext i .done) := by
    intro t hsmap hnext
    have hrm := remove_eq_some.mpr ⟨hsome,rfl⟩
    simp only [step,run,hnext,hsmap,hrm]
  have hgone : (s.smap.map.erase (key i)).find? (key i) = none := by simp
  rcases hi with hnext | hnext
  · have hsend : step key sock addr s (.job i false) = .ok (s.setNext i .remove) := by
      simp [step,run,hnext]
    have hlast := hremove (s.setNext i .remove) rfl (by simp)
    have hexec := (Lts.exec_cons_ok hsend [.job i false]).trans (Lts.exec_cons_ok hlast [])
    exact ⟨_,_,hexec,hgone,fun j hj => (open_setNext_of_ne hj).trans (open_setNext_of_ne hj)⟩
  · have hexec := Lts.exec_cons_ok (hremove s rfl hnext) []
    exact ⟨_,_,hexec,hgone,fun j hj => open_setNext_of_ne hj⟩

/-- Two jobs in between cannot share a key. -/
theorem undefined_of_shared (hi : s.Open i) (hj : s.Open j) (hij : i ≠ j) (hkey : key i = key j) :
    ∃ es, Lts.exec (step key sock addr) s es = .error .eraseEnd := by
  cases hfind : s.smap.map.find? (key i) with
  | none => exact undefined_of_absent hi hfind
  | some item =>
    obtain ⟨es,t,hes,hgone,hopen⟩ := @exec_remove key sock addr s i hi (by rw [hfind]; rfl)
    obtain ⟨fs,hfs⟩ := @undefined_of_absent key sock addr t j
      ((hopen j (Ne.symm hij)).mpr hj) (hkey ▸ hgone)
    exact ⟨es ++ fs,(Lts.exec_append hes).trans hfs⟩

/-- After any step that breaks the condition there is a run that removes an absent key. -/
theorem undefined_of_not_spares (h : Inv key addr s) {e : Event} (hno : ¬ Spares key addr s e) :
    ∃ es, Lts.exec (step key sock addr) s (e :: es) = .error .eraseEnd := by
  have hfirst : ∀ t, step key sock addr s e = .ok t →
      (∃ es, Lts.exec (step key sock addr) t es = .error .eraseEnd) →
      ∃ es, Lts.exec (step key sock addr) s (e :: es) = .error .eraseEnd := by
    rintro t ht ⟨es,hes⟩
    exact ⟨es,(Lts.exec_cons_ok ht es).trans hes⟩
  cases e with
  | tick dt => exact absurd trivial hno
  | verifykey k ip =>
    simp only [Spares,not_forall,not_not] at hno
    obtain ⟨i,hi,hkey,hip⟩ := hno
    refine hfirst _ rfl (undefined_of_absent hi ?_)
    obtain ⟨item,hfind,haddr⟩ := h.held i hi
    have hredeem : s.smap.verifykey k ip =
        (some item,{ s.smap with map := s.smap.map.erase k }) := by
      simp only [CSecKeyMap.verifykey,← hkey,hfind,haddr,hip,ne_eq,not_true,if_false]
    dsimp only
    rw [hredeem,hkey]
    simp
  | job j sent =>
    simp only [Spares,not_forall,not_le] at hno
    obtain ⟨hnext,i,item,hi,hfind,hwhy,hlate⟩ := hno
    have hij : i ≠ j := by
      rintro rfl
      rcases hi with hi | hi <;> simp [hnext] at hi
    have hstep : step key sock addr s (.job j sent) =
        .ok ({ s with smap := (s.smap.insert s.now (key j) (sock j) (addr j)).2 }.setNext j
          (if (s.smap.insert s.now (key j) (sock j) (addr j)).1 then .sendto else .done)) := by
      simp only [step,run,hnext]
    apply hfirst _ hstep
    by_cases hkey : key i = key j
    · -- The key is inserted a second time, and both jobs hold it.
      have hnew : (s.smap.insert s.now (key j) (sock j) (addr j)).1 = true :=
        insert_late (hkey ▸ hfind) hlate
      rw [hnew,if_pos rfl]
      apply undefined_of_shared _ _ hij hkey
      · exact (open_setNext_of_ne hij).mpr hi
      · exact open_setNext_self.mpr (.inl rfl)
    · -- The insert sweeps the key away.
      have hopen : ∀ m n, ({ s with smap := m }.setNext j n).Open i :=
        fun m n => (open_setNext_of_ne hij).mpr hi
      apply undefined_of_absent (hopen _ _)
      exact find?_insert_late (hwhy.resolve_right hkey) hfind hlate hkey

end

/-- While nobody takes the key of a job in between away, every key that is removed is there. -/
theorem remove_present (key : ℕ → CSecretKey) (sock : ℕ → CUdpSockDataPtr)
    (addr : ℕ → SockaddrIn) (secret_timeout : UInt32) (now : ℤ) (es : List Event)
    (hs : Lts.Meets (Lts.Steps (step key sock addr)) (Spares key addr)
      (start secret_timeout now) es) :
    ∃ s, Lts.exec (step key sock addr) (start secret_timeout now) es = .ok s := by
  obtain ⟨s,hrun,-⟩ := Lts.exec_ok_of_meets (fun _ _ h hs => step_inv h hs) hs start_inv
  exact ⟨s,hrun⟩

/-- Two jobs hand their keys out; the first fails to send its own and takes it back. -/
theorem remove_present_failed_send :
    ∃ s, Lts.exec (step (fun j => ⟨1,UInt64.ofNat j⟩) (fun _ => 0) (fun _ => default)) (start 5 0)
      [.job 0 true,.job 0 false,.job 0 true] = .ok s := by
  refine remove_present _ _ _ 5 0 [.job 0 true,.job 0 false,.job 0 true] ?_
  have hstart : ∀ i, ¬ (start 5 0).Open i := by
    rintro i (h | h) <;> cases h
  refine ⟨fun _ i item hi => absurd hi (hstart i),fun t ht => ?_⟩
  cases ht
  refine ⟨fun h => ?_,fun t ht => ?_⟩
  · cases h
  · cases ht
    refine ⟨fun h => ?_,fun _ _ => trivial⟩
    cases h

/-- A key is redeemed before its job has failed to send it: the job removes an absent key. -/
theorem redeemed_key_removed :
    Lts.exec (step (fun _ => ⟨1,2⟩) (fun _ => 0) (fun _ => default)) (start 5 0)
      [.job 0 true,.verifykey ⟨1,2⟩ 0,.job 0 false,.job 0 true] = .error .eraseEnd := rfl

end UdpJobs
end CcniServer
