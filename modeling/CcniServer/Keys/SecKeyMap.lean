import CcniServer.Hall.Client
import Mathlib.Data.Prod.Lex

/-!
The secret keys that the UDP side hands out and the TCP side redeems. An entry is overwritten
or swept away only after its time; a sweep comes with an insert into a map that is large.
-/
namespace CcniServer

structure CSecretKey where
  k1 : UInt64
  k2 : UInt64
  deriving DecidableEq

namespace CSecretKey

/-- `operator <`. -/
def less (k k' : CSecretKey) : Bool := if k.k1 ≠ k'.k1 then k.k1 < k'.k1 else k.k2 < k'.k2

def toPair (k : CSecretKey) : ℕ ×ₗ ℕ := toLex (k.k1.toNat,k.k2.toNat)

theorem toPair_injective : Function.Injective toPair := by
  rintro ⟨a,b⟩ ⟨a',b'⟩ h
  have hpair : (a.toNat,b.toNat) = (a'.toNat,b'.toNat) := toLex.injective h
  obtain ⟨ha,hb⟩ := Prod.mk.inj hpair
  rw [UInt64.toNat_inj.mp ha,UInt64.toNat_inj.mp hb]

instance : LinearOrder CSecretKey := LinearOrder.lift' toPair toPair_injective

/-- The map is ordered by `operator <`. -/
theorem lt_iff_less {k k' : CSecretKey} : k < k' ↔ k.less k' = true := by
  change k.toPair < k'.toPair ↔ _
  rw [toPair,toPair,Prod.Lex.toLex_lt_toLex,less]
  by_cases h : k.k1 = k'.k1
  · simp [h,UInt64.lt_iff_toNat_lt]
  · have hne : k.k1.toNat ≠ k'.k1.toNat := fun h' => h (UInt64.toNat_inj.mp h')
    simp [h,hne,UInt64.lt_iff_toNat_lt]

end CSecretKey

/-- The socket and the address that a key was sent to, and the time. -/
structure CItem where
  udp : CUdpSockDataPtr
  addr : SockaddrIn
  tm : ℤ
  deriving DecidableEq

/-- The map with `secret_timeout` of the configuration, an `unsigned int`. -/
structure CSecKeyMap where
  secret_timeout : UInt32
  map : OrdMap CSecretKey CItem

namespace CSecKeyMap

def CLEAN_THRESHOLD : ℕ := 100

def new (secret_timeout : UInt32) : CSecKeyMap := ⟨secret_timeout,OrdMap.empty⟩

/-- The last moment at which an entry counts. -/
def deadline (m : CSecKeyMap) (item : CItem) : ℤ := item.tm + m.secret_timeout.toNat

/-- The loop of `clear_timeouted` from an iterator on. -/
def clearFrom (m : CSecKeyMap) (now : ℤ) : List (CSecretKey × CItem) → CSecKeyMap
  | [] => m
  | e :: it =>
    if m.deadline e.2 < now then clearFrom { m with map := m.map.erase e.1 } now it
    else clearFrom m now it

def clear_timeouted (m : CSecKeyMap) (now : ℤ) : CSecKeyMap := m.clearFrom now m.map.entries

/-- The sweep in front of an insert. -/
def sweep (m : CSecKeyMap) (now : ℤ) : CSecKeyMap :=
  if m.map.size > CLEAN_THRESHOLD then m.clear_timeouted now else m

def insert (m : CSecKeyMap) (now : ℤ) (k : CSecretKey) (u : CUdpSockDataPtr) (v : SockaddrIn) :
    Bool × CSecKeyMap :=
  let m := m.sweep now
  match m.map.find? k with
  | some item =>
    if m.deadline item ≥ now then (false,m)
    else (true,{ m with map := m.map.insert k ⟨u,v,now⟩ })
  | none => (true,{ m with map := m.map.insert k ⟨u,v,now⟩ })

def find (m : CSecKeyMap) (k : CSecretKey) : Option CItem := m.map.find? k

/-- The entry that `verifykey` uses, nothing where it returns false. -/
def verifykey (m : CSecKeyMap) (k : CSecretKey) (ip : UInt32) : Option CItem × CSecKeyMap :=
  match m.map.find? k with
  | none => (none,m)
  | some item =>
    if item.addr.sin_addr ≠ ip then (none,m)
    else (some item,{ m with map := m.map.erase k })

/-- `_map.erase(_map.find(..))`, which is undefined for a key that is not there. -/
def remove (m : CSecKeyMap) (k : CSecretKey) : Option CSecKeyMap :=
  (m.map.find? k).map (fun _ => { m with map := m.map.erase k })

/-! ### What the operations do to an entry -/

section
variable {m m' : CSecKeyMap} {now : ℤ} {k k' : CSecretKey} {item : CItem}

/-- The induction is on the rest of the iteration: it erases expired entries and no others. -/
theorem find?_clearFrom (it : List (CSecretKey × CItem)) (m : CSecKeyMap) :
    (m.clearFrom now it).map.find? k = some item ↔
      m.map.find? k = some item ∧ ∀ e ∈ it, e.1 = k → now ≤ m.deadline e.2 := by
  induction it generalizing m with
  | nil => simp [clearFrom]
  | cons e it ih =>
    unfold clearFrom
    split_ifs with hold
    · rw [ih]
      simp only [OrdMap.find?_erase,List.mem_cons,forall_eq_or_imp,deadline]
      by_cases hk : e.1 = k
      · simp only [hk,if_true,reduceCtorEq,false_and,false_iff,not_and]
        intro _ hle
        exact absurd (hle trivial) (not_le.mpr hold)
      · simp [hk,Ne.symm hk]
    · rw [ih,List.forall_mem_cons]
      have hle : now ≤ m.deadline e.2 := not_lt.mp hold
      simp [hle]

/-- The loop drops exactly the expired entries. -/
theorem find?_clear_timeouted : (m.clear_timeouted now).map.find? k = some item ↔
    m.map.find? k = some item ∧ now ≤ m.deadline item := by
  rw [clear_timeouted,find?_clearFrom]
  constructor
  · rintro ⟨hfind,hall⟩
    exact ⟨hfind,hall _ (OrdMap.find?_eq_some.mp hfind) rfl⟩
  · rintro ⟨hfind,hle⟩
    refine ⟨hfind,fun e he hk => ?_⟩
    have hsame : m.map.find? k = some e.2 := OrdMap.find?_eq_some.mpr (hk ▸ he)
    rw [hfind] at hsame
    exact Option.some.inj hsame ▸ hle

theorem clearFrom_timeout (it : List (CSecretKey × CItem)) (m : CSecKeyMap) :
    (m.clearFrom now it).secret_timeout = m.secret_timeout := by
  induction it generalizing m with
  | nil => rfl
  | cons e it ih =>
    unfold clearFrom
    split_ifs
    · exact ih _
    · exact ih m

@[simp] theorem sweep_timeout : (m.sweep now).secret_timeout = m.secret_timeout := by
  unfold sweep
  split_ifs
  · exact clearFrom_timeout _ m
  · rfl

@[simp] theorem deadline_sweep : (m.sweep now).deadline item = m.deadline item := by
  rw [deadline,sweep_timeout,deadline]

theorem find?_sweep : (m.sweep now).map.find? k = some item ↔
    m.map.find? k = some item ∧ (CLEAN_THRESHOLD < m.map.size → now ≤ m.deadline item) := by
  unfold sweep
  split_ifs with hlarge
  · rw [find?_clear_timeouted]
    simp [hlarge]
  · simp [hlarge]

variable {u : CUdpSockDataPtr} {v : SockaddrIn}

/-- A refused insert only sweeps, and meets an entry that counts. -/
theorem insert_false (h : m.insert now k u v = (false,m')) :
    m' = m.sweep now ∧ ∃ item, m.map.find? k = some item ∧ now ≤ m.deadline item := by
  unfold insert at h
  dsimp only at h
  split at h
  · next item hfind =>
    split_ifs at h with hle
    · cases h
      exact ⟨rfl,item,(find?_sweep.mp hfind).1,deadline_sweep ▸ hle⟩
    · cases h
  · cases h

/-- An insert that succeeds writes its entry, and meets none that counts. -/
theorem insert_true (h : m.insert now k u v = (true,m')) :
    m' = { m.sweep now with map := (m.sweep now).map.insert k ⟨u,v,now⟩ } ∧
      ∀ item, m.map.find? k = some item → m.deadline item < now := by
  unfold insert at h
  dsimp only at h
  split at h
  · next item hfind =>
    split_ifs at h with hle
    · cases h
    · cases h
      refine ⟨rfl,fun item' hitem' => ?_⟩
      rw [(find?_sweep.mp hfind).1] at hitem'
      exact Option.some.inj hitem' ▸ deadline_sweep ▸ not_le.mp hle
  · next hnone =>
    cases h
    refine ⟨rfl,fun item hitem => ?_⟩
    by_contra hle
    have hstay := find?_sweep.mpr ⟨hitem,fun _ => not_lt.mp hle⟩
    rw [hnone] at hstay
    cases hstay

/-- A key that counts is not given out again. -/
theorem insert_fst (hfind : m.map.find? k = some item) (hle : now ≤ m.deadline item) :
    (m.insert now k u v).1 = false := by
  cases h : m.insert now k u v with
  | mk ok m' =>
    cases ok with
    | false => rfl
    | true => exact absurd ((insert_true h).2 item hfind) (not_lt.mpr hle)

theorem verifykey_some {ip : UInt32} (h : m.verifykey k ip = (some item,m')) :
    m.map.find? k = some item ∧ item.addr.sin_addr = ip ∧
      m' = { m with map := m.map.erase k } := by
  unfold verifykey at h
  split at h
  · cases h
  · next hfind =>
    split at h
    · cases h
    · next hip =>
      cases h
      exact ⟨hfind,not_not.mp hip,rfl⟩

theorem verifykey_none {ip : UInt32} (h : m.verifykey k ip = (none,m')) :
    m' = m ∧ ∀ item, m.map.find? k = some item → item.addr.sin_addr ≠ ip := by
  unfold verifykey at h
  split at h
  · next hnone =>
    cases h
    exact ⟨rfl,fun item hitem => by simp [hnone] at hitem⟩
  · next item hfind =>
    split at h
    · next hip =>
      cases h
      exact ⟨rfl,fun item' hitem' => Option.some.inj (hfind.symm.trans hitem') ▸ hip⟩
    · cases h

theorem remove_eq_some : m.remove k = some m' ↔
    (m.map.find? k).isSome ∧ m' = { m with map := m.map.erase k } := by
  unfold remove
  cases m.map.find? k with
  | none => simp
  | some item => simp [eq_comm]

end

end CSecKeyMap
end CcniServer
