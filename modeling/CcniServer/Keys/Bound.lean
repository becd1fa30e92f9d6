import CcniServer.Keys.Redeem

/-!
How many keys are held. Only an insert sweeps, and only where it meets more than
`CLEAN_THRESHOLD` keys. So the map can outgrow the threshold, but only with keys that were inserted
within the time-out before the latest insert.
-/
namespace CcniServer
open CSecKeyMap

namespace CSecKeyMap.Call

/-- The key of a successful insert. -/
def added : Call → Option CSecretKey
  | insert k _ _ _ ok => if ok then some k else none
  | verifykey .. => none
  | remove _ => none
  | find .. => none

def inserts : Call → Bool
  | insert .. => true
  | verifykey .. => false
  | remove _ => false
  | find .. => false

end CSecKeyMap.Call

namespace Keys
open CSecKeyMap.Call

/-- The time of the latest insert, or the start. -/
def latest (t₀ : ℤ) (es : List (ℤ × Call)) : ℤ :=
  es.foldl (fun t e => if e.2.inserts then e.1 else t) t₀

/-- The keys of the successful inserts whose entries still count at the time. -/
def lasting (secret_timeout : UInt32) (t : ℤ) (es : List (ℤ × Call)) : List CSecretKey :=
  es.filterMap (fun e => if t ≤ e.1 + secret_timeout.toNat then e.2.added else none)

theorem latest_snoc (t₀ : ℤ) (es : List (ℤ × Call)) (e : ℤ × Call) :
    latest t₀ (es ++ [e]) = if e.2.inserts then e.1 else latest t₀ es := by
  rw [latest,List.foldl_append]
  rfl

theorem lasting_snoc (secret_timeout : UInt32) (t : ℤ) (es : List (ℤ × Call)) (e : ℤ × Call) :
    (lasting secret_timeout t (es ++ [e])).length = (lasting secret_timeout t es).length +
      if t ≤ e.1 + secret_timeout.toNat ∧ e.2.added.isSome then 1 else 0 := by
  rw [lasting,List.filterMap_append,List.length_append,← lasting]
  congr 1
  by_cases ht : t ≤ e.1 + secret_timeout.toNat
  · cases hk : e.2.added <;> simp [ht,hk]
  · simp [ht]

section
variable {s s' : Keys} {e : ℤ × Call} {es : List (ℤ × Call)} {secret_timeout : UInt32} {t₀ t : ℤ}

/-- Where every entry counts at a time, the keys are among those of the inserts that do. -/
theorem size_le_lasting {m : CSecKeyMap} (hrec : Recorded es s)
    (htimeout : s.map.secret_timeout = secret_timeout)
    (hm : ∀ k item, m.map.find? k = some item →
      s.map.map.find? k = some item ∧ t ≤ s.map.deadline item) :
    m.map.size ≤ (lasting secret_timeout t es).length := by
  have hnodup : (m.map.entries.map Prod.fst).Nodup := m.map.sorted.nodup
  have hsub : m.map.entries.map Prod.fst ⊆ lasting secret_timeout t es := by
    intro k hk
    obtain ⟨⟨k',item⟩,hentry,rfl⟩ := List.mem_map.mp hk
    obtain ⟨hfind,hle⟩ := hm k' item (OrdMap.find?_eq_some.mpr hentry)
    obtain ⟨pre,d,mid,rfl,⟨large,rfl⟩,-⟩ := (hrec k' item).mp hfind
    rw [deadline,htimeout] at hle
    refine List.mem_filterMap.mpr ⟨_,List.mem_append_right _ List.mem_cons_self,?_⟩
    rw [if_pos hle]
    rfl
  have hlength := (List.subperm_of_subset hnodup hsub).length_le
  rwa [List.length_map] at hlength

/-- A sweep leaves the keys that count. -/
theorem size_sweep_le (hrec : Recorded es s) (htimeout : s.map.secret_timeout = secret_timeout)
    (t : ℤ) : (s.map.sweep t).map.size ≤
      max CLEAN_THRESHOLD (lasting secret_timeout t es).length := by
  by_cases hlarge : s.map.map.size > CLEAN_THRESHOLD
  · rw [sweep,if_pos hlarge]
    refine le_trans (size_le_lasting hrec htimeout ?_) (le_max_right _ _)
    exact fun k item hfind => find?_clear_timeouted.mp hfind
  · rw [sweep,if_neg hlarge]
    exact le_trans (not_lt.mp hlarge) (le_max_left _ _)

theorem size_erase_le (m : CSecKeyMap) (k : CSecretKey) : (m.map.erase k).size ≤ m.map.size :=
  List.length_filter_le _ _

/-- The bound after a call, from the one before it. -/
theorem Step.bounded (hrec : Recorded es s) (htimeout : s.map.secret_timeout = secret_timeout)
    (hs : s.map.map.size ≤
      max (CLEAN_THRESHOLD + 1) (lasting secret_timeout (latest t₀ es) es).length)
    (h : Step s e s') : s'.map.map.size ≤ max (CLEAN_THRESHOLD + 1)
      (lasting secret_timeout (latest t₀ (es ++ [e])) (es ++ [e])).length := by
  -- A call that inserts nothing does not make the map larger.
  have hquiet : e.2.inserts = false → e.2.added = none → s'.map.map.size ≤ s.map.map.size →
      s'.map.map.size ≤ max (CLEAN_THRESHOLD + 1)
        (lasting secret_timeout (latest t₀ (es ++ [e])) (es ++ [e])).length := by
    intro hno hnone hle
    rw [latest_snoc,lasting_snoc,hno,hnone]
    simp only [Bool.false_eq_true,if_false,Option.isSome_none,and_false,Nat.add_zero]
    exact hle.trans hs
  cases h with
  | @insert t k u v ok m hclock h =>
    have hsweep := size_sweep_le hrec htimeout t
    rw [latest_snoc,lasting_snoc]
    cases ok with
    | false =>
      rw [(insert_false h).1]
      simp only [inserts,added,if_true,Bool.false_eq_true,if_false,Option.isSome_none,and_false,
        Nat.add_zero]
      omega
    | true =>
      have hsize := (s.map.sweep t).map.size_insert k ⟨u,v,t⟩
      have hcounts : t ≤ t + (secret_timeout.toNat : ℤ) := by omega
      rw [(insert_true h).1]
      simp only [inserts,added,if_true,Option.isSome_some,hcounts,and_self,hsize]
      split_ifs <;> omega
  | @verifykey t k ip used m hclock h =>
    refine hquiet rfl rfl ?_
    cases used with
    | none => rw [(verifykey_none h).1]
    | some item =>
      rw [(verifykey_some h).2.2]
      exact size_erase_le s.map k
  | @remove t k m hclock h =>
    refine hquiet rfl rfl ?_
    rw [(remove_eq_some.mp h).2]
    exact size_erase_le s.map k
  | find hclock => exact hquiet rfl rfl le_rfl

end

/-- The map never holds more than one key above the threshold, or than were inserted within the
time-out before the latest insert. -/
theorem size_bounded (secret_timeout : UInt32) (t₀ : ℤ) (es : List (ℤ × Call)) (s : Keys)
    (h : Lts.Run Step (start secret_timeout t₀) es s) : s.map.map.size ≤
      max (CLEAN_THRESHOLD + 1) (lasting secret_timeout (latest t₀ es) es).length := by
  have hall : Recorded es s ∧ s.map.secret_timeout = secret_timeout ∧ s.map.map.size ≤
      max (CLEAN_THRESHOLD + 1) (lasting secret_timeout (latest t₀ es) es).length := by
    refine @Lts.Run.history _ _ Step (fun es s => Recorded es s ∧
      s.map.secret_timeout = secret_timeout ∧ s.map.map.size ≤ max (CLEAN_THRESHOLD + 1)
        (lasting secret_timeout (latest t₀ es) es).length) ?_ _ _ [] es h ?_
    · rintro es s e u ⟨hrec,htimeout,hbound⟩ hs
      exact ⟨hrec.step hs,hs.timeout.trans htimeout,hs.bounded hrec htimeout hbound⟩
    · exact ⟨start_recorded,rfl,Nat.zero_le _⟩
  exact hall.2.2

/-- Inserts of some keys one after the other at one time, with what they answer. -/
def inserting (t : ℤ) : Keys → List CSecretKey → List (ℤ × Call) × Keys
  | s, [] => ([],s)
  | s, k :: ks =>
    let (ok,m) := s.map.insert t k 0 someAddr
    let (es,s') := inserting t ⟨m,t⟩ ks
    ((t,.insert k 0 someAddr (s.map.map.size > CLEAN_THRESHOLD) ok) :: es,s')

theorem inserting_run {t : ℤ} {s : Keys} (ht : s.now ≤ t) (ks : List CSecretKey) :
    Lts.Run Step s (inserting t s ks).1 (inserting t s ks).2 := by
  induction ks generalizing s with
  | nil => exact .nil s
  | cons k ks ih => exact .cons (.insert ht rfl) (ih le_rfl)

def manyKeys : List CSecretKey := (List.range 102).map fun i => ⟨i.toUInt64,0⟩

/-- A burst of inserts takes the map above the threshold. -/
theorem size_bounded_burst : ∃ s : Keys,
    Lts.Run Step (start 5 0) (inserting 0 (start 5 0) manyKeys).1 s ∧ s.map.map.size = 102 ∧
    102 ≤ max (CLEAN_THRESHOLD + 1) (lasting 5 (latest 0 (inserting 0 (start 5 0) manyKeys).1)
      (inserting 0 (start 5 0) manyKeys).1).length := by
  have hrun := inserting_run (t := 0) (s := start 5 0) le_rfl manyKeys
  have hsize : (inserting 0 (start 5 0) manyKeys).2.map.map.size = 102 := by decide +kernel
  have hbound := size_bounded 5 0 (inserting 0 (start 5 0) manyKeys).1 _ hrun
  rw [hsize] at hbound
  exact ⟨(inserting 0 (start 5 0) manyKeys).2,hrun,hsize,hbound⟩

end Keys
end CcniServer
