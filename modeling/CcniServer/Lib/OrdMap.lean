import Mathlib.Data.List.Sort

/-! Finite maps stored as association lists with strictly increasing keys. Insertion
overwrites, lookups see one entry a key, and iteration follows the order of the keys. -/

/-- A finite map as the list of its entries in increasing order of the keys. -/
structure OrdMap (κ : Type*) (β : Type*) [LinearOrder κ] where
  entries : List (κ × β)
  sorted : (entries.map Prod.fst).SortedLT

namespace OrdMap
variable {κ β : Type*} [LinearOrder κ]

theorem nil_sorted : (([] : List (κ × β)).map Prod.fst).SortedLT := List.Pairwise.nil.sortedLT

def empty : OrdMap κ β := ⟨[],nil_sorted⟩

def findEntry (k : κ) : List (κ × β) → Option β
  | [] => none
  | e :: es => if k = e.1 then some e.2 else findEntry k es

def insertEntry (k : κ) (v : β) : List (κ × β) → List (κ × β)
  | [] => [(k,v)]
  | e :: es =>
    if k < e.1 then (k,v) :: e :: es
    else if k = e.1 then (k,v) :: es
    else e :: insertEntry k v es

def find? (m : OrdMap κ β) (k : κ) : Option β := findEntry k m.entries

def size (m : OrdMap κ β) : ℕ := m.entries.length

theorem mem_keys_insertEntry {k k' : κ} {v : β} {es : List (κ × β)} :
    k' ∈ (insertEntry k v es).map Prod.fst ↔ k' = k ∨ k' ∈ es.map Prod.fst := by
  induction es with
  | nil => simp [insertEntry]
  | cons e es ih =>
    simp only [insertEntry]
    split_ifs with hlt heq
    · simp only [List.map_cons,List.mem_cons]
    · simp only [List.map_cons,List.mem_cons,heq,or_self_left]
    · simp only [List.map_cons,List.mem_cons,ih]
      exact or_left_comm

theorem insertEntry_sorted (k : κ) (v : β) (es : List (κ × β))
    (h : (es.map Prod.fst).Pairwise (· < ·)) :
    ((insertEntry k v es).map Prod.fst).Pairwise (· < ·) := by
  induction es with
  | nil => simp [insertEntry]
  | cons e es ih =>
    obtain ⟨he,hes⟩ := List.pairwise_cons.mp h
    simp only [insertEntry]
    split_ifs with hlt heq
    · refine List.pairwise_cons.mpr ⟨?_,h⟩
      intro k' hk'
      rcases List.mem_cons.mp hk' with rfl | hk'
      · exact hlt
      · exact hlt.trans (he k' hk')
    · exact List.pairwise_cons.mpr ⟨heq ▸ he,hes⟩
    · refine List.pairwise_cons.mpr ⟨?_,ih hes⟩
      intro k' hk'
      rcases mem_keys_insertEntry.mp hk' with rfl | hk'
      · exact lt_of_le_of_ne (not_lt.mp hlt) (Ne.symm heq)
      · exact he k' hk'

/-- `m[k] = v` of a map that keeps one value a key. -/
def insert (m : OrdMap κ β) (k : κ) (v : β) : OrdMap κ β :=
  ⟨insertEntry k v m.entries,(insertEntry_sorted k v m.entries m.sorted.pairwise).sortedLT⟩

def erase (m : OrdMap κ β) (k : κ) : OrdMap κ β :=
  ⟨m.entries.filter (fun e => e.1 ≠ k),
    (m.sorted.pairwise.sublist (List.filter_sublist.map Prod.fst)).sortedLT⟩

@[simp] theorem find?_empty (k : κ) : (empty : OrdMap κ β).find? k = none := rfl

theorem findEntry_insertEntry (k k' : κ) (v : β) (es : List (κ × β)) :
    findEntry k' (insertEntry k v es) = if k' = k then some v else findEntry k' es := by
  induction es with
  | nil => rfl
  | cons e es ih =>
    rcases lt_trichotomy k e.1 with hlt | heq | hgt
    · simp only [insertEntry,if_pos hlt,findEntry]
    · obtain ⟨k₀,w⟩ := e
      subst heq
      simp only [insertEntry,lt_irrefl,if_false,if_true,findEntry]
      by_cases h : k' = k <;> simp [h]
    · simp only [insertEntry,if_neg hgt.not_gt,if_neg hgt.ne',findEntry,ih]
      by_cases h : k' = k
      · simp [h,hgt.ne']
      · simp [h]

/-- Insertion changes exactly one key. -/
@[simp] theorem find?_insert (m : OrdMap κ β) (k k' : κ) (v : β) :
    (m.insert k v).find? k' = if k' = k then some v else m.find? k' :=
  findEntry_insertEntry k k' v m.entries

theorem findEntry_filter_ne (k k' : κ) (es : List (κ × β)) :
    findEntry k' (es.filter (fun e => e.1 ≠ k)) = if k' = k then none else findEntry k' es := by
  induction es with
  | nil => simp [findEntry]
  | cons e es ih =>
    by_cases he : e.1 = k
    · rw [List.filter_cons_of_neg (by simpa using he),ih]
      by_cases hk : k' = k
      · simp [hk]
      · simp [hk,findEntry,he]
    · rw [List.filter_cons_of_pos (by simpa using he)]
      simp only [findEntry,ih]
      by_cases hk : k' = k
      · subst hk
        simp [Ne.symm he]
      · simp [hk]

/-- Erasure changes exactly one key. -/
@[simp] theorem find?_erase (m : OrdMap κ β) (k k' : κ) :
    (m.erase k).find? k' = if k' = k then none else m.find? k' :=
  findEntry_filter_ne k k' m.entries

theorem findEntry_isSome {k : κ} {es : List (κ × β)} :
    (findEntry k es).isSome ↔ k ∈ es.map Prod.fst := by
  induction es with
  | nil => simp [findEntry]
  | cons e es ih =>
    by_cases h : k = e.1
    · simp [findEntry,h]
    · simpa [findEntry,h] using ih

theorem findEntry_eq_some {k : κ} {v : β} {es : List (κ × β)}
    (h : (es.map Prod.fst).Pairwise (· < ·)) : findEntry k es = some v ↔ (k,v) ∈ es := by
  induction es with
  | nil => simp [findEntry]
  | cons e es ih =>
    obtain ⟨he,hes⟩ := List.pairwise_cons.mp h
    by_cases hk : k = e.1
    · have hnew : (k,v) ∉ es := fun hmem =>
        lt_irrefl k (hk ▸ he k (List.mem_map_of_mem hmem))
      rw [findEntry,if_pos hk,Option.some_inj,List.mem_cons,or_iff_left hnew,Prod.ext_iff]
      exact ⟨fun hv => ⟨hk,hv.symm⟩,fun hv => hv.2.symm⟩
    · have hne : (k,v) ≠ e := fun heq => hk (congrArg Prod.fst heq)
      rw [findEntry,if_neg hk,ih hes,List.mem_cons,or_iff_right hne]

/-- The entries are what lookups find. -/
theorem find?_eq_some {m : OrdMap κ β} {k : κ} {v : β} : m.find? k = some v ↔ (k,v) ∈ m.entries :=
  findEntry_eq_some m.sorted.pairwise

theorem insertEntry_length (k : κ) (v : β) (es : List (κ × β))
    (hs : (es.map Prod.fst).Pairwise (· < ·)) :
    (insertEntry k v es).length = es.length + if (findEntry k es).isSome then 0 else 1 := by
  induction es with
  | nil => rfl
  | cons e es ih =>
    obtain ⟨he,hes⟩ := List.pairwise_cons.mp hs
    rcases lt_trichotomy k e.1 with hlt | heq | hgt
    · have hnone : ¬ (findEntry k (e :: es)).isSome := by
        rw [findEntry_isSome,List.map_cons,List.mem_cons]
        rintro (rfl | hk)
        · exact lt_irrefl _ hlt
        · exact lt_asymm hlt (he k hk)
      simp only [insertEntry,if_pos hlt,if_neg hnone,List.length_cons]
    · simp [insertEntry,findEntry,heq]
    · simp only [insertEntry,if_neg hgt.not_gt,if_neg hgt.ne',List.length_cons,ih hes,findEntry]
      omega

/-- The size grows by one when the key is new and is kept when it is overwritten. -/
theorem size_insert (m : OrdMap κ β) (k : κ) (v : β) :
    (m.insert k v).size = m.size + if (m.find? k).isSome then 0 else 1 :=
  insertEntry_length k v m.entries m.sorted.pairwise

/-! ### Values inserted in turn -/

section
variable {α : Type*} (f : α → κ) (g : α → β)

/-- The values of a list inserted in turn. -/
def insertAll (m : OrdMap κ β) (as : List α) : OrdMap κ β :=
  as.foldl (fun m a => m.insert (f a) (g a)) m

theorem insertAll_cons (m : OrdMap κ β) (a : α) (as : List α) :
    m.insertAll f g (a :: as) = (m.insert (f a) (g a)).insertAll f g as := rfl

theorem size_insertAll_le (m : OrdMap κ β) (as : List α) :
    (m.insertAll f g as).size ≤ m.size + as.length := by
  induction as generalizing m with
  | nil => exact le_rfl
  | cons a as ih =>
    have hrest := ih (m.insert (f a) (g a))
    have hone := m.size_insert (f a) (g a)
    rw [insertAll_cons,List.length_cons]
    split_ifs at hone <;> omega

/-- Nothing is overwritten exactly when the keys are new and different. -/
theorem size_insertAll_iff (m : OrdMap κ β) (as : List α) :
    (m.insertAll f g as).size = m.size + as.length ↔
      (as.map f).Nodup ∧ ∀ a ∈ as, m.find? (f a) = none := by
  induction as generalizing m with
  | nil => exact ⟨fun _ => ⟨List.nodup_nil,by simp⟩,fun _ => rfl⟩
  | cons a as ih =>
    have hle := size_insertAll_le f g (m.insert (f a) (g a)) as
    have hone := m.size_insert (f a) (g a)
    rw [insertAll_cons,List.length_cons,List.map_cons,List.nodup_cons,List.forall_mem_cons]
    cases hfind : m.find? (f a) with
    | some b =>
      rw [hfind,Option.isSome_some,if_pos rfl] at hone
      exact ⟨fun h => by omega,fun h => absurd h.2.1 (by simp)⟩
    | none =>
      rw [hfind,Option.isSome_none,if_neg (by decide)] at hone
      have hfresh : ∀ b, (m.insert (f a) (g a)).find? (f b) = none ↔
          f b ≠ f a ∧ m.find? (f b) = none := by
        intro b
        rw [find?_insert]
        split_ifs with hb
        · simp [hb]
        · simp [hb]
      have hsize : (insertAll f g (m.insert (f a) (g a)) as).size = m.size + (as.length + 1) ↔
          (insertAll f g (m.insert (f a) (g a)) as).size =
            (m.insert (f a) (g a)).size + as.length := by omega
      rw [hsize,ih]
      simp only [hfresh,List.mem_map,not_exists,not_and]
      constructor
      · exact fun h => ⟨⟨fun b hb => (h.2 b hb).1,h.1⟩,trivial,fun b hb => (h.2 b hb).2⟩
      · exact fun h => ⟨h.1.2,fun b hb => ⟨h.1.1 b hb,h.2.2 b hb⟩⟩

theorem find?_insertAll_of_notMem (m : OrdMap κ β) {as : List α} {k : κ} (h : k ∉ as.map f) :
    (m.insertAll f g as).find? k = m.find? k := by
  induction as generalizing m with
  | nil => rfl
  | cons a as ih =>
    rw [List.map_cons,List.mem_cons,not_or] at h
    rw [insertAll_cons,ih _ h.2,find?_insert,if_neg h.1]

/-- Under different keys every value is found. -/
theorem find?_insertAll (m : OrdMap κ β) {as : List α} (hnd : (as.map f).Nodup) {a : α}
    (ha : a ∈ as) : (m.insertAll f g as).find? (f a) = some (g a) := by
  induction as generalizing m with
  | nil => cases ha
  | cons b as ih =>
    obtain ⟨hb,hnd⟩ := List.nodup_cons.mp hnd
    rw [insertAll_cons]
    rcases List.mem_cons.mp ha with rfl | ha
    · rw [find?_insertAll_of_notMem f g _ hb,find?_insert,if_pos rfl]
    · exact ih _ hnd ha

end

end OrdMap
