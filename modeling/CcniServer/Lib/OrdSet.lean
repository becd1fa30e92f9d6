import Mathlib.Data.List.Sort

/-! Finite sets stored as strictly increasing lists. Iteration follows the order of the
elements, and every operation is computable. -/

/-- A finite set as the strictly increasing list of its elements. -/
structure OrdSet (α : Type*) [LinearOrder α] where
  toList : List α
  sorted : toList.SortedLT

namespace OrdSet
variable {α : Type*} [LinearOrder α]

instance : Membership α (OrdSet α) := ⟨fun s a => a ∈ s.toList⟩

instance (a : α) (s : OrdSet α) : Decidable (a ∈ s) :=
  inferInstanceAs (Decidable (a ∈ s.toList))

theorem mem_toList {a : α} {s : OrdSet α} : a ∈ s.toList ↔ a ∈ s := Iff.rfl

theorem nil_sorted : ([] : List α).SortedLT := List.Pairwise.nil.sortedLT

def empty : OrdSet α := ⟨[],nil_sorted⟩

def size (s : OrdSet α) : ℕ := s.toList.length

theorem orderedInsert_sorted (a : α) (l : List α) (hl : l.SortedLT) (ha : a ∉ l) :
    (l.orderedInsert (· ≤ ·) a).SortedLT := by
  have hle : (l.orderedInsert (· ≤ ·) a).Pairwise (· ≤ ·) :=
    List.Pairwise.orderedInsert a l hl.sortedLE.pairwise
  have hnd : (l.orderedInsert (· ≤ ·) a).Nodup :=
    (List.perm_orderedInsert (· ≤ ·) a l).nodup_iff.mpr (List.nodup_cons.mpr ⟨ha,hl.nodup⟩)
  apply List.Pairwise.sortedLT
  exact (hle.and hnd).imp (fun h => lt_of_le_of_ne h.1 h.2)

/-- Insertion keeps the set as it is when the element is present. -/
def insert (s : OrdSet α) (a : α) : OrdSet α :=
  if h : a ∈ s.toList then s
  else ⟨s.toList.orderedInsert (· ≤ ·) a,orderedInsert_sorted a s.toList s.sorted h⟩

def erase (s : OrdSet α) (a : α) : OrdSet α :=
  ⟨s.toList.erase a,(s.sorted.pairwise.sublist List.erase_sublist).sortedLT⟩

theorem nodup (s : OrdSet α) : s.toList.Nodup := s.sorted.nodup

@[simp] theorem not_mem_empty (a : α) : a ∉ (empty : OrdSet α) := List.not_mem_nil

@[simp] theorem size_empty : (empty : OrdSet α).size = 0 := rfl

@[simp] theorem mem_insert {a b : α} {s : OrdSet α} : a ∈ s.insert b ↔ a = b ∨ a ∈ s := by
  change a ∈ (s.insert b).toList ↔ a = b ∨ a ∈ s.toList
  unfold insert
  split_ifs with h
  · exact ⟨Or.inr,fun hab => hab.elim (fun e => e ▸ h) id⟩
  · exact List.mem_orderedInsert (· ≤ ·)

@[simp] theorem mem_erase {a b : α} {s : OrdSet α} : a ∈ s.erase b ↔ a ≠ b ∧ a ∈ s :=
  s.nodup.mem_erase_iff

theorem size_insert {a : α} {s : OrdSet α} (h : a ∉ s) : (s.insert a).size = s.size + 1 := by
  have h' : a ∉ s.toList := h
  simp [size,insert,h',List.orderedInsert_length]

theorem size_insert_le (a : α) (s : OrdSet α) : (s.insert a).size ≤ s.size + 1 := by
  by_cases h : a ∈ s.toList
  · simp [insert,h,size]
  · exact (size_insert h).le

theorem size_erase_le (a : α) (s : OrdSet α) : (s.erase a).size ≤ s.size :=
  List.erase_sublist.length_le

end OrdSet
