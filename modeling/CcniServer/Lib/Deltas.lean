import Mathlib.Data.Finset.Erase
import Mathlib.Data.Finset.Insert

/-! A finite set known through a list of its elements and the changes made to it. A reader takes
the list at some time and applies the changes it is told of, those before the list or not. -/

/-- A change of a set. -/
inductive Delta (α : Type*)
  | added (a : α)
  | removed (a : α)
  deriving DecidableEq

namespace Delta
variable {α : Type*} [DecidableEq α]

def apply (S : Finset α) : Delta α → Finset α
  | added a => insert a S
  | removed a => S.erase a

def replay (S : Finset α) (ds : List (Delta α)) : Finset α := ds.foldl apply S

theorem replay_snoc (S : Finset α) (ds : List (Delta α)) (d : Delta α) :
    replay S (ds ++ [d]) = apply (replay S ds) d := by simp [replay]

/-- Whether an element is in the set after the changes depends on no other element. -/
theorem mem_replay_congr {S T : Finset α} {a : α} (h : a ∈ S ↔ a ∈ T) (ds : List (Delta α)) :
    a ∈ replay S ds ↔ a ∈ replay T ds := by
  induction ds generalizing S T with
  | nil => exact h
  | cons d ds ih =>
    apply ih
    cases d <;> simp [apply,h]

theorem mem_replay_of_mem {S : Finset α} {a : α} {ds : List (Delta α)} (h : a ∈ S)
    (hds : removed a ∉ ds) : a ∈ replay S ds := by
  induction ds generalizing S with
  | nil => exact h
  | cons d ds ih =>
    rw [List.mem_cons,not_or] at hds
    apply ih _ hds.2
    cases d with
    | added b => exact Finset.mem_insert_of_mem h
    | removed b =>
      refine Finset.mem_erase.mpr ⟨fun hab => ?_,h⟩
      rw [hab] at hds
      exact hds.1 rfl

/-- The changes, from any of them on, are in the set already. -/
def Settled (S : Finset α) (ds : List (Delta α)) : Prop := ∀ k, replay S (ds.drop k) = S

theorem Settled.snoc {S : Finset α} {ds : List (Delta α)} (h : Settled S ds) (d : Delta α) :
    Settled (apply S d) (ds ++ [d]) := by
  intro k
  by_cases hk : k ≤ ds.length
  · rw [List.drop_append_of_le_length hk,replay_snoc]
    ext a
    have hcongr : (a ∈ apply S d ↔ a ∈ S) →
        (a ∈ replay (apply S d) (ds.drop k) ↔ a ∈ S) := by
      intro ha
      rw [mem_replay_congr ha,h k]
    cases d with
    | added b =>
      by_cases hab : a = b
      · simp [apply,hab]
      · simpa [apply,hab] using hcongr (by simp [apply,hab])
    | removed b =>
      by_cases hab : a = b
      · simp [apply,hab]
      · simpa [apply,hab] using hcongr (by simp [apply,hab])
  · rw [List.drop_of_length_le (by simp; omega)]
    rfl

/-- An element added in silence, which no change has removed. -/
theorem Settled.silent {S : Finset α} {ds : List (Delta α)} (h : Settled S ds) {a : α}
    (ha : removed a ∉ ds) : Settled (insert a S) ds := by
  intro k
  ext b
  by_cases hab : b = a
  · rw [hab]
    simp [mem_replay_of_mem (Finset.mem_insert_self a S)
      fun hmem => ha (List.mem_of_mem_drop hmem)]
  · have hb : b ∈ insert a S ↔ b ∈ S := by simp [hab]
    rw [mem_replay_congr hb,h k,hb]

/-- An element that has been removed and is not in the set is in no replay. -/
theorem Settled.not_mem_replay {S T : Finset α} {ds : List (Delta α)} (h : Settled S ds) {a : α}
    (ha : a ∉ S) (hds : removed a ∈ ds) : a ∉ replay T ds := by
  obtain ⟨pre,post,rfl⟩ := List.append_of_mem hds
  have hpost := h (pre.length + 1)
  rw [List.append_cons,List.drop_left' (by simp)] at hpost
  have hsplit : replay T (pre ++ removed a :: post) = replay ((replay T pre).erase a) post := by
    simp [replay,apply]
  rw [hsplit,@mem_replay_congr _ _ _ S _ (by simp [ha]),hpost]
  exact ha

/-- What a reader has been told, and the list it has taken with the number of changes it had
been told by then. -/
structure Reader (α : Type*) where
  heard : List (Delta α)
  snap : Option (Finset α × ℕ)

namespace Reader

def new : Reader α := ⟨[],none⟩

def hear (r : Reader α) (d : Delta α) : Reader α := { r with heard := r.heard ++ [d] }

def list (r : Reader α) (S : Finset α) : Reader α := { r with snap := some (S,r.heard.length) }

/-- The list, with the changes from any one before it on, is the set. -/
def Knows (S : Finset α) (r : Reader α) : Prop :=
  ∀ T n, r.snap = some (T,n) → ∀ k ≤ n, replay T (r.heard.drop k) = S

/-- The reader knows the set, and will know it from a list taken now. -/
structure Follows (S : Finset α) (r : Reader α) : Prop where
  settled : Settled S r.heard
  snapped : ∀ T n, r.snap = some (T,n) → n ≤ r.heard.length
  knows : r.Knows S

theorem follows_new (S : Finset α) : (new : Reader α).Follows S := by
  refine ⟨fun k => ?_,nofun,nofun⟩
  simp [new,replay]

namespace Follows
variable {S : Finset α} {r : Reader α}

theorem hear (h : r.Follows S) (d : Delta α) : (r.hear d).Follows (apply S d) := by
  refine ⟨h.settled.snoc d,fun T n hsnap => ?_,fun T n hsnap k hk => ?_⟩
  · exact (h.snapped T n hsnap).trans (by simp [Reader.hear])
  · have hlen := h.snapped T n hsnap
    rw [Reader.hear,List.drop_append_of_le_length (by omega),replay_snoc,
      h.knows T n hsnap k hk]

theorem silent (h : r.Follows S) {a : α} (hsnap : r.snap = none)
    (ha : Delta.removed a ∉ r.heard) : r.Follows (insert a S) := by
  refine ⟨h.settled.silent ha,h.snapped,fun T n hT => ?_⟩
  rw [hsnap] at hT
  cases hT

theorem list (h : r.Follows S) : (r.list S).Follows S := by
  refine ⟨h.settled,fun T n hsnap => ?_,fun T n hsnap k hk => ?_⟩
  · cases hsnap
    exact le_rfl
  · cases hsnap
    exact h.settled k

end Follows
end Reader
end Delta
