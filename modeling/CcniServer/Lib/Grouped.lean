import CcniServer.Lib.OrdMap
import Mathlib.Data.Multiset.Basic
import Mathlib.Algebra.Order.Group.Multiset
import Mathlib.Tactic.Abel

/-! Values grouped by a key: a map from keys to lists stands for a multiset of pairs. -/
namespace OrdMap
variable {κ β ι : Type*}

/-- The pairs of one group. -/
def group (k : κ) (bs : List β) : Multiset (κ × β) := (bs.map (Prod.mk k) : List (κ × β))

/-- The pairs of all groups, in the order of an iteration over the map and each list. -/
def pairsOf (es : List (κ × List β)) : List (κ × β) := es.flatMap (fun e => e.2.map (Prod.mk e.1))

theorem pairsOf_cons (e : κ × List β) (es : List (κ × List β)) :
    (pairsOf (e :: es) : Multiset (κ × β)) = group e.1 e.2 + pairsOf es := rfl

theorem group_append (k : κ) (bs cs : List β) : group k (bs ++ cs) = group k bs + group k cs := by
  simp only [group,List.map_append,Multiset.coe_add]

variable [LinearOrder κ]

def pairs (m : OrdMap κ (List β)) : Multiset (κ × β) := (pairsOf m.entries : List (κ × β))

/-- The value goes to the end of its key's group. -/
def push (m : OrdMap κ (List β)) (k : κ) (b : β) : OrdMap κ (List β) :=
  m.insert k ((m.find? k).getD [] ++ [b])

@[simp] theorem pairs_empty : (empty : OrdMap κ (List β)).pairs = 0 := rfl

/-- A group that is written takes the place of the one that was there. -/
theorem pairsOf_insertEntry (k : κ) (bs : List β) {es : List (κ × List β)}
    (hs : (es.map Prod.fst).Pairwise (· < ·)) :
    (pairsOf (insertEntry k bs es) : Multiset (κ × β)) + group k ((findEntry k es).getD []) =
      pairsOf es + group k bs := by
  induction es with
  | nil => simp [insertEntry,findEntry,pairsOf,group]
  | cons e es ih =>
    obtain ⟨he,hes⟩ := List.pairwise_cons.mp hs
    rcases lt_trichotomy k e.1 with hlt | heq | hgt
    · have hnone : findEntry k (e :: es) = none := by
        rw [← Option.not_isSome_iff_eq_none,findEntry_isSome,List.map_cons,List.mem_cons]
        rintro (rfl | hk)
        · exact lt_irrefl _ hlt
        · exact lt_asymm hlt (he k hk)
      rw [hnone,insertEntry,if_pos hlt,pairsOf_cons,Option.getD_none]
      change group k bs + _ + 0 = _
      rw [add_zero,add_comm]
    · rw [insertEntry,if_neg heq.not_lt,if_pos heq,findEntry,if_pos heq,Option.getD_some,
        pairsOf_cons,pairsOf_cons,← heq]
      abel
    · rw [insertEntry,if_neg hgt.not_gt,if_neg hgt.ne',findEntry,if_neg hgt.ne',pairsOf_cons,
        pairsOf_cons,add_assoc,ih hes,add_assoc]

/-- A push adds one pair. -/
theorem pairs_push (m : OrdMap κ (List β)) (k : κ) (b : β) :
    (m.push k b).pairs = m.pairs + {(k,b)} := by
  have h := pairsOf_insertEntry k ((m.find? k).getD [] ++ [b]) m.sorted.pairwise
  rw [group_append,add_left_comm] at h
  have hcomm := add_comm (m.push k b).pairs (group k ((m.find? k).getD []))
  exact add_left_cancel (hcomm.symm.trans h)

/-- Pushes add their pairs, each as often as it is pushed. -/
theorem pairs_foldl_push (m : OrdMap κ (List β)) (f : ι → κ × β) (is : List ι) :
    (is.foldl (fun m i => m.push (f i).1 (f i).2) m).pairs = m.pairs + (is.map f : List (κ × β)) := by
  induction is generalizing m with
  | nil => exact (add_zero _).symm
  | cons i is ih =>
    rw [List.foldl_cons,ih,pairs_push,add_assoc]
    rfl

end OrdMap
