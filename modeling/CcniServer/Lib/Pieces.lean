import Mathlib.Data.List.Infix

/-! A text that goes out piece by piece, in order and with no item lost or doubled. -/
namespace Pieces
variable {α : Type*} {before text piece out : List α} {k m : ℕ}

/-- Behind `before`, the first `k` items of `text` are out. -/
structure Out (before text : List α) (k : ℕ) (out : List α) : Prop where
  le : k ≤ text.length
  eq : out = before ++ text.take k

theorem Out.start (before text : List α) : Out before text 0 before := by
  refine ⟨Nat.zero_le _,?_⟩
  rw [List.take_zero,List.append_nil]

/-- Some more of a piece that continues the text. -/
theorem Out.more (h : Out before text k out) (hpiece : piece <+: text.drop k)
    (hm : m ≤ piece.length) : Out before text (k + m) (out ++ piece.take m) := by
  have hle := h.le
  have hlen : piece.length ≤ text.length - k := by
    have := hpiece.length_le
    rwa [List.length_drop] at this
  have htake : piece.take m = (text.drop k).take m := by
    obtain ⟨rest,hrest⟩ := hpiece
    rw [← hrest,List.take_append_of_le_length hm]
  refine ⟨by omega,?_⟩
  rw [h.eq,htake,List.append_assoc,List.take_add]

theorem Out.whole (h : Out before text k out) (hk : text.length ≤ k) : out = before ++ text := by
  rw [h.eq,List.take_of_length_le hk]

/-- What was out in between. -/
theorem Out.between (h : Out before text k out) {mid : List α} (hmid : before <+: mid)
    (hend : mid <+: out) : ∃ k, Out before text k mid := by
  obtain ⟨front,rfl⟩ := hmid
  have hfront : front <+: text := by
    rw [h.eq] at hend
    exact ((List.prefix_append_right_inj before).mp hend).trans (List.take_prefix k text)
  refine ⟨front.length,hfront.length_le,?_⟩
  rw [← List.prefix_iff_eq_take.mp hfront]

theorem Out.of_take (h : out = before ++ text.take m) :
    Out before text (min m text.length) out := by
  refine ⟨Nat.min_le_right _ _,?_⟩
  rw [h,List.take_eq_take_min]

end Pieces
