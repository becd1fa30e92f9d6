import CcniServer.Lib.Bytes
import CcniServer.Lib.Lts

/-!
C's `snprintf`, called again and again on one buffer. Every call prints behind the lengths that
the calls before it have returned, and is passed the room that is left.
-/
namespace Printed

/-- A call: where it prints, the size it is passed and the formatted text. -/
structure Call where
  offset : ℤ
  size : ℕ
  text : List UInt8
  deriving DecidableEq

namespace Call

/-- As much of the text as leaves room for the zero behind it, and nothing for a size of zero. -/
def written (c : Call) : List UInt8 :=
  if c.size = 0 then [] else c.text.take (c.size - 1) ++ [0]

/-- What the call writes lies in a buffer of `cap` bytes. -/
def Within (cap : ℕ) (c : Call) : Prop :=
  c.written = [] ∨ (0 ≤ c.offset ∧ c.offset + c.written.length ≤ cap)

instance (cap : ℕ) (c : Call) : Decidable (c.Within cap) :=
  inferInstanceAs (Decidable (_ ∨ _))

/-- The call prints into the buffer and is passed the room behind its offset. -/
structure InBuffer (cap : ℕ) (c : Call) : Prop where
  nonneg : 0 ≤ c.offset
  lt : c.offset < cap
  size : (c.size : ℤ) = cap - c.offset
  within : c.Within cap

theorem length_written_le (c : Call) : c.written.length ≤ c.size := by
  unfold written
  split
  · exact Nat.zero_le _
  · rw [List.length_append,List.length_take,List.length_singleton]
    omega

end Call

/-- A signed number as an unsigned one of 64 bits. -/
def size_t (n : ℤ) : ℕ := (n % 2^64).toNat

theorem size_t_of_lt {n : ℤ} (h : 0 ≤ n) (hlt : n < 2^64) : (size_t n : ℤ) = n := by
  rw [size_t,Int.emod_eq_of_lt h hlt,Int.toNat_of_nonneg h]

/-- A buffer of `cap` bytes, the lengths that the calls have returned so far, and the calls. -/
structure Buffer (cap : ℕ) where
  mem : List UInt8
  length_mem : mem.length = cap
  offset : ℤ
  calls : List Call

variable {cap : ℕ}

namespace Buffer

/-- The next call, with this text. -/
def call (b : Buffer cap) (text : List UInt8) : Call :=
  ⟨b.offset,size_t (cap - b.offset),text⟩

theorem length_write (b : Buffer cap) {c : Call} (h : c.Within cap) :
    (Bytes.write b.mem c.offset.toNat c.written).length = cap := by
  rcases h with hnone | ⟨hpos,hle⟩
  · rw [hnone,Bytes.write,List.append_nil,List.length_nil,Nat.add_zero,List.take_append_drop]
    exact b.length_mem
  · rw [Bytes.length_write,b.length_mem]
    rw [b.length_mem]
    omega

end Buffer

/-- A call that writes outside the buffer is undefined: the run ends with the calls so far.
Every other call returns the length of the text, whether or not all of it was written. -/
def snprintf (b : Buffer cap) (text : List UInt8) : Except (List Call) (Buffer cap) :=
  if h : (b.call text).Within cap then
    .ok { mem := _, length_mem := b.length_write h, offset := b.offset + text.length,
          calls := b.calls ++ [b.call text] }
  else .error (b.calls ++ [b.call text])

/-- The calls of a run, the undefined one included. -/
def calls : Except (List Call) (Buffer cap) → List Call
  | .ok b => b.calls
  | .error cs => cs

theorem calls_snprintf (b : Buffer cap) (text : List UInt8) :
    calls (snprintf b text) = b.calls ++ [b.call text] := by
  unfold snprintf
  split <;> rfl

/-- The first call of a run stays in its calls, whatever the rest of the run does. -/
theorem calls_exec_cons {ts : List (List UInt8)}
    (hts : ∀ b : Buffer cap, b.calls <+: calls (Lts.exec snprintf b ts)) (b : Buffer cap)
    (t : List UInt8) : b.calls ++ [b.call t] <+: calls (Lts.exec snprintf b (t :: ts)) := by
  rw [← calls_snprintf,Lts.exec]
  cases snprintf b t with
  | error cs => exact List.prefix_rfl
  | ok b' => exact hts b'

theorem calls_exec (ts : List (List UInt8)) (b : Buffer cap) :
    b.calls <+: calls (Lts.exec snprintf b ts) := by
  induction ts generalizing b with
  | nil => exact List.prefix_rfl
  | cons t ts ih => exact (List.prefix_append _ _).trans (calls_exec_cons ih b t)

/-- A call whose offset lies in the buffer is passed the room that is left, and stays in it. -/
theorem call_inBuffer (hcap : cap < 2^64) {b : Buffer cap} (hpos : 0 ≤ b.offset)
    (hlt : b.offset < cap) (text : List UInt8) : (b.call text).InBuffer cap := by
  have hsize : ((b.call text).size : ℤ) = cap - b.offset :=
    size_t_of_lt (by omega) (by omega)
  have hlen := (b.call text).length_written_le
  refine ⟨hpos,hlt,hsize,.inr ⟨hpos,?_⟩⟩
  change b.offset + _ ≤ _
  omega

theorem snprintf_ok (hcap : cap < 2^64) {b : Buffer cap} (hpos : 0 ≤ b.offset)
    (hlt : b.offset < cap) (text : List UInt8) :
    ∃ b', snprintf b text = .ok b' ∧ b'.offset = b.offset + text.length ∧
      b'.mem = Bytes.write b.mem b.offset.toNat (b.call text).written ∧
      b'.calls = b.calls ++ [b.call text] :=
  ⟨_,dif_pos (call_inBuffer hcap hpos hlt text).within,rfl,rfl,rfl⟩

theorem offset_lt_of_inBuffer {b : Buffer cap} {t : List UInt8} {ts : List (List UInt8)}
    (h : ∀ c ∈ calls (Lts.exec snprintf b (t :: ts)), c.InBuffer cap) : b.offset < cap := by
  have hmem : b.call t ∈ b.calls ++ [b.call t] := by simp
  exact (h _ ((calls_exec_cons (calls_exec ts) b t).mem hmem)).lt

/-- The calls that print one text after the other stay in the buffer exactly when the last of
them still starts in it. The induction is on the texts before the last. -/
theorem inBuffer_iff (hcap : cap < 2^64) {b : Buffer cap} (hpos : 0 ≤ b.offset)
    (hb : ∀ c ∈ b.calls, c.InBuffer cap) (ts : List (List UInt8)) (last : List UInt8) :
    (∀ c ∈ calls (Lts.exec snprintf b (ts ++ [last])), c.InBuffer cap) ↔
      b.offset + ts.flatten.length < cap := by
  have hsnoc : ∀ {b b' : Buffer cap} {t : List UInt8}, 0 ≤ b.offset → b.offset < cap →
      (∀ c ∈ b.calls, c.InBuffer cap) → b'.calls = b.calls ++ [b.call t] →
      ∀ c ∈ b'.calls, c.InBuffer cap := by
    intro b b' t hpos hlt hb hcalls c hc
    rw [hcalls,List.mem_append,List.mem_singleton] at hc
    rcases hc with hc | rfl
    · exact hb c hc
    · exact call_inBuffer hcap hpos hlt t
  induction ts generalizing b with
  | nil =>
    rw [List.nil_append,List.flatten_nil,List.length_nil,Nat.cast_zero,add_zero]
    constructor
    · exact offset_lt_of_inBuffer
    · intro hlt
      obtain ⟨b',hprint,_,_,hcalls⟩ := snprintf_ok hcap hpos hlt last
      rw [Lts.exec_cons_ok hprint]
      exact hsnoc hpos hlt hb hcalls
  | cons t ts ih =>
    rw [List.cons_append,List.flatten_cons,List.length_append]
    by_cases hlt : b.offset < cap
    · obtain ⟨b',hprint,hoffset,_,hcalls⟩ := snprintf_ok hcap hpos hlt t
      rw [Lts.exec_cons_ok hprint]
      refine (ih (by omega) (hsnoc hpos hlt hb hcalls)).trans ?_
      omega
    · constructor
      · exact fun h => absurd (offset_lt_of_inBuffer h) hlt
      · omega

/-- A call behind the end is passed a size that wraps around, and writes where it stands. -/
theorem snprintf_error (hcap : cap < 2^64) {b : Buffer cap} (hlt : cap < b.offset)
    (hwrap : b.offset < 2^64) (text : List UInt8) :
    snprintf b text = .error (b.calls ++ [b.call text]) := by
  have hsize : (b.call text).size ≠ 0 := by
    change (((cap : ℤ) - b.offset) % 2^64).toNat ≠ 0
    omega
  refine dif_neg fun h => ?_
  rcases h with hnone | ⟨_,hle⟩
  · rw [Call.written,if_neg hsize] at hnone
    exact absurd hnone (List.append_ne_nil_of_right_ne_nil _ (List.cons_ne_nil _ _))
  · change b.offset + _ ≤ _ at hle
    omega

/-- The offset counts the texts, whether or not they were written whole. -/
theorem exec_offset {b b' : Buffer cap} {ts : List (List UInt8)}
    (h : Lts.exec snprintf b ts = .ok b') : b'.offset = b.offset + ts.flatten.length := by
  induction ts generalizing b with
  | nil =>
    cases h
    simp
  | cons t ts ih =>
    cases hprint : snprintf b t with
    | error cs => simp [Lts.exec,hprint] at h
    | ok u =>
      rw [Lts.exec_cons_ok hprint] at h
      have hoffset : u.offset = b.offset + t.length := by
        unfold snprintf at hprint
        split at hprint
        · cases hprint
          rfl
        · cases hprint
      rw [ih h,hoffset,List.flatten_cons,List.length_append,Nat.cast_add,add_assoc]

/-! ### What the buffer holds -/

/-- The texts printed so far stand at the front of the buffer. -/
structure Buffer.Front (b : Buffer cap) (text : List UInt8) : Prop where
  offset : b.offset = text.length
  front : text <+: b.mem

/-- A text that fits is printed whole, with a zero behind it. -/
theorem snprintf_front (hcap : cap < 2^64) {b : Buffer cap} {text : List UInt8}
    (h : b.Front text) {t : List UInt8} (hfit : text.length + t.length < cap) :
    ∃ b', snprintf b t = .ok b' ∧ b'.Front (text ++ t) ∧ text ++ t ++ [0] <+: b'.mem := by
  have hoffset := h.offset
  obtain ⟨b',hprint,hnext,hmem,_⟩ := @snprintf_ok _ hcap b (by omega) (by omega) t
  have hsize : ((b.call t).size : ℤ) = cap - b.offset :=
    (call_inBuffer hcap (by omega) (by omega) t).size
  have hwritten : (b.call t).written = t ++ [0] := by
    rw [Call.written,if_neg (by omega),List.take_of_length_le]
    · rfl
    · change t.length ≤ _
      omega
  have hfront : b.mem.take text.length = text := (List.prefix_iff_eq_take.mp h.front).symm
  have hzero : text ++ t ++ [0] <+: b'.mem := by
    rw [hmem,hwritten,Bytes.write,hoffset,Int.toNat_natCast,hfront,← List.append_assoc]
    exact List.prefix_append _ _
  refine ⟨b',hprint,⟨?_,(List.prefix_append _ _).trans hzero⟩,hzero⟩
  rw [hnext,hoffset,List.length_append]
  omega

theorem exec_front (hcap : cap < 2^64) {b : Buffer cap} {text : List UInt8}
    (h : b.Front text) {ts : List (List UInt8)} (hfit : text.length + ts.flatten.length < cap) :
    ∃ b', Lts.exec snprintf b ts = .ok b' ∧ b'.Front (text ++ ts.flatten) := by
  induction ts generalizing b text with
  | nil =>
    rw [List.flatten_nil,List.append_nil]
    exact ⟨b,rfl,h⟩
  | cons t ts ih =>
    rw [List.flatten_cons,List.length_append] at hfit
    obtain ⟨b',hprint,hfront,_⟩ := @snprintf_front _ hcap b text h t (by omega)
    rw [Lts.exec_cons_ok hprint,List.flatten_cons,← List.append_assoc]
    exact ih hfront (by rw [List.length_append]; omega)

end Printed
