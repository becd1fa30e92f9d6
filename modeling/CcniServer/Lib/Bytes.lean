import Mathlib.Data.List.Basic
import Mathlib.Tactic.Ring

/-! Little-endian numbers and memory as lists of bytes. -/
namespace Bytes

/-- The `n` low bytes of a number, the least significant first. -/
def le : ℕ → ℕ → List UInt8
  | 0, _ => []
  | n + 1, x => UInt8.ofNat x :: le n (x/256)

/-- The number that little-endian bytes stand for. -/
def ofLe : List UInt8 → ℕ
  | [] => 0
  | b :: bs => b.toNat + 256*ofLe bs

@[simp] theorem length_le (n x : ℕ) : (le n x).length = n := by
  induction n generalizing x with
  | zero => rfl
  | succ n ih => rw [le,List.length_cons,ih]

theorem ofLe_le (n x : ℕ) : ofLe (le n x) = x % 256^n := by
  induction n generalizing x with
  | zero => simp [le,ofLe,Nat.mod_one]
  | succ n ih =>
    have hb : (UInt8.ofNat x).toNat = x % 256 := by simp
    rw [le,ofLe,ih,hb,pow_succ,Nat.mul_comm (256^n) 256,Nat.mod_mul]

theorem le_inj {n x y : ℕ} (h : le n x = le n y) : x % 256^n = y % 256^n := by
  rw [← ofLe_le,h,ofLe_le]

theorem ofLe_lt (bs : List UInt8) : ofLe bs < 256^bs.length := by
  induction bs with
  | nil => simp [ofLe]
  | cons b bs ih =>
    have hb : b.toNat < 256 := b.toNat_lt
    rw [ofLe,List.length_cons,pow_succ]
    omega

/-- The bytes of a number are determined by it. The induction is on the first list. -/
theorem ofLe_inj {bs cs : List UInt8} (hlen : bs.length = cs.length) (h : ofLe bs = ofLe cs) :
    bs = cs := by
  induction bs generalizing cs with
  | nil => exact (List.length_eq_zero_iff.mp hlen.symm).symm
  | cons b bs ih =>
    cases cs with
    | nil => cases hlen
    | cons c cs =>
      have hb : b.toNat < 256 := b.toNat_lt
      have hc : c.toNat < 256 := c.toNat_lt
      simp only [ofLe] at h
      have hhead : b = c := UInt8.toNat_inj.mp (by omega)
      have htail : bs = cs := ih (Nat.succ.inj hlen) (by omega)
      rw [hhead,htail]

/-- The number in the `n` bytes from the position `i` on. -/
def fieldAt (bs : List UInt8) (i n : ℕ) : ℕ := ofLe ((bs.drop i).take n)

theorem fieldAt_le (n x : ℕ) (rest : List UInt8) : fieldAt (le n x ++ rest) 0 n = x % 256^n := by
  have htake : (le n x ++ rest).take n = le n x := by
    rw [List.take_append_of_le_length (length_le n x).ge,List.take_of_length_le (length_le n x).le]
  rw [fieldAt,List.drop_zero,htake,ofLe_le]

theorem fieldAt_skip (k x i n : ℕ) (rest : List UInt8) :
    fieldAt (le k x ++ rest) (k + i) n = fieldAt rest i n := by
  have hdrop : (le k x ++ rest).drop (k + i) = rest.drop i := by
    rw [← List.drop_drop,List.drop_append_of_le_length (length_le k x).ge,
      List.drop_of_length_le (length_le k x).le,List.nil_append]
  rw [fieldAt,hdrop,fieldAt]

/-- Bytes written over a piece of memory from a position on. -/
def write (mem : List UInt8) (pos : ℕ) (bs : List UInt8) : List UInt8 :=
  mem.take pos ++ bs ++ mem.drop (pos + bs.length)

theorem length_write {mem bs : List UInt8} {pos : ℕ} (h : pos + bs.length ≤ mem.length) :
    (write mem pos bs).length = mem.length := by
  simp only [write,List.length_append,List.length_take,List.length_drop]
  omega

/-- What was written can be read back, piece by piece. -/
theorem fieldAt_write {mem bs : List UInt8} {pos : ℕ} (h : pos ≤ mem.length) {i n : ℕ}
    (hin : i + n ≤ bs.length) : fieldAt (write mem pos bs) (pos + i) n = fieldAt bs i n := by
  have hpos : (mem.take pos).length = pos := List.length_take_of_le h
  have hdrop : (write mem pos bs).drop (pos + i) = bs.drop i ++ mem.drop (pos + bs.length) := by
    rw [write,List.append_assoc,← List.drop_drop,List.drop_left' hpos,
      List.drop_append_of_le_length (by omega)]
  have htake : n ≤ (bs.drop i).length := by
    rw [List.length_drop]
    omega
  rw [fieldAt,hdrop,List.take_append_of_le_length htake,fieldAt]

theorem write_end (mem bs : List UInt8) : write mem mem.length bs = mem ++ bs := by
  simp [write]

/-- What was written so far is the front of the memory. -/
theorem take_write {mem front bs : List UInt8} {pos : ℕ}
    (hfront : mem.take pos = front) (hlen : front.length = pos) :
    (write mem pos bs).take (pos + bs.length) = front ++ bs := by
  have h : (front ++ bs).length = pos + bs.length := by rw [List.length_append,hlen]
  rw [write,hfront,← h,List.take_left]

end Bytes
