import Mathlib.Data.Int.Basic
import Mathlib.Data.List.TakeWhile
import Mathlib.Tactic.NormNum

/-! The `%d` conversion of the C library's `sscanf`: leading white space, an optional sign and
a run of decimal digits, read into a 64-bit integer that saturates and is then narrowed to 32
bits. -/
namespace Scan

def isSpace (c : Char) : Bool := c.toNat = 32 || (9 ≤ c.toNat && c.toNat ≤ 13)

def digitsValue (ds : List Char) : ℕ := ds.foldl (fun n c => 10*n + (c.toNat - 48)) 0

/-- The magnitude at the head of the text, or nothing where no digit stands. -/
def magnitude (cs : List Char) : Option ℕ :=
  match cs.takeWhile Char.isDigit with
  | [] => none
  | ds => some (digitsValue ds)

def signed (cs : List Char) : Option ℤ :=
  match cs.dropWhile isSpace with
  | '-' :: rest => (magnitude rest).map (fun n => -(n : ℤ))
  | '+' :: rest => (magnitude rest).map (fun n => (n : ℤ))
  | rest => (magnitude rest).map (fun n => (n : ℤ))

/-- A `long` read by `strtol`: values outside its range saturate. -/
def toLong (n : ℤ) : ℤ := max (-2^63) (min (2^63 - 1) n)

/-- Narrowing to a 32-bit `int`. -/
def toInt (n : ℤ) : ℤ := n.bmod (2^32)

/-- The value `sscanf(s, "%d", &v)` stores, if it stores one. -/
def scanInt (s : String) : Option ℤ := (signed s.toList).map (fun n => toInt (toLong n))

/-- Conversion of an `int` to `uint32_t`. -/
def toUInt32 (n : ℤ) : ℕ := (n % 2^32).toNat

theorem toInt_range (n : ℤ) : -2^31 ≤ toInt n ∧ toInt n < 2^31 := by
  have hlo := Int.le_bmod (x := n) (m := 2^32) (by norm_num)
  have hhi := Int.bmod_lt (x := n) (m := 2^32) (by norm_num)
  unfold toInt
  norm_num at hlo hhi ⊢
  exact ⟨hlo,hhi⟩

/-- Every stored value is an `int`. -/
theorem scanInt_range {s : String} {n : ℤ} (h : scanInt s = some n) : -2^31 ≤ n ∧ n < 2^31 := by
  obtain ⟨m,-,rfl⟩ := Option.map_eq_some_iff.mp h
  exact toInt_range _

/-- An `int` whose unsigned reading is small was not negative. -/
theorem toUInt32_of_range {n : ℤ} (hn : -2^31 ≤ n ∧ n < 2^31) (h : toUInt32 n < 2^31) :
    (toUInt32 n : ℤ) = n := by
  unfold toUInt32 at h ⊢
  omega

theorem toUInt32_natCast {k : ℕ} (hk : k < 2^32) : toUInt32 (k : ℤ) = k := by
  unfold toUInt32
  omega

/-! ### Digits -/

theorem magnitude_of_isDigit {ds : List Char} (hne : ds ≠ []) (hds : ∀ c ∈ ds, c.isDigit = true) :
    magnitude ds = some (digitsValue ds) := by
  unfold magnitude
  rw [List.takeWhile_eq_self_iff.mpr hds]
  cases ds with
  | nil => exact absurd rfl hne
  | cons d ds => rfl

/-- A digit is no space and no sign. -/
theorem isSpace_of_isDigit {c : Char} (h : c.isDigit = true) :
    isSpace c = false ∧ c ≠ '-' ∧ c ≠ '+' := by
  have hrange : 48 ≤ c.toNat ∧ c.toNat ≤ 57 := by
    simpa [Char.isDigit,Char.le_def,UInt32.le_iff_toNat_le] using h
  refine ⟨?_,?_,?_⟩
  · simp only [isSpace,Bool.or_eq_false_iff,Bool.and_eq_false_iff,decide_eq_false_iff_not]
    omega
  · intro heq
    simp [heq] at hrange
  · intro heq
    simp [heq] at hrange

theorem signed_of_isDigit {ds : List Char} (hne : ds ≠ []) (hds : ∀ c ∈ ds, c.isDigit = true) :
    signed ds = some (digitsValue ds : ℤ) := by
  have hmagnitude := magnitude_of_isDigit hne hds
  cases ds with
  | nil => exact absurd rfl hne
  | cons d ds =>
    obtain ⟨hspace,hminus,hplus⟩ := isSpace_of_isDigit (hds d List.mem_cons_self)
    unfold signed
    rw [List.dropWhile_cons_of_neg (by simp [hspace])]
    split
    · next heq => exact absurd (List.cons.inj heq).1 hminus
    · next heq => exact absurd (List.cons.inj heq).1 hplus
    · rw [hmagnitude]
      rfl

theorem toInt_toLong {i : ℤ} (h : -2^31 ≤ i ∧ i < 2^31) : toInt (toLong i) = i := by
  have hlong : toLong i = i := by
    unfold toLong
    omega
  rw [hlong,toInt]
  apply Int.bmod_eq_of_le <;> omega

theorem scanInt_of_isDigit {ds : List Char} (hne : ds ≠ []) (hds : ∀ c ∈ ds, c.isDigit = true)
    (hvalue : digitsValue ds < 2^31) :
    scanInt (String.ofList ds) = some (digitsValue ds : ℤ) := by
  rw [scanInt,String.toList_ofList,signed_of_isDigit hne hds,Option.map_some,
    toInt_toLong ⟨by omega,by omega⟩]

/-! ### What `%d` prints is read again -/

theorem digitsValue_toDigits (n : ℕ) : digitsValue (Nat.toDigits 10 n) = n :=
  Nat.ofDigitChars_ten_toDigits

theorem isDigit_of_mem {n : ℕ} {c : Char} (h : c ∈ Nat.toDigits 10 n) : c.isDigit = true :=
  Nat.isDigit_of_mem_toDigits (by norm_num) le_rfl h

theorem magnitude_toDigits (n : ℕ) : magnitude (Nat.toDigits 10 n) = some n := by
  rw [magnitude_of_isDigit Nat.toDigits_ne_nil (fun _ => isDigit_of_mem),digitsValue_toDigits]

theorem signed_toDigits (n : ℕ) : signed (Nat.toDigits 10 n) = some (n : ℤ) := by
  rw [signed_of_isDigit Nat.toDigits_ne_nil (fun _ => isDigit_of_mem),digitsValue_toDigits]

theorem signed_toString (i : ℤ) : signed (toString i).toList = some i := by
  rw [Int.toString_eq_repr,Int.repr_eq_if]
  split_ifs with hpos
  · rw [Nat.toList_repr,signed_toDigits,Int.toNat_of_nonneg hpos]
  · have hminus : ("-" ++ (-i).toNat.repr).toList = '-' :: Nat.toDigits 10 (-i).toNat := by
      rw [String.toList_append,Nat.toList_repr]
      rfl
    rw [hminus]
    unfold signed
    rw [List.dropWhile_cons_of_neg (by decide)]
    have hneg : -(((-i).toNat : ℕ) : ℤ) = i := by omega
    simp only [magnitude_toDigits,Option.bind_eq_bind,Option.bind_some,Option.pure_def,
      Option.map_some,hneg]

/-- An `int` that was printed is read again. -/
theorem scanInt_toString {i : ℤ} (h : -2^31 ≤ i ∧ i < 2^31) : scanInt (toString i) = some i := by
  rw [scanInt,signed_toString,Option.map_some,toInt_toLong h]

end Scan
