import Mathlib.Algebra.Ring.Nat
import Mathlib.Data.List.Induction
import Mathlib.Data.Nat.Size
import Mathlib.Tactic.Ring

/-!
# Big-endian numbers

A natural number as a list of bytes, most significant first: with a fixed number of bytes
(`toBeBytes`), and **trimmed** of its leading zeros (`toBeBytesTrimmed`). The value of a list of
bytes is `fromBeBytes`, which reads both back.

The trimmed form of a number has no leading zero, so its length is determined by the number: it is
the length in bits, rounded up to bytes (`length_toBeBytesTrimmed`).
-/

namespace BigEndian

/-- The last `k` bytes of a number. -/
def toBeBytes : ℕ → ℕ → List UInt8
  | 0, _ => []
  | k + 1, n => toBeBytes k (n / 256) ++ [UInt8.ofNat (n % 256)]

/-- The number that bytes stand for. -/
def fromBeBytes (bytes : List UInt8) : ℕ :=
  bytes.foldl (fun n b ↦ n * 256 + b.toNat) 0

/-- The bytes of a number of at most `k` bytes, from its first non-zero one. -/
def toBeBytesTrimmed (k n : ℕ) : List UInt8 :=
  (toBeBytes k n).dropWhile (· == 0)

@[simp] theorem length_toBeBytes (k n : ℕ) : (toBeBytes k n).length = k := by
  induction k generalizing n with
  | zero => rfl
  | succ k ih => rw [toBeBytes, List.length_append, ih, List.length_singleton]

theorem fromBeBytes_concat (bytes : List UInt8) (b : UInt8) :
    fromBeBytes (bytes ++ [b]) = fromBeBytes bytes * 256 + b.toNat := by
  rw [fromBeBytes, List.foldl_append]
  rfl

/-- Reading back the last bytes of a number. -/
theorem fromBeBytes_toBeBytes_mod (k n : ℕ) : fromBeBytes (toBeBytes k n) = n % 256 ^ k := by
  induction k generalizing n with
  | zero =>
    rw [pow_zero, Nat.mod_one]
    rfl
  | succ k ih =>
    have hbyte : (UInt8.ofNat (n % 256)).toNat = n % 256 := by
      rw [UInt8.toNat_ofNat']
      omega
    rw [toBeBytes, fromBeBytes_concat, ih, hbyte, pow_succ', Nat.mod_mul]
    omega

/-- Reading back the bytes of a number that fits. -/
theorem fromBeBytes_toBeBytes {k n : ℕ} (h : n < 256 ^ k) : fromBeBytes (toBeBytes k n) = n := by
  rw [fromBeBytes_toBeBytes_mod, Nat.mod_eq_of_lt h]

theorem toBeBytes_zero (k : ℕ) : toBeBytes k 0 = List.replicate k 0 := by
  induction k with
  | zero => rfl
  | succ k ih =>
    rw [toBeBytes, Nat.zero_div, ih, List.replicate_succ']
    rfl

/-- The high and the low bytes of a number. -/
theorem toBeBytes_add (j k n : ℕ) :
    toBeBytes (j + k) n = toBeBytes j (n / 256 ^ k) ++ toBeBytes k n := by
  induction k generalizing n with
  | zero => rw [Nat.add_zero, pow_zero, Nat.div_one, toBeBytes, List.append_nil]
  | succ k ih =>
    rw [← Nat.add_assoc, toBeBytes, toBeBytes, ih, Nat.div_div_eq_div_mul, ← pow_succ',
      List.append_assoc]

/-- Bytes tell numbers apart. -/
theorem toBeBytes_inj {k n m : ℕ} (hn : n < 256 ^ k) (hm : m < 256 ^ k)
    (h : toBeBytes k n = toBeBytes k m) : n = m := by
  rw [← fromBeBytes_toBeBytes hn, h, fromBeBytes_toBeBytes hm]

theorem fromBeBytes_lt (bytes : List UInt8) : fromBeBytes bytes < 256 ^ bytes.length := by
  induction bytes using List.reverseRecOn with
  | nil => exact Nat.one_pos
  | append_singleton bytes b ih =>
    have hb : b.toNat < 256 := b.toNat_lt
    rw [fromBeBytes_concat, List.length_append, List.length_singleton, pow_succ]
    omega

/-- Writing back the bytes that were read. -/
theorem toBeBytes_fromBeBytes (bytes : List UInt8) :
    toBeBytes bytes.length (fromBeBytes bytes) = bytes := by
  induction bytes using List.reverseRecOn with
  | nil => rfl
  | append_singleton bytes b ih =>
    have hb : b.toNat < 256 := b.toNat_lt
    have hdiv : (fromBeBytes bytes * 256 + b.toNat) / 256 = fromBeBytes bytes := by omega
    have hmod : (fromBeBytes bytes * 256 + b.toNat) % 256 = b.toNat := by omega
    rw [fromBeBytes_concat, List.length_append, List.length_singleton, toBeBytes, hdiv, hmod, ih,
      UInt8.ofNat_toNat]

theorem fromBeBytes_zero_cons (bytes : List UInt8) :
    fromBeBytes (0 :: bytes) = fromBeBytes bytes :=
  rfl

/-- Leading zeros do not count. -/
theorem fromBeBytes_dropWhile (bytes : List UInt8) :
    fromBeBytes (bytes.dropWhile (· == 0)) = fromBeBytes bytes := by
  induction bytes with
  | nil => rfl
  | cons b bytes ih =>
    rw [List.dropWhile_cons]
    split_ifs with hb
    · rw [ih, eq_of_beq hb, fromBeBytes_zero_cons]
    · rfl

/-- **Reading back the trimmed bytes.** -/
theorem fromBeBytes_toBeBytesTrimmed {k n : ℕ} (h : n < 256 ^ k) :
    fromBeBytes (toBeBytesTrimmed k n) = n := by
  rw [toBeBytesTrimmed, fromBeBytes_dropWhile, fromBeBytes_toBeBytes h]

/-- The first byte decides how large a number is. -/
theorem fromBeBytes_cons_bounds (b : UInt8) (bytes : List UInt8) :
    b.toNat * 256 ^ bytes.length ≤ fromBeBytes (b :: bytes) ∧
      fromBeBytes (b :: bytes) < (b.toNat + 1) * 256 ^ bytes.length := by
  induction bytes using List.reverseRecOn with
  | nil => simp [fromBeBytes]
  | append_singleton bytes last ih =>
    have hlast : last.toNat < 256 := last.toNat_lt
    rw [← List.cons_append, fromBeBytes_concat, List.length_append, List.length_singleton, pow_succ]
    constructor
    · calc b.toNat * (256 ^ bytes.length * 256) = b.toNat * 256 ^ bytes.length * 256 := by ring
        _ ≤ fromBeBytes (b :: bytes) * 256 := Nat.mul_le_mul_right _ ih.1
        _ ≤ fromBeBytes (b :: bytes) * 256 + last.toNat := Nat.le_add_right _ _
    · calc fromBeBytes (b :: bytes) * 256 + last.toNat < (fromBeBytes (b :: bytes) + 1) * 256 := by
            omega
        _ ≤ (b.toNat + 1) * 256 ^ bytes.length * 256 := Nat.mul_le_mul_right _ ih.2
        _ = (b.toNat + 1) * (256 ^ bytes.length * 256) := by ring

/-- The trimmed bytes do not start with a zero. -/
theorem head_toBeBytesTrimmed {k n : ℕ} {b : UInt8} {bytes : List UInt8}
    (h : toBeBytesTrimmed k n = b :: bytes) : b ≠ 0 := by
  have hhead := List.head?_dropWhile_not (· == (0 : UInt8)) (toBeBytes k n)
  rw [show (toBeBytes k n).dropWhile (· == 0) = b :: bytes from h] at hhead
  simpa using hhead

theorem length_toBeBytesTrimmed_le (k n : ℕ) : (toBeBytesTrimmed k n).length ≤ k :=
  ((List.dropWhile_sublist _).length_le).trans_eq (length_toBeBytes k n)

/-- **The length of the trimmed bytes** is the length in bits, rounded up to whole bytes. -/
theorem length_toBeBytesTrimmed {k n : ℕ} (h : n < 256 ^ k) :
    (toBeBytesTrimmed k n).length = (n.size + 7) / 8 := by
  have hvalue := fromBeBytes_toBeBytesTrimmed h
  rcases hbytes : toBeBytesTrimmed k n with - | ⟨b, bytes⟩
  · rw [hbytes] at hvalue
    have hn : n = 0 := hvalue.symm
    rw [hn, Nat.size_zero]
    rfl
  · obtain ⟨hlow, hhigh⟩ := fromBeBytes_cons_bounds b bytes
    have hb : 1 ≤ b.toNat := by
      rcases Nat.eq_zero_or_pos b.toNat with hzero | hpos
      · exact absurd (UInt8.toNat_inj.1 hzero) (head_toBeBytesTrimmed hbytes)
      · exact hpos
    have hb' : b.toNat + 1 ≤ 256 := b.toNat_lt
    rw [hbytes] at hvalue
    rw [hvalue] at hlow hhigh
    have hpow : 256 ^ bytes.length = 2 ^ (8 * bytes.length) := by
      rw [pow_mul]
      rfl
    -- the number lies between two powers of two that are eight bits apart
    have hge : 8 * bytes.length < n.size := by
      rw [Nat.lt_size, ← hpow]
      exact (Nat.le_mul_of_pos_left _ hb).trans hlow
    have hle : n.size ≤ 8 * bytes.length + 8 := by
      rw [Nat.size_le, pow_add, ← hpow]
      calc n < (b.toNat + 1) * 256 ^ bytes.length := hhigh
        _ ≤ 256 * 256 ^ bytes.length := Nat.mul_le_mul_right _ hb'
        _ = 256 ^ bytes.length * 2 ^ 8 := by ring
    rw [List.length_cons]
    omega

end BigEndian
