import Mathlib.Data.List.Induction
import Mathlib.Tactic.Common
import Mathlib.Tactic.Ring

/-!
# Fixed-width big-endian integers as byte strings

`beBytes n v` is the value `v` in exactly `n` bytes, most significant byte
first (higher digits are dropped, as a cast to an `n`-byte machine word does);
`beNat` reads a byte string back. The two are inverse to each other on values
that fit and on strings of the given width. The little-endian forms are the same
bytes in the opposite order.
-/

namespace BigEndian

def beBytes : ℕ → ℕ → List UInt8
  | 0, _ => []
  | n + 1, v => beBytes n (v / 256) ++ [UInt8.ofNat (v % 256)]

def beNat (l : List UInt8) : ℕ := l.foldl (fun a b => 256 * a + b.toNat) 0

@[simp] theorem beBytes_length (n v : ℕ) : (beBytes n v).length = n := by
  induction n generalizing v with
  | zero => rfl
  | succ n ih => simp [beBytes, ih]

@[simp] theorem beNat_nil : beNat [] = 0 := rfl

theorem beNat_concat (l : List UInt8) (b : UInt8) : beNat (l ++ [b]) = 256 * beNat l + b.toNat := by
  simp [beNat, List.foldl_append]

theorem toNat_ofNat_mod (v : ℕ) : (UInt8.ofNat (v % 256)).toNat = v % 256 := by
  simp

theorem beNat_beBytes (n v : ℕ) (h : v < 256 ^ n) : beNat (beBytes n v) = v := by
  induction n generalizing v with
  | zero =>
    have hv : v = 0 := by simpa using h
    simp [beBytes, hv]
  | succ n ih =>
    have hq : v / 256 < 256 ^ n := by
      rw [pow_succ] at h
      exact Nat.div_lt_of_lt_mul (by rwa [Nat.mul_comm] at h)
    rw [beBytes, beNat_concat, ih (v / 256) hq, toNat_ofNat_mod]
    omega

theorem beNat_lt (l : List UInt8) : beNat l < 256 ^ l.length := by
  induction l using List.reverseRecOn with
  | nil => simp
  | append_singleton l b ih =>
    rw [beNat_concat, List.length_append, List.length_singleton, pow_succ]
    have hb := b.toNat_lt
    omega

theorem beBytes_beNat (l : List UInt8) : beBytes l.length (beNat l) = l := by
  induction l using List.reverseRecOn with
  | nil => rfl
  | append_singleton l b ih =>
    have hb := b.toNat_lt
    have hdiv : (256 * beNat l + b.toNat) / 256 = beNat l := by omega
    have hmod : (256 * beNat l + b.toNat) % 256 = b.toNat := by omega
    rw [List.length_append, List.length_singleton, beNat_concat, beBytes, hdiv, hmod, ih]
    simp

theorem beBytes_inj {n v w : ℕ} (hv : v < 256 ^ n) (hw : w < 256 ^ n)
    (h : beBytes n v = beBytes n w) : v = w := by
  rw [← beNat_beBytes n v hv, h, beNat_beBytes n w hw]

/-! ### Least significant byte first -/

def leBytes (n v : ℕ) : List UInt8 := (beBytes n v).reverse

def leNat (l : List UInt8) : ℕ := beNat l.reverse

@[simp] theorem leBytes_length (n v : ℕ) : (leBytes n v).length = n := by
  rw [leBytes, List.length_reverse, beBytes_length]

theorem leNat_leBytes (n v : ℕ) (h : v < 256 ^ n) : leNat (leBytes n v) = v := by
  rw [leNat, leBytes, List.reverse_reverse, beNat_beBytes n v h]

theorem leNat_lt (l : List UInt8) : leNat l < 256 ^ l.length := by
  rw [← List.length_reverse]
  exact beNat_lt _

/-- Bytes that are written in the order in which they were not read come out reversed. -/
theorem beBytes_leNat (l : List UInt8) : beBytes l.length (leNat l) = l.reverse := by
  rw [leNat, ← List.length_reverse, beBytes_beNat]

end BigEndian
