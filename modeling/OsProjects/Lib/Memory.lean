import Mathlib.Tactic.Ring
import Mathlib.Data.Set.Basic

/-!
# Byte memory

A flat memory `Mem` maps every address to a byte. Machine words are stored
little-endian (`storeLE`, `loadLE`), and `memset` and `memmove` are the two
block operations of the C library. Each operation has a read-back law on the
range it writes and a frame law off it; `Touches R m m'` says that `m'` was
obtained from `m` by writes inside the ranges `R`, which is how the frame of a
whole function is stated.
-/

namespace OsProjects

/-- A byte-addressed memory. -/
abbrev Mem := Nat → UInt8

namespace Mem

/-- The little-endian number in the `n` bytes at `a`. -/
def loadLE (m : Mem) (a : Nat) : Nat → Nat
  | 0 => 0
  | n + 1 => (m a).toNat + 256 * loadLE m (a + 1) n

/-- Store the low `n` bytes of `v` at `a`, little-endian. -/
def storeLE (m : Mem) (a n v : Nat) : Mem := fun x =>
  if a ≤ x ∧ x < a + n then UInt8.ofNat (v / 256 ^ (x - a)) else m x

/-- Store one byte. -/
def store8 (m : Mem) (a : Nat) (b : UInt8) : Mem := fun x => if x = a then b else m x

/-- `memset(a, b, n)`. -/
def memset (m : Mem) (a : Nat) (b : UInt8) (n : Nat) : Mem := fun x =>
  if a ≤ x ∧ x < a + n then b else m x

/-- `memmove(d, s, n)`: the source is read in full before anything is written. -/
def memmove (m : Mem) (d s n : Nat) : Mem := fun x =>
  if d ≤ x ∧ x < d + n then m (s + (x - d)) else m x

theorem loadLE_congr {m m' : Mem} {a n : Nat} (h : ∀ x, a ≤ x → x < a + n → m x = m' x) :
    loadLE m a n = loadLE m' a n := by
  induction n generalizing a with
  | zero => rfl
  | succ n ih =>
    simp only [loadLE]
    rw [h a (le_refl a) (by omega), ih fun x lo hi => h x (by omega) (by omega)]

theorem loadLE_lt (m : Mem) (a n : Nat) : loadLE m a n < 256 ^ n := by
  induction n generalizing a with
  | zero => simp [loadLE]
  | succ n ih =>
    have byte := (m a).toNat_lt
    have rest := ih (a + 1)
    simp only [loadLE, pow_succ]
    omega

/-- A word off the written range is unchanged. -/
theorem loadLE_storeLE_of_disjoint {m : Mem} {a b k n v : Nat} (h : a + n ≤ b ∨ b + k ≤ a) :
    loadLE (storeLE m b k v) a n = loadLE m a n :=
  loadLE_congr fun x lo hi => if_neg (by omega)

theorem loadLE_store8_of_ne {m : Mem} {a b n : Nat} {v : UInt8} (h : b < a ∨ a + n ≤ b) :
    loadLE (store8 m b v) a n = loadLE m a n :=
  loadLE_congr fun x lo hi => if_neg (by omega)

/-- A stored word reads back, cut to its width. The bytes above the first form
the word `v / 256` stored one address higher. -/
theorem loadLE_storeLE (m : Mem) (a n v : Nat) : loadLE (storeLE m a n v) a n = v % 256 ^ n := by
  induction n generalizing a v with
  | zero => simp [loadLE, Nat.mod_one]
  | succ n ih =>
    have first : storeLE m a (n + 1) v a = UInt8.ofNat v := by simp [storeLE]
    have rest : loadLE (storeLE m a (n + 1) v) (a + 1) n =
        loadLE (storeLE m (a + 1) n (v / 256)) (a + 1) n := by
      refine loadLE_congr fun x lo hi => ?_
      have shift : x - a = (x - (a + 1)) + 1 := by omega
      simp only [storeLE]
      rw [if_pos (by omega), if_pos (by omega), shift, pow_succ', Nat.div_div_eq_div_mul]
    rw [loadLE, first, rest, ih, pow_succ', Nat.mod_mul, UInt8.toNat_ofNat']

/-! ## Frames -/

/-- `m'` differs from `m` at most inside the ranges `(start, length)` of `R`. -/
def Touches (R : Set (Nat × Nat)) (m m' : Mem) : Prop :=
  ∀ x, (∀ r ∈ R, x < r.1 ∨ r.1 + r.2 ≤ x) → m' x = m x

theorem Touches.refl (R : Set (Nat × Nat)) (m : Mem) : Touches R m m := fun _ _ => rfl

theorem Touches.trans {R : Set (Nat × Nat)} {m m' m'' : Mem} (h : Touches R m m')
    (h' : Touches R m' m'') : Touches R m m'' :=
  fun x off => (h' x off).trans (h x off)

/-- A frame survives in any family of ranges that covers the old one. -/
theorem Touches.mono {R R' : Set (Nat × Nat)} {m m' : Mem} (h : Touches R m m')
    (cover : ∀ r ∈ R, ∃ r' ∈ R', r'.1 ≤ r.1 ∧ r.1 + r.2 ≤ r'.1 + r'.2) : Touches R' m m' := by
  intro x off
  refine h x fun r hr => ?_
  obtain ⟨r', hr', lo, hi⟩ := cover r hr
  have := off r' hr'
  omega

theorem touches_storeLE {R : Set (Nat × Nat)} {m : Mem} {a n v : Nat} {r : Nat × Nat} (hr : r ∈ R)
    (lo : r.1 ≤ a) (hi : a + n ≤ r.1 + r.2) : Touches R m (storeLE m a n v) :=
  fun x off => if_neg (by have := off r hr; omega)

theorem touches_store8 {R : Set (Nat × Nat)} {m : Mem} {a : Nat} {b : UInt8} {r : Nat × Nat} (hr : r ∈ R)
    (lo : r.1 ≤ a) (hi : a < r.1 + r.2) : Touches R m (store8 m a b) :=
  fun x off => if_neg (by have := off r hr; omega)

theorem touches_memset {R : Set (Nat × Nat)} {m : Mem} {a n : Nat} {b : UInt8} {r : Nat × Nat} (hr : r ∈ R)
    (lo : r.1 ≤ a) (hi : a + n ≤ r.1 + r.2) : Touches R m (memset m a b n) :=
  fun x off => if_neg (by have := off r hr; omega)

theorem touches_memmove {R : Set (Nat × Nat)} {m : Mem} {d s n : Nat} {r : Nat × Nat} (hr : r ∈ R)
    (lo : r.1 ≤ d) (hi : d + n ≤ r.1 + r.2) : Touches R m (memmove m d s n) :=
  fun x off => if_neg (by have := off r hr; omega)

theorem memset_apply_of_mem {m : Mem} {a n x : Nat} {b : UInt8} (lo : a ≤ x) (hi : x < a + n) :
    memset m a b n x = b :=
  if_pos ⟨lo, hi⟩

theorem memmove_apply_of_lt {m : Mem} {d s n i : Nat} (h : i < n) :
    memmove m d s n (d + i) = m (s + i) := by
  simp only [memmove]
  rw [if_pos (by omega), Nat.add_sub_cancel_left]

end Mem

end OsProjects
