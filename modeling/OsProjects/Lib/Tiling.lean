import Mathlib.Data.Nat.Bitwise
import Mathlib.Data.Set.Finite.Basic
import Mathlib.Order.Interval.Set.Basic
import Mathlib.Order.Interval.Finset.Nat
import Mathlib.Algebra.BigOperators.Group.Finset.Basic
import Mathlib.Algebra.Order.BigOperators.Group.Finset
import Mathlib.Tactic.Ring

/-!
# Tilings of an address range

`Tiles lo hi S sz` says that the blocks starting at the addresses `S`, with
sizes `sz`, cover `[lo, hi)` without overlap. Splitting a block, joining two
neighbours and appending a block keep it, and walking from `lo` in steps of
`sz` meets exactly `S` in ascending order and ends at `hi` (`Tiles.exists_walk`).

For blocks of power-of-two sizes at multiples of their size (`Dyadic`), the
address that differs from a block's offset in the bit of its size is the start
of a block too, and that block is no larger (`Dyadic.buddy`).
-/

namespace OsProjects.Tiling

/-- The blocks `S` with sizes `sz` cover `[lo, hi)` without overlap. -/
structure Tiles (lo hi : Nat) (S : Set Nat) (sz : Nat → Nat) : Prop where
  le : lo ≤ hi
  pos : ∀ x ∈ S, 0 < sz x
  lower : ∀ x ∈ S, lo ≤ x
  upper : ∀ x ∈ S, x + sz x ≤ hi
  apart : ∀ x ∈ S, ∀ y ∈ S, x ≠ y → x + sz x ≤ y ∨ y + sz y ≤ x
  cover : ∀ z, lo ≤ z → z < hi → ∃ x ∈ S, x ≤ z ∧ z < x + sz x

variable {lo hi x y : Nat} {S : Set Nat} {sz sz' : Nat → Nat}

theorem tiles_empty (lo : Nat) (sz : Nat → Nat) : Tiles lo lo ∅ sz where
  le := le_refl lo
  pos := by simp
  lower := by simp
  upper := by simp
  apart := by simp
  cover := fun z h h' => absurd h (by omega)

namespace Tiles

theorem congr (h : Tiles lo hi S sz) (same : ∀ x ∈ S, sz' x = sz x) : Tiles lo hi S sz' where
  le := h.le
  pos x hx := same x hx ▸ h.pos x hx
  lower := h.lower
  upper x hx := same x hx ▸ h.upper x hx
  apart x hx y hy ne := by
    rw [same x hx, same y hy]
    exact h.apart x hx y hy ne
  cover z hz hz' := by
    obtain ⟨x, hx, le, lt⟩ := h.cover z hz hz'
    exact ⟨x, hx, le, by rwa [same x hx]⟩

theorem finite (h : Tiles lo hi S sz) : S.Finite := by
  refine (Set.finite_Iio hi).subset fun x hx => ?_
  have := h.upper x hx
  have := h.pos x hx
  exact Set.mem_Iio.mpr (by omega)

/-- Two blocks that share an address are one block. -/
theorem eq_of_overlap (h : Tiles lo hi S sz) (hx : x ∈ S) (hy : y ∈ S) {z : Nat} (hxz : x ≤ z)
    (hxz' : z < x + sz x) (hyz : y ≤ z) (hyz' : z < y + sz y) : x = y := by
  by_contra ne
  have := h.apart x hx y hy ne
  omega

/-- A block ends where the next one starts. -/
theorem next_start (h : Tiles lo hi S sz) (hx : x ∈ S) (lt : x + sz x < hi) : x + sz x ∈ S := by
  have low := h.lower x hx
  have pos := h.pos x hx
  obtain ⟨y, hy, le, lt'⟩ := h.cover (x + sz x) (by omega) lt
  by_cases e : y = x + sz x
  · exact e ▸ hy
  · have same : x = y := h.eq_of_overlap hx hy (z := x + sz x - 1) (by omega) (by omega) (by omega) (by omega)
    subst same
    omega

theorem first_start (h : Tiles lo hi S sz) (lt : lo < hi) : lo ∈ S := by
  obtain ⟨y, hy, le, -⟩ := h.cover lo (le_refl lo) lt
  have := h.lower y hy
  exact (show y = lo by omega) ▸ hy

/-- Appending a block at the end. -/
theorem append (h : Tiles lo hi S sz) {n : Nat} (hn : 0 < n) (new : sz' hi = n)
    (same : ∀ x ∈ S, sz' x = sz x) : Tiles lo (hi + n) (insert hi S) sz' := by
  have h' := h.congr same
  have le := h.le
  refine ⟨by omega, ?_, ?_, ?_, ?_, ?_⟩
  · rintro x (rfl | hx)
    · omega
    · exact h'.pos x hx
  · rintro x (rfl | hx)
    · exact le
    · exact h'.lower x hx
  · rintro x (rfl | hx)
    · omega
    · have := h'.upper x hx
      omega
  · rintro x (rfl | hx) y (rfl | hy) ne
    · exact absurd rfl ne
    · exact .inr (h'.upper y hy)
    · exact .inl (h'.upper x hx)
    · exact h'.apart x hx y hy ne
  · intro z hz hz'
    by_cases old : z < hi
    · obtain ⟨x, hx, hxz⟩ := h'.cover z hz old
      exact ⟨x, Set.mem_insert_of_mem hi hx, hxz⟩
    · exact ⟨hi, Set.mem_insert hi S, by omega, by omega⟩

/-- Splitting a block in two. -/
theorem split (h : Tiles lo hi S sz) (hx : x ∈ S) {a b : Nat} (ha : 0 < a) (hb : 0 < b) (sum : sz x = a + b)
    (left : sz' x = a) (right : sz' (x + a) = b) (same : ∀ y ∈ S, y ≠ x → sz' y = sz y) :
    Tiles lo hi (insert (x + a) S) sz' := by
  have low := h.lower x hx
  have up := h.upper x hx
  have away : ∀ y ∈ S, y ≠ x → y + sz' y ≤ x ∨ x + sz x ≤ y := fun y hy ne => by
    rw [same y hy ne]
    exact h.apart y hy x hx ne
  refine ⟨h.le, ?_, ?_, ?_, ?_, ?_⟩
  · rintro y (rfl | hy)
    · omega
    · obtain rfl | e := eq_or_ne y x
      · omega
      · exact same y hy e ▸ h.pos y hy
  · rintro y (rfl | hy)
    · omega
    · exact h.lower y hy
  · rintro y (rfl | hy)
    · omega
    · obtain rfl | e := eq_or_ne y x
      · omega
      · exact same y hy e ▸ h.upper y hy
  · rintro y (rfl | hy) z (rfl | hz) ne
    · exact absurd rfl ne
    · obtain rfl | e := eq_or_ne z x
      · omega
      · have := away z hz e
        omega
    · obtain rfl | e := eq_or_ne y x
      · omega
      · have := away y hy e
        omega
    · obtain rfl | e := eq_or_ne y x
      · have := away z hz ne.symm
        omega
      · obtain rfl | e' := eq_or_ne z x
        · have := away y hy e
          omega
        · rw [same y hy e, same z hz e']
          exact h.apart y hy z hz ne
  · intro z hz hz'
    obtain ⟨y, hy, le, lt⟩ := h.cover z hz hz'
    obtain rfl | e := eq_or_ne y x
    · by_cases upper : y + a ≤ z
      · exact ⟨y + a, Set.mem_insert _ S, upper, by omega⟩
      · exact ⟨y, Set.mem_insert_of_mem _ hy, le, by omega⟩
    · exact ⟨y, Set.mem_insert_of_mem _ hy, le, by rwa [same y hy e]⟩

/-- Joining a block with the one right after it. -/
theorem join (h : Tiles lo hi S sz) (hx : x ∈ S) (hy : y ∈ S) (next : y = x + sz x)
    (sum : sz' x = sz x + sz y) (same : ∀ z ∈ S, z ≠ x → z ≠ y → sz' z = sz z) :
    Tiles lo hi (S \ {y}) sz' := by
  have posX := h.pos x hx
  have posY := h.pos y hy
  have up := h.upper y hy
  have keep : x ∈ S \ {y} := ⟨hx, by rw [Set.mem_singleton_iff]; omega⟩
  have away : ∀ z ∈ S, z ≠ x → z ≠ y → z + sz' z ≤ x ∨ y + sz y ≤ z := by
    intro z hz e e'
    rw [same z hz e e']
    have := h.apart z hz x hx e
    have := h.apart z hz y hy e'
    have := h.pos z hz
    omega
  refine ⟨h.le, ?_, fun z hz => h.lower z hz.1, ?_, ?_, ?_⟩
  · rintro z ⟨hz, e'⟩
    obtain rfl | e := eq_or_ne z x
    · omega
    · exact same z hz e e' ▸ h.pos z hz
  · rintro z ⟨hz, e'⟩
    obtain rfl | e := eq_or_ne z x
    · omega
    · exact same z hz e e' ▸ h.upper z hz
  · rintro z ⟨hz, ez⟩ w ⟨hw, ew⟩ ne
    obtain rfl | e := eq_or_ne z x
    · have := away w hw ne.symm ew
      omega
    · obtain rfl | e' := eq_or_ne w x
      · have := away z hz e ez
        omega
      · rw [same z hz e ez, same w hw e' ew]
        exact h.apart z hz w hw ne
  · intro z hz hz'
    obtain ⟨w, hw, le, lt⟩ := h.cover z hz hz'
    obtain rfl | ey := eq_or_ne w y
    · exact ⟨x, keep, by omega, by omega⟩
    · obtain rfl | ex := eq_or_ne w x
      · exact ⟨w, keep, le, by omega⟩
      · exact ⟨w, ⟨hw, ey⟩, le, by rwa [same w hw ex ey]⟩

end Tiles

/-! ## Walking the blocks -/

/-- Starting at `p` and stepping by `sz` meets the addresses `l` and ends exactly
at `stop`. -/
def Walk (sz : Nat → Nat) (stop : Nat) : Nat → List Nat → Prop
  | p, [] => p = stop
  | p, x :: l => p = x ∧ p < stop ∧ 0 < sz p ∧ Walk sz stop (p + sz p) l

theorem Walk.sum_eq {stop p : Nat} {l : List Nat} (h : Walk sz stop p l) : p + (l.map sz).sum = stop := by
  induction l generalizing p with
  | nil =>
    have : p = stop := h
    simpa using this
  | cons x l ih =>
    obtain ⟨rfl, -, -, rest⟩ := h
    have := ih rest
    simp only [List.map_cons, List.sum_cons]
    omega

/-- A walk only goes up. -/
theorem Walk.sorted {stop p : Nat} {l : List Nat} (h : Walk sz stop p l) : l.Pairwise (· < ·) ∧ ∀ x ∈ l, p ≤ x := by
  induction l generalizing p with
  | nil => exact ⟨List.Pairwise.nil, fun x hx => absurd hx List.not_mem_nil⟩
  | cons y l ih =>
    obtain ⟨rfl, -, pos, rest⟩ := h
    obtain ⟨sorted, above⟩ := ih rest
    refine ⟨List.pairwise_cons.mpr ⟨fun x hx => ?_, sorted⟩, fun x hx => ?_⟩
    · have := above x hx
      omega
    · rcases List.mem_cons.mp hx with rfl | hx
      · exact le_refl x
      · have := above x hx
        omega

/-- A walk lays out a tiling. -/
theorem Walk.tiles {stop p : Nat} {l : List Nat} (h : Walk sz stop p l) : Tiles p stop {x | x ∈ l} sz := by
  induction l generalizing p with
  | nil =>
    have e : p = stop := h
    have none : {x : Nat | x ∈ ([] : List Nat)} = ∅ := by simp
    rw [e, none]
    exact tiles_empty stop sz
  | cons y l ih =>
    obtain ⟨rfl, lt, pos, rest⟩ := h
    have tiles := ih rest
    have low := tiles.lower
    refine ⟨lt.le, fun x hx => ?_, fun x hx => ?_, fun x hx => ?_, fun x hx y hy ne => ?_, fun z le lt' => ?_⟩
    · rcases List.mem_cons.mp hx with rfl | hx
      · exact pos
      · exact tiles.pos x hx
    · rcases List.mem_cons.mp hx with rfl | hx
      · exact le_refl x
      · have := low x hx
        omega
    · rcases List.mem_cons.mp hx with rfl | hx
      · exact tiles.le
      · exact tiles.upper x hx
    · rcases List.mem_cons.mp hx with rfl | hx'
      · rcases List.mem_cons.mp hy with rfl | hy'
        · exact absurd rfl ne
        · exact .inl (low y hy')
      · rcases List.mem_cons.mp hy with rfl | hy'
        · exact .inr (low x hx')
        · exact tiles.apart x hx' y hy' ne
    · by_cases first : z < p + sz p
      · exact ⟨p, List.mem_cons_self, le, first⟩
      · obtain ⟨x, hx, within⟩ := tiles.cover z (not_lt.mp first) lt'
        exact ⟨x, List.mem_cons_of_mem p hx, within⟩

theorem Walk.unique {stop p : Nat} {l l' : List Nat} (h : Walk sz stop p l) (h' : Walk sz stop p l') :
    l = l' := by
  induction l generalizing p l' with
  | nil =>
    cases l' with
    | nil => rfl
    | cons y l' =>
      have : p = stop := h
      have := h'.2.1
      omega
  | cons x l ih =>
    obtain ⟨rfl, lt, -, rest⟩ := h
    cases l' with
    | nil =>
      have : p = stop := h'
      omega
    | cons y l' =>
      obtain ⟨rfl, -, -, rest'⟩ := h'
      rw [ih rest rest']

/-- The walk from any block start meets the blocks from there on. The induction
is on the bytes left. -/
theorem Tiles.exists_walk_from (h : Tiles lo hi S sz) {p : Nat} (hp : p ∈ S ∨ p = hi) :
    ∃ l, Walk sz hi p l ∧ l.Pairwise (· < ·) ∧ ∀ x, x ∈ l ↔ x ∈ S ∧ p ≤ x := by
  generalize hn : hi - p = n
  induction n using Nat.strongRecOn generalizing p with
  | ind n ih =>
    rcases hp with mem | rfl
    · have pos := h.pos p mem
      have up := h.upper p mem
      have next : p + sz p ∈ S ∨ p + sz p = hi := by
        by_cases e : p + sz p = hi
        · exact .inr e
        · exact .inl (h.next_start mem (by omega))
      obtain ⟨l, walk, sorted, all⟩ := ih _ (by omega) next rfl
      refine ⟨p :: l, ⟨rfl, by omega, pos, walk⟩, ?_, fun x => ?_⟩
      · refine List.pairwise_cons.mpr ⟨fun x hx => ?_, sorted⟩
        have := ((all x).mp hx).2
        omega
      · rw [List.mem_cons, all]
        constructor
        · rintro (rfl | ⟨hx, le⟩)
          · exact ⟨mem, le_refl x⟩
          · exact ⟨hx, by omega⟩
        · rintro ⟨hx, le⟩
          by_cases e : x = p
          · exact .inl e
          · have := h.apart x hx p mem e
            have := h.pos x hx
            exact .inr ⟨hx, by omega⟩
    · refine ⟨[], rfl, List.Pairwise.nil, fun x => ⟨fun hx => absurd hx List.not_mem_nil, ?_⟩⟩
      rintro ⟨hx, le⟩
      have := h.upper x hx
      have := h.pos x hx
      omega

/-- **Walking a tiling** meets exactly its blocks, ascending. -/
theorem Tiles.exists_walk (h : Tiles lo hi S sz) :
    ∃ l, Walk sz hi lo l ∧ l.Pairwise (· < ·) ∧ ∀ x, x ∈ l ↔ x ∈ S := by
  have start : lo ∈ S ∨ lo = hi := by
    by_cases e : lo = hi
    · exact .inr e
    · exact .inl (h.first_start (by have := h.le; omega))
  obtain ⟨l, walk, sorted, all⟩ := h.exists_walk_from start
  exact ⟨l, walk, sorted, fun x => (all x).trans (and_iff_left_of_imp (h.lower x))⟩

/-- The sizes determine the blocks. -/
theorem Tiles.unique {S' : Set Nat} (h : Tiles lo hi S sz) (h' : Tiles lo hi S' sz) : S = S' := by
  obtain ⟨l, walk, -, all⟩ := h.exists_walk
  obtain ⟨l', walk', -, all'⟩ := h'.exists_walk
  obtain rfl := walk.unique walk'
  ext x
  rw [← all, ← all']

/-! ## Disjoint ranges -/

/-- Disjoint ranges below `N` have at most `N` addresses in all. -/
theorem sum_le_of_apart {l : List Nat} {len : Nat → Nat} {N : Nat} (nodup : l.Nodup)
    (apart : ∀ x ∈ l, ∀ y ∈ l, x ≠ y → x + len x ≤ y ∨ y + len y ≤ x) (upper : ∀ x ∈ l, x + len x ≤ N) :
    (l.map len).sum ≤ N := by
  have disjoint : ∀ x ∈ l.toFinset, ∀ y ∈ l.toFinset, x ≠ y →
      Disjoint (Finset.Ico x (x + len x)) (Finset.Ico y (y + len y)) := by
    intro x hx y hy ne
    rw [List.mem_toFinset] at hx hy
    rw [Finset.disjoint_left]
    intro z hz hz'
    rw [Finset.mem_Ico] at hz hz'
    have := apart x hx y hy ne
    omega
  have inside : l.toFinset.biUnion (fun x => Finset.Ico x (x + len x)) ⊆ Finset.range N := by
    intro z hz
    obtain ⟨x, hx, hz⟩ := Finset.mem_biUnion.mp hz
    rw [Finset.mem_Ico] at hz
    have := upper x (List.mem_toFinset.mp hx)
    exact Finset.mem_range.mpr (by omega)
  calc (l.map len).sum = ∑ x ∈ l.toFinset, len x := (List.sum_toFinset len nodup).symm
    _ = ∑ x ∈ l.toFinset, (Finset.Ico x (x + len x)).card := by simp
    _ = (l.toFinset.biUnion fun x => Finset.Ico x (x + len x)).card := (Finset.card_biUnion disjoint).symm
    _ ≤ (Finset.range N).card := Finset.card_le_card inside
    _ = N := Finset.card_range N

/-! ## Buddies -/

/-- Flipping the bit `w` of a multiple of `w` moves by `w`, inside one multiple of
`2 * w`. -/
theorem xor_pow_of_dvd {o j : Nat} (h : 2 ^ j ∣ o) :
    o ^^^ 2 ^ j = o + 2 ^ j ∧ 2 ^ (j + 1) ∣ o ∨ (o ^^^ 2 ^ j) + 2 ^ j = o ∧ 2 ^ (j + 1) ∣ o ^^^ 2 ^ j := by
  obtain ⟨q, rfl⟩ := h
  have flip : 2 ^ j * q ^^^ 2 ^ j = 2 ^ j * (q ^^^ 1) := by
    have := Nat.shiftLeft_xor_distrib (a := q) (b := 1) (i := j)
    simp only [Nat.shiftLeft_eq, one_mul] at this
    rw [mul_comm (2 ^ j) q, ← this, mul_comm]
  rw [flip, pow_succ]
  rcases Nat.even_or_odd q with even | odd
  · left
    rw [Nat.xor_one_of_even even]
    exact ⟨by ring, Nat.mul_dvd_mul_left _ even.two_dvd⟩
  · right
    obtain ⟨r, rfl⟩ := odd
    rw [Nat.xor_one_of_odd ⟨r, rfl⟩, Nat.add_sub_cancel]
    exact ⟨by ring, Nat.mul_dvd_mul_left _ (Nat.dvd_mul_right 2 r)⟩

/-- Every block has a size `2 ^ (j + k)` with `k ≤ K`, at a multiple of it from `lo`. -/
def Dyadic (j K lo : Nat) (S : Set Nat) (sz : Nat → Nat) : Prop :=
  ∀ x ∈ S, ∃ k ≤ K, sz x = 2 ^ (j + k) ∧ 2 ^ (j + k) ∣ x - lo

theorem Dyadic.congr {j K : Nat} (h : Dyadic j K lo S sz) (same : ∀ x ∈ S, sz' x = sz x) :
    Dyadic j K lo S sz' := by
  intro x hx
  obtain ⟨k, le, size, dvd⟩ := h x hx
  exact ⟨k, le, (same x hx).trans size, dvd⟩

/-- A number and its flip by the bit `2 ^ j` lie in one pair of cells. -/
theorem pair_base {o j : Nat} (h : 2 ^ j ∣ o) :
    ∃ c, 2 ^ (j + 1) ∣ c ∧ c ≤ o ∧ o < c + 2 ^ (j + 1) ∧ c ≤ o ^^^ 2 ^ j ∧
      (o ^^^ 2 ^ j) < c + 2 ^ (j + 1) ∧ 2 ^ j ∣ o ^^^ 2 ^ j := by
  have pos := Nat.two_pow_pos j
  have double : 2 ^ (j + 1) = 2 ^ j + 2 ^ j := by ring
  have half : 2 ^ j ∣ 2 ^ (j + 1) := pow_dvd_pow 2 (Nat.le_succ j)
  rcases xor_pow_of_dvd h with ⟨e, m⟩ | ⟨e, m⟩
  · refine ⟨o, m, by omega, by omega, by omega, by omega, ?_⟩
    rw [e]
    exact Nat.dvd_add h (dvd_refl _)
  · exact ⟨_, m, by omega, by omega, by omega, by omega, half.trans m⟩

/-- **The buddy of a block starts a block** of the same size or smaller: a larger
block there would hold both. -/
theorem Dyadic.buddy {j K k : Nat} (d : Dyadic j K lo S sz) (h : Tiles lo hi S sz) (hx : x ∈ S)
    (size : sz x = 2 ^ (j + k)) (whole : 2 ^ (j + k + 1) ∣ hi - lo) :
    lo + ((x - lo) ^^^ 2 ^ (j + k)) ∈ S ∧ sz (lo + ((x - lo) ^^^ 2 ^ (j + k))) ≤ 2 ^ (j + k) := by
  have sameExp : ∀ {a b : Nat}, 2 ^ (j + a) = 2 ^ (j + b) → a = b := fun e => by
    have := Nat.pow_right_injective (le_refl 2) e
    omega
  obtain ⟨k', -, size', dvd⟩ := d x hx
  obtain rfl := sameExp (size'.symm.trans size)
  obtain ⟨c, cdvd, cx, nx, cb, nb, bdvd⟩ := pair_base dvd
  generalize (x - lo) ^^^ 2 ^ (j + k') = b at *
  have low := h.lower x hx
  have up := h.upper x hx
  have pos := h.pos x hx
  have inside : c + 2 ^ (j + k' + 1) ≤ hi - lo :=
    Nat.le_of_lt_add_of_dvd (by omega) (Nat.dvd_add cdvd (dvd_refl _)) whole
  obtain ⟨y, hy, le, lt⟩ := h.cover (lo + b) (by omega) (by omega)
  obtain ⟨i, -, sizeY, dvdY⟩ := d y hy
  have lowY := h.lower y hy
  rw [sizeY] at lt
  by_cases small : i ≤ k'
  · have yb : 2 ^ (j + i) ∣ b := (pow_dvd_pow 2 (by omega)).trans bdvd
    have : b ≤ y - lo := Nat.le_of_lt_add_of_dvd (by omega) yb dvdY
    have yEq : lo + b = y := by omega
    rw [yEq, sizeY]
    exact ⟨hy, Nat.pow_le_pow_right (by omega) (by omega)⟩
  · -- a larger block at the buddy's address starts at or before `c`, so it also holds `x`
    have big : 2 ^ (j + k' + 1) ∣ 2 ^ (j + i) := pow_dvd_pow 2 (by omega)
    have start : y - lo ≤ c := Nat.le_of_lt_add_of_dvd (by omega) (big.trans dvdY) cdvd
    have stop : c + 2 ^ (j + k' + 1) ≤ y - lo + 2 ^ (j + i) :=
      Nat.le_of_lt_add_of_dvd (by omega) (Nat.dvd_add cdvd (dvd_refl _)) (Nat.dvd_add (big.trans dvdY) big)
    have same : x = y :=
      h.eq_of_overlap hx hy (z := x) (le_refl x) (by omega) (by omega) (by rw [sizeY]; omega)
    subst same
    have := sameExp (size.symm.trans sizeY)
    omega

/-- A block that holds one half of an aligned range is that half or holds both. -/
theorem Dyadic.half {j K k c : Nat} (d : Dyadic j K lo S sz) (h : Tiles lo hi S sz) (hx : x ∈ S) (half : 2 ^ (j + k) ∣ c)
    (le : x ≤ lo + c) (lt : lo + c + 2 ^ (j + k) ≤ x + sz x) :
    x = lo + c ∧ sz x = 2 ^ (j + k) ∨
      2 ^ (j + k + 1) ∣ x - lo ∧ 2 ^ (j + k + 1) ∣ x - lo + sz x := by
  obtain ⟨i, -, size, dvd⟩ := d x hx
  have low := h.lower x hx
  have pos := Nat.two_pow_pos (j + k)
  have double : 2 ^ (j + k + 1) = 2 ^ (j + k) + 2 ^ (j + k) := by ring
  rw [size] at lt ⊢
  rcases Nat.lt_trichotomy i k with less | rfl | more
  · have : 2 ^ (j + i) < 2 ^ (j + k) := Nat.pow_lt_pow_right (by omega) (by omega)
    omega
  · exact .inl ⟨by omega, rfl⟩
  · have big : 2 ^ (j + k + 1) ∣ 2 ^ (j + i) := pow_dvd_pow 2 (by omega)
    exact .inr ⟨big.trans dvd, Nat.dvd_add (big.trans dvd) big⟩

end OsProjects.Tiling
