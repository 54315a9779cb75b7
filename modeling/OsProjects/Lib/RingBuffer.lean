import Mathlib.Data.List.Range
import Mathlib.Data.Nat.ModEq
import Mathlib.Logic.Function.Basic

/-!
# Ring buffers

A ring of `cap` slots keeps a sequence in the slots from `head` on, wrapping around at
the end. `window` reads the sequence off; the lemmas say what a store behind the last
element and a step of `head` do to it.
-/

namespace OsProjects.RingBuffer

variable {α : Type*} {slots : Nat → α} {cap head n : Nat}

/-- The `n` slots from `head` on. -/
def window (slots : Nat → α) (cap head n : Nat) : List α := (List.range n).map fun i => slots ((head + i) % cap)

/-- The last slot of the window. -/
theorem window_succ : window slots cap head (n + 1) = window slots cap head n ++ [slots ((head + n) % cap)] := by
  simp [window, List.range_succ]

/-- The first slot of the window. -/
theorem window_cons : window slots cap head (n + 1) =
    slots (head % cap) :: window slots cap ((head + 1) % cap) n := by
  have shift : ∀ i, (head + (i + 1)) % cap = ((head + 1) % cap + i) % cap := fun i => by
    rw [Nat.mod_add_mod]
    congr 1
    omega
  simp only [window, List.range_succ_eq_map, List.map_cons, List.map_map, Nat.add_zero]
  exact congrArg _ (List.map_congr_left fun i _ => by rw [Function.comp_apply, Nat.succ_eq_add_one, shift])

/-- Slots of a window that is not longer than the ring are different. -/
theorem add_mod_inj {i j : Nat} (hi : i < cap) (hj : j < cap) (h : (head + i) % cap = (head + j) % cap) : i = j := by
  have same : i ≡ j [MOD cap] := Nat.ModEq.add_left_cancel' head h
  exact same.eq_of_lt_of_lt hi hj

/-- A store behind the window of a ring that is not full. -/
theorem window_update {a : α} (room : n < cap) :
    window (Function.update slots ((head + n) % cap) a) cap head n = window slots cap head n := by
  refine List.map_congr_left fun i hi => Function.update_of_ne (fun e => ?_) a slots
  have lt := List.mem_range.mp hi
  have := add_mod_inj (lt.trans room) room e
  omega

/-- **Appending** to a ring that is not full. -/
theorem window_append {a : α} (room : n < cap) :
    window (Function.update slots ((head + n) % cap) a) cap head (n + 1) = window slots cap head n ++ [a] := by
  rw [window_succ, window_update room, Function.update_self]

/-- The slot behind the window moves by one when an element is appended. -/
theorem tail_append : ((head + n) % cap + 1) % cap = (head + (n + 1)) % cap := by
  rw [Nat.mod_add_mod, Nat.add_assoc]

/-- The slot behind the window stays when the first element is dropped. -/
theorem tail_drop : (head + (n + 1)) % cap = ((head + 1) % cap + n) % cap := by
  rw [Nat.mod_add_mod, Nat.add_assoc, Nat.add_comm n 1]

end OsProjects.RingBuffer
