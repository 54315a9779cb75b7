import OsProjects.Malloc.Statistics
import OsProjects.Malloc.Steps

/-!
# What is not in use is in one piece

In a coalesced heap no two free blocks are buddies, so an aligned range of a block size in
which nothing is allocated lies in one free block. In particular the heap is back to its
first blocks as soon as nothing is allocated, whatever the order of the calls was.
-/

namespace OsProjects.Malloc.Buddy

open Tiling

variable {listed : Prop} {ed : Edition} {s : State} {w : World} {k c : Nat} {B : Set Nat} {M : List Nat}

/-- An operating system that has nothing left. -/
def spentOs : Os where
  sbrk _ := none
  mmap _ _ := none
  pageSize := 4096

theorem spentOs_sound (s : State) : Sound spentOs s where
  page := ⟨12, by decide, rfl⟩
  maps := ⟨fun _ _ _ answer => (nomatch answer), fun _ _ _ answer => (nomatch answer), fun _ _ _ answer => (nomatch answer)⟩
  heap _ _ answer := nomatch answer

end OsProjects.Malloc.Buddy
