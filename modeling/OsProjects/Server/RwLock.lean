import OsProjects.Server.Log

/-!
# The reader-writer lock of the log

Everything the lock does is a matter of how many threads are in which role. `LockInv` says
what the counters of `server_log_t` count, that writers exclude each other and all readers,
and that nobody sleeps for good: a blocked writer has a thread in front of it that holds the
lock or was woken to take it, a blocked reader has a writer in front of it.
-/

namespace OsProjects.Server.Log

open Threads

/-! ## The lock in numbers -/

/-- The invariant, for `n r` threads in role `r`. -/
structure LockInv (log : ServerLog) (n : Role → Nat) : Prop where
  readersActive : log.readersActive = n .reader
  writersActive : log.writersActive = n .writer
  writersWaiting : log.writersWaiting = n .blockedWriter + n .wokenWriter
  exclusive : n .writer ≤ 1
  apart : n .writer = 0 ∨ n .reader = 0
  blockedWriters : 0 < n .blockedWriter → 0 < n .reader + n .writer + n .wokenWriter
  blockedReaders : 0 < n .blockedReader → 0 < n .writer + n .blockedWriter + n .wokenWriter

/-- One thread went from one role to another. -/
def Moves (old new : Role) (n n' : Role → Nat) : Prop :=
  ∀ r, n' r + (if old = r then 1 else 0) = n r + if new = r then 1 else 0

/-- The counters are as given. -/
def Counters (log : ServerLog) (readersActive writersActive writersWaiting : Int) : Prop :=
  log.readersActive = readersActive ∧ log.writersActive = writersActive ∧ log.writersWaiting = writersWaiting

variable {log log' : ServerLog} {n n' n'' : Role → Nat} {old new r : Role}

/-- The counts the invariant looks at. -/
theorem Moves.counts (h : Moves old new n n') :
    n' .reader + (if old = .reader then 1 else 0) = n .reader + (if new = .reader then 1 else 0) ∧
    n' .writer + (if old = .writer then 1 else 0) = n .writer + (if new = .writer then 1 else 0) ∧
    n' .blockedWriter + (if old = .blockedWriter then 1 else 0) = n .blockedWriter + (if new = .blockedWriter then 1 else 0) ∧
    n' .wokenWriter + (if old = .wokenWriter then 1 else 0) = n .wokenWriter + (if new = .wokenWriter then 1 else 0) ∧
    n' .blockedReader + (if old = .blockedReader then 1 else 0) = n .blockedReader + (if new = .blockedReader then 1 else 0) :=
  ⟨h _, h _, h _, h _, h _⟩

/-- What a signal to the writers does: if one is still blocked afterwards, one was woken. -/
structure SignalsWriter (n n' : Role → Nat) : Prop where
  others : ∀ r, r ≠ .blockedWriter → r ≠ .wokenWriter → n' r = n r
  writers : n' .blockedWriter + n' .wokenWriter = n .blockedWriter + n .wokenWriter
  wakes : 0 < n' .blockedWriter → 0 < n' .wokenWriter

/-- What a broadcast to the readers does: none of them stays blocked. -/
structure WakesReaders (n n' : Role → Nat) : Prop where
  others : ∀ r, r ≠ .blockedReader → r ≠ .wokenReader → n' r = n r
  wakes : n' .blockedReader = 0

namespace LockInv

/-- Steps outside the lock's own code. -/
theorem congr (inv : LockInv log n) (same : ∀ r, r ≠ .outside → n' r = n r)
    (counters : Counters log' log.readersActive log.writersActive log.writersWaiting) : LockInv log' n' := by
  obtain ⟨cr, cw, cq⟩ := counters
  have reader := same .reader (by decide)
  have writer := same .writer (by decide)
  have blockedWriter := same .blockedWriter (by decide)
  have wokenWriter := same .wokenWriter (by decide)
  have blockedReader := same .blockedReader (by decide)
  obtain ⟨hr, hw, hq, exclusive, apart, blockedW, blockedR⟩ := inv
  constructor <;> omega

/-- A blocked thread is woken. -/
theorem wake (inv : LockInv log n) (move : Moves old new n n')
    (roles : old = .blockedWriter ∧ new = .wokenWriter ∨ old = .blockedReader ∧ new = .wokenReader) :
    LockInv log n' := by
  obtain ⟨hr, hw, hq, exclusive, apart, blockedW, blockedR⟩ := inv
  have counts := move.counts
  rcases roles with ⟨rfl, rfl⟩ | ⟨rfl, rfl⟩ <;>
  · simp only [reduceCtorEq, if_true, if_false] at counts
    constructor <;> omega

/-- `rw_write_lock` waits: the thread came in and was counted, or was woken and counts already. -/
theorem blockWriter (inv : LockInv log n) (busy : 0 < log.readersActive ∨ 0 < log.writersActive)
    (move : Moves old .blockedWriter n n')
    (came : old = .outside ∧ Counters log' log.readersActive log.writersActive (log.writersWaiting + 1) ∨
      old = .wokenWriter ∧ Counters log' log.readersActive log.writersActive log.writersWaiting) : LockInv log' n' := by
  obtain ⟨hr, hw, hq, exclusive, apart, blockedW, blockedR⟩ := inv
  have counts := move.counts
  rcases came with ⟨rfl, cr, cw, cq⟩ | ⟨rfl, cr, cw, cq⟩ <;>
  · simp only [reduceCtorEq, if_true, if_false] at counts
    constructor <;> omega

/-- `rw_write_lock` gets the lock. -/
theorem enterWriter (inv : LockInv log n) (free : ¬(0 < log.readersActive ∨ 0 < log.writersActive))
    (move : Moves old .writer n n')
    (came : old = .outside ∧ Counters log' log.readersActive 1 log.writersWaiting ∨
      old = .wokenWriter ∧ Counters log' log.readersActive 1 (log.writersWaiting - 1)) : LockInv log' n' := by
  obtain ⟨hr, hw, hq, exclusive, apart, blockedW, blockedR⟩ := inv
  have counts := move.counts
  rcases came with ⟨rfl, cr, cw, cq⟩ | ⟨rfl, cr, cw, cq⟩ <;>
  · simp only [reduceCtorEq, if_true, if_false] at counts
    constructor <;> omega

/-- `rw_read_lock` waits. -/
theorem blockReader (inv : LockInv log n) (busy : 0 < log.writersActive ∨ 0 < log.writersWaiting)
    (move : Moves old .blockedReader n n') (came : old = .outside ∨ old = .wokenReader) : LockInv log n' := by
  obtain ⟨hr, hw, hq, exclusive, apart, blockedW, blockedR⟩ := inv
  have counts := move.counts
  rcases came with rfl | rfl <;>
  · simp only [reduceCtorEq, if_true, if_false] at counts
    constructor <;> omega

/-- `rw_read_lock` gets the lock. -/
theorem enterReader (inv : LockInv log n) (free : ¬(0 < log.writersActive ∨ 0 < log.writersWaiting))
    (move : Moves old .reader n n') (came : old = .outside ∨ old = .wokenReader)
    (counters : Counters log' (log.readersActive + 1) log.writersActive log.writersWaiting) : LockInv log' n' := by
  obtain ⟨cr, cw, cq⟩ := counters
  obtain ⟨hr, hw, hq, exclusive, apart, blockedW, blockedR⟩ := inv
  have counts := move.counts
  rcases came with rfl | rfl <;>
  · simp only [reduceCtorEq, if_true, if_false] at counts
    constructor <;> omega

/-- `rw_write_unlock`: a waiting writer is signalled, else the readers are woken. -/
theorem leaveWriter (inv : LockInv log n) (move : Moves .writer .outside n n')
    (wakes : 0 < log.writersWaiting ∧ SignalsWriter n' n'' ∨ ¬0 < log.writersWaiting ∧ WakesReaders n' n'')
    (counters : Counters log' log.readersActive 0 log.writersWaiting) : LockInv log' n'' := by
  obtain ⟨cr, cw, cq⟩ := counters
  obtain ⟨hr, hw, hq, exclusive, apart, blockedW, blockedR⟩ := inv
  have counts := move.counts
  simp only [reduceCtorEq, if_true, if_false] at counts
  rcases wakes with ⟨waiting, signal⟩ | ⟨none, readers⟩
  · have reader := signal.others .reader (by decide) (by decide)
    have writer := signal.others .writer (by decide) (by decide)
    have blockedReader := signal.others .blockedReader (by decide) (by decide)
    have writers := signal.writers
    have woken := signal.wakes
    constructor <;> omega
  · have reader := readers.others .reader (by decide) (by decide)
    have writer := readers.others .writer (by decide) (by decide)
    have blockedWriter := readers.others .blockedWriter (by decide) (by decide)
    have wokenWriter := readers.others .wokenWriter (by decide) (by decide)
    have blockedReader := readers.wakes
    constructor <;> omega

/-- `rw_read_unlock`: the last reader signals a writer. -/
theorem leaveReader (inv : LockInv log n) (move : Moves .reader .outside n n')
    (wakes : log.readersActive - 1 = 0 ∧ SignalsWriter n' n'' ∨ log.readersActive - 1 ≠ 0 ∧ n'' = n')
    (counters : Counters log' (log.readersActive - 1) log.writersActive log.writersWaiting) : LockInv log' n'' := by
  obtain ⟨cr, cw, cq⟩ := counters
  obtain ⟨hr, hw, hq, exclusive, apart, blockedW, blockedR⟩ := inv
  have counts := move.counts
  simp only [reduceCtorEq, if_true, if_false] at counts
  rcases wakes with ⟨last, signal⟩ | ⟨more, rfl⟩
  · have reader := signal.others .reader (by decide) (by decide)
    have writer := signal.others .writer (by decide) (by decide)
    have blockedReader := signal.others .blockedReader (by decide) (by decide)
    have writers := signal.writers
    have woken := signal.wakes
    constructor <;> omega
  · constructor <;> omega

end LockInv

/-! ## The lock in the system -/

variable {ι : Type*} [Fintype ι] {s s' : State ι} {i : ι} {t : Thread} {entry : CString}

/-- The number of threads in a role. -/
def State.count (s : State ι) (r : Role) : Nat := number Thread.role s.threads r

theorem LockInv.start (data : Nat) (heap : Heap) : LockInv (logInit data) (State.start data heap : State ι).count := by
  have none : ∀ r, r ≠ Role.outside → (State.start data heap : State ι).count r = 0 := by
    intro r ne
    apply Nat.eq_zero_of_not_pos
    intro pos
    obtain ⟨i, role⟩ := number_pos_iff.mp pos
    exact ne role.symm
  constructor <;> simp [none, logInit]

/-- A broadcast on `can_read`. -/
theorem wakesReaders (th : ι → Thread) :
    WakesReaders (number Thread.role th) (number Thread.role (broadcast Thread.wakeRead th)) where
  others := by
    intro r ne ne'
    apply number_broadcast
    intro a b woken
    cases a with
    | waitRead =>
      obtain rfl := Option.some_inj.mp woken
      exact ⟨fun e => absurd e.symm ne', fun e => absurd e.symm ne⟩
    | _ => exact nomatch woken
  wakes := by
    apply Nat.eq_zero_of_not_pos
    intro pos
    obtain ⟨i, role⟩ := number_pos_iff.mp pos
    unfold broadcast at role
    cases pc : th i <;> rw [pc] at role <;> exact nomatch role

variable [DecidableEq ι]

theorem moves_update (th : ι → Thread) (i : ι) (t : Thread) :
    Moves (th i).role t.role (number Thread.role th) (number Thread.role (Function.update th i t)) :=
  number_update Thread.role th i t

theorem wakeWrite_role {a b : Thread} (woken : a.wakeWrite = some b) :
    a.role = .blockedWriter ∧ b.role = .wokenWriter := by
  cases a with
  | waitWrite entry =>
    obtain rfl := Option.some_inj.mp woken
    exact ⟨rfl, rfl⟩
  | _ => exact nomatch woken

theorem wakeRead_role {a b : Thread} (woken : a.wakeRead = some b) :
    a.role = .blockedReader ∧ b.role = .wokenReader := by
  cases a with
  | waitRead =>
    obtain rfl := Option.some_inj.mp woken
    exact ⟨rfl, rfl⟩
  | _ => exact nomatch woken

theorem role_reader {a : Thread} (role : a.role = .reader) : ∃ point, a = .reading point := by
  cases a with
  | reading point => exact ⟨point, rfl⟩
  | _ => exact nomatch role

theorem role_writer {a : Thread} (role : a.role = .writer) : ∃ entry point, a = .writing entry point := by
  cases a with
  | writing entry point => exact ⟨entry, point, rfl⟩
  | _ => exact nomatch role

theorem role_wokenWriter {a : Thread} (role : a.role = .wokenWriter) : ∃ entry, a = .wokenWrite entry := by
  cases a with
  | wokenWrite entry => exact ⟨entry, rfl⟩
  | _ => exact nomatch role

/-- A signal on `can_write`. -/
theorem signalsWriter {th th' : ι → Thread} (signal : Signal Thread.wakeWrite th th') :
    SignalsWriter (number Thread.role th) (number Thread.role th') := by
  cases signal with
  | @wakes i a blocked =>
    obtain ⟨old, new⟩ := wakeWrite_role blocked
    have moved := moves_update th i a
    rw [old, new] at moved
    have counts := moved.counts
    simp only [reduceCtorEq, if_true, if_false] at counts
    constructor
    · intro r ne ne'
      have other := moved r
      rw [if_neg ne.symm, if_neg ne'.symm] at other
      omega
    · omega
    · omega
  | nobody none =>
    refine ⟨fun _ _ _ => rfl, rfl, ?_⟩
    intro pos
    obtain ⟨i, role⟩ := number_pos_iff.mp pos
    have awake := none i
    cases pc : th i <;> rw [pc] at role awake
    case waitWrite => cases awake
    all_goals cases role

namespace LockInv

/-- `rw_write_lock` up to its wait or its end. -/
theorem tryWrite (inv : LockInv s.log s.count) {log : ServerLog} (pc : (s.threads i).role = .outside ∧
      Counters log s.log.readersActive s.log.writersActive (s.log.writersWaiting + 1) ∨
    (s.threads i).role = .wokenWriter ∧
      Counters log s.log.readersActive s.log.writersActive s.log.writersWaiting) :
    LockInv (State.tryWrite { s with log := log } i entry).log (State.tryWrite { s with log := log } i entry).count := by
  have readers : log.readersActive = s.log.readersActive := pc.elim (fun c => c.2.1) fun c => c.2.1
  have writers : log.writersActive = s.log.writersActive := pc.elim (fun c => c.2.2.1) fun c => c.2.2.1
  have moves := moves_update s.threads i
  unfold State.tryWrite
  simp only [readers, writers]
  split_ifs with busy
  · exact inv.blockWriter busy (moves (.waitWrite entry)) pc
  · refine inv.enterWriter busy (moves (.writing entry .test)) ?_
    rcases pc with ⟨role, -, -, waiting⟩ | ⟨role, -, -, waiting⟩
    · refine .inl ⟨role, rfl, rfl, ?_⟩
      simp only
      omega
    · refine .inr ⟨role, rfl, rfl, ?_⟩
      simp only
      omega

/-- `rw_read_lock` up to its wait or its end. -/
theorem tryRead (inv : LockInv s.log s.count)
    (pc : (s.threads i).role = .outside ∨ (s.threads i).role = .wokenReader) :
    LockInv (s.tryRead i).log (s.tryRead i).count := by
  have moves := moves_update s.threads i
  unfold State.tryRead
  split_ifs with busy
  · exact inv.blockReader busy (moves .waitRead) pc
  · exact inv.enterReader busy (moves (.reading .len)) pc ⟨rfl, rfl, rfl⟩

/-- A move that stays in the role. -/
theorem set (inv : LockInv s.log s.count) {log : ServerLog} (role : t.role = (s.threads i).role)
    (counters : Counters log s.log.readersActive s.log.writersActive s.log.writersWaiting) :
    LockInv log (s.set i t).count := by
  refine inv.congr (fun r _ => ?_) counters
  have moved := moves_update s.threads i t r
  rw [role] at moved
  exact Nat.add_right_cancel moved

end LockInv

/-- The bodies leave the lock alone. -/
theorem WriteStep.counters {log log' : ServerLog} {heap heap' : Heap} {point point' : WritePoint}
    (body : WriteStep entry (log, heap) point (log', heap') point') :
    Counters log' log.readersActive log.writersActive log.writersWaiting := by
  cases body <;> exact ⟨rfl, rfl, rfl⟩

/-- **Every step keeps the lock's invariant.** -/
theorem LockInv.step (inv : LockInv s.log s.count) (step : Step s s') : LockInv s'.log s'.count := by
  have same : Counters s.log s.log.readersActive s.log.writersActive s.log.writersWaiting := ⟨rfl, rfl, rfl⟩
  cases step with
  | callWrite i entry pc => exact inv.set (by rw [pc]; rfl) same
  | callRead i pc => exact inv.set (by rw [pc]; rfl) same
  | lockWrite pc => exact inv.tryWrite (.inl ⟨by rw [pc]; rfl, rfl, rfl, rfl⟩)
  | retryWrite pc => exact inv.tryWrite (.inr ⟨by rw [pc]; rfl, same⟩)
  | lockRead pc => exact inv.tryRead (.inl (by rw [pc]; rfl))
  | retryRead pc => exact inv.tryRead (.inr (by rw [pc]; rfl))
  | spurious blocked =>
    apply inv.wake (moves_update s.threads _ _)
    exact blocked.imp wakeWrite_role wakeRead_role
  | write pc body => exact inv.set (by rw [pc]; rfl) body.counters
  | read pc body => exact inv.set (by rw [pc]; rfl) same
  | @unlockWrite i entry th' pc wakes =>
    have moved := moves_update s.threads i .idle
    rw [pc] at moved
    refine inv.leaveWriter moved ?_ ⟨rfl, rfl, rfl⟩
    cases wakes with
    | writer waiting signal => exact .inl ⟨waiting, signalsWriter signal⟩
    | readers none => exact .inr ⟨none, wakesReaders _⟩
  | @unlockRead i len out th' pc wakes =>
    have moved := moves_update s.threads i .idle
    rw [pc] at moved
    refine inv.leaveReader moved ?_ ⟨rfl, rfl, rfl⟩
    cases wakes with
    | writer last signal => exact .inl ⟨last, signalsWriter signal⟩
    | nobody more => exact .inr ⟨more, rfl⟩

theorem Reachable.lock (reach : Reachable s) : LockInv s.log s.count := by
  induction reach with
  | start data heap => exact LockInv.start data heap
  | step _ step ih => exact ih.step step

/-- **The lock strands nobody.** A blocked writer has a thread that holds the lock, or a woken
writer, in front of it; a blocked reader has an active or a waiting writer. So the threads
are never all blocked. -/
theorem lock_strands_nobody [Nonempty ι] (reach : Reachable s) :
    (∀ i entry, s.threads i = .waitWrite entry → (∃ j point, s.threads j = .reading point) ∨
      (∃ j e point, s.threads j = .writing e point) ∨ ∃ j e, s.threads j = .wokenWrite e) ∧
    (∀ i, s.threads i = .waitRead → 0 < s.log.writersActive ∨ 0 < s.log.writersWaiting) ∧
    ¬∀ i, s.threads i = .waitRead ∨ ∃ entry, s.threads i = .waitWrite entry := by
  have inv := reach.lock
  have writers : ∀ i entry, s.threads i = .waitWrite entry → (∃ j point, s.threads j = .reading point) ∨
      (∃ j e point, s.threads j = .writing e point) ∨ ∃ j e, s.threads j = .wokenWrite e := by
    intro i entry pc
    have blocked : 0 < s.count .blockedWriter := number_pos (by rw [pc]; rfl)
    have front : 0 < s.count .reader ∨ 0 < s.count .writer ∨ 0 < s.count .wokenWriter := by
      have := inv.blockedWriters blocked
      omega
    rcases front with pos | pos | pos
    · obtain ⟨j, role⟩ := number_pos_iff.mp pos
      exact .inl ⟨j, role_reader role⟩
    · obtain ⟨j, role⟩ := number_pos_iff.mp pos
      exact .inr (.inl ⟨j, role_writer role⟩)
    · obtain ⟨j, role⟩ := number_pos_iff.mp pos
      exact .inr (.inr ⟨j, role_wokenWriter role⟩)
  have readers : ∀ i, s.threads i = .waitRead → 0 < s.log.writersActive ∨ 0 < s.log.writersWaiting := by
    intro i pc
    have front := inv.blockedReaders (number_pos (i := i) (by rw [pc]; rfl))
    rw [inv.writersActive, inv.writersWaiting]
    omega
  refine ⟨writers, readers, ?_⟩
  intro all
  -- a blocked writer needs a thread that is not blocked; so do blocked readers without a blocked writer
  have noWriter : ∀ i entry, s.threads i ≠ .waitWrite entry := by
    intro i entry pc
    rcases writers i entry pc with ⟨j, point, pc'⟩ | ⟨j, e, point, pc'⟩ | ⟨j, e, pc'⟩ <;>
    · rcases all j with no | ⟨_, no⟩ <;> exact nomatch pc'.symm.trans no
  have allRead : ∀ i, s.threads i = .waitRead := fun i => (all i).resolve_right fun ⟨entry, pc⟩ => noWriter i entry pc
  have none : ∀ r, r ≠ Role.blockedReader → s.count r = 0 := by
    intro r ne
    apply Nat.eq_zero_of_not_pos
    intro pos
    obtain ⟨i, role⟩ := number_pos_iff.mp pos
    rw [allRead i] at role
    exact ne role.symm
  obtain ⟨i⟩ := ‹Nonempty ι›
  have active := inv.writersActive
  have waiting := inv.writersWaiting
  rw [none .writer (by decide)] at active
  rw [none .blockedWriter (by decide), none .wokenWriter (by decide)] at waiting
  have front := readers i (allRead i)
  omega

/-- A second writer waits for the first. -/
theorem lock_strands_nobody_second : ∃ s : State (Fin 2), Reachable s ∧
    (∃ entry, s.threads 1 = .waitWrite entry) ∧
    ¬∀ i, s.threads i = .waitRead ∨ ∃ entry, s.threads i = .waitWrite entry := by
  have entry : CString := ⟨[65], by decide⟩
  have reach₀ : Reachable (State.start 0 fun _ _ => 0 : State (Fin 2)) := .start _ _
  have reach₁ := reach₀.step (.callWrite 0 entry rfl)
  have reach₂ := reach₁.step (.lockWrite (i := 0) rfl)
  have reach₃ := reach₂.step (.callWrite 1 entry rfl)
  have reach₄ := reach₃.step (.lockWrite (i := 1) rfl)
  exact ⟨_, reach₄, ⟨entry, rfl⟩, (lock_strands_nobody reach₄).2.2⟩

end OsProjects.Server.Log
