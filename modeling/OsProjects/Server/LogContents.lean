import OsProjects.Server.RwLock

/-!
# The contents of the log

What the buffer holds at every point of `log_write` and what a reader has copied at every
point of `log_read`. The lock keeps a writer alone and readers away from writers, so the
points of one thread are only ever disturbed by its own steps: the log is the
concatenation of the complete entries, and a read returns it as it was at one moment.
-/

namespace OsProjects.Server.Log

open Threads

/-- The concatenation of entries. -/
def text (entries : List CString) : List UInt8 := (entries.map CString.bytes).flatten

/-- The buffer at `p` starts with `l`. -/
def Holds (heap : Heap) (p : Nat) (l : List UInt8) : Prop := ∀ (k : Nat) b, l[k]? = some b → heap p k = b

/-- The log is `c`, terminated. -/
structure Stored (log : ServerLog) (heap : Heap) (c : List UInt8) : Prop where
  len : log.len = c.length
  bytes : Holds heap log.data (c ++ [0])
  room : c.length + 1 ≤ log.capacity

/-- What holds while `entry` is appended to `c`, by the point the writer has reached. -/
def WriteInv (log : ServerLog) (heap : Heap) (c entry : List UInt8) : WritePoint → Prop
  | .test => Stored log heap c
  | .double => Stored log heap c ∧ log.capacity < c.length + entry.length + 1
  | .realloc old => log.len = c.length ∧ Holds heap log.data (c ++ [0]) ∧ c.length + 1 ≤ old ∧ log.capacity = old * 2
  | .copy dst pos done => dst = log.data ∧ pos = c.length ∧ log.len = c.length ∧ done ≤ entry.length ∧
      Holds heap log.data (c ++ entry.take done) ∧ c.length + entry.length + 1 ≤ log.capacity
  | .advance => log.len = c.length ∧ Holds heap log.data (c ++ entry) ∧ c.length + entry.length + 1 ≤ log.capacity
  | .terminate => log.len = (c ++ entry).length ∧ Holds heap log.data (c ++ entry) ∧
      c.length + entry.length + 1 ≤ log.capacity
  | .done => Stored log heap (c ++ entry)

/-- What a reader of the log `c` has, by the point it has reached. -/
def ReadInv (log : ServerLog) (c : List UInt8) : ReadPoint → Prop
  | .len => True
  | .start len => len = c.length
  | .copy src len out => src = log.data ∧ len = c.length ∧ out <+: c ++ [0]
  | .done len out => len = c.length ∧ out = c ++ [0]

variable {log log' : ServerLog} {heap heap' : Heap} {c l l' : List UInt8} {p : Nat} {b : UInt8} {entry : CString}

theorem text_append (es es' : List CString) : text (es ++ es') = text es ++ text es' := by
  simp [text]

theorem text_singleton (e : CString) : text [e] = e.bytes := by simp [text]

theorem Holds.of_prefix (h : Holds heap p l) (pre : l' <+: l) : Holds heap p l' := by
  intro k b get
  obtain ⟨rest, rfl⟩ := pre
  apply h k b
  rw [List.getElem?_append_left (List.getElem?_eq_some_iff.mp get).1]
  exact get

/-- Storing the next byte. -/
theorem Holds.store (h : Holds heap p l) (b : UInt8) : Holds (store heap p l.length b) p (l ++ [b]) := by
  intro k b' get
  unfold Log.store
  rw [Function.update_self]
  by_cases last : k = l.length
  · subst last
    rw [Function.update_self]
    simpa using get
  · have lt : k < l.length := by
      have := (List.getElem?_eq_some_iff.mp get).1
      rw [List.length_append, List.length_singleton] at this
      omega
    rw [Function.update_of_ne (by omega)]
    rw [List.getElem?_append_left lt] at get
    exact h k b' get

/-- `Realloc` keeps the bytes of the log. -/
theorem Holds.realloc {old new : Int} {q : Nat} {junk : Heap} (h : Holds heap p l) (small : l.length ≤ old)
    (grows : old ≤ new) : Holds (reallocHeap heap p old new q junk) q l := by
  intro k b get
  have lt := (List.getElem?_eq_some_iff.mp get).1
  unfold reallocHeap
  rw [if_pos ⟨rfl, by omega, by omega, by omega⟩]
  exact h k b get

/-- One byte more of a copy. -/
theorem prefix_next (pre : l' <+: l) (next : l[l'.length]? = some b) : l' ++ [b] <+: l := by
  obtain ⟨rest, rfl⟩ := pre
  cases rest with
  | nil => simp at next
  | cons x rest =>
    obtain rfl : x = b := by simpa using next
    exact ⟨rest, by simp⟩

/-! ## The bodies -/

/-- **A step of `log_write`'s body.** -/
theorem WriteStep.inv {point point' : WritePoint} (body : WriteStep entry (log, heap) point (log', heap') point')
    (inv : WriteInv log heap c entry.bytes point) (small : c.length + entry.bytes.length < 2 ^ 30)
    (capacity : log.capacity < 2 ^ 31) : WriteInv log' heap' c entry.bytes point' ∧ log'.capacity < 2 ^ 31 := by
  have elen : int32 entry.bytes.length = entry.bytes.length := int32_of_lt (by omega) (by omega)
  have sum : log.len = c.length → int32 (log.len + int32 entry.bytes.length) = c.length + entry.bytes.length := by
    intro len
    rw [elen, len]
    exact int32_of_lt (by omega) (by omega)
  have need : log.len = c.length →
      int32 (int32 (log.len + int32 entry.bytes.length) + 1) = c.length + entry.bytes.length + 1 := by
    intro len
    rw [sum len]
    exact int32_of_lt (by omega) (by omega)
  cases body with
  | grow short =>
    rw [need inv.len] at short
    exact ⟨⟨inv, short⟩, capacity⟩
  | fits enough =>
    rw [need inv.len] at enough
    refine ⟨⟨rfl, inv.len, inv.len, Nat.zero_le _, ?_, by omega⟩, capacity⟩
    rw [List.take_zero, List.append_nil]
    exact inv.bytes.of_prefix (List.prefix_append c [0])
  | double =>
    obtain ⟨stored, short⟩ := inv
    have doubled : int32 (log.capacity * 2) = log.capacity * 2 := int32_of_lt (by have := stored.room; omega) (by omega)
    refine ⟨⟨stored.len, stored.bytes, stored.room, doubled⟩, ?_⟩
    simp only [doubled]
    omega
  | @realloc log heap old data junk =>
    obtain ⟨len, bytes, room, twice⟩ := inv
    refine ⟨⟨len, bytes.realloc ?_ (by omega), by simp only; omega⟩, capacity⟩
    rw [List.length_append, List.length_singleton]
    omega
  | @copyByte log heap dst pos done b next =>
    obtain ⟨rfl, rfl, len, le, bytes, room⟩ := inv
    have lt := (List.getElem?_eq_some_iff.mp next).1
    have stored := bytes.store b
    have pos : ((c ++ entry.bytes.take done).length : Int) = c.length + done := by
      rw [List.length_append, List.length_take, min_eq_left le]
      omega
    rw [pos, List.append_assoc] at stored
    refine ⟨⟨rfl, rfl, len, lt, ?_, room⟩, capacity⟩
    rwa [List.take_add_one, next]
  | copied =>
    obtain ⟨rfl, rfl, len, le, bytes, room⟩ := inv
    rw [List.take_length] at bytes
    exact ⟨⟨len, bytes, room⟩, capacity⟩
  | advance =>
    obtain ⟨len, bytes, room⟩ := inv
    refine ⟨⟨?_, bytes, room⟩, capacity⟩
    simp only [sum len, List.length_append]
    omega
  | terminate =>
    obtain ⟨len, bytes, room⟩ := inv
    refine ⟨⟨len, ?_, ?_⟩, capacity⟩
    · rw [len]
      exact bytes.store 0
    · rw [List.length_append]
      omega

/-- **A step of `log_read`'s body.** -/
theorem ReadStep.inv {point point' : ReadPoint} (body : ReadStep log heap point point') (stored : Stored log heap c)
    (inv : ReadInv log c point) : ReadInv log c point' := by
  cases body with
  | len => exact stored.len
  | start len => exact ⟨rfl, inv, List.nil_prefix⟩
  | @copyByte src len out more =>
    obtain ⟨rfl, rfl, pre⟩ := inv
    have lt : out.length < (c ++ [0]).length := by
      rw [List.length_append, List.length_singleton]
      omega
    have next : (c ++ [0])[out.length]? = some ((c ++ [0]).get ⟨out.length, lt⟩) := List.getElem?_eq_getElem lt
    rw [← stored.bytes _ _ next] at next
    exact ⟨rfl, rfl, prefix_next pre next⟩
  | @copied src len out all =>
    obtain ⟨rfl, rfl, pre⟩ := inv
    refine ⟨rfl, pre.eq_of_length_le ?_⟩
    rw [List.length_append, List.length_singleton]
    omega

/-! ## The system -/

variable {ι : Type*} {s s' : State ι} {i : ι}

structure ContentInv (s : State ι) : Prop where
  quiet : (∀ i, (s.threads i).role ≠ .writer) → s.acquired = s.complete ∧ Stored s.log s.heap (text s.complete)
  writer : ∀ i entry point, s.threads i = .writing entry point →
    s.acquired = s.complete ++ [entry] ∧ WriteInv s.log s.heap (text s.complete) entry.bytes point
  reader : ∀ i point, s.threads i = .reading point → ReadInv s.log (text s.complete) point
  capacity : s.log.capacity < 2 ^ 31
  returned : ∀ r ∈ s.returned, ∃ k ≤ s.complete.length,
    r = (((text (s.complete.take k)).length : Int), text (s.complete.take k) ++ [0])
  ordered : s.returned.Pairwise fun r r' => r.2.dropLast <+: r'.2.dropLast

/-- The thread is inside the lock. -/
def Thread.Active (t : Thread) : Prop := t.role = .writer ∨ t.role = .reader

/-- The same buffer. -/
def SameBuffer (log log' : ServerLog) : Prop := log'.data = log.data ∧ log'.len = log.len ∧ log'.capacity = log.capacity

theorem Stored.congr (h : Stored log heap c) (same : SameBuffer log log') : Stored log' heap c := by
  obtain ⟨data, len, capacity⟩ := same
  exact ⟨len.trans h.len, data ▸ h.bytes, capacity ▸ h.room⟩

theorem WriteInv.congr {point : WritePoint} {e : List UInt8} (h : WriteInv log heap c e point)
    (same : SameBuffer log log') : WriteInv log' heap c e point := by
  have stored := same
  obtain ⟨data, len, capacity⟩ := same
  cases point with
  | test => exact Stored.congr h stored
  | double => exact ⟨h.1.congr stored, capacity ▸ h.2⟩
  | done => exact Stored.congr h stored
  | _ =>
    unfold WriteInv at h ⊢
    rw [data, len, capacity]
    exact h

theorem ReadInv.congr {point : ReadPoint} (h : ReadInv log c point) (same : SameBuffer log log') : ReadInv log' c point := by
  cases point with
  | copy src len out =>
    unfold ReadInv at h ⊢
    rw [same.1]
    exact h
  | _ => exact h

theorem ContentInv.start (data : Nat) (heap : Heap) : ContentInv (State.start data heap : State ι) := by
  constructor
  · intro _
    have empty : Holds heap data [] := fun k b get => nomatch get
    have room : ((0 : Nat) : Int) + 1 ≤ logInitCap := by decide
    exact ⟨rfl, rfl, empty.store 0, room⟩
  · exact fun i entry point pc => nomatch pc
  · exact fun i point pc => nomatch pc
  · change logInitCap < 2 ^ 31
    decide
  · exact fun r mem => absurd mem List.not_mem_nil
  · exact List.Pairwise.nil

namespace ContentInv

/-- Steps that only concern threads outside the lock. -/
theorem frame (inv : ContentInv s) (threads : ∀ j, (s.threads j).Active ∨ (s'.threads j).Active → s'.threads j = s.threads j)
    (buffer : SameBuffer s.log s'.log) (heap : s'.heap = s.heap) (acquired : s'.acquired = s.acquired)
    (complete : s'.complete = s.complete) (returned : s'.returned = s.returned) : ContentInv s' := by
  constructor
  · intro none
    rw [acquired, complete, heap]
    have none' : ∀ j, (s.threads j).role ≠ .writer := by
      intro j role
      apply none j
      rw [threads j (.inl (.inl role))]
      exact role
    obtain ⟨all, stored⟩ := inv.quiet none'
    exact ⟨all, stored.congr buffer⟩
  · intro j entry point pc
    have pc' := threads j (.inr (.inl (by rw [pc]; rfl)))
    rw [acquired, complete, heap]
    obtain ⟨all, write⟩ := inv.writer j entry point (pc'.symm.trans pc)
    exact ⟨all, write.congr buffer⟩
  · intro j point pc
    have pc' := threads j (.inr (.inr (by rw [pc]; rfl)))
    rw [complete]
    exact (inv.reader j point (pc'.symm.trans pc)).congr buffer
  · rw [buffer.2.2]
    exact inv.capacity
  · rw [returned, complete]
    exact inv.returned
  · rw [returned]
    exact inv.ordered

variable [DecidableEq ι]

/-- A thread outside the lock stays outside. -/
theorem set (inv : ContentInv s) {t : Thread} (old : ¬(s.threads i).Active) (new : ¬t.Active) {log : ServerLog}
    (buffer : SameBuffer s.log log) : ContentInv { s.set i t with log := log } := by
  refine inv.frame (fun j active => ?_) buffer rfl rfl rfl rfl
  by_cases e : j = i
  · subst e
    refine absurd active (not_or.mpr ⟨old, ?_⟩)
    change ¬((s.set j t).threads j).Active
    rwa [s.set_self]
  · exact s.set_ne _ e

/-- A writer gets the lock. -/
theorem enterWriter (inv : ContentInv s) (free : ∀ j, ¬(s.threads j).Active) {log : ServerLog}
    (buffer : SameBuffer s.log log) (entry : CString) :
    ContentInv { s.set i (.writing entry .test) with log := log, acquired := s.acquired ++ [entry] } := by
  obtain ⟨all, stored⟩ := inv.quiet fun j role => free j (.inl role)
  have others : ∀ j, ((s.set i (.writing entry .test)).threads j).Active → j = i := by
    intro j active
    by_contra ne
    apply free j
    rwa [s.set_ne _ ne] at active
  have self : (s.set i (.writing entry .test)).threads i = .writing entry .test := s.set_self i _
  constructor
  · intro none
    exact absurd (congrArg Thread.role self) (none i)
  · intro j entry' point pc
    obtain rfl := others j (.inl (by rw [pc]; rfl))
    obtain ⟨rfl, rfl⟩ := Thread.writing.inj (self.symm.trans pc)
    exact ⟨congrArg (· ++ [entry]) all, stored.congr buffer⟩
  · intro j point pc
    obtain rfl := others j (.inr (by rw [pc]; rfl))
    exact nomatch self.symm.trans pc
  · exact buffer.2.2 ▸ inv.capacity
  · exact inv.returned
  · exact inv.ordered

/-- A reader gets the lock or goes on copying. -/
theorem setReader (inv : ContentInv s) {point : ReadPoint} (none : ∀ j, (s.threads j).role ≠ .writer)
    (read : ReadInv s.log (text s.complete) point) {log : ServerLog} (buffer : SameBuffer s.log log) :
    ContentInv { s.set i (.reading point) with log := log } := by
  have self : (s.set i (.reading point)).threads i = .reading point := s.set_self i _
  have others : ∀ j, j ≠ i → (s.set i (.reading point)).threads j = s.threads j :=
    fun j ne => s.set_ne _ ne
  obtain ⟨all, stored⟩ := inv.quiet none
  constructor
  · exact fun _ => ⟨all, stored.congr buffer⟩
  · intro j entry point' pc
    by_cases e : j = i
    · subst e
      exact nomatch self.symm.trans pc
    · have pc' : s.threads j = _ := (others j e).symm.trans pc
      exact absurd (congrArg Thread.role pc') (none j)
  · intro j point' pc
    by_cases e : j = i
    · subst e
      obtain rfl := Thread.reading.inj (self.symm.trans pc)
      exact read.congr buffer
    · exact (inv.reader j point' ((others j e).symm.trans pc)).congr buffer
  · exact buffer.2.2 ▸ inv.capacity
  · exact inv.returned
  · exact inv.ordered

/-- A writer's own step. -/
theorem write (inv : ContentInv s) {entry : CString} {point point' : WritePoint} {log' : ServerLog} {heap' : Heap}
    (pc : s.threads i = .writing entry point) (alone : ∀ j, (s.threads j).Active → j = i)
    (small : (text s.acquired).length < 2 ^ 30) (body : WriteStep entry (s.log, s.heap) point (log', heap') point') :
    ContentInv { s.set i (.writing entry point') with log := log', heap := heap' } := by
  obtain ⟨all, write⟩ := inv.writer i entry point pc
  rw [all, text_append, text_singleton, List.length_append] at small
  obtain ⟨write', capacity⟩ := body.inv write small inv.capacity
  have self : (s.set i (.writing entry point')).threads i = .writing entry point' := s.set_self i _
  have others : ∀ j, ((s.set i (.writing entry point')).threads j).Active → j = i := by
    intro j active
    by_contra ne
    rw [s.set_ne _ ne] at active
    exact ne (alone j active)
  constructor
  · intro none
    exact absurd (congrArg Thread.role self) (none i)
  · intro j entry' point'' pc'
    obtain rfl := others j (.inl (by rw [pc']; rfl))
    obtain ⟨rfl, rfl⟩ := Thread.writing.inj (self.symm.trans pc')
    exact ⟨all, write'⟩
  · intro j point'' pc'
    obtain rfl := others j (.inr (by rw [pc']; rfl))
    exact nomatch self.symm.trans pc'
  · exact capacity
  · exact inv.returned
  · exact inv.ordered

end ContentInv

section Wakes

variable [DecidableEq ι] {th th' : ι → Thread} {j : ι}

/-- Waking does not concern the threads inside the lock. -/
theorem signal_active (signal : Signal Thread.wakeWrite th th') (active : (th j).Active ∨ (th' j).Active) :
    th' j = th j := by
  cases signal with
  | @wakes i a blocked =>
    by_cases e : j = i
    · subst e
      rw [Function.update_self] at active
      obtain ⟨old, new⟩ := wakeWrite_role blocked
      unfold Thread.Active at active
      rw [old, new] at active
      exact absurd active (by decide)
    · exact Function.update_of_ne e _ _
  | nobody none => rfl

omit [DecidableEq ι] in
theorem broadcast_active (active : (th j).Active ∨ (broadcast Thread.wakeRead th j).Active) :
    broadcast Thread.wakeRead th j = th j := by
  unfold broadcast at active ⊢
  cases woken : (th j).wakeRead with
  | none => rfl
  | some a =>
    obtain ⟨old, new⟩ := wakeRead_role woken
    rw [woken, Option.getD_some] at active
    unfold Thread.Active at active
    rw [old, new] at active
    exact absurd active (by decide)

theorem WriteUnlockWakes.active {log : ServerLog} (wakes : WriteUnlockWakes log th th')
    (active : (th j).Active ∨ (th' j).Active) : th' j = th j := by
  cases wakes with
  | writer _ signal => exact signal_active signal active
  | readers _ => exact broadcast_active active

theorem ReadUnlockWakes.active {log : ServerLog} (wakes : ReadUnlockWakes log th th')
    (active : (th j).Active ∨ (th' j).Active) : th' j = th j := by
  cases wakes with
  | writer _ signal => exact signal_active signal active
  | nobody _ => rfl

end Wakes

namespace ContentInv

variable [DecidableEq ι] {th' : ι → Thread}

/-- A writer gives the lock back. -/
theorem leaveWriter (inv : ContentInv s) {entry : CString} {log : ServerLog} (pc : s.threads i = .writing entry .done)
    (alone : ∀ j, (s.threads j).Active → j = i) (buffer : SameBuffer s.log log)
    (wakes : WriteUnlockWakes s.log (Function.update s.threads i .idle) th') :
    ContentInv { s with log := log, threads := th', complete := s.complete ++ [entry] } := by
  obtain ⟨all, stored⟩ := inv.writer i entry .done pc
  have none : ∀ j, ¬(th' j).Active := by
    intro j active
    have same := wakes.active (.inr active)
    rw [same] at active
    by_cases e : j = i
    · subst e
      rw [Function.update_self] at active
      exact absurd active (by unfold Thread.Active; decide)
    · rw [Function.update_of_ne e] at active
      exact e (alone j active)
  constructor
  · intro _
    refine ⟨all, ?_⟩
    simp only [text_append, text_singleton]
    exact Stored.congr stored buffer
  · exact fun j entry' point pc' => absurd (.inl (congrArg Thread.role pc')) (none j)
  · exact fun j point pc' => absurd (.inr (congrArg Thread.role pc')) (none j)
  · exact buffer.2.2 ▸ inv.capacity
  · intro r mem
    obtain ⟨k, le, rfl⟩ := inv.returned r mem
    refine ⟨k, ?_, ?_⟩
    · rw [List.length_append]
      omega
    · simp only [List.take_append_of_le_length le]
  · exact inv.ordered

/-- A reader gives the lock back and returns. -/
theorem leaveReader (inv : ContentInv s) {len : Int} {out : List UInt8} {log log₁ : ServerLog}
    (pc : s.threads i = .reading (.done len out)) (none : ∀ j, (s.threads j).role ≠ .writer)
    (buffer : SameBuffer s.log log) (wakes : ReadUnlockWakes log₁ (Function.update s.threads i .idle) th') :
    ContentInv { s with log := log, threads := th', returned := s.returned ++ [(len, out)] } := by
  obtain ⟨rfl, rfl⟩ := inv.reader i _ pc
  obtain ⟨all, stored⟩ := inv.quiet none
  have same : ∀ j, (th' j).Active → th' j = s.threads j := by
    intro j active
    have woken := wakes.active (.inr active)
    rw [woken] at active ⊢
    by_cases e : j = i
    · subst e
      rw [Function.update_self] at active
      exact absurd active (by unfold Thread.Active; decide)
    · exact Function.update_of_ne e _ _
  constructor
  · exact fun _ => ⟨all, stored.congr buffer⟩
  · intro j entry point pc'
    have old := same j (.inl (congrArg Thread.role pc'))
    exact absurd (congrArg Thread.role (old.symm.trans pc')) (none j)
  · intro j point pc'
    have old := same j (.inr (congrArg Thread.role pc'))
    exact (inv.reader j point (old.symm.trans pc')).congr buffer
  · exact buffer.2.2 ▸ inv.capacity
  · intro r mem
    rcases List.mem_append.mp mem with mem | mem
    · exact inv.returned r mem
    · obtain rfl := List.mem_singleton.mp mem
      exact ⟨s.complete.length, le_refl _, by rw [List.take_length]⟩
  · apply List.pairwise_append.mpr
    refine ⟨inv.ordered, List.pairwise_singleton _ _, ?_⟩
    intro r mem r' mem'
    obtain rfl := List.mem_singleton.mp mem'
    obtain ⟨k, le, rfl⟩ := inv.returned r mem
    simp only [List.dropLast_concat]
    refine ⟨text (s.complete.drop k), ?_⟩
    rw [← text_append, List.take_append_drop]

end ContentInv

/-! ## Runs -/

namespace LockInv

variable [Fintype ι]

/-- A writer inside has the lock for itself. -/
theorem alone (inv : LockInv s.log s.count) {entry : CString} {point : WritePoint}
    (pc : s.threads i = .writing entry point) (j : ι) (active : (s.threads j).Active) : j = i := by
  have role : (s.threads i).role = .writer := congrArg Thread.role pc
  rcases active with writer | reader
  · exact eq_of_number_le_one inv.exclusive writer role
  · have writers : 0 < s.count .writer := number_pos role
    have readers : 0 < s.count .reader := number_pos reader
    have apart := inv.apart
    omega

/-- A reader inside keeps the writers out. -/
theorem noWriter (inv : LockInv s.log s.count) {point : ReadPoint} (pc : s.threads i = .reading point) (j : ι) :
    (s.threads j).role ≠ .writer := by
  intro writer
  obtain ⟨entry, point', pc'⟩ := role_writer writer
  obtain rfl := inv.alone pc' i (.inr (congrArg Thread.role pc))
  exact nomatch pc.symm.trans pc'

/-- `rw_write_lock` only gets past its loop when nobody is inside. -/
theorem free_of_write (inv : LockInv s.log s.count) (free : ¬(0 < s.log.readersActive ∨ 0 < s.log.writersActive)) (j : ι) :
    ¬(s.threads j).Active := by
  rw [inv.readersActive, inv.writersActive] at free
  intro active
  rcases active with role | role
  · have writers : 0 < s.count .writer := number_pos role
    omega
  · have readers : 0 < s.count .reader := number_pos role
    omega

/-- `rw_read_lock` only gets past its loop when no writer is inside. -/
theorem free_of_read (inv : LockInv s.log s.count) (free : ¬(0 < s.log.writersActive ∨ 0 < s.log.writersWaiting)) (j : ι) :
    (s.threads j).role ≠ .writer := by
  rw [inv.writersActive] at free
  intro role
  have writers : 0 < s.count .writer := number_pos role
  omega

end LockInv

section Runs

variable [Fintype ι] [DecidableEq ι]

theorem inactive_of_role {t : Thread} {r : Role} (role : t.role = r) (writer : r ≠ .writer) (reader : r ≠ .reader) :
    ¬t.Active := by
  intro active
  rcases active with e | e
  · exact writer (role.symm.trans e)
  · exact reader (role.symm.trans e)

namespace ContentInv

/-- `rw_write_lock` up to its wait or its end. -/
theorem tryWrite (inv : ContentInv s) (lock : LockInv s.log s.count) {entry : CString} (outside : ¬(s.threads i).Active)
    {log : ServerLog} (buffer : SameBuffer s.log log) (readers : log.readersActive = s.log.readersActive)
    (writers : log.writersActive = s.log.writersActive) : ContentInv (State.tryWrite { s with log := log } i entry) := by
  unfold State.tryWrite
  simp only [readers, writers]
  split_ifs with busy
  · exact inv.set outside (inactive_of_role (r := .blockedWriter) rfl (by decide) (by decide)) buffer
  · have entered : SameBuffer s.log { log with
        readersActive := s.log.readersActive, writersActive := 1, writersWaiting := log.writersWaiting - 1 } := buffer
    exact inv.enterWriter (lock.free_of_write busy) entered entry

/-- `rw_read_lock` up to its wait or its end. -/
theorem tryRead (inv : ContentInv s) (lock : LockInv s.log s.count) (outside : ¬(s.threads i).Active) :
    ContentInv (s.tryRead i) := by
  unfold State.tryRead
  split_ifs with busy
  · exact inv.set outside (inactive_of_role (r := .blockedReader) rfl (by decide) (by decide)) ⟨rfl, rfl, rfl⟩
  · have read : ReadInv s.log (text s.complete) .len := trivial
    exact inv.setReader (lock.free_of_read busy) read ⟨rfl, rfl, rfl⟩

/-- **Every step keeps the contents**, while the log is short enough for its counters. -/
theorem step (inv : ContentInv s) (lock : LockInv s.log s.count) (step : Step s s')
    (small : (text s.acquired).length < 2 ^ 30) : ContentInv s' := by
  have same : SameBuffer s.log s.log := ⟨rfl, rfl, rfl⟩
  have outside : ∀ r {j t}, s.threads j = t → Thread.role t = r → r ≠ .writer → r ≠ .reader →
      ¬(s.threads j).Active := by
    intro r j t pc role
    exact inactive_of_role (pc ▸ role)
  cases step with
  | callWrite i entry pc =>
    exact inv.set (outside .outside pc rfl (by decide) (by decide))
      (inactive_of_role (r := .outside) rfl (by decide) (by decide)) same
  | callRead i pc =>
    exact inv.set (outside .outside pc rfl (by decide) (by decide))
      (inactive_of_role (r := .outside) rfl (by decide) (by decide)) same
  | lockWrite pc =>
    exact inv.tryWrite lock (outside .outside pc rfl (by decide) (by decide)) ⟨rfl, rfl, rfl⟩ rfl rfl
  | retryWrite pc => exact inv.tryWrite lock (outside .wokenWriter pc rfl (by decide) (by decide)) same rfl rfl
  | lockRead pc => exact inv.tryRead lock (outside .outside pc rfl (by decide) (by decide))
  | retryRead pc => exact inv.tryRead lock (outside .wokenReader pc rfl (by decide) (by decide))
  | spurious blocked =>
    rcases blocked with woken | woken
    · obtain ⟨old, new⟩ := wakeWrite_role woken
      exact inv.set (inactive_of_role old (by decide) (by decide)) (inactive_of_role new (by decide) (by decide)) same
    · obtain ⟨old, new⟩ := wakeRead_role woken
      exact inv.set (inactive_of_role old (by decide) (by decide)) (inactive_of_role new (by decide) (by decide)) same
  | write pc body => exact inv.write pc (lock.alone pc) small body
  | read pc body =>
    have none := lock.noWriter pc
    exact inv.setReader none (body.inv (inv.quiet none).2 (inv.reader _ _ pc)) same
  | unlockWrite pc wakes => exact inv.leaveWriter pc (lock.alone pc) ⟨rfl, rfl, rfl⟩ wakes
  | unlockRead pc wakes => exact inv.leaveReader pc (lock.noWriter pc) ⟨rfl, rfl, rfl⟩ wakes

end ContentInv

omit [Fintype ι] in
/-- Entries are only ever added. -/
theorem Step.acquired_prefix (step : Step s s') : s.acquired <+: s'.acquired := by
  have tries : ∀ (s : State ι) i entry, s.acquired <+: (s.tryWrite i entry).acquired := by
    intro s i entry
    unfold State.tryWrite
    split_ifs
    · exact List.prefix_rfl
    · exact List.prefix_append _ _
  cases step with
  | @lockWrite i entry pc =>
    exact tries { s with log := { s.log with writersWaiting := s.log.writersWaiting + 1 } } i entry
  | retryWrite pc => exact tries _ _ _
  | lockRead pc =>
    unfold State.tryRead
    split_ifs <;> exact List.prefix_rfl
  | retryRead pc =>
    unfold State.tryRead
    split_ifs <;> exact List.prefix_rfl
  | _ => exact List.prefix_rfl

theorem Reachable.contents (reach : Reachable s) (small : (text s.acquired).length < 2 ^ 30) : ContentInv s := by
  induction reach with
  | start data heap => exact ContentInv.start data heap
  | @step s s' reach step ih =>
    have before : (text s.acquired).length < 2 ^ 30 := by
      obtain ⟨rest, eq⟩ := step.acquired_prefix
      rw [← eq, text_append, List.length_append] at small
      omega
    exact (ih before).step reach.lock step before

theorem zero_notMem_text (entries : List CString) : (0 : UInt8) ∉ text entries := by
  intro mem
  obtain ⟨l, inl, mem⟩ := List.mem_flatten.mp mem
  obtain ⟨entry, -, rfl⟩ := List.mem_map.mp inl
  exact entry.noNul mem

/-- **The log is linearizable.** Writers are alone and the counters count. Without a writer
inside, the buffer is the concatenation of the complete entries in the order of their
lock acquisitions. A `log_read` returns such a concatenation, terminated, of as many
entries as were complete at some moment, and extends what was returned before. -/
theorem log_linearizable (reach : Reachable s) (small : (text s.acquired).length < 2 ^ 30) :
    (∀ i j, (s.threads i).role = .writer → (s.threads j).role = .writer → i = j) ∧
    (∀ i j, (s.threads i).role = .writer → (s.threads j).role ≠ .reader) ∧
    s.log.readersActive = number Thread.role s.threads .reader ∧
    s.log.writersActive = number Thread.role s.threads .writer ∧
    s.log.writersWaiting = number Thread.role s.threads .blockedWriter + number Thread.role s.threads .wokenWriter ∧
    ((∀ i, (s.threads i).role ≠ .writer) → s.acquired = s.complete ∧ Stored s.log s.heap (text s.complete)) ∧
    s.complete <+: s.acquired ∧
    (∀ i len out, s.threads i = .reading (.done len out) →
      len = (text s.complete).length ∧ out = text s.complete ++ [0]) ∧
    (∀ r ∈ s.returned, ∃ entries, entries <+: s.complete ∧ r.1 = (text entries).length ∧ r.2 = text entries ++ [0] ∧
      0 ∉ text entries) ∧
    s.returned.Pairwise fun r r' => r.2.dropLast <+: r'.2.dropLast := by
  have lock := reach.lock
  have inv := reach.contents small
  refine ⟨?_, ?_, lock.readersActive, lock.writersActive, lock.writersWaiting, inv.quiet, ?_, ?_, ?_, inv.ordered⟩
  · intro i j hi hj
    exact eq_of_number_le_one lock.exclusive hi hj
  · intro i j hi hj
    obtain ⟨point, pc⟩ := role_reader hj
    exact lock.noWriter pc i hi
  · by_cases inside : ∃ i, (s.threads i).role = .writer
    · obtain ⟨i, role⟩ := inside
      obtain ⟨entry, point, pc⟩ := role_writer role
      rw [(inv.writer i entry point pc).1]
      exact List.prefix_append _ _
    · rw [(inv.quiet (not_exists.mp inside)).1]
  · intro i len out pc
    exact inv.reader i _ pc
  · intro r mem
    obtain ⟨k, le, rfl⟩ := inv.returned r mem
    exact ⟨_, List.take_prefix k _, rfl, rfl, zero_notMem_text _⟩

/-- One thread writes an entry, the other reads the log. -/
theorem log_linearizable_one_entry : ∃ s : State (Fin 2), Reachable s ∧ (text s.acquired).length < 2 ^ 30 ∧
    s.returned.length = 1 ∧
    ∀ r ∈ s.returned, ∃ entries, entries <+: s.complete ∧ r.1 = (text entries).length ∧ r.2 = text entries ++ [0] ∧
      0 ∉ text entries := by
  let entry : CString := ⟨[65], by decide⟩
  have reach₀ : Reachable (State.start 0 fun _ _ => 0 : State (Fin 2)) := .start _ _
  have reach₁ := reach₀.step (.callWrite 0 entry rfl)
  have reach₂ := reach₁.step (.lockWrite (i := 0) rfl)
  have reach₃ := reach₂.step (.write (i := 0) rfl (.fits (by decide)))
  have reach₄ := reach₃.step (.write (i := 0) rfl (.copyByte (b := 65) rfl))
  have reach₅ := reach₄.step (.write (i := 0) rfl .copied)
  have reach₆ := reach₅.step (.write (i := 0) rfl .advance)
  have reach₇ := reach₆.step (.write (i := 0) rfl .terminate)
  have reach₈ := reach₇.step (.unlockWrite (i := 0) rfl (.readers (by decide)))
  have reach₉ := reach₈.step (.callRead 1 rfl)
  have reach₁₀ := reach₉.step (.lockRead (i := 1) rfl)
  have reach₁₁ := reach₁₀.step (.read (i := 1) rfl .len)
  have reach₁₂ := reach₁₁.step (.read (i := 1) rfl (.start _))
  have reach₁₃ := reach₁₂.step (.read (i := 1) rfl (.copyByte (by decide)))
  have reach₁₄ := reach₁₃.step (.read (i := 1) rfl (.copyByte (by decide)))
  have reach₁₅ := reach₁₄.step (.read (i := 1) rfl (.copied (by decide)))
  have reach₁₆ := reach₁₅.step (.unlockRead (i := 1) rfl (.writer rfl (.nobody (by decide))))
  have small : (text [entry]).length < 2 ^ 30 := by decide
  exact ⟨_, reach₁₆, small, rfl, (log_linearizable reach₁₆ small).2.2.2.2.2.2.2.2.1⟩

end Runs

end OsProjects.Server.Log
