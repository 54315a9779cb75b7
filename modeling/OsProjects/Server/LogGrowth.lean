import OsProjects.Lib.Runs
import OsProjects.Server.Handler

/-!
# Growth of the log's buffer

`log_write` called again and again, one call after the other, from the log `log_init`
made. The capacity of the buffer is doubled until the entry fits. Its values are
4096, 8192 and so on up to 2^30, the last that an `int` can hold, and the log is never
cut, so the calls are safe as long as everything ever written is shorter than that.
-/

namespace OsProjects.Server.Log

open Relation Runs

/-! ## Calls of `log_write` -/

/-- The log between and inside the calls of `log_write`, with the number of bytes that were
last asked of `Malloc` or `Realloc`. -/
structure Writer where
  log : ServerLog
  heap : Heap
  point : WritePoint
  requested : Int

/-- What is last asked for, after a step from `point`. -/
def WritePoint.request (log : ServerLog) (requested : Int) : WritePoint → Int
  | .realloc _ => log.capacity
  | _ => requested

inductive Writer.Step (entry : CString) : Writer → Writer → Prop where
  | body {log log' : ServerLog} {heap heap' : Heap} {point point' : WritePoint} {requested : Int}
      (step : WriteStep entry (log, heap) point (log', heap') point') :
      Step entry ⟨log, heap, point, requested⟩ ⟨log', heap', point', point.request log requested⟩

abbrev Writer.Steps (entry : CString) : Writer → Writer → Prop := ReflTransGen (Writer.Step entry)

/-- `log_write` was called with these entries, in this order, and returned each time. -/
inductive Logged : List CString → Writer → Prop where
  | init (data : Nat) (heap : Heap) : Logged [] ⟨logInit data, store heap data 0 0, .test, logInitCap⟩
  | write {done : List CString} {a b : Writer} (logged : Logged done a) (entry : CString)
      (run : Writer.Steps entry a b) (returned : b.point = .done) : Logged (done ++ [entry]) { b with point := .test }

/-- A number that an `int` can hold and that is not negative. -/
def Length (x : Int) : Prop := 0 ≤ x ∧ x < 2 ^ 31

/-- Before they are stored in an `int`, the values of the counters and of what is computed
from them at a point of `log_write`. -/
structure InRange (entry : CString) (a : Writer) : Prop where
  len : Length a.log.len
  capacity : Length a.log.capacity
  sum : a.point = .test → Length (a.log.len + entry.bytes.length + 1)
  doubled : a.point = .double → Length (a.log.capacity * 2)
  advanced : a.point = .advance → Length (a.log.len + entry.bytes.length)

/-- A call of `log_write` with `entry` that starts in `a` is safe. -/
structure Grows (entry : CString) (a : Writer) : Prop where
  inRange : ∀ b, Writer.Steps entry a b → InRange entry b
  ends : Acc (flip (Writer.Step entry)) a
  goesOn : ∀ b, Writer.Steps entry a b → b.point ≠ .done → ∃ c, Writer.Step entry b c
  fits : ∀ b, Writer.Steps entry a b → ∀ dst pos done, b.point = .copy dst pos done →
    b.log.len + entry.bytes.length + 1 ≤ b.log.capacity ∧ b.log.capacity = b.requested

/-- Every one of these calls, one after the other, is safe. -/
def SafeLogging (entries : List CString) : Prop :=
  ∀ done entry rest, entries = done ++ entry :: rest → ∀ a, Logged done a → Grows entry a

/-! ## One call -/

/-- What holds in a call with `entry` on the log `c`. -/
structure BodyInv (c : List UInt8) (entry : CString) (a : Writer) : Prop where
  write : WriteInv a.log a.heap c entry.bytes a.point
  capacity : a.log.capacity < 2 ^ 31
  power : ∃ k : Nat, a.log.capacity = 4096 * 2 ^ k
  requested : (∀ old, a.point ≠ .realloc old) → a.log.capacity = a.requested

/-- More than the steps left in a call: a turn of the loop is three, and adds to the capacity. -/
def Writer.left (entry : CString) (a : Writer) : Nat :=
  match a.point with
  | .test => 3 * (2 ^ 31 - a.log.capacity).toNat + entry.bytes.length + 5
  | .double => 3 * (2 ^ 31 - a.log.capacity).toNat + entry.bytes.length + 4
  | .realloc _ => 3 * (2 ^ 31 - a.log.capacity).toNat + entry.bytes.length + 6
  | .copy _ _ done => entry.bytes.length - done + 3
  | .advance => 2
  | .terminate => 1
  | .done => 0

variable {c : List UInt8} {entry : CString} {a b : Writer} {entries done rest : List CString}

/-- The log is `c`, or all of what the call makes of it. -/
theorem WriteInv.len_eq {log : ServerLog} {heap : Heap} {e : List UInt8} {point : WritePoint}
    (inv : WriteInv log heap c e point) : log.len = c.length ∨ log.len = c.length + e.length := by
  cases point with
  | test => exact .inl inv.len
  | double => exact .inl inv.1.len
  | realloc | advance => exact .inl inv.1
  | copy => exact .inl inv.2.2.1
  | terminate =>
    right
    rw [inv.1, List.length_append, Nat.cast_add]
  | done =>
    right
    rw [inv.len, List.length_append, Nat.cast_add]

theorem WriteInv.capacity_pos {log : ServerLog} {heap : Heap} {e : List UInt8} {point : WritePoint}
    (inv : WriteInv log heap c e point) : 0 < log.capacity := by
  have holds : Stored log heap c ∨ Stored log heap (c ++ e) → 0 < log.capacity := by
    intro stored
    rcases stored with stored | stored
    · have := stored.room
      omega
    · have := stored.room
      omega
  cases point with
  | test => exact holds (.inl inv)
  | done => exact holds (.inr inv)
  | double => exact holds (.inl inv.1)
  | realloc old =>
    obtain ⟨-, -, room, twice⟩ := inv
    omega
  | copy dst pos done =>
    obtain ⟨-, -, -, -, -, room⟩ := inv
    omega
  | advance | terminate =>
    obtain ⟨-, -, room⟩ := inv
    omega

/-- The capacity is what was last asked for, once the step is made. -/
theorem WritePoint.request_keeps {log log' : ServerLog} {requested : Int} {point point' : WritePoint}
    (same : log'.capacity = log.capacity) (kept : (∀ old, point ≠ .realloc old) → log.capacity = requested) :
    (∀ old, point' ≠ .realloc old) → log'.capacity = point.request log requested := by
  intro _
  cases point with
  | realloc old => exact same
  | _ => exact same.trans (kept nofun)

/-- **A step of a call** keeps its invariant and is one of finitely many. -/
theorem BodyInv.step (inv : BodyInv c entry a) (small : c.length + entry.bytes.length < 2 ^ 30)
    (step : Writer.Step entry a b) : BodyInv c entry b ∧ b.left entry < a.left entry := by
  obtain ⟨write, capacity, power, requested⟩ := inv
  cases step with
  | @body log log' heap heap' point point' last body =>
    obtain ⟨write', capacity'⟩ := body.inv write small capacity
    cases body with
    | double =>
      obtain ⟨stored, short⟩ := write
      have room : (c.length : Int) + 1 ≤ log.capacity := stored.room
      have less : log.capacity < c.length + entry.bytes.length + 1 := short
      have doubled : int32 (log.capacity * 2) = log.capacity * 2 := int32_of_lt (by omega) (by omega)
      refine ⟨⟨write', capacity', ?_, fun other => absurd rfl (other _)⟩, ?_⟩
      · obtain ⟨k, power⟩ := power
        refine ⟨k + 1, ?_⟩
        change int32 (log.capacity * 2) = _
        rw [doubled, power]
        ring
      · simp only [Writer.left, doubled] at capacity' ⊢
        omega
    | copyByte next =>
      refine ⟨⟨write', capacity', power, WritePoint.request_keeps rfl requested⟩, ?_⟩
      have more := (List.getElem?_eq_some_iff.mp next).1
      simp only [Writer.left]
      omega
    | _ =>
      refine ⟨⟨write', capacity', power, WritePoint.request_keeps rfl requested⟩, ?_⟩
      simp only [Writer.left]
      omega

theorem BodyInv.steps (inv : BodyInv c entry a) (small : c.length + entry.bytes.length < 2 ^ 30)
    (run : Writer.Steps entry a b) : BodyInv c entry b :=
  Runs.keeps (fun _ _ inv step => (inv.step small step).1) run inv

/-- Every number is in range while the log stays below 2^30 bytes. -/
theorem BodyInv.inRange (inv : BodyInv c entry a) (small : c.length + entry.bytes.length < 2 ^ 30) : InRange entry a := by
  obtain ⟨write, capacity, -, -⟩ := inv
  have len := write.len_eq
  have positive := write.capacity_pos
  constructor
  · unfold Length
    omega
  · exact ⟨positive.le, capacity⟩
  · intro point
    unfold Length
    omega
  · intro point
    rw [point] at write
    obtain ⟨-, short⟩ := write
    unfold Length
    omega
  · intro point
    rw [point] at write
    obtain ⟨len, -⟩ := write
    unfold Length
    omega

/-- A call can go on until it returns. -/
theorem BodyInv.goesOn (inv : BodyInv c entry a) (running : a.point ≠ .done) : ∃ b, Writer.Step entry a b := by
  obtain ⟨log, heap, point, requested⟩ := a
  cases point with
  | test =>
    by_cases small : log.capacity < int32 (int32 (log.len + int32 entry.bytes.length) + 1)
    · exact ⟨_, .body (.grow small)⟩
    · exact ⟨_, .body (.fits small)⟩
  | double => exact ⟨_, .body .double⟩
  | realloc old => exact ⟨_, .body (.realloc log.data heap)⟩
  | copy dst pos done =>
    obtain ⟨-, -, -, le, -⟩ := inv.write
    rcases Nat.lt_or_eq_of_le le with more | rfl
    · exact ⟨_, .body (.copyByte (List.getElem?_eq_getElem more))⟩
    · exact ⟨_, .body .copied⟩
  | advance => exact ⟨_, .body .advance⟩
  | terminate => exact ⟨_, .body .terminate⟩
  | done => exact absurd rfl running

/-- **A call on a log that stays below 2^30 bytes is safe.** -/
theorem BodyInv.grows (inv : BodyInv c entry a) (small : c.length + entry.bytes.length < 2 ^ 30) : Grows entry a := by
  constructor
  · intro b run
    exact (inv.steps small run).inRange small
  · exact acc_of_decreasing (fun _ _ inv step => inv.step small step) inv
  · intro b run
    exact (inv.steps small run).goesOn
  · intro b run dst pos done point
    obtain ⟨write, -, -, requested⟩ := inv.steps small run
    rw [point] at write
    obtain ⟨-, -, len, -, -, room⟩ := write
    refine ⟨by omega, requested fun old e => ?_⟩
    rw [point] at e
    exact nomatch e

/-- Nothing can happen after a call. -/
theorem Writer.Step.running (step : Writer.Step entry a b) : a.point ≠ .done := by
  cases step with
  | body step => cases step <;> exact nofun

/-- A safe call returns. -/
theorem Grows.returns (grows : Grows entry a) : ∃ b, Writer.Steps entry a b ∧ b.point = .done := by
  obtain ⟨b, run, last⟩ := exists_end grows.ends
  refine ⟨b, run, ?_⟩
  by_contra running
  obtain ⟨c, next⟩ := grows.goesOn b run running
  exact last c next

/-! ## Many calls -/

/-- Between the calls the log is what was written. -/
theorem Logged.inv (logged : Logged done a) (small : (text done).length < 2 ^ 30) :
    a.point = .test ∧ ∀ entry, BodyInv (text done) entry a := by
  induction logged with
  | init data heap =>
    have room : ((text []).length : Int) + 1 ≤ logInitCap := by decide
    have inInt : logInitCap < 2 ^ 31 := by decide
    have power : logInitCap = 4096 * 2 ^ 0 := by decide
    have empty : Holds heap data [] := fun k b get => nomatch get
    exact ⟨rfl, fun entry => ⟨⟨rfl, empty.store 0, room⟩, inInt, ⟨0, power⟩, fun _ => rfl⟩⟩
  | @write done a b logged entry run returned ih =>
    rw [text_append, text_singleton, List.length_append] at small
    have after := ((ih (by omega)).2 entry).steps small run
    obtain ⟨write, capacity, power, requested⟩ := after
    rw [returned] at write
    refine ⟨rfl, fun entry' => ⟨?_, capacity, power, fun _ => requested fun old => ?_⟩⟩
    · rw [text_append, text_singleton]
      exact write
    · rw [returned]
      exact nofun

/-- While it stays below 2^30 bytes, the log can be written. -/
theorem exists_logged (small : (text done).length < 2 ^ 30) : ∃ a, Logged done a := by
  induction done using List.reverseRecOn with
  | nil => exact ⟨_, .init 0 fun _ _ => 0⟩
  | append_singleton done entry ih =>
    rw [text_append, text_singleton, List.length_append] at small
    obtain ⟨a, logged⟩ := ih (by omega)
    have inv := (logged.inv (by omega)).2 entry
    obtain ⟨b, run, returned⟩ := (inv.grows small).returns
    exact ⟨_, logged.write entry run returned⟩

/-- The body of the loop. -/
theorem Writer.double_turn (log : ServerLog) (heap : Heap) (requested : Int) (entry : CString) :
    ∃ heap', Writer.Steps entry ⟨log, heap, .double, requested⟩
      ⟨{ log with capacity := int32 (log.capacity * 2) }, heap', .test, int32 (log.capacity * 2)⟩ :=
  ⟨_, .head (.body .double) (.single (.body (.realloc log.data heap)))⟩

/-- **The last doubling.** A call that needs more than 2^30 bytes comes to double that capacity. -/
theorem exists_overflow {log : ServerLog} {heap : Heap} {requested : Int} {k : Nat} (len : log.len = c.length)
    (capacity : log.capacity = 4096 * 2 ^ k) (le : k ≤ 18) (small : c.length < 2 ^ 30)
    (short : entry.bytes.length < 8192) (big : 2 ^ 30 ≤ c.length + entry.bytes.length) :
    ∃ b, Writer.Steps entry ⟨log, heap, .test, requested⟩ b ∧ b.point = .double ∧ b.log.capacity = 2 ^ 30 := by
  have need : int32 (int32 (log.len + int32 entry.bytes.length) + 1) = c.length + entry.bytes.length + 1 := by
    have elen : int32 entry.bytes.length = entry.bytes.length := int32_of_lt (by omega) (by omega)
    have sum : int32 (c.length + entry.bytes.length) = c.length + entry.bytes.length := int32_of_lt (by omega) (by omega)
    rw [len, elen, sum]
    exact int32_of_lt (by omega) (by omega)
  have atMost : (2 : Int) ^ k ≤ 2 ^ 18 := by
    gcongr
    decide
  have grow : Writer.Step entry ⟨log, heap, .test, requested⟩ ⟨log, heap, .double, requested⟩ := by
    apply Writer.Step.body
    apply WriteStep.grow
    rw [need]
    omega
  -- The turns of the loop are counted down to the last capacity.
  induction turns : 18 - k generalizing log heap requested k with
  | zero =>
    have last : k = 18 := by omega
    subst last
    exact ⟨_, .single grow, rfl, capacity⟩
  | succ turns ih =>
    have half : (2 : Int) ^ k ≤ 2 ^ 17 := by
      gcongr
      · decide
      · omega
    have positive : (0 : Int) < 2 ^ k := by positivity
    have doubled : int32 (log.capacity * 2) = 4096 * 2 ^ (k + 1) := by
      rw [capacity, int32_of_lt (by omega) (by omega)]
      ring
    obtain ⟨heap', turn⟩ := Writer.double_turn log heap requested entry
    have len' : ({ log with capacity := int32 (log.capacity * 2) } : ServerLog).len = c.length := len
    have short' : int32 (log.capacity * 2) < int32 (int32 (log.len + int32 entry.bytes.length) + 1) := by
      rw [need, doubled, pow_succ]
      omega
    have grow' : Writer.Step entry
        ⟨{ log with capacity := int32 (log.capacity * 2) }, heap', .test, int32 (log.capacity * 2)⟩
        ⟨{ log with capacity := int32 (log.capacity * 2) }, heap', .double, int32 (log.capacity * 2)⟩ :=
      .body (.grow short')
    obtain ⟨b, run, there⟩ := ih len' doubled (by omega) need (by rw [pow_succ]; omega) grow' (by omega)
    exact ⟨b, .head grow (turn.trans run), there⟩

/-- The first call that takes the log to 2^30 bytes. -/
theorem exists_crossing (big : 2 ^ 30 ≤ (text entries).length) : ∃ done entry rest, entries = done ++ entry :: rest ∧
    (text done).length < 2 ^ 30 ∧ 2 ^ 30 ≤ (text done).length + entry.bytes.length := by
  induction entries using List.reverseRecOn with
  | nil => exact absurd big (by decide)
  | append_singleton done entry ih =>
    by_cases before : 2 ^ 30 ≤ (text done).length
    · obtain ⟨done', entry', rest, rfl, small, crosses⟩ := ih before
      exact ⟨done', entry', rest ++ [entry], by simp, small, crosses⟩
    · rw [text_append, text_singleton, List.length_append] at big
      exact ⟨done, entry, [], rfl, by omega, big⟩

/-- The doubling of a capacity of 2^30 leaves the `int`s. -/
theorem not_safe (short : ∀ e ∈ entries, e.bytes.length < 8192) (big : 2 ^ 30 ≤ (text entries).length) :
    ¬SafeLogging entries := by
  intro safe
  obtain ⟨done, entry, rest, rfl, small, crosses⟩ := exists_crossing big
  obtain ⟨a, logged⟩ := exists_logged small
  obtain ⟨point, inv⟩ := logged.inv small
  obtain ⟨⟨log, heap, p, requested⟩, rfl⟩ : { w : Writer // w = a } := ⟨a, rfl⟩
  obtain rfl : p = .test := point
  obtain ⟨stored, inInt, ⟨k, capacity⟩, -⟩ := inv entry
  have le : k ≤ 18 := by
    by_contra more
    have : (2 : Int) ^ 19 ≤ 2 ^ k := by
      gcongr
      · decide
      · omega
    simp only at inInt capacity
    omega
  obtain ⟨b, run, doubles, last⟩ := exists_overflow stored.len capacity le small
    (short entry (List.mem_append_right done (List.mem_cons_self ..))) crosses
  have range := (safe done entry rest rfl _ logged).inRange b run
  have doubled := (range.doubled doubles).2
  omega

/-- **When logging is safe.** Exactly when all that is written is shorter than 2^30 bytes. -/
theorem logWrite_safe_iff (short : ∀ e ∈ entries, e.bytes.length < 8192) :
    SafeLogging entries ↔ (text entries).length < 2 ^ 30 := by
  constructor
  · intro safe
    by_contra big
    exact not_safe short (Nat.le_of_not_lt big) safe
  · intro small done entry rest eq a logged
    have total : (text done).length + entry.bytes.length ≤ (text entries).length := by
      rw [eq, ← List.singleton_append, text_append, text_append, text_singleton, List.length_append, List.length_append]
      omega
    exact ((logged.inv (by omega)).2 entry).grows (by omega)

/-- A first request. -/
def firstEntry : CString :=
  statsEntry ⟨1, 1, 1, 0, 0⟩ ⟨⟨1700000000, 0⟩, ⟨1700000000, 0⟩, ⟨1700000000, 0⟩, ⟨1700000000, 0⟩⟩

theorem logWrite_safe_first : SafeLogging [firstEntry] :=
  have small : firstEntry.bytes.length < 8192 ∧ (text [firstEntry]).length < 2 ^ 30 := by decide +kernel
  (logWrite_safe_iff (List.forall_mem_singleton.mpr small.1)).mpr small.2

/-- Entries of 270 bytes, 2^22 of them. -/
theorem logWrite_overflows :
    (0 < firstEntry.bytes.length ∧ firstEntry.bytes.length < 8192) ∧
    ¬SafeLogging (List.replicate (2 ^ 22) firstEntry) := by
  have size : firstEntry.bytes.length = 270 := by decide +kernel
  refine ⟨by omega, not_safe ?_ ?_⟩
  · intro e mem
    rw [List.eq_of_mem_replicate mem]
    omega
  · rw [text, List.map_replicate, List.length_flatten, List.map_replicate, List.sum_replicate_nat, size]
    decide

end OsProjects.Server.Log
