import Mathlib.Algebra.BigOperators.Fin
import OsProjects.Server.LoneWriter

/-!
# The counters and the log

The counters of a worker are its own, the log is everybody's. `WorkerInv` says for one worker
how its counters follow from what it has sent and from the entries of the log that carry its
number; a step of one worker leaves the others' invariants alone, and an unlock after
`log_write` adds one entry to one worker's list.
-/

namespace OsProjects.Server

open CText

/-! ## One worker -/

variable {n : Nat} {s s' : Site n} {i : Fin n} {w : WorkerState} {es : List Bytes}

/-- The entries in the log. -/
def Site.entries (s : Site n) : List Bytes := s.log.complete.map Log.CString.bytes

/-- The entries that carry the number of worker `i`. -/
def own (i : Fin n) (entries : List Bytes) : List Bytes :=
  entries.filter fun e => shownCount "Stat-Thread-Id:: " e == some ((i : Int) + 1)

/-- The number of error responses. -/
def errors (sent : List Response) : Nat := sent.countP Response.isError

/-- The request is not yet counted. -/
def Handler.uncounted : Handler → Int
  | .received => 1
  | _ => 0

/-- The request is counted, but not by its kind. -/
def Handler.unsorted : Handler → Int
  | .routed _ => 1
  | _ => 0

/-- Between the increment of `stat_req` or `dynm_req` and the end of `log_write`. -/
def Handler.Logging : Handler → Prop
  | .counted _ | .writing _ _ => True
  | _ => False

def Handler.unlogged : Handler → Int
  | .counted _ | .writing _ _ => 1
  | _ => 0

structure WorkerInv (i : Fin n) (entries : List Bytes) (w : WorkerState) : Prop where
  id : w.stats.id = i + 1
  statReq : 0 ≤ w.stats.statReq
  dynmReq : 0 ≤ w.stats.dynmReq
  postReq : 0 ≤ w.stats.postReq
  sorted : w.stats.totalReq =
    w.stats.statReq + w.stats.dynmReq + w.stats.postReq + errors w.sent + w.handler.unsorted
  counted : w.stats.totalReq + w.handler.uncounted ≤ w.requests
  logged : w.stats.statReq + w.stats.dynmReq = (own i entries).length + w.handler.unlogged

theorem increment_of_lt {x : Int} (low : 0 ≤ x) (high : x + 1 < 2 ^ 31) : increment x = x + 1 :=
  Log.int32_of_lt (by omega) high

theorem errors_append (sent : List Response) (r : Response) :
    (errors (sent ++ [r]) : Int) = errors sent + if r.isError then 1 else 0 := by
  unfold errors
  rw [List.countP_append, List.countP_singleton]
  split_ifs <;> omega

namespace WorkerInv

/-- The counters do not change, nor what they depend on. -/
theorem goTo (inv : WorkerInv i es w) {h old : Handler} {tm : TimeStats} (pc : w.handler = old)
    (unsorted : h.unsorted = old.unsorted) (uncounted : h.uncounted ≤ old.uncounted)
    (unlogged : h.unlogged = old.unlogged) : WorkerInv i es { w with handler := h, times := tm } where
  id := inv.id
  statReq := inv.statReq
  dynmReq := inv.dynmReq
  postReq := inv.postReq
  sorted := by
    rw [unsorted, ← pc]
    exact inv.sorted
  counted := by
    have := inv.counted
    rw [pc] at this
    simp only
    omega
  logged := by
    rw [unlogged, ← pc]
    exact inv.logged

/-- A new request. -/
theorem dispatch (inv : WorkerInv i es w) (pc : w.handler = .outside) (tm : TimeStats) :
    WorkerInv i es { w with handler := .received, times := tm, requests := w.requests + 1 } := by
  obtain ⟨id, statReq, dynmReq, postReq, sorted, counted, logged⟩ := inv
  rw [pc] at sorted counted logged
  refine ⟨id, statReq, dynmReq, postReq, sorted, ?_, logged⟩
  simp only [Handler.uncounted] at counted ⊢
  omega

/-- The request line is read. -/
theorem receive (inv : WorkerInv i es w) (pc : w.handler = .received) (few : w.requests < 2 ^ 31) (action : Action) :
    WorkerInv i es { w with
      handler := .routed action, stats := { w.stats with totalReq := increment w.stats.totalReq } } := by
  obtain ⟨id, statReq, dynmReq, postReq, sorted, counted, logged⟩ := inv
  rw [pc] at sorted counted logged
  simp only [Handler.unsorted, Handler.uncounted, Handler.unlogged] at sorted counted logged
  have total : increment w.stats.totalReq = w.stats.totalReq + 1 := increment_of_lt (by omega) (by omega)
  refine ⟨id, statReq, dynmReq, postReq, ?_, ?_, logged⟩
  · simp only [total, Handler.unsorted]
    omega
  · simp only [total, Handler.uncounted]
    omega

/-- The counter of the request's kind: `post_req`, or one of the two that log. -/
theorem sort (inv : WorkerInv i es w) {action : Action} (pc : w.handler = .routed action) (few : w.requests < 2 ^ 31)
    {h : Handler} {stats : ThreadsStats} (id : stats.id = w.stats.id) (total : stats.totalReq = w.stats.totalReq)
    (kind : h = .posting ∧ stats.statReq = w.stats.statReq ∧ stats.dynmReq = w.stats.dynmReq ∧
        stats.postReq = increment w.stats.postReq ∨
      h = .counted action ∧ stats.postReq = w.stats.postReq ∧
        (stats.statReq = w.stats.statReq ∧ stats.dynmReq = increment w.stats.dynmReq ∨
          stats.statReq = increment w.stats.statReq ∧ stats.dynmReq = w.stats.dynmReq)) :
    WorkerInv i es { w with handler := h, stats := stats } := by
  obtain ⟨id', statReq, dynmReq, postReq, sorted, counted, logged⟩ := inv
  rw [pc] at sorted counted logged
  simp only [Handler.unsorted, Handler.uncounted, Handler.unlogged] at sorted counted logged
  have stat : increment w.stats.statReq = w.stats.statReq + 1 := increment_of_lt (by omega) (by omega)
  have dynm : increment w.stats.dynmReq = w.stats.dynmReq + 1 := increment_of_lt (by omega) (by omega)
  have post : increment w.stats.postReq = w.stats.postReq + 1 := increment_of_lt (by omega) (by omega)
  rw [stat, dynm, post] at kind
  rcases kind with ⟨rfl, same, same', more⟩ | ⟨rfl, same, more⟩
  · refine ⟨id.trans id', ?_, ?_, ?_, ?_, ?_, ?_⟩ <;>
    · simp only [Handler.unsorted, Handler.uncounted, Handler.unlogged]
      omega
  · refine ⟨id.trans id', ?_, ?_, ?_, ?_, ?_, ?_⟩ <;>
    · simp only [Handler.unsorted, Handler.uncounted, Handler.unlogged]
      omega

/-- A response: an error where the request was not sorted. -/
theorem respond (inv : WorkerInv i es w) {old : Handler} (pc : w.handler = old) (r : Response)
    (due : old.unsorted = if r.isError then 1 else 0) (uncounted : old.uncounted = 0) (unlogged : old.unlogged = 0) :
    WorkerInv i es { w with handler := .outside, sent := w.sent ++ [r] } := by
  obtain ⟨id, statReq, dynmReq, postReq, sorted, counted, logged⟩ := inv
  rw [pc] at sorted counted logged
  refine ⟨id, statReq, dynmReq, postReq, ?_, ?_, ?_⟩
  · simp only [errors_append, Handler.unsorted]
    omega
  · simp only [Handler.uncounted]
    omega
  · simp only [Handler.unlogged]
    omega

end WorkerInv

/-! ## Entries -/

theorem own_append (i : Fin n) (es : List Bytes) (e : Bytes) :
    own i (es ++ [e]) = own i es ++ if shownCount "Stat-Thread-Id:: " e = some ((i : Int) + 1) then [e] else [] := by
  unfold own
  rw [List.filter_append, List.filter_singleton]
  simp only [Bool.cond_eq_ite, beq_iff_eq]

/-- The worker's own entry is added. -/
theorem WorkerInv.wrote (inv : WorkerInv i es w) {action : Action} {stamp : Stamp} (pc : w.handler = .writing action stamp)
    {e : Bytes} (mine : shownCount "Stat-Thread-Id:: " e = some ((i : Int) + 1)) :
    WorkerInv i (es ++ [e]) { w with handler := .logged action } := by
  obtain ⟨id, statReq, dynmReq, postReq, sorted, counted, logged⟩ := inv
  rw [pc] at sorted counted logged
  refine ⟨id, statReq, dynmReq, postReq, sorted, counted, ?_⟩
  rw [own_append, if_pos mine, List.length_append, List.length_singleton]
  simp only [Handler.unlogged] at logged ⊢
  omega

/-- Another worker's entry is added. -/
theorem WorkerInv.others (inv : WorkerInv i es w) {e : Bytes}
    (other : shownCount "Stat-Thread-Id:: " e ≠ some ((i : Int) + 1)) : WorkerInv i (es ++ [e]) w := by
  have own' : own i (es ++ [e]) = own i es := by rw [own_append, if_neg other, List.append_nil]
  obtain ⟨id, statReq, dynmReq, postReq, sorted, counted, logged⟩ := inv
  exact ⟨id, statReq, dynmReq, postReq, sorted, counted, own'.symm ▸ logged⟩

/-- Every entry belongs to one worker: there are as many as the workers have together. -/
theorem length_eq_sum_own (owned : ∀ e ∈ es, ∃ i : Fin n, shownCount "Stat-Thread-Id:: " e = some ((i : Int) + 1)) :
    (es.length : Int) = ∑ i : Fin n, ((own i es).length : Int) := by
  induction es using List.reverseRecOn with
  | nil => simp [own]
  | append_singleton es e ih =>
    obtain ⟨i, mine⟩ := owned e (List.mem_append_right _ List.mem_cons_self)
    have rest := ih fun e mem => owned e (List.mem_append_left _ mem)
    have grown : ∀ j : Fin n, ((own j (es ++ [e])).length : Int) = (own j es).length + if j = i then 1 else 0 := by
      intro j
      have same : shownCount "Stat-Thread-Id:: " e = some ((j : Int) + 1) ↔ j = i := by
        rw [mine, Option.some_inj]
        constructor
        · intro eq
          exact Fin.ext (by omega)
        · rintro rfl
          rfl
      rw [own_append, List.length_append]
      simp only [same]
      split_ifs <;> simp
    simp only [grown, Finset.sum_add_distrib, Finset.sum_ite_eq', Finset.mem_univ, if_true, ← rest, List.length_append,
      List.length_singleton]
    omega

/-! ## The system -/

structure SiteInv (s : Site n) : Prop where
  worker : ∀ i, WorkerInv i s.entries (s.workers i)
  owned : ∀ e ∈ s.entries, ∃ i : Fin n, shownCount "Stat-Thread-Id:: " e = some ((i : Int) + 1)
  numbered : ∀ (i : Fin n) (k : Nat) e, (own i s.entries)[k]? = some e → ∃ a b,
    shownCount "Stat-Thread-Static:: " e = some a ∧ shownCount "Stat-Thread-Dynamic:: " e = some b ∧ a + b = k + 1

namespace SiteInv

theorem start (now : Timeval) (data : Nat) (heap : Log.Heap) (times : Fin n → TimeStats) :
    SiteInv (Site.start now data heap times) where
  worker _ := ⟨rfl, le_refl _, le_refl _, le_refl _, rfl, le_refl _, rfl⟩
  owned _ mem := absurd mem List.not_mem_nil
  numbered _ _ _ get := nomatch get

theorem of_entries (entries : s'.entries = es) (worker : ∀ i, WorkerInv i es (s'.workers i))
    (owned : ∀ e ∈ es, ∃ i : Fin n, shownCount "Stat-Thread-Id:: " e = some ((i : Int) + 1))
    (numbered : ∀ (i : Fin n) (k : Nat) e, (own i es)[k]? = some e → ∃ a b,
      shownCount "Stat-Thread-Static:: " e = some a ∧ shownCount "Stat-Thread-Dynamic:: " e = some b ∧ a + b = k + 1) :
    SiteInv s' := by
  subst entries
  exact ⟨worker, owned, numbered⟩

/-- One worker moves; the others and the complete entries stay. -/
theorem set (inv : SiteInv s) {l : Log.State (Fin n)} {entered : List Timeval} (complete : l.complete = s.log.complete)
    (worker : WorkerInv i s.entries w) : SiteInv { s.set i w with log := l, entered := entered } := by
  refine of_entries (congrArg (List.map Log.CString.bytes) complete) (fun j => ?_) inv.owned inv.numbered
  change WorkerInv j s.entries (Function.update s.workers i w j)
  by_cases e : j = i
  · subst e
    rw [Function.update_self]
    exact worker
  · rw [Function.update_of_ne e]
    exact inv.worker j

/-- The next entry of a worker shows the next number. -/
theorem numbered_append (inv : SiteInv s) {action : Action} {stamp : Stamp} {tm : TimeStats} {j : Fin n} {k : Nat}
    {e : Bytes} (pc : (s.workers i).handler = .writing action stamp)
    (get : (own j (s.entries ++ [(statsEntry (s.workers i).stats tm).bytes]))[k]? = some e) :
    ∃ a b, shownCount "Stat-Thread-Static:: " e = some a ∧ shownCount "Stat-Thread-Dynamic:: " e = some b ∧
      a + b = k + 1 := by
  obtain ⟨showsId, showsStat, showsDynm, -⟩ := shown_appendStats (s.workers i).stats tm
  rw [own_append] at get
  split_ifs at get with mine
  · rw [List.getElem?_append] at get
    split_ifs at get with old
    · exact inv.numbered j k e get
    · have last : k = (own j s.entries).length := by
        have := (List.getElem?_eq_some_iff.mp get).1
        rw [List.length_singleton] at this
        omega
      subst last
      rw [Nat.sub_self] at get
      obtain rfl := Option.some_inj.mp get
      obtain rfl : i = j := by
        have eq := Option.some_inj.mp (showsId.symm.trans mine)
        rw [(inv.worker i).id] at eq
        exact Fin.ext (by omega)
      refine ⟨_, _, showsStat, showsDynm, ?_⟩
      rw [(inv.worker i).logged, pc]
      rfl
  · rw [List.append_nil] at get
    exact inv.numbered j k e get

/-- **A step inside the log.** -/
theorem log (inv : SiteInv s) (called : s.Called) {l : Log.State (Fin n)} (calls : Log.CallsAfter s.log l) :
    SiteInv { s with
      log := l
      workers := fun i => { s.workers i with handler := (s.workers i).handler.next (s.log.threads i) (l.threads i) } } := by
  cases calls with
  | same stay complete =>
    refine of_entries (congrArg (List.map Log.CString.bytes) complete) (fun j => ?_) inv.owned inv.numbered
    simp only [Handler.next_of_stays (stay j)]
    exact inv.worker j
  | read i len out before after others complete =>
    refine of_entries (congrArg (List.map Log.CString.bytes) complete) (fun j => ?_) inv.owned inv.numbered
    by_cases e : j = i
    · subst e
      obtain ⟨stamp, pc⟩ := (called j).reading (congrArg Log.Thread.call before)
      simp only [before, after, pc, Handler.next]
      exact (inv.worker j).goTo pc rfl (le_refl _) rfl
    · simp only [Handler.next_of_stays (others j e)]
      exact inv.worker j
  | wrote i entry before after others complete =>
    obtain ⟨action, stamp, tm, pc, rfl, -⟩ := (called i).writing (congrArg Log.Thread.call before)
    have mine := (shown_appendStats (s.workers i).stats tm).1
    rw [(inv.worker i).id] at mine
    have entries : l.complete.map Log.CString.bytes = s.entries ++ [(statsEntry (s.workers i).stats tm).bytes] := by
      rw [complete, List.map_append]
      rfl
    refine of_entries entries (fun j => ?_) (fun e mem => ?_) fun j k e get => inv.numbered_append pc get
    · by_cases e : j = i
      · subst e
        simp only [before, after, pc, Handler.next]
        exact (inv.worker j).wrote pc mine
      · simp only [Handler.next_of_stays (others j e)]
        apply (inv.worker j).others
        intro shows
        have eq := Option.some_inj.mp (mine.symm.trans shows)
        exact e (Fin.ext (by omega))
    · rcases List.mem_append.mp mem with mem | mem
      · exact inv.owned e mem
      · obtain rfl := List.mem_singleton.mp mem
        exact ⟨i, mine⟩

/-- **Every step keeps the counters**, as long as they do not overflow. -/
theorem step (inv : SiteInv s) (called : s.Called) (few : ∀ i, (s.workers i).requests < 2 ^ 31) (step : Site.Step s s') :
    SiteInv s' := by
  cases step with
  | tick now later => exact ⟨inv.worker, inv.owned, inv.numbered⟩
  | dispatch arrival pc => exact inv.set rfl ((inv.worker _).dispatch pc _)
  | hangUp pc => exact inv.set rfl ((inv.worker _).goTo pc rfl (by decide) rfl)
  | receive buf method uri version stat pc => exact inv.set rfl ((inv.worker _).receive pc (few _) _)
  | sendError pc => exact inv.set rfl ((inv.worker _).respond pc _ rfl rfl rfl)
  | countPost pc => exact inv.set rfl ((inv.worker _).sort pc (few _) rfl rfl (.inl ⟨rfl, rfl, rfl, rfl⟩))
  | countDynamic pc => exact inv.set rfl ((inv.worker _).sort pc (few _) rfl rfl (.inr ⟨rfl, rfl, .inl ⟨rfl, rfl⟩⟩))
  | countStatic pc => exact inv.set rfl ((inv.worker _).sort pc (few _) rfl rfl (.inr ⟨rfl, rfl, .inr ⟨rfl, rfl⟩⟩))
  | callWrite pc => exact inv.set rfl ((inv.worker _).goTo pc rfl (le_refl _) rfl)
  | callRead pc => exact inv.set rfl ((inv.worker _).goTo pc rfl (le_refl _) rfl)
  | log step inside permitted => exact inv.log called (step.callsAfter inside)
  | enterWrite pc lock => exact inv.set rfl ((inv.worker _).goTo pc rfl (le_refl _) rfl)
  | exitWrite pc done => exact inv.set rfl ((inv.worker _).goTo pc rfl (le_refl _) rfl)
  | enterRead pc lock => exact inv.set rfl ((inv.worker _).goTo pc rfl (le_refl _) rfl)
  | exitRead pc done => exact inv.set rfl ((inv.worker _).goTo pc rfl (le_refl _) rfl)
  | serveStatic content pc => exact inv.set rfl ((inv.worker _).respond pc _ rfl rfl rfl)
  | serveDynamic output pc => exact inv.set rfl ((inv.worker _).respond pc _ rfl rfl rfl)
  | servePost pc => exact inv.set rfl ((inv.worker _).respond pc _ rfl rfl rfl)

end SiteInv

theorem Site.Step.requests_le (step : Site.Step s s') (i : Fin n) : (s.workers i).requests ≤ (s'.workers i).requests := by
  have set : ∀ {j w}, (s.workers j).requests ≤ w.requests → (s.workers i).requests ≤ ((s.set j w).workers i).requests := by
    intro j w le
    change _ ≤ (Function.update s.workers j w i).requests
    by_cases e : i = j
    · subst e
      rwa [Function.update_self]
    · rw [Function.update_of_ne e]
  cases step with
  | tick now later => exact le_refl _
  | log step inside permitted => exact le_refl _
  | dispatch arrival pc => exact set (Nat.le_succ _)
  | _ => exact set (le_refl _)

theorem Site.Reachable.inv (reach : Site.Reachable s) (few : ∀ i, (s.workers i).requests < 2 ^ 31) : SiteInv s := by
  induction reach with
  | start now data heap times => exact SiteInv.start now data heap times
  | step reach step ih =>
    have before := fun i => lt_of_le_of_lt (step.requests_le i) (few i)
    exact (ih before).step reach.called before step

theorem Handler.unlogged_of_not_logging {h : Handler} (quiet : ¬h.Logging) : h.unlogged = 0 := by
  cases h with
  | counted action => exact absurd trivial quiet
  | writing action stamp => exact absurd trivial quiet
  | _ => rfl

/-- **The counters and the log agree.** A worker that is between requests has counted each of
them by its kind or answered it with an error. When nobody is logging, there are as many
entries as static and dynamic requests were counted, and the buffer is their concatenation.
The `k`-th entry of a worker shows `k` such requests. -/
theorem counters_agree_with_log (reach : Site.Reachable s) (few : ∀ i, (s.workers i).requests < 2 ^ 31) :
    (∀ i, (s.workers i).handler = .outside → (s.workers i).stats.totalReq = (s.workers i).stats.statReq +
      (s.workers i).stats.dynmReq + (s.workers i).stats.postReq + errors (s.workers i).sent) ∧
    ((∀ i, ¬(s.workers i).handler.Logging) →
      (s.entries.length : Int) = ∑ i, ((s.workers i).stats.statReq + (s.workers i).stats.dynmReq)) ∧
    (∀ (i : Fin n) (k : Nat) e, (own i s.entries)[k]? = some e → ∃ a b,
      shownCount "Stat-Thread-Static:: " e = some a ∧ shownCount "Stat-Thread-Dynamic:: " e = some b ∧ a + b = k + 1) ∧
    ((∀ i, ¬(s.workers i).handler.Logging) → (Log.text s.log.acquired).length < 2 ^ 30 →
      Log.Stored s.log.log s.log.heap s.entries.flatten) := by
  have inv := reach.inv few
  refine ⟨?_, ?_, inv.numbered, ?_⟩
  · intro i pc
    have sorted := (inv.worker i).sorted
    rw [pc] at sorted
    simpa [Handler.unsorted] using sorted
  · intro quiet
    rw [length_eq_sum_own inv.owned]
    apply Finset.sum_congr rfl
    intro i _
    rw [(inv.worker i).logged, Handler.unlogged_of_not_logging (quiet i), add_zero]
  · intro quiet small
    have contents := reach.log.contents small
    apply (contents.quiet _).2
    intro i role
    obtain ⟨entry, point, thread⟩ := Log.role_writer role
    obtain ⟨action, stamp, tm, pc, -⟩ := (reach.called i).writing (congrArg Log.Thread.call thread)
    apply quiet i
    rw [pc]
    trivial

/-- One worker has logged its first request. -/
theorem counters_agree_with_log_first : ∃ s : Site 1, Site.Reachable s ∧ (∀ i, (s.workers i).requests < 2 ^ 31) ∧
    s.entries.length = 1 ∧
    (s.entries.length : Int) = ∑ i, ((s.workers i).stats.statReq + (s.workers i).stats.dynmReq) := by
  let stat : Bytes → Option FileStat := fun _ => some ⟨true, true, true, 5⟩
  have reach₀ := Site.Reachable.start (n := 1) ⟨0, 0⟩ 0 (fun _ _ => 0) fun _ => ⟨⟨0, 0⟩, ⟨0, 0⟩, ⟨0, 0⟩, ⟨0, 0⟩⟩
  have reach₁ := reach₀.step (.dispatch (i := 0) ⟨0, 0⟩ rfl)
  have reach₂ := reach₁.step (.receive (i := 0) (lit "GET /a HTTP/1.0") [] [] [] stat rfl)
  have reach₃ := reach₂.step (.countStatic (i := 0) rfl)
  obtain ⟨heap, reach₄⟩ := reach₃.writes (i := 0) rfl rfl rfl rfl (by decide +kernel)
  have only : ∀ i : Fin 1, i = 0 := fun i => Subsingleton.elim i 0
  refine ⟨_, reach₄, fun i => ?_, rfl, (counters_agree_with_log reach₄ fun i => ?_).2.1 fun i => ?_⟩
  · rw [only i]
    exact (by decide : 1 < 2 ^ 31)
  · rw [only i]
    exact (by decide : 1 < 2 ^ 31)
  · rw [only i]
    exact id

end OsProjects.Server
