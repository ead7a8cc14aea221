import Nrk.Lib.Outcome

/-! # The lineup scheduler on one core

`SmpScheduler`'s runnable deque, waiting list and thread map, and which yield requests keep each
thread in one place at most. -/

namespace Nrk.Lineup

/-- `ThreadId(usize)`. -/
abbrev ThreadId := ℕ

/-- `rawtime::Instant`, in ticks of the clock. -/
abbrev Instant := ℕ

/-- Requests that go from the thread to the scheduler. -/
inductive YieldRequest where
  | None
  | Timeout (deadline : Instant)
  | Runnable (tid : ThreadId)
  | Unrunnable (tid : ThreadId)
  | RunnableList (tids : List ThreadId)
  | JoinOn (tid : ThreadId)
  deriving DecidableEq, Repr

/-- The scheduler's answer to a request. -/
inductive YieldResume where
  | Completed
  | Interrupted
  | DoNotResume
  deriving DecidableEq, Repr

/-- A thread as the scheduler sees it: the threads to wake when it finishes. -/
structure Thread where
  joinlist : List ThreadId
  deriving DecidableEq, Repr

/-- The scheduler, restricted to one core: `per_core[core].runnable` is `runnable`, with its
front at the head, and `per_core[core].waiting` is `waiting`. -/
structure SmpScheduler where
  threads : ThreadId → Option Thread
  runnable : List ThreadId
  waiting : List (Instant × ThreadId)

namespace SmpScheduler

/-- `mark_runnable`: `push_back` onto the runnable deque. -/
def mark_runnable (tid : ThreadId) (s : SmpScheduler) : SmpScheduler :=
  { s with runnable := s.runnable ++ [tid] }

/-- `mark_unrunnable`: `runnable.retain(|&ltid| ltid != tid)`. -/
def mark_unrunnable (tid : ThreadId) (s : SmpScheduler) : SmpScheduler :=
  { s with runnable := s.runnable.filter (· ≠ tid) }

/-- `waitlist_remove`: `waiting.retain(|&(_instant, wtid)| wtid != tid)`. -/
def waitlist_remove (tid : ThreadId) (s : SmpScheduler) : SmpScheduler :=
  { s with waiting := s.waiting.filter (·.2 ≠ tid) }

/-- `probe` is greater than `q` in the order of Rust's tuples: by instant, then by thread. -/
def later (probe q : Instant × ThreadId) : Bool :=
  q.1 < probe.1 || (q.1 == probe.1 && q.2 < probe.2)

/-- Where the binary search by `probe.cmp(&to_insert).reverse()` puts `to_insert` in a list
sorted from the latest entry to the earliest: before the first entry not later than it. -/
def insert_sorted (waiting : List (Instant × ThreadId)) (to_insert : Instant × ThreadId) :
    List (Instant × ThreadId) :=
  waiting.insertIdx (waiting.takeWhile (later · to_insert)).length to_insert

/-- `waitlist_insert` (the source's `until` is `deadline`): a panic when the search finds
`to_insert` already there. -/
def waitlist_insert (tid : ThreadId) (deadline : Instant) (s : SmpScheduler) :
    Outcome SmpScheduler :=
  let to_insert := (deadline, tid)
  if to_insert ∈ s.waiting then .panic
  else .ok { s with waiting := insert_sorted s.waiting to_insert }

/-- `.get(&tid).expect("Can't find thread")`. -/
def expect_thread (s : SmpScheduler) (tid : ThreadId) : Outcome Thread :=
  match s.threads tid with
  | some thread => .ok thread
  | none => .panic

/-- The body of the loop over `RunnableList`. -/
def wake (s : SmpScheduler) (rtid : ThreadId) : Outcome SmpScheduler := do
  let _ ← s.expect_thread rtid
  return (s.waitlist_remove rtid).mark_runnable rtid

/-- `handle_yield_request(tid, result)`; `result = none` is the thread's function returning. -/
def handle_yield_request (tid : ThreadId) (result : Option YieldRequest) (s : SmpScheduler) :
    Outcome (SmpScheduler × YieldResume) := do
  -- `self.threads.lock().get(&tid).unwrap().affinity`
  let _ ← s.expect_thread tid
  match result with
  | none =>
      let s := s.mark_unrunnable tid
      let thread ← s.expect_thread tid
      let s := { s with threads := Function.update s.threads tid none }
      return (thread.joinlist.foldl (fun s sleeping_tid => s.mark_runnable sleeping_tid) s,
        .DoNotResume)
  | some .None => return (s.mark_runnable tid, .Interrupted)
  | some (.Runnable rtid) => do
      let s ← s.wake rtid
      return (s, .Completed)
  | some (.Unrunnable rtid) => do
      let _ ← s.expect_thread rtid
      -- the running thread was popped from `runnable` already
      if rtid = tid then return (s, .Interrupted)
      else return (s.mark_unrunnable rtid, .Completed)
  | some (.RunnableList rtids) => do
      let s ← rtids.foldlM wake s
      return (s, .Completed)
  | some (.Timeout deadline) => do
      let s ← s.waitlist_insert tid deadline
      return (s, .Interrupted)
  | some (.JoinOn wait_on_tid) =>
      match s.threads wait_on_tid with
      | some running_thread =>
          let joined := { running_thread with joinlist := running_thread.joinlist ++ [tid] }
          return ({ s with threads := Function.update s.threads wait_on_tid (some joined) },
            .Interrupted)
      | none => return (s, .Completed)

/-- `check_wakeups`: while the last entry of the waiting list is due, pop it and make its
thread runnable. Read from its end, the list gives the due entries as a prefix. -/
def check_wakeups (now : Instant) (s : SmpScheduler) : SmpScheduler :=
  { s with
    runnable := s.runnable ++ (s.waiting.reverse.takeWhile (·.1 ≤ now)).map Prod.snd
    waiting := (s.waiting.reverse.dropWhile (·.1 ≤ now)).reverse }

/-- The loop of `check_wakeups` on the waiting list read from its end: while an entry is left
and it is due at the clock's next reading (`Instant::now()`), pop it and make its thread
runnable. `clock k` is the `k`-th reading; the result is the threads woken, in order, and the
entries left, still read from the end. -/
def wake_due (clock : ℕ → Instant) (k : ℕ) :
    List (Instant × ThreadId) → List ThreadId × List (Instant × ThreadId)
  | [] => ([], [])
  | e :: rest =>
      if e.1 ≤ clock k then
        let (woken, left) := wake_due clock (k + 1) rest
        (e.2 :: woken, left)
      else ([], e :: rest)

/-- `check_wakeups`, reading the clock before each pop: the `k`-th reading of `Instant::now()`
in the call is `clock k`. -/
def check_wakeups_reading (clock : ℕ → Instant) (s : SmpScheduler) : SmpScheduler :=
  let (woken, left) := wake_due clock 0 s.waiting.reverse
  { s with runnable := s.runnable ++ woken, waiting := left.reverse }

/-! ## What each operation does to the lists -/

@[simp] theorem mark_runnable_runnable (tid : ThreadId) (s : SmpScheduler) :
    (s.mark_runnable tid).runnable = s.runnable ++ [tid] := rfl

@[simp] theorem mark_runnable_waiting (tid : ThreadId) (s : SmpScheduler) :
    (s.mark_runnable tid).waiting = s.waiting := rfl

@[simp] theorem mark_runnable_threads (tid : ThreadId) (s : SmpScheduler) :
    (s.mark_runnable tid).threads = s.threads := rfl

@[simp] theorem mark_unrunnable_runnable (tid : ThreadId) (s : SmpScheduler) :
    (s.mark_unrunnable tid).runnable = s.runnable.filter (· ≠ tid) := rfl

@[simp] theorem mark_unrunnable_waiting (tid : ThreadId) (s : SmpScheduler) :
    (s.mark_unrunnable tid).waiting = s.waiting := rfl

@[simp] theorem mark_unrunnable_threads (tid : ThreadId) (s : SmpScheduler) :
    (s.mark_unrunnable tid).threads = s.threads := rfl

@[simp] theorem waitlist_remove_runnable (tid : ThreadId) (s : SmpScheduler) :
    (s.waitlist_remove tid).runnable = s.runnable := rfl

@[simp] theorem waitlist_remove_waiting (tid : ThreadId) (s : SmpScheduler) :
    (s.waitlist_remove tid).waiting = s.waiting.filter (·.2 ≠ tid) := rfl

@[simp] theorem waitlist_remove_threads (tid : ThreadId) (s : SmpScheduler) :
    (s.waitlist_remove tid).threads = s.threads := rfl

theorem expect_thread_of_some {s : SmpScheduler} {tid : ThreadId} {thread : Thread}
    (h : s.threads tid = some thread) : s.expect_thread tid = .ok thread := by
  simp [expect_thread, h]

theorem expect_thread_eq_ok {s : SmpScheduler} {tid : ThreadId} {thread : Thread} :
    s.expect_thread tid = .ok thread ↔ s.threads tid = some thread := by
  unfold expect_thread
  split <;> simp_all

theorem wake_of_some {s : SmpScheduler} {rtid : ThreadId} {thread : Thread}
    (h : s.threads rtid = some thread) :
    s.wake rtid = .ok ((s.waitlist_remove rtid).mark_runnable rtid) := by
  simp [wake, expect_thread_of_some h]

theorem waitlist_insert_eq_ok {s s' : SmpScheduler} {tid : ThreadId} {deadline : Instant} :
    s.waitlist_insert tid deadline = .ok s' ↔ (deadline, tid) ∉ s.waiting ∧
      s' = { s with waiting := insert_sorted s.waiting (deadline, tid) } := by
  unfold waitlist_insert
  by_cases hmem : (deadline, tid) ∈ s.waiting
  · simp [hmem]
  · simp [hmem, eq_comm]

/-! The requests a thread makes when nothing is in their way. -/

variable {s : SmpScheduler} {tid : ThreadId} {thread : Thread}

theorem handle_yield_request_None (ht : s.threads tid = some thread) :
    s.handle_yield_request tid (some .None) = .ok (s.mark_runnable tid, .Interrupted) := by
  simp [handle_yield_request, expect_thread_of_some ht]

theorem handle_yield_request_Runnable {rtid : ThreadId} {thread' : Thread}
    (ht : s.threads tid = some thread) (hr : s.threads rtid = some thread') :
    s.handle_yield_request tid (some (.Runnable rtid)) =
      .ok ((s.waitlist_remove rtid).mark_runnable rtid, .Completed) := by
  simp [handle_yield_request, expect_thread_of_some ht, wake_of_some hr]

theorem handle_yield_request_Unrunnable_self (ht : s.threads tid = some thread) :
    s.handle_yield_request tid (some (.Unrunnable tid)) = .ok (s, .Interrupted) := by
  simp [handle_yield_request, expect_thread_of_some ht]

theorem handle_yield_request_Timeout {deadline : Instant} (ht : s.threads tid = some thread)
    (hw : (deadline, tid) ∉ s.waiting) :
    s.handle_yield_request tid (some (.Timeout deadline)) =
      .ok ({ s with waiting := insert_sorted s.waiting (deadline, tid) }, .Interrupted) := by
  simp [handle_yield_request, expect_thread_of_some ht, waitlist_insert, hw]

theorem mem_waitlist_insert {s s' : SmpScheduler} {tid : ThreadId} {deadline : Instant}
    (h : s.waitlist_insert tid deadline = .ok s') (p : Instant × ThreadId) :
    p ∈ s'.waiting ↔ p = (deadline, tid) ∨ p ∈ s.waiting := by
  obtain ⟨-, rfl⟩ := waitlist_insert_eq_ok.mp h
  exact List.mem_insertIdx (List.IsPrefix.length_le (List.takeWhile_prefix _))

theorem perm_waitlist_insert {s s' : SmpScheduler} {tid : ThreadId} {deadline : Instant}
    (h : s.waitlist_insert tid deadline = .ok s') : s'.waiting.Perm ((deadline, tid) :: s.waiting) := by
  obtain ⟨-, rfl⟩ := waitlist_insert_eq_ok.mp h
  exact List.perm_insertIdx _ _ (List.IsPrefix.length_le (List.takeWhile_prefix _))

theorem wake_due_const (now : Instant) :
    ∀ (k : ℕ) (l : List (Instant × ThreadId)),
      wake_due (fun _ => now) k l =
        ((l.takeWhile (·.1 ≤ now)).map Prod.snd, l.dropWhile (·.1 ≤ now))
  | _, [] => rfl
  | k, e :: rest => by
    by_cases he : e.1 ≤ now
    · simp [wake_due, he, wake_due_const now (k + 1) rest]
    · simp [wake_due, he]

theorem check_wakeups_reading_const (now : Instant) (s : SmpScheduler) :
    s.check_wakeups_reading (fun _ => now) = s.check_wakeups now := by
  simp only [check_wakeups_reading, wake_due_const, check_wakeups]

theorem check_wakeups_perm (now : Instant) (s : SmpScheduler) :
    ((s.check_wakeups now).waiting.map Prod.snd ++
        ((s.waiting.reverse.takeWhile (·.1 ≤ now)).map Prod.snd)).Perm
      (s.waiting.map Prod.snd) := by
  have hperm : (s.waiting.reverse.dropWhile (·.1 ≤ now) ++
      s.waiting.reverse.takeWhile (·.1 ≤ now)).Perm s.waiting := by
    refine List.perm_append_comm.trans ?_
    rw [List.takeWhile_append_dropWhile]
    exact List.reverse_perm _
  simp only [check_wakeups]
  rw [← List.map_append]
  exact ((List.reverse_perm _).append_right _).trans hperm |>.map Prod.snd

end SmpScheduler

/-! ## Holding each thread once -/

/-- Whom the run loop runs after an answer: the same thread after `Completed`; after
`Interrupted` or `DoNotResume` it leaves the thread and pops the next one. -/
def YieldResume.running (tid : ThreadId) : YieldResume → Option ThreadId
  | .Completed => some tid
  | _ => none

open SmpScheduler

/-- The scheduler holds each thread at most once: the runnable deque has no thread twice,
none of its threads is waiting, no thread waits twice, and the thread running, if any, is in
neither list. -/
structure HeldOnce (s : SmpScheduler) (current : Option ThreadId) : Prop where
  nodup : s.runnable.Nodup
  waiting_nodup : (s.waiting.map Prod.snd).Nodup
  disjoint : ∀ tid ∈ s.runnable, tid ∉ s.waiting.map Prod.snd
  current_runnable : ∀ tid, current = some tid → tid ∉ s.runnable
  current_waiting : ∀ tid, current = some tid → tid ∉ s.waiting.map Prod.snd

/-- The threads that a request of the running thread `tid` makes runnable are asleep:
`Runnable` and `RunnableList` name threads that are neither runnable nor `tid`, each once, and
a finishing thread's joiners are in neither list, each once. `Runnable` and `RunnableList`
push their threads without looking at the runnable deque, so this is not automatic. -/
def WakesAsleep (s : SmpScheduler) (tid : ThreadId) : Option YieldRequest → Prop
  | none => ∀ thread, s.threads tid = some thread → thread.joinlist.Nodup ∧
      ∀ j ∈ thread.joinlist, j ∉ s.runnable ∧ j ∉ s.waiting.map Prod.snd
  | some (.Runnable rtid) => rtid ∉ s.runnable ∧ rtid ≠ tid
  | some (.RunnableList rtids) => rtids.Nodup ∧ ∀ rtid ∈ rtids, rtid ∉ s.runnable ∧ rtid ≠ tid
  | some _ => True

namespace HeldOnce

variable {s s' : SmpScheduler} {current : Option ThreadId} {tid : ThreadId}

theorem of_lists (h : HeldOnce s current) (hr : s'.runnable = s.runnable)
    (hw : s'.waiting = s.waiting) : HeldOnce s' current := by
  obtain ⟨h1, h2, h3, h4, h5⟩ := h
  exact ⟨hr ▸ h1, hw ▸ h2, hr ▸ hw ▸ h3, hr ▸ h4, hw ▸ h5⟩

theorem filter_runnable (h : HeldOnce s current) (f : ThreadId → Bool) :
    HeldOnce { s with runnable := s.runnable.filter f } current where
  nodup := h.nodup.filter f
  waiting_nodup := h.waiting_nodup
  disjoint := fun t ht => h.disjoint t (List.mem_of_mem_filter ht)
  current_runnable := fun t ht hm => h.current_runnable t ht (List.mem_of_mem_filter hm)
  current_waiting := h.current_waiting

theorem stop (h : HeldOnce s (some tid)) : HeldOnce s none where
  nodup := h.nodup
  waiting_nodup := h.waiting_nodup
  disjoint := h.disjoint
  current_runnable := by simp
  current_waiting := by simp

theorem push (h : HeldOnce s current) (hr : tid ∉ s.runnable)
    (hw : tid ∉ s.waiting.map Prod.snd) (hc : current ≠ some tid) :
    HeldOnce (s.mark_runnable tid) current where
  nodup := List.nodup_append.mpr ⟨h.nodup, List.nodup_singleton _,
    fun a ha b hb => by rw [List.mem_singleton.mp hb]; exact fun e => hr (e ▸ ha)⟩
  waiting_nodup := h.waiting_nodup
  disjoint := fun t ht => by
    rcases List.mem_append.mp ht with ht | ht
    · exact h.disjoint t ht
    · rw [List.mem_singleton.mp ht]; exact hw
  current_runnable := fun t ht hm => by
    rcases List.mem_append.mp hm with hm | hm
    · exact h.current_runnable t ht hm
    · rw [List.mem_singleton.mp hm] at ht; exact hc ht
  current_waiting := h.current_waiting

theorem waitlist_remove (h : HeldOnce s current) : HeldOnce (s.waitlist_remove tid) current where
  nodup := h.nodup
  waiting_nodup := List.Nodup.sublist (List.filter_sublist.map Prod.snd) h.waiting_nodup
  disjoint := fun t ht hw => h.disjoint t ht (List.Sublist.subset
    (List.filter_sublist.map Prod.snd) hw)
  current_runnable := h.current_runnable
  current_waiting := fun t ht hw => h.current_waiting t ht (List.Sublist.subset
    (List.filter_sublist.map Prod.snd) hw)

theorem not_mem_waitlist_remove : tid ∉ (s.waitlist_remove tid).waiting.map Prod.snd := by
  simp

theorem wake {rtid : ThreadId} (h : HeldOnce s current) (hr : rtid ∉ s.runnable)
    (hc : current ≠ some rtid) : HeldOnce ((s.waitlist_remove rtid).mark_runnable rtid) current :=
  h.waitlist_remove.push hr not_mem_waitlist_remove hc

theorem requeue (h : HeldOnce s (some tid)) : HeldOnce (s.mark_runnable tid) none :=
  h.stop.push (h.current_runnable tid rfl) (h.current_waiting tid rfl) (by simp)

theorem suspend {deadline : Instant} (h : HeldOnce s (some tid))
    (hs : s.waitlist_insert tid deadline = .ok s') : HeldOnce s' none where
  nodup := by rw [(waitlist_insert_eq_ok.mp hs).2]; exact h.nodup
  waiting_nodup := by
    rw [((perm_waitlist_insert hs).map Prod.snd).nodup_iff, List.map_cons, List.nodup_cons]
    exact ⟨h.current_waiting tid rfl, h.waiting_nodup⟩
  disjoint := fun t ht hw => by
    rw [(waitlist_insert_eq_ok.mp hs).2] at ht
    rw [((perm_waitlist_insert hs).map Prod.snd).mem_iff, List.map_cons, List.mem_cons] at hw
    rcases hw with rfl | hw
    · exact h.current_runnable _ rfl ht
    · exact h.disjoint t ht hw
  current_runnable := by simp
  current_waiting := by simp

theorem foldlM_wake : ∀ (rtids : List ThreadId) {s s' : SmpScheduler}, HeldOnce s (some tid) →
    rtids.Nodup → (∀ rtid ∈ rtids, rtid ∉ s.runnable ∧ rtid ≠ tid) →
    rtids.foldlM SmpScheduler.wake s = .ok s' → HeldOnce s' (some tid)
  | [], _, _, h, _, _, hs => by
      simp only [List.foldlM_nil, Outcome.pure_eq, Outcome.ok.injEq] at hs
      exact hs ▸ h
  | rtid :: rtids, s, s', h, hnd, hasleep, hs => by
      simp only [List.foldlM_cons] at hs
      obtain ⟨s₁, hwake, hrest⟩ := Outcome.bind_eq_ok.mp hs
      obtain ⟨thread, hthread, hret⟩ := Outcome.bind_eq_ok.mp hwake
      simp only [Outcome.pure_eq, Outcome.ok.injEq] at hret
      subst hret
      have hr := hasleep rtid List.mem_cons_self
      -- the rest are still asleep: the deque only grew by `rtid`
      refine foldlM_wake rtids (h.wake hr.1 (by simpa using hr.2.symm))
        (List.nodup_cons.mp hnd).2 (fun r hr' => ⟨?_, (hasleep r (List.mem_cons_of_mem _ hr')).2⟩) hrest
      have hne : r ≠ rtid := fun e => (List.nodup_cons.mp hnd).1 (e ▸ hr')
      simpa [hne] using (hasleep r (List.mem_cons_of_mem _ hr')).1

theorem foldl_push : ∀ (js : List ThreadId) {s : SmpScheduler}, HeldOnce s none → js.Nodup →
    (∀ j ∈ js, j ∉ s.runnable ∧ j ∉ s.waiting.map Prod.snd) →
    HeldOnce (js.foldl (fun s j => s.mark_runnable j) s) none
  | [], _, h, _, _ => h
  | j :: js, s, h, hnd, hasleep => by
      have hj := hasleep j List.mem_cons_self
      refine foldl_push js (h.push hj.1 hj.2 (by simp)) (List.nodup_cons.mp hnd).2 fun r hr => ?_
      have hne : r ≠ j := fun e => (List.nodup_cons.mp hnd).1 (e ▸ hr)
      simpa [hne] using hasleep r (List.mem_cons_of_mem _ hr)

end HeldOnce

/-- `handle_yield_request` keeps every thread held at most once, as long as the threads it
wakes are asleep. -/
theorem handle_yield_request_held {s s' : SmpScheduler} {tid : ThreadId}
    {result : Option YieldRequest} {resume : YieldResume} (h : HeldOnce s (some tid))
    (hwake : WakesAsleep s tid result)
    (hs : s.handle_yield_request tid result = .ok (s', resume)) :
    HeldOnce s' (resume.running tid) := by
  obtain ⟨thread, -, hs⟩ := Outcome.bind_eq_ok.mp hs
  match result, hwake with
  | none, hwake =>
      obtain ⟨thread', hthread, hret⟩ := Outcome.bind_eq_ok.mp hs
      simp only [Outcome.pure_eq, Outcome.ok.injEq, Prod.mk.injEq] at hret
      obtain ⟨rfl, rfl⟩ := hret
      rw [expect_thread_eq_ok, mark_unrunnable_threads] at hthread
      obtain ⟨hnd, hasleep⟩ := hwake thread' hthread
      refine HeldOnce.foldl_push _ ?_ hnd fun j hj => ⟨?_, (hasleep j hj).2⟩
      · exact (h.filter_runnable (fun t => decide (t ≠ tid))).stop.of_lists rfl rfl
      · exact fun hm => (hasleep j hj).1 (List.mem_of_mem_filter hm)
  | some .None, _ =>
      simp only [Outcome.pure_eq, Outcome.ok.injEq, Prod.mk.injEq] at hs
      obtain ⟨rfl, rfl⟩ := hs
      exact h.requeue
  | some (.Runnable rtid), hwake =>
      obtain ⟨s₁, hwk, hret⟩ := Outcome.bind_eq_ok.mp hs
      simp only [Outcome.pure_eq, Outcome.ok.injEq, Prod.mk.injEq] at hret
      obtain ⟨rfl, rfl⟩ := hret
      obtain ⟨_, -, hret⟩ := Outcome.bind_eq_ok.mp hwk
      simp only [Outcome.pure_eq, Outcome.ok.injEq] at hret
      subst hret
      exact h.wake hwake.1 (by simpa using hwake.2.symm)
  | some (.Unrunnable rtid), _ =>
      obtain ⟨_, -, hret⟩ := Outcome.bind_eq_ok.mp hs
      by_cases hr : rtid = tid
      · simp only [hr, if_true, Outcome.pure_eq, Outcome.ok.injEq, Prod.mk.injEq] at hret
        obtain ⟨rfl, rfl⟩ := hret
        exact h.stop
      · simp only [hr, if_false, Outcome.pure_eq, Outcome.ok.injEq, Prod.mk.injEq] at hret
        obtain ⟨rfl, rfl⟩ := hret
        exact (h.filter_runnable _).of_lists rfl rfl
  | some (.RunnableList rtids), hwake =>
      obtain ⟨s₁, hfold, hret⟩ := Outcome.bind_eq_ok.mp hs
      simp only [Outcome.pure_eq, Outcome.ok.injEq, Prod.mk.injEq] at hret
      obtain ⟨rfl, rfl⟩ := hret
      exact HeldOnce.foldlM_wake rtids h hwake.1 hwake.2 hfold
  | some (.Timeout deadline), _ =>
      obtain ⟨s₁, hins, hret⟩ := Outcome.bind_eq_ok.mp hs
      simp only [Outcome.pure_eq, Outcome.ok.injEq, Prod.mk.injEq] at hret
      obtain ⟨rfl, rfl⟩ := hret
      exact h.suspend hins
  | some (.JoinOn wait_on_tid), _ =>
      simp only at hs
      split at hs
      · simp only [Outcome.pure_eq, Outcome.ok.injEq, Prod.mk.injEq] at hs
        obtain ⟨rfl, rfl⟩ := hs
        exact h.stop.of_lists rfl rfl
      · simp only [Outcome.pure_eq, Outcome.ok.injEq, Prod.mk.injEq] at hs
        obtain ⟨rfl, rfl⟩ := hs
        exact h

namespace HeldOnce

variable {s : SmpScheduler} {tid : ThreadId}

theorem check_wakeups (h : HeldOnce s none) (now : Instant) :
    HeldOnce (s.check_wakeups now) none := by
  have hperm := s.check_wakeups_perm now
  have hnd := hperm.nodup_iff.mpr h.waiting_nodup
  have hdue : ∀ t ∈ (s.waiting.reverse.takeWhile (·.1 ≤ now)).map Prod.snd,
      t ∈ s.waiting.map Prod.snd :=
    fun t ht => hperm.subset (List.mem_append_right _ ht)
  have hstay : ∀ t ∈ (s.check_wakeups now).waiting.map Prod.snd, t ∈ s.waiting.map Prod.snd :=
    fun t ht => hperm.subset (List.mem_append_left _ ht)
  refine ⟨?_, (List.nodup_append.mp hnd).1, fun t ht hw => ?_, by simp, by simp⟩
  · refine List.nodup_append.mpr ⟨h.nodup, (List.nodup_append.mp hnd).2.1, fun a ha b hb => ?_⟩
    exact fun e => h.disjoint a ha (e ▸ hdue b hb)
  · rcases List.mem_append.mp ht with ht | ht
    · exact h.disjoint t ht (hstay t hw)
    · exact (List.nodup_append.mp hnd).2.2 t hw t ht rfl

theorem pop_front {rest : List ThreadId} (h : HeldOnce s none) (hs : s.runnable = tid :: rest) :
    HeldOnce { s with runnable := rest } (some tid) where
  nodup := (List.nodup_cons.mp (hs ▸ h.nodup)).2
  waiting_nodup := h.waiting_nodup
  disjoint := fun t ht => h.disjoint t (hs ▸ List.mem_cons_of_mem _ ht)
  current_runnable := fun t ht => by
    rw [← Option.some.inj ht]
    exact (List.nodup_cons.mp (hs ▸ h.nodup)).1
  current_waiting := fun t ht => by
    rw [← Option.some.inj ht]
    exact h.disjoint tid (hs ▸ List.mem_cons_self)

end HeldOnce

end Nrk.Lineup
