import Nrk.Lineup.Scheduler

/-! # Threads on one core: mutexes, condition variables and the run loop

Threads whose code is any sequence of lineup calls, each a few instructions, under the run loop
of `SmpScheduler`. -/

namespace Nrk.Lineup

/-- A mutex, by its address. -/
abbrev MutexId := ℕ

/-- A condition variable, by its address. -/
abbrev CondId := ℕ

/-- `ArrayQueue::new(64)`, the capacity of a mutex's waitlist. -/
def WAITLIST_CAPACITY : ℕ := 64

/-- The state of a kmutex (`Mutex::new_kmutex`): its owner, the threads queued for it, and
`counter`, the number of threads that hold it or wait for it. -/
structure MutexInner where
  owner : Option ThreadId
  waitlist : List ThreadId
  counter : ℕ
  deriving DecidableEq, Repr

/-- `MutexInner` as `Mutex::new_with_flags` makes it. -/
def MutexInner.new : MutexInner := ⟨none, [], 0⟩

/-- The synchronisation objects: every mutex, and every condition variable's `waiters`. -/
structure Sync where
  mutexes : MutexId → MutexInner
  condvars : CondId → List ThreadId

namespace Sync

def setMutex (y : Sync) (m : MutexId) (mi : MutexInner) : Sync :=
  { y with mutexes := Function.update y.mutexes m mi }

def setWaiters (y : Sync) (c : CondId) (waiters : List ThreadId) : Sync :=
  { y with condvars := Function.update y.condvars c waiters }

@[simp] theorem setMutex_mutexes (y : Sync) (m : MutexId) (mi : MutexInner) :
    (y.setMutex m mi).mutexes = Function.update y.mutexes m mi := rfl

@[simp] theorem setMutex_condvars (y : Sync) (m : MutexId) (mi : MutexInner) :
    (y.setMutex m mi).condvars = y.condvars := rfl

@[simp] theorem setWaiters_mutexes (y : Sync) (c : CondId) (waiters : List ThreadId) :
    (y.setWaiters c waiters).mutexes = y.mutexes := rfl

@[simp] theorem setWaiters_condvars (y : Sync) (c : CondId) (waiters : List ThreadId) :
    (y.setWaiters c waiters).condvars = Function.update y.condvars c waiters := rfl

@[simp] theorem setMutex_setMutex (y : Sync) (m : MutexId) (mi mi' : MutexInner) :
    (y.setMutex m mi).setMutex m mi' = y.setMutex m mi' := by
  simp [setMutex]

end Sync

/-- The pieces of the primitives' code, each running up to the request it makes, if any. -/
inductive Instr where
  /-- `MutexInner::enter` of a kmutex up to its wait: `counter.fetch_add(1)`, and when the
  mutex was held, `waitlist.push(tid)` and `make_unrunnable(tid)` -/
  | enter (m : MutexId)
  /-- the rest of `MutexInner::enter`: `owner.replace(Some(tid))` -/
  | own (m : MutexId)
  /-- `MutexInner::exit` -/
  | exit (m : MutexId)
  /-- `MutexInner::enter_nowrap` -/
  | enter_nowrap (m : MutexId)
  /-- `self.waiters.push(tid)` -/
  | push_waiter (c : CondId)
  /-- `remove_item(&mut self.waiters, &tid)` -/
  | remove_waiter (c : CondId)
  /-- `CondVarInner::signal` -/
  | signal (c : CondId)
  /-- `CondVarInner::broadcast` -/
  | broadcast (c : CondId)
  /-- `yielder.suspend(request)` -/
  | suspend (r : YieldRequest)
  deriving DecidableEq, Repr

/-- Thread `tid` runs one instruction: the new state of the objects and the request it
makes, a panic, or `none` when it spins forever. -/
def Instr.exec (tid : ThreadId) (y : Sync) : Instr → Option (Outcome (Sync × Option YieldRequest))
  | .enter m =>
      let mi := y.mutexes m
      if mi.counter = 0 then some (.ok (y.setMutex m { mi with counter := 1 }, none))
      -- `assert!(self.waitlist.push(tid).is_ok())`
      else if mi.waitlist.length < WAITLIST_CAPACITY then
        some (.ok (y.setMutex m
          { mi with counter := mi.counter + 1, waitlist := mi.waitlist ++ [tid] },
          some (.Unrunnable tid)))
      else some .panic
  | .own m => some (.ok (y.setMutex m { y.mutexes m with owner := some tid }, none))
  | .exit m =>
      let mi := y.mutexes m
      -- `fetch_sub(1)` returned `v < 1`: "Called exit on already released mtx"
      if mi.counter = 0 then some .panic
      else
        let mi' := { mi with owner := none, counter := mi.counter - 1 }
        if mi.counter = 1 then some (.ok (y.setMutex m mi', none))
        else
          match mi.waitlist with
          -- `while self.waitlist.is_empty() { spin_loop() }`: no other thread runs
          | [] => none
          | next :: rest => some (.ok (y.setMutex m { mi' with waitlist := rest },
              some (.Runnable next)))
  | .enter_nowrap m =>
      let mi := y.mutexes m
      -- `while self.counter.load() != 0 { spin_loop() }`: no other thread runs
      if mi.counter = 0 then some (.ok (y.setMutex m { mi with counter := 1, owner := some tid },
        none))
      else none
  | .push_waiter c => some (.ok (y.setWaiters c (y.condvars c ++ [tid]), none))
  | .remove_waiter c => some (.ok (y.setWaiters c ((y.condvars c).erase tid), none))
  | .signal c =>
      -- `self.waiters.pop()` takes the last waiter
      match (y.condvars c).getLast? with
      | none => some (.ok (y, none))
      | some waking_tid => some (.ok (y.setWaiters c (y.condvars c).dropLast,
          some (.Runnable waking_tid)))
  | .broadcast c =>
      let waiters := y.condvars c
      some (.ok (y.setWaiters c [], if waiters.isEmpty then none else some (.RunnableList waiters)))
  | .suspend r => some (.ok (y, some r))

/-- The calls a thread makes. -/
inductive Op where
  /-- `Mutex::enter` of a kmutex -/
  | enter (m : MutexId)
  /-- `Mutex::exit` -/
  | exit (m : MutexId)
  /-- `CondVar::wait(mtx)` -/
  | wait (c : CondId) (m : MutexId)
  /-- `CondVar::timed_wait(mtx, d)` -/
  | timed_wait (c : CondId) (m : MutexId) (d : ℕ)
  /-- `CondVar::signal` -/
  | signal (c : CondId)
  /-- `CondVar::broadcast` -/
  | broadcast (c : CondId)
  /-- `ThreadControlBlock::sleep(d)` -/
  | sleep (d : ℕ)
  /-- `ThreadControlBlock::join(tid)` -/
  | join (t : ThreadId)
  /-- `ThreadControlBlock::relinquish` -/
  | relinquish
  deriving DecidableEq, Repr

/-- The instructions of a call that thread `tid` starts at instant `now`. A deadline
`Instant::now().add(d)` is read when the call starts. -/
def Op.code (tid : ThreadId) (now : Instant) : Op → List Instr
  | .enter m => [.enter m, .own m]
  | .exit m => [.exit m]
  -- `cv_unschedule` exits the mutex; `cv_schedule_enter` takes it with `enter_nowrap`
  | .wait c m => [.push_waiter c, .exit m, .suspend (.Unrunnable tid), .enter_nowrap m,
      .remove_waiter c]
  | .timed_wait c m d => [.push_waiter c, .exit m, .suspend (.Timeout (now + d)),
      .enter_nowrap m, .remove_waiter c]
  | .signal c => [.signal c]
  | .broadcast c => [.broadcast c]
  | .sleep d => [.suspend (.Timeout (now + d))]
  | .join t => [.suspend (.JoinOn t)]
  | .relinquish => [.suspend .None]

/-- The core: the scheduler, the objects, what is left of the call each thread is in (its
generator), the thread that `run` is running, and the clock. -/
structure World where
  sched : SmpScheduler
  sync : Sync
  code : ThreadId → List Instr
  current : Option ThreadId
  now : Instant

/-- What happens next on the core. -/
inductive Event where
  /-- the clock reads `t` -/
  | tick (t : Instant)
  /-- a turn of `run`'s loop: `check_wakeups`, then `runnable.pop_front()` -/
  | dispatch
  /-- the running thread, between two calls, makes call `o` -/
  | call (o : Op)
  /-- the running thread runs its next instruction -/
  | step
  /-- the running thread's function returns -/
  | finish
  deriving DecidableEq, Repr

namespace World

/-- `n` threads spawned on the core, with the ids `0, …, n - 1` that `tid_counter` hands out,
each marked runnable in turn; every mutex free and every condition variable without waiters. -/
def init (n : ℕ) (now : Instant) : World where
  sched := { threads := fun t => if t < n then some ⟨[]⟩ else none
             runnable := List.range n
             waiting := [] }
  sync := { mutexes := fun _ => MutexInner.new, condvars := fun _ => [] }
  code := fun _ => []
  current := none
  now := now

/-- One event. An event that does not apply (a dispatch while a thread runs, a call in the
middle of one, an instruction that spins) leaves the core as it is. -/
def next (w : World) : Event → Outcome World
  | .tick t => .ok (if w.now ≤ t then { w with now := t } else w)
  | .dispatch =>
      match w.current with
      | some _ => .ok w
      | none =>
          let s := w.sched.check_wakeups w.now
          match s.runnable with
          | [] => .ok { w with sched := s }
          | tid :: rest =>
              -- `generators.remove(&tid).expect(..)` and `thread_map.get(&tid).expect(..)`
              match s.threads tid with
              | none => .panic
              | some _ => .ok { w with sched := { s with runnable := rest }, current := some tid }
  | .call o =>
      match w.current with
      | some tid =>
          if w.code tid = [] then .ok { w with code := Function.update w.code tid (o.code tid w.now) }
          else .ok w
      | none => .ok w
  | .step =>
      match w.current with
      | none => .ok w
      | some tid =>
          match w.code tid with
          | [] => .ok w
          | i :: rest =>
              match i.exec tid w.sync with
              | none => .ok w
              | some .panic => .panic
              | some (.ok (y, none)) =>
                  .ok { w with sync := y, code := Function.update w.code tid rest }
              | some (.ok (y, some r)) => do
                  let (s, resume) ← w.sched.handle_yield_request tid (some r)
                  return { w with sched := s, sync := y, code := Function.update w.code tid rest,
                                  current := resume.running tid }
  | .finish =>
      match w.current with
      | none => .ok w
      | some tid =>
          if w.code tid = [] then do
            let (s, resume) ← w.sched.handle_yield_request tid none
            return { w with sched := s, current := resume.running tid }
          else .ok w

/-- A sequence of events, stopping at a panic. -/
def run (w : World) (es : List Event) : Outcome World := es.foldlM next w

end World

/-! ## What each instruction does when nothing is in its way -/

namespace Instr

variable {tid : ThreadId} {y : Sync} {m : MutexId} {c : CondId}

theorem exec_enter_free (h : (y.mutexes m).counter = 0) :
    (enter m).exec tid y = some (.ok (y.setMutex m { y.mutexes m with counter := 1 }, none)) := by
  simp [exec, h]

theorem exec_enter_held (h : (y.mutexes m).counter ≠ 0)
    (hcap : (y.mutexes m).waitlist.length < WAITLIST_CAPACITY) :
    (enter m).exec tid y = some (.ok (y.setMutex m { y.mutexes m with
      counter := (y.mutexes m).counter + 1, waitlist := (y.mutexes m).waitlist ++ [tid] },
      some (.Unrunnable tid))) := by
  simp [exec, h, hcap]

theorem exec_own :
    (own m).exec tid y = some (.ok (y.setMutex m { y.mutexes m with owner := some tid }, none)) :=
  rfl

theorem exec_exit_last (h : (y.mutexes m).counter = 1) :
    (exit m).exec tid y =
      some (.ok (y.setMutex m { y.mutexes m with owner := none, counter := 0 }, none)) := by
  simp [exec, h]

theorem exec_enter_nowrap_free (h : (y.mutexes m).counter = 0) :
    (enter_nowrap m).exec tid y =
      some (.ok (y.setMutex m { y.mutexes m with counter := 1, owner := some tid }, none)) := by
  simp [exec, h]

theorem exec_push_waiter :
    (push_waiter c).exec tid y = some (.ok (y.setWaiters c (y.condvars c ++ [tid]), none)) := rfl

theorem exec_remove_waiter :
    (remove_waiter c).exec tid y = some (.ok (y.setWaiters c ((y.condvars c).erase tid), none)) :=
  rfl

theorem exec_signal {waking_tid : ThreadId} (h : (y.condvars c).getLast? = some waking_tid) :
    (signal c).exec tid y =
      some (.ok (y.setWaiters c (y.condvars c).dropLast, some (.Runnable waking_tid))) := by
  simp [exec, h]

theorem exec_suspend (r : YieldRequest) : (suspend r).exec tid y = some (.ok (y, some r)) := rfl

end Instr

namespace World

variable {w : World} {tid : ThreadId}

theorem next_tick {t : Instant} (h : w.now ≤ t) : w.next (.tick t) = .ok { w with now := t } := by
  simp [next, h]

theorem next_dispatch {rest : List ThreadId} {thread : Thread} (hc : w.current = none)
    (hr : (w.sched.check_wakeups w.now).runnable = tid :: rest)
    (ht : w.sched.threads tid = some thread) :
    w.next .dispatch = .ok { w with
      sched := { w.sched.check_wakeups w.now with runnable := rest }
      current := some tid } := by
  simp only [next, hc, hr]
  simp [SmpScheduler.check_wakeups, ht]

theorem next_call (hc : w.current = some tid) (hcode : w.code tid = []) (o : Op) :
    w.next (.call o) = .ok { w with code := Function.update w.code tid (o.code tid w.now) } := by
  simp [next, hc, hcode]

theorem next_step_of_none {i : Instr} {rest : List Instr} {y : Sync} (hc : w.current = some tid)
    (hcode : w.code tid = i :: rest) (hi : i.exec tid w.sync = some (.ok (y, none))) :
    w.next .step = .ok { w with sync := y, code := Function.update w.code tid rest } := by
  simp [next, hc, hcode, hi]

theorem next_step_of_some {i : Instr} {rest : List Instr} {y : Sync} {r : YieldRequest}
    {s : SmpScheduler} {resume : YieldResume} (hc : w.current = some tid)
    (hcode : w.code tid = i :: rest) (hi : i.exec tid w.sync = some (.ok (y, some r)))
    (hh : w.sched.handle_yield_request tid (some r) = .ok (s, resume)) :
    w.next .step = .ok { w with
      sched := s, sync := y, code := Function.update w.code tid rest
      current := resume.running tid } := by
  simp [next, hc, hcode, hi, hh]

end World

/-- The states of a core with `n` threads that some sequence of events reaches without a
panic, from any reading of the clock. -/
inductive Reachable (n : ℕ) : World → Prop where
  | init (now : Instant) : Reachable n (World.init n now)
  | step {w w' : World} (e : Event) : Reachable n w → w.next e = .ok w' → Reachable n w'

theorem Reachable.run {n : ℕ} : ∀ (es : List Event) {w w' : World}, Reachable n w →
    w.run es = .ok w' → Reachable n w'
  | [], _, _, hw, h => by
      simp only [World.run, List.foldlM_nil, Outcome.pure_eq, Outcome.ok.injEq] at h
      exact h ▸ hw
  | e :: es, w, _, hw, h => by
      simp only [World.run, List.foldlM_cons] at h
      obtain ⟨w₁, h₁, h⟩ := Outcome.bind_eq_ok.mp h
      exact Reachable.run es (hw.step e h₁) h

/-! ## What each call does when nothing is in its way

Each lemma runs one call of the running thread, or one turn of the loop, from a reachable
state, and names the state reached. -/

namespace Reachable

variable {n : ℕ} {w : World} {tid : ThreadId} {thread : Thread} {m : MutexId} {c : CondId}

theorem dispatch {rest : List ThreadId} (hw : Reachable n w) (hc : w.current = none)
    (hr : (w.sched.check_wakeups w.now).runnable = tid :: rest)
    (ht : w.sched.threads tid = some thread) :
    Reachable n { w with
      sched := { w.sched.check_wakeups w.now with runnable := rest }
      current := some tid } :=
  hw.step _ (World.next_dispatch hc hr ht)

theorem tick {t : Instant} (hw : Reachable n w) (h : w.now ≤ t) : Reachable n { w with now := t } :=
  hw.step _ (World.next_tick h)

theorem enter_free (hw : Reachable n w) (hc : w.current = some tid) (hcode : w.code tid = [])
    (hfree : (w.sync.mutexes m).counter = 0) :
    Reachable n { w with
      sync := w.sync.setMutex m { w.sync.mutexes m with counter := 1, owner := some tid } } := by
  have h₁ := hw.step _ (World.next_call hc hcode (.enter m))
  have h₂ := h₁.step _ (World.next_step_of_none hc (Function.update_self ..)
    (Instr.exec_enter_free hfree))
  have h₃ := h₂.step _ (World.next_step_of_none hc (Function.update_self ..) Instr.exec_own)
  convert h₃ using 1
  simp [← hcode]

/-- `Mutex::enter` of a held mutex: the thread queues itself and asks to be unrunnable,
which switches away from it. -/
theorem enter_held (hw : Reachable n w) (hc : w.current = some tid) (hcode : w.code tid = [])
    (hheld : (w.sync.mutexes m).counter ≠ 0)
    (hcap : (w.sync.mutexes m).waitlist.length < WAITLIST_CAPACITY)
    (ht : w.sched.threads tid = some thread) :
    Reachable n { w with
      sync := w.sync.setMutex m { w.sync.mutexes m with
        counter := (w.sync.mutexes m).counter + 1, waitlist := (w.sync.mutexes m).waitlist ++ [tid] }
      code := Function.update w.code tid [.own m]
      current := none } := by
  have h₁ := hw.step _ (World.next_call hc hcode (.enter m))
  have h₂ := h₁.step _ (World.next_step_of_some hc (Function.update_self ..)
    (Instr.exec_enter_held hheld hcap) (SmpScheduler.handle_yield_request_Unrunnable_self ht))
  convert h₂ using 1
  simp [YieldResume.running]

/-- `CondVar::timed_wait` of a mutex the thread holds alone, up to its suspension: the
thread is a waiter, the mutex is free, and the thread sleeps until the deadline. -/
theorem timed_wait_suspend {d : ℕ} (hw : Reachable n w) (hc : w.current = some tid)
    (hcode : w.code tid = []) (hheld : (w.sync.mutexes m).counter = 1)
    (ht : w.sched.threads tid = some thread) (hnew : (w.now + d, tid) ∉ w.sched.waiting) :
    Reachable n { w with
      sched := { w.sched with waiting := SmpScheduler.insert_sorted w.sched.waiting (w.now + d, tid) }
      sync := (w.sync.setWaiters c (w.sync.condvars c ++ [tid])).setMutex m
        { w.sync.mutexes m with owner := none, counter := 0 }
      code := Function.update w.code tid [.enter_nowrap m, .remove_waiter c]
      current := none } := by
  have h₁ := hw.step _ (World.next_call hc hcode (.timed_wait c m d))
  have h₂ := h₁.step _ (World.next_step_of_none hc (Function.update_self ..) Instr.exec_push_waiter)
  have h₃ := h₂.step _ (World.next_step_of_none hc (Function.update_self ..)
    (Instr.exec_exit_last (by simpa using hheld)))
  have h₄ := h₃.step _ (World.next_step_of_some hc (Function.update_self ..) (Instr.exec_suspend _)
    (SmpScheduler.handle_yield_request_Timeout ht hnew))
  convert h₄ using 1
  simp [YieldResume.running]

theorem relinquish (hw : Reachable n w) (hc : w.current = some tid) (hcode : w.code tid = [])
    (ht : w.sched.threads tid = some thread) :
    Reachable n { w with sched := w.sched.mark_runnable tid, current := none } := by
  have h₁ := hw.step _ (World.next_call hc hcode .relinquish)
  have h₂ := h₁.step _ (World.next_step_of_some hc (Function.update_self ..) (Instr.exec_suspend _)
    (SmpScheduler.handle_yield_request_None ht))
  convert h₂ using 1
  simp [YieldResume.running, ← hcode]

theorem signal_wake {waking_tid : ThreadId} {thread' : Thread} (hw : Reachable n w)
    (hc : w.current = some tid) (hcode : w.code tid = [])
    (hlast : (w.sync.condvars c).getLast? = some waking_tid)
    (ht : w.sched.threads tid = some thread) (ht' : w.sched.threads waking_tid = some thread') :
    Reachable n { w with
      sched := (w.sched.waitlist_remove waking_tid).mark_runnable waking_tid
      sync := w.sync.setWaiters c (w.sync.condvars c).dropLast } := by
  have h₁ := hw.step _ (World.next_call hc hcode (.signal c))
  have h₂ := h₁.step _ (World.next_step_of_some hc (Function.update_self ..) (Instr.exec_signal hlast)
    (SmpScheduler.handle_yield_request_Runnable ht ht'))
  convert h₂ using 1
  simp [YieldResume.running, hc, ← hcode]

/-- The end of `CondVar::timed_wait` once the thread runs again: it takes the free mutex with
`enter_nowrap` and leaves the waiters. -/
theorem timed_wait_resume (hw : Reachable n w) (hc : w.current = some tid)
    (hcode : w.code tid = [.enter_nowrap m, .remove_waiter c])
    (hfree : (w.sync.mutexes m).counter = 0) :
    Reachable n { w with
      sync := (w.sync.setMutex m { w.sync.mutexes m with counter := 1, owner := some tid }).setWaiters
        c ((w.sync.condvars c).erase tid)
      code := Function.update w.code tid [] } := by
  have h₁ := hw.step _ (World.next_step_of_none hc hcode (Instr.exec_enter_nowrap_free hfree))
  have h₂ := h₁.step _ (World.next_step_of_none hc (Function.update_self ..) Instr.exec_remove_waiter)
  convert h₂ using 1
  simp

end Reachable

/-! ## A thread woken twice

`CondVar::timed_wait` leaves its thread among the condition variable's waiters while it
sleeps. Once the deadline passes, `check_wakeups` makes the thread runnable, and a `signal`
before it runs makes it runnable a second time: `Runnable` removes it from the waiting list,
where it no longer is, and pushes it again. The second copy then resumes the thread wherever
it blocks next, here inside `Mutex::enter` of a mutex that another thread holds. -/

/-- Two threads, mutexes `m ≠ m₂`, a condition variable `c` and a timeout `d > 0`, from any
instant `t₀`. Thread 0 enters `m` and calls `c.timed_wait(m, d)`; thread 1 enters `m₂` and
relinquishes the core; the clock reaches the deadline; thread 1, run first, signals `c`. The
runnable deque is then `[0, 0]`. Thread 1 relinquishes again; thread 0 runs, returns from the
wait and calls `m₂.enter()`, which queues it behind thread 1, the owner; and the loop pops the
second copy and resumes thread 0 while it is still queued, one instruction before it makes
itself the owner of `m₂`. -/
theorem timed_wait_signal_wakes_twice {m m₂ c d t₀ : ℕ} (hm : m ≠ m₂) (hd : 0 < d) :
    (∃ w, Reachable 2 w ∧ w.sched.runnable = [0, 0] ∧ ¬ HeldOnce w.sched w.current) ∧
    ∃ w, Reachable 2 w ∧ w.current = some 0 ∧ 0 ∈ (w.sync.mutexes m₂).waitlist ∧
      (w.sync.mutexes m₂).owner = some 1 ∧ w.code 0 = [.own m₂] := by
  have hlate : ¬ t₀ + d ≤ t₀ := by omega
  -- thread 0 takes `m` and waits on `c` for `d` ticks
  have r₁ := (Reachable.init (n := 2) t₀).dispatch rfl
    (show _ = 0 :: [1] from rfl) (show _ = some ⟨[]⟩ from rfl)
  dsimp only [World.init, SmpScheduler.check_wakeups] at r₁
  have r₂ := r₁.enter_free (m := m) rfl rfl rfl
  have r₃ := r₂.timed_wait_suspend (m := m) (c := c) (d := d) rfl rfl (by simp) rfl (by simp)
  simp only [Sync.setMutex, Sync.setWaiters, Function.update_self, Function.update_idem,
    MutexInner.new, List.reverse_nil, List.dropWhile_nil, SmpScheduler.insert_sorted,
    List.takeWhile_nil, List.length_nil, List.insertIdx_zero, List.nil_append] at r₃
  -- thread 1 takes `m₂` and gives the core back; the deadline has not passed
  have r₄ := r₃.dispatch rfl (show _ = 1 :: [] by simp [SmpScheduler.check_wakeups, hlate]) rfl
  have r₅ := r₄.enter_free (m := m₂) rfl (by simp) (by simp [Function.update_of_ne hm.symm])
  have r₆ := r₅.relinquish rfl (by simp) rfl
  simp only [SmpScheduler.check_wakeups, Sync.setMutex, List.reverse_cons, List.reverse_nil,
    List.nil_append, List.dropWhile_cons, hlate, decide_false, SmpScheduler.mark_runnable] at r₆
  -- the deadline passes: the loop wakes thread 0 behind thread 1 and runs thread 1, which
  -- signals `c`, whose last waiter is still thread 0
  have r₇ := r₆.tick (le_add_of_nonneg_right (Nat.zero_le d))
  have r₈ := r₇.dispatch rfl (show _ = 1 :: [0] by simp [SmpScheduler.check_wakeups]) rfl
  have r₉ := r₈.signal_wake (c := c) rfl (by simp) (show _ = some 0 by simp) rfl rfl
  simp only [Sync.setWaiters, SmpScheduler.check_wakeups, SmpScheduler.mark_runnable,
    SmpScheduler.waitlist_remove] at r₉
  -- thread 1 gives the core back; thread 0 runs, takes `m` again and enters `m₂`, which
  -- thread 1 holds: it queues and makes itself unrunnable
  have r₁₀ := r₉.relinquish rfl (by simp) rfl
  have r₁₁ := r₁₀.dispatch rfl (show _ = 0 :: [0, 1] by simp [SmpScheduler.check_wakeups]) rfl
  have r₁₂ := r₁₁.timed_wait_resume (m := m) (c := c) rfl (by simp)
    (by simp [Function.update_apply, hm])
  have r₁₃ := r₁₂.enter_held (m := m₂) rfl (by simp) (by simp [Function.update_of_ne hm.symm, hm])
    (by simp [Function.update_of_ne hm.symm, hm, WAITLIST_CAPACITY]) rfl
  -- the loop pops the second copy of thread 0
  have r₁₄ := r₁₃.dispatch rfl (show _ = 0 :: [1] by simp [SmpScheduler.check_wakeups]) rfl
  refine ⟨⟨_, r₉, by simp, fun h => by simpa using h.nodup⟩, _, r₁₄, rfl, ?_⟩
  simp [Sync.setMutex, Sync.setWaiters, Function.update_of_ne hm.symm, hm]

theorem timed_wait_signal_wakes_twice_first_ids :
    (∃ w, Reachable 2 w ∧ w.sched.runnable = [0, 0] ∧ ¬ HeldOnce w.sched w.current) ∧
    ∃ w, Reachable 2 w ∧ w.current = some 0 ∧ 0 ∈ (w.sync.mutexes 1).waitlist ∧
      (w.sync.mutexes 1).owner = some 1 ∧ w.code 0 = [.own 1] :=
  @timed_wait_signal_wakes_twice 0 1 0 1 0 (by decide) (by decide)

end Nrk.Lineup
