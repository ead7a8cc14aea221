import Nrk.Lib.Outcome

/-! # The distributed reader-writer lock (`kernel/src/fs/rwlock.rs`)

The lock at the grain of its atomic operations, one core's step at a time, and what holds in
every reachable state. -/

namespace Nrk.Fs

/-- `MAX_READER_THREADS` is `MAX_CORES`. -/
def MAX_READER_THREADS : ℕ := 192

/-- Where a core is in the lock's code. -/
inductive Pc where
  | idle
  /-- `wlock.compare_exchange_weak(false, true)` -/
  | write_lock
  /-- the `all` over `rlock.iter().take(n)`, at slot `i` -/
  | write_wait (i : ℕ)
  /-- a `WriteGuard` is alive -/
  | writing
  /-- `while read_volatile(wlock)` -/
  | read_wait
  /-- `rlock[tid].fetch_add(1)` -/
  | read_inc
  /-- `wlock.load()` -/
  | read_check
  /-- `rlock[tid].fetch_sub(1)` before trying again -/
  | read_retry
  /-- a `ReadGuard` is alive -/
  | reading
  deriving DecidableEq, Repr

/-- The lock and the cores. -/
structure LockState where
  wlock : Bool
  rlock : ℕ → ℕ
  pc : ℕ → Pc

namespace LockState

/-- `RwLock::default`: no writer, every counter zero, every core outside the lock. -/
def initial : LockState := ⟨false, fun _ => 0, fun _ => .idle⟩

def setPc (s : LockState) (c : ℕ) (p : Pc) : LockState := { s with pc := Function.update s.pc c p }

@[simp] theorem setPc_wlock (s : LockState) (c : ℕ) (p : Pc) : (s.setPc c p).wlock = s.wlock := rfl

@[simp] theorem setPc_rlock (s : LockState) (c : ℕ) (p : Pc) : (s.setPc c p).rlock = s.rlock := rfl

@[simp] theorem setPc_pc (s : LockState) (c : ℕ) (p : Pc) :
    (s.setPc c p).pc = Function.update s.pc c p := rfl

end LockState

/-- An event: core `core` calls `write()` or `read()`, or takes its next atomic step (inside
`write()` or `read()`, or the drop of the guard it holds). -/
inductive Event where
  | write (core : ℕ)
  | read (core : ℕ)
  | step (core : ℕ)
  deriving DecidableEq, Repr

namespace LockState

/-- One event, with `n = CORES_PER_NUMA_NODE`. The drops panic as `write_unlock` and
`read_unlock` do when the lock is not held. -/
def next (n : ℕ) (s : LockState) : Event → Outcome LockState
  | .write c => .ok (if s.pc c = .idle then s.setPc c .write_lock else s)
  | .read c => .ok (if s.pc c = .idle then s.setPc c .read_wait else s)
  | .step c =>
      match s.pc c with
      | .idle => .ok s
      | .write_lock =>
          if s.wlock then .ok s else .ok { s.setPc c (.write_wait 0) with wlock := true }
      | .write_wait i =>
          if i < min n MAX_READER_THREADS then
            -- `all` stops at the first counter that is not zero, and the loop starts over
            if s.rlock i = 0 then .ok (s.setPc c (.write_wait (i + 1)))
            else .ok (s.setPc c (.write_wait 0))
          else .ok (s.setPc c .writing)
      | .writing =>
          -- `write_unlock`: `compare_exchange_weak(true, false)`, a panic if it fails
          if s.wlock then .ok { s.setPc c .idle with wlock := false } else .panic
      | .read_wait => .ok (if s.wlock then s else s.setPc c .read_inc)
      | .read_inc =>
          -- `self.rlock[tid]`, with `tid = CORE_ID`
          if c < MAX_READER_THREADS then
            .ok { s.setPc c .read_check with rlock := Function.update s.rlock c (s.rlock c + 1) }
          else .panic
      | .read_check => .ok (s.setPc c (if s.wlock then .read_retry else .reading))
      | .read_retry =>
          .ok { s.setPc c .read_wait with rlock := Function.update s.rlock c (s.rlock c - 1) }
      | .reading =>
          -- `read_unlock`: a panic if the counter was zero
          if s.rlock c = 0 then .panic
          else .ok { s.setPc c .idle with rlock := Function.update s.rlock c (s.rlock c - 1) }

/-! The transitions that a reader and a writer take when nothing is in their way. -/

variable {n : ℕ} {s : LockState} {c : ℕ}

@[simp] theorem setPc_setPc (p q : Pc) : (s.setPc c p).setPc c q = s.setPc c q := by
  simp [setPc]

theorem next_read (h : s.pc c = .idle) : s.next n (.read c) = .ok (s.setPc c .read_wait) := by
  simp [next, h]

theorem next_write (h : s.pc c = .idle) : s.next n (.write c) = .ok (s.setPc c .write_lock) := by
  simp [next, h]

theorem next_read_wait (h : s.pc c = .read_wait) (hw : s.wlock = false) :
    s.next n (.step c) = .ok (s.setPc c .read_inc) := by
  simp [next, h, hw]

theorem next_read_inc (h : s.pc c = .read_inc) (hc : c < MAX_READER_THREADS) :
    s.next n (.step c) =
      .ok { s.setPc c .read_check with rlock := Function.update s.rlock c (s.rlock c + 1) } := by
  simp [next, h, hc]

theorem next_read_check (h : s.pc c = .read_check) (hw : s.wlock = false) :
    s.next n (.step c) = .ok (s.setPc c .reading) := by
  simp [next, h, hw]

theorem next_write_lock (h : s.pc c = .write_lock) (hw : s.wlock = false) :
    s.next n (.step c) = .ok { s.setPc c (.write_wait 0) with wlock := true } := by
  simp [next, h, hw]

theorem next_write_wait_free {i : ℕ} (h : s.pc c = .write_wait i)
    (hi : i < min n MAX_READER_THREADS) (hfree : s.rlock i = 0) :
    s.next n (.step c) = .ok (s.setPc c (.write_wait (i + 1))) := by
  simp only [next, h, if_pos hi, if_pos hfree]

theorem next_write_wait_done {i : ℕ} (h : s.pc c = .write_wait i)
    (hi : min n MAX_READER_THREADS ≤ i) : s.next n (.step c) = .ok (s.setPc c .writing) := by
  simp only [next, h, if_neg (Nat.not_lt.mpr hi)]

end LockState

/-- The states that some interleaving of events reaches from `RwLock::default` without a
panic. -/
inductive Reachable (n : ℕ) : LockState → Prop where
  | initial : Reachable n LockState.initial
  | step {s s' : LockState} (e : Event) : Reachable n s → s.next n e = .ok s' → Reachable n s'

/-! ## The invariant -/

namespace Pc

/-- The core's counter is incremented: from `fetch_add` to the `fetch_sub` that undoes it. -/
def counted : Pc → Bool
  | .read_check | .read_retry | .reading => true
  | _ => false

/-- The core holds `wlock`. -/
def writer : Pc → Bool
  | .write_wait _ | .writing => true
  | _ => false

end Pc

/-- What every reachable state satisfies: each counter counts its own core, `wlock` is held by
exactly the one writer, and a writer has seen no reader in the slots it has checked. -/
structure Inv (n : ℕ) (s : LockState) : Prop where
  rlock_eq : ∀ c, s.rlock c = if (s.pc c).counted then 1 else 0
  wlock_iff : s.wlock = true ↔ ∃ w, (s.pc w).writer = true
  one_writer : ∀ w w', (s.pc w).writer = true → (s.pc w').writer = true → w = w'
  waiting : ∀ w i, s.pc w = .write_wait i → ∀ j < i, s.pc j ≠ .reading
  writing : ∀ w, s.pc w = .writing → ∀ j < min n MAX_READER_THREADS, s.pc j ≠ .reading

variable {n : ℕ} {s : LockState}

theorem inv_initial (n : ℕ) : Inv n LockState.initial where
  rlock_eq _ := rfl
  wlock_iff := by simp [LockState.initial, Pc.writer]
  one_writer _ _ h := by simp [LockState.initial, Pc.writer] at h
  waiting _ _ h := by cases h
  writing _ h := by cases h

theorem Inv.not_reading_of_rlock (hinv : Inv n s) {j : ℕ} (h : s.rlock j = 0) :
    s.pc j ≠ .reading := by
  intro hj
  rw [hinv.rlock_eq j, hj] at h
  cases h

theorem Inv.no_writer (hinv : Inv n s) (h : s.wlock = false) (w : ℕ) :
    (s.pc w).writer = false := by
  by_contra hw
  have := hinv.wlock_iff.mpr ⟨w, by simpa using hw⟩
  rw [h] at this
  cases this

/-- A step that moves core `c` to `p` and sets its counter to what `p` counts keeps the
invariant, when `p` holds `wlock` as the old place did and the writer facts hold for `p`. -/
theorem Inv.move (hinv : Inv n s) {c : ℕ} {p : Pc} {k : ℕ}
    (hk : k = if p.counted then 1 else 0) (hwriter : p.writer = (s.pc c).writer)
    (hwait : ∀ i, p = .write_wait i → ∀ j < i, j ≠ c → s.pc j ≠ .reading)
    (hwrite : p = .writing → ∀ j < min n MAX_READER_THREADS, j ≠ c → s.pc j ≠ .reading)
    (hread : p = .reading → s.wlock = false) :
    Inv n { s.setPc c p with rlock := Function.update s.rlock c k } := by
  set s' : LockState := { s.setPc c p with rlock := Function.update s.rlock c k }
  have hpc : ∀ j, s'.pc j = if j = c then p else s.pc j := fun j => by
    simp [s', Function.update_apply]
  have hwriter' : ∀ j, (s'.pc j).writer = (s.pc j).writer := fun j => by
    rw [hpc]; split <;> simp_all
  constructor
  · intro j
    simp only [s', Function.update_apply, LockState.setPc_pc]
    split
    · simp_all
    · exact hinv.rlock_eq j
  · simp only [s', LockState.setPc_wlock, hwriter']
    exact hinv.wlock_iff
  · intro w w' h h'
    rw [hwriter'] at h h'
    exact hinv.one_writer w w' h h'
  · intro w i hw j hj
    rw [hpc] at hw ⊢
    by_cases hwc : w = c
    · rw [if_pos hwc] at hw
      by_cases hjc : j = c
      · rw [if_pos hjc, hw]; nofun
      · rw [if_neg hjc]; exact hwait i hw j hj hjc
    · rw [if_neg hwc] at hw
      by_cases hjc : j = c
      · -- a reader entering: no writer holds `wlock`
        rw [if_pos hjc]
        intro hp
        have := hinv.no_writer (hread hp) w
        rw [hw] at this
        cases this
      · rw [if_neg hjc]; exact hinv.waiting w i hw j hj
  · intro w hw j hj
    rw [hpc] at hw ⊢
    by_cases hwc : w = c
    · rw [if_pos hwc] at hw
      by_cases hjc : j = c
      · rw [if_pos hjc, hw]; nofun
      · rw [if_neg hjc]; exact hwrite hw j hj hjc
    · rw [if_neg hwc] at hw
      by_cases hjc : j = c
      · rw [if_pos hjc]
        intro hp
        have := hinv.no_writer (hread hp) w
        rw [hw] at this
        cases this
      · rw [if_neg hjc]; exact hinv.writing w hw j hj

/-- A step that moves core `c` to `p` and touches nothing else: `p` counts as the old place
did. -/
theorem Inv.setPc (hinv : Inv n s) {c : ℕ} {p : Pc}
    (hcounted : p.counted = (s.pc c).counted) (hwriter : p.writer = (s.pc c).writer)
    (hwait : ∀ i, p = .write_wait i → ∀ j < i, j ≠ c → s.pc j ≠ .reading)
    (hwrite : p = .writing → ∀ j < min n MAX_READER_THREADS, j ≠ c → s.pc j ≠ .reading)
    (hread : p = .reading → s.wlock = false) :
    Inv n (s.setPc c p) := by
  have h := hinv.move (k := s.rlock c) (by rw [hinv.rlock_eq c, hcounted]) hwriter hwait hwrite
    hread
  rwa [Function.update_eq_self] at h

theorem Inv.acquire (hinv : Inv n s) {c : ℕ} (hc : s.pc c = .write_lock) (hw : s.wlock = false) :
    Inv n { s.setPc c (.write_wait 0) with wlock := true } := by
  have hnone := hinv.no_writer hw
  have hpc : ∀ j, (s.setPc c (.write_wait 0)).pc j = if j = c then .write_wait 0 else s.pc j :=
    fun j => by simp [Function.update_apply]
  -- the writers are now exactly `c`
  have hwriter : ∀ j, ((s.setPc c (.write_wait 0)).pc j).writer = true ↔ j = c := fun j => by
    rw [hpc]
    split
    · simp_all [Pc.writer]
    · simp_all
  constructor
  · intro j
    rw [LockState.setPc_rlock, hinv.rlock_eq j, hpc]
    by_cases hjc : j = c
    · rw [if_pos hjc, hjc, hc]; rfl
    · rw [if_neg hjc]
  · exact ⟨fun _ => ⟨c, (hwriter c).mpr rfl⟩, fun _ => rfl⟩
  · intro w w' h h'
    rw [(hwriter w).mp h, (hwriter w').mp h']
  · intro w i h j hj
    have hwc := (hwriter w).mp (by rw [h]; rfl)
    rw [hwc, hpc, if_pos rfl] at h
    cases h
    exact absurd hj (Nat.not_lt_zero j)
  · intro w h
    have hwc := (hwriter w).mp (by rw [h]; rfl)
    rw [hwc, hpc, if_pos rfl] at h
    cases h

theorem Inv.release (hinv : Inv n s) {c : ℕ} (hc : s.pc c = .writing) :
    Inv n { s.setPc c .idle with wlock := false } := by
  have hpc : ∀ j, (s.setPc c .idle).pc j = if j = c then .idle else s.pc j :=
    fun j => by simp [Function.update_apply]
  -- `c` was the only writer
  have hnone : ∀ j, ((s.setPc c .idle).pc j).writer = false := fun j => by
    rw [hpc]
    split
    · rfl
    · rename_i hjc
      by_contra hj
      exact hjc (hinv.one_writer j c (by simpa using hj) (by rw [hc]; rfl))
  constructor
  · intro j
    rw [LockState.setPc_rlock, hinv.rlock_eq j, hpc]
    by_cases hjc : j = c
    · rw [if_pos hjc, hjc, hc]; rfl
    · rw [if_neg hjc]
  · exact ⟨nofun, fun ⟨w, hw⟩ => by rw [hnone w] at hw; cases hw⟩
  · intro w _ h
    rw [hnone] at h
    cases h
  · intro w i h
    have := hnone w
    rw [h] at this
    cases this
  · intro w h
    have := hnone w
    rw [h] at this
    cases this

/-- Every event that returns keeps the invariant. -/
theorem Inv.next (hinv : Inv n s) {e : Event} {s' : LockState} (h : s.next n e = .ok s') :
    Inv n s' := by
  cases e with
  | write c =>
      simp only [LockState.next, Outcome.ok.injEq] at h
      subst h
      split
      · rename_i hc
        exact hinv.setPc (by rw [hc]; rfl) (by rw [hc]; rfl) nofun nofun nofun
      · exact hinv
  | read c =>
      simp only [LockState.next, Outcome.ok.injEq] at h
      subst h
      split
      · rename_i hc
        exact hinv.setPc (by rw [hc]; rfl) (by rw [hc]; rfl) nofun nofun nofun
      · exact hinv
  | step c =>
      unfold LockState.next at h
      cases hc : s.pc c with
      | idle =>
          simp only [hc, Outcome.ok.injEq] at h
          exact h ▸ hinv
      | write_lock =>
          simp only [hc] at h
          split at h
          · exact (Outcome.ok.inj h) ▸ hinv
          · rename_i hw
            exact (Outcome.ok.inj h) ▸ hinv.acquire hc (by simpa using hw)
      | write_wait i =>
          simp only [hc] at h
          split at h
          · split at h
            · -- slot `i` is free: no reader there
              rename_i _ hfree
              rw [← Outcome.ok.inj h]
              refine hinv.setPc (by rw [hc]; rfl) (by rw [hc]; rfl) ?_ nofun nofun
              intro i' hi' j hj _
              cases hi'
              rcases Nat.lt_succ_iff_lt_or_eq.mp hj with hj | rfl
              · exact hinv.waiting c i hc j hj
              · exact hinv.not_reading_of_rlock hfree
            · rw [← Outcome.ok.inj h]
              refine hinv.setPc (by rw [hc]; rfl) (by rw [hc]; rfl) ?_ nofun nofun
              intro i' hi' j hj
              cases hi'
              exact absurd hj (Nat.not_lt_zero j)
          · -- every slot below `n` checked
            rename_i hdone
            rw [← Outcome.ok.inj h]
            refine hinv.setPc (by rw [hc]; rfl) (by rw [hc]; rfl) nofun ?_ nofun
            intro _ j hj _
            exact hinv.waiting c i hc j (by omega)
      | writing =>
          simp only [hc] at h
          split at h
          · exact (Outcome.ok.inj h) ▸ hinv.release hc
          · cases h
      | read_wait =>
          simp only [hc, Outcome.ok.injEq] at h
          subst h
          split
          · exact hinv
          · exact hinv.setPc (by rw [hc]; rfl) (by rw [hc]; rfl) nofun nofun nofun
      | read_inc =>
          simp only [hc] at h
          split at h
          · rw [← Outcome.ok.inj h]
            refine hinv.move ?_ (by rw [hc]; rfl) nofun nofun nofun
            rw [hinv.rlock_eq c, hc]
            rfl
          · cases h
      | read_check =>
          simp only [hc, Outcome.ok.injEq] at h
          subst h
          split
          · exact hinv.setPc (by rw [hc]; rfl) (by rw [hc]; rfl) nofun nofun nofun
          · rename_i hw
            exact hinv.setPc (by rw [hc]; rfl) (by rw [hc]; rfl) nofun nofun
              fun _ => by simpa using hw
      | read_retry =>
          simp only [hc, Outcome.ok.injEq] at h
          subst h
          refine hinv.move ?_ (by rw [hc]; rfl) nofun nofun nofun
          rw [hinv.rlock_eq c, hc]
          rfl
      | reading =>
          simp only [hc] at h
          split at h
          · cases h
          · rw [← Outcome.ok.inj h]
            refine hinv.move ?_ (by rw [hc]; rfl) nofun nofun nofun
            rw [hinv.rlock_eq c, hc]
            rfl

theorem Reachable.inv {s : LockState} (h : Reachable n s) : Inv n s := by
  induction h with
  | initial => exact inv_initial n
  | step e _ hstep ih => exact ih.next hstep

/-- What the lock guarantees: a `WriteGuard` is alone among the writers, and no core whose slot
the writer scanned holds a `ReadGuard`. -/
theorem mutual_exclusion (hs : Reachable n s) {w : ℕ} (hw : s.pc w = .writing) :
    (∀ w', s.pc w' = .writing → w' = w) ∧ ∀ j < min n MAX_READER_THREADS, s.pc j ≠ .reading := by
  have hinv := hs.inv
  refine ⟨fun w' hw' => hinv.one_writer w' w (by rw [hw']; rfl) (by rw [hw]; rfl), ?_⟩
  exact hinv.writing w hw

/-! ## A reader the writer does not see -/

/-- A core outside the lock enters `read()` while `wlock` is clear and comes out holding a
`ReadGuard`, its counter one up. -/
theorem Reachable.read_in (hs : Reachable n s) {c : ℕ} (hc : c < MAX_READER_THREADS)
    (hidle : s.pc c = .idle) (hw : s.wlock = false) :
    Reachable n { s.setPc c .reading with rlock := Function.update s.rlock c (s.rlock c + 1) } := by
  have h1 := hs.step _ (LockState.next_read hidle)
  have h2 := h1.step _ (LockState.next_read_wait (c := c) (by simp) (by simpa using hw))
  have h3 := h2.step _ (LockState.next_read_inc (c := c) (by simp) hc)
  have h4 := h3.step _ (LockState.next_read_check (c := c) (by simp) (by simpa using hw))
  simpa [LockState.setPc] using h4

/-- The writer's scan from slot `i`: when every counter from `i` up to the bound is zero, it
gets through to `writing`. The induction is on the slots left to scan. -/
theorem Reachable.write_scan {w : ℕ} :
    ∀ (k i : ℕ) {s : LockState}, min n MAX_READER_THREADS - i = k → Reachable n s →
      s.pc w = .write_wait i →
      (∀ j, i ≤ j → j < min n MAX_READER_THREADS → s.rlock j = 0) →
      Reachable n (s.setPc w .writing)
  | 0, i, s, hk, hs, hw, _ => hs.step _ (LockState.next_write_wait_done hw (by omega))
  | k + 1, i, s, hk, hs, hw, hfree => by
      have hi : i < min n MAX_READER_THREADS := by omega
      have h1 := hs.step _ (LockState.next_write_wait_free hw hi (hfree i le_rfl hi))
      have h2 := Reachable.write_scan (w := w) k (i + 1) (by omega) h1 (by simp)
        fun j hj hjn => hfree j (by omega) hjn
      simpa using h2

theorem Reachable.write_in (hs : Reachable n s) {w : ℕ} (hidle : s.pc w = .idle)
    (hw : s.wlock = false) (hfree : ∀ j < min n MAX_READER_THREADS, s.rlock j = 0) :
    Reachable n { s.setPc w .writing with wlock := true } := by
  have h1 := hs.step _ (LockState.next_write hidle)
  have h2 := h1.step _ (LockState.next_write_lock (c := w) (by simp) (by simpa using hw))
  have h3 := Reachable.write_scan (w := w) _ 0 rfl h2 (by simp) fun j _ hj => by simpa using hfree j hj
  simpa [LockState.setPc] using h3

/-- On a machine whose first node has `n` cores, a reader on a core `c ≥ n` holds its
`ReadGuard` while another core holds a `WriteGuard`. -/
theorem reader_beside_writer {n c w : ℕ} (hn : n ≤ c) (hc : c < MAX_READER_THREADS)
    (hw : w ≠ c) : ∃ s, Reachable n s ∧ s.pc c = .reading ∧ s.pc w = .writing := by
  have hread := (Reachable.initial (n := n)).read_in hc rfl rfl
  -- the writer scans only the slots below `n`, and the reader counts in slot `c`
  have hwrite := hread.write_in (w := w) (by simp [hw, LockState.initial])
    rfl fun j hj => by simp [show j ≠ c by omega, LockState.initial]
  refine ⟨_, hwrite, ?_, ?_⟩
  · simp [Ne.symm hw]
  · simp

theorem reader_beside_writer_two_cores :
    ∃ s, Reachable 1 s ∧ s.pc 1 = .reading ∧ s.pc 0 = .writing :=
  reader_beside_writer (by decide) (by decide) (by decide)

end Nrk.Fs
