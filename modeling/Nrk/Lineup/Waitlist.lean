import Nrk.Lineup.Scheduler
import Nrk.Lib.Simulation
import Nrk.Lib.SortedMap

/-! # The order of the waiting list (`lineup/src/scheduler.rs`)

The waiting list stays sorted from the latest wakeup to the earliest, and each call does what it
should from a sorted list. -/

namespace Nrk.Lineup

namespace SmpScheduler

/-- The waiting list is strictly decreasing: each pair is later than every pair after it. -/
def Descending (waiting : List (Instant × ThreadId)) : Prop :=
  waiting.Pairwise fun a b => later a b = true

/-! ## The order of `(Instant, ThreadId)` pairs -/

section Later

variable {a b c : Instant × ThreadId}

theorem later_trans (hab : later a b = true) (hbc : later b c = true) : later a c = true := by
  simp only [later, Bool.or_eq_true, decide_eq_true_eq, Bool.and_eq_true, beq_iff_eq] at *
  grind

theorem later_total (h : a ≠ b) : later a b = true ∨ later b a = true := by
  obtain ⟨a₁, a₂⟩ := a
  obtain ⟨b₁, b₂⟩ := b
  simp only [ne_eq, Prod.mk.injEq, not_and] at h
  simp only [later, Bool.or_eq_true, decide_eq_true_eq, Bool.and_eq_true, beq_iff_eq]
  grind

theorem le_of_later (h : later a b = true) : b.1 ≤ a.1 := by
  simp only [later, Bool.or_eq_true, decide_eq_true_eq, Bool.and_eq_true, beq_iff_eq] at h
  rcases h with h | ⟨h, -⟩
  · exact h.le
  · exact h.le

end Later

/-! ## Each call keeps the order -/

theorem descending_nil : Descending [] := List.Pairwise.nil

theorem Descending.insert_sorted {w : List (Instant × ThreadId)} {x : Instant × ThreadId}
    (hw : Descending w) (hx : x ∉ w) : Descending (insert_sorted w x) :=
  SortedList.pairwise_insertIdx_takeWhile (r := later) (fun _ _ _ hab hbc => later_trans hab hbc)
    (fun _ _ h => later_total h) hw hx

theorem Descending.filter {w : List (Instant × ThreadId)} (hw : Descending w)
    (p : Instant × ThreadId → Bool) : Descending (w.filter p) :=
  List.Pairwise.filter p hw

section Wakeups

variable {clock : ℕ → Instant}

theorem wake_due_cons_of_le {e : Instant × ThreadId} {l : List (Instant × ThreadId)} {k : ℕ}
    (h : e.1 ≤ clock k) :
    wake_due clock k (e :: l) = (e.2 :: (wake_due clock (k + 1) l).1, (wake_due clock (k + 1) l).2) := by
  simp [wake_due, h]

theorem wake_due_cons_of_lt {e : Instant × ThreadId} {l : List (Instant × ThreadId)} {k : ℕ}
    (h : clock k < e.1) : wake_due clock k (e :: l) = ([], e :: l) := by
  simp [wake_due, Nat.not_le.mpr h]

variable (clock) in
/-- What the loop does, read from the end of the waiting list: it pops a prefix, each entry due
at the reading made before its pop, and stops at an entry that is not due at the next reading
or at the end of the list. -/
theorem wake_due_spec :
    ∀ (l : List (Instant × ThreadId)) (k : ℕ), ∃ moved,
      l = moved ++ (wake_due clock k l).2 ∧ (wake_due clock k l).1 = moved.map Prod.snd ∧
      (∀ i (h : i < moved.length), moved[i].1 ≤ clock (k + i)) ∧
      ∀ e rest, (wake_due clock k l).2 = e :: rest → clock (k + moved.length) < e.1
  | [], k => ⟨[], rfl, rfl, by simp, by simp [wake_due]⟩
  | e :: l, k => by
    by_cases he : e.1 ≤ clock k
    · -- `e` is popped; the rest of the loop starts at the next reading
      obtain ⟨moved, hl, hwoken, hdue, hstop⟩ := wake_due_spec l (k + 1)
      refine ⟨e :: moved, ?_, ?_, fun i hi => ?_, fun e' rest h => ?_⟩
      · rw [wake_due_cons_of_le he, List.cons_append, ← hl]
      · rw [wake_due_cons_of_le he, hwoken, List.map_cons]
      · cases i with
        | zero => simpa using he
        | succ i =>
          have := hdue i (by simpa using hi)
          rw [show k + 1 + i = k + (i + 1) by omega] at this
          simpa using this
      · rw [wake_due_cons_of_le he] at h
        have := hstop e' rest h
        simpa [Nat.add_assoc, Nat.add_comm 1] using this
    · -- `e` is not due: the loop stops before it
      have he' : clock k < e.1 := Nat.lt_of_not_le he
      refine ⟨[], by rw [wake_due_cons_of_lt he']; rfl, by rw [wake_due_cons_of_lt he']; rfl,
        by simp, fun e' rest h => ?_⟩
      rw [wake_due_cons_of_lt he', List.cons.injEq] at h
      obtain ⟨rfl, -⟩ := h
      simpa using he'

variable (clock) in
/-- `check_wakeups` leaves a prefix of the waiting list and wakes the threads of the rest, from
the end. -/
theorem check_wakeups_reading_split (s : SmpScheduler) :
    ∃ moved, s.waiting = (s.check_wakeups_reading clock).waiting ++ moved.reverse ∧
      (s.check_wakeups_reading clock).runnable = s.runnable ++ moved.map Prod.snd ∧
      s.waiting.reverse = moved ++ (wake_due clock 0 s.waiting.reverse).2 ∧
      (∀ i (h : i < moved.length), moved[i].1 ≤ clock i) ∧
      ∀ e rest, (wake_due clock 0 s.waiting.reverse).2 = e :: rest → clock moved.length < e.1 := by
  obtain ⟨moved, hl, hwoken, hdue, hstop⟩ := wake_due_spec clock s.waiting.reverse 0
  refine ⟨moved, ?_, ?_, hl, by simpa using hdue, by simpa using hstop⟩
  · simp only [check_wakeups_reading]
    rw [← List.reverse_append, ← hl, List.reverse_reverse]
  · simp only [check_wakeups_reading, hwoken]

theorem Descending.check_wakeups_reading {s : SmpScheduler} (hw : Descending s.waiting) :
    Descending (s.check_wakeups_reading clock).waiting := by
  obtain ⟨moved, hsplit, -⟩ := check_wakeups_reading_split clock s
  rw [Descending, hsplit] at hw
  exact (List.pairwise_append.mp hw).1

/-- From a sorted list, with a clock that does not go back, `check_wakeups` moves to the
runnable deque, in increasing order, the pairs taken from the end of the list: every pair due
at the first reading, and only pairs due by the last one. The other pairs stay. -/
theorem check_wakeups_reading_spec {s : SmpScheduler} (hw : Descending s.waiting)
    (hmono : Monotone clock) :
    ∃ moved : List (Instant × ThreadId),
      s.waiting = (s.check_wakeups_reading clock).waiting ++ moved.reverse ∧
      (s.check_wakeups_reading clock).runnable = s.runnable ++ moved.map Prod.snd ∧
      moved.Pairwise (fun a b => later b a = true) ∧
      (∀ e ∈ s.waiting, e.1 ≤ clock 0 → e ∈ moved) ∧
      ∀ T, (∀ k < moved.length, clock k ≤ T) → ∀ e ∈ moved, e.1 ≤ T := by
  obtain ⟨moved, hsplit, hrun, hrev, hdue, hstop⟩ := check_wakeups_reading_split clock s
  -- read from the end, the waiting list increases
  have hinc : (moved ++ (wake_due clock 0 s.waiting.reverse).2).Pairwise
      (fun a b => later b a = true) := by
    rw [← hrev]
    exact List.pairwise_reverse.mpr hw
  refine ⟨moved, hsplit, hrun, (List.pairwise_append.mp hinc).1, fun e he hdue₀ => ?_,
    fun T hT e he => ?_⟩
  · -- a pair left behind is at least the first pair left, which was not due
    have he' : e ∈ moved ++ (wake_due clock 0 s.waiting.reverse).2 := by
      rw [← hrev]
      exact List.mem_reverse.mpr he
    rcases List.mem_append.mp he' with he' | he'
    · exact he'
    · exfalso
      obtain ⟨e₁, rest, hleft⟩ : ∃ e₁ rest, (wake_due clock 0 s.waiting.reverse).2 = e₁ :: rest :=
        List.exists_cons_of_ne_nil (List.ne_nil_of_mem he')
      have hnot := hstop e₁ rest hleft
      have hclock := hmono (Nat.zero_le moved.length)
      rw [hleft] at he' hinc
      rcases List.mem_cons.mp he' with rfl | hrest
      · exact absurd (hdue₀.trans hclock) (Nat.not_le.mpr hnot)
      · have hlater := (List.pairwise_cons.mp (List.pairwise_append.mp hinc).2.1).1 e hrest
        exact absurd (((le_of_later hlater).trans hdue₀).trans hclock) (Nat.not_le.mpr hnot)
  · obtain ⟨i, hi, rfl⟩ := List.getElem_of_mem he
    exact (hdue i hi).trans (hT i hi)

end Wakeups

/-! ## Runs of the three calls -/

/-- The calls on one core's waiting list: `waitlist_insert(tid, a, until)` (the deadline is
`until`), `waitlist_remove(tid, a)`, and `check_wakeups(a)` whose `k`-th reading of
`Instant::now()` is `clock k`. -/
inductive WaitCall where
  | insert (tid : ThreadId) (deadline : Instant)
  | remove (tid : ThreadId)
  | check_wakeups (clock : ℕ → Instant)

/-- One call on the scheduler. -/
def wait_step (s : SmpScheduler) : WaitCall → Outcome (SmpScheduler × Unit)
  | .insert tid deadline => do
      let s ← s.waitlist_insert tid deadline
      return (s, ())
  | .remove tid => .ok (s.waitlist_remove tid, ())
  | .check_wakeups clock => .ok (s.check_wakeups_reading clock, ())

/-- Every call that returns keeps the waiting list sorted. -/
theorem Descending.wait_step {s s' : SmpScheduler} {call : WaitCall} {o : Unit}
    (hw : Descending s.waiting) (h : wait_step s call = .ok (s', o)) : Descending s'.waiting := by
  cases call with
  | insert tid deadline =>
    obtain ⟨s₁, hins, hret⟩ := Outcome.bind_eq_ok.mp h
    cases hret
    obtain ⟨hx, rfl⟩ := waitlist_insert_eq_ok.mp hins
    exact hw.insert_sorted hx
  | remove tid =>
    cases h
    exact hw.filter _
  | check_wakeups clock =>
    cases h
    exact hw.check_wakeups_reading

/-- Every run that does not panic keeps the waiting list sorted. -/
theorem run_descending (calls : List WaitCall) {s s' : SmpScheduler} {os : List Unit}
    (hw : Descending s.waiting) (h : Sim.runImpl wait_step s calls = .ok (s', os)) :
    Descending s'.waiting := by
  have hstep : ∀ (s : SmpScheduler) (call : WaitCall) (s' : SmpScheduler) (o : Unit),
      Descending s.waiting → wait_step s call = .ok (s', o) → Descending s'.waiting :=
    fun _ _ _ _ hs hcall => hs.wait_step hcall
  exact Sim.runImpl_inv hstep calls hw h

theorem waitlist_stays_sorted_and_wakes_due :
    (∀ (calls : List WaitCall) (s s' : SmpScheduler) (os : List Unit), Descending s.waiting →
        Sim.runImpl wait_step s calls = .ok (s', os) → Descending s'.waiting) ∧
    (∀ (s : SmpScheduler) (tid : ThreadId) (deadline : Instant), Descending s.waiting →
        (deadline, tid) ∉ s.waiting → ∃ s', s.waitlist_insert tid deadline = .ok s' ∧
          Descending s'.waiting ∧ s'.waiting.Perm ((deadline, tid) :: s.waiting)) ∧
    (∀ (s : SmpScheduler) (tid : ThreadId) (e : Instant × ThreadId), Descending s.waiting →
        Descending (s.waitlist_remove tid).waiting ∧
          (e ∈ (s.waitlist_remove tid).waiting ↔ e ∈ s.waiting ∧ e.2 ≠ tid)) ∧
    (∀ (s : SmpScheduler) (clock : ℕ → Instant), Descending s.waiting → Monotone clock →
      ∃ moved : List (Instant × ThreadId),
        s.waiting = (s.check_wakeups_reading clock).waiting ++ moved.reverse ∧
        (s.check_wakeups_reading clock).runnable = s.runnable ++ moved.map Prod.snd ∧
        moved.Pairwise (fun a b => later b a = true) ∧
        (∀ e ∈ s.waiting, e.1 ≤ clock 0 → e ∈ moved) ∧
        ∀ T, (∀ k < moved.length, clock k ≤ T) → ∀ e ∈ moved, e.1 ≤ T) := by
  refine ⟨fun calls s s' os hw h => run_descending calls hw h, fun s tid deadline hw hx => ?_,
    fun s tid e hw => ⟨hw.filter _, by simp⟩, fun s clock hw hmono =>
      check_wakeups_reading_spec hw hmono⟩
  have hins := waitlist_insert_eq_ok.mpr ⟨hx, rfl⟩
  exact ⟨_, hins, hw.insert_sorted hx, perm_waitlist_insert hins⟩

theorem waitlist_stays_sorted_two_sleepers :
    ∃ s' os, Sim.runImpl wait_step ⟨fun _ => none, [], []⟩
        [.insert 1 5, .insert 2 3, .insert 3 5, .check_wakeups (fun k => 3 + k), .remove 3] =
          .ok (s', os) ∧
      s'.waiting = [(5, 1)] ∧ s'.runnable = [2] ∧ Descending s'.waiting := by
  refine ⟨_, _, rfl, rfl, rfl, ?_⟩
  exact waitlist_stays_sorted_and_wakes_due.1
    [.insert 1 5, .insert 2 3, .insert 3 5, .check_wakeups (fun k => 3 + k), .remove 3]
    ⟨fun _ => none, [], []⟩ _ _ descending_nil rfl

end SmpScheduler

end Nrk.Lineup
