import Nrk.Lib.SeqRing
import Nrk.Lib.Simulation
import Nrk.Memory.Detmem

/-! # The kernel's bounded queue (`kernel/src/mpmc.rs`)

`mpmc::Queue<T>` is the ring of `SeqRing` with slots of `Option<T>`: the bounded FIFO that
`Detmem` takes it to be, for a thread that runs alone, in either build. -/

namespace Nrk.Mpmc

open SeqRing

/-- `c.next_power_of_two()` as a release build returns it, wrapping to `0` when the power does
not fit in a word, where a debug build panics. -/
def next_power_of_two (c : ℕ) : ℕ := 2 ^ Nat.clog 2 c % 2 ^ USIZE_BITS

/-- The capacity of `State::with_capacity`: 2 below 2, and the next power of two for a capacity
that is not one. The rpc queue's `State::capacity` rounds the same way. -/
def round_capacity (bd : Build) (capacity : ℕ) : Outcome ℕ :=
  if capacity < 2 ∨ capacity &&& (capacity - 1) ≠ 0 then
    if capacity < 2 then .ok 2 else bd.next_power_of_two USIZE_BITS capacity
  else .ok capacity

section Queue

variable {T : Type}

/-- `State::with_capacity`: the slots, `sequence: i` and `value: None`, are collected with
`try_collect`, one allocation request. -/
def State.with_capacity (bd : Build) (capacity : ℕ) :
    AllocM (Except KError (SeqRing.State (Option T))) := do
  let capacity ← liftM (round_capacity bd capacity)
  if !(← AllocM.request) then return .error .OutOfMemory
  return .ok (SeqRing.init USIZE_BITS capacity none)

/-- `Queue::with_capacity`: the state, then its `Arc`, a second request. -/
def Queue.with_capacity (bd : Build) (capacity : ℕ) :
    AllocM (Except KError (SeqRing.State (Option T))) := do
  match ← State.with_capacity bd capacity with
  | .error e => return .error e
  | .ok s =>
      if !(← AllocM.request) then return .error .OutOfMemory
      return .ok s

/-- `State::push`: `Err(value)` when the ring is full. -/
def State.push (bd : Build) (s : SeqRing.State (Option T)) (value : T) :
    Outcome (SeqRing.State (Option T) × Except T Unit) := do
  let (s, pushed) ← SeqRing.push bd USIZE_BITS (fun _ => .ok (some value)) s
  return (s, if pushed then .ok () else .error value)

/-- `State::pop`: the slot's value, taken out of it, or `None` when the ring is empty. -/
def State.pop (bd : Build) (s : SeqRing.State (Option T)) :
    Outcome (SeqRing.State (Option T) × Option T) := do
  let (s, value) ← SeqRing.pop bd USIZE_BITS (fun v => .ok (none, v)) s
  return (s, value.join)

/-- A call on the queue. -/
inductive Call (T : Type) where
  | push (value : T)
  | pop
  deriving DecidableEq, Repr

/-- What a call returns. -/
inductive Reply (T : Type) where
  | push (result : Except T Unit)
  | pop (value : Option T)
  deriving DecidableEq, Repr

/-- One call of `Queue::push` or `Queue::pop`. -/
def step (bd : Build) (s : SeqRing.State (Option T)) :
    Call T → Outcome (SeqRing.State (Option T) × Reply T)
  | .push value => do
      let (s, r) ← State.push bd s value
      return (s, .push r)
  | .pop => do
      let (s, value) ← State.pop bd s
      return (s, .pop value)

/-- The same call on the bounded FIFO: a push into a full queue gives the value back. -/
def spec (q : Memory.Queue T) : Call T → Option (Memory.Queue T × Reply T)
  | .push value =>
      match q.push value with
      | some q' => some (q', .push (.ok ()))
      | none => some (q, .push (.error value))
  | .pop =>
      match q.pop with
      | some (value, q') => some (q', .pop (some value))
      | none => some (q, .pop none)

/-- The ring holds the FIFO's values, in as many slots as the FIFO's capacity, a power of two,
and its positions leave the build room for `n` more calls. -/
def Rel (bd : Build) (n : ℕ) (s : SeqRing.State (Option T)) (q : Memory.Queue T) : Prop :=
  ∃ e D, q.capacity = 2 ^ e ∧ Holds USIZE_BITS e (fun v x => v = some x) s D q.items ∧
    Fits bd USIZE_BITS (D + 2 ^ e + 1 + n)

/-! ## The calls -/

variable {bd : Build} {n : ℕ} {s : SeqRing.State (Option T)} {q : Memory.Queue T}

theorem Rel.of_succ (hR : Rel bd (n + 1) s q) : Rel bd n s q := by
  obtain ⟨e, D, hcap, h, hfit⟩ := hR
  exact ⟨e, D, hcap, h, hfit.mono (by omega)⟩

/-- A push answers as the FIFO does, and leaves the positions where pops find them. -/
theorem push_simulates (hR : Rel bd n s q) (value : T) :
    ∃ q' r, spec q (.push value) = some (q', r) ∧
      ∃ s', step bd s (.push value) = .ok (s', r) ∧ Rel bd n s' q' := by
  obtain ⟨e, D, hcap, h, hfit⟩ := hR
  have hfit' : Fits bd USIZE_BITS (D + 2 ^ e + 1) := hfit.mono (by omega)
  by_cases hlt : q.items.length < q.capacity
  · -- a free slot: the value joins the end
    obtain ⟨s', hpush, h'⟩ :=
      h.push_of_lt (x := value) hfit' (hcap ▸ hlt) fun _ => ⟨_, rfl, rfl⟩
    refine ⟨{ q with items := q.items ++ [value] }, .push (.ok ()),
      by simp [spec, Memory.Queue.push, hlt], s', ?_, e, D, hcap, h', hfit⟩
    simp [step, State.push, hpush]
  · -- a full ring gives the value back and stays as it is
    have hfull : q.items.length = 2 ^ e := by
      have := h.length_le
      omega
    have hpush : SeqRing.push bd USIZE_BITS (fun _ => .ok (some value)) s = .ok (s, false) :=
      h.push_of_full hfit' hfull
    refine ⟨q, .push (.error value), by simp [spec, Memory.Queue.push, hlt], s, ?_, e, D, hcap,
      h, hfit⟩
    simp [step, State.push, hpush]

theorem pop_simulates (hR : Rel bd (n + 1) s q) :
    ∃ q' r, spec q .pop = some (q', r) ∧ ∃ s', step bd s .pop = .ok (s', r) ∧ Rel bd n s' q' := by
  obtain ⟨e, D, hcap, h, hfit⟩ := hR
  have hfit' : Fits bd USIZE_BITS (D + 2 ^ e + 1) := hfit.mono (by omega)
  obtain ⟨capacity, items⟩ := q
  cases items with
  | nil =>
      have hpop : SeqRing.pop bd USIZE_BITS (fun v : Option T => .ok (none, v)) s =
          .ok (s, none) := h.pop_nil hfit'
      refine ⟨_, _, rfl, s, ?_, e, D, hcap, h, hfit.mono (by omega)⟩
      simp [step, State.pop, hpop]
  | cons x xs =>
      -- the oldest value leaves, and the ring holds the rest from the next position
      have hread : ∀ v : Option T, v = some x →
          ∃ v', (Outcome.ok (none, v) : Outcome (Option T × Option T)) = .ok (v', some x) :=
        fun v hv => ⟨none, by rw [hv]⟩
      obtain ⟨s', hpop, h'⟩ := h.pop_cons hfit' hread
      refine ⟨_, _, rfl, s', ?_, e, D + 1, hcap, h', hfit.mono (by omega)⟩
      simp [step, State.pop, hpop]

/-- Every call on a ring that holds a FIFO answers as the FIFO does, for as many calls as the
build leaves room for. -/
theorem step_simulates : Sim.SimulatesFor (step (T := T) bd) spec (Rel bd) := by
  intro n s q call q' r hR hspec
  obtain ⟨q₁, r₁, hspec₁, s', hstep, hR'⟩ : ∃ q₁ r₁, spec q call = some (q₁, r₁) ∧
      ∃ s', step bd s call = .ok (s', r₁) ∧ Rel bd n s' q₁ := by
    cases call with
    | push value => exact push_simulates hR.of_succ value
    | pop => exact pop_simulates hR
  rw [hspec₁, Option.some.injEq, Prod.mk.injEq] at hspec
  obtain ⟨rfl, rfl⟩ := hspec
  exact ⟨s', hstep, hR'⟩

/-! ## The new queue -/

/-- Up to `2 ^ 63` the capacity is `2 ^ e` for some `0 < e < 64`, in either build, and it is
`max 2 (next_power_of_two c)`. -/
theorem round_capacity_eq (bd : Build) {c : ℕ} (hc : c ≤ 2 ^ 63) :
    ∃ e, 0 < e ∧ e < USIZE_BITS ∧ round_capacity bd c = .ok (2 ^ e) ∧
      max 2 (next_power_of_two c) = 2 ^ e := by
  have hclog : Nat.clog 2 c ≤ 63 := Nat.clog_le_of_le_pow hc
  have hlt : 2 ^ Nat.clog 2 c < 2 ^ USIZE_BITS :=
    Nat.pow_lt_pow_right (by norm_num) (by simp only [USIZE_BITS]; omega)
  have hnext : next_power_of_two c = 2 ^ Nat.clog 2 c := by
    rw [next_power_of_two, Nat.mod_eq_of_lt hlt]
  have hmax : max 2 (2 ^ Nat.clog 2 c) = 2 ^ max 1 (Nat.clog 2 c) := by
    rcases Nat.eq_zero_or_pos (Nat.clog 2 c) with h0 | hpos
    · simp [h0]
    · have : 2 ≤ 2 ^ Nat.clog 2 c := Nat.le_self_pow hpos.ne' 2
      rw [max_eq_right this, max_eq_right hpos]
  refine ⟨max 1 (Nat.clog 2 c), by omega, by simp only [USIZE_BITS]; omega, ?_, by rw [hnext, hmax]⟩
  rw [← hmax, ← hnext]
  unfold round_capacity
  split_ifs with hround hsmall
  · -- below 2 the capacity is 2, and so is the power
    have h0 : Nat.clog 2 c = 0 := Nat.clog_of_right_le_one (by omega) 2
    simp [hnext, h0]
  · -- not a power of two: rounded up, and at least 2
    have : 2 ≤ next_power_of_two c := hnext ▸ (Nat.le_pow_clog (by norm_num) c).trans' (by omega)
    rw [max_eq_right this, hnext, Build.next_power_of_two_eq bd hlt]
  · -- a power of two is kept, and is its own next power of two
    have hc0 : c ≠ 0 := by omega
    obtain ⟨m, rfl⟩ := (Nat.and_sub_one_eq_zero_iff_isPowerOfTwo hc0).mp (by omega)
    rw [hnext, Nat.clog_pow 2 m (by norm_num), max_eq_right (by omega)]

theorem run_with_capacity {c : ℕ} {a a' : Allocator}
    (h : (Queue.with_capacity (T := T) bd c).run a = .ok (.ok s, a')) :
    ∃ num, round_capacity bd c = .ok num ∧ s = SeqRing.init USIZE_BITS num none := by
  cases hround : round_capacity bd c with
  | panic => simp [Queue.with_capacity, State.with_capacity, hround] at h
  | ok num =>
      refine ⟨num, rfl, ?_⟩
      simp only [Queue.with_capacity, State.with_capacity, hround, AllocM.liftM_ok,
        pure_bind] at h
      rw [AllocM.run_bind_eq_ok] at h
      obtain ⟨r, a₁, h₁, h₂⟩ := h
      rw [AllocM.run_bind_eq_ok] at h₁
      obtain ⟨g, a₀, -, h₁⟩ := h₁
      cases g <;> simp at h₁ <;> obtain ⟨rfl, rfl⟩ := h₁
      · simp at h₂
      · rw [AllocM.run_bind_eq_ok] at h₂
        obtain ⟨g', a₂, -, h₂⟩ := h₂
        cases g' <;> simp at h₂
        exact h₂.1.symm

/-- A new queue, up to a capacity of `2 ^ 63`, holds the empty FIFO of its capacity, with room
for `n` calls when its build leaves room for them. -/
theorem rel_with_capacity {c : ℕ} (hc : c ≤ 2 ^ 63) {a a' : Allocator}
    (h : (Queue.with_capacity (T := T) bd c).run a = .ok (.ok s, a'))
    (hfit : Fits bd USIZE_BITS (max 2 (next_power_of_two c) + 1 + n)) :
    Rel bd n s ⟨max 2 (next_power_of_two c), []⟩ := by
  obtain ⟨e, he, hw, hround, hmax⟩ := round_capacity_eq bd hc
  obtain ⟨num, hnum, rfl⟩ := run_with_capacity h
  obtain rfl : num = 2 ^ e := Outcome.ok.inj (hnum.symm.trans hround)
  exact ⟨e, 0, hmax, holds_init he hw, by rwa [Nat.zero_add, ← hmax]⟩

/-- From `Queue::with_capacity(c)`, `c ≤ 2 ^ 63`, every run of calls that the build leaves room
for answers as the FIFO of capacity `max 2 (next_power_of_two c)` answers. -/
theorem run_simulates {c : ℕ} (hc : c ≤ 2 ^ 63) {a a' : Allocator}
    (h : (Queue.with_capacity (T := T) bd c).run a = .ok (.ok s, a')) (calls : List (Call T))
    (hfit : Fits bd USIZE_BITS (max 2 (next_power_of_two c) + 1 + calls.length))
    {replies : List (Reply T)}
    (hspec : Sim.runSpec spec ⟨max 2 (next_power_of_two c), []⟩ calls = some (q, replies)) :
    ∃ s', Sim.runImpl (step bd) s calls = .ok (s', replies) ∧ Rel bd 0 s' q :=
  step_simulates.runs calls s _ q replies (rel_with_capacity hc h hfit) hspec

/-- Above `2 ^ 63` the next power of two does not fit in a word: a debug build panics, and a
release build wraps the capacity to `0`. -/
theorem round_capacity_above_half :
    round_capacity .debug (2 ^ 63 + 1) = .panic ∧ round_capacity .release (2 ^ 63 + 1) = .ok 0 := by
  have hclog : Nat.clog 2 (2 ^ 63 + 1) = 64 := by
    apply le_antisymm (Nat.clog_le_of_le_pow (by norm_num))
    exact (Nat.lt_clog_iff_pow_lt (by norm_num)).mpr (by norm_num)
  have hround : ∀ bd, round_capacity bd (2 ^ 63 + 1) =
      bd.next_power_of_two USIZE_BITS (2 ^ 63 + 1) := fun bd => by
    rw [round_capacity, if_pos (Or.inr (by decide)), if_neg (by norm_num)]
  rw [hround, hround]
  simp only [Build.next_power_of_two, hclog, USIZE_BITS, lt_self_iff_false, if_false,
    Nat.mod_self, and_self]

theorem with_capacity_above_half (a : Allocator) :
    (Queue.with_capacity (T := T) .debug (2 ^ 63 + 1)).run a = .panic := by
  simp only [Queue.with_capacity, State.with_capacity, round_capacity_above_half.1,
    AllocM.liftM_panic]
  rfl

/-- Above `2 ^ 63`, a release build's `with_capacity` returns a ring of no slots, and a push
indexes past its end. -/
theorem push_on_no_slots (value : T) :
    ∃ s, (Queue.with_capacity (T := T) .release (2 ^ 63 + 1)).run Allocator.unlimited =
        .ok (.ok s, Allocator.unlimited) ∧ State.push .release s value = .panic := by
  refine ⟨SeqRing.init USIZE_BITS 0 none, ?_, rfl⟩
  simp only [Queue.with_capacity, State.with_capacity, round_capacity_above_half.2,
    AllocM.liftM_ok, pure_bind]
  rfl

end Queue

end Nrk.Mpmc
