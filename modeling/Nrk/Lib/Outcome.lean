import Mathlib.Tactic

/-! # Calls that may panic, and allocators that may refuse

An `Outcome` returns or panics; an `Allocator` answers each allocation request, so quantifying
over it quantifies over every pattern of allocation failure. -/

universe u v

/-- A call returns a value or panics. -/
inductive Outcome (α : Type u) where
  | ok (a : α)
  | panic
  deriving DecidableEq, Repr

namespace Outcome

variable {α β γ : Type u}

/-- Sequencing: a panic stops the rest of the call. -/
def bind : Outcome α → (α → Outcome β) → Outcome β
  | ok a, f => f a
  | panic, _ => panic

instance : Monad Outcome where
  pure := ok
  bind := bind

@[simp] theorem pure_eq (a : α) : (pure a : Outcome α) = ok a := rfl

@[simp] theorem ok_bind (a : α) (f : α → Outcome β) : (ok a >>= f) = f a := rfl

@[simp] theorem panic_bind (f : α → Outcome β) : (panic >>= f) = panic := rfl

@[simp] theorem map_ok (f : α → β) (a : α) : (f <$> ok a) = ok (f a) := rfl

@[simp] theorem map_panic (f : α → β) : (f <$> (panic : Outcome α)) = panic := rfl

instance : LawfulMonad Outcome :=
  LawfulMonad.mk' Outcome (fun x => by cases x <;> rfl) (fun _ _ => rfl)
    (fun x _ _ => by cases x <;> rfl)

theorem bind_eq_ok {x : Outcome α} {f : α → Outcome β} {b : β} :
    x >>= f = ok b ↔ ∃ a, x = ok a ∧ f a = ok b := by
  cases x with
  | ok a => simp
  | panic => simp

theorem map_eq_ok {x : Outcome α} {f : α → β} {b : β} :
    f <$> x = ok b ↔ ∃ a, x = ok a ∧ f a = b := by
  cases x with
  | ok a => simp
  | panic => simp

/-- `checkedAdd w a b` is `a + b` computed in `w`-bit unsigned arithmetic with overflow
checks on: the sum, or a panic when it does not fit. -/
def checkedAdd (w a b : ℕ) : Outcome ℕ :=
  if a + b < 2 ^ w then ok (a + b) else panic

theorem checkedAdd_of_lt {w a b : ℕ} (h : a + b < 2 ^ w) : checkedAdd w a b = ok (a + b) := by
  simp [checkedAdd, h]

theorem checkedAdd_of_le {w a b : ℕ} (h : 2 ^ w ≤ a + b) : checkedAdd w a b = panic := by
  simp [checkedAdd, Nat.not_lt.mpr h]

/-- `a - b` in unsigned arithmetic with overflow checks on: a panic below zero. -/
def checkedSub (a b : ℕ) : Outcome ℕ :=
  if b ≤ a then ok (a - b) else panic

theorem checkedSub_of_le {a b : ℕ} (h : b ≤ a) : checkedSub a b = ok (a - b) := by
  simp [checkedSub, h]

theorem checkedSub_of_lt {a b : ℕ} (h : a < b) : checkedSub a b = panic := by
  simp [checkedSub, Nat.not_le.mpr h]

/-- `a % b`: a panic on a zero divisor. -/
def checkedRem (a b : ℕ) : Outcome ℕ :=
  if b = 0 then panic else ok (a % b)

theorem checkedRem_of_pos {a b : ℕ} (h : 0 < b) : checkedRem a b = ok (a % b) := by
  simp [checkedRem, Nat.pos_iff_ne_zero.mp h]

end Outcome

/-- The two profiles a crate is built with, which differ on an integer overflow: a debug build
panics, a release build wraps. -/
inductive Build where
  | debug
  | release
  deriving DecidableEq, Repr

namespace Build

/-- `a + b` on `w`-bit unsigned words. -/
def add : Build → ℕ → ℕ → ℕ → Outcome ℕ
  | debug, w, a, b => Outcome.checkedAdd w a b
  | release, w, a, b => .ok ((a + b) % 2 ^ w)

/-- `a * b` on `w`-bit unsigned words. -/
def mul : Build → ℕ → ℕ → ℕ → Outcome ℕ
  | debug, w, a, b => if a * b < 2 ^ w then .ok (a * b) else .panic
  | release, w, a, b => .ok (a * b % 2 ^ w)

/-- `a as isize - b as isize` on `w`-bit words: each word read as a signed one, and their
difference, which has to fit in a signed word. -/
def isub : Build → ℕ → ℕ → ℕ → Outcome ℤ
  | debug, w, a, b =>
      let d := (a : ℤ).bmod (2 ^ w) - (b : ℤ).bmod (2 ^ w)
      if -((2 ^ w / 2 : ℕ) : ℤ) ≤ d ∧ d < ((2 ^ w / 2 : ℕ) : ℤ) then .ok d else .panic
  | release, w, a, b => .ok (((a : ℤ) - b).bmod (2 ^ w))

/-- `usize::next_power_of_two` on `w`-bit words: `2 ^ k` for the least `k` with `c ≤ 2 ^ k`,
where that power fits in a word. -/
def next_power_of_two : Build → ℕ → ℕ → Outcome ℕ
  | debug, w, c => if 2 ^ Nat.clog 2 c < 2 ^ w then .ok (2 ^ Nat.clog 2 c) else .panic
  | release, w, c => .ok (2 ^ Nat.clog 2 c % 2 ^ w)

variable {w a b : ℕ}

theorem add_eq (bd : Build) (h : bd = release ∨ a + b < 2 ^ w) :
    bd.add w a b = .ok ((a + b) % 2 ^ w) := by
  rcases h with rfl | h
  · rfl
  · cases bd
    · rw [add, Outcome.checkedAdd_of_lt h, Nat.mod_eq_of_lt h]
    · rfl

theorem mul_eq (bd : Build) (h : bd = release ∨ a * b < 2 ^ w) :
    bd.mul w a b = .ok (a * b % 2 ^ w) := by
  rcases h with rfl | h
  · rfl
  · cases bd
    · rw [mul, if_pos h, Nat.mod_eq_of_lt h]
    · rfl

theorem isub_eq (bd : Build) (h : bd = release ∨ (a < 2 ^ w / 2 ∧ b < 2 ^ w / 2)) :
    bd.isub w a b = .ok (((a : ℤ) - b).bmod (2 ^ w)) := by
  rcases h with rfl | ⟨ha, hb⟩
  · rfl
  cases bd
  · have hhalf : ((2 ^ w : ℕ) : ℤ) / 2 = ((2 ^ w / 2 : ℕ) : ℤ) := by omega
    have hself : ∀ x : ℕ, x < 2 ^ w / 2 → (x : ℤ).bmod (2 ^ w) = x := fun x hx =>
      Int.bmod_eq_of_le (by omega) (by omega)
    have hd : ((a : ℤ) - b).bmod (2 ^ w) = (a : ℤ) - b := Int.bmod_eq_of_le (by omega) (by omega)
    simp only [isub, hself a ha, hself b hb, hd]
    rw [if_pos ⟨by omega, by omega⟩]
  · rfl

theorem next_power_of_two_eq (bd : Build) {c : ℕ} (h : 2 ^ Nat.clog 2 c < 2 ^ w) :
    bd.next_power_of_two w c = .ok (2 ^ Nat.clog 2 c) := by
  cases bd
  · exact if_pos h
  · rw [next_power_of_two, Nat.mod_eq_of_lt h]

end Build

/-- The answers that the fallible allocation requests of one call receive, in the order
the call makes them: request `n` is granted iff `grants n`. -/
structure Allocator where
  grants : ℕ → Bool

namespace Allocator

/-- One allocation request: whether it is granted, and the allocator for the requests
after it. -/
def request (a : Allocator) : Bool × Allocator :=
  (a.grants 0, ⟨fun n => a.grants (n + 1)⟩)

/-- The allocator that grants every request. -/
def unlimited : Allocator := ⟨fun _ => true⟩

theorem request_fst (a : Allocator) : a.request.1 = a.grants 0 := rfl

@[simp] theorem unlimited_request : unlimited.request = (true, unlimited) := rfl

/-- The allocator that refuses every request. -/
def exhausted : Allocator := ⟨fun _ => false⟩

@[simp] theorem exhausted_request : exhausted.request = (false, exhausted) := rfl

/-- The allocator that grants the first request only. -/
def first_only : Allocator := ⟨fun n => decide (n = 0)⟩

@[simp] theorem first_only_request : first_only.request = (true, exhausted) := by
  simp only [request, first_only, exhausted, decide_true, Prod.mk.injEq, true_and]
  congr

end Allocator

/-- Computations that make allocation requests and may panic. -/
abbrev AllocM := StateT Allocator Outcome

namespace AllocM

variable {α : Type}

/-- Make one allocation request. -/
def request : AllocM Bool := fun a => .ok a.request

/-- Panic. -/
def panic : AllocM α := fun _ => .panic

@[simp] theorem run_request (a : Allocator) : request.run a = .ok a.request := rfl

@[simp] theorem run_panic (a : Allocator) : (panic : AllocM α).run a = .panic := rfl

@[simp] theorem liftM_ok (v : α) : (liftM (Outcome.ok v) : AllocM α) = pure v := rfl

@[simp] theorem liftM_panic : (liftM (Outcome.panic : Outcome α) : AllocM α) = panic := rfl

theorem run_liftM (x : Outcome α) (a : Allocator) :
    (liftM x : AllocM α).run a = x >>= fun b => .ok (b, a) := by
  cases x <;> rfl

/-- Inversion of a bind that returned: the first computation returned, and the rest ran from
the allocator it left. -/
theorem run_bind_eq_ok {β : Type} {x : AllocM α} {f : α → AllocM β} {a a'' : Allocator} {b : β} :
    (x >>= f).run a = .ok (b, a'') ↔
      ∃ c a', x.run a = .ok (c, a') ∧ (f c).run a' = .ok (b, a'') := by
  rw [StateT.run_bind, Outcome.bind_eq_ok]
  constructor
  · rintro ⟨⟨c, a'⟩, hx, hf⟩
    exact ⟨c, a', hx, hf⟩
  · rintro ⟨c, a', hx, hf⟩
    exact ⟨(c, a'), hx, hf⟩

/-- The rule for a loop over a list: a fold whose every step that returns keeps `P` keeps `P`. -/
theorem foldlM_inv {β γ : Type} {P : β → Prop} {f : β → γ → AllocM β} :
    ∀ (l : List γ), (∀ b, ∀ c ∈ l, ∀ a b' a', P b → (f b c).run a = .ok (b', a') → P b') →
      ∀ {b : β} {a a' : Allocator} {b' : β}, P b → (l.foldlM f b).run a = .ok (b', a') → P b'
  | [], _, b, a, a', b', hb, h => by
      simp only [List.foldlM_nil, StateT.run_pure, Outcome.pure_eq, Outcome.ok.injEq,
        Prod.mk.injEq] at h
      exact h.1 ▸ hb
  | c :: l, hf, b, a, a', b', hb, h => by
      rw [List.foldlM_cons, run_bind_eq_ok] at h
      obtain ⟨b₁, a₁, h₁, h₂⟩ := h
      exact foldlM_inv l (fun b c hc => hf b c (List.mem_cons_of_mem _ hc))
        (hf b c List.mem_cons_self a b₁ a₁ hb h₁) h₂

/-! ## Runs that return what they return when every request is granted

A call of the kernel answers a refused allocation with an error. So a run that returns a
value the caller counts as success got every request it made, and returns what the run under
`Allocator.unlimited` returns. `OkWhenGranted x good` says this of `x`; the rules below build it
along the structure of a computation. -/

/-- Every run of `x` whose value `good` accepts returns what `x` returns when every request
is granted. -/
def OkWhenGranted (x : AllocM α) (good : α → Prop) : Prop :=
  ∀ a v a', x.run a = .ok (v, a') → good v →
    x.run Allocator.unlimited = .ok (v, Allocator.unlimited)

section OkWhenGranted

variable {β : Type} {good : α → Prop}

theorem OkWhenGranted.pure (v : α) : OkWhenGranted (Pure.pure v) good := by
  intro a w a' h _
  simp only [StateT.run_pure, Outcome.pure_eq, Outcome.ok.injEq, Prod.mk.injEq] at h
  obtain ⟨rfl, -⟩ := h
  rfl

theorem OkWhenGranted.of_not_good {x : AllocM α}
    (h : ∀ a v a', x.run a = .ok (v, a') → ¬ good v) : OkWhenGranted x good :=
  fun a v a' hrun hv => absurd hv (h a v a' hrun)

theorem OkWhenGranted.panic : OkWhenGranted (AllocM.panic : AllocM α) good :=
  .of_not_good fun a v a' h => by cases h

theorem OkWhenGranted.lift (x : Outcome α) : OkWhenGranted (liftM x : AllocM α) good := by
  intro a v a' h _
  rw [run_liftM] at h ⊢
  obtain ⟨b, hx, hb⟩ := Outcome.bind_eq_ok.mp h
  simp only [Outcome.ok.injEq, Prod.mk.injEq] at hb
  obtain ⟨rfl, -⟩ := hb
  rw [hx]
  rfl

theorem OkWhenGranted.ite {c : Prop} [Decidable c] {x y : AllocM α} (hx : OkWhenGranted x good)
    (hy : OkWhenGranted y good) : OkWhenGranted (if c then x else y) good := by
  split
  · exact hx
  · exact hy

/-- The rule for sequencing: when every good run of the rest started from a good value of the
first computation, good runs of the whole are good runs of both parts. -/
theorem OkWhenGranted.bind {x : AllocM α} {f : α → AllocM β} {goodx : α → Prop}
    {goodf : β → Prop} (hx : OkWhenGranted x goodx) (hf : ∀ v, OkWhenGranted (f v) goodf)
    (hback : ∀ v a w a', (f v).run a = .ok (w, a') → goodf w → goodx v) :
    OkWhenGranted (x >>= f) goodf := by
  intro a w a'' h hw
  obtain ⟨v, a', hxv, hfv⟩ := run_bind_eq_ok.mp h
  rw [StateT.run_bind, hx a v a' hxv (hback v a' w a'' hfv hw), Outcome.ok_bind]
  exact hf v a' w a'' hfv hw

/-- Sequencing after a step that returns an `Except`: the rest, given an error, never returns
a good value. -/
theorem OkWhenGranted.bind_isOk {ε γ : Type} {x : AllocM (Except ε γ)}
    {k : Except ε γ → AllocM β} {goodf : β → Prop} (hx : OkWhenGranted x (fun r => r.isOk = true))
    (hk : ∀ r, OkWhenGranted (k r) goodf)
    (herr : ∀ e a w a', (k (.error e)).run a = .ok (w, a') → ¬ goodf w) :
    OkWhenGranted (x >>= k) goodf := by
  refine OkWhenGranted.bind hx hk fun r a w a' hrun hw => ?_
  cases r with
  | ok _ => rfl
  | error e => exact absurd hw (herr e a w a' hrun)

theorem run_pure_eq {v w : α} {a a' : Allocator} (h : (pure v : AllocM α).run a = .ok (w, a')) :
    w = v := by
  simp only [StateT.run_pure, Outcome.pure_eq, Outcome.ok.injEq, Prod.mk.injEq] at h
  exact h.1.symm

theorem OkWhenGranted.request_bind {f : Bool → AllocM β} {goodf : β → Prop}
    (htrue : OkWhenGranted (f true) goodf)
    (hfalse : ∀ a w a', (f false).run a = .ok (w, a') → ¬ goodf w) :
    OkWhenGranted (request >>= f) goodf := by
  have hreq : OkWhenGranted request fun b => b = true := by
    intro a v a' h hv
    subst hv
    rfl
  refine OkWhenGranted.bind hreq ?_ ?_
  · intro v
    cases v with
    | true => exact htrue
    | false => exact .of_not_good hfalse
  · intro v a w a' hrun hw
    cases v with
    | true => rfl
    | false => exact absurd hw (hfalse a w a' hrun)

end OkWhenGranted

end AllocM
