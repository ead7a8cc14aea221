import Nrk.Lib.Outcome

/-! # Runs of a step function and forward simulation -/

namespace Sim

variable {σ τ ι ο : Type*}

/-- The outputs of an implementation over a list of inputs, and its final state. -/
def runImpl (step : σ → ι → Outcome (σ × ο)) : σ → List ι → Outcome (σ × List ο)
  | s, [] => .ok (s, [])
  | s, i :: is => do
      let (s, o) ← step s i
      let (s, os) ← runImpl step s is
      return (s, o :: os)

/-- The outputs of a specification over a list of inputs, when every step is defined. -/
def runSpec (step : τ → ι → Option (τ × ο)) : τ → List ι → Option (τ × List ο)
  | t, [] => some (t, [])
  | t, i :: is => do
      let (t, o) ← step t i
      let (t, os) ← runSpec step t is
      return (t, o :: os)

/-- `R` is a forward simulation of `spec` by `impl`. -/
def Simulates (impl : σ → ι → Outcome (σ × ο)) (spec : τ → ι → Option (τ × ο))
    (R : σ → τ → Prop) : Prop :=
  ∀ s t i t' o, R s t → spec t i = some (t', o) → ∃ s', impl s i = .ok (s', o) ∧ R s' t'

theorem runSpec_cons {spec : τ → ι → Option (τ × ο)} {t t'' : τ} {i : ι} {is : List ι}
    {os : List ο} (h : runSpec spec t (i :: is) = some (t'', os)) :
    ∃ t' o os', spec t i = some (t', o) ∧ runSpec spec t' is = some (t'', os') ∧
      os = o :: os' := by
  simp only [runSpec, Option.bind_eq_bind, Option.bind_eq_some_iff] at h
  obtain ⟨⟨t', o⟩, hstep, ⟨t₂, os'⟩, hrest, hret⟩ := h
  simp only [Option.pure_def, Option.some.injEq, Prod.mk.injEq] at hret
  obtain ⟨rfl, rfl⟩ := hret
  exact ⟨t', o, os', hstep, hrest, rfl⟩

theorem runImpl_cons {impl : σ → ι → Outcome (σ × ο)} {s s'' : σ} {i : ι} {is : List ι}
    {os : List ο} (h : runImpl impl s (i :: is) = .ok (s'', os)) :
    ∃ s' o os', impl s i = .ok (s', o) ∧ runImpl impl s' is = .ok (s'', os') ∧
      os = o :: os' := by
  simp only [runImpl] at h
  obtain ⟨⟨s', o⟩, hstep, h⟩ := Outcome.bind_eq_ok.mp h
  obtain ⟨⟨s₂, os'⟩, hrest, hret⟩ := Outcome.bind_eq_ok.mp h
  simp only [Outcome.pure_eq, Outcome.ok.injEq, Prod.mk.injEq] at hret
  obtain ⟨rfl, rfl⟩ := hret
  exact ⟨s', o, os', hstep, hrest, rfl⟩

theorem runImpl_cons_of_ok {impl : σ → ι → Outcome (σ × ο)} {s s' s'' : σ} {i : ι}
    {is : List ι} {o : ο} {os : List ο} (hi : impl s i = .ok (s', o))
    (hrest : runImpl impl s' is = .ok (s'', os)) : runImpl impl s (i :: is) = .ok (s'', o :: os) := by
  simp only [runImpl, hi, hrest, Outcome.ok_bind, Outcome.pure_eq]

theorem runImpl_cons_of_panic {impl : σ → ι → Outcome (σ × ο)} {s : σ} {i : ι} {is : List ι}
    (hi : impl s i = .panic) : runImpl impl s (i :: is) = .panic := by
  simp only [runImpl, hi, Outcome.panic_bind]

theorem runImpl_cons_panic {impl : σ → ι → Outcome (σ × ο)} {s s' : σ} {i : ι} {is : List ι}
    {o : ο} (hi : impl s i = .ok (s', o)) (hrest : runImpl impl s' is = .panic) :
    runImpl impl s (i :: is) = .panic := by
  simp only [runImpl, hi, hrest, Outcome.ok_bind, Outcome.panic_bind]

/-- An invariant that every step which returns keeps holds after every run that returns. -/
theorem runImpl_inv {impl : σ → ι → Outcome (σ × ο)} {Inv : σ → Prop}
    (hstep : ∀ s i s' o, Inv s → impl s i = .ok (s', o) → Inv s') :
    ∀ (is : List ι) {s s' : σ} {os : List ο}, Inv s → runImpl impl s is = .ok (s', os) → Inv s'
  | [], s, s', os, hs, h => by
    simp only [runImpl, Outcome.ok.injEq, Prod.mk.injEq] at h
    obtain ⟨rfl, -⟩ := h
    exact hs
  | i :: is, s, s', os, hs, h => by
    obtain ⟨s₁, o, os', hi, hrest, -⟩ := runImpl_cons h
    exact runImpl_inv hstep is (hstep s i s₁ o hs hi) hrest

/-- `R n` matches each step by one that leaves `R` with one unit less: a simulation for as
many steps as the units. -/
def SimulatesFor (impl : σ → ι → Outcome (σ × ο)) (spec : τ → ι → Option (τ × ο))
    (R : ℕ → σ → τ → Prop) : Prop :=
  ∀ n s t i t' o, R (n + 1) s t → spec t i = some (t', o) →
    ∃ s', impl s i = .ok (s', o) ∧ R n s' t'

/-- A simulation for `n` steps matches runs of `n` inputs. -/
theorem SimulatesFor.runs {impl : σ → ι → Outcome (σ × ο)} {spec : τ → ι → Option (τ × ο)}
    {R : ℕ → σ → τ → Prop} (hsim : SimulatesFor impl spec R) :
    ∀ (is : List ι) (s : σ) (t t' : τ) (os : List ο), R is.length s t →
      runSpec spec t is = some (t', os) → ∃ s', runImpl impl s is = .ok (s', os) ∧ R 0 s' t'
  | [], s, t, t', os, hR, h => by
      simp only [runSpec, Option.some.injEq, Prod.mk.injEq] at h
      obtain ⟨rfl, rfl⟩ := h
      exact ⟨s, rfl, hR⟩
  | i :: is, s, t, t'', os, hR, h => by
      obtain ⟨t', o, os', hstep, hrest, rfl⟩ := runSpec_cons h
      obtain ⟨s', himpl, hR'⟩ := hsim is.length s t i t' o hR hstep
      obtain ⟨s'', hrun, hR''⟩ := hsim.runs is s' t' t'' os' hR' hrest
      exact ⟨s'', runImpl_cons_of_ok himpl hrun, hR''⟩

/-- A simulation of single steps is a simulation of runs: wherever the specification's run
is defined, the implementation's run returns the same outputs. -/
theorem Simulates.runs {impl : σ → ι → Outcome (σ × ο)} {spec : τ → ι → Option (τ × ο)}
    {R : σ → τ → Prop} (hsim : Simulates impl spec R) (is : List ι) (s : σ) (t t' : τ)
    (os : List ο) (hR : R s t) (h : runSpec spec t is = some (t', os)) :
    ∃ s', runImpl impl s is = .ok (s', os) ∧ R s' t' :=
  (show SimulatesFor impl spec fun _ => R from fun _ => hsim).runs is s t t' os hR h

/-! ## Invariants of runs -/

/-- Each input of a run satisfies `Pre` in the state the run has reached when it comes to it. -/
def Admissible (step : σ → ι → Outcome (σ × ο)) (Pre : σ → ι → Prop) : σ → List ι → Prop
  | _, [] => True
  | s, i :: is => Pre s i ∧ ∀ s' o, step s i = .ok (s', o) → Admissible step Pre s' is

theorem admissible_of_forall {step : σ → ι → Outcome (σ × ο)} {Pre : ι → Prop} :
    ∀ {is : List ι} {s : σ}, (∀ i ∈ is, Pre i) → Admissible step (fun _ => Pre) s is
  | [], _, _ => trivial
  | i :: _, _, h => ⟨h i (List.mem_cons_self ..), fun _ _ _ =>
      admissible_of_forall fun i' hi' => h i' (List.mem_cons_of_mem i hi')⟩

/-- Every step from a state satisfying `Inv`, on an input that `Pre` admits in that state,
returns without panicking, into a state satisfying `Inv`. -/
def PreservesWhen (step : σ → ι → Outcome (σ × ο)) (Pre : σ → ι → Prop) (Inv : σ → Prop) :
    Prop :=
  ∀ s i, Inv s → Pre s i → ∃ s' o, step s i = .ok (s', o) ∧ Inv s'

/-- An invariant that every admitted step keeps holds after every admissible run, and the run
does not panic. -/
theorem PreservesWhen.runs {step : σ → ι → Outcome (σ × ο)} {Pre : σ → ι → Prop}
    {Inv : σ → Prop} (h : PreservesWhen step Pre Inv) :
    ∀ (is : List ι) (s : σ), Inv s → Admissible step Pre s is →
      ∃ s' os, runImpl step s is = .ok (s', os) ∧ Inv s'
  | [], s, hs, _ => ⟨s, [], rfl, hs⟩
  | i :: is, s, hs, ⟨hpre, hrest⟩ => by
      obtain ⟨s₁, o, hstep, hs₁⟩ := h s i hs hpre
      obtain ⟨s₂, os, hrun, hs₂⟩ := h.runs is s₁ hs₁ (hrest s₁ o hstep)
      exact ⟨s₂, o :: os, runImpl_cons_of_ok hstep hrun, hs₂⟩

/-- Every step from a state satisfying `Inv`, on an input satisfying `Pre`, returns without
panicking, into a state satisfying `Inv`. -/
def Preserves (step : σ → ι → Outcome (σ × ο)) (Pre : ι → Prop) (Inv : σ → Prop) : Prop :=
  ∀ s i, Inv s → Pre i → ∃ s' o, step s i = .ok (s', o) ∧ Inv s'

/-- An invariant that every step keeps holds after every run on inputs satisfying `Pre`, and
the run does not panic. -/
theorem Preserves.runs {step : σ → ι → Outcome (σ × ο)} {Pre : ι → Prop} {Inv : σ → Prop}
    (h : Preserves step Pre Inv) (is : List ι) (s : σ) (hs : Inv s) (hpre : ∀ i ∈ is, Pre i) :
    ∃ s' os, runImpl step s is = .ok (s', os) ∧ Inv s' :=
  (show PreservesWhen step (fun _ => Pre) Inv from h).runs is s hs (admissible_of_forall hpre)

end Sim
