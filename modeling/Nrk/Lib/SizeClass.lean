import Mathlib.Tactic

/-! # Size classes

The class of a slab allocator that serves a size: the first maximum, in increasing order, that
holds it. -/

namespace SizeClass

variable {cs : List ℕ} {s n c d : ℕ}

/-- The first class of `cs` that holds `s`. -/
def fit (cs : List ℕ) (s : ℕ) : Option ℕ := cs.find? (s ≤ ·)

theorem fit_mem (h : fit cs s = some c) : c ∈ cs := List.mem_of_find?_eq_some h

theorem le_fit (h : fit cs s = some c) : s ≤ c := by
  simpa using List.find?_some h

theorem fit_isSome (hc : c ∈ cs) (hs : s ≤ c) : ∃ d, fit cs s = some d := by
  rcases h : fit cs s with _ | d
  · have := List.find?_eq_none.mp h c hc
    simp only [decide_eq_true_eq] at this
    omega
  · exact ⟨d, rfl⟩

theorem fit_le_of_mem (hcs : cs.Pairwise (· < ·)) (h : fit cs s = some c) (hd : d ∈ cs)
    (hs : s ≤ d) : c ≤ d := by
  obtain ⟨-, before, after, rfl, hbefore⟩ := List.find?_eq_some_iff_append.mp h
  rcases List.mem_append.mp hd with hd | hd
  · -- the classes before `c` do not hold `s`
    have := hbefore d hd
    simp only [Bool.not_eq_true', decide_eq_false_iff_not] at this
    omega
  · rcases List.mem_cons.mp hd with rfl | hd
    · exact le_rfl
    · exact ((List.pairwise_cons.mp (List.pairwise_append.mp hcs).2.1).1 d hd).le

theorem fit_self (hcs : cs.Pairwise (· < ·)) (hc : c ∈ cs) : fit cs c = some c := by
  obtain ⟨d, hd⟩ := fit_isSome hc le_rfl
  have hdc : d ≤ c := fit_le_of_mem hcs hd hc le_rfl
  have hcd : c ≤ d := le_fit hd
  rw [hd, le_antisymm hdc hcd]

theorem fit_of_le_of_le (h : fit cs s = some c) (hsn : s ≤ n) (hnc : n ≤ c) :
    fit cs n = some c := by
  obtain ⟨-, before, after, rfl, hbefore⟩ := List.find?_eq_some_iff_append.mp h
  refine List.find?_eq_some_iff_append.mpr ⟨by simpa using hnc, before, after, rfl, ?_⟩
  intro d hd
  have := hbefore d hd
  simp only [Bool.not_eq_true', decide_eq_false_iff_not] at this ⊢
  omega

theorem fit_ne_of_lt (hcs : cs.Pairwise (· < ·)) (hd : d ∈ cs) (hdc : d < c) (hn : n ≤ d) :
    fit cs n ≠ some c := fun h => by
  have := fit_le_of_mem hcs h hd hn
  omega

end SizeClass
