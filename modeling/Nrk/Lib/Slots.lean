import Mathlib.Tactic
import Mathlib.Data.List.ReduceOption

/-! # The lowest slot of a table

The search for the lowest slot a predicate accepts, and the values a table of optional slots
holds. -/

namespace Slots

variable {n : ℕ}

/-- The lowest index below `n` that `p` accepts. -/
def lowest (p : Fin n → Bool) : Option (Fin n) := (List.finRange n).find? p

theorem lowest_eq_some {p : Fin n → Bool} {i : Fin n} :
    lowest p = some i ↔ p i ∧ ∀ j < i, p j = false := by
  rw [lowest, List.find?_eq_some_iff_getElem]
  constructor
  · rintro ⟨hi, k, hk, hki, hbefore⟩
    refine ⟨hi, fun j hj => ?_⟩
    have hk' : k = i := by rw [← hki, List.getElem_finRange]; rfl
    have hjk : (j : ℕ) < k := hk' ▸ hj
    simpa using hbefore j hjk
  · rintro ⟨hi, hbefore⟩
    refine ⟨hi, i, by simp, by simp, fun j hj => ?_⟩
    simpa using hbefore ⟨j, by omega⟩ hj

theorem lowest_eq_none {p : Fin n → Bool} : lowest p = none ↔ ∀ i, p i = false := by
  simp [lowest, List.find?_eq_none]

/-- The first element of a list of length `n` that `q` accepts sits at the lowest index whose
element `q` accepts. -/
theorem findIdx?_eq_lowest {α : Type*} (l : List α) (hl : l.length = n) (q : α → Bool) :
    l.findIdx? q = (lowest fun i : Fin n => q (l.get (i.cast hl.symm))).map Fin.val := by
  rcases h : lowest fun i : Fin n => q (l.get (i.cast hl.symm)) with _ | i
  · rw [lowest_eq_none] at h
    rw [Option.map_none, List.findIdx?_eq_none_iff]
    intro x hx
    obtain ⟨k, hk, rfl⟩ := List.getElem_of_mem hx
    simpa using h ⟨k, hl ▸ hk⟩
  · rw [lowest_eq_some] at h
    rw [Option.map_some, List.findIdx?_eq_some_iff_getElem]
    refine ⟨hl ▸ i.isLt, by simpa using h.1, fun j hj => ?_⟩
    simpa using h.2 ⟨j, by omega⟩ hj

/-! ## What a table of slots holds -/

section Held

variable {α : Type*} {l : List (Option α)} {i : ℕ} {a : α}

theorem reduceOption_perm_set_none :
    ∀ (l : List (Option α)) (i : ℕ) (x : Option α), l[i]? = some x →
      l.reduceOption.Perm (x.toList ++ (l.set i none).reduceOption)
  | y :: l, 0, x, hx => by
      obtain rfl : y = x := by simpa using hx
      cases y <;> simp [List.reduceOption_cons_of_some, List.reduceOption_cons_of_none]
  | y :: l, i + 1, x, hx => by
      have ih := reduceOption_perm_set_none l i x (by simpa using hx)
      cases y with
      | none => simpa [List.reduceOption_cons_of_none] using ih
      | some b =>
          simp only [List.set_cons_succ, List.reduceOption_cons_of_some]
          exact (ih.cons b).trans List.perm_middle.symm

theorem reduceOption_perm_take (h : l[i]? = some (some a)) :
    l.reduceOption.Perm (a :: (l.set i none).reduceOption) :=
  reduceOption_perm_set_none l i _ h

theorem reduceOption_perm_put (h : l[i]? = some none) :
    (l.set i (some a)).reduceOption.Perm (a :: l.reduceOption) := by
  have hi : i < l.length := (List.getElem?_eq_some_iff.mp h).1
  have hset := reduceOption_perm_set_none (l.set i (some a)) i (some a)
    (by simp [hi])
  have hli : l[i] = none := (List.getElem?_eq_some_iff.mp h).2
  have hsame : (l.set i (some a)).set i none = l := by
    rw [List.set_set, ← hli, List.set_getElem_self]
  simpa [hsame] using hset

/-- The values of a table whose every value `a` at index `i` has `f a = k + i` are `f`-distinct
and at least `k`. -/
theorem nodup_map_reduceOption_from {f : α → ℕ} :
    ∀ (l : List (Option α)) (k : ℕ), (∀ i a, l[i]? = some (some a) → f a = k + i) →
      (l.reduceOption.map f).Nodup ∧ ∀ a ∈ l.reduceOption, k ≤ f a
  | [], _, _ => by simp
  | y :: l, k, h => by
      -- the rest of the table names values from `k + 1` on
      obtain ⟨hnd, hge⟩ := nodup_map_reduceOption_from (f := f) l (k + 1) fun i a hi => by
        rw [h (i + 1) a (by simpa using hi)]
        omega
      cases y with
      | none =>
          simp only [List.reduceOption_cons_of_none]
          exact ⟨hnd, fun a ha => by have := hge a ha; omega⟩
      | some b =>
          have hb : f b = k := by simpa using h 0 b rfl
          simp only [List.reduceOption_cons_of_some, List.map_cons, List.nodup_cons,
            List.mem_map, List.mem_cons, forall_eq_or_imp]
          refine ⟨⟨fun ⟨c, hc, hcb⟩ => ?_, hnd⟩, hb.ge, fun a ha => by have := hge a ha; omega⟩
          have := hge c hc
          omega

theorem nodup_map_reduceOption {f : α → ℕ} (h : ∀ i a, l[i]? = some (some a) → f a = i) :
    (l.reduceOption.map f).Nodup :=
  (nodup_map_reduceOption_from l 0 fun i a hi => by rw [h i a hi, Nat.zero_add]).1

theorem getElem?_of_mem_reduceOption {f : α → ℕ} (h : ∀ i a, l[i]? = some (some a) → f a = i)
    (ha : a ∈ l.reduceOption) : l[f a]? = some (some a) := by
  obtain ⟨i, hi⟩ := List.mem_iff_getElem?.mp (List.reduceOption_mem_iff.mp ha)
  rwa [h i a hi]

end Held

end Slots
