import Mathlib

/-! # Ordered maps as sorted association lists -/

universe u v

/-- A finite map with ordered keys: its entries in strictly increasing key order. -/
structure SortedMap (κ : Type u) [LinearOrder κ] (β : Type v) where
  entries : List (κ × β)
  sorted : entries.Pairwise (fun a b => a.1 < b.1)

namespace SortedMap

variable {κ : Type u} [LinearOrder κ] {β : Type v}

/-- The map with no entries. -/
def empty : SortedMap κ β := ⟨[], List.Pairwise.nil⟩

/-- The value stored under `k`. -/
def get? (m : SortedMap κ β) (k : κ) : Option β :=
  (m.entries.find? (fun e => e.1 = k)).map Prod.snd

/-- Insertion into a sorted list: before the first larger key, replacing an equal one. -/
def insertList (k : κ) (x : β) : List (κ × β) → List (κ × β)
  | [] => [(k, x)]
  | e :: es => if k < e.1 then (k, x) :: e :: es
      else if k = e.1 then (k, x) :: es else e :: insertList k x es

theorem mem_insertList {k : κ} {x : β} {e : κ × β} :
    ∀ {es : List (κ × β)}, es.Pairwise (fun a b => a.1 < b.1) →
      (e ∈ insertList k x es ↔ e = (k, x) ∨ (e ∈ es ∧ e.1 ≠ k))
  | [], _ => by simp [insertList]
  | a :: es, hs => by
      obtain ⟨hgt, hs⟩ := List.pairwise_cons.mp hs
      have ih : e ∈ insertList k x es ↔ _ := mem_insertList hs
      simp only [insertList]
      split_ifs with hlt heq
      · -- every key of the list is above `k`
        simp only [List.mem_cons]
        constructor
        · rintro (rfl | rfl | he)
          · exact .inl rfl
          · exact .inr ⟨.inl rfl, ne_of_gt hlt⟩
          · exact .inr ⟨.inr he, ne_of_gt (hlt.trans (hgt e he))⟩
        · rintro (rfl | ⟨he, -⟩)
          · exact .inl rfl
          · exact .inr he
      · -- the entry under `k` is replaced
        simp only [List.mem_cons]
        constructor
        · rintro (rfl | he)
          · exact .inl rfl
          · exact .inr ⟨.inr he, ne_of_gt (heq ▸ hgt e he)⟩
        · rintro (rfl | ⟨rfl | he, hk⟩)
          · exact .inl rfl
          · exact absurd heq.symm hk
          · exact .inr he
      · have hak : a.1 ≠ k := fun h => heq h.symm
        rw [List.mem_cons, ih, List.mem_cons]
        constructor
        · rintro (rfl | rfl | ⟨he, hk⟩)
          · exact .inr ⟨.inl rfl, hak⟩
          · exact .inl rfl
          · exact .inr ⟨.inr he, hk⟩
        · rintro (rfl | ⟨rfl | he, hk⟩)
          · exact .inr (.inl rfl)
          · exact .inl rfl
          · exact .inr (.inr ⟨he, hk⟩)

theorem insertList_sorted (k : κ) (x : β) :
    ∀ {es : List (κ × β)}, es.Pairwise (fun a b => a.1 < b.1) →
      (insertList k x es).Pairwise (fun a b => a.1 < b.1)
  | [], _ => by simp [insertList]
  | a :: es, hs => by
      obtain ⟨hgt, hs'⟩ := List.pairwise_cons.mp hs
      simp only [insertList]
      split_ifs with hlt heq
      · refine List.Pairwise.cons ?_ hs
        intro b hb
        rcases List.mem_cons.mp hb with rfl | hb
        · exact hlt
        · exact hlt.trans (hgt b hb)
      · refine List.Pairwise.cons ?_ hs'
        intro b hb
        exact heq ▸ hgt b hb
      · refine List.Pairwise.cons ?_ (insertList_sorted k x hs')
        intro b hb
        rcases (mem_insertList hs').mp hb with rfl | ⟨hb, -⟩
        · exact lt_of_le_of_ne (le_of_not_gt hlt) (Ne.symm heq)
        · exact hgt b hb

/-- `insert`: the entry `(k, x)`, replacing the one under `k` if there is one. -/
def insert (m : SortedMap κ β) (k : κ) (x : β) : SortedMap κ β :=
  ⟨insertList k x m.entries, insertList_sorted k x m.sorted⟩

/-- `remove`: the map without the entry under `k`. -/
def erase (m : SortedMap κ β) (k : κ) : SortedMap κ β :=
  ⟨m.entries.filter (fun e => e.1 ≠ k), List.Pairwise.filter _ m.sorted⟩

/-- `get_mut(k)` followed by an update of the value through it. -/
def modify (m : SortedMap κ β) (k : κ) (f : β → β) : SortedMap κ β :=
  ⟨m.entries.map (fun e => if e.1 = k then (e.1, f e.2) else e), by
    rw [List.pairwise_map]
    refine m.sorted.imp ?_
    intro a b hab
    by_cases ha : a.1 = k <;> by_cases hb : b.1 = k <;> simp [ha, hb] at hab ⊢ <;> exact hab⟩

/-- The first entry that a downward range query over the keys satisfying `p` visits:
`range(..).rev().next()`. -/
def lastWhere (m : SortedMap κ β) (p : κ → Prop) [DecidablePred p] : Option (κ × β) :=
  m.entries.reverse.find? (fun e => p e.1)

/-! ## Entries after each operation -/

@[simp] theorem entries_empty : (empty : SortedMap κ β).entries = [] := rfl

theorem mem_insert {m : SortedMap κ β} {k : κ} {x : β} {e : κ × β} :
    e ∈ (m.insert k x).entries ↔ e = (k, x) ∨ (e ∈ m.entries ∧ e.1 ≠ k) :=
  mem_insertList m.sorted

theorem mem_erase {m : SortedMap κ β} {k : κ} {e : κ × β} :
    e ∈ (m.erase k).entries ↔ e ∈ m.entries ∧ e.1 ≠ k := by
  simp [erase]

@[simp] theorem entries_erase_insert_empty (k : κ) (x : β) :
    ((empty.insert k x).erase k).entries = [] := by
  simp [erase, insert, insertList]

theorem mem_modify {m : SortedMap κ β} {k : κ} {f : β → β} {e : κ × β} :
    e ∈ (m.modify k f).entries ↔
      (∃ x, (k, x) ∈ m.entries ∧ e = (k, f x)) ∨ (e ∈ m.entries ∧ e.1 ≠ k) := by
  simp only [modify, List.mem_map]
  constructor
  · rintro ⟨⟨k', x⟩, hmem, rfl⟩
    by_cases hk : k' = k
    · subst hk
      exact .inl ⟨x, hmem, by simp⟩
    · exact .inr ⟨by simpa [hk] using hmem, by simp [hk]⟩
  · rintro (⟨x, hmem, rfl⟩ | ⟨hmem, hk⟩)
    · exact ⟨(k, x), hmem, by simp⟩
    · exact ⟨e, hmem, by simp [hk]⟩

theorem eq_of_mem_of_fst_eq {m : SortedMap κ β} {e e' : κ × β} (he : e ∈ m.entries)
    (he' : e' ∈ m.entries) (hk : e.1 = e'.1) : e = e' := by
  have hnodup : (m.entries.map Prod.fst).Nodup :=
    List.pairwise_map.mpr (m.sorted.imp ne_of_lt)
  exact List.inj_on_of_nodup_map hnodup he he' hk

theorem get?_eq_some {m : SortedMap κ β} {k : κ} {x : β} :
    m.get? k = some x ↔ (k, x) ∈ m.entries := by
  simp only [get?, Option.map_eq_some_iff]
  constructor
  · rintro ⟨⟨k', x'⟩, he, rfl⟩
    have hk := List.find?_some he
    simp only [decide_eq_true_eq] at hk
    subst hk
    exact List.mem_of_find?_eq_some he
  · intro hm
    have hsome : (m.entries.find? (fun e => decide (e.1 = k))).isSome :=
      List.find?_isSome.mpr ⟨(k, x), hm, by simp⟩
    obtain ⟨e, he⟩ := Option.isSome_iff_exists.mp hsome
    have hk := List.find?_some he
    simp only [decide_eq_true_eq] at hk
    exact ⟨e, he, by rw [eq_of_mem_of_fst_eq (List.mem_of_find?_eq_some he) hm hk]⟩

/-! ## Downward range queries -/

section lastWhere

variable {p : κ → Prop} [DecidablePred p]

theorem lastWhere_eq_none {m : SortedMap κ β} :
    m.lastWhere p = none ↔ ∀ e ∈ m.entries, ¬ p e.1 := by
  simp [lastWhere, List.find?_eq_none]

theorem lastWhere_mem {m : SortedMap κ β} {e : κ × β} (h : m.lastWhere p = some e) :
    e ∈ m.entries ∧ p e.1 := by
  have hp := List.find?_some h
  have hm := List.mem_of_find?_eq_some h
  exact ⟨List.mem_reverse.mp hm, by simpa using hp⟩

theorem find?_reverse_max {q : κ × β → Bool} {e : κ × β} :
    ∀ {es : List (κ × β)}, es.Pairwise (fun a b => a.1 < b.1) → es.reverse.find? q = some e →
      ∀ e' ∈ es, q e' → e'.1 ≤ e.1
  | [], _, h => by simp at h
  | a :: es, hs, h => by
      obtain ⟨hgt, hs⟩ := List.pairwise_cons.mp hs
      rw [List.reverse_cons, List.find?_append] at h
      intro e' he' hq
      cases hf : es.reverse.find? q with
      | some b =>
          rw [hf, Option.some_or] at h
          cases h
          rcases List.mem_cons.mp he' with rfl | he'
          · exact le_of_lt (hgt e (List.mem_reverse.mp (List.mem_of_find?_eq_some hf)))
          · exact find?_reverse_max hs hf e' he' hq
      | none =>
          rw [hf, Option.none_or] at h
          rcases List.mem_cons.mp he' with rfl | he'
          · simp only [List.find?_singleton] at h
            split_ifs at h
            cases h
            exact le_refl _
          · exact absurd hq (by simpa using List.find?_eq_none.mp hf e' (List.mem_reverse.mpr he'))

/-- The first entry a downward query meets has the largest key in the range. -/
theorem lastWhere_max {m : SortedMap κ β} {e : κ × β} (h : m.lastWhere p = some e) :
    ∀ e' ∈ m.entries, p e'.1 → e'.1 ≤ e.1 := fun e' he' hp =>
  find?_reverse_max m.sorted h e' he' (by simpa using hp)

end lastWhere

end SortedMap

/-! ## Insertion at the position a search gives

A list sorted by a strict total order `r` (each element before every later one) takes a new
element after the longest prefix of elements that come before it: that is the position a binary
search by `r` returns, and the list stays sorted. -/

namespace SortedList

variable {α : Type*} {r : α → α → Bool}

theorem pairwise_insertIdx_takeWhile (htrans : ∀ a b c, r a b → r b c → r a c)
    (htotal : ∀ a b, a ≠ b → r a b ∨ r b a) {x : α} :
    ∀ {l : List α}, l.Pairwise (fun a b => r a b) → x ∉ l →
      (l.insertIdx (l.takeWhile (r · x)).length x).Pairwise (fun a b => r a b)
  | [], _, _ => by simp
  | e :: l, hl, hx => by
    obtain ⟨he, hl'⟩ := List.pairwise_cons.mp hl
    have hxe : x ≠ e := fun h => hx (h ▸ List.mem_cons_self ..)
    have hxl : x ∉ l := fun h => hx (List.mem_cons_of_mem e h)
    cases hex : r e x
    · -- `x` goes in front of `e`, so before every element of the list
      have hxe' : r x e := (htotal x e hxe).resolve_right (by simp [hex])
      simp only [List.takeWhile_cons, hex]
      refine List.pairwise_cons.mpr ⟨fun b hb => ?_, hl⟩
      rcases List.mem_cons.mp hb with rfl | hb
      · exact hxe'
      · exact htrans x e b hxe' (he b hb)
    · -- `e` stays in front, before `x` and the rest
      have hle : (l.takeWhile (r · x)).length ≤ l.length :=
        (List.takeWhile_prefix _).length_le
      simp only [List.takeWhile_cons, hex, List.length_cons, if_true, List.insertIdx_succ_cons]
      refine List.pairwise_cons.mpr ⟨fun b hb => ?_, pairwise_insertIdx_takeWhile htrans htotal hl' hxl⟩
      rcases (List.mem_insertIdx hle).mp hb with rfl | hb
      · exact hex
      · exact he b hb

end SortedList
