import Nrk.Lib.Outcome

/-! # Vectors of bounded capacity

An `ArrayVec α CAP` as a stack, top first, that carries its bound. -/

/-- A list of at most `CAP` values, top first. -/
structure ArrayVec (α : Type) (CAP : ℕ) where
  items : List α
  length_le : items.length ≤ CAP

namespace ArrayVec

variable {α : Type} {CAP : ℕ}

def len (v : ArrayVec α CAP) : ℕ := v.items.length

/-- The empty vector. -/
def new : ArrayVec α CAP := ⟨[], Nat.zero_le _⟩

/-- `try_push`: `none` (a `CapacityError`) on a full vector. -/
def try_push (v : ArrayVec α CAP) (a : α) : Option (ArrayVec α CAP) :=
  if h : v.items.length < CAP then some ⟨a :: v.items, h⟩ else none

/-- `pop`: the top value and what is left under it. -/
def pop (v : ArrayVec α CAP) : Option (α × ArrayVec α CAP) :=
  match v with
  | ⟨[], _⟩ => none
  | ⟨a :: items, h⟩ => some (a, ⟨items, Nat.le_of_succ_le h⟩)

variable {v v' : ArrayVec α CAP} {a : α}

@[simp] theorem len_mk (items : List α) (h : items.length ≤ CAP) :
    (⟨items, h⟩ : ArrayVec α CAP).len = items.length := rfl

@[simp] theorem len_new : (new : ArrayVec α CAP).len = 0 := rfl

theorem len_le (v : ArrayVec α CAP) : v.len ≤ CAP := v.length_le

theorem pop_eq_none_iff : v.pop = none ↔ v.len = 0 := by
  rcases v with ⟨_ | ⟨a, items⟩, h⟩ <;> simp [pop]

theorem pop_of_pos (h : 0 < v.len) : ∃ a v', v.pop = some (a, v') ∧ v'.len = v.len - 1 := by
  rcases v with ⟨_ | ⟨a, items⟩, hv⟩
  · simp at h
  · exact ⟨a, _, rfl, by simp⟩

theorem len_of_pop (h : v.pop = some (a, v')) : v'.len + 1 = v.len := by
  rcases v with ⟨_ | ⟨b, items⟩, hv⟩
  · simp [pop] at h
  · simp only [pop, Option.some.injEq, Prod.mk.injEq] at h
    obtain ⟨-, rfl⟩ := h
    simp

theorem items_of_pop (h : v.pop = some (a, v')) : v.items = a :: v'.items := by
  rcases v with ⟨_ | ⟨b, items⟩, hv⟩
  · simp [pop] at h
  · simp only [pop, Option.some.injEq, Prod.mk.injEq] at h
    obtain ⟨rfl, rfl⟩ := h
    rfl

theorem try_push_of_lt (h : v.len < CAP) :
    ∃ v', v.try_push a = some v' ∧ v'.items = a :: v.items ∧ v'.len = v.len + 1 :=
  ⟨_, dif_pos h, rfl, rfl⟩

theorem items_of_try_push (h : v.try_push a = some v') : v'.items = a :: v.items := by
  unfold try_push at h
  split_ifs at h
  cases h
  rfl

theorem try_push_of_full (h : v.len = CAP) : v.try_push a = none :=
  dif_neg (Nat.not_lt.mpr h.ge)

/-! ## In the order of the pushes

A vector that is pushed to and indexed, and never popped, is read from the first value pushed
to the last: the order in which `iter` visits it and in which `v[i]` counts. -/

/-- The values from the first pushed to the last. -/
def toList (v : ArrayVec α CAP) : List α := v.items.reverse

/-- `push`: a full vector panics. -/
def push (v : ArrayVec α CAP) (a : α) : Outcome (ArrayVec α CAP) :=
  match v.try_push a with
  | some v => .ok v
  | none => .panic

/-- `get(i)`: the `i`-th value pushed, or `none` out of bounds. -/
def get (v : ArrayVec α CAP) (i : ℕ) : Option α := v.toList[i]?

/-- `v[i] = a`. -/
def set (v : ArrayVec α CAP) (i : ℕ) (a : α) : ArrayVec α CAP :=
  ⟨(v.toList.set i a).reverse, by simpa [toList] using v.length_le⟩

/-- Every value replaced in place by `f` of its position and itself, as a loop over
`iter_mut().enumerate()` leaves it. -/
def mapIdx (f : ℕ → α → α) (v : ArrayVec α CAP) : ArrayVec α CAP :=
  ⟨(v.toList.mapIdx f).reverse, by simpa [toList] using v.length_le⟩

@[simp] theorem toList_new : (new : ArrayVec α CAP).toList = [] := rfl

theorem len_eq_length_toList (v : ArrayVec α CAP) : v.len = v.toList.length := by
  simp [len, toList]

@[simp] theorem toList_set (v : ArrayVec α CAP) (i : ℕ) (a : α) :
    (v.set i a).toList = v.toList.set i a := by
  simp [set, toList]

@[simp] theorem toList_mapIdx (f : ℕ → α → α) (v : ArrayVec α CAP) :
    (v.mapIdx f).toList = v.toList.mapIdx f := by
  simp [mapIdx, toList]

theorem flatMap_set_perm {β : Type} {i : ℕ} {x : α} (y : α) (g : α → List β)
    (h : v.get i = some x) :
    (g x ++ (v.set i y).toList.flatMap g).Perm (g y ++ v.toList.flatMap g) := by
  have hperm := List.getD_set_perm_cons v.toList i y
  rw [show v.toList[i]? = some x from h, Option.getD_some] at hperm
  simpa [List.flatMap_cons] using hperm.flatMap_right g

theorem get_of_map_eq_range {f : α → ℕ} {i : ℕ} {x : α}
    (h : v.toList.map f = List.range v.toList.length) (hi : v.get i = some x) : f x = i := by
  have hlt : i < v.toList.length := (List.getElem?_eq_some_iff.mp hi).1
  have hat := congrArg (·[i]?) h
  simp only [List.getElem?_map, show v.toList[i]? = some x from hi, Option.map_some,
    List.getElem?_range hlt, Option.some.injEq] at hat
  exact hat

theorem toList_of_push (h : v.push a = .ok v') : v'.toList = v.toList ++ [a] := by
  unfold push try_push at h
  split_ifs at h with hlt
  · cases h
    simp [toList]

end ArrayVec
