import Nrk.Lib.Outcome

/-! # Bounded queues on a ring of sequence numbers

A ring of `2 ^ e` slots whose sequence numbers say whose turn each slot is, and two `w`-bit
positions, run by one thread in a debug or a release build. -/

namespace SeqRing

variable {α β γ : Type}

/-- A slot: its sequence number and what it stores. -/
structure Node (α : Type) where
  sequence : ℕ
  value : α

/-- The ring: the slots, the mask that takes a position to its slot, and the positions of the
next push and the next pop. -/
structure State (α : Type) where
  mask : ℕ
  enqueue_pos : ℕ
  dequeue_pos : ℕ
  buffer : List (Node α)

/-- `a + b` on `w`-bit words that wrap. -/
def wrapping_add (w a b : ℕ) : ℕ := (a + b) % 2 ^ w

/-- `a as isize - b as isize` on `w`-bit words that wrap: the difference modulo `2 ^ w`, read
as a signed number. -/
def diff (w a b : ℕ) : ℤ := ((a : ℤ) - b).bmod (2 ^ w)

/-- A ring of `num` slots, slot `i` waiting for the push at position `i`; the mask is `num - 1`
as a word, wrapping below zero. -/
def init (w num : ℕ) (empty : α) : State α where
  mask := wrapping_add w num (2 ^ w - 1)
  enqueue_pos := 0
  dequeue_pos := 0
  buffer := (List.range num).map fun i => ⟨i, empty⟩

/-- The loop of a push by a thread running alone, `write` filling the slot it takes: `true`
once it has the slot of `enqueue_pos`, `false` when the ring is full. -/
def push (bd : Build) (w : ℕ) (write : α → Outcome α) (s : State α) :
    Outcome (State α × Bool) :=
  match s.buffer[s.enqueue_pos &&& s.mask]? with
  | none => .panic
  | some node => do
      let d ← bd.isub w node.sequence s.enqueue_pos
      if d = 0 then do
        -- the compare-exchange moves `enqueue_pos` on, then the slot is filled and published
        let pos ← bd.add w s.enqueue_pos 1
        let value ← write node.value
        return ({ s with
          enqueue_pos := pos
          buffer := s.buffer.set (s.enqueue_pos &&& s.mask) ⟨pos, value⟩ }, true)
      else if d < 0 then
        return (s, false)
      else
        -- alone, the thread reads the same `enqueue_pos` again and loops forever: no result
        .panic

/-- The loop of a pop by a thread running alone, `read` taking what the slot stores: its
output once it has the slot of `dequeue_pos`, `none` when the ring is empty. The slot then waits
for the push one lap on, at `pos + mask + 1`. -/
def pop (bd : Build) (w : ℕ) (read : α → Outcome (α × β)) (s : State α) :
    Outcome (State α × Option β) :=
  match s.buffer[s.dequeue_pos &&& s.mask]? with
  | none => .panic
  | some node => do
      let next ← bd.add w s.dequeue_pos 1
      let d ← bd.isub w node.sequence next
      if d = 0 then do
        let (value, out) ← read node.value
        let lap ← bd.add w s.dequeue_pos s.mask
        let lap ← bd.add w lap 1
        return ({ s with
          dequeue_pos := next
          buffer := s.buffer.set (s.dequeue_pos &&& s.mask) ⟨lap, value⟩ }, some out)
      else if d < 0 then
        return (s, none)
      else
        .panic

/-- The positions and sequence numbers of a ring stay below `n`: a build that checks for
overflow needs `n` below half the words, so that no sum and no signed difference overflows. -/
def Fits (bd : Build) (w n : ℕ) : Prop := bd = .release ∨ n < 2 ^ w / 2

theorem Fits.mono {bd : Build} {w m n : ℕ} (h : Fits bd w n) (hmn : m ≤ n) : Fits bd w m :=
  h.imp_right fun h => lt_of_le_of_lt hmn h

/-- The ring `s` of `2 ^ e` slots holds `xs` from position `D` on: the `i`-th position from `D`
uses slot `(D + i) % 2 ^ e`, whose sequence number is that position, one more while the slot
stores `xs[i]`. The positions are `D` and `D + xs.length` as words. -/
structure Holds (w e : ℕ) (stores : α → γ → Prop) (s : State α) (D : ℕ) (xs : List γ) :
    Prop where
  e_pos : 0 < e
  e_lt : e < w
  mask_eq : s.mask = 2 ^ e - 1
  length_buffer : s.buffer.length = 2 ^ e
  length_le : xs.length ≤ 2 ^ e
  dequeue_pos_eq : s.dequeue_pos = D % 2 ^ w
  enqueue_pos_eq : s.enqueue_pos = (D + xs.length) % 2 ^ w
  slot : ∀ i < 2 ^ e, ∀ node ∈ s.buffer[(D + i) % 2 ^ e]?,
    node.sequence = (D + i + if i < xs.length then 1 else 0) % 2 ^ w ∧
      ∀ h : i < xs.length, stores node.value xs[i]

/-! ## Words -/

theorem wrapping_add_mod (w a b : ℕ) : wrapping_add w (a % 2 ^ w) b = (a + b) % 2 ^ w := by
  simp [wrapping_add, Nat.mod_add_mod]

theorem diff_mod (w a b : ℕ) : diff w (a % 2 ^ w) (b % 2 ^ w) = diff w a b := by
  simp only [diff, Int.natCast_mod]
  rw [Int.emod_sub_bmod, Int.sub_emod_bmod]

theorem wrapping_add_le (w a b : ℕ) : wrapping_add w a b ≤ a + b := Nat.mod_le _ _

theorem diff_self (w a : ℕ) : diff w a a = 0 := by
  simp [diff]

theorem diff_neg {w a b : ℕ} (hab : a < b) (hb : b - a ≤ 2 ^ w / 2) : diff w a b < 0 := by
  unfold diff
  generalize 2 ^ w = m at hb ⊢
  rw [Int.bmod_eq_of_le (by omega) (by omega)]
  omega

variable {bd : Build} {w n : ℕ}

theorem Fits.add (hf : Fits bd w n) {a b : ℕ} (h : a + b ≤ n) :
    bd.add w a b = .ok (wrapping_add w a b) :=
  bd.add_eq (hf.imp_right fun hn => by omega)

theorem Fits.isub (hf : Fits bd w n) {a b : ℕ} (ha : a ≤ n) (hb : b ≤ n) :
    bd.isub w a b = .ok (diff w a b) :=
  bd.isub_eq (hf.imp_right fun hn => ⟨by omega, by omega⟩)

/-! ## Slots -/

theorem slot_ne {D i j k : ℕ} (hi : i < k) (hj : j < k) (hij : i ≠ j) :
    (D + i) % k ≠ (D + j) % k := fun h => by
  have := Nat.ModEq.add_left_cancel' D h
  rw [Nat.ModEq, Nat.mod_eq_of_lt hi, Nat.mod_eq_of_lt hj] at this
  exact hij this

variable {e : ℕ} {stores : α → γ → Prop} {s : State α} {D : ℕ} {xs : List γ}

theorem Holds.index (h : Holds w e stores s D xs) (p : ℕ) : p % 2 ^ w &&& s.mask = p % 2 ^ e := by
  rw [h.mask_eq, Nat.and_two_pow_sub_one_eq_mod,
    Nat.mod_mod_of_dvd _ (Nat.pow_dvd_pow 2 h.e_lt.le)]

theorem Holds.node (h : Holds w e stores s D xs) (i : ℕ) :
    ∃ node, s.buffer[(D + i) % 2 ^ e]? = some node := by
  have : (D + i) % 2 ^ e < s.buffer.length := by
    rw [h.length_buffer]
    exact Nat.mod_lt _ (Nat.two_pow_pos e)
  exact ⟨_, List.getElem?_eq_getElem this⟩

theorem Holds.dequeue_pos_le (h : Holds w e stores s D xs) : s.dequeue_pos ≤ D :=
  h.dequeue_pos_eq ▸ Nat.mod_le _ _

theorem Holds.enqueue_pos_le (h : Holds w e stores s D xs) : s.enqueue_pos ≤ D + xs.length :=
  h.enqueue_pos_eq ▸ Nat.mod_le _ _

theorem Holds.ring_le_half (h : Holds w e stores s D xs) : 2 ^ e ≤ 2 ^ w / 2 := by
  have hw : 2 ^ w = 2 ^ (w - 1) * 2 := by
    rw [← pow_succ, Nat.sub_add_cancel (by have := h.e_lt; omega)]
  rw [hw, Nat.mul_div_cancel _ (by norm_num)]
  exact Nat.pow_le_pow_right (by norm_num) (by have := h.e_lt; omega)

/-! ## The calls -/

variable {write : α → Outcome α} {read : α → Outcome (α × β)} {x : γ}

/-- A push into a ring with a free slot fills the slot at `D + xs.length`. -/
theorem Holds.push_of_lt (h : Holds w e stores s D xs) (hfit : Fits bd w (D + 2 ^ e + 1))
    (hlen : xs.length < 2 ^ e) (hwrite : ∀ v, ∃ v', write v = .ok v' ∧ stores v' x) :
    ∃ s', push bd w write s = .ok (s', true) ∧ Holds w e stores s' D (xs ++ [x]) := by
  obtain ⟨node, hnode⟩ := h.node xs.length
  have hseq : node.sequence = (D + xs.length) % 2 ^ w := by
    simpa using (h.slot _ hlen node hnode).1
  obtain ⟨v', hw, hv'⟩ := hwrite node.value
  have hidx : s.enqueue_pos &&& s.mask = (D + xs.length) % 2 ^ e := by
    rw [h.enqueue_pos_eq, h.index]
  have hpos : wrapping_add w s.enqueue_pos 1 = (D + (xs.length + 1)) % 2 ^ w := by
    rw [h.enqueue_pos_eq, wrapping_add_mod, Nat.add_assoc]
  -- the slot's sequence number and the position are both `D + xs.length`, below the bound
  have hle := h.enqueue_pos_le
  have hisub : bd.isub w node.sequence s.enqueue_pos = .ok 0 := by
    rw [hfit.isub (by rw [hseq]; have := Nat.mod_le (D + xs.length) (2 ^ w); omega) (by omega),
      hseq, h.enqueue_pos_eq, diff_self]
  have hadd : bd.add w s.enqueue_pos 1 = .ok (wrapping_add w s.enqueue_pos 1) :=
    hfit.add (by omega)
  refine ⟨{ s with
    enqueue_pos := wrapping_add w s.enqueue_pos 1
    buffer := s.buffer.set ((D + xs.length) % 2 ^ e) ⟨wrapping_add w s.enqueue_pos 1, v'⟩ },
    ?_, ?_⟩
  · simp only [push, hidx, hnode, hisub, hadd, hw, Outcome.ok_bind, if_pos]
    rfl
  · refine ⟨h.e_pos, h.e_lt, h.mask_eq, by simp [h.length_buffer], by simpa using hlen,
      h.dequeue_pos_eq, by simpa using hpos, ?_⟩
    intro i hi node' hnode'
    dsimp only at hnode'
    by_cases hin : i = xs.length
    · -- the slot just filled
      subst hin
      rw [List.getElem?_set_self (by simpa [h.length_buffer] using Nat.mod_lt _ (Nat.two_pow_pos e)),
        Option.mem_some_iff] at hnode'
      subst hnode'
      refine ⟨by simp [hpos, Nat.add_assoc], fun _ => ?_⟩
      simp [hv']
    · -- every other slot is as it was
      rw [List.getElem?_set_ne (slot_ne hlen hi (Ne.symm hin))] at hnode'
      obtain ⟨hs, hv⟩ := h.slot i hi node' hnode'
      refine ⟨?_, fun hi' => ?_⟩
      · rw [hs]
        congr 2
        simp only [List.length_append, List.length_singleton]
        split_ifs <;> omega
      · have hi'' : i < xs.length := by simp at hi'; omega
        simpa [List.getElem_append_left hi''] using hv hi''

/-- A push into a full ring finds the slot of `D` still holding its entry: `false`. -/
theorem Holds.push_of_full (h : Holds w e stores s D xs) (hfit : Fits bd w (D + 2 ^ e + 1))
    (hlen : xs.length = 2 ^ e) : push bd w write s = .ok (s, false) := by
  have hzero : 0 < 2 ^ e := Nat.two_pow_pos e
  obtain ⟨node, hnode⟩ := h.node 0
  have hseq : node.sequence = (D + 1) % 2 ^ w := by
    simpa [hlen, hzero] using (h.slot 0 hzero node hnode).1
  have hidx : s.enqueue_pos &&& s.mask = (D + 0) % 2 ^ e := by
    rw [h.enqueue_pos_eq, h.index, hlen, Nat.add_mod_right, Nat.add_zero]
  -- the slot is a lap behind: the difference is `1 - 2 ^ e`
  have hlt : diff w node.sequence s.enqueue_pos < 0 := by
    have hone : 1 < 2 ^ e := Nat.one_lt_two_pow h.e_pos.ne'
    rw [hseq, h.enqueue_pos_eq, diff_mod]
    exact diff_neg (by omega) (by have := h.ring_le_half; omega)
  have hisub : bd.isub w node.sequence s.enqueue_pos = .ok (diff w node.sequence s.enqueue_pos) :=
    hfit.isub (by rw [hseq]; have := Nat.mod_le (D + 1) (2 ^ w); omega)
      (by rw [h.enqueue_pos_eq, hlen]; have := Nat.mod_le (D + 2 ^ e) (2 ^ w); omega)
  simp only [push, hidx, hnode, hisub, Outcome.ok_bind, hlt.ne, if_false, hlt, if_true]
  rfl

/-- A pop from a ring holding `x :: xs` takes `x` from the slot of `D`, which then waits for the
push one lap on. -/
theorem Holds.pop_cons {out : β} (h : Holds w e stores s D (x :: xs))
    (hfit : Fits bd w (D + 2 ^ e + 1)) (hread : ∀ v, stores v x → ∃ v', read v = .ok (v', out)) :
    ∃ s', pop bd w read s = .ok (s', some out) ∧ Holds w e stores s' (D + 1) xs := by
  have hzero : 0 < 2 ^ e := Nat.two_pow_pos e
  obtain ⟨node, hnode⟩ := h.node 0
  obtain ⟨hs, hv⟩ := h.slot 0 hzero node hnode
  have hseq : node.sequence = (D + 1) % 2 ^ w := by simpa using hs
  obtain ⟨v', hr⟩ := hread node.value (hv (Nat.succ_pos _))
  have hidx : s.dequeue_pos &&& s.mask = (D + 0) % 2 ^ e := by
    rw [h.dequeue_pos_eq, h.index, Nat.add_zero]
  have hpos : wrapping_add w s.dequeue_pos 1 = (D + 1) % 2 ^ w := by
    rw [h.dequeue_pos_eq, wrapping_add_mod]
  have hlap : wrapping_add w (wrapping_add w s.dequeue_pos s.mask) 1 = (D + 2 ^ e) % 2 ^ w := by
    rw [h.dequeue_pos_eq, wrapping_add_mod, wrapping_add_mod, h.mask_eq, Nat.add_assoc,
      Nat.sub_add_cancel (Nat.one_le_two_pow)]
  -- the positions and sequence numbers the pop reads and writes reach `D + 2 ^ e`
  have hle := h.dequeue_pos_le
  have hmask : s.mask = 2 ^ e - 1 := h.mask_eq
  have hone : 1 ≤ 2 ^ e := Nat.one_le_two_pow
  have hnext : bd.add w s.dequeue_pos 1 = .ok (wrapping_add w s.dequeue_pos 1) :=
    hfit.add (by omega)
  have hisub : bd.isub w node.sequence (wrapping_add w s.dequeue_pos 1) = .ok 0 := by
    rw [hfit.isub (by rw [hseq]; have := Nat.mod_le (D + 1) (2 ^ w); omega)
      (by rw [hpos]; have := Nat.mod_le (D + 1) (2 ^ w); omega), hseq, hpos, diff_self]
  have hlap₁ : bd.add w s.dequeue_pos s.mask = .ok (wrapping_add w s.dequeue_pos s.mask) :=
    hfit.add (by omega)
  have hlap₂ : bd.add w (wrapping_add w s.dequeue_pos s.mask) 1 =
      .ok (wrapping_add w (wrapping_add w s.dequeue_pos s.mask) 1) :=
    hfit.add (by have := wrapping_add_le w s.dequeue_pos s.mask; omega)
  refine ⟨{ s with
    dequeue_pos := wrapping_add w s.dequeue_pos 1
    buffer := s.buffer.set ((D + 0) % 2 ^ e)
      ⟨wrapping_add w (wrapping_add w s.dequeue_pos s.mask) 1, v'⟩ }, ?_, ?_⟩
  · simp only [pop, hidx, hnode, hnext, hisub, hr, hlap₁, hlap₂, Outcome.ok_bind, if_pos]
    rfl
  · have hlen := h.length_le
    simp only [List.length_cons] at hlen
    refine ⟨h.e_pos, h.e_lt, h.mask_eq, by simp [h.length_buffer], by omega, hpos, ?_, ?_⟩
    · rw [h.enqueue_pos_eq]
      simp only [List.length_cons]
      congr 1
      omega
    intro i hi node' hnode'
    dsimp only at hnode'
    by_cases hlast : i + 1 = 2 ^ e
    · -- the slot just emptied is the last one from `D + 1`
      have hslot : (D + 1 + i) % 2 ^ e = (D + 0) % 2 ^ e := by
        rw [Nat.add_assoc, Nat.add_comm 1 i, hlast, Nat.add_mod_right, Nat.add_zero]
      rw [hslot, List.getElem?_set_self (by simpa [h.length_buffer] using Nat.mod_lt _ hzero),
        Option.mem_some_iff] at hnode'
      subst hnode'
      have hge : ¬ i < xs.length := by omega
      refine ⟨?_, fun hi' => absurd hi' hge⟩
      dsimp only
      rw [if_neg hge, hlap]
      congr 1
      omega
    · -- every other slot moves one place towards the front
      have hslot : (D + 1 + i) % 2 ^ e = (D + (i + 1)) % 2 ^ e := by
        rw [Nat.add_assoc, Nat.add_comm 1 i]
      rw [hslot, List.getElem?_set_ne (slot_ne hzero (by omega) (by omega))] at hnode'
      obtain ⟨hs', hv'⟩ := h.slot (i + 1) (by omega) node' hnode'
      refine ⟨?_, fun hi' => ?_⟩
      · rw [hs']
        congr 1
        simp only [List.length_cons]
        split_ifs <;> omega
      · exact hv' (Nat.succ_lt_succ hi')

/-- A pop from an empty ring finds the slot of `D` still waiting for its push: `none`. -/
theorem Holds.pop_nil (h : Holds w e stores s D []) (hfit : Fits bd w (D + 2 ^ e + 1)) :
    pop bd w read s = .ok (s, none) := by
  have hzero : 0 < 2 ^ e := Nat.two_pow_pos e
  obtain ⟨node, hnode⟩ := h.node 0
  have hseq : node.sequence = D % 2 ^ w := by
    simpa using (h.slot 0 hzero node hnode).1
  have hidx : s.dequeue_pos &&& s.mask = (D + 0) % 2 ^ e := by
    rw [h.dequeue_pos_eq, h.index, Nat.add_zero]
  -- the slot waits for the push at `D`: the difference is `-1`
  have hlt : diff w node.sequence (wrapping_add w s.dequeue_pos 1) < 0 := by
    rw [hseq, h.dequeue_pos_eq, wrapping_add_mod, diff_mod]
    refine diff_neg (by omega) ?_
    have := h.ring_le_half
    have : 1 < 2 ^ e := Nat.one_lt_two_pow h.e_pos.ne'
    omega
  have hle := h.dequeue_pos_le
  have hnext : bd.add w s.dequeue_pos 1 = .ok (wrapping_add w s.dequeue_pos 1) :=
    hfit.add (by omega)
  have hisub : bd.isub w node.sequence (wrapping_add w s.dequeue_pos 1) =
      .ok (diff w node.sequence (wrapping_add w s.dequeue_pos 1)) :=
    hfit.isub (by rw [hseq]; have := Nat.mod_le D (2 ^ w); omega)
      (by have := wrapping_add_le w s.dequeue_pos 1; omega)
  simp only [pop, hidx, hnode, hnext, hisub, Outcome.ok_bind, hlt.ne, if_false, hlt, if_true]
  rfl

/-- A new ring of `2 ^ e` slots holds nothing from position `0`. -/
theorem holds_init {empty : α} (he : 0 < e) (hw : e < w) :
    Holds w e stores (init w (2 ^ e) empty) 0 [] := by
  have hlt : 2 ^ e < 2 ^ w := Nat.pow_lt_pow_right (by norm_num) hw
  refine ⟨he, hw, ?_, by simp [init], by simp, by simp [init], by simp [init], ?_⟩
  · have h1 : 1 ≤ 2 ^ e := Nat.one_le_two_pow
    have h2 : 1 ≤ 2 ^ w := Nat.one_le_two_pow
    simp only [init, wrapping_add]
    rw [show 2 ^ e + (2 ^ w - 1) = 2 ^ e - 1 + 2 ^ w by omega, Nat.add_mod_right,
      Nat.mod_eq_of_lt (by omega)]
  · intro i hi node hnode
    rw [Nat.zero_add, Nat.mod_eq_of_lt hi] at hnode
    simp only [init, List.getElem?_map, List.getElem?_range hi, Option.map_some,
      Option.mem_some_iff] at hnode
    subst hnode
    simp [Nat.mod_eq_of_lt (hi.trans hlt)]

end SeqRing
