import Mathlib.Tactic
import Mathlib.Data.List.SplitLengths

/-! # Overwritten windows and chunked storage

`copy_from_slice` into a window, and lists stored in chunks of a fixed size. -/

namespace List

variable {α : Type*}

/-- `xs` with the positions `o, …, o + ys.length - 1` replaced by `ys`. -/
def overwrite (xs : List α) (o : ℕ) (ys : List α) : List α :=
  xs.take o ++ ys ++ xs.drop (o + ys.length)

@[simp] theorem overwrite_nil (xs : List α) (o : ℕ) : xs.overwrite o [] = xs := by
  simp [overwrite]

theorem length_overwrite {xs ys : List α} {o : ℕ} (h : o + ys.length ≤ xs.length) :
    (xs.overwrite o ys).length = xs.length := by
  simp only [overwrite, length_append, length_take, length_drop]
  omega

theorem overwrite_of_length_eq {xs ys : List α} (h : ys.length = xs.length) :
    xs.overwrite 0 ys = ys := by
  simp [overwrite, h]

/-- What a copy of `ys` into the slice `xs[o..]` leaves in `xs`: the slice holds at most
`xs.length - o` elements, so the copy never reaches past the end of `xs`. -/
def write_at (xs : List α) (o : ℕ) (ys : List α) : List α :=
  xs.overwrite o (ys.take (xs.length - o))

@[simp] theorem length_write_at (xs : List α) (o : ℕ) (ys : List α) :
    (xs.write_at o ys).length = xs.length := by
  simp only [write_at, overwrite, length_append, length_take, length_drop]
  omega

theorem write_at_of_le {xs ys : List α} {o : ℕ} (h : o + ys.length ≤ xs.length) :
    xs.write_at o ys = xs.overwrite o ys := by
  rw [write_at, take_of_length_le (by omega)]

theorem write_at_zero (xs ys : List α) :
    xs.write_at 0 ys = ys.take xs.length ++ xs.drop ys.length := by
  rcases Nat.le_total ys.length xs.length with h | h
  · rw [write_at_of_le (by omega), overwrite, take_of_length_le h]
    simp
  · rw [write_at, Nat.sub_zero, overwrite, drop_eq_nil_of_le h]
    simp [h]

/-- A write that starts inside `xs` puts its first `xs.length - o` elements into `xs` and
the rest at the front of `zs`. -/
theorem overwrite_append {xs zs ys : List α} {o : ℕ} (ho : o ≤ xs.length) :
    (xs ++ zs).overwrite o ys =
      xs.overwrite o (ys.take (xs.length - o)) ++ zs.overwrite 0 (ys.drop (xs.length - o)) := by
  unfold overwrite
  rw [take_append_of_le_length ho]
  by_cases hfit : ys.length ≤ xs.length - o
  · have hdrop : ys.drop (xs.length - o) = [] := drop_eq_nil_of_le hfit
    rw [take_of_length_le hfit, hdrop, drop_append_of_le_length (by omega)]
    simp
  · have hk : o + (xs.length - o) = xs.length := by omega
    have hlen : (ys.take (xs.length - o)).length = xs.length - o := by
      simp only [length_take]
      omega
    rw [hlen, hk, drop_length, drop_append,
      drop_eq_nil_of_le (by omega : xs.length ≤ o + ys.length), length_drop, take_zero, zero_add]
    simp only [append_nil, nil_append, append_assoc]
    rw [← append_assoc (ys.take _), take_append_drop]
    congr 3
    omega

theorem overwrite_overwrite {xs us vs : List α} {o : ℕ} (h : o + us.length ≤ xs.length) :
    (xs.overwrite o us).overwrite (o + us.length) vs = xs.overwrite o (us ++ vs) := by
  have hlen : (xs.take o ++ us).length = o + us.length := by
    simp only [length_append, length_take]
    omega
  unfold overwrite
  rw [take_append_of_le_length (le_of_eq hlen.symm), take_of_length_le (le_of_eq hlen),
    drop_append, drop_eq_nil_of_le (by omega), hlen, nil_append, drop_drop]
  simp only [length_append, append_assoc]
  congr 4
  omega

theorem take_drop_split (l : List α) {d n m : ℕ} (h : n ≤ m) :
    (l.drop d).take m = (l.drop d).take n ++ (l.drop (d + n)).take (m - n) := by
  rw [← drop_drop, ← take_add]
  congr 1
  omega

theorem overwrite_append_left {xs zs ys : List α} {o : ℕ} (h : o + ys.length ≤ xs.length) :
    (xs ++ zs).overwrite o ys = xs.overwrite o ys ++ zs := by
  rw [overwrite_append (by omega), take_of_length_le (by omega), drop_eq_nil_of_le (by omega),
    overwrite_nil]

theorem overwrite_append_right {xs zs ys : List α} {o : ℕ} (h : xs.length ≤ o) :
    (xs ++ zs).overwrite o ys = xs ++ zs.overwrite (o - xs.length) ys := by
  unfold overwrite
  rw [take_append, take_of_length_le h, drop_append, drop_eq_nil_of_le (by omega)]
  simp only [nil_append, append_assoc]
  congr 4
  omega

theorem take_drop_append {xs zs : List α} {o n : ℕ} (ho : o ≤ xs.length) :
    ((xs ++ zs).drop o).take n = (xs.drop o).take n ++ zs.take (n - (xs.length - o)) := by
  rw [drop_append_of_le_length ho, take_append, length_drop]

theorem take_add_one_of_drop {l l' : List α} {k : ℕ} {x : α} (h : l.drop k = x :: l') :
    l.take (k + 1) = l.take k ++ [x] := by
  have hx : l[k]? = some x := by
    rw [← Nat.add_zero k, ← getElem?_drop, h]
    rfl
  rw [take_add_one, hx]
  rfl

theorem drop_add_one_of_drop {l l' : List α} {k : ℕ} {x : α} (h : l.drop k = x :: l') :
    l.drop (k + 1) = l' := by
  rw [← drop_drop, h, drop_one, tail_cons]

theorem foldl_add_length (L : List (List α)) (a : ℕ) :
    L.foldl (fun acc x => acc + x.length) a = a + (L.map length).sum := by
  induction L generalizing a with
  | nil => simp
  | cons b L ih => simp [ih, Nat.add_assoc]

theorem splitLengths_map_length_flatten (L : List (List α)) :
    (L.map length).splitLengths L.flatten = L := by
  induction L with
  | nil => rfl
  | cons b L ih => simp [ih]

/-! ## Chunked storage -/

/-- Every chunk but the last holds exactly `B` elements, and the last holds between `1` and
`B`. -/
def Chunked (B : ℕ) : List (List α) → Prop
  | [] => True
  | [b] => 0 < b.length ∧ b.length ≤ B
  | b :: c :: rest => b.length = B ∧ Chunked B (c :: rest)

@[simp] theorem chunked_nil (B : ℕ) : Chunked B ([] : List (List α)) := trivial

theorem chunked_singleton {B : ℕ} {b : List α} : Chunked B [b] ↔ 0 < b.length ∧ b.length ≤ B :=
  Iff.rfl

theorem chunked_cons_cons {B : ℕ} {b c : List α} {rest : List (List α)} :
    Chunked B (b :: c :: rest) ↔ b.length = B ∧ Chunked B (c :: rest) :=
  Iff.rfl

theorem Chunked.of_map_length {B : ℕ} :
    ∀ {bufs bufs' : List (List α)}, bufs'.map length = bufs.map length →
      Chunked B bufs → Chunked B bufs'
  | [], [], _, _ => trivial
  | [b], [b'], h, hc => by
      simp only [map_cons, map_nil, cons.injEq, and_true] at h
      rw [chunked_singleton, h]
      exact hc
  | b :: c :: rest, b' :: c' :: rest', h, hc => by
      simp only [map_cons, cons.injEq] at h
      obtain ⟨hb, hc', hrest⟩ := h
      have htail : (c' :: rest').map length = (c :: rest).map length := by simp [hc', hrest]
      exact ⟨hb ▸ hc.1, Chunked.of_map_length htail hc.2⟩
  | [], _ :: _, h, _ => by simp at h
  | _ :: _, [], h, _ => by simp at h
  | [_], _ :: _ :: _, h, _ => by simp at h
  | _ :: _ :: _, [_], h, _ => by simp at h

theorem Chunked.length_le {B : ℕ} :
    ∀ {bufs : List (List α)}, Chunked B bufs → ∀ b ∈ bufs, b.length ≤ B
  | [], _, _, hb => by simp at hb
  | [b], hc, _, hb => by
      rw [mem_singleton] at hb
      exact hb ▸ hc.2
  | b :: c :: rest, hc, d, hd => by
      rcases mem_cons.mp hd with rfl | hd
      · exact hc.1.le
      · exact Chunked.length_le hc.2 d hd

theorem Chunked.getLast_pos {B : ℕ} :
    ∀ {bufs : List (List α)}, Chunked B bufs → bufs ≠ [] → 0 < (bufs.getLastD []).length
  | [], _, h => absurd rfl h
  | [_], hc, _ => hc.1
  | _ :: c :: rest, hc, _ => by
      have := Chunked.getLast_pos hc.2 (cons_ne_nil c rest)
      simpa [getLastD_eq_getLast?] using this

theorem Chunked.length_flatten {B : ℕ} :
    ∀ {bufs : List (List α)}, Chunked B bufs → bufs ≠ [] →
      bufs.flatten.length = (bufs.length - 1) * B + (bufs.getLastD []).length
  | [], _, h => absurd rfl h
  | [b], _, _ => by simp
  | b :: c :: rest, hc, _ => by
      have ih := Chunked.length_flatten hc.2 (cons_ne_nil c rest)
      simp only [flatten_cons, length_append, length_cons] at ih ⊢
      rw [hc.1, ih]
      simp only [getLastD_eq_getLast?, getLast?_cons_cons, Nat.add_sub_cancel]
      ring

theorem chunked_append {B : ℕ} {xs ys : List (List α)} (hx : ∀ b ∈ xs, b.length = B)
    (hy : Chunked B ys) (hne : ys ≠ []) : Chunked B (xs ++ ys) := by
  induction xs with
  | nil => simpa using hy
  | cons b xs ih =>
      have hb : b.length = B := hx b mem_cons_self
      have hxs : ∀ d ∈ xs, d.length = B := fun d hd => hx d (mem_cons_of_mem b hd)
      cases hxs' : xs ++ ys with
      | nil => exact absurd (append_eq_nil_iff.mp hxs').2 hne
      | cons c rest =>
          rw [cons_append, hxs']
          exact ⟨hb, hxs' ▸ ih hxs⟩

theorem chunked_of_full {B : ℕ} (hB : 0 < B) {xs : List (List α)} (hx : ∀ b ∈ xs, b.length = B) :
    Chunked B xs := by
  induction xs with
  | nil => trivial
  | cons b xs ih =>
      have hb : b.length = B := hx b mem_cons_self
      cases xs with
      | nil => exact ⟨hb ▸ hB, hb.le⟩
      | cons c rest => exact ⟨hb, ih fun d hd => hx d (mem_cons_of_mem b hd)⟩

theorem Chunked.dropLast_full {B : ℕ} :
    ∀ {bufs : List (List α)}, Chunked B bufs → ∀ b ∈ bufs.dropLast, b.length = B
  | [], _, _, hb => by simp at hb
  | [_], _, _, hb => by simp at hb
  | b :: c :: rest, hc, d, hd => by
      rw [dropLast_cons_cons] at hd
      rcases mem_cons.mp hd with rfl | hd
      · exact hc.1
      · exact Chunked.dropLast_full hc.2 d hd

theorem Chunked.tail {B : ℕ} {b : List α} {rest : List (List α)} (h : Chunked B (b :: rest)) :
    Chunked B rest := by
  cases rest with
  | nil => trivial
  | cons c rest => exact h.2

theorem Chunked.drop {B : ℕ} :
    ∀ (i : ℕ) {bufs : List (List α)}, Chunked B bufs → Chunked B (bufs.drop i)
  | 0, _, h => h
  | _ + 1, [], _ => trivial
  | i + 1, _ :: _, h => Chunked.drop i h.tail

theorem length_flatten_of_full {B : ℕ} {xs : List (List α)} (h : ∀ b ∈ xs, b.length = B) :
    xs.flatten.length = xs.length * B := by
  induction xs with
  | nil => simp
  | cons b xs ih =>
      have hxs : ∀ d ∈ xs, d.length = B := fun d hd => h d (mem_cons_of_mem b hd)
      rw [flatten_cons, length_append, h b mem_cons_self, ih hxs, length_cons]
      ring

theorem Chunked.take_full {B : ℕ} {bufs : List (List α)} (h : Chunked B bufs) {i : ℕ}
    (hi : i < bufs.length) : ∀ b ∈ bufs.take i, b.length = B := by
  intro b hb
  apply h.dropLast_full b
  rw [dropLast_eq_take]
  exact take_subset_take_left bufs (by omega) hb

theorem Chunked.flatten_drop {B : ℕ} {bufs : List (List α)} (h : Chunked B bufs) {i : ℕ}
    (hi : i < bufs.length) : (bufs.drop i).flatten = bufs.flatten.drop (i * B) := by
  have hlen : (bufs.take i).flatten.length = i * B := by
    rw [length_flatten_of_full (h.take_full hi), length_take, Nat.min_eq_left hi.le]
  rw [← take_append_drop i bufs, flatten_append, ← hlen, drop_append_length, take_append_drop]

theorem Chunked.flatten_take {B : ℕ} {bufs : List (List α)} (h : Chunked B bufs) {i : ℕ}
    (hi : i < bufs.length) : (bufs.take i).flatten.length = i * B := by
  rw [length_flatten_of_full (h.take_full hi), length_take, Nat.min_eq_left hi.le]

theorem Chunked.mod_lt_of_lt {B : ℕ} (hB : 0 < B) :
    ∀ {bufs : List (List α)} {p : ℕ}, Chunked B bufs → p < bufs.flatten.length →
      p / B < bufs.length ∧ p % B < ((bufs.drop (p / B)).headD []).length
  | [], _, _, hp => by simp at hp
  | [b], p, hc, hp => by
      have hpB : p < B := lt_of_lt_of_le (by simpa using hp) hc.2
      simp only [Nat.div_eq_of_lt hpB, Nat.mod_eq_of_lt hpB, drop_zero, headD_cons, length_cons]
      exact ⟨Nat.zero_lt_one, by simpa using hp⟩
  | b :: c :: rest, p, hc, hp => by
      by_cases hpB : p < B
      · simp only [Nat.div_eq_of_lt hpB, Nat.mod_eq_of_lt hpB, drop_zero, headD_cons, length_cons]
        exact ⟨by omega, hc.1 ▸ hpB⟩
      · have hle : B ≤ p := Nat.le_of_not_lt hpB
        have hrest : p - B < (c :: rest).flatten.length := by
          simp only [flatten_cons, length_append] at hp ⊢
          rw [hc.1] at hp
          omega
        obtain ⟨hq, hoff⟩ := Chunked.mod_lt_of_lt hB hc.2 hrest
        rw [Nat.div_eq_sub_div hB hle, Nat.mod_eq_sub_mod hle, drop_succ_cons]
        exact ⟨by simp only [length_cons] at hq ⊢; omega, hoff⟩

/-! ## Ranges walked in steps -/

/-- `(start..stop).step_by(step)`. -/
def stepBy (start stop step : ℕ) : List ℕ := range' start ((stop - start + step - 1) / step) step

theorem mem_stepBy {start stop step x : ℕ} (hstep : 0 < step) :
    x ∈ stepBy start stop step ↔ start ≤ x ∧ x < stop ∧ (x - start) % step = 0 := by
  simp only [stepBy, mem_range']
  constructor
  · rintro ⟨i, hi, rfl⟩
    -- `i < ⌈(stop - start) / step⌉` is `step * i < stop - start`
    have hlt : step * i < stop - start := by
      have := (Nat.le_div_iff_mul_le hstep).mp (Nat.succ_le_of_lt hi)
      rw [Nat.succ_mul, Nat.mul_comm] at this
      omega
    refine ⟨by omega, by omega, ?_⟩
    rw [Nat.add_sub_cancel_left, Nat.mul_mod_right]
  · rintro ⟨hlo, hhi, hdvd⟩
    obtain ⟨i, hi⟩ := Nat.dvd_of_mod_eq_zero hdvd
    refine ⟨i, ?_, by omega⟩
    apply Nat.lt_of_succ_le
    rw [Nat.le_div_iff_mul_le hstep, Nat.succ_mul, Nat.mul_comm]
    omega

end List
