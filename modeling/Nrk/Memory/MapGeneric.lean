import Nrk.Memory.PageTableSpec

/-! # `map_generic` on a range of any size

A range is mapped without a panic when the entries its loops reach after their first hold no
leftover table (`MapGuard`). -/

namespace Nrk.Memory

/-- A PDPT entry that points to a PD with a present entry: `can_map_as_huge_page` keeps it. -/
def Slot.in_use (s : Slot PD) : Bool :=
  s.next.elim false fun pd => !all_entries_empty (fun s => s.entry.is_present) pd

namespace PageTable

/-! ## Where the loops look -/

/-- The entries that the loops of `map_generic` on `[v, v + r)` at physical `p` reach after
their first one hold no table. A 2 MiB loop runs over the blocks where the physical address is
2 MiB aligned, and starts at the first block of the range and at each PD; a 1 GiB loop starts at
the first block of the range, at each PDPT, and after a block whose PD it had to keep. -/
structure MapGuard (pt : PageTable) (v p r : ℕ) : Prop where
  no_pt : ∀ b, b % LARGE_PAGE_SIZE = 0 → (p + b - v) % LARGE_PAGE_SIZE = 0 →
    v + LARGE_PAGE_SIZE ≤ b → b + LARGE_PAGE_SIZE ≤ v + r → b % HUGE_PAGE_SIZE ≠ 0 →
    (pt.pd_slot b).next = none
  no_pd : ∀ c, c % HUGE_PAGE_SIZE = 0 → (p + c - v) % HUGE_PAGE_SIZE = 0 →
    v + HUGE_PAGE_SIZE ≤ c → c + HUGE_PAGE_SIZE ≤ v + r → c % PML4_SLOT_SIZE ≠ 0 →
    (pt.pdpt_slot c).next = none ∨ (pt.pdpt_slot (c - HUGE_PAGE_SIZE)).in_use = true

theorem mapGuard_of_lt {pt : PageTable} {v p r : ℕ} (hr : r < 2 * LARGE_PAGE_SIZE) :
    MapGuard pt v p r where
  no_pt _ _ _ h₁ h₂ := absurd hr (by omega)
  no_pd _ _ _ h₁ h₂ := absurd hr (by simp only [HUGE_PAGE_SIZE, LARGE_PAGE_SIZE] at *; omega)

/-- `pt'` maps `[v, v + m)` to `[p, p + m)` with `rights`, each address by a page that lies in
the range, and maps every other address below `2 ^ 48` as `pt` does. -/
structure MapsRange (pt pt' : PageTable) (v p m : ℕ) (rights : MapAction) : Prop where
  wf : pt'.Wf
  frame_empty : pt'.frame_empty = pt.frame_empty
  inside : ∀ w, v ≤ w → w < v + m → ∃ l, pt'.walk w = some l ∧
    l.translate w = (p + (w - v), { rights with present := true, not_cached := false }) ∧
    ∀ u < 2 ^ 48, l.Covers u w → v ≤ u ∧ u < v + m
  outside : ∀ w < 2 ^ 48, ¬ (v ≤ w ∧ w < v + m) → pt'.walk w = pt.walk w

theorem MapsRange.trans {pt₁ pt₂ pt₃ : PageTable} {v p m m' : ℕ} {rights : MapAction}
    (h₁ : MapsRange pt₁ pt₂ v p m rights) (h₂ : MapsRange pt₂ pt₃ (v + m) (p + m) m' rights)
    (hend : v + m ≤ 2 ^ 48) : MapsRange pt₁ pt₃ v p (m + m') rights where
  wf := h₂.wf
  frame_empty := h₂.frame_empty.trans h₁.frame_empty
  inside w hlo hhi := by
    by_cases hw : w < v + m
    · -- mapped by the first part, which the second leaves alone
      obtain ⟨l, hl, htr, hcov⟩ := h₁.inside w hlo hw
      refine ⟨l, ?_, htr, fun u hu hc => ?_⟩
      · rw [h₂.outside w (by omega) (by omega), hl]
      · have := hcov u hu hc
        omega
    · obtain ⟨l, hl, htr, hcov⟩ := h₂.inside w (by omega) (by omega)
      refine ⟨l, hl, ?_, fun u hu hc => ?_⟩
      · rw [htr]
        congr 1
        omega
      · have := hcov u hu hc
        omega
  outside w hw hout := by
    rw [h₂.outside w hw (by omega), h₁.outside w hw (by omega)]

theorem MapsRange.of_sameMaps {pt₁ pt₂ pt₃ : PageTable} {v p m : ℕ} {rights : MapAction}
    (h : MapsRange pt₂ pt₃ v p m rights) (h₀ : SameMaps pt₁ pt₂) : MapsRange pt₁ pt₃ v p m rights where
  wf := h.wf
  frame_empty := h.frame_empty.trans h₀.frame_empty
  inside := h.inside
  outside w hw hout := (h.outside w hw hout).trans (h₀.walk w)

/-- What one step leaves of the entries off its path: the PDPT entries off the 1 GiB block of
`v` and the PD entries off its 2 MiB block, outside the range `[v, v + m)` its loop wrote. -/
structure StepFrame (pt pt' : PageTable) (v m : ℕ) : Prop where
  pdpt : ∀ w < 2 ^ 48, ¬ SameHugeBlock w v → ¬ (v ≤ w ∧ w < v + m) →
    pt'.pdpt_slot w = pt.pdpt_slot w
  pd : ∀ w < 2 ^ 48, ¬ SameLargeBlock w v → ¬ (v ≤ w ∧ w < v + m) → pt'.pd_slot w = pt.pd_slot w

theorem MapGuard.rest {pt pt' : PageTable} {v p r m : ℕ} (hg : MapGuard pt v p r)
    (hframe : StepFrame pt pt' v m) (hend : v + r ≤ 2 ^ 48) (hpos : 0 < m) (hm : m ≤ r) :
    MapGuard pt' (v + m) (p + m) (r - m) where
  no_pt b hb hpb hlo hhi hpd := by
    have hb48 : b < 2 ^ 48 := by simp only [LARGE_PAGE_SIZE] at hhi; omega
    -- the block starts after `v`, so on another PD entry
    have hoff : ¬ SameLargeBlock b v := fun hs => by
      rw [sameLargeBlock_iff hb48 (by omega)] at hs
      simp only [LARGE_PAGE_SIZE] at hs hb
      omega
    rw [hframe.pd b hb48 hoff (by omega)]
    exact hg.no_pt b hb (by rw [show p + b - v = p + m + b - (v + m) by omega]; exact hpb)
      (by omega) (by omega) hpd
  no_pd c hc hpc hlo hhi hpml4 := by
    have hc48 : c < 2 ^ 48 := by simp only [HUGE_PAGE_SIZE] at hhi; omega
    -- the blocks from the end of the step on lie on other PDPT entries
    have hoff : ∀ c', c' % HUGE_PAGE_SIZE = 0 → v + m ≤ c' → c' < 2 ^ 48 →
        pt'.pdpt_slot c' = pt.pdpt_slot c' := fun c' hc' hlo' hc'48 => by
      refine hframe.pdpt c' hc'48 (fun hs => ?_) (by omega)
      rw [sameHugeBlock_iff hc'48 (by omega)] at hs
      simp only [HUGE_PAGE_SIZE] at hs hc'
      omega
    have hprev : (c - HUGE_PAGE_SIZE) % HUGE_PAGE_SIZE = 0 := by
      simp only [HUGE_PAGE_SIZE] at hc ⊢
      omega
    rw [hoff c hc (by omega) hc48, hoff (c - HUGE_PAGE_SIZE) hprev (by omega) (by omega)]
    exact hg.no_pd c hc (by rw [show p + c - v = p + m + c - (v + m) by omega]; exact hpc)
      (by omega) (by omega) hpml4

/-! ## The insert loops -/

section insert_loop

variable {α : Type} {entry : α → Entry} {page : ℕ → α} {page_size : ℕ} {continues : ℕ → Bool}
  {rights : MapAction} {vbase pbase : ℕ}

/-- `table` with `n` pages from entry `idx` on, the `t`-th at `pbase + mapped + t * page_size`:
what an insert loop that finds those entries free returns. -/
def fill (table : Table α) (page : ℕ → α) (page_size pbase idx mapped n : ℕ) : Table α :=
  fun x => if idx ≤ x.val ∧ x.val < idx + n then page (pbase + mapped + (x.val - idx) * page_size)
    else table x

theorem insert_loop_done {table : Table α} {idx mapped : ℕ} {insert_mapping : Bool}
    (hc : continues mapped = false) :
    insert_loop entry page page_size continues rights insert_mapping vbase pbase table idx mapped =
      .ok (table, .ok mapped) := by
  rw [insert_loop, dif_neg (by simp [hc])]

/-- A loop that runs `n` steps over free entries fills them with pages. -/
theorem insert_loop_fill {table : Table α} {idx mapped : ℕ} (n : ℕ) (hn : idx + n ≤ 512)
    (hc : ∀ t < n, continues (mapped + t * page_size) = true)
    (hstop : continues (mapped + n * page_size) = false ∨ idx + n = 512)
    (hfree : ∀ x : Fin 512, idx ≤ x.val → x.val < idx + n → (entry (table x)).is_present = false) :
    insert_loop entry page page_size continues rights true vbase pbase table idx mapped =
      .ok (fill table page page_size pbase idx mapped n, .ok (mapped + n * page_size)) := by
  induction n generalizing table idx mapped with
  | zero =>
      have hguard : ¬ (continues mapped = true ∧ idx < 512) := by
        rintro ⟨hcont, hidx⟩
        rcases hstop with h | h
        · simp only [zero_mul, add_zero, hcont, Bool.true_eq_false] at h
        · omega
      rw [insert_loop, dif_neg hguard, zero_mul, add_zero]
      congr 2
      funext x
      simp [fill]
  | succ n ih =>
      have hidx : idx < 512 := by omega
      have hc₀ : continues mapped = true := by simpa using hc 0 (by omega)
      have hfree₀ : (entry (table ⟨idx, hidx⟩)).is_present = false :=
        hfree ⟨idx, hidx⟩ le_rfl (by simp)
      rw [insert_loop, dif_pos ⟨hc₀, hidx⟩]
      simp only [hfree₀, Bool.false_eq_true, false_and, Bool.not_true, if_false]
      -- the rest of the loop starts one entry and one page further on
      have hstep : ∀ t, mapped + page_size + t * page_size = mapped + (t + 1) * page_size :=
        fun t => by ring
      rw [ih (by omega) (fun t ht => by rw [hstep]; exact hc (t + 1) (by omega))
        (by rw [hstep]; rcases hstop with h | h; exacts [.inl h, .inr (by omega)])
        (fun x hlo hhi => by
          rw [Function.update_of_ne (fun h => by rw [h] at hlo; simp at hlo)]
          exact hfree x (by omega) (by omega)), hstep]
      congr 2
      funext x
      by_cases hx : x.val = idx
      · have : x = ⟨idx, hidx⟩ := Fin.ext hx
        subst this
        simp [fill]
      · rw [fill, fill, Function.update_of_ne (fun h => hx (by rw [h]))]
        by_cases hin : idx + 1 ≤ x.val ∧ x.val < idx + 1 + n
        · rw [if_pos hin, if_pos ⟨by omega, by omega⟩]
          congr 1
          have : x.val - idx = x.val - (idx + 1) + 1 := by omega
          rw [this]
          ring
        · rw [if_neg hin, if_neg (by omega)]

theorem fill_of_forall {P : α → Prop} {table : Table α} (ht : ∀ x, P (table x))
    (hp : ∀ a, P (page a)) (pbase idx mapped n : ℕ) (x : Fin 512) :
    P (fill table page page_size pbase idx mapped n x) := by
  unfold fill
  split_ifs
  exacts [hp _, ht x]

end insert_loop

/-- A loop of pages of `ps` bytes over `r` bytes from entry `idx` runs `min (r / ps) (512 - idx)`
steps: the 1 GiB and 2 MiB loops, whose guard asks for a whole page. -/
theorem sized_loop_steps {ps r idx : ℕ} (hps : 0 < ps) :
    (∀ t < min (r / ps) (512 - idx),
      (decide (0 + t * ps < r) && decide (ps ≤ r - (0 + t * ps))) = true) ∧
    ((decide (0 + min (r / ps) (512 - idx) * ps < r) &&
      decide (ps ≤ r - (0 + min (r / ps) (512 - idx) * ps))) = false ∨
      idx + min (r / ps) (512 - idx) = 512 ∨ 512 < idx) := by
  refine ⟨fun t ht => ?_, ?_⟩
  · -- a whole page is left at every step before the last
    have h₁ : (t + 1) * ps ≤ r :=
      le_trans (Nat.mul_le_mul_right ps (by omega)) (Nat.div_mul_le_self r ps)
    have h₂ : (t + 1) * ps = t * ps + ps := by ring
    simp only [Bool.and_eq_true, decide_eq_true_eq]
    omega
  · rcases le_total (r / ps) (512 - idx) with h | h
    · rw [min_eq_left h]
      left
      have hlt : r < r / ps * ps + ps := Nat.lt_div_mul_add hps
      simp only [Bool.and_eq_false_iff, decide_eq_false_iff_not, not_le, not_lt]
      right
      omega
    · rw [min_eq_right h]
      right
      omega

/-! ## One step of 1 GiB pages -/

variable {pt : PageTable} {v : ℕ}

theorem huge_region_iff {v w n : ℕ} (hv : v % HUGE_PAGE_SIZE = 0) (hvlt : v < 2 ^ 48)
    (hw : w < 2 ^ 48) (hn : (pdpt_index v).val + n ≤ 512) :
    (pml4_index w = pml4_index v ∧ (pdpt_index v).val ≤ (pdpt_index w).val ∧
      (pdpt_index w).val < (pdpt_index v).val + n) ↔ v ≤ w ∧ w < v + n * HUGE_PAGE_SIZE := by
  simp only [pml4_index, pdpt_index, Fin.ext_iff, HUGE_PAGE_SIZE] at *
  omega

theorem huge_offset {v w : ℕ} (hv : v % HUGE_PAGE_SIZE = 0) (hw : w < 2 ^ 48)
    (hi : pml4_index w = pml4_index v) (hj : (pdpt_index v).val ≤ (pdpt_index w).val)
    (hvw : v ≤ w) :
    ((pdpt_index w).val - (pdpt_index v).val) * HUGE_PAGE_SIZE + w % HUGE_PAGE_SIZE = w - v := by
  simp only [pml4_index, pdpt_index, Fin.ext_iff, HUGE_PAGE_SIZE] at *
  omega

theorem write_pdpt_slots {pdpt : PDPT} (h : pt.pdpt_at (pml4_index v) = some pdpt) (s : Slot PD)
    {w : ℕ} (hw : ¬ SameHugeBlock w v) :
    (pt.with_pdpt (pml4_index v) (Function.update pdpt (pdpt_index v) s)).pdpt_slot w =
      pt.pdpt_slot w := by
  rw [pdpt_slot_with_pdpt h]
  split_ifs with hi
  · rw [Function.update_of_ne (fun hj => hw ⟨hi, hj⟩),
      pdpt_slot_of_pdpt_at (by rw [hi]; exact h)]
  · rfl

/-- `can_map_as_huge_page` where the walk finds nothing at `v`: a 1 GiB page can start at `v`
when `v` and `pbase` are 1 GiB aligned, at least 1 GiB is left, and the PDPT entry of `v` holds
no PD with a present entry; a PD without one is reclaimed. -/
theorem can_map_as_huge_page_spec (hwf : pt.Wf) {pdpt : PDPT}
    (h : pt.pdpt_at (pml4_index v) = some pdpt) (hfree : pt.walk v = none) (pbase psize : ℕ) :
    ∃ pt' huge, pt.can_map_as_huge_page pbase psize v = .ok (pt', huge) ∧
      (huge = false → pt' = pt ∧ (v % HUGE_PAGE_SIZE = 0 → v < 2 ^ 48 →
        pbase % HUGE_PAGE_SIZE = 0 → HUGE_PAGE_SIZE ≤ psize → (pdpt (pdpt_index v)).in_use = true)) ∧
      (huge = true → v % HUGE_PAGE_SIZE = 0 ∧ v < 2 ^ 48 ∧ pbase % HUGE_PAGE_SIZE = 0 ∧
        HUGE_PAGE_SIZE ≤ psize ∧ (pdpt (pdpt_index v)).in_use = false ∧ SameMaps pt pt' ∧
        (pt'.pdpt_slot v).entry.is_present = false ∧
        ∀ w, ¬ SameHugeBlock w v → pt'.pdpt_slot w = pt.pdpt_slot w) := by
  have hhere : v = PML4_SLOT_SIZE * ↑(pml4_index v) + HUGE_PAGE_SIZE * ↑(pdpt_index v) ↔
      v % HUGE_PAGE_SIZE = 0 ∧ v < 2 ^ 48 := by
    simp only [PML4_SLOT_SIZE, HUGE_PAGE_SIZE, pml4_index, pdpt_index]
    omega
  unfold can_map_as_huge_page
  dsimp only
  rw [hwf.deref_pdpt h, Outcome.ok_bind]
  by_cases hc : v = PML4_SLOT_SIZE * ↑(pml4_index v) + HUGE_PAGE_SIZE * ↑(pdpt_index v) ∧
      pbase % HUGE_PAGE_SIZE = 0 ∧ HUGE_PAGE_SIZE ≤ psize
  swap
  · -- not a 1 GiB start
    rw [if_pos hc]
    exact ⟨pt, false, rfl, fun _ => ⟨rfl, fun h₁ h₂ h₃ h₄ => absurd ⟨hhere.mpr ⟨h₁, h₂⟩, h₃, h₄⟩ hc⟩,
      fun h => absurd h (by simp)⟩
  obtain ⟨hv, hvlt⟩ := hhere.mp hc.1
  rw [if_neg (not_not.mpr hc)]
  have hslot : pt.pdpt_slot v = pdpt (pdpt_index v) := pdpt_slot_of_pdpt_at h
  cases hp : (pdpt (pdpt_index v)).entry.is_present with
  | false =>
      have hnone : (pdpt (pdpt_index v)).next = none := Slot.next_eq_none (by simp [hp])
      refine ⟨pt, true, by simp, fun h => absurd h (by simp), fun _ =>
        ⟨hv, hvlt, hc.2.1, hc.2.2, by simp [Slot.in_use, hnone], SameMaps.refl hwf,
          by rw [hslot, hp], fun _ _ => rfl⟩⟩
  | true =>
      -- a PD, since the walk finds no page at `v`
      have hnot := not_huge_of_walk_eq_none h hfree
      obtain ⟨pd, hpd⟩ := Slot.exists_next hp (by simpa [hp] using hnot)
      have hpd_at := pd_at_of_next h hpd
      simp only [Bool.not_true, Bool.false_eq_true, if_false, hwf.pdpt_entry_ne h hpd, hpd_at,
        Option.elim_some, Outcome.ok_bind]
      cases hall : all_entries_empty (fun s => s.entry.is_present) pd with
      | false =>
          refine ⟨pt, false, by simp, fun _ => ⟨rfl, fun _ _ _ _ => ?_⟩, fun h => absurd h (by simp)⟩
          simp [Slot.in_use, hpd, hall]
      | true =>
          -- the PD maps nothing and is reclaimed
          have hempty : ∀ k, (pd k).entry.is_present = false := by
            intro k
            simp only [all_entries_empty, List.all_eq_true, List.mem_finRange, true_implies,
              Bool.not_eq_eq_eq_not, Bool.not_true] at hall
            exact hall k
          refine ⟨pt.with_pdpt (pml4_index v) (Function.update pdpt (pdpt_index v) Slot.absent),
            true, by simp, fun h => absurd h (by simp), fun _ =>
            ⟨hv, hvlt, hc.2.1, hc.2.2, by simp [Slot.in_use, hpd, hall],
              ⟨hwf.with_pdpt ((hwf.wfPDPT h).update Slot.wf_absent), fun w => ?_, rfl⟩,
              ?_, fun w hw => write_pdpt_slots h _ hw⟩⟩
          · rw [walk_write_pdpt h]
            split_ifs with hw
            · rw [walk_eq_walk_pd hpd_at hw]
              simp [walk_pd, walk_pd_slot_of_not_present (hempty _)]
            · rfl
          · rw [pdpt_slot_with_pdpt h]
            simp

theorem indices_add_huge {t : ℕ} (hv : v % HUGE_PAGE_SIZE = 0)
    (ht : (pdpt_index v).val + t < 512) :
    pml4_index (v + t * HUGE_PAGE_SIZE) = pml4_index v ∧
      (pdpt_index (v + t * HUGE_PAGE_SIZE)).val = (pdpt_index v).val + t := by
  simp only [pml4_index, pdpt_index, Fin.ext_iff, HUGE_PAGE_SIZE] at ht hv ⊢
  omega

/-- 1 GiB pages from `v` on, into PDPT entries that hold nothing: `insert_huge_mappings` maps
as many as fit in the PDPT and in the range. -/
theorem insert_huge_mappings_spec (hwf : pt.Wf) {p r : ℕ} (hv : v % HUGE_PAGE_SIZE = 0)
    (hend : v + r ≤ 2 ^ 48) (hr : HUGE_PAGE_SIZE ≤ r)
    (hfree : ∀ t, (pdpt_index v).val + t < 512 → (t + 1) * HUGE_PAGE_SIZE ≤ r →
      (pt.pdpt_slot (v + t * HUGE_PAGE_SIZE)).entry.is_present = false)
    (rights : MapAction) :
    ∃ pt' m, pt.insert_huge_mappings (pdpt_index v) v p r rights true = .ok (pt', .ok m) ∧
      0 < m ∧ m ≤ r ∧ m % HUGE_PAGE_SIZE = 0 ∧ MapsRange pt pt' v p m rights ∧
      ∀ w < 2 ^ 48, ¬ (v ≤ w ∧ w < v + m) → pt'.pdpt_slot w = pt.pdpt_slot w := by
  have hvlt : v < 2 ^ 48 := by simp only [HUGE_PAGE_SIZE] at hr; omega
  obtain ⟨pt₁, pdpt₁, hget, hsame, hpdpt₁, hslots⟩ := get_or_alloc_pdpt_spec hwf v
  have hj := (pdpt_index v).isLt
  obtain ⟨hsteps, hstop⟩ := @sized_loop_steps HUGE_PAGE_SIZE r (pdpt_index v).val
    (by decide)
  set n := min (r / HUGE_PAGE_SIZE) (512 - (pdpt_index v).val) with hn
  have hn_pos : 0 < n := by
    have : 1 ≤ r / HUGE_PAGE_SIZE := (Nat.one_le_div_iff (by decide)).mpr hr
    omega
  have hn_le : n * HUGE_PAGE_SIZE ≤ r :=
    le_trans (Nat.mul_le_mul_right _ (min_le_left _ _)) (Nat.div_mul_le_self r _)
  -- the entries the loop writes are free
  have hloop := @insert_loop_fill (Slot PD) Slot.entry
    (fun a => Slot.leaf ⟨a, { rights.to_pdpt_rights with P := true, PS := true }⟩ rfl)
    HUGE_PAGE_SIZE (fun mapped => mapped < r && HUGE_PAGE_SIZE ≤ r - mapped)
    rights v p pdpt₁ (pdpt_index v).val 0 n (by omega)
    hsteps (by rcases hstop with h | h | h; exacts [.inl h, .inr h, absurd h (by omega)])
    (fun x hlo hhi => by
      obtain ⟨hi, hx⟩ := indices_add_huge (t := x.val - (pdpt_index v).val) hv (by omega)
      have hslot := pdpt_slot_of_pdpt_at (w := v + (x.val - (pdpt_index v).val) * HUGE_PAGE_SIZE)
        (by rw [hi]; exact hpdpt₁)
      rw [show pdpt_index (v + (x.val - (pdpt_index v).val) * HUGE_PAGE_SIZE) = x
        from Fin.ext (by rw [hx]; omega), hslots] at hslot
      rw [← hslot]
      refine hfree _ (by omega) ?_
      have : x.val - (pdpt_index v).val + 1 ≤ n := by omega
      exact le_trans (Nat.mul_le_mul_right _ this) hn_le)
  set T := fill pdpt₁ (fun a => Slot.leaf ⟨a, { rights.to_pdpt_rights with P := true, PS := true }⟩
    rfl) HUGE_PAGE_SIZE p (pdpt_index v).val 0 n
  -- the region of the loop, read through the indices
  have hregion : ∀ w < 2 ^ 48, (pml4_index w = pml4_index v ∧ (pdpt_index v).val ≤ (pdpt_index w).val ∧
      (pdpt_index w).val < (pdpt_index v).val + n) ↔ v ≤ w ∧ w < v + (0 + n * HUGE_PAGE_SIZE) :=
    fun w hw => by rw [zero_add]; exact huge_region_iff hv hvlt hw (by omega)
  have hframe : ∀ w < 2 ^ 48, ¬ (v ≤ w ∧ w < v + (0 + n * HUGE_PAGE_SIZE)) →
      (pt₁.with_pdpt (pml4_index v) T).pdpt_slot w = pt.pdpt_slot w := by
    intro w hw hout
    rw [pdpt_slot_with_pdpt hpdpt₁, ← hslots w]
    split_ifs with hi
    · have hnot := mt (hregion w hw).mp hout
      rw [show T (pdpt_index w) = pdpt₁ (pdpt_index w) from if_neg fun h => hnot ⟨hi, h⟩,
        pdpt_slot_of_pdpt_at (by rw [hi]; exact hpdpt₁)]
    · rfl
  refine ⟨pt₁.with_pdpt (pml4_index v) T, 0 + n * HUGE_PAGE_SIZE, ?_,
    by rw [zero_add]; exact Nat.mul_pos hn_pos (by decide), by omega,
    by simp [HUGE_PAGE_SIZE], ⟨?_, ?_, fun w hlo hhi => ?_, fun w hw hout => ?_⟩, hframe⟩
  · unfold insert_huge_mappings
    rw [hget, Outcome.ok_bind]
    dsimp only
    rw [hloop, Outcome.ok_bind]
    rfl
  · exact hsame.wf.with_pdpt (fill_of_forall (P := Slot.Wf WfPD) (hsame.wf.wfPDPT hpdpt₁)
      (fun _ => Slot.wf_leaf _ _) _ _ _ _)
  · simp [with_pdpt_eq, set_pml4, hsame.frame_empty]
  · -- inside the range: the 1 GiB page of its entry
    have hw : w < 2 ^ 48 := by omega
    obtain ⟨hi, hlo', hhi'⟩ := (hregion w hw).mpr ⟨hlo, hhi⟩
    refine ⟨.huge ⟨p + 0 + ((pdpt_index w).val - (pdpt_index v).val) * HUGE_PAGE_SIZE,
      { rights.to_pdpt_rights with P := true, PS := true }⟩, ?_, ?_, fun u hu hcov => ?_⟩
    · rw [walk_with_pdpt hpdpt₁, if_pos hi, walk_pdpt,
        show T (pdpt_index w) = _ from if_pos ⟨hlo', hhi'⟩]
      simp [walk_pdpt_slot, Entry.is_present, Entry.is_page]
    · simp only [Leaf.translate, Leaf.entry, Leaf.size, Prod.mk.injEq]
      refine ⟨?_, MapAction.from_flags_to_rights rights true⟩
      have := huge_offset hv hw hi hlo' hlo
      omega
    · obtain ⟨hu₄, hu₃⟩ := hcov
      have := (hregion u hu).mp ⟨hu₄.trans hi, hu₃ ▸ hlo', hu₃ ▸ hhi'⟩
      omega
  · exact walk_congr_pdpt_slot (hframe w hw hout)

/-! ## One step of 2 MiB pages -/

theorem large_region_iff {w n : ℕ} (hv : v % LARGE_PAGE_SIZE = 0) (hvlt : v < 2 ^ 48)
    (hw : w < 2 ^ 48) (hn : (pd_index v).val + n ≤ 512) :
    (SameHugeBlock w v ∧ (pd_index v).val ≤ (pd_index w).val ∧
      (pd_index w).val < (pd_index v).val + n) ↔ v ≤ w ∧ w < v + n * LARGE_PAGE_SIZE := by
  simp only [SameHugeBlock, pml4_index, pdpt_index, pd_index, Fin.ext_iff, LARGE_PAGE_SIZE] at *
  omega

theorem large_offset {w : ℕ} (hv : v % LARGE_PAGE_SIZE = 0) (hw : w < 2 ^ 48)
    (hs : SameHugeBlock w v) (hk : (pd_index v).val ≤ (pd_index w).val) (hvw : v ≤ w) :
    ((pd_index w).val - (pd_index v).val) * LARGE_PAGE_SIZE + w % LARGE_PAGE_SIZE = w - v := by
  simp only [SameHugeBlock, pml4_index, pdpt_index, pd_index, Fin.ext_iff, LARGE_PAGE_SIZE] at *
  omega

theorem indices_add_large {t : ℕ} (hv : v % LARGE_PAGE_SIZE = 0)
    (ht : (pd_index v).val + t < 512) :
    SameHugeBlock (v + t * LARGE_PAGE_SIZE) v ∧
      (pd_index (v + t * LARGE_PAGE_SIZE)).val = (pd_index v).val + t := by
  simp only [SameHugeBlock, pml4_index, pdpt_index, pd_index, Fin.ext_iff, LARGE_PAGE_SIZE]
    at ht hv ⊢
  omega

/-- 2 MiB pages from `v` on, into PD entries that hold nothing: `insert_large_mappings` maps as
many as fit in the PD and in the range. -/
theorem insert_large_mappings_spec (hwf : pt.Wf) {e : Entry} (hne : e.address ≠ 0) {pd : PD}
    (h : pt.pd_at (pml4_index v) (pdpt_index v) = some pd) {p r : ℕ}
    (hv : v % LARGE_PAGE_SIZE = 0) (hend : v + r ≤ 2 ^ 48) (hr : LARGE_PAGE_SIZE ≤ r)
    (hfree : ∀ t, (pd_index v).val + t < 512 → (t + 1) * LARGE_PAGE_SIZE ≤ r →
      (pt.pd_slot (v + t * LARGE_PAGE_SIZE)).entry.is_present = false)
    (rights : MapAction) :
    ∃ pt' m, pt.insert_large_mappings e v p r rights true = .ok (pt', .ok m) ∧
      0 < m ∧ m ≤ r ∧ m % LARGE_PAGE_SIZE = 0 ∧ MapsRange pt pt' v p m rights ∧
      (∀ w, ¬ SameHugeBlock w v → pt'.pdpt_slot w = pt.pdpt_slot w) ∧
      ∀ w < 2 ^ 48, ¬ (v ≤ w ∧ w < v + m) → pt'.pd_slot w = pt.pd_slot w := by
  have hvlt : v < 2 ^ 48 := by simp only [LARGE_PAGE_SIZE] at hr; omega
  have hk := (pd_index v).isLt
  obtain ⟨hsteps, hstop⟩ := @sized_loop_steps LARGE_PAGE_SIZE r (pd_index v).val
    (by decide)
  set n := min (r / LARGE_PAGE_SIZE) (512 - (pd_index v).val) with hn
  have hn_pos : 0 < n := by
    have : 1 ≤ r / LARGE_PAGE_SIZE := (Nat.one_le_div_iff (by decide)).mpr hr
    omega
  have hn_le : n * LARGE_PAGE_SIZE ≤ r :=
    le_trans (Nat.mul_le_mul_right _ (min_le_left _ _)) (Nat.div_mul_le_self r _)
  -- the entries the loop writes are free
  have hloop := @insert_loop_fill (Slot PT) Slot.entry
    (fun a => Slot.leaf ⟨a, { rights.to_pd_rights with P := true, PS := true }⟩ rfl)
    LARGE_PAGE_SIZE (fun mapped => mapped < r && LARGE_PAGE_SIZE ≤ r - mapped)
    rights v p pd (pd_index v).val 0 n (by omega)
    hsteps (by rcases hstop with h | h | h; exacts [.inl h, .inr h, absurd h (by omega)])
    (fun x hlo hhi => by
      obtain ⟨hs, hx⟩ := indices_add_large (t := x.val - (pd_index v).val) hv (by omega)
      have hslot := pd_slot_of_pd_at (w := v + (x.val - (pd_index v).val) * LARGE_PAGE_SIZE)
        (by rw [hs.1, hs.2]; exact h)
      rw [show pd_index (v + (x.val - (pd_index v).val) * LARGE_PAGE_SIZE) = x
        from Fin.ext (by rw [hx]; omega)] at hslot
      rw [← hslot]
      refine hfree _ (by omega) ?_
      have : x.val - (pd_index v).val + 1 ≤ n := by omega
      exact le_trans (Nat.mul_le_mul_right _ this) hn_le)
  set T := fill pd (fun a => Slot.leaf ⟨a, { rights.to_pd_rights with P := true, PS := true }⟩
    rfl) LARGE_PAGE_SIZE p (pd_index v).val 0 n
  have hregion : ∀ w < 2 ^ 48, (SameHugeBlock w v ∧ (pd_index v).val ≤ (pd_index w).val ∧
      (pd_index w).val < (pd_index v).val + n) ↔ v ≤ w ∧ w < v + (0 + n * LARGE_PAGE_SIZE) :=
    fun w hw => by rw [zero_add]; exact large_region_iff hv hvlt hw (by omega)
  -- off the loop's entries the PD keeps its slots
  have hkeep : ∀ w < 2 ^ 48, SameHugeBlock w v → ¬ (v ≤ w ∧ w < v + (0 + n * LARGE_PAGE_SIZE)) →
      T (pd_index w) = pd (pd_index w) := fun w hw hs hout =>
    if_neg fun hin => (mt (hregion w hw).mp hout) ⟨hs, hin⟩
  refine ⟨pt.with_pd (pml4_index v) (pdpt_index v) T, 0 + n * LARGE_PAGE_SIZE, ?_,
    by rw [zero_add]; exact Nat.mul_pos hn_pos (by decide), by omega,
    by simp [LARGE_PAGE_SIZE], ⟨?_, ?_, fun w hlo hhi => ?_, fun w hw hout => ?_⟩,
    fun w hw => pdpt_slot_with_pd h T hw, fun w hw hout => ?_⟩
  · unfold insert_large_mappings
    simp only [deref_ok hne h, Outcome.ok_bind]
    rw [hloop, Outcome.ok_bind]
    rfl
  · exact hwf.with_pd h (fill_of_forall (P := Slot.Wf fun _ => True) (hwf.wfPD h)
      (fun _ => Slot.wf_leaf _ _) _ _ _ _)
  · simp [with_pd_eq, set_pml4]
  · -- inside the range: the 2 MiB page of its entry
    have hw : w < 2 ^ 48 := by omega
    obtain ⟨hs, hlo', hhi'⟩ := (hregion w hw).mpr ⟨hlo, hhi⟩
    refine ⟨.large ⟨p + 0 + ((pd_index w).val - (pd_index v).val) * LARGE_PAGE_SIZE,
      { rights.to_pd_rights with P := true, PS := true }⟩, ?_, ?_, fun u hu hcov => ?_⟩
    · rw [walk_with_pd h, if_pos (show pml4_index w = pml4_index v ∧
        pdpt_index w = pdpt_index v from hs), walk_pd,
        show T (pd_index w) = _ from if_pos ⟨hlo', hhi'⟩]
      simp [walk_pd_slot, Entry.is_present, Entry.is_page]
    · simp only [Leaf.translate, Leaf.entry, Leaf.size, Prod.mk.injEq]
      refine ⟨?_, MapAction.from_flags_to_rights rights true⟩
      have := large_offset hv hw hs hlo' hlo
      omega
    · obtain ⟨hu₄, hu₃, hu₂⟩ := hcov
      have := (hregion u hu).mp ⟨⟨hu₄.trans hs.1, hu₃.trans hs.2⟩, hu₂ ▸ hlo', hu₂ ▸ hhi'⟩
      omega
  · rw [walk_with_pd h]
    split_ifs with hs
    · rw [walk_pd, hkeep w hw hs hout, ← walk_pd, walk_eq_walk_pd h hs]
    · rfl
  · rw [pd_slot_with_pd h]
    split_ifs with hs
    · rw [hkeep w hw hs hout, pd_slot_of_pd_at (by rw [hs.1, hs.2]; exact h)]
    · rfl

/-! ## One step of 4 KiB pages -/

theorem base_region_iff {w n : ℕ} (hv : v % BASE_PAGE_SIZE = 0) (hvlt : v < 2 ^ 48)
    (hw : w < 2 ^ 48) (hn : (pt_index v).val + n ≤ 512) :
    (SameLargeBlock w v ∧ (pt_index v).val ≤ (pt_index w).val ∧
      (pt_index w).val < (pt_index v).val + n) ↔ v ≤ w ∧ w < v + n * BASE_PAGE_SIZE := by
  simp only [SameLargeBlock, pml4_index, pdpt_index, pd_index, pt_index, Fin.ext_iff,
    BASE_PAGE_SIZE] at *
  omega

theorem base_offset {w : ℕ} (hv : v % BASE_PAGE_SIZE = 0) (hw : w < 2 ^ 48)
    (hs : SameLargeBlock w v) (hl : (pt_index v).val ≤ (pt_index w).val) (hvw : v ≤ w) :
    ((pt_index w).val - (pt_index v).val) * BASE_PAGE_SIZE + w % BASE_PAGE_SIZE = w - v := by
  simp only [SameLargeBlock, pml4_index, pdpt_index, pd_index, pt_index, Fin.ext_iff,
    BASE_PAGE_SIZE] at *
  omega

theorem indices_add_base {t : ℕ} (hv : v % BASE_PAGE_SIZE = 0)
    (ht : (pt_index v).val + t < 512) :
    SameLargeBlock (v + t * BASE_PAGE_SIZE) v ∧
      (pt_index (v + t * BASE_PAGE_SIZE)).val = (pt_index v).val + t := by
  simp only [SameLargeBlock, pml4_index, pdpt_index, pd_index, pt_index, Fin.ext_iff,
    BASE_PAGE_SIZE] at ht hv ⊢
  omega

/-- 4 KiB pages from `v` on, where the walk finds nothing: `insert_base_mappings` maps as many as
fit in the PT and in the range. -/
theorem insert_base_mappings_spec (hwf : pt.Wf) {pd : PD}
    (h : pt.pd_at (pml4_index v) (pdpt_index v) = some pd) {ptab : PT}
    (hpt : (pd (pd_index v)).next = some ptab) {p r : ℕ} (hv : v % BASE_PAGE_SIZE = 0)
    (hend : v + r ≤ 2 ^ 48) (hr : r % BASE_PAGE_SIZE = 0) (hpos : 0 < r)
    (hfree : ∀ w, v ≤ w → w < v + r → pt.walk w = none) (rights : MapAction) :
    ∃ pt' m, pt.insert_base_mappings (pd (pd_index v)).entry v p r rights true =
        .ok (pt', .ok m) ∧
      0 < m ∧ m ≤ r ∧ m % BASE_PAGE_SIZE = 0 ∧ MapsRange pt pt' v p m rights ∧
      (∀ w, ¬ SameHugeBlock w v → pt'.pdpt_slot w = pt.pdpt_slot w) ∧
      ∀ w, ¬ SameLargeBlock w v → pt'.pd_slot w = pt.pd_slot w := by
  have hvlt : v < 2 ^ 48 := by omega
  have hpt_at := pt_at_of_next h hpt
  have hl := (pt_index v).isLt
  set n := min (r / BASE_PAGE_SIZE) (512 - (pt_index v).val) with hn
  have hr' : r / BASE_PAGE_SIZE * BASE_PAGE_SIZE = r := Nat.div_mul_cancel (Nat.dvd_of_mod_eq_zero hr)
  have hn_pos : 0 < n := by
    have : 0 < r / BASE_PAGE_SIZE := Nat.div_pos (by simp only [BASE_PAGE_SIZE] at hr ⊢; omega)
      (by decide)
    omega
  have hn_le : n * BASE_PAGE_SIZE ≤ r := by
    rw [← hr']
    exact Nat.mul_le_mul_right _ (min_le_left _ _)
  have hloop := @insert_loop_fill Entry id
    (fun a => ⟨a, { rights.to_pt_rights with P := true }⟩)
    BASE_PAGE_SIZE (fun mapped => mapped < r)
    rights v p ptab (pt_index v).val 0 n (by omega)
    (fun t ht => by
      have : (t + 1) * BASE_PAGE_SIZE ≤ r := le_trans (Nat.mul_le_mul_right _ (by omega)) hn_le
      simp only [decide_eq_true_eq]
      rw [add_mul, one_mul] at this
      simp only [BASE_PAGE_SIZE] at this ⊢
      omega)
    (by
      rcases le_total (r / BASE_PAGE_SIZE) (512 - (pt_index v).val) with hle | hle
      · left
        rw [hn, min_eq_left hle, zero_add, hr']
        simp
      · right
        rw [hn, min_eq_right hle]
        omega)
    (fun x hlo hhi => by
      -- the entry of an address of the range, where the walk finds nothing
      obtain ⟨hs, hx⟩ := indices_add_base (t := x.val - (pt_index v).val) hv (by omega)
      have hwalk := hfree (v + (x.val - (pt_index v).val) * BASE_PAGE_SIZE) (by omega) (by
        have : x.val - (pt_index v).val + 1 ≤ n := by omega
        have := le_trans (Nat.mul_le_mul_right BASE_PAGE_SIZE this) hn_le
        rw [add_mul, one_mul] at this
        have : 0 < BASE_PAGE_SIZE := by decide
        omega)
      rw [walk_eq_walk_pt hpt_at hs, walk_pt, show pt_index (v + (x.val - (pt_index v).val) *
        BASE_PAGE_SIZE) = x from Fin.ext (by rw [hx]; omega)] at hwalk
      simpa [walk_pt_entry] using hwalk)
  set T := fill ptab (fun a => (⟨a, { rights.to_pt_rights with P := true }⟩ : Entry))
    BASE_PAGE_SIZE p (pt_index v).val 0 n
  have hregion : ∀ w < 2 ^ 48, (SameLargeBlock w v ∧ (pt_index v).val ≤ (pt_index w).val ∧
      (pt_index w).val < (pt_index v).val + n) ↔ v ≤ w ∧ w < v + (0 + n * BASE_PAGE_SIZE) :=
    fun w hw => by rw [zero_add]; exact base_region_iff hv hvlt hw (by omega)
  refine ⟨pt.with_pt (pml4_index v) (pdpt_index v) (pd_index v) T, 0 + n * BASE_PAGE_SIZE, ?_,
    by rw [zero_add]; exact Nat.mul_pos hn_pos (by decide), by omega,
    by simp [BASE_PAGE_SIZE], ⟨hwf.with_pt hpt_at T, ?_, fun w hlo hhi => ?_, fun w hw hout => ?_⟩,
    fun w hw => pdpt_slot_with_pt hpt_at T hw, fun w hw => pd_slot_with_pt hpt_at T hw⟩
  · unfold insert_base_mappings
    simp only [deref_ok (hwf.pd_entry_ne h hpt) hpt_at, Outcome.ok_bind]
    rw [hloop, Outcome.ok_bind]
    rfl
  · simp [with_pt_eq, set_pml4]
  · -- inside the range: the 4 KiB page of its entry
    have hw : w < 2 ^ 48 := by omega
    obtain ⟨hs, hlo', hhi'⟩ := (hregion w hw).mpr ⟨hlo, hhi⟩
    refine ⟨.base ⟨p + 0 + ((pt_index w).val - (pt_index v).val) * BASE_PAGE_SIZE,
      { rights.to_pt_rights with P := true }⟩, ?_, ?_, fun u hu hcov => ?_⟩
    · rw [walk_with_pt hpt_at, if_pos (show pml4_index w = pml4_index v ∧
        pdpt_index w = pdpt_index v ∧ pd_index w = pd_index v from hs), walk_pt,
        show T (pt_index w) = _ from if_pos ⟨hlo', hhi'⟩]
      simp [walk_pt_entry, Entry.is_present]
    · simp only [Leaf.translate, Leaf.entry, Leaf.size, Prod.mk.injEq]
      refine ⟨?_, MapAction.from_flags_to_rights rights false⟩
      have := base_offset hv hw hs hlo' hlo
      omega
    · obtain ⟨hu₄, hu₃, hu₂, hu₁⟩ := hcov
      have := (hregion u hu).mp ⟨⟨hu₄.trans hs.1, hu₃.trans hs.2.1, hu₂.trans hs.2.2⟩,
        hu₁ ▸ hlo', hu₁ ▸ hhi'⟩
      omega
  · rw [walk_with_pt hpt_at]
    split_ifs with hs
    · rw [walk_pt, show T (pt_index w) = ptab (pt_index w) from
        if_neg fun hin => (mt (hregion w hw).mp hout) ⟨hs, hin⟩, ← walk_pt,
        walk_eq_walk_pt hpt_at hs]
    · rfl

/-! ## One step of `map_generic` -/

theorem pdpt_slot_not_present {w : ℕ} (hfree : pt.walk w = none)
    (hnext : (pt.pdpt_slot w).next = none) : (pt.pdpt_slot w).entry.is_present = false := by
  cases h : pt.pdpt_at (pml4_index w) with
  | none => simp [pdpt_slot, h]
  | some pdpt =>
      rw [pdpt_slot_of_pdpt_at h] at hnext ⊢
      have hnot := not_huge_of_walk_eq_none h hfree
      cases hp : (pdpt (pdpt_index w)).entry.is_present
      · rfl
      · obtain ⟨pd, hpd⟩ := Slot.exists_next hp (by simpa [hp] using hnot)
        rw [hnext] at hpd
        cases hpd

theorem pd_slot_not_present {w : ℕ} (hfree : pt.walk w = none)
    (hnext : (pt.pd_slot w).next = none) : (pt.pd_slot w).entry.is_present = false := by
  cases h : pt.pd_at (pml4_index w) (pdpt_index w) with
  | none =>
      rw [pd_at_eq_next] at h
      simp [pd_slot, h]
  | some pd =>
      rw [pd_slot_of_pd_at h] at hnext ⊢
      have hnot := not_large_of_walk_eq_none h hfree
      cases hp : (pd (pd_index w)).entry.is_present
      · rfl
      · obtain ⟨ptab, hpt⟩ := Slot.exists_next hp (by simpa [hp] using hnot)
        rw [hnext] at hpt
        cases hpt

/-- On a 2 MiB block the walk finds nothing where it finds nothing on the block's addresses
below `2 ^ 48`. -/
theorem walk_eq_none_of_large_block (hv : v % LARGE_PAGE_SIZE = 0)
    (hfree : ∀ w, v ≤ w → w < v + LARGE_PAGE_SIZE → pt.walk w = none) :
    ∀ w, SameLargeBlock w v → pt.walk w = none := by
  intro w hw
  obtain ⟨hblock, hl⟩ := sameLargeBlock_add hv (pt_index w)
  rw [walk_congr (show SameBlock w (v + (pt_index w).val * BASE_PAGE_SIZE) from
    ⟨hw.1.trans hblock.1.symm, hw.2.1.trans hblock.2.1.symm, hw.2.2.trans hblock.2.2.symm,
      hl.symm⟩)]
  have := (pt_index w).isLt
  exact hfree _ (by omega) (by simp only [LARGE_PAGE_SIZE, BASE_PAGE_SIZE]; omega)

theorem can_map_as_large_page_of_not {e : Entry} (hne : e.address ≠ 0) {pd : PD}
    (h : pt.pd_at (pml4_index v) (pdpt_index v) = some pd) {pbase psize : ℕ}
    (hc : ¬ (v % LARGE_PAGE_SIZE = 0 ∧ v < 2 ^ 48 ∧ pbase % LARGE_PAGE_SIZE = 0 ∧
      LARGE_PAGE_SIZE ≤ psize)) :
    pt.can_map_as_large_page e pbase psize v = .ok (pt, false) := by
  unfold can_map_as_large_page
  dsimp only
  rw [deref_ok hne h, Outcome.ok_bind, if_pos fun hw => hc ⟨?_, ?_, hw.2.1, hw.2.2⟩]
  all_goals
    have := hw.1
    simp only [PML4_SLOT_SIZE, HUGE_PAGE_SIZE, LARGE_PAGE_SIZE, pml4_index, pdpt_index,
      pd_index] at this ⊢
    omega

theorem map_pd_level_spec (hwf : pt.Wf) {e : Entry} (hne : e.address ≠ 0) {pd : PD}
    (h : pt.pd_at (pml4_index v) (pdpt_index v) = some pd) {p r : ℕ}
    (hv : v % BASE_PAGE_SIZE = 0) (hr : r % BASE_PAGE_SIZE = 0) (hpos : 0 < r)
    (hend : v + r ≤ 2 ^ 48) (hfree : ∀ w, v ≤ w → w < v + r → pt.walk w = none)
    (hno_pt : ∀ b, b % LARGE_PAGE_SIZE = 0 → (p + b - v) % LARGE_PAGE_SIZE = 0 →
      v + LARGE_PAGE_SIZE ≤ b → b + LARGE_PAGE_SIZE ≤ v + r → b % HUGE_PAGE_SIZE ≠ 0 →
      (pt.pd_slot b).next = none)
    (rights : MapAction) :
    ∃ pt' m, pt.map_pd_level e v p r rights true = .ok (pt', .ok m) ∧ 0 < m ∧ m ≤ r ∧
      m % BASE_PAGE_SIZE = 0 ∧ MapsRange pt pt' v p m rights ∧
      (∀ w, ¬ SameHugeBlock w v → pt'.pdpt_slot w = pt.pdpt_slot w) ∧
      ∀ w < 2 ^ 48, ¬ SameLargeBlock w v → ¬ (v ≤ w ∧ w < v + m) → pt'.pd_slot w = pt.pd_slot w := by
  have hvlt : v < 2 ^ 48 := by omega
  unfold map_pd_level
  simp only [deref_ok hne h, Outcome.ok_bind]
  by_cases hc : v % LARGE_PAGE_SIZE = 0 ∧ p % LARGE_PAGE_SIZE = 0 ∧ LARGE_PAGE_SIZE ≤ r
  · -- 2 MiB pages, after reclaiming what the first entry holds
    obtain ⟨hv₂, hp₂, hr₂⟩ := hc
    obtain ⟨pt₁, pd₁, hcan, hsame, hpd₁, hslot, hpdpt₁, hpd₁'⟩ :=
      can_map_as_large_page_free hwf hne h hv₂ hvlt hp₂ hr₂
        (walk_eq_none_of_large_block hv₂ fun w hlo hhi => hfree w hlo (by omega))
    have hfree₁ : ∀ t, (pd_index v).val + t < 512 → (t + 1) * LARGE_PAGE_SIZE ≤ r →
        (pt₁.pd_slot (v + t * LARGE_PAGE_SIZE)).entry.is_present = false := by
      intro t ht htr
      rcases Nat.eq_zero_or_pos t with rfl | htpos
      · rw [zero_mul, add_zero, pd_slot_of_pd_at hpd₁]
        exact hslot
      · -- a later entry: the guard leaves no PT there, and the walk no page
        obtain ⟨hs, hk⟩ := indices_add_large (t := t) hv₂ ht
        have hb48 : v + t * LARGE_PAGE_SIZE < 2 ^ 48 := by
          rw [add_mul, one_mul] at htr
          simp only [LARGE_PAGE_SIZE] at htr ⊢
          omega
        have hoff : ¬ SameLargeBlock (v + t * LARGE_PAGE_SIZE) v := fun hl => by
          have := congrArg Fin.val hl.2.2
          omega
        rw [hpd₁' _ hoff]
        refine pd_slot_not_present (hfree _ (by omega) (by
          rw [add_mul, one_mul] at htr
          simp only [LARGE_PAGE_SIZE] at htr ⊢
          omega)) (hno_pt _ ?_ ?_ ?_ ?_ ?_)
        all_goals
          rw [add_mul, one_mul] at htr
          simp only [pd_index, LARGE_PAGE_SIZE, HUGE_PAGE_SIZE] at hv₂ hp₂ htr hk ht htpos ⊢
          omega
    obtain ⟨pt₂, m, hins, hm_pos, hm_le, hm_mod, hmaps, hpdpt₂, hpd₂⟩ :=
      insert_large_mappings_spec hsame.wf hne hpd₁ hv₂ hend hr₂ hfree₁ rights
    refine ⟨pt₂, m, by rw [hcan]; exact hins, hm_pos, hm_le,
      by simp only [LARGE_PAGE_SIZE, BASE_PAGE_SIZE] at hm_mod ⊢; omega,
      hmaps.of_sameMaps hsame, fun w hw => (hpdpt₂ w hw).trans (hpdpt₁ w hw),
      fun w hw hl hout => (hpd₂ w hw hout).trans (hpd₁' w hl)⟩
  · -- 4 KiB pages, in the PT of `v`
    rw [can_map_as_large_page_of_not hne h fun h' => hc ⟨h'.1, h'.2.2.1, h'.2.2.2⟩]
    obtain ⟨pt₁, pd₁, ptab, halloc, hsame, hpd₁, hpt₁, hpdpt₁, hpd₁'⟩ :=
      alloc_pt_spec hwf hne h (hfree v le_rfl (by omega))
    have hnp := Slot.not_page_of_next hpt₁
    simp only [halloc, Outcome.ok_bind, deref_ok hne hpd₁, hnp.1, hnp.2, Bool.not_true,
      Bool.false_eq_true, if_false]
    obtain ⟨pt₂, m, hins, hm_pos, hm_le, hm_mod, hmaps, hpdpt₂, hpd₂⟩ :=
      insert_base_mappings_spec hsame.wf hpd₁ hpt₁ hv hend hr hpos
        (fun w hlo hhi => (hsame.walk w).trans (hfree w hlo hhi)) rights
    exact ⟨pt₂, m, hins, hm_pos, hm_le, hm_mod, hmaps.of_sameMaps hsame,
      fun w hw => (hpdpt₂ w hw).trans (hpdpt₁ w hw),
      fun w _ hl _ => (hpd₂ w hl).trans (hpd₁' w hl)⟩

/-- The PDPT entries that a 1 GiB loop from `v` reaches after its first hold no PD. By induction
on the entry: the guard allows one only after an entry that holds a PD in use, and the entry of
`v`, where the loop started, holds none. -/
theorem no_pd_after {p r : ℕ} (hg : MapGuard pt v p r) (hv : v % HUGE_PAGE_SIZE = 0)
    (hp : p % HUGE_PAGE_SIZE = 0) (hstart : (pt.pdpt_slot v).in_use = false) :
    ∀ t, 1 ≤ t → (pdpt_index v).val + t < 512 → (t + 1) * HUGE_PAGE_SIZE ≤ r →
      (pt.pdpt_slot (v + t * HUGE_PAGE_SIZE)).next = none := by
  -- the guard at the `t`-th block after `v`
  have hguard : ∀ t, 1 ≤ t → (pdpt_index v).val + t < 512 → (t + 1) * HUGE_PAGE_SIZE ≤ r →
      (pt.pdpt_slot (v + t * HUGE_PAGE_SIZE)).next = none ∨
        (pt.pdpt_slot (v + (t - 1) * HUGE_PAGE_SIZE)).in_use = true := by
    intro t ht hj htr
    obtain ⟨-, hk⟩ := indices_add_huge (t := t) hv hj
    have hprev : v + t * HUGE_PAGE_SIZE - HUGE_PAGE_SIZE = v + (t - 1) * HUGE_PAGE_SIZE := by
      rw [Nat.sub_mul, one_mul]
      have : HUGE_PAGE_SIZE ≤ t * HUGE_PAGE_SIZE := Nat.le_mul_of_pos_left _ ht
      omega
    rw [← hprev]
    refine hg.no_pd _ ?_ ?_ ?_ ?_ ?_
    all_goals
      rw [add_mul, one_mul] at htr
      simp only [pdpt_index, PML4_SLOT_SIZE, HUGE_PAGE_SIZE] at hv hp htr hk hj ⊢
      omega
  intro t ht
  induction t, ht using Nat.le_induction with
  | base =>
      intro hj htr
      rcases hguard 1 le_rfl hj htr with h | h
      · exact h
      · rw [Nat.sub_self, zero_mul, add_zero, hstart] at h
        cases h
  | succ t ht ih =>
      intro hj htr
      rcases hguard (t + 1) (by omega) hj htr with h | h
      · exact h
      · have hnone := ih (by omega) (le_trans (Nat.mul_le_mul_right _ (by omega)) htr)
        rw [Nat.add_sub_cancel, Slot.in_use, hnone] at h
        cases h

/-- One `map_step` on `[v, v + r)` where the walk finds nothing and the guard holds maps a first
part `[v, v + m)` of the range, a whole number of pages, and changes no entry off its path
outside that part. -/
theorem map_step_spec (hwf : pt.Wf) {p r : ℕ} (hv : v % BASE_PAGE_SIZE = 0)
    (hp : p % BASE_PAGE_SIZE = 0) (hr : r % BASE_PAGE_SIZE = 0) (hpos : 0 < r)
    (hend : v + r ≤ 2 ^ 48) (hfree : ∀ w, v ≤ w → w < v + r → pt.walk w = none)
    (hg : MapGuard pt v p r) (rights : MapAction) :
    ∃ pt' m, pt.map_step v p r rights true = .ok (pt', .ok m) ∧ 0 < m ∧ m ≤ r ∧
      m % BASE_PAGE_SIZE = 0 ∧ MapsRange pt pt' v p m rights ∧ StepFrame pt pt' v m := by
  have hvlt : v < 2 ^ 48 := by omega
  obtain ⟨pt₁, pdpt₁, hget, hsame₁, hpdpt₁, hslots₁⟩ := get_or_alloc_pdpt_spec hwf v
  have hfree₁ : ∀ w, v ≤ w → w < v + r → pt₁.walk w = none :=
    fun w hlo hhi => (hsame₁.walk w).trans (hfree w hlo hhi)
  obtain ⟨pt₂, huge, hcan, hno, hyes⟩ :=
    can_map_as_huge_page_spec hsame₁.wf hpdpt₁ (hfree₁ v le_rfl (by omega)) p r
  rw [map_step, if_neg (not_not.mpr ⟨hp, hv, hr⟩)]
  simp only [hget, Outcome.ok_bind, hcan]
  cases huge with
  | true =>
      -- 1 GiB pages
      obtain ⟨hv₃, -, hp₃, hr₃, hidle, hsame₂, hslot₂, hslots₂⟩ := hyes rfl
      have hstart : (pt.pdpt_slot v).in_use = false := by
        rw [← hslots₁, pdpt_slot_of_pdpt_at hpdpt₁]
        exact hidle
      have hfree₂ : ∀ t, (pdpt_index v).val + t < 512 → (t + 1) * HUGE_PAGE_SIZE ≤ r →
          (pt₂.pdpt_slot (v + t * HUGE_PAGE_SIZE)).entry.is_present = false := by
        intro t hj htr
        rcases Nat.eq_zero_or_pos t with rfl | htpos
        · rw [zero_mul, add_zero]
          exact hslot₂
        · have hc48 : v + t * HUGE_PAGE_SIZE < v + r := by
            rw [add_mul, one_mul] at htr
            simp only [HUGE_PAGE_SIZE] at htr ⊢
            omega
          have hoff : ¬ SameHugeBlock (v + t * HUGE_PAGE_SIZE) v := fun hs => by
            have := congrArg Fin.val hs.2
            rw [(indices_add_huge (t := t) hv₃ hj).2] at this
            omega
          rw [hslots₂ _ hoff, hslots₁]
          exact pdpt_slot_not_present (hfree _ (by omega) hc48)
            (no_pd_after hg hv₃ hp₃ hstart t htpos hj htr)
      obtain ⟨pt₃, m, hins, hm_pos, hm_le, hm_mod, hmaps, hframe⟩ :=
        insert_huge_mappings_spec hsame₂.wf hv₃ hend hr₃ hfree₂ rights
      -- the whole 1 GiB block of `v` lies in the part mapped
      have hblock : ∀ w < 2 ^ 48, SameHugeBlock w v → v ≤ w ∧ w < v + m := fun w hw hs => by
        rw [sameHugeBlock_iff hw hvlt] at hs
        have : HUGE_PAGE_SIZE ≤ m := Nat.le_of_dvd hm_pos (Nat.dvd_of_mod_eq_zero hm_mod)
        simp only [HUGE_PAGE_SIZE] at hv₃ hs this ⊢
        omega
      have hpdpt : ∀ w < 2 ^ 48, ¬ (v ≤ w ∧ w < v + m) → pt₃.pdpt_slot w = pt.pdpt_slot w :=
        fun w hw hout => by
          rw [hframe w hw hout, hslots₂ w (fun hs => hout (hblock w hw hs)), hslots₁]
      refine ⟨pt₃, m, hins, hm_pos, hm_le,
        by simp only [HUGE_PAGE_SIZE, BASE_PAGE_SIZE] at hm_mod ⊢; omega,
        (hmaps.of_sameMaps hsame₂).of_sameMaps hsame₁,
        ⟨fun w hw _ hout => hpdpt w hw hout,
          fun w hw _ hout => pd_slot_congr (hpdpt w hw hout)⟩⟩
  | false =>
      -- a PD, then the PD level
      obtain ⟨rfl, -⟩ := hno rfl
      obtain ⟨pt₃, pdpt₃, pd₃, halloc, hsame₃, hpdpt₃, hpd₃, hslots₃, hpd_slots₃⟩ :=
        alloc_pd_spec hsame₁.wf hpdpt₁ (hfree₁ v le_rfl (by omega))
      have hnp := Slot.not_page_of_next hpd₃
      simp only [Bool.false_eq_true, if_false, halloc, Outcome.ok_bind,
        hsame₃.wf.deref_pdpt hpdpt₃, hnp.1, hnp.2, Bool.not_true]
      have hpd_slot : ∀ w, pt₃.pd_slot w = pt.pd_slot w := fun w => by
        rw [hpd_slots₃, pd_slot_congr (hslots₁ w)]
      obtain ⟨pt₄, m, hlevel, hm_pos, hm_le, hm_mod, hmaps, hpdpt₄, hpd₄⟩ :=
        map_pd_level_spec hsame₃.wf (hsame₃.wf.pdpt_entry_ne hpdpt₃ hpd₃)
          (pd_at_of_next hpdpt₃ hpd₃) hv hr hpos hend
          (fun w hlo hhi => (hsame₃.walk w).trans (hfree₁ w hlo hhi))
          (fun b h₁ h₂ h₃ h₄ h₅ => by rw [hpd_slot]; exact hg.no_pt b h₁ h₂ h₃ h₄ h₅) rights
      refine ⟨pt₄, m, hlevel, hm_pos, hm_le, hm_mod,
        (hmaps.of_sameMaps hsame₃).of_sameMaps hsame₁,
        ⟨fun w _ hs _ => by rw [hpdpt₄ w hs, hslots₃ w hs, hslots₁],
          fun w hw hl hout => by rw [hpd₄ w hw hl hout, hpd_slot]⟩⟩

/-! ## The recursion of `map_generic` -/

theorem map_generic_of_map_step_lt {p r m : ℕ} {rights : MapAction} {insert_mapping : Bool}
    {pt' : PageTable} (h : pt.map_step v p r rights insert_mapping = .ok (pt', .ok m))
    (hm : m < r) :
    pt.map_generic v p r rights insert_mapping =
      pt'.map_generic (v + m) (p + m) (r - m) rights insert_mapping := by
  rw [map_generic]
  split
  · simp_all
  · simp_all
  · rename_i pt₁ m₁ hstep
    rw [h] at hstep
    obtain ⟨rfl, rfl⟩ : pt' = pt₁ ∧ m = m₁ := by simpa using hstep
    rw [dif_pos hm.le, if_neg hm.ne]

/-- `map_generic` maps a range where the walk finds nothing and whose later loop entries hold no
table: it returns `Ok` and `[v, v + r)` is mapped to `[p, p + r)`. By strong induction on the
bytes left, one `map_step` at a time. -/
theorem map_generic_spec (hwf : pt.Wf) {p r : ℕ} (hv : v % BASE_PAGE_SIZE = 0)
    (hp : p % BASE_PAGE_SIZE = 0) (hr : r % BASE_PAGE_SIZE = 0) (hpos : 0 < r)
    (hend : v + r ≤ 2 ^ 48) (hfree : ∀ w, v ≤ w → w < v + r → pt.walk w = none)
    (hg : MapGuard pt v p r) (rights : MapAction) :
    ∃ pt', pt.map_generic v p r rights true = .ok (pt', .ok ()) ∧ MapsRange pt pt' v p r rights := by
  induction r using Nat.strong_induction_on generalizing pt v p with
  | _ r ih =>
      obtain ⟨pt₁, m, hstep, hm_pos, hm_le, hm_mod, hmaps, hframe⟩ :=
        map_step_spec hwf hv hp hr hpos hend hfree hg rights
      rcases hm_le.lt_or_eq with hlt | rfl
      · -- the rest of the range, from where the step stopped
        have hadd : ∀ a b, a % BASE_PAGE_SIZE = 0 → b % BASE_PAGE_SIZE = 0 →
            (a + b) % BASE_PAGE_SIZE = 0 := fun a b ha hb => by
          simp only [BASE_PAGE_SIZE] at *
          omega
        have hsub : (r - m) % BASE_PAGE_SIZE = 0 := by
          simp only [BASE_PAGE_SIZE] at *
          omega
        obtain ⟨pt₂, hgen, hmaps₂⟩ := ih (r - m) (by omega) hmaps.wf (hadd v m hv hm_mod)
          (hadd p m hp hm_mod) hsub (by omega) (by omega)
          (fun w hlo hhi => (hmaps.outside w (by omega) (by omega)).trans
            (hfree w (by omega) (by omega)))
          (hg.rest hframe hend hm_pos hm_le)
        refine ⟨pt₂, by rw [map_generic_of_map_step_lt hstep hlt]; exact hgen, ?_⟩
        have := hmaps.trans hmaps₂ (by omega)
        rwa [Nat.add_sub_cancel' hm_le] at this
      · exact ⟨pt₁, map_generic_of_map_step hstep, hmaps⟩

/-! ## Where the guard fails

A 2 MiB or 1 GiB loop that meets a table at its second entry panics, so neither half of
`MapGuard` can be dropped. -/

end PageTable

end Nrk.Memory
