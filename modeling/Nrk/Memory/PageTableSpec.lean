import Nrk.Memory.Walk

/-! # What mapping and modifying do to the walk -/

namespace Nrk.Memory

/-- `v` and `w` lie on the same path down to a PDPT entry. -/
def SameHugeBlock (v w : ℕ) : Prop := pml4_index v = pml4_index w ∧ pdpt_index v = pdpt_index w

instance (v w : ℕ) : Decidable (SameHugeBlock v w) := inferInstanceAs (Decidable (_ ∧ _))

theorem sameHugeBlock_iff {v w : ℕ} (hv : v < 2 ^ 48) (hw : w < 2 ^ 48) :
    SameHugeBlock v w ↔ v / HUGE_PAGE_SIZE = w / HUGE_PAGE_SIZE := by
  simp only [SameHugeBlock, pml4_index, pdpt_index, Fin.mk.injEq, HUGE_PAGE_SIZE]
  omega

namespace PageTable

/-- `pt'` is well formed, maps what `pt` maps and reads memory as `pt` does: what allocating
and reclaiming intermediate tables leaves of a page table. -/
structure SameMaps (pt pt' : PageTable) : Prop where
  wf : pt'.Wf
  walk : ∀ w, pt'.walk w = pt.walk w
  frame_empty : pt'.frame_empty = pt.frame_empty

theorem SameMaps.refl {pt : PageTable} (hwf : pt.Wf) : SameMaps pt pt := ⟨hwf, fun _ => rfl, rfl⟩

theorem SameMaps.trans {pt₁ pt₂ pt₃ : PageTable} (h₁ : SameMaps pt₁ pt₂)
    (h₂ : SameMaps pt₂ pt₃) : SameMaps pt₁ pt₃ :=
  ⟨h₂.wf, fun w => (h₂.walk w).trans (h₁.walk w), h₂.frame_empty.trans h₁.frame_empty⟩

theorem deref_ok {α : Type} {e : Entry} {t : Option α} {x : α} (hne : e.address ≠ 0)
    (h : t = some x) : deref e t = .ok x := by
  simp [deref, hne, h]

variable {pt : PageTable} {i j k : Fin 512}

theorem pd_at_of_next {pdpt : PDPT} (h : pt.pdpt_at i = some pdpt) {pd : PD}
    (hpd : (pdpt j).next = some pd) : pt.pd_at i j = some pd := by
  simp [pd_at, h, hpd]

theorem pt_at_of_next {pd : PD} (h : pt.pd_at i j = some pd) {ptab : PT}
    (hpt : (pd k).next = some ptab) : pt.pt_at i j k = some ptab := by
  simp [pt_at, h, hpt]

theorem Wf.wfPD (hwf : pt.Wf) {pd : PD} (h : pt.pd_at i j = some pd) : WfPD pd := by
  obtain ⟨pdpt, hpdpt, hpd⟩ := Option.bind_eq_some_iff.mp h
  exact (hwf.wfPDPT hpdpt j pd hpd).2

theorem Wf.pdpt_entry_ne (hwf : pt.Wf) {pdpt : PDPT} (h : pt.pdpt_at i = some pdpt) {pd : PD}
    (hpd : (pdpt j).next = some pd) : (pdpt j).entry.address ≠ 0 :=
  (hwf.wfPDPT h j pd hpd).1

theorem Wf.pd_entry_ne (hwf : pt.Wf) {pd : PD} (h : pt.pd_at i j = some pd) {ptab : PT}
    (hpt : (pd k).next = some ptab) : (pd k).entry.address ≠ 0 :=
  (hwf.wfPD h k ptab hpt).1

/-! ## Walks read the four indices -/

theorem walk_congr {v w : ℕ} (h : SameBlock v w) : pt.walk v = pt.walk w := by
  obtain ⟨h₄, h₃, h₂, h₁⟩ := h
  simp only [walk, walk_pdpt, walk_pdpt_slot, walk_pd, walk_pd_slot, walk_pt, h₄, h₃, h₂, h₁]

theorem sameBlock_mod (v : ℕ) : SameBlock v (v % 2 ^ 48) := by
  simp only [SameBlock, pml4_index, pdpt_index, pd_index, pt_index, Fin.ext_iff]
  omega

/-! ## The entries on the path of an address

`pdpt_slot` and `pd_slot` read the PDPT and PD entries on the path of `w`, `absent` where the
path ends above them. The walk and the tables below are functions of them. -/

/-- The PDPT entry on the path of `w`. -/
def pdpt_slot (pt : PageTable) (w : ℕ) : Slot PD :=
  ((pt.pdpt_at (pml4_index w)).map fun pdpt => pdpt (pdpt_index w)).getD Slot.absent

/-- The PD entry on the path of `w`. -/
def pd_slot (pt : PageTable) (w : ℕ) : Slot PT :=
  ((pt.pdpt_slot w).next.map fun pd => pd (pd_index w)).getD Slot.absent

theorem pdpt_slot_of_pdpt_at {w : ℕ} {pdpt : PDPT} (h : pt.pdpt_at (pml4_index w) = some pdpt) :
    pt.pdpt_slot w = pdpt (pdpt_index w) := by
  simp [pdpt_slot, h]

theorem pd_at_eq_next (w : ℕ) : pt.pd_at (pml4_index w) (pdpt_index w) = (pt.pdpt_slot w).next := by
  cases h : pt.pdpt_at (pml4_index w) <;> simp [pd_at, pdpt_slot, h]

theorem pd_slot_of_pd_at {w : ℕ} {pd : PD} (h : pt.pd_at (pml4_index w) (pdpt_index w) = some pd) :
    pt.pd_slot w = pd (pd_index w) := by
  rw [pd_at_eq_next] at h
  simp [pd_slot, h]

theorem pt_at_eq_next (w : ℕ) :
    pt.pt_at (pml4_index w) (pdpt_index w) (pd_index w) = (pt.pd_slot w).next := by
  rw [pt_at, pd_at_eq_next]
  cases h : (pt.pdpt_slot w).next <;> simp [pd_slot, h]

theorem walk_eq_pdpt_slot (w : ℕ) : pt.walk w = walk_pdpt_slot (pt.pdpt_slot w) w := by
  cases h : pt.pdpt_at (pml4_index w) <;> simp [walk, pdpt_slot, h, walk_pdpt]

theorem pd_slot_congr {pt' : PageTable} {w : ℕ} (h : pt'.pdpt_slot w = pt.pdpt_slot w) :
    pt'.pd_slot w = pt.pd_slot w := by
  rw [pd_slot, pd_slot, h]

theorem walk_congr_pdpt_slot {pt' : PageTable} {w : ℕ} (h : pt'.pdpt_slot w = pt.pdpt_slot w) :
    pt'.walk w = pt.walk w := by
  rw [walk_eq_pdpt_slot, walk_eq_pdpt_slot, h]

@[simp] theorem advance_pdpt_slot (w : ℕ) : pt.advance.pdpt_slot w = pt.pdpt_slot w := rfl

@[simp] theorem advance_pd_slot (w : ℕ) : pt.advance.pd_slot w = pt.pd_slot w := rfl

theorem pdpt_slot_with_pdpt {pdpt : PDPT} (h : pt.pdpt_at i = some pdpt) (t : PDPT) (w : ℕ) :
    (pt.with_pdpt i t).pdpt_slot w = if pml4_index w = i then t (pdpt_index w) else pt.pdpt_slot w := by
  by_cases hw : pml4_index w = i
  · rw [if_pos hw, pdpt_slot_of_pdpt_at (by rw [hw]; exact pdpt_at_with_pdpt h t)]
  · simp only [pdpt_slot, with_pdpt_eq, pdpt_at_set_pml4, if_neg hw]

theorem pdpt_slot_with_pd {pd : PD} (h : pt.pd_at i j = some pd) (t : PD) {w : ℕ}
    (hw : ¬ (pml4_index w = i ∧ pdpt_index w = j)) : (pt.with_pd i j t).pdpt_slot w = pt.pdpt_slot w := by
  obtain ⟨pdpt, hpdpt, -⟩ := Option.bind_eq_some_iff.mp h
  simp only [pdpt_at] at hpdpt
  by_cases hi : pml4_index w = i
  · have hj : pdpt_index w ≠ j := fun hj => hw ⟨hi, hj⟩
    simp [pdpt_slot, with_pd_eq, pdpt_at, hi, hpdpt, hj]
  · simp only [pdpt_slot, with_pd_eq, pdpt_at_set_pml4, if_neg hi]

theorem pd_slot_with_pd {pd : PD} (h : pt.pd_at i j = some pd) (t : PD) (w : ℕ) :
    (pt.with_pd i j t).pd_slot w =
      if pml4_index w = i ∧ pdpt_index w = j then t (pd_index w) else pt.pd_slot w := by
  by_cases hw : pml4_index w = i ∧ pdpt_index w = j
  · obtain ⟨hi, hj⟩ := hw
    rw [if_pos ⟨hi, hj⟩, pd_slot_of_pd_at (by rw [hi, hj]; exact pd_at_with_pd h t)]
  · rw [if_neg hw, pd_slot_congr (pdpt_slot_with_pd h t hw)]

theorem pdpt_slot_with_pt {ptab : PT} (h : pt.pt_at i j k = some ptab) (t : PT) {w : ℕ}
    (hw : ¬ (pml4_index w = i ∧ pdpt_index w = j)) : (pt.with_pt i j k t).pdpt_slot w = pt.pdpt_slot w := by
  obtain ⟨pd, hpd, -⟩ := Option.bind_eq_some_iff.mp h
  obtain ⟨pdpt, hpdpt, -⟩ := Option.bind_eq_some_iff.mp hpd
  simp only [pdpt_at] at hpdpt
  by_cases hi : pml4_index w = i
  · have hj : pdpt_index w ≠ j := fun hj => hw ⟨hi, hj⟩
    simp [pdpt_slot, with_pt_eq, pdpt_at, hi, hpdpt, hj]
  · simp only [pdpt_slot, with_pt_eq, pdpt_at_set_pml4, if_neg hi]

theorem pd_slot_with_pt {ptab : PT} (h : pt.pt_at i j k = some ptab) (t : PT) {w : ℕ}
    (hw : ¬ (pml4_index w = i ∧ pdpt_index w = j ∧ pd_index w = k)) :
    (pt.with_pt i j k t).pd_slot w = pt.pd_slot w := by
  obtain ⟨pd, hpd, hpt⟩ := Option.bind_eq_some_iff.mp h
  by_cases hij : pml4_index w = i ∧ pdpt_index w = j
  · obtain ⟨hi, hj⟩ := hij
    have hk : pd_index w ≠ k := fun hk => hw ⟨hi, hj, hk⟩
    obtain ⟨pdpt, hpdpt, hpd'⟩ := Option.bind_eq_some_iff.mp hpd
    simp only [pdpt_at] at hpdpt
    have hpd_w : pt.pd_at (pml4_index w) (pdpt_index w) = some pd := by rw [hi, hj]; exact hpd
    rw [pd_slot_of_pd_at hpd_w]
    simp [pd_slot, pdpt_slot, with_pt_eq, pdpt_at, hi, hj, hpdpt, hpd', hk]
  · exact pd_slot_congr (pdpt_slot_with_pt h t hij)

/-! ## Walks below a slot that holds no table -/

theorem walk_pdpt_slot_of_not_present {s : Slot PD} (hs : s.entry.is_present = false) (w : ℕ) :
    walk_pdpt_slot s w = none := by
  simp [walk_pdpt_slot, hs, Slot.next_eq_none (by simp [hs] : (s.entry.is_present &&
    !s.entry.is_page) = false)]

theorem walk_pd_slot_of_not_present {s : Slot PT} (hs : s.entry.is_present = false) (w : ℕ) :
    walk_pd_slot s w = none := by
  simp [walk_pd_slot, hs, Slot.next_eq_none (by simp [hs] : (s.entry.is_present &&
    !s.entry.is_page) = false)]

theorem not_huge_of_walk_eq_none {v : ℕ} {pdpt : PDPT} (h : pt.pdpt_at (pml4_index v) = some pdpt)
    (hfree : pt.walk v = none) :
    ¬ ((pdpt (pdpt_index v)).entry.is_present = true ∧
      (pdpt (pdpt_index v)).entry.is_page = true) := by
  rintro ⟨hp, hpg⟩
  rw [walk_eq_walk_pdpt h rfl] at hfree
  simp [walk_pdpt, walk_pdpt_slot, hp, hpg] at hfree

theorem not_large_of_walk_eq_none {v : ℕ} {pd : PD}
    (h : pt.pd_at (pml4_index v) (pdpt_index v) = some pd) (hfree : pt.walk v = none) :
    ¬ ((pd (pd_index v)).entry.is_present = true ∧ (pd (pd_index v)).entry.is_page = true) := by
  rintro ⟨hp, hpg⟩
  rw [walk_eq_walk_pd h ⟨rfl, rfl⟩] at hfree
  simp [walk_pd, walk_pd_slot, hp, hpg] at hfree

/-! ## Walks after a write on the path of `v` -/

variable {v : ℕ}

theorem walk_write_pdpt {pdpt : PDPT} (h : pt.pdpt_at (pml4_index v) = some pdpt)
    (s : Slot PD) (w : ℕ) :
    (pt.with_pdpt (pml4_index v) (Function.update pdpt (pdpt_index v) s)).walk w =
      if pml4_index w = pml4_index v ∧ pdpt_index w = pdpt_index v then walk_pdpt_slot s w
      else pt.walk w := by
  rw [walk_with_pdpt h, walk_pdpt_update]
  by_cases hi : pml4_index w = pml4_index v
  · by_cases hj : pdpt_index w = pdpt_index v
    · simp [hi, hj]
    · simp [hi, hj, walk_eq_walk_pdpt h hi]
  · simp [hi]

theorem walk_write_pd {pd : PD} (h : pt.pd_at (pml4_index v) (pdpt_index v) = some pd)
    (s : Slot PT) (w : ℕ) :
    (pt.with_pd (pml4_index v) (pdpt_index v) (Function.update pd (pd_index v) s)).walk w =
      if SameLargeBlock w v then walk_pd_slot s w else pt.walk w := by
  rw [walk_with_pd h, walk_pd_update]
  by_cases hij : pml4_index w = pml4_index v ∧ pdpt_index w = pdpt_index v
  · by_cases hk : pd_index w = pd_index v
    · simp [SameLargeBlock, hij, hk]
    · simp [SameLargeBlock, hij, hk, walk_eq_walk_pd h hij]
  · have hnot : ¬ SameLargeBlock w v := fun hb => hij ⟨hb.1, hb.2.1⟩
    rw [if_neg hij, if_neg hnot]

theorem walk_write_pt {ptab : PT}
    (h : pt.pt_at (pml4_index v) (pdpt_index v) (pd_index v) = some ptab) (e : Entry) (w : ℕ) :
    (pt.with_pt (pml4_index v) (pdpt_index v) (pd_index v)
        (Function.update ptab (pt_index v) e)).walk w =
      if SameBlock w v then walk_pt_entry e else pt.walk w := by
  rw [walk_with_pt h, walk_pt_update]
  by_cases hijk : SameLargeBlock w v
  · by_cases hl : pt_index w = pt_index v
    · simp [SameBlock, hijk.1, hijk.2.1, hijk.2.2, hl]
    · simp [SameBlock, hijk.1, hijk.2.1, hijk.2.2, hl, walk_eq_walk_pt h hijk]
  · have hnot : ¬ SameBlock w v := fun hb => hijk ⟨hb.1, hb.2.1, hb.2.2.1⟩
    rw [if_neg (show ¬ (pml4_index w = pml4_index v ∧ pdpt_index w = pdpt_index v ∧
      pd_index w = pd_index v) from hijk), if_neg hnot]

/-- Writing the PD entry of `v` changes no PDPT entry off the 1 GiB block of `v`, and no PD
entry off its 2 MiB block. -/
theorem write_pd_slots {pd : PD} (h : pt.pd_at (pml4_index v) (pdpt_index v) = some pd)
    (s : Slot PT) :
    (∀ w, ¬ SameHugeBlock w v → (pt.with_pd (pml4_index v) (pdpt_index v)
      (Function.update pd (pd_index v) s)).pdpt_slot w = pt.pdpt_slot w) ∧
    ∀ w, ¬ SameLargeBlock w v → (pt.with_pd (pml4_index v) (pdpt_index v)
      (Function.update pd (pd_index v) s)).pd_slot w = pt.pd_slot w := by
  refine ⟨fun w hw => pdpt_slot_with_pd h _ hw, fun w hw => ?_⟩
  rw [pd_slot_with_pd h]
  split_ifs with hij
  · have hk : pd_index w ≠ pd_index v := fun hk => hw ⟨hij.1, hij.2, hk⟩
    rw [Function.update_of_ne hk, pd_slot_of_pd_at (by rw [hij.1, hij.2]; exact h)]
  · rfl

/-! ## Down to the PD of `v` -/

theorem get_or_alloc_pdpt_spec (hwf : pt.Wf) (v : ℕ) :
    ∃ pt' pdpt, pt.get_or_alloc_pdpt v = .ok (pt', pdpt) ∧ SameMaps pt pt' ∧
      pt'.pdpt_at (pml4_index v) = some pdpt ∧ ∀ w, pt'.pdpt_slot w = pt.pdpt_slot w := by
  unfold get_or_alloc_pdpt
  dsimp only
  cases hp : (pt.pml4 (pml4_index v)).entry.is_present with
  | true =>
      obtain ⟨pdpt, hpdpt⟩ := hwf.pdpt_at_some hp
      exact ⟨pt, pdpt, by simp [hp, hwf.deref_pdpt hpdpt], SameMaps.refl hwf, hpdpt,
        fun _ => rfl⟩
  | false =>
      -- a new, zeroed PDPT goes into the PML4 entry
      obtain ⟨p, hne, hnew⟩ := hwf.new_table_ok (fun _ => Slot.absent : PDPT)
      have hnone : pt.pdpt_at (pml4_index v) = none := Slot.next_eq_none (by simp [hp])
      let pt' := pt.advance.set_pml4 (pml4_index v) (Slot.table p (fun _ => Slot.absent : PDPT))
      have hpdpt : pt'.pdpt_at (pml4_index v) = some (fun _ => Slot.absent : PDPT) := by
        simp [pt']
      have hwf' : pt'.Wf := hwf.advance.set_pml4 (by simp [Entry.is_page, Flags.empty])
        (by simp [hne])
      -- the new PDPT holds only absent entries, as the missing one reads
      have hslot : ∀ w, pt'.pdpt_slot w = pt.pdpt_slot w := by
        intro w
        by_cases hw : pml4_index w = pml4_index v
        · simp [pt', pdpt_slot, hw, hnone]
        · simp [pt', pdpt_slot, hw]
      refine ⟨pt', _, ?_, ⟨hwf', fun w => walk_congr_pdpt_slot (hslot w), rfl⟩, hpdpt, hslot⟩
      simp [new_pdpt, hnew, pt', deref, hne, Entry.is_present]

theorem can_map_as_huge_page_of_lt (hwf : pt.Wf) {pdpt : PDPT}
    (h : pt.pdpt_at (pml4_index v) = some pdpt) {psize : ℕ} (hsize : psize < HUGE_PAGE_SIZE)
    (pbase : ℕ) : pt.can_map_as_huge_page pbase psize v = .ok (pt, false) := by
  unfold can_map_as_huge_page
  dsimp only
  rw [hwf.deref_pdpt h, Outcome.ok_bind, if_pos fun hw => absurd hw.2.2 (not_le.mpr hsize)]

theorem alloc_pd_spec (hwf : pt.Wf) {pdpt : PDPT} (h : pt.pdpt_at (pml4_index v) = some pdpt)
    (hfree : pt.walk v = none) :
    ∃ pt' pdpt' pd, pt.alloc_pd (pdpt (pdpt_index v)).entry v = .ok pt' ∧ SameMaps pt pt' ∧
      pt'.pdpt_at (pml4_index v) = some pdpt' ∧ (pdpt' (pdpt_index v)).next = some pd ∧
      (∀ w, ¬ SameHugeBlock w v → pt'.pdpt_slot w = pt.pdpt_slot w) ∧
      ∀ w, pt'.pd_slot w = pt.pd_slot w := by
  have hnot := not_huge_of_walk_eq_none h hfree
  unfold alloc_pd
  dsimp only
  cases hp : (pdpt (pdpt_index v)).entry.is_present with
  | true =>
      obtain ⟨pd, hpd⟩ := Slot.exists_next hp (by simpa [hp] using hnot)
      exact ⟨pt, pdpt, pd, by simp, SameMaps.refl hwf, h, hpd, fun _ _ => rfl, fun _ => rfl⟩
  | false =>
      -- a new, zeroed PD goes into the PDPT entry
      obtain ⟨p, hne, hnew⟩ := hwf.new_table_ok (fun _ => Slot.absent : PD)
      have h' : pt.advance.pdpt_at (pml4_index v) = some pdpt := h
      let s : Slot PD := Slot.table p (fun _ => Slot.absent : PD)
      have hslot : ∀ w, (pt.advance.with_pdpt (pml4_index v)
          (Function.update pdpt (pdpt_index v) s)).pdpt_slot w =
          if SameHugeBlock w v then s else pt.pdpt_slot w := by
        intro w
        rw [pdpt_slot_with_pdpt h', advance_pdpt_slot]
        by_cases hi : pml4_index w = pml4_index v
        · by_cases hj : pdpt_index w = pdpt_index v
          · simp [SameHugeBlock, hi, hj]
          · simp [SameHugeBlock, hi, hj, pdpt_slot_of_pdpt_at (show pt.pdpt_at (pml4_index w) =
              some pdpt by rw [hi]; exact h)]
        · simp [SameHugeBlock, hi]
      refine ⟨pt.advance.with_pdpt (pml4_index v) (Function.update pdpt (pdpt_index v) s),
        Function.update pdpt (pdpt_index v) s, fun _ => Slot.absent, ?_, ⟨?_, fun w => ?_, rfl⟩,
        pdpt_at_with_pdpt h' _, by simp [s], fun w hw => by rw [hslot, if_neg hw],
        fun w => ?_⟩
      · simp [new_pd, hnew, hwf.deref_pdpt h, s]
      · exact hwf.advance.with_pdpt ((hwf.wfPDPT h).update (by simp [s, hne]))
      · rw [walk_write_pdpt h', advance_walk]
        split_ifs with hw
        · rw [walk_eq_walk_pdpt h hw.1]
          simp [s, walk_pdpt, hw.2, walk_pdpt_slot_of_not_present hp]
        · rfl
      · -- below the entry there was no table, and now there is a zeroed one
        by_cases hw : SameHugeBlock w v
        · have hold : pt.pdpt_slot w = pdpt (pdpt_index v) := by
            rw [pdpt_slot_of_pdpt_at (show pt.pdpt_at (pml4_index w) = some pdpt by
              rw [hw.1]; exact h), hw.2]
          rw [pd_slot, pd_slot, hslot, if_pos hw, hold,
            Slot.next_eq_none (by simp [hp] : ((pdpt (pdpt_index v)).entry.is_present &&
              !(pdpt (pdpt_index v)).entry.is_page) = false)]
          simp [s]
        · exact pd_slot_congr (by rw [hslot, if_neg hw])

theorem map_step_eq_map_pd_level (hwf : pt.Wf) {pbase psize : ℕ}
    (halign : pbase % BASE_PAGE_SIZE = 0 ∧ v % BASE_PAGE_SIZE = 0 ∧ psize % BASE_PAGE_SIZE = 0)
    (hsize : psize < HUGE_PAGE_SIZE) (hfree : pt.walk v = none) (rights : MapAction)
    (insert_mapping : Bool) :
    ∃ pt' pdpt pd, SameMaps pt pt' ∧ pt'.pdpt_at (pml4_index v) = some pdpt ∧
      (pdpt (pdpt_index v)).next = some pd ∧
      pt.map_step v pbase psize rights insert_mapping =
        pt'.map_pd_level (pdpt (pdpt_index v)).entry v pbase psize rights insert_mapping := by
  obtain ⟨pt₁, pdpt₁, hget, hsame₁, hpdpt₁, -⟩ := get_or_alloc_pdpt_spec hwf v
  obtain ⟨pt₂, pdpt₂, pd, halloc, hsame₂, hpdpt₂, hpd, -⟩ :=
    alloc_pd_spec hsame₁.wf hpdpt₁ ((hsame₁.walk v).trans hfree)
  refine ⟨pt₂, pdpt₂, pd, hsame₁.trans hsame₂, hpdpt₂, hpd, ?_⟩
  have hnp := Slot.not_page_of_next hpd
  rw [map_step, if_neg (not_not.mpr halign)]
  simp [hget, can_map_as_huge_page_of_lt hsame₁.wf hpdpt₁ hsize, halloc,
    hsame₂.wf.deref_pdpt hpdpt₂, hnp.1, hnp.2]

/-! ## Down to the PT of `v` -/

theorem alloc_pt_spec (hwf : pt.Wf) {e : Entry} (hne : e.address ≠ 0) {pd : PD}
    (h : pt.pd_at (pml4_index v) (pdpt_index v) = some pd) (hfree : pt.walk v = none) :
    ∃ pt' pd' ptab, pt.alloc_pt e (pd (pd_index v)).entry v = .ok pt' ∧ SameMaps pt pt' ∧
      pt'.pd_at (pml4_index v) (pdpt_index v) = some pd' ∧ (pd' (pd_index v)).next = some ptab ∧
      (∀ w, ¬ SameHugeBlock w v → pt'.pdpt_slot w = pt.pdpt_slot w) ∧
      ∀ w, ¬ SameLargeBlock w v → pt'.pd_slot w = pt.pd_slot w := by
  have hnot := not_large_of_walk_eq_none h hfree
  unfold alloc_pt
  dsimp only
  cases hp : (pd (pd_index v)).entry.is_present with
  | true =>
      obtain ⟨ptab, hpt⟩ := Slot.exists_next hp (by simpa [hp] using hnot)
      exact ⟨pt, pd, ptab, by simp, SameMaps.refl hwf, h, hpt, fun _ _ => rfl, fun _ _ => rfl⟩
  | false =>
      -- a new, zeroed PT goes into the PD entry
      obtain ⟨p, hne', hnew⟩ := hwf.new_table_ok (fun _ => Entry.zero : PT)
      have h' : pt.advance.pd_at (pml4_index v) (pdpt_index v) = some pd := h
      let s : Slot PT := Slot.table p (fun _ => Entry.zero : PT)
      obtain ⟨hpdpt_slots, hpd_slots⟩ := write_pd_slots h' s
      refine ⟨pt.advance.with_pd (pml4_index v) (pdpt_index v) (Function.update pd (pd_index v) s),
        Function.update pd (pd_index v) s, fun _ => Entry.zero, ?_, ⟨?_, fun w => ?_, rfl⟩,
        pd_at_with_pd h' _, by simp [s], fun w hw => (hpdpt_slots w hw).trans (advance_pdpt_slot w),
        fun w hw => (hpd_slots w hw).trans (advance_pd_slot w)⟩
      · simp [new_pt, hnew, deref_ok hne h, s]
      · exact hwf.advance.with_pd h' ((hwf.wfPD h).update (by simp [s, hne']))
      · rw [walk_write_pd h', advance_walk]
        split_ifs with hw
        · rw [walk_eq_walk_pd h ⟨hw.1, hw.2.1⟩]
          simp [s, walk_pd, hw.2.2, walk_pd_slot_of_not_present hp]
        · rfl

section insert_loop

variable {α : Type} {entry : α → Entry} {page : ℕ → α} {page_size : ℕ} {continues : ℕ → Bool}
  {rights : MapAction} {vbase pbase : ℕ}

theorem insert_loop_one {table : Table α} {l : Fin 512} {mapped : ℕ}
    (hc : continues mapped = true) (hstop : continues (mapped + page_size) = false)
    (hfree : (entry (table l)).is_present = false) :
    insert_loop entry page page_size continues rights true vbase pbase table l mapped =
      .ok (Function.update table l (page (pbase + mapped)), .ok (mapped + page_size)) := by
  rw [insert_loop, dif_pos ⟨hc, l.isLt⟩]
  simp only [Fin.eta, hfree, Bool.false_eq_true, false_and, Bool.not_true, if_false]
  rw [insert_loop, dif_neg (fun hw => by simp [hstop] at hw)]

end insert_loop

theorem map_generic_of_map_step {vbase pbase psize : ℕ} {rights : MapAction}
    {insert_mapping : Bool} {pt' : PageTable}
    (h : pt.map_step vbase pbase psize rights insert_mapping = .ok (pt', .ok psize)) :
    pt.map_generic vbase pbase psize rights insert_mapping = .ok (pt', .ok ()) := by
  rw [map_generic]
  split
  · simp_all
  · simp_all
  · simp_all

theorem sameLargeBlock_add {v : ℕ} (hv : v % LARGE_PAGE_SIZE = 0) (l : Fin 512) :
    SameLargeBlock (v + l * BASE_PAGE_SIZE) v ∧ pt_index (v + l * BASE_PAGE_SIZE) = l := by
  have hl := l.isLt
  simp only [SameLargeBlock, pml4_index, pdpt_index, pd_index, pt_index, Fin.ext_iff,
    LARGE_PAGE_SIZE, BASE_PAGE_SIZE] at hv ⊢
  omega

/-- Where the walk finds nothing on the 2 MiB block of `v`, `can_map_as_large_page` allows a
2 MiB page there, and reclaims the PT it finds below the entry, which has no page. -/
theorem can_map_as_large_page_free (hwf : pt.Wf) {e : Entry} (hne : e.address ≠ 0) {pd : PD}
    (h : pt.pd_at (pml4_index v) (pdpt_index v) = some pd) {pbase psize : ℕ}
    (hv : v % LARGE_PAGE_SIZE = 0) (hvlt : v < 2 ^ 48) (hp : pbase % LARGE_PAGE_SIZE = 0)
    (hsize : LARGE_PAGE_SIZE ≤ psize) (hfree : ∀ w, SameLargeBlock w v → pt.walk w = none) :
    ∃ pt' pd', pt.can_map_as_large_page e pbase psize v = .ok (pt', true) ∧ SameMaps pt pt' ∧
      pt'.pd_at (pml4_index v) (pdpt_index v) = some pd' ∧
      (pd' (pd_index v)).entry.is_present = false ∧
      (∀ w, ¬ SameHugeBlock w v → pt'.pdpt_slot w = pt.pdpt_slot w) ∧
      ∀ w, ¬ SameLargeBlock w v → pt'.pd_slot w = pt.pd_slot w := by
  have hhere : v = PML4_SLOT_SIZE * ↑(pml4_index v) + HUGE_PAGE_SIZE * ↑(pdpt_index v) +
      LARGE_PAGE_SIZE * ↑(pd_index v) := by
    simp only [PML4_SLOT_SIZE, HUGE_PAGE_SIZE, LARGE_PAGE_SIZE, pml4_index, pdpt_index,
      pd_index] at hv ⊢
    omega
  unfold can_map_as_large_page
  dsimp only
  rw [deref_ok hne h, Outcome.ok_bind, if_neg (not_not.mpr ⟨hhere, hp, hsize⟩)]
  cases hpres : (pd (pd_index v)).entry.is_present with
  | false => exact ⟨pt, pd, by simp, SameMaps.refl hwf, h, hpres, fun _ _ => rfl, fun _ _ => rfl⟩
  | true =>
      -- not a page, since the walk finds nothing: a PT, whose entries are all free
      have hnot := not_large_of_walk_eq_none h (hfree v ⟨rfl, rfl, rfl⟩)
      obtain ⟨ptab, hpt⟩ := Slot.exists_next hpres (by simpa [hpres] using hnot)
      have hpt_at := pt_at_of_next h hpt
      have hempty : all_entries_empty Entry.is_present ptab = true := by
        simp only [all_entries_empty, List.all_eq_true, List.mem_finRange, true_implies,
          Bool.not_eq_eq_eq_not, Bool.not_true]
        intro l
        obtain ⟨hblock, hl⟩ := sameLargeBlock_add hv l
        have hw := hfree _ hblock
        rw [walk_eq_walk_pt hpt_at hblock] at hw
        simpa [walk_pt, hl, walk_pt_entry] using hw
      refine ⟨pt.with_pd (pml4_index v) (pdpt_index v) (Function.update pd (pd_index v) Slot.absent),
        Function.update pd (pd_index v) Slot.absent, ?_,
        ⟨hwf.with_pd h ((hwf.wfPD h).update Slot.wf_absent), fun w => ?_, ?_⟩,
        pd_at_with_pd h _, by simp, (write_pd_slots h _).1, (write_pd_slots h _).2⟩
      · simp [hwf.pd_entry_ne h hpt, hpt_at, hempty]
      · rw [walk_write_pd h]
        split_ifs with hw
        · exact (hfree w hw).symm
        · rfl
      · simp [with_pd]

theorem map_pd_level_eq_insert_large (hwf : pt.Wf) {e : Entry} (hne : e.address ≠ 0) {pd : PD}
    (h : pt.pd_at (pml4_index v) (pdpt_index v) = some pd) {pbase psize : ℕ}
    (hv : v % LARGE_PAGE_SIZE = 0) (hvlt : v < 2 ^ 48) (hp : pbase % LARGE_PAGE_SIZE = 0)
    (hsize : LARGE_PAGE_SIZE ≤ psize) (hfree : ∀ w, SameLargeBlock w v → pt.walk w = none)
    (rights : MapAction) (insert_mapping : Bool) :
    ∃ pt' pd', SameMaps pt pt' ∧ pt'.pd_at (pml4_index v) (pdpt_index v) = some pd' ∧
      (pd' (pd_index v)).entry.is_present = false ∧
      pt.map_pd_level e v pbase psize rights insert_mapping =
        pt'.insert_large_mappings e v pbase psize rights insert_mapping := by
  obtain ⟨pt', pd', hcan, hsame, hpd', hslot, -⟩ :=
    can_map_as_large_page_free hwf hne h hv hvlt hp hsize hfree
  refine ⟨pt', pd', hsame, hpd', hslot, ?_⟩
  unfold map_pd_level
  simp [deref_ok hne h, hcan]

theorem insert_large_mappings_one {e : Entry} (hne : e.address ≠ 0) {pd : PD}
    (h : pt.pd_at (pml4_index v) (pdpt_index v) = some pd)
    (hslot : (pd (pd_index v)).entry.is_present = false) (pbase : ℕ) (rights : MapAction) :
    pt.insert_large_mappings e v pbase LARGE_PAGE_SIZE rights true =
      .ok (pt.with_pd (pml4_index v) (pdpt_index v) (Function.update pd (pd_index v)
        (Slot.leaf ⟨pbase, { rights.to_pd_rights with P := true, PS := true }⟩ rfl)),
        .ok LARGE_PAGE_SIZE) := by
  unfold insert_large_mappings
  simp [deref_ok hne h, insert_loop_one, hslot, LARGE_PAGE_SIZE]

/-- Mapping a 2 MiB page where the walk finds nothing on its block succeeds, and the walk
then finds the page on the block. -/
theorem map_generic_large (hwf : pt.Wf) {pbase : ℕ} (hv : v % LARGE_PAGE_SIZE = 0)
    (hvlt : v < 2 ^ 48) (hp : pbase % LARGE_PAGE_SIZE = 0)
    (hfree : ∀ w, SameLargeBlock w v → pt.walk w = none) (rights : MapAction) :
    ∃ pt', pt.map_generic v pbase LARGE_PAGE_SIZE rights true = .ok (pt', .ok ()) ∧ pt'.Wf ∧
      pt'.frame_empty = pt.frame_empty ∧
      ∀ w, pt'.walk w = if SameLargeBlock w v
        then some (.large ⟨pbase, { rights.to_pd_rights with P := true, PS := true }⟩)
        else pt.walk w := by
  have halign : pbase % BASE_PAGE_SIZE = 0 ∧ v % BASE_PAGE_SIZE = 0 ∧
      LARGE_PAGE_SIZE % BASE_PAGE_SIZE = 0 := by
    simp only [LARGE_PAGE_SIZE, BASE_PAGE_SIZE] at hv hp ⊢
    refine ⟨?_, ?_, trivial⟩ <;> omega
  obtain ⟨pt₁, pdpt, pd, hsame₁, hpdpt, hpd, hstep⟩ :=
    map_step_eq_map_pd_level hwf halign (show LARGE_PAGE_SIZE < HUGE_PAGE_SIZE by decide)
      (hfree v ⟨rfl, rfl, rfl⟩) rights true
  have hfree₁ : ∀ w, SameLargeBlock w v → pt₁.walk w = none :=
    fun w hw => (hsame₁.walk w).trans (hfree w hw)
  have hne := hsame₁.wf.pdpt_entry_ne hpdpt hpd
  obtain ⟨pt₂, pd', hsame₂, hpd', hslot, hlevel⟩ :=
    map_pd_level_eq_insert_large hsame₁.wf hne (pd_at_of_next hpdpt hpd) hv hvlt hp le_rfl
      hfree₁ rights true
  have hins := insert_large_mappings_one hne hpd' hslot pbase rights
  refine ⟨_, map_generic_of_map_step (hstep.trans (hlevel.trans hins)),
    hsame₂.wf.with_pd hpd' ((hsame₂.wf.wfPD hpd').update (Slot.wf_leaf _ _)), ?_, fun w => ?_⟩
  · simp [with_pd, hsame₂.frame_empty, hsame₁.frame_empty]
  · rw [walk_write_pd hpd', hsame₂.walk, hsame₁.walk]
    split_ifs <;> rfl

/-! ## Modifying the page that maps an address -/

end PageTable

namespace Leaf

/-- `w` lies on the block of the page `l` that the walk of `v` finds. -/
def Covers : Leaf → ℕ → ℕ → Prop
  | huge _, w, v => pml4_index w = pml4_index v ∧ pdpt_index w = pdpt_index v
  | large _, w, v => SameLargeBlock w v
  | base _, w, v => SameBlock w v

instance : (l : Leaf) → (w v : ℕ) → Decidable (l.Covers w v)
  | huge _, _, _ => inferInstanceAs (Decidable (_ ∧ _))
  | large _, w, v => inferInstanceAs (Decidable (SameLargeBlock w v))
  | base _, w, v => inferInstanceAs (Decidable (SameBlock w v))

theorem Covers.congr {l : Leaf} {v b w : ℕ} (h : l.Covers v b) : l.Covers w v ↔ l.Covers w b := by
  cases l with
  | huge e =>
      obtain ⟨h₄, h₃⟩ := h
      simp only [Covers, h₄, h₃]
  | large e =>
      obtain ⟨h₄, h₃, h₂⟩ := h
      simp only [Covers, SameLargeBlock, h₄, h₃, h₂]
  | base e =>
      obtain ⟨h₄, h₃, h₂, h₁⟩ := h
      simp only [Covers, SameBlock, h₄, h₃, h₂, h₁]

/-- The page that `modify_generic` leaves in place of `l`: none after an unmap, the same frame
with the new rights after an update. -/
def modify (l : Leaf) : Modify → Option Leaf
  | .Unmap => none
  | .UpdateRights r => some (match l with
      | huge e => huge ⟨e.address, { r.to_pdpt_rights with P := true, PS := true }⟩
      | large e => large ⟨e.address, { r.to_pd_rights with P := true, PS := true }⟩
      | base e => base ⟨e.address, { r.to_pt_rights with P := true }⟩)

end Leaf

namespace PageTable

variable {pt : PageTable} {v : ℕ}

theorem walk_pdpt_slot_modify (e : Entry) (a : Modify) (w : ℕ) (h) :
    walk_pdpt_slot (Slot.leaf (modify_entry e HUGE_PAGE_SIZE v a
      fun r => { r.to_pdpt_rights with P := true, PS := true }).1 h) w = (Leaf.huge e).modify a := by
  cases a <;> rfl

theorem walk_pd_slot_modify (e : Entry) (a : Modify) (w : ℕ) (h) :
    walk_pd_slot (Slot.leaf (modify_entry e LARGE_PAGE_SIZE v a
      fun r => { r.to_pd_rights with P := true, PS := true }).1 h) w = (Leaf.large e).modify a := by
  cases a <;> rfl

theorem walk_pt_entry_modify (e : Entry) (a : Modify) :
    walk_pt_entry (modify_entry e BASE_PAGE_SIZE v a
      fun r => { r.to_pt_rights with P := true }).1 = (Leaf.base e).modify a := by
  cases a <;> rfl

/-- `modify_generic` changes the page that the walk of `v` finds, on that page's block, and
returns the page; where the walk finds nothing it changes nothing. -/
theorem modify_generic_spec (hwf : pt.Wf) (v : ℕ) (a : Modify) :
    ∃ pt', pt.modify_generic v a = .ok (pt', (pt.walk v).elim (.error .NotMapped)
        fun l => .ok (v - v % l.size, l.entry.address, l.size, MapAction.from_flags l.entry.flags)) ∧
      pt'.Wf ∧ pt'.frame_empty = pt.frame_empty ∧
      ∀ w, pt'.walk w =
        (pt.walk v).elim (pt.walk w) fun l => if l.Covers w v then l.modify a else pt.walk w := by
  unfold modify_generic
  dsimp only
  -- one case per level of the walk, as `modify_generic` reads it
  cases h₄ : (pt.pml4 (pml4_index v)).entry.is_present with
  | false =>
      have hnone : pt.walk v = none := by
        simp [walk, Slot.next_eq_none (by simp [h₄] : ((pt.pml4 (pml4_index v)).entry.is_present &&
          !(pt.pml4 (pml4_index v)).entry.is_page) = false), pdpt_at]
      exact ⟨pt, by simp [hnone], hwf, rfl, fun w => by simp [hnone]⟩
  | true =>
      obtain ⟨pdpt, hpdpt⟩ := hwf.pdpt_at_some h₄
      simp only [Bool.not_true, Bool.false_eq_true, if_false, hwf.deref_pdpt hpdpt,
        Outcome.ok_bind]
      rw [walk_eq_walk_pdpt hpdpt rfl]
      cases h₃ : (pdpt (pdpt_index v)).entry.is_present with
      | false =>
          have hnone := walk_pdpt_slot_of_not_present h₃ v
          exact ⟨pt, by simp [walk_pdpt, hnone], hwf, rfl, fun w => by simp [walk_pdpt, hnone]⟩
      | true =>
          cases hp₃ : (pdpt (pdpt_index v)).entry.is_page with
          | true =>
              -- a 1 GiB page
              have hl : walk_pdpt pdpt v = some (.huge (pdpt (pdpt_index v)).entry) := by
                simp [walk_pdpt, walk_pdpt_slot, h₃, hp₃]
              exact ⟨_, by simp only [Bool.not_true, Bool.false_eq_true, if_false, if_true, hl]; rfl,
                hwf.with_pdpt ((hwf.wfPDPT hpdpt).update (Slot.wf_leaf _ _)), by simp [with_pdpt],
                fun w => by
                  rw [walk_write_pdpt hpdpt, hl, walk_pdpt_slot_modify]
                  rfl⟩
          | false =>
              obtain ⟨pd, hpd⟩ := Slot.exists_next h₃ hp₃
              have hpd_at := pd_at_of_next hpdpt hpd
              have hwalk : walk_pdpt pdpt v = walk_pd pd v := by
                simp [walk_pdpt, walk_pdpt_slot, h₃, hp₃, hpd]
              simp only [Bool.not_true, Bool.false_eq_true, if_false, hwf.deref_pd hpdpt hpd,
                Outcome.ok_bind]
              rw [hwalk]
              cases h₂ : (pd (pd_index v)).entry.is_present with
              | false =>
                  have hnone := walk_pd_slot_of_not_present h₂ v
                  exact ⟨pt, by simp [walk_pd, hnone], hwf, rfl,
                    fun w => by simp [walk_pd, hnone]⟩
              | true =>
                  cases hp₂ : (pd (pd_index v)).entry.is_page with
                  | true =>
                      -- a 2 MiB page
                      have hl : walk_pd pd v = some (.large (pd (pd_index v)).entry) := by
                        simp [walk_pd, walk_pd_slot, h₂, hp₂]
                      exact ⟨_, by
                          simp only [Bool.not_true, Bool.false_eq_true, if_false, if_true, hl]
                          rfl,
                        hwf.with_pd hpd_at ((hwf.wfPD hpd_at).update (Slot.wf_leaf _ _)),
                        by simp [with_pd],
                        fun w => by
                          rw [walk_write_pd hpd_at, hl, walk_pd_slot_modify]
                          rfl⟩
                  | false =>
                      obtain ⟨ptab, hpt⟩ := Slot.exists_next h₂ hp₂
                      have hpt_at := pt_at_of_next hpd_at hpt
                      have hwalk₁ : walk_pd pd v = walk_pt ptab v := by
                        simp [walk_pd, walk_pd_slot, h₂, hp₂, hpt]
                      simp only [Bool.not_true, Bool.false_eq_true, if_false,
                        hwf.deref_pt hpdpt hpd hpt, Outcome.ok_bind]
                      rw [hwalk₁]
                      cases h₁ : (ptab (pt_index v)).is_present with
                      | false =>
                          have hnone : walk_pt ptab v = none := by
                            simp [walk_pt, walk_pt_entry, h₁]
                          exact ⟨pt, by simp [hnone], hwf, rfl, fun w => by simp [hnone]⟩
                      | true =>
                          -- a 4 KiB page
                          have hl : walk_pt ptab v = some (.base (ptab (pt_index v))) := by
                            simp [walk_pt, walk_pt_entry, h₁]
                          exact ⟨_, by simp only [if_true, hl]; rfl, hwf.with_pt hpt_at _,
                            by simp [with_pt],
                            fun w => by
                              rw [walk_write_pt hpt_at, hl, walk_pt_entry_modify]
                              rfl⟩

end PageTable

end Nrk.Memory
