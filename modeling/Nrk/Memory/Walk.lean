import Nrk.Memory.PageTable

/-! # What a page table translates

`walk pt v`, the page that maps `v`, and what each change of the tree does to it. -/

namespace Nrk.Memory

/-! ## Indices and blocks -/

/-- `v` and `w` lie on the same path down to a PT entry. -/
def SameBlock (v w : ℕ) : Prop :=
  pml4_index v = pml4_index w ∧ pdpt_index v = pdpt_index w ∧ pd_index v = pd_index w ∧
    pt_index v = pt_index w

/-- `v` and `w` lie on the same path down to a PD entry. -/
def SameLargeBlock (v w : ℕ) : Prop :=
  pml4_index v = pml4_index w ∧ pdpt_index v = pdpt_index w ∧ pd_index v = pd_index w

instance (v w : ℕ) : Decidable (SameBlock v w) := inferInstanceAs (Decidable (_ ∧ _))

instance (v w : ℕ) : Decidable (SameLargeBlock v w) := inferInstanceAs (Decidable (_ ∧ _))

theorem sameBlock_iff {v w : ℕ} (hv : v < 2 ^ 48) (hw : w < 2 ^ 48) :
    SameBlock v w ↔ v / BASE_PAGE_SIZE = w / BASE_PAGE_SIZE := by
  simp only [SameBlock, pml4_index, pdpt_index, pd_index, pt_index, Fin.mk.injEq,
    BASE_PAGE_SIZE]
  omega

theorem sameLargeBlock_iff {v w : ℕ} (hv : v < 2 ^ 48) (hw : w < 2 ^ 48) :
    SameLargeBlock v w ↔ v / LARGE_PAGE_SIZE = w / LARGE_PAGE_SIZE := by
  simp only [SameLargeBlock, pml4_index, pdpt_index, pd_index, Fin.mk.injEq, LARGE_PAGE_SIZE]
  omega

/-! ## Walks -/

/-- The last entry of a walk. -/
inductive Leaf where
  | huge (e : Entry)
  | large (e : Entry)
  | base (e : Entry)
  deriving DecidableEq, Repr

namespace Leaf

/-- The entry of the page. -/
def entry : Leaf → Entry
  | huge e => e
  | large e => e
  | base e => e

/-- The bytes the page spans. -/
def size : Leaf → ℕ
  | huge _ => HUGE_PAGE_SIZE
  | large _ => LARGE_PAGE_SIZE
  | base _ => BASE_PAGE_SIZE

/-- What `resolve` returns for `v` through this page. -/
def translate (l : Leaf) (v : ℕ) : ℕ × MapAction :=
  (l.entry.address + v % l.size, MapAction.from_flags l.entry.flags)

end Leaf

namespace PageTable

def walk_pt_entry (e : Entry) : Option Leaf :=
  if e.is_present then some (.base e) else none

def walk_pt (ptab : PT) (v : ℕ) : Option Leaf := walk_pt_entry (ptab (pt_index v))

def walk_pd_slot (s : Slot PT) (v : ℕ) : Option Leaf :=
  if s.entry.is_present && s.entry.is_page then some (.large s.entry)
  else s.next.bind (walk_pt · v)

def walk_pd (pd : PD) (v : ℕ) : Option Leaf := walk_pd_slot (pd (pd_index v)) v

def walk_pdpt_slot (s : Slot PD) (v : ℕ) : Option Leaf :=
  if s.entry.is_present && s.entry.is_page then some (.huge s.entry)
  else s.next.bind (walk_pd · v)

def walk_pdpt (pdpt : PDPT) (v : ℕ) : Option Leaf := walk_pdpt_slot (pdpt (pdpt_index v)) v

/-- The page that maps `v`. -/
def walk (pt : PageTable) (v : ℕ) : Option Leaf := (pt.pdpt_at (pml4_index v)).bind (walk_pdpt · v)

end PageTable

/-! ## Slots and paths -/

namespace Slot

variable {α : Type}

@[simp] theorem map_table_entry (s : Slot α) (f : α → α) : (s.map_table f).entry = s.entry := rfl

@[simp] theorem map_table_next (s : Slot α) (f : α → α) :
    (s.map_table f).next = s.next.map f := rfl

@[simp] theorem leaf_entry (e : Entry) (h : (e.is_present && !e.is_page) = false) :
    (leaf e h : Slot α).entry = e := rfl

@[simp] theorem leaf_next (e : Entry) (h : (e.is_present && !e.is_page) = false) :
    (leaf e h : Slot α).next = none := rfl

@[simp] theorem absent_entry : (absent : Slot α).entry = Entry.zero := rfl

@[simp] theorem absent_next : (absent : Slot α).next = none := rfl

@[simp] theorem table_entry (address : ℕ) (t : α) :
    (table address t).entry = ⟨address, { Flags.empty with P := true, RW := true, US := true }⟩ :=
  rfl

@[simp] theorem table_next (address : ℕ) (t : α) : (table address t).next = some t := rfl

theorem next_eq_none {s : Slot α} (h : (s.entry.is_present && !s.entry.is_page) = false) :
    s.next = none := by
  have := s.next_iff
  rw [h] at this
  simpa using this

theorem exists_next {s : Slot α} (hp : s.entry.is_present = true)
    (hnp : s.entry.is_page = false) : ∃ t, s.next = some t := by
  have := s.next_iff
  rw [hp, hnp] at this
  exact Option.isSome_iff_exists.mp (by simpa using this)

theorem not_page_of_next {s : Slot α} {t : α} (h : s.next = some t) :
    s.entry.is_present = true ∧ s.entry.is_page = false := by
  have := s.next_iff
  rw [h] at this
  simpa using this.symm

end Slot

@[simp] theorem Entry.zero_is_present : Entry.zero.is_present = false := rfl

@[simp] theorem Entry.zero_is_page : Entry.zero.is_page = false := rfl

namespace PageTable

variable {pt : PageTable} {i j k : Fin 512}

@[simp] theorem pdpt_at_set_pml4 (s : Slot PDPT) (i' : Fin 512) :
    (pt.set_pml4 i s).pdpt_at i' = if i' = i then s.next else pt.pdpt_at i' := by
  by_cases h : i' = i <;> simp [set_pml4, pdpt_at, h]

@[simp] theorem pml4_set_pml4 (s : Slot PDPT) (i' : Fin 512) :
    (pt.set_pml4 i s).pml4 i' = if i' = i then s else pt.pml4 i' := by
  simp [set_pml4, Function.update_apply]

@[simp] theorem da_set_pml4 (s : Slot PDPT) : (pt.set_pml4 i s).da = pt.da := rfl

@[simp] theorem frame_empty_set_pml4 (s : Slot PDPT) :
    (pt.set_pml4 i s).frame_empty = pt.frame_empty := rfl

theorem with_pdpt_eq (t : PDPT) :
    pt.with_pdpt i t = pt.set_pml4 i ((pt.pml4 i).map_table fun _ => t) := rfl

theorem with_pd_eq (t : PD) :
    pt.with_pd i j t = pt.set_pml4 i ((pt.pml4 i).map_table fun pdpt =>
      Function.update pdpt j ((pdpt j).map_table fun _ => t)) := rfl

theorem with_pt_eq (t : PT) :
    pt.with_pt i j k t = pt.set_pml4 i ((pt.pml4 i).map_table fun pdpt =>
      Function.update pdpt j ((pdpt j).map_table fun pd =>
        Function.update pd k ((pd k).map_table fun _ => t))) := rfl

/-! ### Reading a walk through a table on the path -/

theorem walk_eq_walk_pdpt {pdpt : PDPT} (h : pt.pdpt_at i = some pdpt) {w : ℕ}
    (hw : pml4_index w = i) : pt.walk w = walk_pdpt pdpt w := by
  simp [walk, hw, h]

theorem walk_eq_walk_pd {pd : PD} (h : pt.pd_at i j = some pd) {w : ℕ}
    (hw : pml4_index w = i ∧ pdpt_index w = j) : pt.walk w = walk_pd pd w := by
  obtain ⟨pdpt, hpdpt, hpd⟩ := Option.bind_eq_some_iff.mp h
  rw [walk_eq_walk_pdpt hpdpt hw.1]
  have hnp := (Slot.not_page_of_next hpd).2
  simp [walk_pdpt, walk_pdpt_slot, hw.2, hpd, hnp]

theorem walk_eq_walk_pt {ptab : PT} (h : pt.pt_at i j k = some ptab) {w : ℕ}
    (hw : pml4_index w = i ∧ pdpt_index w = j ∧ pd_index w = k) :
    pt.walk w = walk_pt ptab w := by
  obtain ⟨pd, hpd, hpt⟩ := Option.bind_eq_some_iff.mp h
  rw [walk_eq_walk_pd hpd ⟨hw.1, hw.2.1⟩]
  have hnp := (Slot.not_page_of_next hpt).2
  simp [walk_pd, walk_pd_slot, hw.2.2, hpt, hnp]

/-! ### Walks after a write along a path -/

theorem walk_set_pml4 (s : Slot PDPT) (w : ℕ) :
    (pt.set_pml4 i s).walk w =
      if pml4_index w = i then s.next.bind (walk_pdpt · w) else pt.walk w := by
  by_cases hw : pml4_index w = i <;> simp [walk, hw]

theorem walk_with_pdpt {pdpt : PDPT} (h : pt.pdpt_at i = some pdpt) (t : PDPT) (w : ℕ) :
    (pt.with_pdpt i t).walk w = if pml4_index w = i then walk_pdpt t w else pt.walk w := by
  rw [with_pdpt_eq, walk_set_pml4]
  simp only [pdpt_at] at h
  simp [h]

theorem walk_with_pd {pd : PD} (h : pt.pd_at i j = some pd) (t : PD) (w : ℕ) :
    (pt.with_pd i j t).walk w =
      if pml4_index w = i ∧ pdpt_index w = j then walk_pd t w else pt.walk w := by
  obtain ⟨pdpt, hpdpt, hpd⟩ := Option.bind_eq_some_iff.mp h
  have hnp := (Slot.not_page_of_next hpd).2
  rw [with_pd_eq, walk_set_pml4]
  simp only [pdpt_at] at hpdpt
  by_cases hi : pml4_index w = i
  · by_cases hj : pdpt_index w = j
    · simp [hpdpt, hi, hj, walk_pdpt, walk_pdpt_slot, hpd, hnp]
    · rw [walk_eq_walk_pdpt hpdpt hi]
      simp [hpdpt, hi, hj, walk_pdpt]
  · simp [hi]

theorem walk_with_pt {ptab : PT} (h : pt.pt_at i j k = some ptab) (t : PT) (w : ℕ) :
    (pt.with_pt i j k t).walk w =
      if pml4_index w = i ∧ pdpt_index w = j ∧ pd_index w = k then walk_pt t w
      else pt.walk w := by
  obtain ⟨pd, hpd, hpt⟩ := Option.bind_eq_some_iff.mp h
  obtain ⟨pdpt, hpdpt, hpd'⟩ := Option.bind_eq_some_iff.mp hpd
  have hnp₃ := (Slot.not_page_of_next hpd').2
  have hnp₂ := (Slot.not_page_of_next hpt).2
  rw [with_pt_eq, walk_set_pml4]
  simp only [pdpt_at] at hpdpt
  by_cases hi : pml4_index w = i
  · rw [walk_eq_walk_pdpt hpdpt hi]
    by_cases hj : pdpt_index w = j
    · by_cases hk : pd_index w = k
      · simp [hpdpt, hi, hj, hk, walk_pdpt, walk_pdpt_slot, hpd', hnp₃, walk_pd,
          walk_pd_slot, hpt, hnp₂]
      · simp [hpdpt, hi, hj, hk, walk_pdpt, walk_pdpt_slot, hpd', hnp₃, walk_pd]
    · simp [hpdpt, hi, hj, walk_pdpt]
  · simp [hi]

/-! ### Reading tables after a write -/

@[simp] theorem pml4_with_pdpt_entry (t : PDPT) (i' : Fin 512) :
    ((pt.with_pdpt i t).pml4 i').entry = (pt.pml4 i').entry := by
  by_cases h : i' = i <;> simp [with_pdpt_eq, h]

@[simp] theorem pml4_with_pd_entry (t : PD) (i' : Fin 512) :
    ((pt.with_pd i j t).pml4 i').entry = (pt.pml4 i').entry := by
  by_cases h : i' = i <;> simp [with_pd_eq, h]

@[simp] theorem pml4_with_pt_entry (t : PT) (i' : Fin 512) :
    ((pt.with_pt i j k t).pml4 i').entry = (pt.pml4 i').entry := by
  by_cases h : i' = i <;> simp [with_pt_eq, h]

theorem pdpt_at_with_pdpt {pdpt : PDPT} (h : pt.pdpt_at i = some pdpt) (t : PDPT) :
    (pt.with_pdpt i t).pdpt_at i = some t := by
  simp only [pdpt_at] at h
  simp [with_pdpt_eq, h]

theorem pd_at_with_pdpt {pdpt : PDPT} (h : pt.pdpt_at i = some pdpt) (t : PDPT) :
    (pt.with_pdpt i t).pd_at i j = (t j).next := by
  simp [pd_at, pdpt_at_with_pdpt h]

theorem pdpt_at_with_pd {pd : PD} (h : pt.pd_at i j = some pd) (t : PD) :
    ∃ pdpt, (pt.with_pd i j t).pdpt_at i = some pdpt ∧ (pdpt j).next = some t ∧
      (pdpt j).entry = ((pt.pdpt_at i).bind fun pdpt => some (pdpt j).entry).getD Entry.zero := by
  obtain ⟨pdpt, hpdpt, hpd⟩ := Option.bind_eq_some_iff.mp h
  simp only [pdpt_at] at hpdpt
  refine ⟨Function.update pdpt j ((pdpt j).map_table fun _ => t), ?_, ?_, ?_⟩
  · simp [with_pd_eq, pdpt_at, hpdpt]
  · simp [hpd]
  · simp [pdpt_at, hpdpt]

theorem pd_at_with_pd {pd : PD} (h : pt.pd_at i j = some pd) (t : PD) :
    (pt.with_pd i j t).pd_at i j = some t := by
  obtain ⟨pdpt, hpdpt, hpd⟩ := Option.bind_eq_some_iff.mp h
  simp only [pdpt_at] at hpdpt
  simp [with_pd_eq, pd_at, pdpt_at, hpdpt, hpd]

theorem pt_at_with_pd {pd : PD} (h : pt.pd_at i j = some pd) (t : PD) :
    (pt.with_pd i j t).pt_at i j k = (t k).next := by
  simp [pt_at, pd_at_with_pd h]

theorem pt_at_with_pt {ptab : PT} (h : pt.pt_at i j k = some ptab) (t : PT) :
    (pt.with_pt i j k t).pt_at i j k = some t := by
  obtain ⟨pd, hpd, hpt⟩ := Option.bind_eq_some_iff.mp h
  obtain ⟨pdpt, hpdpt, hpd'⟩ := Option.bind_eq_some_iff.mp hpd
  simp only [pdpt_at] at hpdpt
  simp [with_pt_eq, pt_at, pd_at, pdpt_at, hpdpt, hpd', hpt]

/-! ### Walks through one table -/

theorem walk_pt_update (ptab : PT) (l : Fin 512) (e : Entry) (w : ℕ) :
    walk_pt (Function.update ptab l e) w =
      if pt_index w = l then walk_pt_entry e else walk_pt ptab w := by
  by_cases h : pt_index w = l <;> simp [walk_pt, h]

theorem walk_pd_update (pd : PD) (k : Fin 512) (s : Slot PT) (w : ℕ) :
    walk_pd (Function.update pd k s) w =
      if pd_index w = k then walk_pd_slot s w else walk_pd pd w := by
  by_cases h : pd_index w = k <;> simp [walk_pd, h]

theorem walk_pdpt_update (pdpt : PDPT) (j : Fin 512) (s : Slot PD) (w : ℕ) :
    walk_pdpt (Function.update pdpt j s) w =
      if pdpt_index w = j then walk_pdpt_slot s w else walk_pdpt pdpt w := by
  by_cases h : pdpt_index w = j <;> simp [walk_pdpt, h]

@[simp] theorem walk_pt_entry_zero : walk_pt_entry Entry.zero = none := rfl

@[simp] theorem walk_pd_slot_absent (w : ℕ) : walk_pd_slot Slot.absent w = none := rfl

@[simp] theorem walk_pdpt_slot_absent (w : ℕ) : walk_pdpt_slot Slot.absent w = none := rfl

@[simp] theorem walk_pd_slot_zeroed (address : ℕ) (w : ℕ) :
    walk_pd_slot (Slot.table address fun _ => Entry.zero) w = none := by
  simp [walk_pd_slot, walk_pt, Entry.is_present, Entry.is_page, Flags.empty]

@[simp] theorem walk_pdpt_slot_zeroed (address : ℕ) (w : ℕ) :
    walk_pdpt_slot (Slot.table address fun _ => Slot.absent) w = none := by
  simp [walk_pdpt_slot, walk_pd, Entry.is_present, Entry.is_page, Flags.empty]

@[simp] theorem walk_pdpt_zeroed (address : ℕ) (w : ℕ) :
    (Slot.table address fun _ => (Slot.absent : Slot PD)).next.bind (walk_pdpt · w) = none := by
  simp [walk_pdpt]

end PageTable

/-! ## Well-formed trees -/

/-- A slot that points to a table holds a non-zero address, and its table satisfies `P`. -/
def Slot.Wf {α : Type} (P : α → Prop) (s : Slot α) : Prop :=
  ∀ t, s.next = some t → s.entry.address ≠ 0 ∧ P t

/-- Every table pointer of a PD holds a non-zero address. -/
def WfPD (pd : PD) : Prop := ∀ k, (pd k).Wf fun _ => True

def WfPDPT (pdpt : PDPT) : Prop := ∀ j, (pdpt j).Wf WfPD

namespace Slot

variable {α : Type} {P : α → Prop}

@[simp] theorem wf_leaf (e : Entry) (h : (e.is_present && !e.is_page) = false) :
    (leaf e h : Slot α).Wf P := by
  simp [Slot.Wf]

@[simp] theorem wf_absent : (absent : Slot α).Wf P := wf_leaf _ _

@[simp] theorem wf_table {address : ℕ} {t : α} : (table address t).Wf P ↔ address ≠ 0 ∧ P t := by
  simp [Slot.Wf]

theorem Wf.map_table {s : Slot α} (hs : s.Wf P) {f : α → α} (hf : ∀ t, s.next = some t → P (f t)) :
    (s.map_table f).Wf P := by
  intro t ht
  obtain ⟨t₀, h₀, rfl⟩ := Option.map_eq_some_iff.mp ht
  exact ⟨(hs t₀ h₀).1, hf t₀ h₀⟩

end Slot

theorem WfPD.update {pd : PD} (h : WfPD pd) {k : Fin 512} {s : Slot PT}
    (hs : s.Wf fun _ => True) : WfPD (Function.update pd k s) := by
  intro k'
  by_cases hk : k' = k
  · subst hk; simpa using hs
  · simpa [hk] using h k'

theorem WfPDPT.update {pdpt : PDPT} (h : WfPDPT pdpt) {j : Fin 512} {s : Slot PD}
    (hs : s.Wf WfPD) : WfPDPT (Function.update pdpt j s) := by
  intro j'
  by_cases hj : j' = j
  · subst hj; simpa using hs
  · simpa [hj] using h j'

@[simp] theorem wfPD_zeroed : WfPD fun _ => Slot.absent := fun _ => Slot.wf_absent

@[simp] theorem wfPDPT_zeroed : WfPDPT fun _ => Slot.absent := fun _ => Slot.wf_absent

/-- The allocator grants every request a page-aligned, non-zero frame. -/
def DA.Grants (da : DA) : Prop := ∀ n, ∃ p, da.frames n = some p ∧ p ≠ 0 ∧ p % BASE_PAGE_SIZE = 0

theorem DA.Grants.allocate {da : DA} (h : da.Grants) : da.allocate.2.Grants := fun n => h (n + 1)

theorem DA.grants_succ_mul : DA.Grants ⟨fun n => some ((n + 1) * BASE_PAGE_SIZE)⟩ := fun n =>
  ⟨(n + 1) * BASE_PAGE_SIZE, rfl, by simp [BASE_PAGE_SIZE], Nat.mul_mod_left _ _⟩

namespace PageTable

/-- The shape of a page table that the code keeps: its dereferences succeed. -/
structure Wf (pt : PageTable) : Prop where
  not_page : ∀ i, (pt.pml4 i).entry.is_page = false
  slots : ∀ i, (pt.pml4 i).Wf WfPDPT
  da : pt.da.Grants

variable {pt : PageTable} {i j k : Fin 512}

theorem wf_new {da : DA} (hda : da.Grants) (frame_empty : ℕ → Bool) :
    (PageTable.new da frame_empty).Wf :=
  ⟨fun _ => rfl, fun _ => Slot.wf_absent, hda⟩

theorem Wf.pdpt_at_some (hwf : pt.Wf) (hp : (pt.pml4 i).entry.is_present = true) :
    ∃ pdpt, pt.pdpt_at i = some pdpt := by
  have := (pt.pml4 i).next_iff
  rw [hp, hwf.not_page i] at this
  exact Option.isSome_iff_exists.mp (by simpa [pdpt_at] using this)

theorem Wf.deref_pdpt (hwf : pt.Wf) {pdpt : PDPT} (h : pt.pdpt_at i = some pdpt) :
    deref (pt.pml4 i).entry (pt.pdpt_at i) = .ok pdpt := by
  simp [deref, h, (hwf.slots i pdpt h).1]

theorem Wf.wfPDPT (hwf : pt.Wf) {pdpt : PDPT} (h : pt.pdpt_at i = some pdpt) : WfPDPT pdpt :=
  (hwf.slots i pdpt h).2

theorem Wf.deref_pd (hwf : pt.Wf) {pdpt : PDPT} (h : pt.pdpt_at i = some pdpt) {pd : PD}
    (hpd : (pdpt j).next = some pd) : deref (pdpt j).entry (pt.pd_at i j) = .ok pd := by
  have hne := (hwf.wfPDPT h j pd hpd).1
  simp [deref, pd_at, h, hpd, hne]

theorem Wf.deref_pt (hwf : pt.Wf) {pdpt : PDPT} (h : pt.pdpt_at i = some pdpt) {pd : PD}
    (hpd : (pdpt j).next = some pd) {ptab : PT} (hpt : (pd k).next = some ptab) :
    deref (pd k).entry (pt.pt_at i j k) = .ok ptab := by
  have hne := ((hwf.wfPDPT h j pd hpd).2 k ptab hpt).1
  simp [deref, pt_at, pd_at, h, hpd, hpt, hne]

theorem Wf.set_pml4 (hwf : pt.Wf) {s : Slot PDPT} (hs : s.entry.is_page = false)
    (hw : s.Wf WfPDPT) : (pt.set_pml4 i s).Wf := by
  refine ⟨fun i' => ?_, fun i' => ?_, hwf.da⟩
  · by_cases h : i' = i <;> simp [h, hs, hwf.not_page i']
  · by_cases h : i' = i
    · simpa [h] using hw
    · simpa [h] using hwf.slots i'

theorem Wf.with_pdpt (hwf : pt.Wf) {t : PDPT} (ht : WfPDPT t) : (pt.with_pdpt i t).Wf :=
  hwf.set_pml4 (by simpa using hwf.not_page i) ((hwf.slots i).map_table fun _ _ => ht)

theorem Wf.with_pd (hwf : pt.Wf) {pd : PD} (h : pt.pd_at i j = some pd) {t : PD}
    (ht : WfPD t) : (pt.with_pd i j t).Wf := by
  refine hwf.set_pml4 (by simpa using hwf.not_page i) ((hwf.slots i).map_table ?_)
  intro pdpt hpdpt
  obtain ⟨pdpt', hpdpt', hpd⟩ := Option.bind_eq_some_iff.mp h
  simp only [pdpt_at] at hpdpt'
  rw [hpdpt] at hpdpt'
  cases hpdpt'
  exact (hwf.wfPDPT hpdpt).update ((hwf.wfPDPT hpdpt j).map_table fun _ _ => ht)

theorem Wf.with_pt (hwf : pt.Wf) {ptab : PT} (h : pt.pt_at i j k = some ptab) (t : PT) :
    (pt.with_pt i j k t).Wf := by
  refine hwf.set_pml4 (by simpa using hwf.not_page i) ((hwf.slots i).map_table ?_)
  intro pdpt hpdpt
  obtain ⟨pd, hpd, hpt⟩ := Option.bind_eq_some_iff.mp h
  obtain ⟨pdpt', hpdpt', hpd'⟩ := Option.bind_eq_some_iff.mp hpd
  simp only [pdpt_at] at hpdpt'
  rw [hpdpt] at hpdpt'
  cases hpdpt'
  refine (hwf.wfPDPT hpdpt).update ((hwf.wfPDPT hpdpt j).map_table fun pd' hpd'' => ?_)
  rw [hpd'] at hpd''
  cases hpd''
  exact ((hwf.wfPDPT hpdpt j pd hpd').2).update (((hwf.wfPDPT hpdpt j pd hpd').2 k).map_table
    fun _ _ => trivial)

/-! ### Allocation -/

/-- The page table after one allocation. -/
def advance (pt : PageTable) : PageTable := { pt with da := pt.da.allocate.2 }

@[simp] theorem advance_pml4 : pt.advance.pml4 = pt.pml4 := rfl

@[simp] theorem advance_pdpt_at : pt.advance.pdpt_at i = pt.pdpt_at i := rfl

@[simp] theorem advance_pd_at : pt.advance.pd_at i j = pt.pd_at i j := rfl

@[simp] theorem advance_pt_at : pt.advance.pt_at i j k = pt.pt_at i j k := rfl

@[simp] theorem advance_walk (w : ℕ) : pt.advance.walk w = pt.walk w := rfl

@[simp] theorem advance_frame_empty : pt.advance.frame_empty = pt.frame_empty := rfl

theorem Wf.advance (hwf : pt.Wf) : pt.advance.Wf := ⟨hwf.not_page, hwf.slots, hwf.da.allocate⟩

theorem Wf.new_table_ok (hwf : pt.Wf) {α : Type} (z : α) :
    ∃ p, p ≠ 0 ∧ pt.new_table z = .ok (Slot.table p z, pt.advance) := by
  obtain ⟨p, hp, hne, halign⟩ := hwf.da 0
  refine ⟨p, hne, ?_⟩
  simp [PageTable.new_table, alloc_frame, DA.allocate, hp, halign, PageTable.advance]

/-! ### Resolving is reading the walk -/

theorem resolve_eq (hwf : pt.Wf) (v : ℕ) :
    pt.resolve v = .ok ((pt.walk v).elim (.error .NotMapped) fun l => .ok (l.translate v)) := by
  unfold resolve
  dsimp only
  -- one case per level of the walk, as `resolve` reads it
  cases h₄ : (pt.pml4 (pml4_index v)).entry.is_present with
  | false =>
      have hnone : pt.pdpt_at (pml4_index v) = none := Slot.next_eq_none (by simp [h₄])
      simp [walk, hnone]
  | true =>
      obtain ⟨pdpt, hpdpt⟩ := hwf.pdpt_at_some h₄
      simp only [Bool.not_true, Bool.false_eq_true, if_false, hwf.deref_pdpt hpdpt,
        Outcome.ok_bind, walk_eq_walk_pdpt hpdpt rfl, walk_pdpt]
      cases h₃ : (pdpt (pdpt_index v)).entry.is_present with
      | false =>
          have hn₃ : (pdpt (pdpt_index v)).next = none := Slot.next_eq_none (by simp [h₃])
          simp [walk_pdpt_slot, h₃, hn₃]
      | true =>
          cases hp₃ : (pdpt (pdpt_index v)).entry.is_page with
          | true => simp [walk_pdpt_slot, h₃, hp₃, Leaf.translate, Leaf.entry, Leaf.size]
          | false =>
              obtain ⟨pd, hpd⟩ := Slot.exists_next h₃ hp₃
              simp only [Bool.not_true, Bool.false_eq_true, if_false, hwf.deref_pd hpdpt hpd,
                Outcome.ok_bind, walk_pdpt_slot, h₃, hp₃, Bool.and_false, hpd,
                Option.bind_some, walk_pd]
              cases h₂ : (pd (pd_index v)).entry.is_present with
              | false =>
                  have hn₂ : (pd (pd_index v)).next = none := Slot.next_eq_none (by simp [h₂])
                  simp [walk_pd_slot, h₂, hn₂]
              | true =>
                  cases hp₂ : (pd (pd_index v)).entry.is_page with
                  | true => simp [walk_pd_slot, h₂, hp₂, Leaf.translate, Leaf.entry, Leaf.size]
                  | false =>
                      obtain ⟨ptab, hpt⟩ := Slot.exists_next h₂ hp₂
                      simp only [Bool.not_true, Bool.false_eq_true, if_false,
                        hwf.deref_pt hpdpt hpd hpt, Outcome.ok_bind, walk_pd_slot, h₂, hp₂,
                        Bool.and_false, hpt, Option.bind_some, walk_pt, walk_pt_entry]
                      split <;> simp [Leaf.translate, Leaf.entry, Leaf.size]

end PageTable

end Nrk.Memory
