import Nrk.Memory.MapAction

/-! # The x86-64 page table (`arch/x86_64/vspace/page_table.rs`)

The four-level tree, read along the path of the address being worked on; the three
`insert_*_mappings` loops are one loop over the page size. -/

namespace Nrk.Memory

/-- `PML4_SLOT_SIZE`: the bytes one PML4 entry spans. -/
def PML4_SLOT_SIZE : ℕ := 512 * HUGE_PAGE_SIZE

def pml4_index (v : ℕ) : Fin 512 := ⟨v / 2 ^ 39 % 512, Nat.mod_lt _ (by norm_num)⟩

def pdpt_index (v : ℕ) : Fin 512 := ⟨v / 2 ^ 30 % 512, Nat.mod_lt _ (by norm_num)⟩

def pd_index (v : ℕ) : Fin 512 := ⟨v / 2 ^ 21 % 512, Nat.mod_lt _ (by norm_num)⟩

def pt_index (v : ℕ) : Fin 512 := ⟨v / 2 ^ 12 % 512, Nat.mod_lt _ (by norm_num)⟩

/-! ## Entries, slots and tables -/

/-- A page-table entry: `XEntry::new(address, flags)`. The x86 crate keeps the address in bits
12..51 of one word; the record keeps it whole, which reads back the same below `2^52`. -/
structure Entry where
  address : ℕ
  flags : Flags
  deriving DecidableEq, Repr

namespace Entry

/-- The entry with no bit set: what a zeroed table holds and what unmapping writes. -/
def zero : Entry := ⟨0, Flags.empty⟩

def is_present (e : Entry) : Bool := e.flags.P

def is_page (e : Entry) : Bool := e.flags.PS

end Entry

/-- An entry of a PML4, PDPT or PD with the table stored at its address. An entry points to
a table exactly when it is present and not a page, as every entry the code writes does. -/
structure Slot (α : Type) where
  entry : Entry
  next : Option α
  next_iff : next.isSome = (entry.is_present && !entry.is_page)

/-- The 512 entries of a table. -/
abbrev Table (α : Type) := Fin 512 → α

abbrev PT := Table Entry

abbrev PD := Table (Slot PT)

abbrev PDPT := Table (Slot PD)

abbrev PML4 := Table (Slot PDPT)

namespace Slot

variable {α : Type}

/-- A slot that points to no table: absent, or a page. -/
def leaf (e : Entry) (h : (e.is_present && !e.is_page) = false) : Slot α :=
  ⟨e, none, by simp [h]⟩

def absent : Slot α := leaf Entry.zero rfl

/-- The entry `new_pt`, `new_pd` and `new_pdpt` return: `P | RW | US` at the new frame. -/
def table (address : ℕ) (t : α) : Slot α :=
  ⟨⟨address, { Flags.empty with P := true, RW := true, US := true }⟩, some t, rfl⟩

/-- The slot with the table below it changed by `f`. -/
def map_table (s : Slot α) (f : α → α) : Slot α :=
  ⟨s.entry, s.next.map f, by simp [s.next_iff]⟩

end Slot

/-- `get_pt`, `get_pd`, `get_pdpt` and their `_mut` variants: the table stored at the
address `entry` holds, which is `t`, after the assertion that the address is not zero. -/
def deref {α : Type} (entry : Entry) (t : Option α) : Outcome α :=
  if entry.address = 0 then .panic
  else match t with
    | some t => .ok t
    | none => .panic

/-- Whether a table has no present entry: the scan of `can_map_as_huge_page` and
`can_map_as_large_page`. -/
def all_entries_empty {β : Type} (present : β → Bool) (t : Table β) : Bool :=
  (List.finRange 512).all fun i => !present (t i)

/-- The deterministic allocator `DA` that a process's page table takes the frames of new
tables from: the physical address that each successive allocation returns, or `none`. -/
structure DA where
  frames : ℕ → Option ℕ

namespace DA

def allocate (da : DA) : Option ℕ × DA := (da.frames 0, ⟨fun n => da.frames (n + 1)⟩)

end DA

/-- A modification of an existing mapping (`Modify`). -/
inductive Modify where
  | UpdateRights (rights : MapAction)
  | Unmap
  deriving DecidableEq, Repr

/-- `PageTable`: the PML4, the allocator, and (as `frame_empty`) what physical memory holds
where a scan looks below a page: whether the 512 words there have no present bit. -/
structure PageTable where
  pml4 : PML4
  da : DA
  frame_empty : ℕ → Bool

namespace PageTable

/-- `PageTable::new`: a zeroed PML4. Its allocation is not modelled. -/
def new (da : DA) (frame_empty : ℕ → Bool) : PageTable := ⟨fun _ => Slot.absent, da, frame_empty⟩

/-! ## Reading and writing along a path -/

/-- The PDPT that PML4 entry `i` points to. -/
def pdpt_at (pt : PageTable) (i : Fin 512) : Option PDPT := (pt.pml4 i).next

def pd_at (pt : PageTable) (i j : Fin 512) : Option PD :=
  (pt.pdpt_at i).bind fun pdpt => (pdpt j).next

def pt_at (pt : PageTable) (i j k : Fin 512) : Option PT :=
  (pt.pd_at i j).bind fun pd => (pd k).next

def set_pml4 (pt : PageTable) (i : Fin 512) (s : Slot PDPT) : PageTable :=
  { pt with pml4 := Function.update pt.pml4 i s }

/-- Writes `t` back as the PDPT below PML4 entry `i`. -/
def with_pdpt (pt : PageTable) (i : Fin 512) (t : PDPT) : PageTable :=
  pt.set_pml4 i ((pt.pml4 i).map_table fun _ => t)

def with_pd (pt : PageTable) (i j : Fin 512) (t : PD) : PageTable :=
  pt.set_pml4 i ((pt.pml4 i).map_table fun pdpt =>
    Function.update pdpt j ((pdpt j).map_table fun _ => t))

def with_pt (pt : PageTable) (i j k : Fin 512) (t : PT) : PageTable :=
  pt.set_pml4 i ((pt.pml4 i).map_table fun pdpt =>
    Function.update pdpt j ((pdpt j).map_table fun pd =>
      Function.update pd k ((pd k).map_table fun _ => t)))

/-! ## Allocating tables -/

/-- `alloc_frame`: a zeroed frame from `da`. The allocation is unwrapped, and `Frame::new`
asserts that its address is page-aligned. -/
def alloc_frame (pt : PageTable) : Outcome (ℕ × PageTable) :=
  match pt.da.allocate with
  | (some paddr, da) =>
      if paddr % BASE_PAGE_SIZE = 0 then .ok (paddr, { pt with da := da }) else .panic
  | (none, _) => .panic

/-- `new_pt`, `new_pd` and `new_pdpt`: an entry pointing to a new table, zeroed. -/
def new_table {α : Type} (pt : PageTable) (zeroed : α) : Outcome (Slot α × PageTable) := do
  let (paddr, pt) ← pt.alloc_frame
  return (Slot.table paddr zeroed, pt)

def new_pt (pt : PageTable) : Outcome (Slot PT × PageTable) :=
  pt.new_table fun _ => Entry.zero

def new_pd (pt : PageTable) : Outcome (Slot PD × PageTable) :=
  pt.new_table fun _ => Slot.absent

def new_pdpt (pt : PageTable) : Outcome (Slot PDPT × PageTable) :=
  pt.new_table fun _ => Slot.absent

/-- `get_or_alloc_pdpt`: the PDPT for `vbase`, allocated first when its PML4 entry is not
present. -/
def get_or_alloc_pdpt (pt : PageTable) (vbase : ℕ) : Outcome (PageTable × PDPT) := do
  let i := pml4_index vbase
  let pt ← (if (pt.pml4 i).entry.is_present then pure pt else do
    let (s, pt) ← pt.new_pdpt
    pure (pt.set_pml4 i s) : Outcome PageTable)
  -- `assert!(self.pml4[pml4_idx].is_present())`
  if (pt.pml4 i).entry.is_present then do
    let pdpt ← deref (pt.pml4 i).entry (pt.pdpt_at i)
    return (pt, pdpt)
  else .panic

/-! ## Mapping -/

/-- `can_map_as_huge_page`: whether `vbase` starts a 1 GiB slot and a 1 GiB page of the
frame can go there. A PD left below the slot is reclaimed when it has no present entry. -/
def can_map_as_huge_page (pt : PageTable) (pbase psize vbase : ℕ) :
    Outcome (PageTable × Bool) := do
  let i := pml4_index vbase
  let j := pdpt_index vbase
  let pdpt ← deref (pt.pml4 i).entry (pt.pdpt_at i)
  let pdpt_entry := (pdpt j).entry
  let vaddr_pos := PML4_SLOT_SIZE * i + HUGE_PAGE_SIZE * j
  let want_to_map_here := vbase = vaddr_pos
  let physical_frame_is_aligned := pbase % HUGE_PAGE_SIZE = 0
  let want_to_map_at_least_1gib := HUGE_PAGE_SIZE ≤ psize
  if ¬ (want_to_map_here ∧ physical_frame_is_aligned ∧ want_to_map_at_least_1gib) then
    .ok (pt, false)
  else if !pdpt_entry.is_present then .ok (pt, true)
  else do
    -- `get_pd(pdpt_entry)`: below a 1 GiB page this reads the page itself
    let all_empty ← if pdpt_entry.address = 0 then .panic
      else .ok ((pt.pd_at i j).elim (pt.frame_empty pdpt_entry.address)
        (all_entries_empty fun s => s.entry.is_present))
    if all_empty then do
      let pdpt ← deref (pt.pml4 i).entry (pt.pdpt_at i)
      return (pt.with_pdpt i (Function.update pdpt j Slot.absent), true)
    else .ok (pt, false)

/-- `can_map_as_large_page`: the same one level down, for a 2 MiB page and a PT left below
its slot. -/
def can_map_as_large_page (pt : PageTable) (pdpt_entry : Entry) (pbase psize vbase : ℕ) :
    Outcome (PageTable × Bool) := do
  let i := pml4_index vbase
  let j := pdpt_index vbase
  let k := pd_index vbase
  let pd ← deref pdpt_entry (pt.pd_at i j)
  let pd_entry := (pd k).entry
  let vaddr_pos := PML4_SLOT_SIZE * i + HUGE_PAGE_SIZE * j + LARGE_PAGE_SIZE * k
  let want_to_map_here := vbase = vaddr_pos
  let physical_frame_is_aligned := pbase % LARGE_PAGE_SIZE = 0
  let want_to_map_at_least_2mib := LARGE_PAGE_SIZE ≤ psize
  if ¬ (want_to_map_here ∧ physical_frame_is_aligned ∧ want_to_map_at_least_2mib) then
    .ok (pt, false)
  else if !pd_entry.is_present then .ok (pt, true)
  else do
    -- `get_pt(pd_entry)`: below a 2 MiB page this reads the page itself
    let all_empty ← if pd_entry.address = 0 then .panic
      else .ok ((pt.pt_at i j k).elim (pt.frame_empty pd_entry.address)
        (all_entries_empty Entry.is_present))
    if all_empty then do
      let pd ← deref pdpt_entry (pt.pd_at i j)
      return (pt.with_pd i j (Function.update pd k Slot.absent), true)
    else .ok (pt, false)

/-- The loop of the three `insert_*_mappings`: from entry `idx` of `table` on, one page of
`page_size` bytes per entry, made by `page`, while `continues mapped` holds and the table has
entries left. A present entry that maps something else is an `AlreadyMapped` error when only
checking (`insert_mapping = false`) and a panic when inserting. Returns the bytes mapped. -/
def insert_loop {α : Type} (entry : α → Entry) (page : ℕ → α) (page_size : ℕ)
    (continues : ℕ → Bool) (rights : MapAction) (insert_mapping : Bool) (vbase pbase : ℕ)
    (table : Table α) (idx mapped : ℕ) : Outcome (Table α × Except KError ℕ) :=
  if h : continues mapped ∧ idx < 512 then
    let e := entry (table ⟨idx, h.2⟩)
    let conflict := e.is_present ∧
      (e.address ≠ pbase + mapped ∨ MapAction.from_flags e.flags ≠ rights)
    if !insert_mapping then
      if conflict then .ok (table, .error (.AlreadyMapped (vbase + mapped)))
      else insert_loop entry page page_size continues rights insert_mapping vbase pbase table
        (idx + 1) (mapped + page_size)
    else if conflict then .panic
    else insert_loop entry page page_size continues rights insert_mapping vbase pbase
      (Function.update table ⟨idx, h.2⟩ (page (pbase + mapped))) (idx + 1) (mapped + page_size)
  else .ok (table, .ok mapped)
termination_by 512 - idx

/-- `insert_huge_mappings`: 1 GiB pages into the PDPT of `vbase` from entry `pdpt_idx` on. -/
def insert_huge_mappings (pt : PageTable) (pdpt_idx : Fin 512) (vbase pbase psize : ℕ)
    (rights : MapAction) (insert_mapping : Bool) : Outcome (PageTable × Except KError ℕ) := do
  let (pt, pdpt) ← pt.get_or_alloc_pdpt vbase
  let (pdpt, r) ← insert_loop Slot.entry
    (fun a => Slot.leaf ⟨a, { rights.to_pdpt_rights with P := true, PS := true }⟩ rfl)
    HUGE_PAGE_SIZE (fun mapped => mapped < psize && HUGE_PAGE_SIZE ≤ psize - mapped)
    rights insert_mapping vbase pbase pdpt pdpt_idx 0
  return (pt.with_pdpt (pml4_index vbase) pdpt, r)

/-- `insert_large_mappings`: 2 MiB pages into the PD of `vbase` from its entry on. -/
def insert_large_mappings (pt : PageTable) (pdpt_entry : Entry) (vbase pbase psize : ℕ)
    (rights : MapAction) (insert_mapping : Bool) : Outcome (PageTable × Except KError ℕ) := do
  let i := pml4_index vbase
  let j := pdpt_index vbase
  let pd ← deref pdpt_entry (pt.pd_at i j)
  let (pd, r) ← insert_loop Slot.entry
    (fun a => Slot.leaf ⟨a, { rights.to_pd_rights with P := true, PS := true }⟩ rfl)
    LARGE_PAGE_SIZE (fun mapped => mapped < psize && LARGE_PAGE_SIZE ≤ psize - mapped)
    rights insert_mapping vbase pbase pd (pd_index vbase) 0
  return (pt.with_pd i j pd, r)

/-- `insert_base_mappings`: 4 KiB pages into the PT of `vbase` from its entry on. Its loop
guard has no size test. -/
def insert_base_mappings (pt : PageTable) (pd_entry : Entry) (vbase pbase psize : ℕ)
    (rights : MapAction) (insert_mapping : Bool) : Outcome (PageTable × Except KError ℕ) := do
  let i := pml4_index vbase
  let j := pdpt_index vbase
  let k := pd_index vbase
  let ptab ← deref pd_entry (pt.pt_at i j k)
  let (ptab, r) ← insert_loop id (fun a => ⟨a, { rights.to_pt_rights with P := true }⟩)
    BASE_PAGE_SIZE (fun mapped => mapped < psize)
    rights insert_mapping vbase pbase ptab (pt_index vbase) 0
  return (pt.with_pt i j k ptab, r)

/-- The branch of `map_generic` that gives the PDPT entry of `vbase`, when it is not present,
a new PD. -/
def alloc_pd (pt : PageTable) (pdpt_entry : Entry) (vbase : ℕ) : Outcome PageTable :=
  let i := pml4_index vbase
  if !pdpt_entry.is_present then do
    let (s, pt) ← pt.new_pd
    let pdpt ← deref (pt.pml4 i).entry (pt.pdpt_at i)
    pure (pt.with_pdpt i (Function.update pdpt (pdpt_index vbase) s))
  else pure pt

/-- The branch of `map_generic` that gives the PD entry of `vbase`, when it is not present,
a new PT. -/
def alloc_pt (pt : PageTable) (pdpt_entry pd_entry : Entry) (vbase : ℕ) : Outcome PageTable :=
  let i := pml4_index vbase
  let j := pdpt_index vbase
  if !pd_entry.is_present then do
    let (s, pt) ← pt.new_pt
    let pd ← deref pdpt_entry (pt.pd_at i j)
    pure (pt.with_pd i j (Function.update pd (pd_index vbase) s))
  else pure pt

/-- The PD level of `map_generic`, once the PDPT entry of `vbase` points to a PD: a 2 MiB
start where `can_map_as_large_page` allows it, otherwise a PT (allocated when missing) and
4 KiB pages. -/
def map_pd_level (pt : PageTable) (pdpt_entry : Entry) (vbase pbase psize : ℕ)
    (rights : MapAction) (insert_mapping : Bool) : Outcome (PageTable × Except KError ℕ) := do
  let i := pml4_index vbase
  let j := pdpt_index vbase
  let k := pd_index vbase
  let pd ← deref pdpt_entry (pt.pd_at i j)
  let pd_entry := (pd k).entry
  let (pt, large) ← pt.can_map_as_large_page pdpt_entry pbase psize vbase
  if large then pt.insert_large_mappings pdpt_entry vbase pbase psize rights insert_mapping
  else do
    let pt ← pt.alloc_pt pdpt_entry pd_entry vbase
    let pd ← deref pdpt_entry (pt.pd_at i j)
    let pd_entry := (pd k).entry
    -- `assert!(pd[pd_idx].is_present())`
    if !pd_entry.is_present then .panic
    else if pd_entry.is_page then
      if !insert_mapping then .ok (pt, .error (.AlreadyMapped vbase)) else .panic
    else pt.insert_base_mappings pd_entry vbase pbase psize rights insert_mapping

/-- `map_generic` up to its recursive call: the asserts, the PDPT (allocated when missing),
a 1 GiB start where `can_map_as_huge_page` allows it, otherwise a PD (allocated when
missing) and `map_pd_level`. Returns the bytes mapped by the `insert_*_mappings` loop. -/
def map_step (pt : PageTable) (vbase pbase psize : ℕ) (rights : MapAction)
    (insert_mapping : Bool) : Outcome (PageTable × Except KError ℕ) :=
  if ¬ (pbase % BASE_PAGE_SIZE = 0 ∧ vbase % BASE_PAGE_SIZE = 0 ∧
      psize % BASE_PAGE_SIZE = 0) then .panic
  else do
    let i := pml4_index vbase
    let j := pdpt_index vbase
    let (pt, pdpt) ← pt.get_or_alloc_pdpt vbase
    let pdpt_entry := (pdpt j).entry
    let (pt, huge) ← pt.can_map_as_huge_page pbase psize vbase
    if huge then pt.insert_huge_mappings j vbase pbase psize rights insert_mapping
    else do
      let pt ← pt.alloc_pd pdpt_entry vbase
      let pdpt ← deref (pt.pml4 i).entry (pt.pdpt_at i)
      let pdpt_entry := (pdpt j).entry
      -- `assert!(pdpt[pdpt_idx].is_present())`
      if !pdpt_entry.is_present then .panic
      else if pdpt_entry.is_page then
        if !insert_mapping then .ok (pt, .error (.AlreadyMapped vbase)) else .panic
      else pt.map_pd_level pdpt_entry vbase pbase psize rights insert_mapping

/-! ## Progress of the insert loops

`map_generic` calls itself on what the loop it ran has not mapped. Every loop it runs makes at
least one step, so the rest is shorter and the recursion ends. -/

section progress

variable {α : Type} {entry : α → Entry} {page : ℕ → α} {page_size : ℕ} {continues : ℕ → Bool}
  {rights : MapAction} {insert_mapping : Bool} {vbase pbase : ℕ}

theorem insert_loop_le {table t : Table α} {idx mapped m : ℕ}
    (h : insert_loop entry page page_size continues rights insert_mapping vbase pbase table idx
      mapped = .ok (t, .ok m)) : mapped ≤ m := by
  fun_induction insert_loop entry page page_size continues rights insert_mapping vbase pbase
    table idx mapped with
  | case1 => simp at h
  | case2 table idx mapped _ _ _ _ _ ih => exact le_trans (Nat.le_add_right _ _) (ih h)
  | case3 => simp at h
  | case4 table idx mapped _ _ _ _ _ ih => exact le_trans (Nat.le_add_right _ _) (ih h)
  | case5 =>
      simp only [Outcome.ok.injEq, Prod.mk.injEq, Except.ok.injEq] at h
      exact h.2.le

theorem insert_loop_progress {table t : Table α} {idx mapped m : ℕ} (hc : continues mapped = true)
    (hidx : idx < 512)
    (h : insert_loop entry page page_size continues rights insert_mapping vbase pbase table idx
      mapped = .ok (t, .ok m)) : mapped + page_size ≤ m := by
  rw [insert_loop, dif_pos ⟨hc, hidx⟩] at h
  dsimp only at h
  -- the conflicting cases return an error or panic; the others run the loop on
  split_ifs at h
  · cases h
  all_goals exact insert_loop_le h

end progress

theorem can_map_as_huge_page_size {pt pt' : PageTable} {pbase psize vbase : ℕ}
    (h : pt.can_map_as_huge_page pbase psize vbase = .ok (pt', true)) :
    HUGE_PAGE_SIZE ≤ psize := by
  by_contra hsize
  unfold can_map_as_huge_page at h
  dsimp only at h
  obtain ⟨pdpt, -, h⟩ := Outcome.bind_eq_ok.mp h
  rw [if_pos (fun hw => hsize hw.2.2)] at h
  cases h

theorem can_map_as_large_page_size {pt pt' : PageTable} {pdpt_entry : Entry}
    {pbase psize vbase : ℕ}
    (h : pt.can_map_as_large_page pdpt_entry pbase psize vbase = .ok (pt', true)) :
    LARGE_PAGE_SIZE ≤ psize := by
  by_contra hsize
  unfold can_map_as_large_page at h
  dsimp only at h
  obtain ⟨pd, -, h⟩ := Outcome.bind_eq_ok.mp h
  rw [if_pos (fun hw => hsize hw.2.2)] at h
  cases h

section progress

variable {pt pt' : PageTable} {vbase pbase psize m : ℕ} {rights : MapAction}
  {insert_mapping : Bool}

theorem insert_huge_mappings_pos {j : Fin 512} (hsize : HUGE_PAGE_SIZE ≤ psize)
    (h : pt.insert_huge_mappings j vbase pbase psize rights insert_mapping = .ok (pt', .ok m)) :
    0 < m := by
  unfold insert_huge_mappings at h
  obtain ⟨⟨pt₁, pdpt⟩, -, h⟩ := Outcome.bind_eq_ok.mp h
  obtain ⟨⟨pdpt', r⟩, hloop, h⟩ := Outcome.bind_eq_ok.mp h
  cases h
  have := insert_loop_progress (by simp [HUGE_PAGE_SIZE] at hsize ⊢; omega) j.isLt hloop
  simp only [HUGE_PAGE_SIZE] at this
  omega

theorem insert_large_mappings_pos {pdpt_entry : Entry} (hsize : LARGE_PAGE_SIZE ≤ psize)
    (h : pt.insert_large_mappings pdpt_entry vbase pbase psize rights insert_mapping =
      .ok (pt', .ok m)) : 0 < m := by
  unfold insert_large_mappings at h
  obtain ⟨pd, -, h⟩ := Outcome.bind_eq_ok.mp h
  obtain ⟨⟨pd', r⟩, hloop, h⟩ := Outcome.bind_eq_ok.mp h
  cases h
  have := insert_loop_progress (by simp [LARGE_PAGE_SIZE] at hsize ⊢; omega)
    (pd_index vbase).isLt hloop
  simp only [LARGE_PAGE_SIZE] at this
  omega

theorem insert_base_mappings_pos {pd_entry : Entry} (hpos : 0 < psize)
    (h : pt.insert_base_mappings pd_entry vbase pbase psize rights insert_mapping =
      .ok (pt', .ok m)) : 0 < m := by
  unfold insert_base_mappings at h
  obtain ⟨ptab, -, h⟩ := Outcome.bind_eq_ok.mp h
  obtain ⟨⟨ptab', r⟩, hloop, h⟩ := Outcome.bind_eq_ok.mp h
  cases h
  have := insert_loop_progress (by simpa using hpos) (pt_index vbase).isLt hloop
  simp only [BASE_PAGE_SIZE] at this
  omega

theorem map_pd_level_pos {pdpt_entry : Entry} (hpos : 0 < psize)
    (h : pt.map_pd_level pdpt_entry vbase pbase psize rights insert_mapping = .ok (pt', .ok m)) :
    0 < m := by
  unfold map_pd_level at h
  dsimp only at h
  obtain ⟨pd, -, h⟩ := Outcome.bind_eq_ok.mp h
  obtain ⟨⟨pt₁, large⟩, hlarge, h⟩ := Outcome.bind_eq_ok.mp h
  dsimp only at h
  by_cases hl : large = true
  · rw [if_pos hl] at h
    exact insert_large_mappings_pos (can_map_as_large_page_size (hl ▸ hlarge)) h
  · rw [if_neg hl] at h
    obtain ⟨pt₂, -, h⟩ := Outcome.bind_eq_ok.mp h
    obtain ⟨pd', -, h⟩ := Outcome.bind_eq_ok.mp h
    split_ifs at h
    · cases h
    · exact insert_base_mappings_pos hpos h

theorem map_step_pos (hpos : 0 < psize)
    (h : pt.map_step vbase pbase psize rights insert_mapping = .ok (pt', .ok m)) : 0 < m := by
  unfold map_step at h
  split at h
  · cases h
  dsimp only at h
  obtain ⟨⟨pt₁, pdpt⟩, -, h⟩ := Outcome.bind_eq_ok.mp h
  obtain ⟨⟨pt₂, huge⟩, hhuge, h⟩ := Outcome.bind_eq_ok.mp h
  dsimp only at h
  by_cases hh : huge = true
  · rw [if_pos hh] at h
    exact insert_huge_mappings_pos (can_map_as_huge_page_size (hh ▸ hhuge)) h
  · rw [if_neg hh] at h
    obtain ⟨pt₃, -, h⟩ := Outcome.bind_eq_ok.mp h
    obtain ⟨pdpt', -, h⟩ := Outcome.bind_eq_ok.mp h
    split_ifs at h
    · cases h
    · exact map_pd_level_pos hpos h

end progress

/-- `map_generic`: map `psize` bytes at `pbase` to `vbase`, each step with the largest pages
that fit, until everything is mapped. With `insert_mapping = false` it only checks. -/
def map_generic (pt : PageTable) (vbase pbase psize : ℕ) (rights : MapAction)
    (insert_mapping : Bool) : Outcome (PageTable × Except KError Unit) :=
  match _hstep : pt.map_step vbase pbase psize rights insert_mapping with
  | .panic => .panic
  | .ok (pt, .error e) => .ok (pt, .error e)
  | .ok (pt, .ok mapped) =>
      -- `assert!(mapped <= psize)`
      if _hle : mapped ≤ psize then
        if mapped = psize then .ok (pt, .ok ())
        else pt.map_generic (vbase + mapped) (pbase + mapped) (psize - mapped) rights
          insert_mapping
      else .panic
termination_by psize
decreasing_by
  have := map_step_pos (by omega) _hstep
  omega

/-- `PageTable::map_frame`: the `debug_assert!`s that `VSpace` checks with error returns
first, then `map_generic`, inserting. -/
def map_frame (pt : PageTable) (base : ℕ) (frame : Frame) (action : MapAction) :
    Outcome (PageTable × Except KError Unit) :=
  if 0 < frame.size ∧ frame.base % frame.size = 0 ∧ base % frame.size = 0 then
    pt.map_generic base frame.base frame.size action true
  else .panic

/-! ## Reading and changing mappings -/

/-- `resolve`: the physical address `addr` maps to, and the rights of its page. -/
def resolve (pt : PageTable) (addr : ℕ) : Outcome (Except KError (ℕ × MapAction)) :=
  let i := pml4_index addr
  let j := pdpt_index addr
  let k := pd_index addr
  if !(pt.pml4 i).entry.is_present then .ok (.error .NotMapped)
  else do
    let pdpt ← deref (pt.pml4 i).entry (pt.pdpt_at i)
    let e₃ := (pdpt j).entry
    if !e₃.is_present then .ok (.error .NotMapped)
    else if e₃.is_page then
      -- a 1 GiB page
      .ok (.ok (e₃.address + addr % HUGE_PAGE_SIZE, MapAction.from_flags e₃.flags))
    else do
      let pd ← deref e₃ (pt.pd_at i j)
      let e₂ := (pd k).entry
      if !e₂.is_present then .ok (.error .NotMapped)
      else if e₂.is_page then
        -- a 2 MiB page
        .ok (.ok (e₂.address + addr % LARGE_PAGE_SIZE, MapAction.from_flags e₂.flags))
      else do
        let ptab ← deref e₂ (pt.pt_at i j k)
        let e₁ := ptab (pt_index addr)
        if e₁.is_present then
          .ok (.ok (e₁.address + addr % BASE_PAGE_SIZE, MapAction.from_flags e₁.flags))
        else .ok (.error .NotMapped)

/-- What `modify_generic` does to the entry `e` that maps `addr` with a page of `size` bytes:
the entry it writes back, and what it returns (the page, its physical address, its size and
its old rights). `flags` are the rights a new entry gets, `P` (and `PS`) included. -/
def modify_entry (e : Entry) (size addr : ℕ) (action : Modify) (flags : MapAction → Flags) :
    Entry × (ℕ × ℕ × ℕ × MapAction) :=
  let vaddr_start := addr - addr % size
  let paddr_start := e.address
  let old_flags := MapAction.from_flags e.flags
  let e' := match action with
    | .Unmap => Entry.zero
    | .UpdateRights new_rights => ⟨paddr_start, flags new_rights⟩
  (e', (vaddr_start, paddr_start, size, old_flags))

theorem modify_entry_leaf (e : Entry) (size addr : ℕ) (action : Modify) (r : MapAction → Flags)
    (hr : ∀ a, (r a).PS = true) :
    ((modify_entry e size addr action r).1.is_present &&
      !(modify_entry e size addr action r).1.is_page) = false := by
  cases action with
  | Unmap => rfl
  | UpdateRights a => simp [modify_entry, Entry.is_page, hr a]

/-- `modify_generic`: unmap the page that contains `addr`, or change its rights. -/
def modify_generic (pt : PageTable) (addr : ℕ) (action : Modify) :
    Outcome (PageTable × Except KError (ℕ × ℕ × ℕ × MapAction)) :=
  let i := pml4_index addr
  let j := pdpt_index addr
  let k := pd_index addr
  let l := pt_index addr
  if !(pt.pml4 i).entry.is_present then .ok (pt, .error .NotMapped)
  else do
    let pdpt ← deref (pt.pml4 i).entry (pt.pdpt_at i)
    let e₃ := (pdpt j).entry
    if !e₃.is_present then .ok (pt, .error .NotMapped)
    else if e₃.is_page then
      let huge := fun a => { MapAction.to_pdpt_rights a with P := true, PS := true }
      let m := modify_entry e₃ HUGE_PAGE_SIZE addr action huge
      .ok (pt.with_pdpt i (Function.update pdpt j
        (Slot.leaf m.1 (modify_entry_leaf e₃ _ addr action huge fun _ => rfl))), .ok m.2)
    else do
      let pd ← deref e₃ (pt.pd_at i j)
      let e₂ := (pd k).entry
      if !e₂.is_present then .ok (pt, .error .NotMapped)
      else if e₂.is_page then
        let large := fun a => { MapAction.to_pd_rights a with P := true, PS := true }
        let m := modify_entry e₂ LARGE_PAGE_SIZE addr action large
        .ok (pt.with_pd i j (Function.update pd k
          (Slot.leaf m.1 (modify_entry_leaf e₂ _ addr action large fun _ => rfl))), .ok m.2)
      else do
        let ptab ← deref e₂ (pt.pt_at i j k)
        let e₁ := ptab l
        if e₁.is_present then
          let m := modify_entry e₁ BASE_PAGE_SIZE addr action
            fun a => { MapAction.to_pt_rights a with P := true }
          .ok (pt.with_pt i j k (Function.update ptab l m.1), .ok m.2)
        else .ok (pt, .error .NotMapped)

/-- `adjust`: new rights for the page containing `vaddr`; returns that page. -/
def adjust (pt : PageTable) (vaddr : ℕ) (rights : MapAction) :
    Outcome (PageTable × Except KError (ℕ × ℕ)) :=
  if vaddr % BASE_PAGE_SIZE ≠ 0 then .ok (pt, .error .InvalidBase)
  else do
    let (pt, r) ← pt.modify_generic vaddr (.UpdateRights rights)
    return (pt, r.map fun (vaddr, _paddr, size, _old_rights) => (vaddr, size))

/-- `unmap`: removes the page containing `base`. -/
def unmap (pt : PageTable) (base : ℕ) : Outcome (PageTable × Except KError TlbFlushHandle) :=
  if base % BASE_PAGE_SIZE ≠ 0 then .ok (pt, .error .InvalidBase)
  else do
    let (pt, r) ← pt.modify_generic base .Unmap
    return (pt, r.map fun (vaddr, paddr, size, rights) => ⟨vaddr, paddr, size, rights⟩)

end PageTable

end Nrk.Memory
