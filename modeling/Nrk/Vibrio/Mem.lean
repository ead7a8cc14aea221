import Nrk.Basic

/-! # vibrio's heap pagers (`lib/vibrio/src/mem.rs`)

One bump pager per core, each call one step under its lock, with the ranges handed out as ghost
state. -/

namespace Nrk.Vibrio

/-- kpi's `MAX_CORES`: the cores of a process. -/
def MAX_CORES : ℕ := 96

/-- `HEAP_START`. -/
def HEAP_START : ℕ := 0x30_0000_0000

/-- `HEAP_PER_CORE_REGION`. -/
def HEAP_PER_CORE_REGION : ℕ := 0x2_0000_0000

/-- `round_up!`. -/
def round_up (num s : ℕ) : ℕ := (num + s - 1) / s * s

section RoundUp

variable {num s : ℕ}

theorem le_round_up (hs : 0 < s) : num ≤ round_up num s := by
  have := Nat.lt_div_mul_add (a := num + s - 1) hs
  unfold round_up
  omega

theorem dvd_round_up : s ∣ round_up num s := Nat.dvd_mul_left s _

theorem round_up_le {b : ℕ} (hs : 0 < s) (hb : s ∣ b) (h : num ≤ b) : round_up num s ≤ b := by
  obtain ⟨k, rfl⟩ := hb
  unfold round_up
  rw [Nat.mul_comm s k]
  apply Nat.mul_le_mul_right
  rw [Nat.div_le_iff_le_mul_add_pred hs]
  have : num ≤ k * s := by rwa [Nat.mul_comm]
  omega

theorem round_up_of_dvd (hs : 0 < s) (h : s ∣ num) : round_up num s = num :=
  Nat.le_antisymm (round_up_le hs h le_rfl) (le_round_up hs)

end RoundUp

theorem add_le_of_dvd_of_lt {a b s : ℕ} (ha : s ∣ a) (hb : s ∣ b) (h : a < b) : a + s ≤ b := by
  obtain ⟨k, rfl⟩ := ha
  obtain ⟨m, rfl⟩ := hb
  have hk : k < m := Nat.lt_of_mul_lt_mul_left h
  calc s * k + s = s * (k + 1) := by ring
    _ ≤ s * m := Nat.mul_le_mul_left s hk

theorem round_up_add_of_dvd {a x s : ℕ} (hs : 0 < s) (ha : s ∣ a) (hx : 0 < x) (hxs : x ≤ s) :
    round_up (a + x) s = a + s := by
  apply Nat.le_antisymm
  · exact round_up_le hs (Nat.dvd_add ha (dvd_refl s)) (by omega)
  · have : a + x ≤ round_up (a + x) s := le_round_up hs
    exact add_le_of_dvd_of_lt ha dvd_round_up (by omega)

/-- `Pager`: the next address to hand out, and the end of the region. -/
structure Pager where
  sbrk : ℕ
  limit : ℕ
  deriving DecidableEq, Repr

namespace Pager

/-- `Pager::allocate` of `Layout { size, align }`: the `VAddr` of the new mapping. `sbrk` is
rounded up to the alignment also when the call fails. -/
def allocate (self : Pager) (size align : ℕ) : AllocM (Option ℕ × Pager) := do
  let size := round_up size 4096
  let sbrk := round_up self.sbrk (max align 4096)
  -- the out-of-memory check looks at the start of the range only
  if self.limit ≤ sbrk then return (none, { self with sbrk })
  if ← AllocM.request then return (some sbrk, { self with sbrk := sbrk + size })
  return (none, { self with sbrk })

/-- `Pager::alloc_page`: a `page_size`-aligned page, or `None` when `allocate` fails, and the
`assert_ne!` against a null address. -/
def alloc_page (self : Pager) (page_size : ℕ) : AllocM (Option ℕ × Pager) := do
  match ← self.allocate page_size page_size with
  | (none, p) => return (none, p)
  | (some vaddr, p) => if vaddr = 0 then AllocM.panic else return (some vaddr, p)

variable {p p' : Pager} {size align : ℕ} {a a' : Allocator} {r : Option ℕ}

theorem run_allocate (p : Pager) (size align : ℕ) (a : Allocator) :
    (p.allocate size align).run a =
      let sbrk := round_up p.sbrk (max align 4096)
      if p.limit ≤ sbrk then .ok ((none, { p with sbrk }), a)
      else if a.grants 0 then .ok ((some sbrk, { p with sbrk := sbrk + round_up size 4096 }),
        a.request.2)
      else .ok ((none, { p with sbrk }), a.request.2) := by
  simp only [allocate]
  split
  · rfl
  · simp only [StateT.run_bind, AllocM.run_request, Outcome.ok_bind, Allocator.request]
    cases a.grants 0 <;> rfl

/-- `allocate` keeps `limit`, moves `sbrk` to the rounded one or past the new range, and hands
out the range at the rounded `sbrk` when it is below `limit`. -/
theorem allocate_spec (h : (p.allocate size align).run a = .ok ((r, p'), a')) :
    p'.limit = p.limit ∧
      (r = none ∧ p'.sbrk = round_up p.sbrk (max align 4096) ∨
        r = some (round_up p.sbrk (max align 4096)) ∧ round_up p.sbrk (max align 4096) < p.limit ∧
          p'.sbrk = round_up p.sbrk (max align 4096) + round_up size 4096) := by
  rw [run_allocate] at h
  dsimp only at h
  split at h
  · simp only [Outcome.ok.injEq, Prod.mk.injEq] at h
    obtain ⟨⟨rfl, rfl⟩, -⟩ := h
    simp
  · rename_i hlt
    split at h <;> simp only [Outcome.ok.injEq, Prod.mk.injEq] at h <;>
      obtain ⟨⟨rfl, rfl⟩, -⟩ := h <;> simp [Nat.lt_of_not_le hlt]

theorem alloc_page_allocate {page_size : ℕ}
    (h : (p.alloc_page page_size).run a = .ok ((r, p'), a')) :
    (p.allocate page_size page_size).run a = .ok ((r, p'), a') := by
  simp only [alloc_page] at h
  rw [AllocM.run_bind_eq_ok] at h
  obtain ⟨⟨r₀, p₀⟩, a₀, h₀, h₁⟩ := h
  rw [h₀]
  cases r₀ with
  | none => simpa using h₁
  | some v =>
      dsimp only at h₁
      split at h₁
      · cases h₁
      · simpa using h₁

theorem run_allocate_of_lt {v : ℕ} (hv : round_up p.sbrk (max align 4096) = v)
    (hlt : v < p.limit) (ha : a.grants 0 = true) :
    (p.allocate size align).run a =
      .ok ((some v, { p with sbrk := v + round_up size 4096 }), a.request.2) := by
  rw [run_allocate, hv]
  simp [Nat.not_le.mpr hlt, ha]

theorem run_alloc_page_of_lt {page_size v : ℕ} (hv : round_up p.sbrk (max page_size 4096) = v)
    (hlt : v < p.limit) (hpos : 0 < v) (ha : a.grants 0 = true) :
    (p.alloc_page page_size).run a =
      .ok ((some v, { p with sbrk := v + round_up page_size 4096 }), a.request.2) := by
  simp only [alloc_page, StateT.run_bind, run_allocate_of_lt hv hlt ha, Outcome.ok_bind]
  simp [Nat.pos_iff_ne_zero.mp hpos]

theorem run_alloc_page_of_le {page_size : ℕ} (hle : p.limit ≤ round_up p.sbrk (max page_size 4096)) :
    (p.alloc_page page_size).run a =
      .ok ((none, { p with sbrk := round_up p.sbrk (max page_size 4096) }), a) := by
  simp only [alloc_page, StateT.run_bind, run_allocate, if_pos hle, Outcome.ok_bind]
  rfl

end Pager

/-- The bottom of core `i`'s heap region. -/
def region_start (i : ℕ) : ℕ := HEAP_START + i * HEAP_PER_CORE_REGION

/-- The top of core `i`'s heap region. -/
def region_end (i : ℕ) : ℕ := HEAP_START + (i + 1) * HEAP_PER_CORE_REGION

/-- `PAGER`: pager `i` starts at the bottom of its core's region and ends at its top. -/
def PAGER : List Pager :=
  (List.range MAX_CORES).map fun i => ⟨region_start i, region_end i⟩

theorem PAGER_getElem? {i : ℕ} (hi : i < MAX_CORES) :
    PAGER[i]? = some ⟨region_start i, region_end i⟩ := by
  simp [PAGER, hi]

/-- A range handed out: pager `pager` mapped `[base, base + len)`. -/
structure Grant where
  pager : ℕ
  base : ℕ
  len : ℕ
  deriving DecidableEq, Repr

/-- The pagers, and the ranges they have handed out, oldest first. -/
structure Heap where
  pagers : List Pager
  grants : List Grant

namespace Heap

/-- The heap before the first allocation. -/
def init : Heap := ⟨PAGER, []⟩

/-- `PAGER[i].lock()`, and `op` on that pager; an index past the array panics. A range that
`op` hands out is `len` bytes long. -/
def with_pager (h : Heap) (i len : ℕ) (op : Pager → AllocM (Option ℕ × Pager)) :
    AllocM (Option ℕ × Heap) := do
  match h.pagers[i]? with
  | none => AllocM.panic
  | some p =>
      let (r, p) ← op p
      return (r, ⟨h.pagers.set i p, h.grants ++ r.toList.map fun base => ⟨i, base, len⟩⟩)

end Heap

/-- The loop of `try_alloc_page` and `try_alloc_largepage`, from `core_id`: ask `PAGER[core_id]`
for a page and, when it has none, move to the next core's pager, giving up when that would be
`(my_core_id - 1) % MAX_CORES`. The loop asks at most `MAX_CORES - 1` pagers; `fuel` counts
the rounds down from `MAX_CORES` so that the recursion is structural. -/
def try_alloc (page_size my_core_id : ℕ) : ℕ → ℕ → Heap → AllocM (Option ℕ × Heap)
  | 0, _, h => return (none, h)
  | fuel + 1, core_id, h => do
      match ← h.with_pager core_id page_size (·.alloc_page page_size) with
      | (some ret, h) => return (some ret, h)
      | (none, h) =>
          let core_id := (core_id + 1) % MAX_CORES
          -- `my_core_id - 1` underflows on core 0
          let stop ← liftM (Outcome.checkedSub my_core_id 1)
          if core_id = stop % MAX_CORES then return (none, h)
          else try_alloc page_size my_core_id fuel core_id h

/-- `try_alloc_page` on core `core_id`: a base page for the zone allocator. -/
def try_alloc_page (core_id : ℕ) (h : Heap) : AllocM (Option ℕ × Heap) :=
  try_alloc BASE_PAGE_SIZE core_id MAX_CORES core_id h

/-- `try_alloc_largepage` on core `core_id`. -/
def try_alloc_largepage (core_id : ℕ) (h : Heap) : AllocM (Option ℕ × Heap) :=
  try_alloc LARGE_PAGE_SIZE core_id MAX_CORES core_id h

/-- One round of the `big_size` loop: a large page from `try_alloc_largepage().expect(..)`,
kept as `first` while `first` is null. -/
def alloc_big_page (core_id : ℕ) : ℕ × Heap → ℕ → AllocM (ℕ × Heap)
  | (first, h), _ => do
      match ← try_alloc_largepage core_id h with
      | (none, _) => AllocM.panic
      | (some ptr, h) => return (if first = 0 then ptr else first, h)

/-- The `big_size` arm of `SafeZoneAllocator::alloc`: `required_pages` large pages, and the
first of them returned. -/
def alloc_big (core_id big_size : ℕ) (h : Heap) : AllocM (ℕ × Heap) :=
  let required_pages := (big_size + LARGE_PAGE_SIZE - 1) / LARGE_PAGE_SIZE
  (List.range required_pages).foldlM (alloc_big_page core_id) (0, h)

/-- A call into the pagers from core `core`. -/
inductive Call where
  /-- `PAGER[core].lock().allocate(layout)`, as rumprt's `mmap` and `rumpcomp_pci_dmalloc`
  call it -/
  | allocate (core size align : ℕ)
  /-- `try_alloc_page`: the zone allocator refills a base page -/
  | alloc_page (core : ℕ)
  /-- `try_alloc_largepage`: a `refill_large`, or `alloc` of a size in
  `LPRANGE_START..=LARGE_PAGE_SIZE` -/
  | alloc_large_page (core : ℕ)
  /-- `alloc` of a size above `LARGE_PAGE_SIZE` -/
  | alloc_big (core size : ℕ)
  deriving DecidableEq, Repr

namespace Call

def exec : Call → Heap → AllocM Heap
  | .allocate core size align, h =>
      Prod.snd <$> h.with_pager core (round_up size 4096) (·.allocate size align)
  | .alloc_page core, h => Prod.snd <$> try_alloc_page core h
  | .alloc_large_page core, h => Prod.snd <$> try_alloc_largepage core h
  | .alloc_big core size, h => Prod.snd <$> Vibrio.alloc_big core size h

/-- The calls that `SafeZoneAllocator::alloc` makes: every one but a direct `allocate`. -/
def through_alloc : Call → Bool
  | .allocate .. => false
  | _ => true

end Call

/-- A sequence of calls, one after the other. -/
def run (calls : List Call) (h : Heap) : AllocM Heap :=
  calls.foldlM (fun h c => c.exec h) h

/-! ## The page paths stay in their regions -/

/-- `g` lies in the heap region of its pager. -/
def Grant.Inside (g : Grant) : Prop :=
  region_start g.pager ≤ g.base ∧ g.base + g.len ≤ region_end g.pager

/-- Two ranges that do not meet. -/
def Grant.Disjoint (g g' : Grant) : Prop :=
  g.base + g.len ≤ g'.base ∨ g'.base + g'.len ≤ g.base

/-- The sizes `alloc_page` is called with. -/
def PageSize (ps : ℕ) : Prop := ps = BASE_PAGE_SIZE ∨ ps = LARGE_PAGE_SIZE

/-- Pager `i` ends where its region ends, and its `sbrk` lies in the region. -/
def Pager.InRegion (i : ℕ) (p : Pager) : Prop :=
  p.limit = region_end i ∧ region_start i ≤ p.sbrk ∧ p.sbrk ≤ region_end i

/-- What the page paths keep: each pager in its region, every range handed out below its
pager's `sbrk`, and no two ranges meeting. -/
structure Heap.Inv (h : Heap) : Prop where
  pagers : ∀ i (p : Pager), h.pagers[i]? = some p → p.InRegion i
  below : ∀ g ∈ h.grants, ∃ p, h.pagers[g.pager]? = some p ∧ region_start g.pager ≤ g.base ∧
    g.base + g.len ≤ p.sbrk
  disjoint : h.grants.Pairwise Grant.Disjoint

section PageSize

variable {ps : ℕ}

theorem PageSize.pos (hps : PageSize ps) : 0 < ps := by
  rcases hps with rfl | rfl <;> decide

theorem PageSize.facts (hps : PageSize ps) (i : ℕ) :
    max ps 4096 = ps ∧ round_up ps 4096 = ps ∧ ps ∣ region_start i ∧ ps ∣ region_end i := by
  have hdvd : ps ∣ HEAP_START ∧ ps ∣ HEAP_PER_CORE_REGION := by
    rcases hps with rfl | rfl <;> decide
  refine ⟨?_, ?_, ?_, ?_⟩
  · rcases hps with rfl | rfl <;> decide
  · rcases hps with rfl | rfl <;> decide
  · exact Nat.dvd_add hdvd.1 (Dvd.dvd.mul_left hdvd.2 i)
  · exact Nat.dvd_add hdvd.1 (Dvd.dvd.mul_left hdvd.2 (i + 1))

end PageSize

theorem region_start_lt_end (i : ℕ) : region_start i < region_end i := by
  unfold region_start region_end
  rw [Nat.add_mul, one_mul]
  have : 0 < HEAP_PER_CORE_REGION := by decide
  omega

theorem region_end_eq_large (i : ℕ) :
    region_end i = region_start i + 4096 * LARGE_PAGE_SIZE := by
  unfold region_end region_start
  rw [Nat.add_mul, one_mul, show HEAP_PER_CORE_REGION = 4096 * LARGE_PAGE_SIZE from rfl]
  ring

theorem region_end_le_start {i j : ℕ} (h : i < j) : region_end i ≤ region_start j := by
  unfold region_start region_end
  have := Nat.mul_le_mul_right HEAP_PER_CORE_REGION (show i + 1 ≤ j from h)
  omega

variable {p p' : Pager} {a a' : Allocator} {r : Option ℕ} {i ps : ℕ}

/-- A page from a pager in its region: the pager stays in its region, its `sbrk` only grows,
and the page lies between the old and the new `sbrk`. -/
theorem Pager.alloc_page_inRegion (hp : p.InRegion i) (hps : PageSize ps)
    (h : (p.alloc_page ps).run a = .ok ((r, p'), a')) :
    p'.InRegion i ∧ p.sbrk ≤ p'.sbrk ∧ ∀ v, r = some v → p.sbrk ≤ v ∧ v + ps = p'.sbrk := by
  obtain ⟨hmax, hround, -, hend⟩ := hps.facts i
  obtain ⟨hlimit, hlo, hhi⟩ := hp
  obtain ⟨hlimit', hcase⟩ := Pager.allocate_spec (Pager.alloc_page_allocate h)
  rw [hmax, hround] at hcase
  -- the rounded `sbrk` stays below the aligned end of the region
  have hup : p.sbrk ≤ round_up p.sbrk ps := le_round_up hps.pos
  have hle : round_up p.sbrk ps ≤ region_end i := round_up_le hps.pos hend hhi
  rcases hcase with ⟨rfl, hsbrk⟩ | ⟨rfl, hlt, hsbrk⟩
  · refine ⟨⟨hlimit'.trans hlimit, ?_, ?_⟩, ?_, nofun⟩ <;> omega
  · rw [hlimit] at hlt
    have hfit := add_le_of_dvd_of_lt dvd_round_up hend hlt
    refine ⟨⟨hlimit'.trans hlimit, ?_, ?_⟩, ?_, ?_⟩
    · omega
    · omega
    · omega
    · rintro v ⟨⟩
      exact ⟨hup, hsbrk.symm⟩

namespace Heap

variable {h h' : Heap} {op : Pager → AllocM (Option ℕ × Pager)} {len : ℕ}

theorem run_with_pager_of_ok (len : ℕ) (op : Pager → AllocM (Option ℕ × Pager))
    (hget : h.pagers[i]? = some p)
    (hop : (op p).run a = .ok ((r, p'), a')) :
    (h.with_pager i len op).run a = .ok ((r, ⟨h.pagers.set i p',
      h.grants ++ r.toList.map fun base => ⟨i, base, len⟩⟩), a') := by
  simp only [with_pager, hget, StateT.run_bind, hop, Outcome.ok_bind]
  rfl

theorem with_pager_eq_ok (hrun : (h.with_pager i len op).run a = .ok ((r, h'), a')) :
    ∃ p p', h.pagers[i]? = some p ∧ (op p).run a = .ok ((r, p'), a') ∧
      h' = ⟨h.pagers.set i p', h.grants ++ r.toList.map fun base => ⟨i, base, len⟩⟩ := by
  unfold with_pager at hrun
  cases hget : h.pagers[i]? with
  | none =>
      rw [hget] at hrun
      cases hrun
  | some p =>
      rw [hget] at hrun
      dsimp only at hrun
      rw [AllocM.run_bind_eq_ok] at hrun
      obtain ⟨⟨r₀, p₀⟩, a₀, hop, hret⟩ := hrun
      simp only [StateT.run_pure, Outcome.pure_eq, Outcome.ok.injEq, Prod.mk.injEq] at hret
      obtain ⟨⟨rfl, rfl⟩, rfl⟩ := hret
      exact ⟨p, p₀, rfl, hop, rfl⟩

/-- One page from pager `i` keeps the invariant: the page lies above every range pager `i`
handed out before, and inside region `i`, which no other pager's range meets. -/
theorem Inv.with_pager_alloc_page (hinv : h.Inv) (hps : PageSize ps)
    (hrun : (h.with_pager i ps (·.alloc_page ps)).run a = .ok ((r, h'), a')) : h'.Inv := by
  obtain ⟨p, p', hget, hop, rfl⟩ := with_pager_eq_ok hrun
  have hp := hinv.pagers i p hget
  obtain ⟨hp', hgrow, hpage⟩ := Pager.alloc_page_inRegion hp hps hop
  have hi : i < h.pagers.length := (List.getElem?_eq_some_iff.mp hget).1
  -- the pagers after the call: `p'` at `i`, the others as they were
  have hget' : ∀ j, (h.pagers.set i p')[j]? = if i = j then some p' else h.pagers[j]? := by
    intro j
    rw [List.getElem?_set]
    simp [hi]
  constructor
  · intro j q hq
    rw [hget'] at hq
    split at hq
    · rename_i hij
      cases hq
      exact hij ▸ hp'
    · exact hinv.pagers j q hq
  · intro g hg
    rcases List.mem_append.mp hg with hg | hg
    · obtain ⟨q, hq, hlo, hhi⟩ := hinv.below g hg
      rw [hget']
      split
      · rename_i hij
        rw [← hij, hget] at hq
        cases hq
        exact ⟨p', rfl, hlo, by omega⟩
      · exact ⟨q, hq, hlo, hhi⟩
    · obtain ⟨v, hv, rfl⟩ := List.mem_map.mp hg
      obtain ⟨hv₁, hv₂⟩ := hpage v (Option.mem_toList.mp hv)
      refine ⟨p', by rw [hget', if_pos rfl], ?_, ?_⟩
      · exact le_trans hp.2.1 hv₁
      · exact hv₂.le
  · rw [List.pairwise_append]
    refine ⟨hinv.disjoint, ?_, ?_⟩
    · cases r <;> simp
    · intro g hg g' hg'
      obtain ⟨v, hv, rfl⟩ := List.mem_map.mp hg'
      obtain ⟨hv₁, hv₂⟩ := hpage v (Option.mem_toList.mp hv)
      obtain ⟨q, hq, hlo, hhi⟩ := hinv.below g hg
      have hq' := hinv.pagers g.pager q hq
      -- an older range of pager `i` ends below its old `sbrk`; one of another pager lies in
      -- another region
      rcases lt_trichotomy g.pager i with hlt | heq | hgt
      · have := region_end_le_start hlt
        left
        unfold Pager.InRegion at hq'
        simp only
        have := hp.2.1
        omega
      · rw [heq, hget] at hq
        cases hq
        left
        simp only
        omega
      · have := region_end_le_start hgt
        right
        unfold Pager.InRegion at hp'
        simp only
        omega

end Heap

theorem Heap.Inv.try_alloc {my : ℕ} (hps : PageSize ps) :
    ∀ (fuel core_id : ℕ) {h h' : Heap} {a a' : Allocator} {r : Option ℕ}, h.Inv →
      (Vibrio.try_alloc ps my fuel core_id h).run a = .ok ((r, h'), a') → h'.Inv
  | 0, _, h, h', a, a', r, hinv, hrun => by
      simp only [Vibrio.try_alloc, StateT.run_pure, Outcome.pure_eq, Outcome.ok.injEq,
        Prod.mk.injEq] at hrun
      exact hrun.1.2 ▸ hinv
  | fuel + 1, core_id, h, h', a, a', r, hinv, hrun => by
      simp only [Vibrio.try_alloc] at hrun
      rw [AllocM.run_bind_eq_ok] at hrun
      obtain ⟨⟨r₀, h₀⟩, a₀, hpage, hrest⟩ := hrun
      have hinv₀ := hinv.with_pager_alloc_page hps hpage
      cases r₀ with
      | some v =>
          simp only [StateT.run_pure, Outcome.pure_eq, Outcome.ok.injEq, Prod.mk.injEq] at hrest
          exact hrest.1.2 ▸ hinv₀
      | none =>
          -- the pager had none: the loop moves on, or gives up
          dsimp only at hrest
          rw [AllocM.run_bind_eq_ok] at hrest
          obtain ⟨stop, a₁, -, hnext⟩ := hrest
          split at hnext
          · simp only [StateT.run_pure, Outcome.pure_eq, Outcome.ok.injEq, Prod.mk.injEq] at hnext
            exact hnext.1.2 ▸ hinv₀
          · exact Heap.Inv.try_alloc hps fuel _ hinv₀ hnext

theorem PageSize.base : PageSize BASE_PAGE_SIZE := Or.inl rfl

theorem PageSize.large : PageSize LARGE_PAGE_SIZE := Or.inr rfl

theorem Heap.Inv.alloc_big {core_id big_size : ℕ} {h h' : Heap} {a a' : Allocator} {first : ℕ}
    (hinv : h.Inv) (hrun : (alloc_big core_id big_size h).run a = .ok ((first, h'), a')) :
    h'.Inv := by
  refine AllocM.foldlM_inv (P := fun x : ℕ × Heap => x.2.Inv) _ ?_ hinv hrun
  rintro ⟨first, h₀⟩ _ _ a₀ ⟨first', h₁⟩ a₁ hinv₀ hstep
  rw [alloc_big_page, AllocM.run_bind_eq_ok] at hstep
  obtain ⟨⟨r, h₂⟩, a₂, hlarge, hret⟩ := hstep
  have hinv₂ := hinv₀.try_alloc PageSize.large _ _ hlarge
  cases r with
  | none => cases hret
  | some ptr =>
      simp only [StateT.run_pure, Outcome.pure_eq, Outcome.ok.injEq, Prod.mk.injEq] at hret
      exact hret.1.2 ▸ hinv₂

/-- Every call that `SafeZoneAllocator::alloc` makes keeps the invariant. -/
theorem Heap.Inv.exec {c : Call} {h h' : Heap} {a a' : Allocator} (hc : c.through_alloc = true)
    (hinv : h.Inv) (hrun : (c.exec h).run a = .ok (h', a')) : h'.Inv := by
  cases c with
  | allocate => cases hc
  | alloc_page core =>
      simp only [Call.exec, StateT.run_map, Outcome.map_eq_ok] at hrun
      obtain ⟨⟨⟨r, h₀⟩, a₀⟩, hpage, heq⟩ := hrun
      cases heq
      exact hinv.try_alloc PageSize.base _ _ hpage
  | alloc_large_page core =>
      simp only [Call.exec, StateT.run_map, Outcome.map_eq_ok] at hrun
      obtain ⟨⟨⟨r, h₀⟩, a₀⟩, hpage, heq⟩ := hrun
      cases heq
      exact hinv.try_alloc PageSize.large _ _ hpage
  | alloc_big core size =>
      simp only [Call.exec, StateT.run_map, Outcome.map_eq_ok] at hrun
      obtain ⟨⟨⟨first, h₀⟩, a₀⟩, hbig, heq⟩ := hrun
      cases heq
      exact hinv.alloc_big hbig

theorem Heap.inv_init : Heap.init.Inv where
  pagers i p hp := by
    have hi : i < MAX_CORES := by simpa [Heap.init, PAGER] using (List.getElem?_eq_some_iff.mp hp).1
    rw [Heap.init, PAGER_getElem? hi] at hp
    cases hp
    exact ⟨rfl, le_rfl, (region_start_lt_end i).le⟩
  below _ h := nomatch h
  disjoint := List.Pairwise.nil

/-- Every run of the calls that `alloc` makes keeps the invariant. -/
theorem Heap.Inv.run {calls : List Call} (hcalls : ∀ c ∈ calls, c.through_alloc = true)
    {h h' : Heap} {a a' : Allocator} (hinv : h.Inv) (hrun : (run calls h).run a = .ok (h', a')) :
    h'.Inv :=
  AllocM.foldlM_inv calls (fun _ c hc _ _ _ hinv hstep => hinv.exec (hcalls c hc) hstep) hinv hrun

/-- Through `SafeZoneAllocator::alloc`, on any cores in any order and with any pattern of
failing `map` calls, every range a pager hands out lies in that pager's region. -/
theorem page_grants_inside {calls : List Call} (hcalls : ∀ c ∈ calls, c.through_alloc = true)
    {h : Heap} {a a' : Allocator} (hrun : (run calls Heap.init).run a = .ok (h, a')) :
    ∀ g ∈ h.grants, g.Inside := by
  have hinv := Heap.inv_init.run hcalls hrun
  intro g hg
  obtain ⟨p, hp, hlo, hhi⟩ := hinv.below g hg
  exact ⟨hlo, hhi.trans (hinv.pagers _ p hp).2.2⟩

theorem page_grants_disjoint {calls : List Call} (hcalls : ∀ c ∈ calls, c.through_alloc = true)
    {h : Heap} {a a' : Allocator} (hrun : (run calls Heap.init).run a = .ok (h, a')) :
    h.grants.Pairwise Grant.Disjoint :=
  (Heap.inv_init.run hcalls hrun).disjoint

/-! ## The search over the cores' pagers -/

theorem run_try_alloc_of_some {my fuel core_id v : ℕ} {h h' : Heap} (hfuel : 0 < fuel)
    (hpage : (h.with_pager core_id ps (·.alloc_page ps)).run a = .ok ((some v, h'), a')) :
    (try_alloc ps my fuel core_id h).run a = .ok ((some v, h'), a') := by
  obtain ⟨fuel, rfl⟩ : ∃ m, fuel = m + 1 := ⟨fuel - 1, by omega⟩
  simp only [try_alloc, StateT.run_bind, hpage, Outcome.ok_bind]
  rfl

theorem run_try_alloc_of_none {my fuel core_id : ℕ} {h h₀ : Heap} {a₀ : Allocator}
    (hfuel : 0 < fuel) (hmy : 1 ≤ my)
    (hpage : (h.with_pager core_id ps (·.alloc_page ps)).run a = .ok ((none, h₀), a₀))
    (hstop : (core_id + 1) % MAX_CORES ≠ (my - 1) % MAX_CORES) :
    (try_alloc ps my fuel core_id h).run a =
      (try_alloc ps my (fuel - 1) ((core_id + 1) % MAX_CORES) h₀).run a₀ := by
  obtain ⟨fuel, rfl⟩ : ∃ m, fuel = m + 1 := ⟨fuel - 1, by omega⟩
  simp only [try_alloc, StateT.run_bind, hpage, Outcome.ok_bind, AllocM.run_liftM,
    Outcome.checkedSub_of_le hmy, if_neg hstop, Nat.add_sub_cancel]

/-- Ask the pagers of `cores` in turn for a page of `ps` bytes, and stop at the first that
hands one out. -/
def first_page (ps : ℕ) : List ℕ → Heap → AllocM (Option ℕ × Heap)
  | [], h => return (none, h)
  | i :: cores, h => do
      match ← h.with_pager i ps (·.alloc_page ps) with
      | (some v, h) => return (some v, h)
      | (none, h) => first_page ps cores h

/-- The pagers that the search of core `my` asks, in order: `my`, `my + 1`, ... around the
cores, `MAX_CORES - 1` of them. -/
def asked (my : ℕ) : List ℕ := (List.range' 0 (MAX_CORES - 1)).map fun k => (my + k) % MAX_CORES

variable (ps) in
/-- The loop from the `k`-th pager it asks on: it asks the pagers `k`, ..., `MAX_CORES - 2`
after `my`, and gives up when the next would be `(my - 1) % MAX_CORES`. -/
theorem run_try_alloc_from {my : ℕ} (hmy1 : 1 ≤ my) (hmy : my < MAX_CORES) :
    ∀ n k fuel (h : Heap) (a : Allocator), k + n + 1 = MAX_CORES - 1 → n + 1 ≤ fuel →
      (try_alloc ps my fuel ((my + k) % MAX_CORES) h).run a =
        (first_page ps ((List.range' k (n + 1)).map fun j => (my + j) % MAX_CORES) h).run a := by
  intro n
  induction n with
  | zero =>
      intro k fuel h a hk hfuel
      obtain ⟨fuel, rfl⟩ : ∃ m, fuel = m + 1 := ⟨fuel - 1, by omega⟩
      -- the next pager would be `my - 1`: the loop stops
      have hstop : ((my + k) % MAX_CORES + 1) % MAX_CORES = (my - 1) % MAX_CORES := by
        simp only [MAX_CORES] at *
        omega
      simp only [try_alloc, first_page, List.range'_succ, List.range'_zero, List.map_cons,
        List.map_nil, StateT.run_bind]
      cases (h.with_pager ((my + k) % MAX_CORES) ps (·.alloc_page ps)).run a with
      | panic => rfl
      | ok x =>
          obtain ⟨⟨_ | v, h'⟩, a'⟩ := x
          · simp [Outcome.checkedSub_of_le hmy1, hstop]
          · rfl
  | succ n ih =>
      intro k fuel h a hk hfuel
      obtain ⟨fuel, rfl⟩ : ∃ m, fuel = m + 1 := ⟨fuel - 1, by omega⟩
      have hnext : ((my + k) % MAX_CORES + 1) % MAX_CORES = (my + (k + 1)) % MAX_CORES := by
        simp only [MAX_CORES] at *
        omega
      have hgo : (my + (k + 1)) % MAX_CORES ≠ (my - 1) % MAX_CORES := by
        simp only [MAX_CORES] at *
        omega
      rw [List.range'_succ, List.map_cons]
      simp only [try_alloc, first_page, StateT.run_bind]
      cases (h.with_pager ((my + k) % MAX_CORES) ps (·.alloc_page ps)).run a with
      | panic => rfl
      | ok x =>
          obtain ⟨⟨_ | v, h'⟩, a'⟩ := x
          · simp only [Outcome.ok_bind, hnext, StateT.run_bind, AllocM.run_liftM,
              Outcome.checkedSub_of_le hmy1, if_neg hgo]
            exact ih (k + 1) fuel h' a' (by omega) (by omega)
          · rfl

theorem try_alloc_eq_first_page {my : ℕ} (hmy1 : 1 ≤ my) (hmy : my < MAX_CORES) (h : Heap)
    (a : Allocator) :
    (try_alloc ps my MAX_CORES my h).run a = (first_page ps (asked my) h).run a := by
  have hrun := run_try_alloc_from ps hmy1 hmy (MAX_CORES - 2) 0 MAX_CORES h a
    (by simp [MAX_CORES]) (by simp [MAX_CORES])
  rwa [Nat.add_zero, Nat.mod_eq_of_lt hmy] at hrun

theorem mem_asked {my i : ℕ} (hmy1 : 1 ≤ my) (hmy : my < MAX_CORES) :
    i ∈ asked my ↔ i < MAX_CORES ∧ i ≠ my - 1 := by
  simp only [asked, List.mem_map, List.mem_range'_1, Nat.zero_add]
  constructor
  · rintro ⟨k, hk, rfl⟩
    simp only [MAX_CORES] at *
    omega
  · rintro ⟨hi, hne⟩
    refine ⟨(i + MAX_CORES - my) % MAX_CORES, ?_, ?_⟩ <;>
    · simp only [MAX_CORES] at *
      omega

theorem asked_nodup (my : ℕ) : (asked my).Nodup := by
  refine (List.nodup_range' ..).map_on fun k hk k' hk' hkk => ?_
  simp only [List.mem_range'_1] at hk hk'
  simp only [MAX_CORES] at *
  omega

theorem asked_head (my : ℕ) (hmy : my < MAX_CORES) : (asked my).head? = some my := by
  have hmy' : my < 96 := hmy
  simp [asked, MAX_CORES, List.range'_succ, Nat.mod_eq_of_lt hmy']

/-- A pager whose rounded `sbrk` has reached `limit`: it has no page of `ps` bytes. -/
def Pager.Full (ps : ℕ) (p : Pager) : Prop := p.limit ≤ round_up p.sbrk (max ps 4096)

theorem run_with_pager_of_full {h : Heap} {i : ℕ} {p : Pager} (hget : h.pagers[i]? = some p)
    (hfull : p.Full ps) :
    ∃ p', (h.with_pager i ps (·.alloc_page ps)).run a =
        .ok ((none, ⟨h.pagers.set i p', h.grants⟩), a) ∧ p'.Full ps := by
  refine ⟨{ p with sbrk := round_up p.sbrk (max ps 4096) }, ?_, ?_⟩
  · have := Heap.run_with_pager_of_ok ps (·.alloc_page ps) hget (Pager.run_alloc_page_of_le (a := a) hfull)
    simpa using this
  · have hpos : 0 < max ps 4096 := lt_of_lt_of_le (by decide) (le_max_right ps 4096)
    show p.limit ≤ round_up (round_up p.sbrk (max ps 4096)) (max ps 4096)
    rwa [round_up_of_dvd hpos dvd_round_up]

theorem run_first_page_of_full : ∀ (cores : List ℕ) (h : Heap),
    (∀ i ∈ cores, i < h.pagers.length) → (∀ i ∈ cores, ∀ p, h.pagers[i]? = some p → p.Full ps) →
    ∃ h', (first_page ps cores h).run a = .ok ((none, h'), a) ∧
      ∀ j ∉ cores, h'.pagers[j]? = h.pagers[j]?
  | [], h, _, _ => ⟨h, rfl, fun _ _ => rfl⟩
  | i :: cores, h, hlen, hfull => by
      obtain ⟨p, hget⟩ : ∃ p, h.pagers[i]? = some p :=
        ⟨_, List.getElem?_eq_getElem (hlen i List.mem_cons_self)⟩
      obtain ⟨p', hpage, hp'⟩ := run_with_pager_of_full (a := a) hget (hfull i List.mem_cons_self p hget)
      -- pager `i` is replaced by a full one; the others stay
      have hfull' : ∀ j ∈ cores, ∀ q, (h.pagers.set i p')[j]? = some q → q.Full ps := by
        intro j hj q hq
        rw [List.getElem?_set] at hq
        split_ifs at hq with hji
        · cases hq
          exact hp'
        · exact hfull j (List.mem_cons_of_mem i hj) q hq
      obtain ⟨h', hrun, hrest⟩ := run_first_page_of_full cores ⟨h.pagers.set i p', h.grants⟩
        (fun j hj => by simpa using hlen j (List.mem_cons_of_mem i hj)) hfull'
      refine ⟨h', ?_, fun j hj => ?_⟩
      · simp only [first_page, StateT.run_bind, hpage, Outcome.ok_bind]
        exact hrun
      · rw [hrest j (fun hj' => hj (List.mem_cons_of_mem i hj')), List.getElem?_set,
          if_neg (fun hij : i = j => hj (hij ▸ List.mem_cons_self))]

/-- The search of core `my` never asks `PAGER[my - 1]`: when every other pager is full it
returns `None`, whatever `PAGER[my - 1]` holds, and leaves that pager as it was. On core `0`,
`my_core_id - 1` underflows as soon as the core's own pager has no page. -/
theorem try_alloc_skips_previous_core :
    (∀ ps my (h : Heap) (a : Allocator), 1 ≤ my → my < MAX_CORES →
      h.pagers.length = MAX_CORES → (∀ i p, i ≠ my - 1 → h.pagers[i]? = some p → p.Full ps) →
      ∃ h', (try_alloc ps my MAX_CORES my h).run a = .ok ((none, h'), a) ∧
        h'.pagers[my - 1]? = h.pagers[my - 1]?) ∧
    (∀ ps (h : Heap) (a : Allocator) (p : Pager), h.pagers[0]? = some p → p.Full ps →
      (try_alloc ps 0 MAX_CORES 0 h).run a = .panic) := by
  constructor
  · intro ps my h a hmy1 hmy hlen hfull
    obtain ⟨h', hrun, hrest⟩ := run_first_page_of_full (a := a) (asked my) h
      (fun i hi => hlen ▸ ((mem_asked hmy1 hmy).mp hi).1)
      (fun i hi p hp => hfull i p ((mem_asked hmy1 hmy).mp hi).2 hp)
    refine ⟨h', (try_alloc_eq_first_page hmy1 hmy h a).trans hrun, hrest _ ?_⟩
    -- `my - 1` is the one pager the search leaves out
    rw [mem_asked hmy1 hmy]
    exact fun h => h.2 rfl
  · intro ps h a p hget hfull
    obtain ⟨p', hpage, -⟩ := run_with_pager_of_full (a := a) hget hfull
    -- the first round: pager `0` has no page, and `0 - 1` underflows
    rw [show MAX_CORES = 95 + 1 from rfl, try_alloc, StateT.run_bind, hpage, Outcome.ok_bind]
    simp only [StateT.run_bind, AllocM.run_liftM, Outcome.checkedSub_of_lt Nat.zero_lt_one,
      Outcome.panic_bind]

/-- The pagers with every region used up but that of core `c`. -/
def exhausted_except (c : ℕ) : Heap :=
  ⟨PAGER.mapIdx fun i p => if i = c then p else { p with sbrk := p.limit }, []⟩

theorem exhausted_except_getElem? {c i : ℕ} (hi : i < MAX_CORES) :
    (exhausted_except c).pagers[i]? =
      some (if i = c then ⟨region_start i, region_end i⟩ else ⟨region_end i, region_end i⟩) := by
  simp only [exhausted_except, List.getElem?_mapIdx, PAGER_getElem? hi, Option.map_some]

theorem exhausted_except_full {c i : ℕ} {p : Pager} (hi : i ≠ c)
    (hp : (exhausted_except c).pagers[i]? = some p) : p.Full ps := by
  simp only [exhausted_except, List.getElem?_mapIdx, Option.map_eq_some_iff, if_neg hi] at hp
  obtain ⟨q, -, rfl⟩ := hp
  exact le_round_up (lt_of_lt_of_le (by decide) (le_max_right ps 4096))

/-- On core `1`, with every region but core `0`'s used up, `try_alloc_page` returns `None`
although `PAGER[0]` still hands out the page at `HEAP_START`; on core `0`, with core `0`'s
region used up, it panics. -/
theorem try_alloc_skips_previous_core_one :
    (∃ h', (try_alloc_page 1 (exhausted_except 0)).run Allocator.unlimited =
        .ok ((none, h'), Allocator.unlimited) ∧ h'.pagers[0]? = some ⟨HEAP_START, region_end 0⟩) ∧
    (∃ p', ((⟨HEAP_START, region_end 0⟩ : Pager).alloc_page BASE_PAGE_SIZE).run
        Allocator.unlimited = .ok ((some HEAP_START, p'), Allocator.unlimited)) ∧
    (try_alloc_page 0 (exhausted_except 1)).run Allocator.unlimited = .panic := by
  obtain ⟨skip, underflow⟩ := try_alloc_skips_previous_core
  refine ⟨?_, ⟨_, rfl⟩, ?_⟩
  · obtain ⟨h', hrun, h0⟩ := skip BASE_PAGE_SIZE 1 (exhausted_except 0) Allocator.unlimited
      le_rfl (by decide) (by simp [exhausted_except, PAGER])
      fun i p hi hp => exhausted_except_full hi hp
    exact ⟨h', hrun, h0.trans (exhausted_except_getElem? (by decide))⟩
  · have hget := exhausted_except_getElem? (c := 1) (show 0 < MAX_CORES by decide)
    rw [if_neg (by decide)] at hget
    exact underflow BASE_PAGE_SIZE (exhausted_except 1) Allocator.unlimited _ hget
      (exhausted_except_full (by decide) hget)

/-! ## The `big_size` loop -/

/-- One round of the `big_size` loop on a pager with room for a large page at its aligned
`sbrk`. -/
theorem run_alloc_big_page_of_room {c s limit : ℕ} {h : Heap} (first k : ℕ)
    (hget : h.pagers[c]? = some ⟨s, limit⟩) (halign : LARGE_PAGE_SIZE ∣ s) (hpos : 0 < s)
    (hroom : s + LARGE_PAGE_SIZE ≤ limit) :
    (alloc_big_page c (first, h) k).run Allocator.unlimited =
      .ok ((if first = 0 then s else first, ⟨h.pagers.set c ⟨s + LARGE_PAGE_SIZE, limit⟩,
        h.grants ++ [⟨c, s, LARGE_PAGE_SIZE⟩]⟩), Allocator.unlimited) := by
  obtain ⟨hmax, hround, -, -⟩ := PageSize.large.facts 0
  have hlarge : 0 < LARGE_PAGE_SIZE := by decide
  have hpage := Heap.run_with_pager_of_ok LARGE_PAGE_SIZE (·.alloc_page LARGE_PAGE_SIZE) hget
    (Pager.run_alloc_page_of_lt (a := Allocator.unlimited) (p := ⟨s, limit⟩)
      (round_up_of_dvd hlarge (hmax ▸ halign)) (show s < limit by omega) hpos rfl)
  simp only [Allocator.unlimited_request, hround] at hpage
  simp only [alloc_big_page, try_alloc_largepage, StateT.run_bind]
  rw [run_try_alloc_of_some (by decide) hpage]
  rfl

/-- One round of the `big_size` loop on core `c` when pager `c` has no room left: the page comes
from pager `c + 1`, at its `sbrk` rounded up to a large page. -/
theorem run_alloc_big_page_of_next {c sbrk limit s' limit' v : ℕ} {h : Heap} (first k : ℕ)
    (hc1 : 1 ≤ c) (hc : c + 1 < MAX_CORES)
    (hget : h.pagers[c]? = some ⟨sbrk, limit⟩) (hfull : limit ≤ round_up sbrk LARGE_PAGE_SIZE)
    (hnext : h.pagers[c + 1]? = some ⟨s', limit'⟩) (hv : round_up s' LARGE_PAGE_SIZE = v)
    (hlt : v < limit') (hpos : 0 < v) :
    (alloc_big_page c (first, h) k).run Allocator.unlimited =
      .ok ((if first = 0 then v else first,
        ⟨(h.pagers.set c ⟨round_up sbrk LARGE_PAGE_SIZE, limit⟩).set (c + 1)
          ⟨v + LARGE_PAGE_SIZE, limit'⟩, h.grants ++ [⟨c + 1, v, LARGE_PAGE_SIZE⟩]⟩),
        Allocator.unlimited) := by
  obtain ⟨hmax, hround, -, -⟩ := PageSize.large.facts 0
  -- pager `c` refuses without a `map` call
  have hmiss := Heap.run_with_pager_of_ok LARGE_PAGE_SIZE (·.alloc_page LARGE_PAGE_SIZE) hget
    (Pager.run_alloc_page_of_le (a := Allocator.unlimited) (p := ⟨sbrk, limit⟩)
      (by rw [hmax]; exact hfull))
  simp only [Option.toList_none, List.map_nil, List.append_nil, hmax] at hmiss
  -- pager `c + 1`, untouched by that, hands out its next large page
  have hget' : (h.pagers.set c ⟨round_up sbrk LARGE_PAGE_SIZE, limit⟩)[c + 1]? =
      some ⟨s', limit'⟩ := by
    rw [List.getElem?_set_ne (by omega), hnext]
  have hpage := Heap.run_with_pager_of_ok (i := c + 1)
    (h := ⟨h.pagers.set c ⟨round_up sbrk LARGE_PAGE_SIZE, limit⟩, h.grants⟩)
    LARGE_PAGE_SIZE (·.alloc_page LARGE_PAGE_SIZE) hget'
    (Pager.run_alloc_page_of_lt (a := Allocator.unlimited) (p := ⟨s', limit'⟩)
      (by rw [hmax]; exact hv) hlt hpos rfl)
  simp only [Allocator.unlimited_request, hround] at hpage
  have hstop : (c + 1) % MAX_CORES ≠ (c - 1) % MAX_CORES := by
    rw [Nat.mod_eq_of_lt hc, Nat.mod_eq_of_lt (by omega)]
    omega
  simp only [alloc_big_page, try_alloc_largepage, StateT.run_bind]
  rw [run_try_alloc_of_none (by decide) hc1 hmiss hstop, Nat.mod_eq_of_lt hc,
    run_try_alloc_of_some (by decide) hpage]
  rfl

/-- The `big_size` loop on a pager with room for all its pages: they come one after another
from that pager, and the first is returned. The other pagers are left as they were. -/
theorem run_alloc_big_pages {c : ℕ} : ∀ (l : List ℕ) (first s limit : ℕ) (h : Heap),
    h.pagers[c]? = some ⟨s, limit⟩ → LARGE_PAGE_SIZE ∣ s → 0 < s →
    s + l.length * LARGE_PAGE_SIZE ≤ limit →
    ∃ h', (l.foldlM (alloc_big_page c) (first, h)).run Allocator.unlimited =
        .ok ((if first = 0 ∧ l ≠ [] then s else first, h'), Allocator.unlimited) ∧
      h'.pagers[c]? = some ⟨s + l.length * LARGE_PAGE_SIZE, limit⟩ ∧
      (∀ j, j ≠ c → h'.pagers[j]? = h.pagers[j]?) ∧ ∃ gs, h'.grants = h.grants ++ gs
  | [], first, s, limit, h, hget, _, _, _ =>
      ⟨h, by simp, by simpa using hget, fun _ _ => rfl, [], by simp⟩
  | k :: l, first, s, limit, h, hget, halign, hpos, hroom => by
      have hc : c < h.pagers.length := (List.getElem?_eq_some_iff.mp hget).1
      have hlen : (k :: l).length * LARGE_PAGE_SIZE = LARGE_PAGE_SIZE + l.length * LARGE_PAGE_SIZE := by
        simp only [List.length_cons]
        ring
      -- the first page, then the rest of the loop from the pager it leaves
      obtain ⟨h', hrun, hget', hother, gs, hgrants⟩ := run_alloc_big_pages (c := c) l
        (if first = 0 then s else first) (s + LARGE_PAGE_SIZE) limit
        ⟨h.pagers.set c ⟨s + LARGE_PAGE_SIZE, limit⟩, h.grants ++ [⟨c, s, LARGE_PAGE_SIZE⟩]⟩
        (by simp [hc]) (Nat.dvd_add halign (dvd_refl _)) (by omega)
        (by rw [Nat.add_assoc, ← hlen]; exact hroom)
      refine ⟨h', ?_, ?_, ?_, ⟨c, s, LARGE_PAGE_SIZE⟩ :: gs, ?_⟩
      · rw [List.foldlM_cons, StateT.run_bind, run_alloc_big_page_of_room _ _ hget halign hpos (by omega),
          Outcome.ok_bind]
        rw [hrun]
        by_cases hfirst : first = 0 <;> simp [hfirst, Nat.pos_iff_ne_zero.mp hpos]
      · rw [hget', hlen, Nat.add_assoc]
      · intro j hj
        rw [hother j hj]
        simp [Ne.symm hj]
      · simp [hgrants]

/-! ## `alloc` of a big size -/

/-- The calls before the big allocation: core `i` takes 4095 large pages, all but the last of
its region, and core `i + 1` takes a base page from its own pager. -/
theorem run_fill_region_then_page {i : ℕ} (hi : i + 1 < MAX_CORES) :
    ∃ h, (run [.alloc_big i (4095 * LARGE_PAGE_SIZE), .alloc_page (i + 1)] Heap.init).run
        Allocator.unlimited = .ok (h, Allocator.unlimited) ∧
      ⟨i + 1, region_start (i + 1), BASE_PAGE_SIZE⟩ ∈ h.grants ∧
      h.pagers[i]? = some ⟨region_start i + 4095 * LARGE_PAGE_SIZE, region_end i⟩ ∧
      h.pagers[i + 1]? = some ⟨region_start (i + 1) + BASE_PAGE_SIZE, region_end (i + 1)⟩ := by
  obtain ⟨hmax, hround, hstart, -⟩ := PageSize.base.facts (i + 1)
  obtain ⟨-, -, hlstart, -⟩ := PageSize.large.facts i
  have hend := region_end_eq_large i
  have hheap : 0 < HEAP_START := by decide
  -- core `i`: 4095 large pages from its own pager, which has room for 4096
  obtain ⟨h₁, hrun₁, hget₁, hother₁, -⟩ := run_alloc_big_pages (c := i) (List.range 4095) 0
    (region_start i) (region_end i) Heap.init (PAGER_getElem? (by omega)) hlstart
    (by unfold region_start; omega) (by rw [List.length_range, hend]; omega)
  rw [List.length_range] at hget₁
  have hget₁' : h₁.pagers[i + 1]? = some ⟨region_start (i + 1), region_end (i + 1)⟩ := by
    rw [hother₁ (i + 1) (by omega)]
    exact PAGER_getElem? hi
  -- core `i + 1`: one base page from its untouched pager
  have hpage := Heap.run_with_pager_of_ok BASE_PAGE_SIZE (·.alloc_page BASE_PAGE_SIZE) hget₁'
    (Pager.run_alloc_page_of_lt (a := Allocator.unlimited)
      (p := ⟨region_start (i + 1), region_end (i + 1)⟩) (round_up_of_dvd (by decide) (hmax ▸ hstart))
      (region_start_lt_end (i + 1)) (show 0 < region_start (i + 1) by unfold region_start; omega)
      rfl)
  simp only [Allocator.unlimited_request, hround, Option.toList_some, List.map_cons,
    List.map_nil] at hpage
  refine ⟨⟨h₁.pagers.set (i + 1) ⟨region_start (i + 1) + BASE_PAGE_SIZE, region_end (i + 1)⟩,
    h₁.grants ++ [⟨i + 1, region_start (i + 1), BASE_PAGE_SIZE⟩]⟩, ?_, ?_, ?_, ?_⟩
  · simp only [run, List.foldlM_cons, List.foldlM_nil, StateT.run_bind, Call.exec, StateT.run_map,
      alloc_big, show (4095 * LARGE_PAGE_SIZE + LARGE_PAGE_SIZE - 1) / LARGE_PAGE_SIZE = 4095 by
        decide, hrun₁, Outcome.map_ok, Outcome.ok_bind, try_alloc_page]
    rw [run_try_alloc_of_some (by decide) hpage]
    rfl
  · exact List.mem_append_right _ (List.mem_singleton_self _)
  · rw [List.getElem?_set_ne (by omega), hget₁]
  · simp [(List.getElem?_eq_some_iff.mp hget₁').1]

/-- `alloc` of two large pages on core `i` after pager `i` has handed out all but one page of
its region and core `i + 1` has taken a base page: the pointer returned is the last page of
region `i`, the second page comes from pager `i + 1` one large page further up, and the two
pages that the caller takes as one range `[ptr, ptr + 2 * LARGE_PAGE_SIZE)` cover the base page
of core `i + 1` instead. -/
theorem alloc_big_not_contiguous {i : ℕ} (hi1 : 1 ≤ i) (hi : i + 1 < MAX_CORES) :
    ∃ h, (run [.alloc_big i (4095 * LARGE_PAGE_SIZE), .alloc_page (i + 1)] Heap.init).run
        Allocator.unlimited = .ok (h, Allocator.unlimited) ∧
      ⟨i + 1, region_start (i + 1), BASE_PAGE_SIZE⟩ ∈ h.grants ∧
      ∃ h', (alloc_big i (2 * LARGE_PAGE_SIZE) h).run Allocator.unlimited =
          .ok ((region_end i - LARGE_PAGE_SIZE, h'), Allocator.unlimited) ∧
        h'.grants = h.grants ++ [⟨i, region_end i - LARGE_PAGE_SIZE, LARGE_PAGE_SIZE⟩,
          ⟨i + 1, region_start (i + 1) + LARGE_PAGE_SIZE, LARGE_PAGE_SIZE⟩] ∧
        ¬ Grant.Disjoint ⟨i, region_end i - LARGE_PAGE_SIZE, 2 * LARGE_PAGE_SIZE⟩
          ⟨i + 1, region_start (i + 1), BASE_PAGE_SIZE⟩ := by
  obtain ⟨h, hrun, hmem, hget, hget'⟩ := run_fill_region_then_page hi
  obtain ⟨-, -, hlstart, -⟩ := PageSize.large.facts i
  obtain ⟨-, -, hlstart', -⟩ := PageSize.large.facts (i + 1)
  have hend := region_end_eq_large i
  have hnext : region_start (i + 1) = region_end i := rfl
  have hlarge : 0 < LARGE_PAGE_SIZE := by decide
  have hheap : 0 < HEAP_START := by decide
  have hpos : 0 < region_start i := by unfold region_start; omega
  have hc : i < h.pagers.length := (List.getElem?_eq_some_iff.mp hget).1
  -- the first page: the last one of region `i`, which fills pager `i`
  have hp₁ := run_alloc_big_page_of_room 0 0 hget (Nat.dvd_add hlstart (Dvd.intro_left _ rfl))
    (by omega) (by omega)
  rw [if_pos rfl, show region_start i + 4095 * LARGE_PAGE_SIZE + LARGE_PAGE_SIZE = region_end i by
    omega] at hp₁
  -- the second: pager `i` is full, and pager `i + 1` has moved past its first large page
  have hget₁ : (h.pagers.set i ⟨region_end i, region_end i⟩)[i]? =
      some ⟨region_end i, region_end i⟩ := by
    simp [hc]
  have hget₂ : (h.pagers.set i ⟨region_end i, region_end i⟩)[i + 1]? =
      some ⟨region_start (i + 1) + BASE_PAGE_SIZE, region_end (i + 1)⟩ := by
    rw [List.getElem?_set_ne (by omega), hget']
  have hp₂ := run_alloc_big_page_of_next (region_start i + 4095 * LARGE_PAGE_SIZE) 1 hi1 hi
    (h := ⟨h.pagers.set i ⟨region_end i, region_end i⟩,
      h.grants ++ [⟨i, region_start i + 4095 * LARGE_PAGE_SIZE, LARGE_PAGE_SIZE⟩]⟩)
    hget₁ (le_round_up hlarge) hget₂
    (round_up_add_of_dvd hlarge hlstart' (by decide) (by decide))
    (by rw [region_end_eq_large (i + 1)]; omega) (by omega)
  rw [if_neg (by omega)] at hp₂
  rw [show region_start i + 4095 * LARGE_PAGE_SIZE = region_end i - LARGE_PAGE_SIZE by omega]
    at hp₁ hp₂
  refine ⟨h, hrun, hmem, ?_⟩
  simp only [alloc_big, show (2 * LARGE_PAGE_SIZE + LARGE_PAGE_SIZE - 1) / LARGE_PAGE_SIZE = 2 by
      decide, show List.range 2 = [0, 1] from rfl, List.foldlM_cons, List.foldlM_nil,
    StateT.run_bind, hp₁, Outcome.ok_bind, hp₂, StateT.run_pure, Outcome.pure_eq, Outcome.ok.injEq,
    Prod.mk.injEq, and_true, true_and, exists_eq_left']
  refine ⟨by simp, ?_⟩
  unfold Grant.Disjoint
  simp only
  omega

theorem alloc_big_not_contiguous_core_one :
    ∃ h, (run [.alloc_big 1 (4095 * LARGE_PAGE_SIZE), .alloc_page 2] Heap.init).run
        Allocator.unlimited = .ok (h, Allocator.unlimited) ∧
      ⟨2, region_start 2, BASE_PAGE_SIZE⟩ ∈ h.grants ∧
      ∃ h', (alloc_big 1 (2 * LARGE_PAGE_SIZE) h).run Allocator.unlimited =
          .ok ((region_end 1 - LARGE_PAGE_SIZE, h'), Allocator.unlimited) ∧
        h'.grants = h.grants ++ [⟨1, region_end 1 - LARGE_PAGE_SIZE, LARGE_PAGE_SIZE⟩,
          ⟨2, region_start 2 + LARGE_PAGE_SIZE, LARGE_PAGE_SIZE⟩] ∧
        ¬ Grant.Disjoint ⟨1, region_end 1 - LARGE_PAGE_SIZE, 2 * LARGE_PAGE_SIZE⟩
          ⟨2, region_start 2, BASE_PAGE_SIZE⟩ :=
  alloc_big_not_contiguous (by decide) (by decide)


/-! ## `allocate` called directly -/

/-- A layout larger than a region, mapped by `allocate` on a fresh pager `i`, runs past the end
of region `i`: the first base page that pager `i + 1` then hands out lies inside it. -/
theorem allocate_crosses_region {i size : ℕ} (hi : i + 1 < MAX_CORES)
    (hsize : HEAP_PER_CORE_REGION < size) :
    ∃ h, (run [.allocate i size BASE_PAGE_SIZE, .alloc_page (i + 1)] Heap.init).run
        Allocator.unlimited = .ok (h, Allocator.unlimited) ∧
      h.grants = [⟨i, region_start i, round_up size 4096⟩,
        ⟨i + 1, region_start (i + 1), BASE_PAGE_SIZE⟩] ∧
      ¬ Grant.Inside ⟨i, region_start i, round_up size 4096⟩ ∧
      ¬ Grant.Disjoint ⟨i, region_start i, round_up size 4096⟩
        ⟨i + 1, region_start (i + 1), BASE_PAGE_SIZE⟩ := by
  obtain ⟨hmax, -, hstart, -⟩ := PageSize.base.facts i
  obtain ⟨-, -, hstart', -⟩ := PageSize.base.facts (i + 1)
  have hbig : size ≤ round_up size 4096 := le_round_up (by decide)
  have hheap : 0 < HEAP_START := by decide
  have hnext : region_start (i + 1) = region_start i + HEAP_PER_CORE_REGION := by
    unfold region_start
    ring
  -- `allocate` on pager `i`: its `sbrk` is aligned and below its limit
  have h1 := Heap.run_with_pager_of_ok (h := Heap.init) (round_up size 4096)
    (·.allocate size BASE_PAGE_SIZE) (PAGER_getElem? (by omega))
    (Pager.run_allocate_of_lt (a := Allocator.unlimited) (p := ⟨region_start i, region_end i⟩)
      (round_up_of_dvd (by decide) (hmax ▸ hstart))
      (region_start_lt_end i) rfl)
  -- `try_alloc_page` on core `i + 1`: its own pager, untouched, hands out its first page
  have hget : (PAGER.set i ⟨region_start i + round_up size 4096, region_end i⟩)[i + 1]? =
      some ⟨region_start (i + 1), region_end (i + 1)⟩ := by
    rw [List.getElem?_set_ne (by omega), PAGER_getElem? hi]
  have h2 := Heap.run_with_pager_of_ok (i := i + 1) BASE_PAGE_SIZE (·.alloc_page BASE_PAGE_SIZE)
    (h := ⟨PAGER.set i ⟨region_start i + round_up size 4096, region_end i⟩,
      [⟨i, region_start i, round_up size 4096⟩]⟩) hget
    (Pager.run_alloc_page_of_lt (a := Allocator.unlimited)
      (p := ⟨region_start (i + 1), region_end (i + 1)⟩) (round_up_of_dvd (by decide) (hmax ▸ hstart'))
      (region_start_lt_end (i + 1)) (show 0 < region_start (i + 1) by unfold region_start; omega)
      rfl)
  refine ⟨⟨(PAGER.set i ⟨region_start i + round_up size 4096, region_end i⟩).set (i + 1)
      ⟨region_start (i + 1) + round_up BASE_PAGE_SIZE 4096, region_end (i + 1)⟩,
    [⟨i, region_start i, round_up size 4096⟩, ⟨i + 1, region_start (i + 1), BASE_PAGE_SIZE⟩]⟩,
    ?_, rfl, ?_, ?_⟩
  · simp only [run, List.foldlM_cons, List.foldlM_nil, StateT.run_bind, Call.exec, StateT.run_map,
      h1, Allocator.unlimited_request, Outcome.map_ok, Outcome.ok_bind, try_alloc_page]
    simp only [Heap.init, List.nil_append, Option.toList_some, List.map_cons, List.map_nil]
    rw [run_try_alloc_of_some (by decide) h2]
    rfl
  · unfold Grant.Inside
    rw [show region_end i = region_start (i + 1) from rfl]
    dsimp only
    omega
  · unfold Grant.Disjoint
    simp only
    omega

end Nrk.Vibrio
