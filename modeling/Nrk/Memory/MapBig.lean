import Nrk.Memory.MCache
import Nrk.Lib.Simulation
import Nrk.Memory.Realloc
import Nrk.Process.Syscall

/-! # Big kernel allocations (`kernel/src/memory/mod.rs`)

The `MapBig` arm of `KernelAllocator::try_alloc`, over any kernel address space `V` with a
`map_generic`. -/

namespace Nrk.Memory

namespace KernelAllocator

/-- `KernelAllocator`'s `big_objects_sbrk` as `MEM_PROVIDER` starts it: 2 TiB above
`KERNEL_BASE`. -/
def big_objects_sbrk_init : ℕ := KERNEL_BASE + 2048 * 1024 * 1024 * 1024

/-- What the `MapBig` arm reads and changes: the core's `FrameCacheSmall`
(`pcm.mem_manager()`), the cache of its node in the global memory manager
(`gmanager.node_caches[affinity]`, `none` when the core has no `gmanager`),
`big_objects_sbrk`, and the kernel's address space (`INITIAL_VSPACE`). -/
structure BigState (V : Type) where
  mem_manager : FrameCacheSmall
  gmanager : Option FrameCacheLarge
  big_objects_sbrk : ℕ
  kvspace : V

section Refill

variable {V : Type}

/-- A loop of `try_refill_tcache`, on the stacks of one page size: `n` times, take a page from
the node's cache (`?`: an error ends the refill, keeping the pages already moved) and grow
the core's cache by it, which `expect`s "We ensure to not overfill the FrameCacheSmall
above." -/
def refill_pages {size NCAP CAP : ℕ} (nnode node : ℕ) :
    ℕ → PageStack size NCAP → PageStack size CAP →
      Outcome (PageStack size NCAP × PageStack size CAP × Except KError Unit)
  | 0, nstack, stack => .ok (nstack, stack, .ok ())
  | n + 1, nstack, stack => do
      let (nstack, r) ← MCache.allocate_page nnode nstack
      match r with
      | .error e => return (nstack, stack, .error e)
      | .ok frame =>
          let (stack, r) ← MCache.grow_pages node stack [frame]
          match r with
          | .error _ => .panic
          | .ok () => refill_pages nnode node n nstack stack

/-- `KernelAllocator::try_refill_tcache` with `MemType::Mem`. -/
def try_refill_tcache (needed_base_pages needed_large_pages : ℕ) (s : BigState V) :
    Outcome (BigState V × Except KError Unit) :=
  match s.gmanager with
  -- no gmanager, can't refill then
  | none => .ok (s, .ok ())
  | some ncache => do
      let mem_manager := s.mem_manager
      -- make sure we don't overflow the `FrameCacheSmall`
      let needed_base_pages := min mem_manager.spare_base_page_capacity needed_base_pages
      let needed_large_pages := min mem_manager.spare_large_page_capacity needed_large_pages
      let (nbase, base, r) ← refill_pages ncache.node mem_manager.node needed_base_pages
        ncache.base_page_addresses mem_manager.base_page_addresses
      let ncache := { ncache with base_page_addresses := nbase }
      let mem_manager := { mem_manager with base_page_addresses := base }
      match r with
      | .error e => return ({ s with gmanager := some ncache, mem_manager }, .error e)
      | .ok () =>
          let (nlarge, large, r) ← refill_pages ncache.node mem_manager.node needed_large_pages
            ncache.large_page_addresses mem_manager.large_page_addresses
          return ({ s with
                    gmanager := some { ncache with large_page_addresses := nlarge }
                    mem_manager := { mem_manager with large_page_addresses := large } }, r)

/-- `KernelAllocator::maybe_refill_tcache`: refill only when the core's cache holds fewer pages
than needed. -/
def maybe_refill_tcache (needed_base_pages needed_large_pages : ℕ) (s : BigState V) :
    Outcome (BigState V × Except KError Unit) :=
  let free_bp := s.mem_manager.free_base_pages
  let free_lp := s.mem_manager.free_large_pages
  if needed_base_pages > free_bp ∨ needed_large_pages > free_lp then
    try_refill_tcache needed_base_pages needed_large_pages s
  else .ok (s, .ok ())

variable {size NCAP CAP nnode node : ℕ}

theorem refill_pages_ok (hsize : size % BASE_PAGE_SIZE = 0) (hnode : nnode = node) :
    ∀ (n : ℕ) (nstack : PageStack size NCAP) (stack : PageStack size CAP),
      n ≤ nstack.len → stack.len + n ≤ CAP →
        ∃ nstack' stack', refill_pages nnode node n nstack stack = .ok (nstack', stack', .ok ()) ∧
          stack'.len = stack.len + n := by
  intro n
  induction n with
  | zero => exact fun nstack stack _ _ => ⟨nstack, stack, rfl, rfl⟩
  | succ n ih =>
    intro nstack stack hn hroom
    have hpos : 0 < nstack.len := by omega
    have hroom₁ : stack.len < CAP := by omega
    obtain ⟨nstack₁, frame, halloc, hnlen, hfsize, hfbase, hfnode⟩ :=
      MCache.allocate_page_of_pos nnode hsize hpos
    obtain ⟨stack₁, hgrow, hlen⟩ :=
      MCache.grow_pages_single hroom₁ hfsize hfbase (hfnode.trans hnode)
    obtain ⟨nstack', stack', hrest, hlen'⟩ := ih nstack₁ stack₁ (by omega) (by omega)
    refine ⟨nstack', stack', ?_, by omega⟩
    simp only [refill_pages, halloc, hgrow, hrest, Outcome.ok_bind]

/-- With a node whose cache has the pages that the refill moves, `try_refill_tcache` succeeds:
the core gains what it asked for, up to its room. -/
theorem try_refill_tcache_ok {s : BigState V} {ncache : FrameCacheLarge}
    {needed_base_pages needed_large_pages : ℕ} (hg : s.gmanager = some ncache)
    (hnode : ncache.node = s.mem_manager.node)
    (hbase : min s.mem_manager.spare_base_page_capacity needed_base_pages ≤
      ncache.free_base_pages)
    (hlarge : min s.mem_manager.spare_large_page_capacity needed_large_pages ≤
      ncache.free_large_pages) :
    ∃ s', try_refill_tcache needed_base_pages needed_large_pages s = .ok (s', .ok ()) ∧
      s'.mem_manager.free_base_pages = s.mem_manager.free_base_pages +
        min s.mem_manager.spare_base_page_capacity needed_base_pages ∧
      s'.mem_manager.free_large_pages = s.mem_manager.free_large_pages +
        min s.mem_manager.spare_large_page_capacity needed_large_pages ∧
      s'.mem_manager.node = s.mem_manager.node ∧
      s'.big_objects_sbrk = s.big_objects_sbrk ∧ s'.kvspace = s.kvspace := by
  have hbp := s.mem_manager.base_page_addresses.len_le
  have hlp := s.mem_manager.large_page_addresses.len_le
  obtain ⟨nbase, base, hb, hblen⟩ := refill_pages_ok (Nat.mod_self _) hnode _
    ncache.base_page_addresses s.mem_manager.base_page_addresses hbase
    (by simp only [MCache.spare_base_page_capacity]; omega)
  obtain ⟨nlarge, large, hl, hllen⟩ := refill_pages_ok (by decide) hnode _
    ncache.large_page_addresses s.mem_manager.large_page_addresses hlarge
    (by simp only [MCache.spare_large_page_capacity]; omega)
  refine ⟨{ s with
            gmanager := some { ncache with
                               base_page_addresses := nbase
                               large_page_addresses := nlarge }
            mem_manager := { s.mem_manager with
                             base_page_addresses := base
                             large_page_addresses := large } },
    ?_, hblen, hllen, rfl, rfl, rfl⟩
  simp only [try_refill_tcache, hg, hb, hl, Outcome.ok_bind, Outcome.pure_eq]

/-- With a node whose cache has the pages asked for, `maybe_refill_tcache` succeeds, and the
core's cache then holds what was asked for, up to its capacity. -/
theorem maybe_refill_tcache_ok {s : BigState V} {ncache : FrameCacheLarge}
    {needed_base_pages needed_large_pages : ℕ} (hg : s.gmanager = some ncache)
    (hnode : ncache.node = s.mem_manager.node)
    (hbase : needed_base_pages ≤ ncache.free_base_pages)
    (hlarge : needed_large_pages ≤ ncache.free_large_pages) :
    ∃ s', maybe_refill_tcache needed_base_pages needed_large_pages s = .ok (s', .ok ()) ∧
      min needed_base_pages 381 ≤ s'.mem_manager.free_base_pages ∧
      min needed_large_pages 128 ≤ s'.mem_manager.free_large_pages ∧
      s'.mem_manager.node = s.mem_manager.node ∧
      s'.big_objects_sbrk = s.big_objects_sbrk ∧ s'.kvspace = s.kvspace := by
  by_cases hneed : needed_base_pages > s.mem_manager.free_base_pages ∨
      needed_large_pages > s.mem_manager.free_large_pages
  · -- the refill fills the core's cache up to the pages asked for, or to its capacity
    have hbase' : min s.mem_manager.spare_base_page_capacity needed_base_pages ≤
        ncache.free_base_pages := (min_le_right _ _).trans hbase
    have hlarge' : min s.mem_manager.spare_large_page_capacity needed_large_pages ≤
        ncache.free_large_pages := (min_le_right _ _).trans hlarge
    obtain ⟨s', h, hb, hl, hrest⟩ := try_refill_tcache_ok hg hnode hbase' hlarge'
    have hbp := s.mem_manager.base_page_addresses.len_le
    have hlp := s.mem_manager.large_page_addresses.len_le
    simp only [MCache.spare_base_page_capacity, MCache.spare_large_page_capacity,
      MCache.free_base_pages, MCache.free_large_pages] at hb hl ⊢
    refine ⟨s', ?_, by omega, by omega, hrest⟩
    simp only [maybe_refill_tcache, if_pos hneed, h]
  · refine ⟨s, by simp only [maybe_refill_tcache, if_neg hneed], ?_, ?_, rfl, rfl, rfl⟩
    all_goals simp only [not_or, gt_iff_lt, not_lt] at hneed
    · exact (min_le_left _ _).trans hneed.1
    · exact (min_le_left _ _).trans hneed.2

theorem try_refill_tcache_keeps {s s' : BigState V} {nb nl : ℕ} {r : Except KError Unit}
    (h : try_refill_tcache nb nl s = .ok (s', r)) :
    s'.big_objects_sbrk = s.big_objects_sbrk ∧ s'.kvspace = s.kvspace := by
  unfold try_refill_tcache at h
  split at h
  · cases h
    exact ⟨rfl, rfl⟩
  · obtain ⟨⟨nbase, base, r₁⟩, -, h⟩ := Outcome.bind_eq_ok.mp h
    -- the base-page loop stops the refill on an error, or the large-page loop follows
    cases r₁ with
    | error e =>
      cases h
      exact ⟨rfl, rfl⟩
    | ok u =>
      obtain ⟨⟨nlarge, large, r₂⟩, -, h⟩ := Outcome.bind_eq_ok.mp h
      cases h
      exact ⟨rfl, rfl⟩

theorem maybe_refill_tcache_keeps {s s' : BigState V} {nb nl : ℕ} {r : Except KError Unit}
    (h : maybe_refill_tcache nb nl s = .ok (s', r)) :
    s'.big_objects_sbrk = s.big_objects_sbrk ∧ s'.kvspace = s.kvspace := by
  by_cases hneed : nb > s.mem_manager.free_base_pages ∨ nl > s.mem_manager.free_large_pages
  · simp only [maybe_refill_tcache, if_pos hneed] at h
    exact try_refill_tcache_keeps h
  · simp only [maybe_refill_tcache, if_neg hneed, Outcome.ok.injEq, Prod.mk.injEq] at h
    obtain ⟨rfl, -⟩ := h
    exact ⟨rfl, rfl⟩

end Refill

/-! ## The `MapBig` arm -/

section MapBig

variable {V : Type} (map_generic : V → ℕ → ℕ × ℕ → MapAction → Outcome (V × Except KError Unit))

/-- `KernelAllocator::layout_to_pages`. -/
def layout_to_pages (layout : Layout) : ℕ × ℕ := Process.size_to_pages layout.size

/-- The pages that the `MapBig` arm maps for a layout: `layout_to_pages`, except that more than
254 base pages, which would exhaust the `FrameCacheSmall`, become one large page more. -/
def big_pages (layout : Layout) : ℕ × ℕ :=
  let (base, large) := layout_to_pages layout
  if base > 254 then (0, large + 1) else (base, large)

/-- A loop of the `MapBig` arm, on the core's stack of one page size: `n` times, take a page
(`expect("Can't run out of memory")`) and map it at `start_at`, kernel and writable
(`expect("Can't create the mapping")`), `start_at` moving on by the page size. -/
def map_pages {size CAP : ℕ} (node : ℕ) :
    ℕ → ℕ → PageStack size CAP → V → Outcome (ℕ × PageStack size CAP × V)
  | 0, start_at, stack, kvspace => .ok (start_at, stack, kvspace)
  | n + 1, start_at, stack, kvspace => do
      let (stack, r) ← MCache.allocate_page node stack
      match r with
      | .error _ => .panic
      | .ok f =>
          let (kvspace, r) ← map_generic kvspace start_at (f.base, f.size)
            (MapAction.kernel' ||| MapAction.write')
          match r with
          | .error _ => .panic
          | .ok () => map_pages node n ((start_at + size) % 2 ^ USIZE_BITS) stack kvspace

/-- The `AllocatorType::MapBig` arm of `KernelAllocator::try_alloc`: the start of the mapped
window, or the error of the refill. -/
def map_big (layout : Layout) (s : BigState V) : Outcome (BigState V × Except KError ℕ) := do
  let (base, large) := big_pages layout
  -- 20 base pages more, for the page tables
  let (s, r) ← maybe_refill_tcache (base + 20) large s
  match r with
  | .error e => return (s, .error e)
  | .ok () =>
      -- the window is `large + 1` large pages: the last one holds the base pages
      let start_at := s.big_objects_sbrk
      let s := { s with
                 big_objects_sbrk := (start_at + (large + 1) * LARGE_PAGE_SIZE) % 2 ^ USIZE_BITS }
      let base_ptr := start_at
      let mm := s.mem_manager
      let (start_at, large_page_addresses, kvspace) ←
        map_pages map_generic mm.node large start_at mm.large_page_addresses s.kvspace
      let (_, base_page_addresses, kvspace) ←
        map_pages map_generic mm.node base start_at mm.base_page_addresses kvspace
      return ({ s with
                mem_manager := { mm with large_page_addresses, base_page_addresses }
                kvspace }, .ok base_ptr)

theorem big_pages_fst_le (layout : Layout) : (big_pages layout).1 ≤ 254 := by
  rcases hp : layout_to_pages layout with ⟨base, large⟩
  simp only [big_pages, hp]
  split_ifs with h
  · exact Nat.zero_le _
  · exact Nat.le_of_not_lt h

variable {size CAP node : ℕ}

theorem map_pages_of_lt :
    ∀ (n start_at : ℕ) (stack : PageStack size CAP) (kvspace : V),
      stack.len < n → map_pages map_generic node n start_at stack kvspace = .panic := by
  intro n
  induction n with
  | zero => exact fun _ _ _ h => absurd h (Nat.not_lt_zero _)
  | succ n ih =>
    intro start_at stack kvspace hlt
    rw [map_pages]
    cases halloc : MCache.allocate_page node stack with
    | panic => rfl
    | ok p =>
      obtain ⟨stack₁, _ | frame⟩ := p
      · rfl
      have hlen := MCache.allocate_page_len halloc
      cases hmap : map_generic kvspace start_at (frame.base, frame.size)
          (MapAction.kernel' ||| MapAction.write') with
      | panic => simp only [Outcome.ok_bind, hmap]; rfl
      | ok q =>
        obtain ⟨kvspace₁, _ | _⟩ := q
        · simp only [Outcome.ok_bind, hmap]
        · simp only [Outcome.ok_bind, hmap]
          exact ih _ _ _ (by omega)

theorem map_pages_ok (hmap : ∀ v vbase pregion rights, ∃ v',
      map_generic v vbase pregion rights = .ok (v', .ok ()))
    (hsize : size % BASE_PAGE_SIZE = 0) :
    ∀ (n start_at : ℕ) (stack : PageStack size CAP) (kvspace : V), n ≤ stack.len →
      ∃ end_at stack' kvspace',
        map_pages map_generic node n start_at stack kvspace = .ok (end_at, stack', kvspace') := by
  intro n
  induction n with
  | zero => exact fun start_at stack kvspace _ => ⟨start_at, stack, kvspace, rfl⟩
  | succ n ih =>
    intro start_at stack kvspace hn
    have hpos : 0 < stack.len := by omega
    obtain ⟨stack₁, frame, halloc, hlen, -⟩ := MCache.allocate_page_of_pos node hsize hpos
    obtain ⟨kvspace₁, hm⟩ := hmap kvspace start_at (frame.base, frame.size)
      (MapAction.kernel' ||| MapAction.write')
    obtain ⟨end_at, stack', kvspace', hrest⟩ :=
      ih ((start_at + size) % 2 ^ USIZE_BITS) stack₁ kvspace₁ (by omega)
    exact ⟨end_at, stack', kvspace', by simp only [map_pages, halloc, hm, hrest, Outcome.ok_bind]⟩

/-- What a call that returns does: an error of the refill leaves `big_objects_sbrk` where it
was; a success returns where it was, and moves it past the window. -/
theorem map_big_cases {layout : Layout} {s s' : BigState V} {r : Except KError ℕ}
    (h : map_big map_generic layout s = .ok (s', r)) :
    (∃ e, r = .error e ∧ s'.big_objects_sbrk = s.big_objects_sbrk) ∨
      (r = .ok s.big_objects_sbrk ∧ s'.big_objects_sbrk =
        (s.big_objects_sbrk + ((big_pages layout).2 + 1) * LARGE_PAGE_SIZE) % 2 ^ USIZE_BITS) := by
  rcases hp : big_pages layout with ⟨base, large⟩
  simp only [map_big, hp] at h
  obtain ⟨⟨s₁, r₁⟩, hrefill, h⟩ := Outcome.bind_eq_ok.mp h
  have hkeep := (maybe_refill_tcache_keeps hrefill).1
  cases r₁ with
  | error e =>
    cases h
    exact .inl ⟨e, rfl, hkeep⟩
  | ok u =>
    obtain ⟨⟨start₁, large₁, kvspace₁⟩, -, h⟩ := Outcome.bind_eq_ok.mp h
    obtain ⟨⟨start₂, base₂, kvspace₂⟩, -, h⟩ := Outcome.bind_eq_ok.mp h
    cases h
    exact .inr ⟨by rw [hkeep], by rw [hkeep]⟩

variable {s : BigState V} {ncache : FrameCacheLarge} {layout : Layout}

/-- A request for more large pages than a `FrameCacheSmall` holds panics, when its node has the
pages and whatever the mappings do: the refill stops at the core's 128 large pages, and the
mapping loop `expect`s one more. -/
theorem map_big_of_lt_large (hg : s.gmanager = some ncache)
    (hnode : ncache.node = s.mem_manager.node)
    (hbase : (big_pages layout).1 + 20 ≤ ncache.free_base_pages)
    (hlarge : (big_pages layout).2 ≤ ncache.free_large_pages)
    (habove : 128 < (big_pages layout).2) :
    map_big map_generic layout s = .panic := by
  rcases hp : big_pages layout with ⟨base, large⟩
  rw [hp] at hbase hlarge habove
  obtain ⟨s₁, hrefill, -⟩ := maybe_refill_tcache_ok hg hnode hbase hlarge
  have hlt : s₁.mem_manager.large_page_addresses.len < large :=
    s₁.mem_manager.free_large_pages_le.trans_lt habove
  have hpanic : map_pages map_generic s₁.mem_manager.node large s₁.big_objects_sbrk
      s₁.mem_manager.large_page_addresses s₁.kvspace = .panic :=
    map_pages_of_lt map_generic _ _ _ _ hlt
  simp only [map_big, hp, hrefill, Outcome.ok_bind, hpanic]
  rfl

/-- With mappings that succeed, a request that fits the core's cache and that its node has the
pages for returns the current `big_objects_sbrk`. -/
theorem map_big_ok (hmap : ∀ v vbase pregion rights, ∃ v',
      map_generic v vbase pregion rights = .ok (v', .ok ()))
    (hg : s.gmanager = some ncache) (hnode : ncache.node = s.mem_manager.node)
    (hbase : (big_pages layout).1 + 20 ≤ ncache.free_base_pages)
    (hlarge : (big_pages layout).2 ≤ ncache.free_large_pages)
    (hfit : (big_pages layout).2 ≤ 128) :
    ∃ s', map_big map_generic layout s = .ok (s', .ok s.big_objects_sbrk) := by
  have hb254 := big_pages_fst_le layout
  rcases hp : big_pages layout with ⟨base, large⟩
  rw [hp] at hbase hlarge hfit hb254
  obtain ⟨s₁, hrefill, hbp, hlp, -, hsbrk, -⟩ := maybe_refill_tcache_ok hg hnode hbase hlarge
  -- the core's cache holds the pages of both loops: at most 274 base pages were asked for
  have hlp' : large ≤ s₁.mem_manager.large_page_addresses.len := by
    simp only [MCache.free_large_pages] at hlp
    omega
  have hbp' : base ≤ s₁.mem_manager.base_page_addresses.len := by
    simp only [MCache.free_base_pages] at hbp
    omega
  have hl : ∃ end_at stack kvspace, map_pages map_generic s₁.mem_manager.node large
      s₁.big_objects_sbrk s₁.mem_manager.large_page_addresses s₁.kvspace =
        .ok (end_at, stack, kvspace) :=
    map_pages_ok map_generic hmap (by decide) _ _ _ _ hlp'
  obtain ⟨start₁, large₁, kvspace₁, hl⟩ := hl
  have hb : ∃ end_at stack kvspace, map_pages map_generic s₁.mem_manager.node base start₁
      s₁.mem_manager.base_page_addresses kvspace₁ = .ok (end_at, stack, kvspace) :=
    map_pages_ok map_generic hmap (Nat.mod_self _) _ _ _ _ hbp'
  obtain ⟨start₂, base₂, kvspace₂, hb⟩ := hb
  rw [hsbrk] at hl
  refine ⟨{ s₁ with
            big_objects_sbrk := (s.big_objects_sbrk + (large + 1) * LARGE_PAGE_SIZE) % 2 ^ USIZE_BITS
            mem_manager := { s₁.mem_manager with
                             large_page_addresses := large₁
                             base_page_addresses := base₂ }
            kvspace := kvspace₂ }, ?_⟩
  simp only [map_big, hp, hrefill, Outcome.ok_bind, hl, hb, hsbrk, Outcome.pure_eq]

theorem map_big_panics_or_misaligns (hg : s.gmanager = some ncache)
    (hnode : ncache.node = s.mem_manager.node) :
    (∀ layout : Layout, LARGE_PAGE_SIZE < layout.size →
        (big_pages layout).1 + 20 ≤ ncache.free_base_pages →
        (big_pages layout).2 ≤ ncache.free_large_pages → 128 < (big_pages layout).2 →
          map_big map_generic layout s = .panic) ∧
    ((∀ v vbase pregion rights, ∃ v', map_generic v vbase pregion rights = .ok (v', .ok ())) →
      ∀ layout : Layout, LARGE_PAGE_SIZE < layout.size →
        (big_pages layout).1 + 20 ≤ ncache.free_base_pages →
        (big_pages layout).2 ≤ ncache.free_large_pages → (big_pages layout).2 ≤ 128 →
        ¬ layout.align ∣ s.big_objects_sbrk →
          ∃ s' p, map_big map_generic layout s = .ok (s', .ok p) ∧ ¬ layout.align ∣ p) := by
  refine ⟨fun layout _ hbase hlarge habove => map_big_of_lt_large map_generic hg hnode hbase
    hlarge habove, fun hmap layout _ hbase hlarge hfit halign => ?_⟩
  obtain ⟨s', h⟩ := map_big_ok map_generic hmap hg hnode hbase hlarge hfit
  exact ⟨s', _, h, halign⟩

/-! ## Windows of successive calls

Over any run of the `MapBig` arm, the windows of the calls that return `Ok` are disjoint, as
long as the 64-bit `big_objects_sbrk` does not wrap around. -/

/-- The bytes a call takes from `big_objects_sbrk`: one large page more than it maps. -/
def window (layout : Layout) : ℕ := ((big_pages layout).2 + 1) * LARGE_PAGE_SIZE

theorem size_lt_window (layout : Layout) : layout.size < window layout := by
  -- `big_pages` keeps the large pages of `size_to_pages`, or adds one
  have hlarge : layout.size / LARGE_PAGE_SIZE ≤ (big_pages layout).2 := by
    have heq := Process.size_to_pages_eq layout.size
    rcases hp : layout_to_pages layout with ⟨base, large⟩
    simp only [layout_to_pages] at hp
    rw [hp, Prod.mk.injEq] at heq
    simp only [big_pages, layout_to_pages, hp]
    split_ifs
    · exact heq.2.ge.trans (Nat.le_succ _)
    · exact heq.2.ge
  unfold window
  calc layout.size < (layout.size / LARGE_PAGE_SIZE + 1) * LARGE_PAGE_SIZE := by
        simp only [LARGE_PAGE_SIZE]
        omega
    _ ≤ ((big_pages layout).2 + 1) * LARGE_PAGE_SIZE := Nat.mul_le_mul_right _ (by omega)

/-- A call that returns moves `big_objects_sbrk` by its window or not at all, and an
allocation starts at the old position, its window ending at the new one. -/
theorem map_big_sbrk {s s' : BigState V} {r : Except KError ℕ}
    (h : map_big map_generic layout s = .ok (s', r))
    (hwrap : s.big_objects_sbrk + window layout < 2 ^ USIZE_BITS) :
    s.big_objects_sbrk ≤ s'.big_objects_sbrk ∧
      s'.big_objects_sbrk ≤ s.big_objects_sbrk + window layout ∧
      ∀ p, r = .ok p → p = s.big_objects_sbrk ∧ s'.big_objects_sbrk = p + window layout := by
  rcases map_big_cases map_generic h with ⟨e, rfl, hs⟩ | ⟨rfl, hs⟩
  · refine ⟨hs.ge, by omega, fun p hp => ?_⟩
    cases hp
  · have hw : window layout = ((big_pages layout).2 + 1) * LARGE_PAGE_SIZE := rfl
    rw [← hw, Nat.mod_eq_of_lt hwrap] at hs
    refine ⟨by omega, hs.le, fun p hp => ?_⟩
    cases hp
    exact ⟨rfl, hs⟩

theorem run_map_big_ge : ∀ {layouts : List Layout} {s s' : BigState V}
    {rs : List (Except KError ℕ)},
    Sim.runImpl (fun s layout => map_big map_generic layout s) s layouts = .ok (s', rs) →
    s.big_objects_sbrk + (layouts.map window).sum < 2 ^ USIZE_BITS →
    ∀ (k p : ℕ), rs[k]? = some (.ok p) → s.big_objects_sbrk ≤ p
  | [], s, s', rs, hrun, _ => by
    simp only [Sim.runImpl, Outcome.ok.injEq, Prod.mk.injEq] at hrun
    obtain ⟨-, rfl⟩ := hrun
    simp
  | layout :: layouts, s, s', rs, hrun, hwrap => by
    obtain ⟨s₁, r, rs', hstep, hrest, rfl⟩ := Sim.runImpl_cons hrun
    simp only [List.map_cons, List.sum_cons] at hwrap
    obtain ⟨hle, hge, hok⟩ := map_big_sbrk map_generic hstep (by omega)
    have ih := run_map_big_ge hrest (by omega)
    intro k p hk
    cases k with
    | zero =>
      simp only [List.getElem?_cons_zero, Option.some.injEq] at hk
      exact (hok p hk).1.ge
    | succ k =>
      simp only [List.getElem?_cons_succ] at hk
      exact hle.trans (ih k p hk)

/-- The windows of the calls of a run that return `Ok` are disjoint: a later allocation starts
after the whole layout of an earlier one, while `big_objects_sbrk` does not wrap. -/
theorem map_big_windows_disjoint : ∀ {layouts : List Layout} {s s' : BigState V}
    {rs : List (Except KError ℕ)},
    Sim.runImpl (fun s layout => map_big map_generic layout s) s layouts = .ok (s', rs) →
    s.big_objects_sbrk + (layouts.map window).sum < 2 ^ USIZE_BITS →
    ∀ (i j p q : ℕ) (l : Layout), i < j → layouts[i]? = some l → rs[i]? = some (.ok p) →
      rs[j]? = some (.ok q) → p + l.size ≤ q
  | [], _, _, _, _, _, i, _, _, _, _, _, hl, _, _ => by simp at hl
  | layout :: layouts, s, s', rs, hrun, hwrap, i, j, p, q, l, hij, hl, hp, hq => by
    obtain ⟨s₁, r, rs', hstep, hrest, rfl⟩ := Sim.runImpl_cons hrun
    simp only [List.map_cons, List.sum_cons] at hwrap
    obtain ⟨-, hge, hok⟩ := map_big_sbrk map_generic hstep (by omega)
    obtain ⟨j, rfl⟩ : ∃ j', j = j' + 1 := ⟨j - 1, by omega⟩
    simp only [List.getElem?_cons_succ] at hq
    cases i with
    | zero =>
      -- the first call's window ends where the rest of the run starts
      simp only [List.getElem?_cons_zero, Option.some.injEq] at hl hp
      subst hl
      obtain ⟨-, hend⟩ := hok p hp
      have hq₁ := run_map_big_ge map_generic hrest (by omega) j q hq
      have hsize := size_lt_window layout
      omega
    | succ i =>
      simp only [List.getElem?_cons_succ] at hl hp
      exact map_big_windows_disjoint hrest (by omega) i j p q l (by omega) hl hp hq

end MapBig

/-- The pages `start`, `start + 1`, ... of `size` bytes, `n` of them. -/
def pages_from (size start n : ℕ) : List { paddr : ℕ // paddr % size = 0 } :=
  (List.range n).map fun i => ⟨(start + i) * size, Nat.mul_mod_left _ _⟩

/-- The first call on a core whose cache is empty, on node 0, whose node's cache holds the 20
base pages at the bottom of memory and the 129 large pages after them. -/
def boot_state : BigState Unit where
  mem_manager := ⟨0, .new, .new⟩
  gmanager := some ⟨0, ⟨pages_from BASE_PAGE_SIZE 0 20, by simp [pages_from]⟩,
    ⟨pages_from LARGE_PAGE_SIZE 1 129, by simp [pages_from]⟩⟩
  big_objects_sbrk := big_objects_sbrk_init
  kvspace := ()

theorem map_big_panics_at_129_large_pages :
    map_big (fun _ _ _ _ => .ok ((), .ok ())) ⟨129 * LARGE_PAGE_SIZE, BASE_PAGE_SIZE⟩
        boot_state = .panic ∧
      ∃ s' p, map_big (fun _ _ _ _ => .ok ((), .ok ())) ⟨2 * LARGE_PAGE_SIZE, 2 ^ 42⟩
        boot_state = .ok (s', .ok p) ∧ ¬ 2 ^ 42 ∣ p := by
  have h := map_big_panics_or_misaligns (fun (_ : Unit) _ _ _ => .ok ((), .ok ()))
    (s := boot_state) rfl rfl
  exact ⟨h.1 _ (by decide +kernel) (by decide +kernel) (by decide +kernel) (by decide +kernel),
    h.2 (fun _ _ _ _ => ⟨(), rfl⟩) _ (by decide +kernel) (by decide +kernel) (by decide +kernel)
      (by decide +kernel) (by decide +kernel)⟩


end KernelAllocator

end Nrk.Memory
