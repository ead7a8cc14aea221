import Nrk.Memory.Detmem
import Nrk.Memory.Populate

/-! # The boot-time memory manager (`memory/global.rs`)

`GlobalMemory::new` only cuts frames and hands the pieces on, so the caches it builds are a
carving of the frames it was given. -/

namespace Nrk.Memory

/-- `MAX_PHYSICAL_REGIONS`. -/
def MAX_PHYSICAL_REGIONS : ℕ := 64

/-- `EMEM_SIZE`: the memory of an early cache, two large pages and 64 base pages. -/
def EMEM_SIZE : ℕ := 2 * LARGE_PAGE_SIZE + 64 * BASE_PAGE_SIZE

/-- `GlobalMemory`: an early cache and a node cache for every node, in the order of the nodes.
A node cache comes with the address of the large page it lives in. -/
structure GlobalMemory where
  emem : ArrayVec FrameCacheSmall MAX_NUMA_NODES
  node_caches : ArrayVec (ℕ × FrameCacheLarge) MAX_NUMA_NODES

namespace GlobalMemory

/-- The first loop of `new`: the first frame of the next node larger than `EMEM_SIZE` gives it an
early cache. The frame keeps what lies below its first large-page boundary (`*frame = low`), the
cache takes `EMEM_SIZE` bytes from the boundary on, and the rest, unless empty, goes to
`leftovers`. Returns the frames as the loop leaves them. -/
def emem_frames : ℕ → ArrayVec PFrame MAX_PHYSICAL_REGIONS → ArrayVec FrameCacheSmall MAX_NUMA_NODES →
    List PFrame → Outcome (List PFrame × ArrayVec PFrame MAX_PHYSICAL_REGIONS ×
      ArrayVec FrameCacheSmall MAX_NUMA_NODES)
  | _, leftovers, emem, [] => .ok ([], leftovers, emem)
  | cur_affinity, leftovers, emem, frame :: memory =>
      if frame.1.affinity = cur_affinity ∧ frame.1.size > EMEM_SIZE then do
        let low := frame.split_at_nearest_large_page_boundary.1
        let large_page_aligned_frame := frame.split_at_nearest_large_page_boundary.2
        let emem_frame := (large_page_aligned_frame.split_at EMEM_SIZE rfl).1
        let leftover_mem := (large_page_aligned_frame.split_at EMEM_SIZE rfl).2
        let leftovers ←
          (if leftover_mem.1 ≠ Frame.empty then leftovers.push leftover_mem else pure leftovers)
        let emem ← emem.push (← MCache.new_with_frame cur_affinity emem_frame)
        let (memory, leftovers, emem) ← emem_frames (cur_affinity + 1) leftovers emem memory
        return (low :: memory, leftovers, emem)
      else do
        let (memory, leftovers, emem) ← emem_frames cur_affinity leftovers emem memory
        return (frame :: memory, leftovers, emem)

/-- The second loop of `new`: each node's cache is placed in a large page taken from the node's
early cache, whose error `?` returns; the page's address may not be 0. -/
def node_caches_new : List ℕ → ArrayVec FrameCacheSmall MAX_NUMA_NODES →
    ArrayVec (ℕ × FrameCacheLarge) MAX_NUMA_NODES →
    Outcome (Except KError (ArrayVec FrameCacheSmall MAX_NUMA_NODES ×
      ArrayVec (ℕ × FrameCacheLarge) MAX_NUMA_NODES))
  | [], emem, node_caches => .ok (.ok (emem, node_caches))
  | affinity :: affinities, emem, node_caches =>
      match emem.get affinity with
      | none => .panic
      | some ecache => do
          let (ecache, r) ← ecache.allocate_large_page
          let emem := emem.set affinity ecache
          match r with
          | .error e => return .error e
          | .ok ncache_memory =>
              if ncache_memory.base = 0 then .panic
              else do
                let node_caches ← node_caches.push (ncache_memory.base, MCache.init affinity)
                node_caches_new affinities emem node_caches

/-- The last loop of `new`, for one node cache: each frame of the cache's node goes in. -/
def populate_frames (ncache_affinity : ℕ) : FrameCacheLarge → List PFrame → FrameCacheLarge
  | ncache, [] => ncache
  | ncache, frame :: frames =>
      populate_frames ncache_affinity
        (if frame.1.affinity = ncache_affinity then ncache.populate_2m_first frame else ncache)
        frames

/-- `GlobalMemory::new(memory)`. -/
def new (memory : ArrayVec PFrame MAX_PHYSICAL_REGIONS) : Outcome (Except KError GlobalMemory) :=
  if ¬ memory.toList.IsChain (fun a b => a.1.affinity ≤ b.1.affinity) then .panic
  else
    match (memory.toList.map (·.1.affinity)).max? with
    | none => .panic
    | some max_affinity => do
        let max_affinity := max_affinity + 1
        let (memory, leftovers, emem) ← emem_frames 0 ArrayVec.new ArrayVec.new memory.toList
        if emem.len ≠ max_affinity then .panic
        else
          match ← node_caches_new (List.range max_affinity) emem ArrayVec.new with
          | .error e => return .error e
          | .ok (emem, node_caches) =>
              return .ok ⟨emem, node_caches.mapIdx fun ncache_affinity (addr, ncache) =>
                (addr, populate_frames ncache_affinity ncache (memory ++ leftovers.toList))⟩

/-- The pages the caches hold: the early caches', then the node caches'. -/
def cached_pages (gm : GlobalMemory) : List Frame :=
  gm.emem.toList.flatMap MCache.pages ++ gm.node_caches.toList.flatMap fun nc => nc.2.pages

/-- The large page that holds a node cache (`ncache_memory`), on the cache's node. -/
def ncache_frame (nc : ℕ × FrameCacheLarge) : Frame := ⟨nc.1, LARGE_PAGE_SIZE, nc.2.node⟩

/-- The large pages that hold the node caches. -/
def ncache_frames (gm : GlobalMemory) : List Frame := gm.node_caches.toList.map ncache_frame

/-! ## The early caches -/

/-- What the first loop holds: the frames, the leftovers, and the early caches' pages. -/
def emem_pool (memory : List PFrame) (leftovers : ArrayVec PFrame MAX_PHYSICAL_REGIONS)
    (emem : ArrayVec FrameCacheSmall MAX_NUMA_NODES) : List Frame :=
  memory.map (·.1) ++ (leftovers.toList.map (·.1) ++ emem.toList.flatMap MCache.pages)

/-- The pieces a frame gives for an early cache: the cache's pages, the leftover (unless it is
empty and dropped) and the part below the boundary. -/
theorem carved_emem_frame {frame : PFrame} {cur_affinity : ℕ} {cache : FrameCacheSmall}
    (haff : frame.1.affinity = cur_affinity)
    (hcache : MCache.new_with_frame cur_affinity
      (frame.split_at_nearest_large_page_boundary.2.split_at EMEM_SIZE rfl).1 = .ok cache) :
    cache.node = cur_affinity ∧ Frame.Carved [frame.1] (cache.pages ++
      [(frame.split_at_nearest_large_page_boundary.2.split_at EMEM_SIZE rfl).2.1,
        frame.split_at_nearest_large_page_boundary.1.1]) := by
  set high := frame.split_at_nearest_large_page_boundary.2
  have hnear := PFrame.carved_split_at_nearest_large_page_boundary frame
  have hsplit := PFrame.carved_split_at high EMEM_SIZE rfl
  -- the three parts of the frame: the cache's memory, the leftover and the low part
  have hparts : Frame.Carved [frame.1] [(high.split_at EMEM_SIZE rfl).1.1,
      (high.split_at EMEM_SIZE rfl).2.1, frame.split_at_nearest_large_page_boundary.1.1] :=
    (hnear.perm (List.Perm.swap _ _ [])).refine hsplit
  -- the cache's memory is a piece of the frame, so when it is not empty it is on the node
  have hnode : 0 < (high.split_at EMEM_SIZE rfl).1.1.size →
      (high.split_at EMEM_SIZE rfl).1.1.affinity = cur_affinity := by
    intro hpos
    obtain ⟨p, hp, htag, -⟩ := (hparts.within _ List.mem_cons_self).of_nonempty
      (Frame.range_nonempty hpos)
    rw [List.mem_singleton.mp hp] at htag
    exact htag.trans haff
  obtain ⟨hc, hpages⟩ := MCache.new_with_frame_carved hcache hnode
  exact ⟨hc, hparts.refine hpages⟩

/-- The first loop only cuts frames: what it leaves is a carving of what it started from, and
the early caches stand in the order of their nodes. -/
theorem emem_frames_spec : ∀ (memory : List PFrame) (cur_affinity : ℕ)
    (leftovers : ArrayVec PFrame MAX_PHYSICAL_REGIONS) (emem : ArrayVec FrameCacheSmall MAX_NUMA_NODES)
    {memory' : List PFrame} {leftovers' : ArrayVec PFrame MAX_PHYSICAL_REGIONS}
    {emem' : ArrayVec FrameCacheSmall MAX_NUMA_NODES},
    emem_frames cur_affinity leftovers emem memory = .ok (memory', leftovers', emem') →
    Carve.Apart Frame.range (emem_pool memory leftovers emem) →
    emem.toList.map (·.node) = List.range cur_affinity →
    Frame.Carved (emem_pool memory leftovers emem) (emem_pool memory' leftovers' emem') ∧
      emem'.toList.map (·.node) = List.range emem'.toList.length
  | [], cur_affinity, leftovers, emem, memory', leftovers', emem', h, hapart, hnodes => by
    simp only [emem_frames, Outcome.ok.injEq, Prod.mk.injEq] at h
    obtain ⟨rfl, rfl, rfl⟩ := h
    refine ⟨Carve.Carved.refl hapart, ?_⟩
    have hlen : emem.toList.length = cur_affinity := by simpa using congrArg List.length hnodes
    rw [hlen]
    exact hnodes
  | frame :: memory, cur_affinity, leftovers, emem, memory', leftovers', emem', h, hapart,
      hnodes => by
    have hrest : Carve.Apart Frame.range (emem_pool memory leftovers emem) :=
      (List.pairwise_cons.mp hapart).2
    rw [emem_frames] at h
    split_ifs at h with hused
    · -- the frame gives the node its early cache
      obtain ⟨leftovers₁, hleft, h⟩ := Outcome.bind_eq_ok.mp h
      obtain ⟨cache, hcache, h⟩ := Outcome.bind_eq_ok.mp h
      obtain ⟨emem₁, hemem, h⟩ := Outcome.bind_eq_ok.mp h
      obtain ⟨⟨memory₁, leftovers₂, emem₂⟩, hrec, h⟩ := Outcome.bind_eq_ok.mp h
      simp only [Outcome.pure_eq, Outcome.ok.injEq, Prod.mk.injEq] at h
      obtain ⟨rfl, rfl, rfl⟩ := h
      obtain ⟨hnode, hpieces⟩ := carved_emem_frame hused.1 hcache
      -- the leftover goes to `leftovers` unless it is empty
      obtain ⟨LF, hLF, hleft₁⟩ : ∃ LF : List Frame, LF.Sublist
          [(frame.split_at_nearest_large_page_boundary.2.split_at EMEM_SIZE rfl).2.1] ∧
          leftovers₁.toList.map (·.1) = leftovers.toList.map (·.1) ++ LF := by
        split_ifs at hleft
        · exact ⟨_, List.Sublist.refl _, by rw [ArrayVec.toList_of_push hleft, List.map_append]; rfl⟩
        · exact ⟨[], List.nil_sublist _, by rw [← Outcome.ok.inj hleft, List.append_nil]⟩
      have hstep : Frame.Carved (emem_pool (frame :: memory) leftovers emem)
          (frame.split_at_nearest_large_page_boundary.1.1 :: emem_pool memory leftovers₁ emem₁) := by
        have hcut := (Carve.Carved.refl hapart).refine
          (hpieces.sublist ((List.Sublist.append_right hLF _).append_left cache.pages))
        refine hcut.perm ?_
        rw [List.perm_iff_count]
        intro a
        simp only [emem_pool, hleft₁, ArrayVec.toList_of_push hemem, List.flatMap_append,
          List.flatMap_singleton, List.append_eq, List.count_append, List.count_cons,
          List.count_nil]
        omega
      have hnodes₁ : emem₁.toList.map (·.node) = List.range (cur_affinity + 1) := by
        rw [ArrayVec.toList_of_push hemem, List.map_append, hnodes, List.range_succ,
          List.map_singleton, hnode]
      obtain ⟨hcarved, hnodes₂⟩ := emem_frames_spec memory (cur_affinity + 1) leftovers₁ emem₁
        hrec (List.pairwise_cons.mp hstep.apart).2 hnodes₁
      refine ⟨hstep.trans (hcarved.cons (List.pairwise_cons.mp hstep.apart).1), hnodes₂⟩
    · -- the frame stays as it is
      obtain ⟨⟨memory₁, leftovers₁, emem₁⟩, hrec, h⟩ := Outcome.bind_eq_ok.mp h
      simp only [Outcome.pure_eq, Outcome.ok.injEq, Prod.mk.injEq] at h
      obtain ⟨rfl, rfl, rfl⟩ := h
      obtain ⟨hcarved, hnodes₁⟩ := emem_frames_spec memory cur_affinity leftovers emem hrec hrest hnodes
      exact ⟨hcarved.cons (List.pairwise_cons.mp hapart).1, hnodes₁⟩

/-! ## The node caches' own pages -/

/-- The second loop moves one large page of each node's early cache under the node's cache, and
the early caches keep their nodes. -/
theorem node_caches_new_spec : ∀ (affinities : List ℕ) (emem : ArrayVec FrameCacheSmall MAX_NUMA_NODES)
    (node_caches : ArrayVec (ℕ × FrameCacheLarge) MAX_NUMA_NODES)
    {emem' : ArrayVec FrameCacheSmall MAX_NUMA_NODES}
    {node_caches' : ArrayVec (ℕ × FrameCacheLarge) MAX_NUMA_NODES},
    node_caches_new affinities emem node_caches = .ok (.ok (emem', node_caches')) →
    (∀ i c, emem.get i = some c → c.node = i) →
    (emem.toList.flatMap MCache.pages ++ node_caches.toList.map ncache_frame).Perm
        (emem'.toList.flatMap MCache.pages ++ node_caches'.toList.map ncache_frame) ∧
      (∀ i c, emem'.get i = some c → c.node = i) ∧
      node_caches'.toList.map (·.2) = node_caches.toList.map (·.2) ++ affinities.map MCache.init
  | [], emem, node_caches, emem', node_caches', h, hnodes => by
    simp only [node_caches_new, Outcome.ok.injEq, Except.ok.injEq, Prod.mk.injEq] at h
    obtain ⟨rfl, rfl⟩ := h
    exact ⟨List.Perm.refl _, hnodes, by simp⟩
  | affinity :: affinities, emem, node_caches, emem', node_caches', h, hnodes => by
    rw [node_caches_new] at h
    split at h
    · cases h
    rename_i ecache hget
    obtain ⟨⟨ecache', r⟩, halloc, h⟩ := Outcome.bind_eq_ok.mp h
    rcases r with e | frame
    · cases h
    simp only at h
    split_ifs at h with hzero
    obtain ⟨node_caches₁, hpush, h⟩ := Outcome.bind_eq_ok.mp h
    obtain ⟨hnode', hframe, hpages⟩ := MCache.allocate_large_page_pages halloc
    have hnode : ecache.node = affinity := hnodes affinity ecache hget
    -- the early caches after the page is taken keep their nodes
    have hnodes₁ : ∀ i c, (emem.set affinity ecache').get i = some c → c.node = i := by
      intro i c hc
      simp only [ArrayVec.get, ArrayVec.toList_set, List.getElem?_set] at hc
      split_ifs at hc with hi
      · cases hc
        rw [hnode', hnode, hi]
      · exact hnodes i c hc
    obtain ⟨hperm, hnodes₂, hcaches⟩ := node_caches_new_spec affinities _ _ h hnodes₁
    refine ⟨List.Perm.trans ?_ hperm, hnodes₂, ?_⟩
    · -- the page leaves the early cache and comes back as the node cache's own page
      have hset := ArrayVec.flatMap_set_perm ecache' MCache.pages hget
      rw [List.perm_iff_count] at hset hpages ⊢
      intro a
      have h₁ := hset a
      have h₂ := hpages a
      simp only [ArrayVec.toList_of_push hpush, List.map_append, List.map_singleton,
        List.count_append, List.count_cons, List.count_nil] at h₁ h₂ ⊢
      have hown : ncache_frame (frame.base, MCache.init affinity) = frame := by
        rw [hframe, hnode]
        rfl
      rw [hown]
      omega
    · rw [hcaches, ArrayVec.toList_of_push hpush]
      simp

/-! ## The node caches -/

theorem populate_frames_node (k : ℕ) : ∀ (ncache : FrameCacheLarge) (frames : List PFrame),
    (populate_frames k ncache frames).node = ncache.node
  | _, [] => rfl
  | ncache, frame :: frames => by
    rw [populate_frames, populate_frames_node k _ frames]
    split_ifs <;> rfl

theorem populate_frames_carved (k : ℕ) : ∀ (ncache : FrameCacheLarge) (frames : List PFrame),
    ncache.node = k → Carve.Apart Frame.range (frames.map (·.1)) →
    ∃ P, (populate_frames k ncache frames).pages.Perm (P ++ ncache.pages) ∧
      Frame.Carved ((frames.filter fun f => f.1.affinity = k).map (·.1)) P
  | ncache, [], _, _ => ⟨[], List.Perm.refl _, Carve.Carved.nil⟩
  | ncache, frame :: frames, hnode, hapart => by
    have hhead := (List.pairwise_cons.mp hapart).1
    have hrest := (List.pairwise_cons.mp hapart).2
    rw [populate_frames]
    split_ifs with hk
    · -- the frame goes in, and the rest of the frames after it
      obtain ⟨hnode₁, P₁, hperm₁, hP₁⟩ :=
        MCache.populate_carved ncache frame (frame.1.size / LARGE_PAGE_SIZE * 87 / 100)
          fun _ => hk.trans hnode.symm
      obtain ⟨P₂, hperm₂, hP₂⟩ := populate_frames_carved k _ frames (hnode₁.trans hnode) hrest
      refine ⟨P₁ ++ P₂, ?_, ?_⟩
      · refine hperm₂.trans ?_
        rw [List.perm_iff_count] at hperm₁ ⊢
        intro a
        have h₁ := hperm₁ a
        simp only [List.count_append] at h₁ ⊢
        omega
      · rw [List.filter_cons_of_pos (by simpa using hk), List.map_cons]
        refine hP₁.append hP₂ fun p₁ hp₁ p₂ hp₂ => ?_
        rw [List.mem_singleton.mp hp₁]
        exact hhead p₂ (List.map_subset _ (List.filter_subset_self _) hp₂)
    · obtain ⟨P, hperm, hP⟩ := populate_frames_carved k ncache frames hnode hrest
      refine ⟨P, hperm, ?_⟩
      rw [List.filter_cons_of_neg (by simpa using hk)]
      exact hP

/-- Node caches on distinct nodes, empty to start with, take carvings of disjoint sets of
frames: together, a carving of the frames of their nodes. -/
theorem populated_carved (frames : List PFrame) (hapart : Carve.Apart Frame.range (frames.map (·.1))) :
    ∀ ncs : List (ℕ × FrameCacheLarge), (ncs.map (·.2.node)).Nodup →
      (∀ nc ∈ ncs, nc.2.pages = []) →
      Frame.Carved ((frames.filter fun f => f.1.affinity ∈ ncs.map (·.2.node)).map (·.1))
        ((ncs.map fun nc => (nc.1, populate_frames nc.2.node nc.2 frames)).flatMap (·.2.pages))
  | [], _, _ => Carve.Carved.nil
  | nc :: ncs, hnodup, hempty => by
    obtain ⟨P, hperm, hP⟩ := populate_frames_carved nc.2.node nc.2 frames rfl hapart
    rw [hempty nc List.mem_cons_self, List.append_nil] at hperm
    have hfresh : nc.2.node ∉ ncs.map (·.2.node) := (List.nodup_cons.mp hnodup).1
    have hrest := populated_carved frames hapart ncs (List.nodup_cons.mp hnodup).2
      fun nc' h => hempty nc' (List.mem_cons_of_mem _ h)
    -- frames of different nodes are different frames, so they do not meet
    have hcross : ∀ p₁ ∈ (frames.filter fun f => f.1.affinity = nc.2.node).map (·.1),
        ∀ p₂ ∈ (frames.filter fun f => f.1.affinity ∈ ncs.map (·.2.node)).map (·.1),
          Disjoint p₁.range p₂.range := by
      intro p₁ hp₁ p₂ hp₂
      obtain ⟨f₁, hf₁, rfl⟩ := List.mem_map.mp hp₁
      obtain ⟨f₂, hf₂, rfl⟩ := List.mem_map.mp hp₂
      have ha₁ : f₁.1.affinity = nc.2.node := by simpa using (List.mem_filter.mp hf₁).2
      have ha₂ : f₂.1.affinity ∈ ncs.map (·.2.node) := by simpa using (List.mem_filter.mp hf₂).2
      refine hapart.disjoint (List.mem_map_of_mem (List.mem_of_mem_filter hf₁))
        (List.mem_map_of_mem (List.mem_of_mem_filter hf₂)) fun heq => hfresh ?_
      rw [← ha₁, heq]
      exact ha₂
    refine ((hP.perm hperm.symm).append hrest hcross).mono fun p hp => ?_
    simp only [List.mem_append, List.mem_map, List.mem_filter, List.map_cons, List.mem_cons,
      decide_eq_true_eq] at hp ⊢
    rcases hp with ⟨f, ⟨hf, ha⟩, rfl⟩ | ⟨f, ⟨hf, ha⟩, rfl⟩
    · exact ⟨f, ⟨hf, Or.inl ha⟩, rfl⟩
    · exact ⟨f, ⟨hf, Or.inr ha⟩, rfl⟩

/-- The last loop runs over the node caches by position; at the position of its node, a cache
takes the frames of its node. -/
theorem mapIdx_populate_frames (frames : List PFrame) (ncs : List (ℕ × FrameCacheLarge))
    (hnodes : ncs.map (·.2.node) = List.range ncs.length) :
    (ncs.mapIdx fun ncache_affinity nc => (nc.1, populate_frames ncache_affinity nc.2 frames)) =
      ncs.map fun nc => (nc.1, populate_frames nc.2.node nc.2 frames) := by
  refine List.ext_getElem (by simp) fun i h₁ h₂ => ?_
  have hlt : i < ncs.length := by simpa using h₁
  have hi : ncs[i].2.node = i := by
    have := congrArg (·[i]?) hnodes
    simp only [List.getElem?_map, List.getElem?_range hlt] at this
    rw [List.getElem?_eq_getElem hlt] at this
    simpa using this
  simp only [List.getElem_mapIdx, List.getElem_map, hi]

/-- The last loop: node caches at the positions of their nodes, empty to start with, take a
carving of the frames, and keep their own pages and their nodes. -/
theorem populate_node_caches_spec (frames : List PFrame)
    (hapart : Carve.Apart Frame.range (frames.map (·.1)))
    (node_caches : ArrayVec (ℕ × FrameCacheLarge) MAX_NUMA_NODES)
    (hnodes : node_caches.toList.map (·.2.node) = List.range node_caches.toList.length)
    (hempty : ∀ nc ∈ node_caches.toList, nc.2.pages = []) :
    Frame.Carved (frames.map (·.1)) ((node_caches.mapIdx fun ncache_affinity nc =>
        (nc.1, populate_frames ncache_affinity nc.2 frames)).toList.flatMap (·.2.pages)) ∧
      (node_caches.mapIdx fun ncache_affinity nc =>
        (nc.1, populate_frames ncache_affinity nc.2 frames)).toList.map ncache_frame =
        node_caches.toList.map ncache_frame ∧
      (node_caches.mapIdx fun ncache_affinity nc =>
        (nc.1, populate_frames ncache_affinity nc.2 frames)).toList.map (·.2.node) =
        node_caches.toList.map (·.2.node) := by
  rw [ArrayVec.toList_mapIdx, mapIdx_populate_frames frames _ hnodes]
  have hnodup : (node_caches.toList.map (·.2.node)).Nodup := by
    rw [hnodes]
    exact List.nodup_range
  refine ⟨(populated_carved frames hapart _ hnodup hempty).mono fun p hp => ?_, ?_, ?_⟩
  · obtain ⟨f, hf, rfl⟩ := List.mem_map.mp hp
    exact List.mem_map_of_mem (List.mem_of_mem_filter hf)
  · simp [Function.comp_def, ncache_frame, populate_frames_node]
  · simp [Function.comp_def, populate_frames_node]

/-! ## The boot-time memory -/

theorem mem_flatMap_pages {BP LP : ℕ} {caches : List (MCache BP LP)} {p : Frame}
    (hp : p ∈ caches.flatMap MCache.pages) : 0 < p.size ∧ p.base % p.size = 0 := by
  obtain ⟨c, -, hc⟩ := List.mem_flatMap.mp hp
  obtain ⟨hsize, haligned, -⟩ := MCache.mem_pages hc
  refine ⟨?_, haligned⟩
  rcases hsize with h | h <;> rw [h] <;> decide

/-- What `new` promises of the memory it hands out. -/
structure Partitioned (memory : List Frame) (gm : GlobalMemory) : Prop where
  /-- Each cached page, and each node cache's own page, lies in an input frame of its node. -/
  within : ∀ p ∈ gm.cached_pages ++ gm.ncache_frames,
    ∃ f ∈ memory, p.affinity = f.affinity ∧ p.range ⊆ f.range
  /-- No two of these pages overlap. -/
  apart : (gm.cached_pages ++ gm.ncache_frames).Pairwise fun p q => Disjoint p.range q.range
  /-- A page's address is aligned to its size: 4 KiB for a base page, 2 MiB for a large one. -/
  aligned : ∀ p ∈ gm.cached_pages ++ gm.ncache_frames, p.base % p.size = 0
  emem_node : ∀ i c, gm.emem.get i = some c → c.node = i
  node_caches_node : ∀ i nc, gm.node_caches.get i = some nc → nc.2.node = i

theorem new_partitions_memory {memory : ArrayVec PFrame MAX_PHYSICAL_REGIONS}
    (hdisjoint : (memory.toList.map (·.1)).Pairwise fun f g => Disjoint f.range g.range)
    {gm : GlobalMemory} (h : new memory = .ok (.ok gm)) :
    Partitioned (memory.toList.map (·.1)) gm := by
  rw [new] at h
  split_ifs at h with hsorted
  split at h
  · cases h
  rename_i max_affinity hmax
  obtain ⟨⟨memory₁, leftovers, emem⟩, hfirst, h⟩ := Outcome.bind_eq_ok.mp h
  dsimp only at h
  split_ifs at h with hlen
  obtain ⟨r, hsecond, h⟩ := Outcome.bind_eq_ok.mp h
  rcases r with e | ⟨emem₂, node_caches⟩
  · cases h
  simp only [Outcome.pure_eq, Outcome.ok.injEq, Except.ok.injEq] at h
  subst h
  set ncs := node_caches.mapIdx fun ncache_affinity nc =>
    (nc.1, populate_frames ncache_affinity nc.2 (memory₁ ++ leftovers.toList)) with hncs
  -- the first loop cuts the input frames
  obtain ⟨hcarved₁, hnodes₁⟩ := emem_frames_spec memory.toList 0 ArrayVec.new ArrayVec.new hfirst
    (by simpa [emem_pool, Carve.Apart] using hdisjoint) rfl
  -- the second moves a page of each early cache under the node's cache
  obtain ⟨hperm, hnodes₂, hcaches⟩ := node_caches_new_spec _ emem ArrayVec.new hsecond
    fun i c hc => ArrayVec.get_of_map_eq_range hnodes₁ hc
  rw [ArrayVec.toList_new, List.map_nil, List.append_nil] at hperm
  rw [ArrayVec.toList_new, List.map_nil, List.nil_append] at hcaches
  have hnc_nodes : node_caches.toList.map (·.2.node) = List.range node_caches.toList.length := by
    have hmap := congrArg (List.map MCache.node) hcaches
    have hlength := congrArg List.length hcaches
    simp only [List.map_map, List.length_map, List.length_range] at hmap hlength
    rw [hlength]
    simpa [Function.comp_def, MCache.init] using hmap
  have hnc_empty : ∀ nc ∈ node_caches.toList, nc.2.pages = [] := by
    intro nc hnc
    have hmem : nc.2 ∈ (List.range (max_affinity + 1)).map MCache.init := by
      rw [← hcaches]
      exact List.mem_map_of_mem hnc
    obtain ⟨a, -, ha⟩ := List.mem_map.mp hmem
    rw [← ha]
    rfl
  -- the third pours the frames the first loop left, and the leftovers, into the node caches
  have hpool : emem_pool memory₁ leftovers emem =
      (memory₁ ++ leftovers.toList).map (·.1) ++ emem.toList.flatMap MCache.pages := by
    simp [emem_pool]
  have hsplit := List.pairwise_append.mp (hpool ▸ hcarved₁.apart)
  obtain ⟨hcarved₃, hframes₃, hnodes₃⟩ : Frame.Carved ((memory₁ ++ leftovers.toList).map (·.1))
      (ncs.toList.flatMap (·.2.pages)) ∧ ncs.toList.map ncache_frame =
        node_caches.toList.map ncache_frame ∧
      ncs.toList.map (·.2.node) = node_caches.toList.map (·.2.node) :=
    populate_node_caches_spec _ hsplit.1 node_caches hnc_nodes hnc_empty
  -- the pages of the three loops together
  have hcarved : Frame.Carved (memory.toList.map (·.1))
      (cached_pages ⟨emem₂, ncs⟩ ++ ncache_frames ⟨emem₂, ncs⟩) := by
    have hlast : Frame.Carved (emem_pool memory₁ leftovers emem)
        (ncs.toList.flatMap (·.2.pages) ++ emem.toList.flatMap MCache.pages) := by
      rw [hpool]
      exact hcarved₃.append (Carve.Carved.refl hsplit.2.1) hsplit.2.2
    have hfirst' : Frame.Carved (memory.toList.map (·.1)) (emem_pool memory₁ leftovers emem) := by
      simpa [emem_pool] using hcarved₁
    refine (hfirst'.trans hlast).perm ?_
    rw [List.perm_iff_count] at hperm ⊢
    intro a
    have hcount := hperm a
    simp only [cached_pages, ncache_frames, hframes₃, List.count_append] at hcount ⊢
    omega
  -- every page is a nonempty page at an address aligned to its size
  have hpages : ∀ p ∈ cached_pages ⟨emem₂, ncs⟩ ++ ncache_frames ⟨emem₂, ncs⟩,
      0 < p.size ∧ p.base % p.size = 0 := by
    intro p hp
    simp only [cached_pages, ncache_frames, hframes₃, List.mem_append] at hp
    rcases hp with (hp | hp) | hp
    · exact mem_flatMap_pages hp
    · obtain ⟨nc, hnc, hp⟩ := List.mem_flatMap.mp hp
      obtain ⟨hsize, haligned, -⟩ := MCache.mem_pages hp
      refine ⟨?_, haligned⟩
      rcases hsize with h | h <;> rw [h] <;> decide
    · -- a node cache's own page was a page of an early cache
      exact mem_flatMap_pages (hperm.symm.subset (List.mem_append_right _ hp))
  refine ⟨fun p hp => (hcarved.within p hp).of_nonempty (Frame.range_nonempty (hpages p hp).1),
    hcarved.apart, fun p hp => (hpages p hp).2, hnodes₂, fun i nc hnc => ?_⟩
  refine ArrayVec.get_of_map_eq_range (f := fun nc => nc.2.node) ?_ hnc
  rw [hnodes₃, hnc_nodes, ArrayVec.toList_mapIdx, List.length_mapIdx]

/-- A frame of node 0 from the first large-page boundary on, one base page larger than an early
cache. -/
def one_frame : ArrayVec PFrame MAX_PHYSICAL_REGIONS :=
  ⟨[⟨⟨LARGE_PAGE_SIZE, EMEM_SIZE + BASE_PAGE_SIZE, 0⟩, rfl, rfl⟩], by decide⟩

theorem new_partitions_one_frame :
    ∃ gm, new one_frame = .ok (.ok gm) ∧ Partitioned (one_frame.toList.map (·.1)) gm :=
  ⟨_, rfl, new_partitions_memory (List.pairwise_singleton _ _) rfl⟩

end GlobalMemory

end Nrk.Memory
