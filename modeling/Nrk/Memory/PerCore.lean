import Nrk.Memory.Detmem
import Nrk.Lib.Simulation
import Nrk.Lib.Slots

/-! # Per-core memory arenas (`kernel/src/memory/per_core.rs`)

The arenas of a core, whatever they hold (a type `σ`), and `set_mem_affinity` moving them. -/

namespace Nrk.Memory

/-- `PerCoreAllocatorState`: the arena of one NUMA node. -/
structure PerCoreAllocatorState (σ : Type) where
  affinity : ℕ
  /-- The `pmanager` and the `zone_allocator`. -/
  managers : σ

/-- `PerCoreMemory`, with the fields that the affinity calls read and write. -/
structure PerCoreMemory (σ : Type) where
  physical_memory : PerCoreAllocatorState σ
  persistent_memory : PerCoreAllocatorState σ
  memory_arenas : List (Option (PerCoreAllocatorState σ))
  pmem_arenas : List (Option (PerCoreAllocatorState σ))

variable {σ : Type} (fresh : ℕ → σ)

/-- `PerCoreAllocatorState::new(node)`. -/
def PerCoreAllocatorState.new (node : ℕ) : PerCoreAllocatorState σ := ⟨node, fresh node⟩

/-- `PerCoreMemory::new(emanager, node)`: both arenas serve `node`, no other arena exists. -/
def PerCoreMemory.new (node : ℕ) : PerCoreMemory σ where
  physical_memory := .new fresh node
  persistent_memory := .new fresh node
  memory_arenas := List.replicate MAX_NUMA_NODES none
  pmem_arenas := List.replicate MAX_NUMA_NODES none

/-- `if arenas[node].is_none() { arenas[node] = Some(PerCoreAllocatorState::new(node)) }`. -/
def fill_arena (arenas : List (Option (PerCoreAllocatorState σ))) (node : ℕ) :
    List (Option (PerCoreAllocatorState σ)) :=
  if (arenas[node]?.join).isNone then arenas.set node (some (.new fresh node)) else arenas

/-- `PerCoreMemory::swap_manager`: the current arena and the stored ones after moving to the
arena of `node`, and the call's result. The `unwrap`, the `debug_assert!`s and the index
`arenas[arena.affinity]` panic where they fail. -/
def swap_manager (num_nodes : ℕ) (current_arena : PerCoreAllocatorState σ)
    (arenas : List (Option (PerCoreAllocatorState σ))) (node : ℕ) :
    Outcome (PerCoreAllocatorState σ × List (Option (PerCoreAllocatorState σ)) ×
      Except KError Unit) :=
  if node < arenas.length ∧ node < num_nodes then
    let arenas := fill_arena fresh arenas node
    match arenas[node]?.join with
    | none => .panic
    | some arena =>
        if arena.affinity ≠ node then .panic
        else
          let arenas := arenas.set node none
          -- the old current arena goes back with `Option::replace`, dropping what was there
          if current_arena.affinity < arenas.length then
            .ok (arena, arenas.set current_arena.affinity (some current_arena), .ok ())
          else .panic
  else .ok (current_arena, arenas, .error .InvalidAffinityId)

/-- The body that `set_mem_affinity` and `set_pmem_affinity` share, on one current arena and
its stored arenas: nothing to do when `node` is already the current affinity. -/
def set_affinity (num_nodes : ℕ) (current_arena : PerCoreAllocatorState σ)
    (arenas : List (Option (PerCoreAllocatorState σ))) (node : ℕ) :
    Outcome (PerCoreAllocatorState σ × List (Option (PerCoreAllocatorState σ)) ×
      Except KError Unit) :=
  if node = current_arena.affinity then .ok (current_arena, arenas, .ok ())
  else swap_manager fresh num_nodes current_arena arenas node

namespace PerCoreMemory

/-- `PerCoreMemory::set_mem_affinity`. -/
def set_mem_affinity (num_nodes node : ℕ) (m : PerCoreMemory σ) :
    Outcome (PerCoreMemory σ × Except KError Unit) := do
  let (c, arenas, r) ← set_affinity fresh num_nodes m.physical_memory m.memory_arenas node
  return ({ m with physical_memory := c, memory_arenas := arenas }, r)

/-- `PerCoreMemory::set_pmem_affinity`. -/
def set_pmem_affinity (num_nodes node : ℕ) (m : PerCoreMemory σ) :
    Outcome (PerCoreMemory σ × Except KError Unit) := do
  let (c, arenas, r) ← set_affinity fresh num_nodes m.persistent_memory m.pmem_arenas node
  return ({ m with persistent_memory := c, pmem_arenas := arenas }, r)

end PerCoreMemory

/-- The calls that switch a core's arenas. -/
inductive AffinityCall where
  | set_mem_affinity (node : ℕ)
  | set_pmem_affinity (node : ℕ)
  deriving DecidableEq, Repr

/-- The node a call asks for. -/
def AffinityCall.node : AffinityCall → ℕ
  | .set_mem_affinity node => node
  | .set_pmem_affinity node => node

/-- The current arena that a call switches. -/
def AffinityCall.current : AffinityCall → PerCoreMemory σ → PerCoreAllocatorState σ
  | .set_mem_affinity _, m => m.physical_memory
  | .set_pmem_affinity _, m => m.persistent_memory

/-- One call on a core's memory state. -/
def PerCoreMemory.step (num_nodes : ℕ) (m : PerCoreMemory σ) :
    AffinityCall → Outcome (PerCoreMemory σ × Except KError Unit)
  | .set_mem_affinity node => m.set_mem_affinity fresh num_nodes node
  | .set_pmem_affinity node => m.set_pmem_affinity fresh num_nodes node

/-! ## The arenas in place -/

/-- The arenas a current arena and its table hold. -/
def held (current : PerCoreAllocatorState σ) (arenas : List (Option (PerCoreAllocatorState σ))) :
    List (PerCoreAllocatorState σ) :=
  current :: arenas.reduceOption

/-- The arenas of one kind are in place: every stored arena sits at the index of its affinity,
and the current arena's affinity is an index of the table whose slot is empty. -/
structure Placed (current : PerCoreAllocatorState σ)
    (arenas : List (Option (PerCoreAllocatorState σ))) : Prop where
  stored_at : ∀ i (a : PerCoreAllocatorState σ), arenas[i]? = some (some a) → a.affinity = i
  current_empty : arenas[current.affinity]? = some none

/-- Both kinds of arenas of a core are in place. -/
structure PerCoreMemory.Inv (m : PerCoreMemory σ) : Prop where
  memory : Placed m.physical_memory m.memory_arenas
  pmem : Placed m.persistent_memory m.pmem_arenas

/-- The arenas held after a call are those held before, with at most a new arena of `node`. -/
def Kept (node : ℕ) (before after : List (PerCoreAllocatorState σ)) : Prop :=
  after.Perm before ∨ after.Perm (before ++ [.new fresh node])

/-- What one call does: `Ok` leaves the asked node current, an error changes nothing, and each
kind of arenas holds what it held, with at most a new arena of the asked node. -/
def AffinityCall.Effect (call : AffinityCall) (m m' : PerCoreMemory σ)
    (r : Except KError Unit) : Prop :=
  (r = .ok () → (call.current m').affinity = call.node) ∧ (∀ e, r = .error e → m' = m) ∧
  Kept fresh call.node (held m.physical_memory m.memory_arenas)
    (held m'.physical_memory m'.memory_arenas) ∧
  Kept fresh call.node (held m.persistent_memory m.pmem_arenas)
    (held m'.persistent_memory m'.pmem_arenas)

section Placed

variable {fresh} {current arena : PerCoreAllocatorState σ}
  {arenas arenas' : List (Option (PerCoreAllocatorState σ))} {node num_nodes : ℕ}

theorem Placed.current_lt (hp : Placed current arenas) : current.affinity < arenas.length :=
  (List.getElem?_eq_some_iff.mp hp.current_empty).1

theorem Placed.nodup (hp : Placed current arenas) :
    ((held current arenas).map (·.affinity)).Nodup := by
  simp only [held, List.map_cons, List.nodup_cons, List.mem_map]
  refine ⟨fun ⟨a, ha, haff⟩ => ?_, Slots.nodup_map_reduceOption hp.stored_at⟩
  -- a stored arena with the current affinity would sit in the current arena's empty slot
  have hslot := Slots.getElem?_of_mem_reduceOption hp.stored_at ha
  rw [haff, hp.current_empty] at hslot
  cases hslot

theorem placed_new (hnode : node < MAX_NUMA_NODES) :
    Placed (.new fresh node) (List.replicate MAX_NUMA_NODES none) where
  stored_at i a h := by simp [List.getElem?_replicate] at h
  current_empty := by simp [PerCoreAllocatorState.new, hnode]

variable (fresh) in
/-- Filling the slot of `node`: the arenas stay in place, the slot holds an arena, and the
arenas held are those held before, with a new arena of `node` if the slot was empty. -/
theorem Placed.fill (hp : Placed current arenas) (hne : node ≠ current.affinity)
    (hlen : node < arenas.length) :
    ∃ arena, (fill_arena fresh arenas node)[node]? = some (some arena) ∧
      Placed current (fill_arena fresh arenas node) ∧
      ((held current (fill_arena fresh arenas node)).Perm (held current arenas) ∨
        (held current (fill_arena fresh arenas node)).Perm
          (held current arenas ++ [.new fresh node])) := by
  rcases hslot : arenas[node]? with _ | _ | b
  · simp [List.getElem?_eq_getElem hlen] at hslot
  case some.none =>
    -- an empty slot gets `PerCoreAllocatorState::new(node)`
    have hfill : fill_arena fresh arenas node = arenas.set node (some (.new fresh node)) := by
      simp [fill_arena, hslot]
    refine ⟨.new fresh node, by simp [hfill, hlen], ⟨fun i a hi => ?_, ?_⟩, .inr ?_⟩
    · rw [hfill, List.getElem?_set] at hi
      split_ifs at hi with hin
      · obtain rfl : PerCoreAllocatorState.new fresh node = a := by simpa using hi
        exact hin
      · exact hp.stored_at i a hi
    · rw [hfill, List.getElem?_set_ne hne]
      exact hp.current_empty
    · rw [hfill, held, held]
      exact ((Slots.reduceOption_perm_put hslot).trans
        (List.perm_append_singleton _ _).symm).cons current
  case some.some =>
    have hfill : fill_arena fresh arenas node = arenas := by simp [fill_arena, hslot]
    rw [hfill]
    exact ⟨b, hslot, hp, .inl (.refl _)⟩

/-- Taking the arena of `node` out of its slot and putting the current arena back into its own
keeps the arenas in place, and the same arenas are held. -/
theorem Placed.swap (hp : Placed current arenas) (hslot : arenas[node]? = some (some arena))
    (hne : node ≠ current.affinity) :
    Placed arena ((arenas.set node none).set current.affinity (some current)) ∧
      (held arena ((arenas.set node none).set current.affinity (some current))).Perm
        (held current arenas) := by
  have haff : arena.affinity = node := hp.stored_at node arena hslot
  have hempty : (arenas.set node none)[current.affinity]? = some none := by
    rw [List.getElem?_set_ne hne]
    exact hp.current_empty
  refine ⟨⟨fun i a hi => ?_, ?_⟩, ?_⟩
  · rw [List.getElem?_set] at hi
    split_ifs at hi with hic
    · obtain rfl : current = a := by simpa using hi
      exact hic
    · rw [List.getElem?_set] at hi
      split_ifs at hi with hin
      · simp at hi
      · exact hp.stored_at i a hi
  · rw [haff, List.getElem?_set_ne hne.symm, List.getElem?_set_self (List.getElem?_eq_some_iff.mp hslot).1]
  · -- `arena` leaves its slot and `current` enters the empty one
    calc List.Perm (held arena ((arenas.set node none).set current.affinity (some current)))
          (arena :: current :: (arenas.set node none).reduceOption) :=
          (Slots.reduceOption_perm_put hempty).cons arena
      List.Perm _ (current :: arena :: (arenas.set node none).reduceOption) := .swap _ _ _
      List.Perm _ (held current arenas) := ((Slots.reduceOption_perm_take hslot).cons current).symm

variable (fresh) in
/-- `swap_manager` on a node of the table and of the machine, other than the current one:
the arena of `node` becomes the current one, the arenas stay in place, and the arenas held are
those held before, with a new arena of `node` if its slot was empty. -/
theorem swap_manager_of_valid (hp : Placed current arenas) (hne : node ≠ current.affinity)
    (hlen : node < arenas.length) (hnum : node < num_nodes) :
    ∃ arena arenas', swap_manager fresh num_nodes current arenas node =
        .ok (arena, arenas', .ok ()) ∧ arena.affinity = node ∧ Placed arena arenas' ∧
      ((held arena arenas').Perm (held current arenas) ∨
        (held arena arenas').Perm (held current arenas ++ [.new fresh node])) := by
  obtain ⟨arena, hslot, hfill, hheld⟩ := hp.fill fresh hne hlen
  have haff : arena.affinity = node := hfill.stored_at node arena hslot
  obtain ⟨hplaced, hperm⟩ := hfill.swap hslot hne
  refine ⟨arena, _, ?_, haff, hplaced, hheld.imp hperm.trans hperm.trans⟩
  simp [swap_manager, hlen, hnum, hslot, haff, hfill.current_lt]

/-- `swap_manager` on a node out of the table or of the machine returns `InvalidAffinityId`
and changes nothing. -/
theorem swap_manager_of_invalid (hnode : ¬ (node < arenas.length ∧ node < num_nodes)) :
    swap_manager fresh num_nodes current arenas node =
      .ok (current, arenas, .error .InvalidAffinityId) := by
  simp [swap_manager, hnode]

variable (fresh node num_nodes) in
/-- `set_affinity` on arenas in place returns and keeps them in place, with the arenas held
kept; `Ok` leaves `node` current and an error changes nothing. -/
theorem set_affinity_of_placed (hp : Placed current arenas) :
    ∃ current' arenas' r, set_affinity fresh num_nodes current arenas node =
        .ok (current', arenas', r) ∧ Placed current' arenas' ∧
      (r = .ok () → current'.affinity = node) ∧
      (∀ e, r = .error e → current' = current ∧ arenas' = arenas) ∧
      Kept fresh node (held current arenas) (held current' arenas') := by
  by_cases hcur : node = current.affinity
  · -- already there: `Ok(())` at once
    exact ⟨current, arenas, .ok (), by simp [set_affinity, hcur], hp, fun _ => hcur.symm,
      (fun _ h => nomatch h), .inl (.refl _)⟩
  by_cases hvalid : node < arenas.length ∧ node < num_nodes
  · obtain ⟨arena, arenas', hswap, haff, hplaced, hkept⟩ :=
      swap_manager_of_valid fresh hp hcur hvalid.1 hvalid.2
    exact ⟨arena, arenas', .ok (), by simp [set_affinity, hcur, hswap], hplaced, fun _ => haff,
      (fun _ h => nomatch h), hkept⟩
  · exact ⟨current, arenas, .error .InvalidAffinityId,
      by simp [set_affinity, hcur, swap_manager_of_invalid hvalid], hp, (fun h => nomatch h),
      fun _ _ => ⟨rfl, rfl⟩, .inl (.refl _)⟩

end Placed

section Step

variable {fresh} {num_nodes : ℕ} {m : PerCoreMemory σ}

/-- One call from a state with its arenas in place returns, keeps them in place and does what
`AffinityCall.Effect` says. -/
theorem PerCoreMemory.Inv.step (hm : m.Inv) (call : AffinityCall) :
    ∃ m' r, m.step fresh num_nodes call = .ok (m', r) ∧ m'.Inv ∧ call.Effect fresh m m' r := by
  cases call with
  | set_mem_affinity node =>
      obtain ⟨c, arenas, r, hset, hplaced, hok, herr, hkept⟩ :=
        set_affinity_of_placed fresh node num_nodes hm.memory
      refine ⟨{ m with physical_memory := c, memory_arenas := arenas }, r,
        by simp [PerCoreMemory.step, PerCoreMemory.set_mem_affinity, hset], ⟨hplaced, hm.pmem⟩,
        hok, fun e he => ?_, hkept, .inl (.refl _)⟩
      obtain ⟨rfl, rfl⟩ := herr e he
      rfl
  | set_pmem_affinity node =>
      obtain ⟨c, arenas, r, hset, hplaced, hok, herr, hkept⟩ :=
        set_affinity_of_placed fresh node num_nodes hm.pmem
      refine ⟨{ m with persistent_memory := c, pmem_arenas := arenas }, r,
        by simp [PerCoreMemory.step, PerCoreMemory.set_pmem_affinity, hset], ⟨hm.memory, hplaced⟩,
        hok, fun e he => ?_, .inl (.refl _), hkept⟩
      obtain ⟨rfl, rfl⟩ := herr e he
      rfl

theorem PerCoreMemory.inv_new {node : ℕ} (hnode : node < MAX_NUMA_NODES) :
    (PerCoreMemory.new fresh node).Inv :=
  ⟨placed_new hnode, placed_new hnode⟩

theorem PerCoreMemory.inv_preserved :
    Sim.Preserves (PerCoreMemory.step fresh num_nodes) (fun _ => True) PerCoreMemory.Inv :=
  fun _ call hm _ =>
    let ⟨m', r, hstep, hm', _⟩ := hm.step call
    ⟨m', r, hstep, hm'⟩

end Step

/-- From `PerCoreMemory::new(node₀)` with `node₀ < MAX_NUMA_NODES`, whatever arenas hold and
whatever the machine's number of nodes, every run of `set_mem_affinity` and `set_pmem_affinity`
calls returns without panicking into a state where every stored arena sits at the index of its
affinity, the current arena's slot is empty and no two arenas of one kind serve the same node;
and from there every further call does what `AffinityCall.Effect` says. -/
theorem affinity_calls_keep_arenas (num_nodes node₀ : ℕ) (h₀ : node₀ < MAX_NUMA_NODES)
    (calls : List AffinityCall) :
    ∃ m outs, Sim.runImpl (PerCoreMemory.step fresh num_nodes) (PerCoreMemory.new fresh node₀)
        calls = .ok (m, outs) ∧
      m.Inv ∧ ((held m.physical_memory m.memory_arenas).map (·.affinity)).Nodup ∧
      ((held m.persistent_memory m.pmem_arenas).map (·.affinity)).Nodup ∧
      ∀ call, ∃ m' r, m.step fresh num_nodes call = .ok (m', r) ∧ call.Effect fresh m m' r := by
  obtain ⟨m, outs, hrun, hm⟩ :=
    PerCoreMemory.inv_preserved.runs calls _ (PerCoreMemory.inv_new h₀) fun _ _ => trivial
  refine ⟨m, outs, hrun, hm, hm.memory.nodup, hm.pmem.nodup, fun call => ?_⟩
  obtain ⟨m', r, hstep, -, heffect⟩ := hm.step call
  exact ⟨m', r, hstep, heffect⟩

/-- On a machine of two nodes, a core of node `0` moves its memory to node `1`, and then asks for
persistent memory on node `5`, which the machine does not have. -/
theorem affinity_calls_keep_arenas_two_nodes :
    0 < MAX_NUMA_NODES ∧
    ∃ m outs, Sim.runImpl (PerCoreMemory.step (fun _ => ()) 2) (PerCoreMemory.new (fun _ => ()) 0)
        [.set_mem_affinity 1, .set_pmem_affinity 5] = .ok (m, outs) ∧
      m.Inv ∧ ((held m.physical_memory m.memory_arenas).map (·.affinity)).Nodup ∧
      ((held m.persistent_memory m.pmem_arenas).map (·.affinity)).Nodup ∧
      ∀ call, ∃ m' r, m.step (fun _ => ()) 2 call = .ok (m', r) ∧
        call.Effect (fun _ => ()) m m' r :=
  ⟨by decide, affinity_calls_keep_arenas (fun _ => ()) 2 0 (by decide) _⟩

end Nrk.Memory
