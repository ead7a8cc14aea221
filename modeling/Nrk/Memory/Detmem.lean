import Nrk.Basic

/-! # Deterministic allocation across replicas (`memory/detmem.rs`)

`DeterministicAlloc` over linearizable per-replica queues, with `alloc` atomic under the fill
mutex and the memory below it answering through an `Allocator`. -/

namespace Nrk.Memory

/-- `MAX_NUMA_NODES`. -/
def MAX_NUMA_NODES : ℕ := 12

/-- `ALLOC_CAP`, the capacity asked for each queue. -/
def ALLOC_CAP : ℕ := 32_000

/-- `Layout`: the size and the alignment of an allocation. -/
structure Layout where
  size : ℕ
  align : ℕ
  deriving DecidableEq, Repr

/-- `mpmc::Queue`: a bounded FIFO, oldest value first. -/
structure Queue (α : Type) where
  capacity : ℕ
  items : List α
  deriving DecidableEq, Repr

namespace Queue

variable {α : Type}

/-- `Queue::with_capacity`: a capacity below 2 becomes 2, one that is not a power of two the
next power of two. The buffer (`try_collect`) and the `Arc` are two allocation requests. -/
def with_capacity (capacity : ℕ) : AllocM (Except KError (Queue α)) := do
  let capacity :=
    if capacity < 2 ∨ capacity &&& (capacity - 1) ≠ 0 then
      if capacity < 2 then 2 else capacity.nextPowerOfTwo
    else capacity
  if !(← AllocM.request) then return .error .OutOfMemory
  if !(← AllocM.request) then return .error .OutOfMemory
  return .ok ⟨capacity, []⟩

/-- `push`: `Err` when the ring is full. -/
def push (q : Queue α) (value : α) : Option (Queue α) :=
  if q.items.length < q.capacity then some { q with items := q.items ++ [value] } else none

/-- `pop`: the oldest value. -/
def pop (q : Queue α) : Option (α × Queue α) :=
  match q.items with
  | [] => none
  | v :: rest => some (v, { q with items := rest })

theorem push_of_lt {q : Queue α} {value : α} (h : q.items.length < q.capacity) :
    q.push value = some { q with items := q.items ++ [value] } := by
  simp [push, h]

/-- What a queue holds after `value` is pushed. -/
def pushed (value : α) (q : Queue α) : Queue α := { q with items := q.items ++ [value] }

end Queue

/-- The memory below `DeterministicAlloc`: the addresses the global allocator has handed out
and not freed (ghost), and the next fresh address. -/
structure Mem where
  live : List ℕ
  next : ℕ
  deriving DecidableEq, Repr

namespace Mem

/-- No address handed out yet; `0` is null. -/
def init : Mem := ⟨[], 1⟩

/-- `alloc(l)` on the current memory affinity: a fresh address, or null when the request is
refused. -/
def alloc (m : Mem) : AllocM (ℕ × Mem) := do
  if ← AllocM.request then return (m.next, ⟨m.next :: m.live, m.next + 1⟩)
  else return (0, m)

/-- `dealloc(ptr, l)`. -/
def dealloc (m : Mem) (ptr : ℕ) : Mem := { m with live := m.live.erase ptr }

end Mem

/-- `DeterministicAlloc`: the queue of every replica, of `(Layout, address)` pairs. -/
structure DeterministicAlloc where
  qs : List (Queue (Layout × ℕ))
  deriving DecidableEq, Repr

namespace DeterministicAlloc

/-- The loop of `new_with_nodes`: `qs.push(Queue::with_capacity(ALLOC_CAP)?)` `nodes` times. -/
def new_queues : ℕ → AllocM (Except KError (List (Queue (Layout × ℕ))))
  | 0 => return .ok []
  | nodes + 1 => do
      match ← Queue.with_capacity ALLOC_CAP with
      | .error e => return .error e
      | .ok q =>
          match ← new_queues nodes with
          | .error e => return .error e
          | .ok qs => return .ok (q :: qs)

/-- `DeterministicAlloc::new_with_nodes`: one queue per node, and at least one. -/
def new_with_nodes (nodes : ℕ) : AllocM (Except KError DeterministicAlloc) := do
  if ¬ nodes < MAX_NUMA_NODES then AllocM.panic
  else
    let nodes := max 1 nodes
    match ← new_queues nodes with
    | .error e => return .error e
    | .ok qs => return .ok ⟨qs⟩

/-- `self.qs[i].push(value).expect(..)`: a panic on a full queue. -/
def push_at (qs : List (Queue (Layout × ℕ))) (i : ℕ) (value : Layout × ℕ) :
    Outcome (List (Queue (Layout × ℕ))) :=
  match qs[i]? with
  | none => .panic
  | some q =>
      match q.push value with
      | some q => .ok (qs.set i q)
      | none => .panic

/-- The first loop of the leading replica: `allocs.push(alloc(l))` for each of `nodes` nodes,
in order. -/
def alloc_all (mem : Mem) : ℕ → AllocM (List ℕ × Mem)
  | 0 => return ([], mem)
  | nodes + 1 => do
      let (ptr, mem) ← mem.alloc
      let (allocs, mem) ← alloc_all mem nodes
      return (ptr :: allocs, mem)

/-- Every node succeeded: `(l, allocs[i])` onto every queue but the leader's own. -/
def push_results (l : Layout) (nid : ℕ) (allocs : List ℕ) (qs : List (Queue (Layout × ℕ))) :
    Outcome (List (Queue (Layout × ℕ))) :=
  (List.range qs.length).foldlM
    (fun qs i => if i ≠ nid then push_at qs i (l, allocs.getD i 0) else pure qs) qs

/-- Some node failed: free every allocation that succeeded, and `(l, null)` onto every queue. -/
def free_and_push_null (l : Layout) (allocs : List ℕ) (qs : List (Queue (Layout × ℕ)))
    (mem : Mem) : Outcome (List (Queue (Layout × ℕ)) × Mem) :=
  (List.range qs.length).foldlM
    (fun (qs, mem) i => do
      let ptr := allocs.getD i 0
      let mem := if ptr ≠ 0 then mem.dealloc ptr else mem
      let qs ← push_at qs i (l, 0)
      return (qs, mem)) (qs, mem)

/-- `DeterministicAlloc::alloc(l)` on replica `nid`: its result, the queues and the memory
after it. -/
def alloc (self : DeterministicAlloc) (mem : Mem) (nid : ℕ) (l : Layout) :
    AllocM (ℕ × DeterministicAlloc × Mem) := do
  match self.qs[nid]? with
  | none => AllocM.panic
  | some q =>
      match q.pop with
      | some ((rl, ptr), q) =>
          -- the leading replica already allocated on our behalf
          if rl ≠ l then AllocM.panic
          else return (ptr, ⟨self.qs.set nid q⟩, mem)
      | none =>
          -- `fill` is held from here on; with the call atomic, the second `pop` finds the
          -- queue empty too
          let (allocs, mem) ← alloc_all mem self.qs.length
          if (allocs.filter (· = 0)).length = 0 then
            let qs ← liftM (push_results l nid allocs self.qs)
            return (allocs.getD nid 0, ⟨qs⟩, mem)
          else
            let (qs, mem) ← liftM (free_and_push_null l allocs self.qs mem)
            return (allocs.getD nid 0, ⟨qs⟩, mem)

/-- Calls of `alloc` by the replicas, `(nid, l)`, one after another in any interleaving: the
results in order. -/
def run (self : DeterministicAlloc) (mem : Mem) :
    List (ℕ × Layout) → AllocM (List ℕ × DeterministicAlloc × Mem)
  | [] => return ([], self, mem)
  | (nid, l) :: calls => do
      let (ptr, self, mem) ← self.alloc mem nid l
      let (ptrs, self, mem) ← run self mem calls
      return (ptr :: ptrs, self, mem)

/-! ## The loops of `alloc` -/

/-- Every queue has room for one more value. -/
def Roomy (qs : List (Queue (Layout × ℕ))) : Prop := ∀ q ∈ qs, q.items.length < q.capacity

variable {qs : List (Queue (Layout × ℕ))} {l : Layout} {mem : Mem}

theorem push_at_of_lt {i : ℕ} {q : Queue (Layout × ℕ)} (hq : qs[i]? = some q)
    (h : q.items.length < q.capacity) (value : Layout × ℕ) :
    push_at qs i value = .ok (qs.set i (q.pushed value)) := by
  simp only [push_at, hq, Queue.push_of_lt h, Queue.pushed]

/-- The queues with the first `k` of them pushed `value`. -/
def pushed_below (value : Layout × ℕ) (k : ℕ) (qs : List (Queue (Layout × ℕ))) :
    List (Queue (Layout × ℕ)) :=
  qs.mapIdx fun i q => if i < k then q.pushed value else q

theorem pushed_below_zero (value : Layout × ℕ) (qs : List (Queue (Layout × ℕ))) :
    pushed_below value 0 qs = qs := by
  apply List.ext_getElem?
  intro i
  simp [pushed_below, List.getElem?_mapIdx]

theorem set_pushed_below {value : Layout × ℕ} {k : ℕ} {q : Queue (Layout × ℕ)}
    (hq : qs[k]? = some q) :
    (pushed_below value k qs).set k (q.pushed value) = pushed_below value (k + 1) qs := by
  obtain ⟨hk, rfl⟩ := List.getElem?_eq_some_iff.mp hq
  apply List.ext_getElem?
  intro i
  rw [List.getElem?_set]
  simp only [pushed_below, List.length_mapIdx, List.getElem?_mapIdx]
  by_cases hik : k = i
  · subst hik
    simp [hk]
  · rw [if_neg hik]
    rcases Nat.lt_or_ge i k with hi | hi
    · simp [hi, Nat.lt_succ_of_lt hi]
    · simp [Nat.not_lt.mpr hi, show ¬ i < k + 1 by omega]

/-- The frees of the failure branch, in node order. -/
def free_each (allocs : List ℕ) (mem : Mem) : Mem :=
  allocs.foldl (fun mem ptr => if ptr ≠ 0 then mem.dealloc ptr else mem) mem

theorem free_each_take_succ (allocs : List ℕ) (k : ℕ) (mem : Mem) :
    free_each (allocs.take (k + 1)) mem =
      if allocs.getD k 0 ≠ 0 then (free_each (allocs.take k) mem).dealloc (allocs.getD k 0)
      else free_each (allocs.take k) mem := by
  rw [List.take_add_one, free_each, List.foldl_append, List.getD_eq_getElem?_getD]
  cases allocs[k]? <;> simp [free_each]

/-- The failure branch's loop, on queues that all have room: the first `k` queues get a null
result, and the first `k` allocations that succeeded are freed. The induction is on `k`. -/
theorem free_and_push_null_prefix {allocs : List ℕ} (hroom : Roomy qs) :
    ∀ k ≤ qs.length, (List.range k).foldlM
      (fun (qs, mem) i => do
        let ptr := allocs.getD i 0
        let mem := if ptr ≠ 0 then mem.dealloc ptr else mem
        let qs ← push_at qs i (l, 0)
        return (qs, mem)) (qs, mem) =
      .ok (pushed_below (l, 0) k qs, free_each (allocs.take k) mem)
  | 0, _ => by simp [pushed_below_zero, free_each]
  | k + 1, hk => by
      obtain ⟨q, hq⟩ : ∃ q, qs[k]? = some q := ⟨qs[k], List.getElem?_eq_getElem (by omega)⟩
      -- queue `k` is not pushed yet, so it still has room
      have hq' : (pushed_below (l, 0) k qs)[k]? = some q := by
        simp [pushed_below, List.getElem?_mapIdx, hq]
      rw [List.range_succ, List.foldlM_append, free_and_push_null_prefix hroom k (by omega),
        Outcome.ok_bind]
      simp only [List.foldlM_cons, List.foldlM_nil, Outcome.ok_bind,
        push_at_of_lt hq' (hroom q (List.mem_of_getElem? hq)), set_pushed_below hq,
        free_each_take_succ, Outcome.pure_eq]

theorem pushed_below_length (value : Layout × ℕ) (qs : List (Queue (Layout × ℕ))) :
    pushed_below value qs.length qs = qs.map (Queue.pushed value) := by
  apply List.ext_getElem?
  intro i
  simp only [pushed_below, List.getElem?_mapIdx, List.getElem?_map]
  cases h : qs[i]? with
  | none => rfl
  | some q => simp [(List.getElem?_eq_some_iff.mp h).1]

/-- The failure branch on queues that all have room: a null result onto every queue, and
every allocation that succeeded freed. -/
theorem free_and_push_null_eq {allocs : List ℕ} (hroom : Roomy qs) :
    free_and_push_null l allocs qs mem =
      .ok (qs.map (Queue.pushed (l, 0)), free_each (allocs.take qs.length) mem) := by
  rw [free_and_push_null, free_and_push_null_prefix hroom qs.length le_rfl, pushed_below_length]

/-! ## Runs from `new_with_nodes` -/

theorem run_with_capacity_alloc_cap :
    (Queue.with_capacity (α := Layout × ℕ) ALLOC_CAP).run Allocator.unlimited =
      .ok (.ok ⟨32768, []⟩, Allocator.unlimited) := by
  have h : Nat.nextPowerOfTwo 32000 = 32768 := by decide +kernel
  simp only [Queue.with_capacity, ALLOC_CAP, StateT.run_bind, AllocM.run_request,
    Allocator.unlimited_request]
  simp [h]

theorem run_new_queues_unlimited (n : ℕ) :
    (new_queues n).run Allocator.unlimited =
      .ok (.ok (List.replicate n ⟨32768, []⟩), Allocator.unlimited) := by
  induction n with
  | zero => rfl
  | succ n ih =>
      simp only [new_queues, StateT.run_bind, run_with_capacity_alloc_cap, Outcome.ok_bind, ih]
      rfl

/-- With every allocation granted, `new_with_nodes(r)` for `1 ≤ r < MAX_NUMA_NODES` gives `r`
empty queues. -/
theorem run_new_with_nodes_unlimited {r : ℕ} (hr : 1 ≤ r) (hmax : r < MAX_NUMA_NODES) :
    (new_with_nodes r).run Allocator.unlimited =
      .ok (.ok ⟨List.replicate r ⟨32768, []⟩⟩, Allocator.unlimited) := by
  simp only [new_with_nodes, hmax, not_true_eq_false, if_false, Nat.max_eq_right hr,
    StateT.run_bind, run_new_queues_unlimited, Outcome.ok_bind]
  rfl

theorem run_alloc_all_exhausted (mem : Mem) (n : ℕ) :
    (alloc_all mem n).run Allocator.exhausted =
      .ok ((List.replicate n 0, mem), Allocator.exhausted) := by
  induction n with
  | zero => rfl
  | succ n ih =>
      simp only [alloc_all, Mem.alloc, StateT.run_bind, AllocM.run_request,
        Allocator.exhausted_request, Outcome.ok_bind]
      simp only [Bool.false_eq_true, if_false, StateT.run_pure, Outcome.pure_eq, Outcome.ok_bind,
        ih]
      rfl

theorem run_alloc_all_first_only (mem : Mem) (n : ℕ) :
    (alloc_all mem (n + 1)).run Allocator.first_only =
      .ok ((mem.next :: List.replicate n 0, ⟨mem.next :: mem.live, mem.next + 1⟩),
        Allocator.exhausted) := by
  simp only [alloc_all, Mem.alloc, StateT.run_bind, AllocM.run_request,
    Allocator.first_only_request, Outcome.ok_bind]
  simp only [if_true, StateT.run_pure, Outcome.pure_eq, Outcome.ok_bind, run_alloc_all_exhausted]

theorem free_each_replicate_zero (n : ℕ) (mem : Mem) : free_each (List.replicate n 0) mem = mem := by
  induction n generalizing mem with
  | zero => rfl
  | succ n ih => simpa [free_each, List.replicate_succ] using ih mem

/-! ## One call of `alloc` -/

variable {self : DeterministicAlloc} {nid : ℕ} {q : Queue (Layout × ℕ)} {a : Allocator}

theorem run_alloc_of_pop {ptr : ℕ} {rest : List (Layout × ℕ)} (hq : self.qs[nid]? = some q)
    (hitems : q.items = (l, ptr) :: rest) :
    (self.alloc mem nid l).run a = .ok ((ptr, ⟨self.qs.set nid { q with items := rest }⟩, mem), a) := by
  simp only [alloc, hq, Queue.pop, hitems, ne_eq, not_true_eq_false, if_false]
  rfl

theorem run_alloc_of_pop_ne {rl : Layout} {ptr : ℕ} {rest : List (Layout × ℕ)}
    (hq : self.qs[nid]? = some q) (hitems : q.items = (rl, ptr) :: rest) (hne : rl ≠ l) :
    (self.alloc mem nid l).run a = .panic := by
  simp only [alloc, hq, Queue.pop, hitems, ne_eq, hne, not_false_eq_true, if_true]
  rfl

/-- The leading replica when some node's allocation fails: it frees every allocation that
succeeded, pushes a null result onto every queue, its own included, and returns its own node's
result. -/
theorem alloc_partial_failure {mem' : Mem} {allocs : List ℕ} {a' : Allocator}
    (hq : self.qs[nid]? = some q) (hempty : q.items = []) (hroom : Roomy self.qs)
    (hall : (alloc_all mem self.qs.length).run a = .ok ((allocs, mem'), a'))
    (hfail : 0 ∈ allocs) :
    (self.alloc mem nid l).run a =
      .ok ((allocs.getD nid 0, ⟨self.qs.map (Queue.pushed (l, 0))⟩,
        free_each (allocs.take self.qs.length) mem'), a') := by
  have hsome : (allocs.filter (· = 0)).length ≠ 0 := by
    rw [Ne, List.length_eq_zero_iff, List.filter_eq_nil_iff]
    simp only [decide_eq_true_eq, not_forall, not_not]
    exact ⟨0, hfail, rfl⟩
  simp only [alloc, hq, Queue.pop, hempty, StateT.run_bind, hall, Outcome.ok_bind, if_neg hsome,
    AllocM.run_liftM, free_and_push_null_eq hroom]
  rfl

/-- The replicas behind, each with one null entry of layout `l` in its queue, take it. The
induction is on the list of replicas; the other queues are left as they were. -/
theorem run_followers (l : Layout) (mem : Mem) (a : Allocator) :
    ∀ (nids : List ℕ) (qs : List (Queue (Layout × ℕ))), nids.Nodup →
      (∀ nid ∈ nids, ∃ c, qs[nid]? = some ⟨c, [(l, 0)]⟩) →
      ∃ qs', (run ⟨qs⟩ mem (nids.map fun nid => (nid, l))).run a =
          .ok ((List.replicate nids.length 0, ⟨qs'⟩, mem), a) ∧
        ∀ j, j ∉ nids → qs'[j]? = qs[j]?
  | [], qs, _, _ => ⟨qs, rfl, fun _ _ => rfl⟩
  | nid :: nids, qs, hnodup, hq => by
      obtain ⟨c, hc⟩ := hq nid List.mem_cons_self
      have hnid : nid ∉ nids := (List.nodup_cons.mp hnodup).1
      -- the rest run from the queues with `nid`'s entry taken
      obtain ⟨qs', hrun, hother⟩ := run_followers l mem a nids (qs.set nid ⟨c, []⟩)
        (List.nodup_cons.mp hnodup).2 fun nid' hnid' => by
          have hne : nid ≠ nid' := fun h => hnid (h ▸ hnid')
          rw [List.getElem?_set_ne hne]
          exact hq nid' (List.mem_cons_of_mem _ hnid')
      refine ⟨qs', ?_, fun j hj => ?_⟩
      · simp only [List.map_cons, run, StateT.run_bind,
          run_alloc_of_pop (show (DeterministicAlloc.mk qs).qs[nid]? = _ from hc) rfl, Outcome.ok_bind]
        rw [hrun]
        rfl
      · have hjn : nid ≠ j := fun h => hj (h ▸ List.mem_cons_self)
        rw [hother j fun h => hj (List.mem_cons_of_mem _ h), List.getElem?_set_ne hjn]

/-! ## A partial failure on the first call -/

/-- With `r ≥ 2` replicas, let every replica make its first call of `alloc(l)`, replica 0 first,
while the allocation succeeds on node 0 only. Replica 0 gets a pointer, which `alloc` has
freed; every other replica gets null; and replica 0's queue is left holding a null entry of
layout `l`, which its next call takes, failing the layout assertion unless that call is for
`l` again. -/
theorem partial_failure_diverges {r : ℕ} (hr : 2 ≤ r) (hmax : r < MAX_NUMA_NODES) (l : Layout) :
    ∃ da, (new_with_nodes r).run Allocator.unlimited = .ok (.ok da, Allocator.unlimited) ∧
      ∃ da' mem, (da.run Mem.init ((List.range r).map fun nid => (nid, l))).run
          Allocator.first_only =
          .ok ((1 :: List.replicate (r - 1) 0, da', mem), Allocator.exhausted) ∧
        1 ∉ mem.live ∧ (∃ q, da'.qs[0]? = some q ∧ q.items = [(l, 0)]) ∧
        ∀ l', l' ≠ l → (da'.alloc mem 0 l').run Allocator.exhausted = .panic := by
  obtain ⟨n, rfl⟩ : ∃ n, r = n + 1 := ⟨r - 1, by omega⟩
  have hroom : Roomy (List.replicate (n + 1) (⟨32768, []⟩ : Queue (Layout × ℕ))) := by
    intro q hq
    rw [List.eq_of_mem_replicate hq]
    decide
  -- replica 0 leads: node 0's allocation is the fresh address 1, the others fail
  have hlead := alloc_partial_failure (l := l)
    (show (DeterministicAlloc.mk (List.replicate (n + 1) ⟨32768, []⟩)).qs[0]? = _ from
      List.getElem?_replicate_of_lt (Nat.succ_pos n)) rfl hroom
    (by rw [List.length_replicate]; exact run_alloc_all_first_only Mem.init n)
    (List.mem_cons_of_mem _ (List.mem_replicate.mpr ⟨by omega, rfl⟩))
  simp only [List.getD_cons_zero, List.length_replicate, List.map_replicate] at hlead
  have hfree : free_each (1 :: List.replicate n 0) ⟨[1], 2⟩ = ⟨[], 2⟩ := by
    rw [free_each, List.foldl_cons, ← free_each]
    simp [free_each_replicate_zero, Mem.dealloc]
  rw [show Mem.init.next = 1 from rfl, show Mem.init.live = [] from rfl,
    List.take_of_length_le (by simp), hfree] at hlead
  -- then the replicas behind, each taking its null entry
  obtain ⟨qs', hrun, hother⟩ := run_followers l ⟨[], 2⟩ Allocator.exhausted
    ((List.range n).map Nat.succ)
    (List.replicate (n + 1) (Queue.pushed (l, 0) ⟨32768, []⟩))
    ((List.nodup_range).map Nat.succ_injective) fun nid hnid => by
      obtain ⟨k, hk, rfl⟩ := List.mem_map.mp hnid
      exact ⟨32768, List.getElem?_replicate_of_lt (by simp at hk; omega)⟩
  simp only [List.length_map, List.length_range] at hrun
  have hq0 : qs'[0]? = some (Queue.pushed (l, 0) ⟨32768, []⟩) := by
    rw [hother 0 (by simp)]
    exact List.getElem?_replicate_of_lt (Nat.succ_pos n)
  refine ⟨_, run_new_with_nodes_unlimited (by omega) hmax, ⟨qs'⟩, ⟨[], 2⟩, ?_, by simp,
    ⟨_, hq0, rfl⟩, fun l' hl' => run_alloc_of_pop_ne
      (show (DeterministicAlloc.mk qs').qs[0]? = _ from hq0) rfl (Ne.symm hl')⟩
  rw [List.range_succ_eq_map, List.map_cons]
  simp only [run, StateT.run_bind, hlead, Outcome.ok_bind, hrun, Nat.add_sub_cancel]
  rfl

theorem partial_failure_two_replicas :
    ∃ da, (new_with_nodes 2).run Allocator.unlimited = .ok (.ok da, Allocator.unlimited) ∧
      ∃ da' mem, (da.run Mem.init ((List.range 2).map fun nid => (nid, ⟨16, 8⟩))).run
          Allocator.first_only =
          .ok ((1 :: List.replicate (2 - 1) 0, da', mem), Allocator.exhausted) ∧
        1 ∉ mem.live ∧ (∃ q, da'.qs[0]? = some q ∧ q.items = [(⟨16, 8⟩, 0)]) ∧
        ∀ l', l' ≠ ⟨16, 8⟩ → (da'.alloc mem 0 l').run Allocator.exhausted = .panic :=
  partial_failure_diverges (by decide) (by decide) ⟨16, 8⟩

end DeterministicAlloc

end Nrk.Memory
