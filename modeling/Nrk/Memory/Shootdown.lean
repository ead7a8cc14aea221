import Nrk.Memory.MapAction
import Nrk.Lib.Bits

/-! # TLB shoot-down (`arch/x86_64/tlb.rs`, `memory/vspace.rs`)

The cores of a handle's `CoreBitMap`, the IPI work queues, and the multicast IPIs per x2APIC
cluster that `shootdown` sends. -/

namespace Nrk.Memory

/-- `CoreBitMap`: two `u128` words, cores `0..128` in `low` and `128..256` in `high`. -/
structure CoreBitMap where
  low : ℕ
  high : ℕ
  low_lt : low < 2 ^ 128
  high_lt : high < 2 ^ 128

namespace CoreBitMap

/-- `CoreBitMap::default`: no core. -/
def default : CoreBitMap := ⟨0, 0, Nat.two_pow_pos 128, Nat.two_pow_pos 128⟩

/-- `CoreBitMap::set_bit`. The `u128` `set_bit` asserts that the bit is below 128. -/
def set_bit (m : CoreBitMap) (bit : ℕ) (value : Bool) : Outcome CoreBitMap :=
  if h : bit ≤ 127 then
    .ok { m with low := Nat.set_bit 128 m.low bit value,
                 low_lt := Nat.set_bit_lt m.low_lt (by omega) value }
  else if h' : bit - 128 < 128 then
    .ok { m with high := Nat.set_bit 128 m.high (bit - 128) value,
                 high_lt := Nat.set_bit_lt m.high_lt h' value }
  else .panic

/-- `TlbFlushHandle::add_core`. -/
def add_core (m : CoreBitMap) (gtid : ℕ) : Outcome CoreBitMap := m.set_bit gtid true

theorem wrapping_neg_lt (x : ℕ) : Nat.wrapping_neg 128 x < 2 ^ 128 :=
  Nat.mod_lt _ (Nat.two_pow_pos 128)

/-- `CoreBitMapIter::next`: the lowest set bit of `low`, else of `high`, cleared. The
`debug_assert!(high > 0)` of the second branch always holds. -/
def next (m : CoreBitMap) : Option (ℕ × CoreBitMap) :=
  if m.low = 0 ∧ m.high = 0 then none
  else if 0 < m.low then
    let least_significant_bit := m.low &&& Nat.wrapping_neg 128 m.low
    some (Nat.trailing_zeros 128 m.low,
      { m with low := m.low ^^^ least_significant_bit,
               low_lt := Nat.xor_lt_two_pow m.low_lt (Nat.and_lt_two_pow _ (wrapping_neg_lt _)) })
  else
    let least_significant_bit := m.high &&& Nat.wrapping_neg 128 m.high
    some (128 + Nat.trailing_zeros 128 m.high,
      { m with high := m.high ^^^ least_significant_bit,
               high_lt := Nat.xor_lt_two_pow m.high_lt (Nat.and_lt_two_pow _ (wrapping_neg_lt _)) })

/-- `CoreBitMapIter` run for at most `fuel` steps. -/
def collect : ℕ → CoreBitMap → List ℕ
  | 0, _ => []
  | fuel + 1, m =>
      match next m with
      | none => []
      | some (gtid, m) => gtid :: collect fuel m

/-- `TlbFlushHandle::cores`, iterated to its end: each step clears one of the 256 bits. -/
def cores (m : CoreBitMap) : List ℕ := collect 256 m

/-! ## The iterator lists the set bits -/

/-- Core `g` is in the map. -/
def is_set (m : CoreBitMap) (g : ℕ) : Bool :=
  if g < 128 then m.low.testBit g else m.high.testBit (g - 128)

/-- The cores in the map, in increasing order. -/
def members (m : CoreBitMap) : List ℕ := (List.range 256).filter m.is_set

theorem next_spec {m m' : CoreBitMap} {g : ℕ} (h : m.next = some (g, m')) :
    g < 256 ∧ m.is_set g = true ∧ (∀ j < g, m.is_set j = false) ∧
      ∀ j, m'.is_set j = (m.is_set j && decide (j ≠ g)) := by
  unfold next at h
  split_ifs at h with hz hlow
  · -- the lowest bit of `low`
    simp only [Option.some.injEq, Prod.mk.injEq] at h
    obtain ⟨rfl, rfl⟩ := h
    obtain ⟨hlt, hbit, hbefore⟩ := Nat.testBit_trailing_zeros hlow m.low_lt
    refine ⟨by omega, by simp [is_set, hlt, hbit],
      fun j hj => by simp [is_set, show j < 128 by omega, hbefore j hj], fun j => ?_⟩
    simp only [is_set]
    rw [Nat.and_wrapping_neg hlow m.low_lt]
    by_cases hj : j < 128
    · by_cases hjt : j = Nat.trailing_zeros 128 m.low
      · subst hjt
        simp [hlt, hbit]
      · simp [hj, hjt, Ne.symm hjt]
    · simp [hj, show j ≠ Nat.trailing_zeros 128 m.low by omega]
  · -- `low` is empty: the lowest bit of `high`
    have hlow0 : m.low = 0 := by omega
    have hhigh : 0 < m.high := by omega
    simp only [Option.some.injEq, Prod.mk.injEq] at h
    obtain ⟨rfl, rfl⟩ := h
    obtain ⟨hlt, hbit, hbefore⟩ := Nat.testBit_trailing_zeros hhigh m.high_lt
    refine ⟨by omega, by simp [is_set, hbit], fun j hj => ?_, fun j => ?_⟩
    · by_cases hj' : j < 128
      · simp [is_set, hj', hlow0]
      · simp [is_set, hj', hbefore (j - 128) (by omega)]
    · simp only [is_set]
      rw [Nat.and_wrapping_neg hhigh m.high_lt]
      by_cases hj : j < 128
      · simp [hj, show j ≠ 128 + Nat.trailing_zeros 128 m.high by omega]
      · by_cases hjt : j = 128 + Nat.trailing_zeros 128 m.high
        · subst hjt
          simp [hbit]
        · simp [hj, hjt, show Nat.trailing_zeros 128 m.high ≠ j - 128 by omega]

theorem next_eq_none {m : CoreBitMap} (h : m.next = none) : m.members = [] := by
  unfold next at h
  split_ifs at h with hz
  rw [members, List.filter_eq_nil_iff]
  intro j _
  simp [is_set, hz.1, hz.2]

theorem members_of_next {m m' : CoreBitMap} {g : ℕ} (h : m.next = some (g, m')) :
    m.members = g :: m'.members := by
  obtain ⟨hg, hset, hbefore, hrest⟩ := next_spec h
  exact List.filter_range_eq_cons hg hset hbefore hrest

/-- Enough steps of the iterator list the cores of the map, in increasing order. -/
theorem collect_eq_members (fuel : ℕ) (m : CoreBitMap) (h : m.members.length ≤ fuel) :
    collect fuel m = m.members := by
  induction fuel generalizing m with
  | zero => rw [List.eq_nil_of_length_eq_zero (Nat.le_zero.mp h), collect]
  | succ fuel ih =>
      cases hn : m.next with
      | none => rw [next_eq_none hn, collect, hn]
      | some r =>
          obtain ⟨g, m'⟩ := r
          have hmem := members_of_next hn
          rw [hmem] at h
          rw [hmem, collect, hn]
          dsimp only
          rw [ih m' (by simpa using h)]

theorem cores_eq_members (m : CoreBitMap) : m.cores = m.members :=
  collect_eq_members 256 m (by simpa [members] using List.length_filter_le m.is_set (List.range 256))

theorem mem_cores {m : CoreBitMap} {g : ℕ} : g ∈ m.cores ↔ g < 256 ∧ m.is_set g = true := by
  rw [cores_eq_members, members, List.mem_filter, List.mem_range]

theorem nodup_cores (m : CoreBitMap) : m.cores.Nodup := by
  rw [cores_eq_members]
  exact List.nodup_range.filter _

/-- `set_bit` of a core below 256 gives that core the value and keeps the others; above 256
the assertion of the `u128` `set_bit` fails. -/
theorem set_bit_eq {m : CoreBitMap} {b : ℕ} (hb : b < 256) (v : Bool) :
    ∃ m', m.set_bit b v = .ok m' ∧ ∀ j, m'.is_set j = if j = b then v else m.is_set j := by
  unfold set_bit
  by_cases hlow : b ≤ 127
  · refine ⟨_, dif_pos hlow, fun j => ?_⟩
    by_cases hj : j < 128
    · simp only [is_set, hj, if_true, Nat.testBit_set_bit m.low_lt (show b < 128 by omega)]
    · simp [is_set, hj, show j ≠ b by omega]
  · refine ⟨_, (dif_neg hlow).trans (dif_pos (by omega)), fun j => ?_⟩
    by_cases hj : j < 128
    · simp [is_set, hj, show j ≠ b by omega]
    · simp only [is_set, hj, if_false, Nat.testBit_set_bit m.high_lt (show b - 128 < 128 by omega)]
      by_cases hjb : j = b
      · simp [hjb]
      · simp [hjb, show j - 128 ≠ b - 128 by omega]

theorem add_core_eq {m : CoreBitMap} {gtid : ℕ} (hg : gtid < 256) :
    ∃ m', m.add_core gtid = .ok m' ∧ ∀ j, m'.is_set j = (m.is_set j || decide (j = gtid)) := by
  obtain ⟨m', hset, hbits⟩ := set_bit_eq (m := m) hg true
  refine ⟨m', hset, fun j => ?_⟩
  by_cases hj : j = gtid <;> simp [hbits, hj]

theorem is_set_default (j : ℕ) : default.is_set j = false := by
  by_cases hj : j < 128 <;> simp [is_set, default, hj]

theorem lt_of_is_set {m : CoreBitMap} {j : ℕ} (h : m.is_set j = true) : j < 256 := by
  by_contra hj
  have hbit : m.high.testBit (j - 128) = false :=
    Nat.testBit_lt_two_pow (lt_of_lt_of_le m.high_lt (Nat.pow_le_pow_right (by omega) (by omega)))
  simp [is_set, show ¬ j < 128 by omega, hbit] at h

theorem mem_members {m : CoreBitMap} {j : ℕ} : j ∈ m.members ↔ m.is_set j = true := by
  rw [members, List.mem_filter, List.mem_range]
  exact ⟨And.right, fun h => ⟨lt_of_is_set h, h⟩⟩

theorem members_pairwise (m : CoreBitMap) : m.members.Pairwise (· < ·) :=
  List.pairwise_lt_range.filter _

/-! ## Runs of `set_bit` and of the iterator -/

/-- A sequence of `CoreBitMap::set_bit(b, v)` calls. -/
def set_bits (m : CoreBitMap) (ops : List (ℕ × Bool)) : Outcome CoreBitMap :=
  ops.foldlM (fun m op => m.set_bit op.1 op.2) m

/-- The value that the last of `ops` to name bit `b` gives it; `v` when none does. -/
def last_value (v : Bool) (ops : List (ℕ × Bool)) (b : ℕ) : Bool :=
  ops.foldl (fun v op => if op.1 = b then op.2 else v) v

/-- `n` calls of `CoreBitMapIter::next`, with what each returns. A call that returns `None`
finds both words zero and leaves them so. -/
def next_calls : ℕ → CoreBitMap → List (Option ℕ)
  | 0, _ => []
  | n + 1, m =>
      match m.next with
      | none => none :: next_calls n m
      | some (g, m') => some g :: next_calls n m'

/-- After calls below 256, each core holds the value of the last call that named it. -/
theorem set_bits_eq (ops : List (ℕ × Bool)) (hops : ∀ op ∈ ops, op.1 < 256) (m : CoreBitMap) :
    ∃ m', m.set_bits ops = .ok m' ∧ ∀ j, m'.is_set j = last_value (m.is_set j) ops j := by
  induction ops generalizing m with
  | nil => exact ⟨m, rfl, fun j => rfl⟩
  | cons op ops ih =>
      obtain ⟨m₁, hset, hbits⟩ := set_bit_eq (m := m) (hops op List.mem_cons_self) op.2
      obtain ⟨m', hrun, hbits'⟩ := ih (fun op' h => hops op' (List.mem_cons_of_mem op h)) m₁
      refine ⟨m', by simp [set_bits, List.foldlM_cons, hset, ← hrun, set_bits], fun j => ?_⟩
      rw [hbits', hbits, last_value, last_value, List.foldl_cons]
      by_cases hj : j = op.1
      · simp [hj]
      · simp [hj, Ne.symm hj]

theorem next_calls_of_next_none {m : CoreBitMap} (h : m.next = none) (n : ℕ) :
    next_calls n m = List.replicate n none := by
  induction n with
  | zero => rfl
  | succ n ih => rw [next_calls, h, ih, List.replicate_succ]

/-- The iterator returns the cores of the map in increasing order, then `None` on every later
call. -/
theorem next_calls_eq (L : List ℕ) : ∀ m : CoreBitMap, m.members = L → ∀ n,
    next_calls (L.length + n) m = L.map some ++ List.replicate n none := by
  induction L with
  | nil =>
      intro m hL n
      cases hn : m.next with
      | none => simpa using next_calls_of_next_none hn n
      | some r =>
          have hmem := members_of_next hn
          rw [hL] at hmem
          cases hmem
  | cons g₀ L ih =>
      intro m hL n
      cases hn : m.next with
      | none =>
          rw [next_eq_none hn] at hL
          cases hL
      | some r =>
          obtain ⟨g, m'⟩ := r
          have hmem := members_of_next hn
          rw [hL] at hmem
          obtain ⟨rfl, hL'⟩ := List.cons.inj hmem
          rw [List.length_cons, Nat.add_right_comm, next_calls, hn]
          simp [ih m' hL'.symm n]

theorem foldlM_add_core (gtids : List ℕ) (m : CoreBitMap) :
    gtids.foldlM add_core m = m.set_bits (gtids.map fun g => (g, true)) := by
  rw [set_bits, List.foldlM_map]
  rfl

theorem last_value_add_cores (gtids : List ℕ) (v : Bool) (b : ℕ) :
    last_value v (gtids.map fun g => (g, true)) b = (v || decide (b ∈ gtids)) := by
  induction gtids generalizing v with
  | nil => simp [last_value]
  | cons g gtids ih =>
      rw [last_value, List.map_cons, List.foldl_cons, ← last_value, ih]
      by_cases hg : g = b
      · simp [hg]
      · simp [hg, Ne.symm hg]

/-- After any calls `set_bit(b, v)` with `b < 256` on `CoreBitMap::default()`, the iterator
yields the cores whose last call set them, once each and in increasing order, then `None` on
every later call. So the iterator of a `TlbFlushHandle` yields the cores passed to
`add_core`. -/
theorem core_bitmap_iter_yields_set_cores :
    (∀ ops : List (ℕ × Bool), (∀ op ∈ ops, op.1 < 256) →
      ∃ m, default.set_bits ops = .ok m ∧ ∃ L : List ℕ, L.Pairwise (· < ·) ∧
        (∀ b, b ∈ L ↔ last_value false ops b = true) ∧
        ∀ n, next_calls (L.length + n) m = L.map some ++ List.replicate n none) ∧
    (∀ gtids : List ℕ, (∀ g ∈ gtids, g < 256) →
      ∃ m, gtids.foldlM add_core default = .ok m ∧ ∃ L : List ℕ, L.Pairwise (· < ·) ∧
        (∀ g, g ∈ L ↔ g ∈ gtids) ∧
        ∀ n, next_calls (L.length + n) m = L.map some ++ List.replicate n none) := by
  constructor
  · intro ops hops
    obtain ⟨m, hrun, hbits⟩ := set_bits_eq ops hops default
    refine ⟨m, hrun, m.members, members_pairwise m, fun b => ?_, next_calls_eq _ m rfl⟩
    rw [mem_members, hbits, is_set_default]
  · intro gtids hg
    obtain ⟨m, hrun, hbits⟩ := set_bits_eq (gtids.map fun g => (g, true))
      (by simpa using hg) default
    refine ⟨m, (foldlM_add_core gtids default).trans hrun, m.members, members_pairwise m,
      fun g => ?_, next_calls_eq _ m rfl⟩
    rw [mem_members, hbits, is_set_default, last_value_add_cores]
    simp

/-- Set cores 3 and 130, clear 3 and set 7; and add cores 200 and 1 to a handle. -/
theorem core_bitmap_iter_yields_three_calls :
    (∃ m, default.set_bits [(3, true), (130, true), (3, false), (7, true)] = .ok m ∧
      ∃ L : List ℕ, L.Pairwise (· < ·) ∧
        (∀ b, b ∈ L ↔ last_value false [(3, true), (130, true), (3, false), (7, true)] b = true) ∧
        ∀ n, next_calls (L.length + n) m = L.map some ++ List.replicate n none) ∧
    (∃ m, [200, 1].foldlM add_core default = .ok m ∧ ∃ L : List ℕ, L.Pairwise (· < ·) ∧
        (∀ g, g ∈ L ↔ g ∈ [200, 1]) ∧
        ∀ n, next_calls (L.length + n) m = L.map some ++ List.replicate n none) :=
  ⟨core_bitmap_iter_yields_set_cores.1 _ (by decide),
    core_bitmap_iter_yields_set_cores.2 [200, 1] (by decide)⟩

end CoreBitMap

/-! ## Shoot-down -/

/-- `IPI_WORKQUEUE_CAPACITY`. -/
def IPI_WORKQUEUE_CAPACITY : ℕ := 4

/-- `WorkItem`: a shoot-down names the virtual range to flush. -/
inductive WorkItem where
  | Shootdown (vregion : ℕ × ℕ)
  | AdvanceReplica (log_id : ℕ)
  deriving DecidableEq, Repr

/-- `enqueue`: `IPI_WORKQUEUE[gtid].push(s)`. `ArrayQueue::push` hands the item back when the
queue is full, and `enqueue` ignores it. -/
def enqueue (queues : List (List WorkItem)) (gtid : ℕ) (s : WorkItem) :
    Outcome (List (List WorkItem)) :=
  match queues[gtid]? with
  | none => .panic
  | some queue =>
      if queue.length < IPI_WORKQUEUE_CAPACITY then .ok (queues.set gtid (queue ++ [s]))
      else .ok queues

/-- The two methods of `atopology`'s `ApicId` that `shootdown` calls, outside the kernel: the
logical cluster of an x2APIC ID and its logical address in the cluster. -/
structure X2ApicLogical where
  x2apic_logical_cluster_id : ℕ → ℕ
  x2apic_logical_cluster_address : ℕ → ℕ

/-- The logical destinations `shootdown` starts from: the cluster id in bits 31..16, no core. -/
def initial_cluster_destination : List ℕ := (List.range 16).map fun c => c <<< 16

/-- The loop of `shootdown` over the cores of the handle, with the destinations, the IPI work
queues, and the shoot-downs it will wait for. -/
def shootdown_loop (x2 : X2ApicLogical) (threads : List ℕ) (my_gtid : ℕ) (vregion : ℕ × ℕ)
    (capacity : ℕ) :
    List ℕ → List ℕ × List (List WorkItem) × List ℕ →
      AllocM (List ℕ × List (List WorkItem) × List ℕ)
  | [], st => return st
  | gtid :: rest, (cluster_destination, queues, shootdowns) => do
      if gtid = my_gtid then
        shootdown_loop x2 threads my_gtid vregion capacity rest
          (cluster_destination, queues, shootdowns)
      else
        -- `MACHINE_TOPOLOGY.threads[gtid].apic_id()`
        let apic_id ← (threads[gtid]?.elim .panic .ok : Outcome ℕ)
        let cluster_addr := x2.x2apic_logical_cluster_address apic_id
        let cluster := x2.x2apic_logical_cluster_id apic_id
        -- `cluster_destination[cluster as usize].set_bit(cluster_addr as usize, true)`
        let ldr ← (cluster_destination[cluster]?.elim .panic .ok : Outcome ℕ)
        if ¬ cluster_addr < 32 then AllocM.panic
        let cluster_destination :=
          cluster_destination.set cluster (Nat.set_bit 32 ldr cluster_addr true)
        -- `Arc::try_new(Shootdown::new(range.clone())).expect(..)`
        if !(← AllocM.request) then AllocM.panic
        let queues ← (enqueue queues gtid (.Shootdown vregion) : Outcome _)
        -- `debug_assert!(shootdowns.len() < shootdowns.capacity())`
        if ¬ shootdowns.length < capacity then AllocM.panic
        shootdown_loop x2 threads my_gtid vregion capacity rest
          (cluster_destination, queues, shootdowns ++ [gtid])

/-- `shootdown`, run on core `my_gtid`: the IPI work queues it leaves, the logical destinations
of the multicast IPIs it sends, and the cores whose acknowledgement it then waits for. The own
TLB flush and the wait are not modelled. -/
def shootdown (x2 : X2ApicLogical) (threads : List ℕ) (my_gtid : ℕ)
    (queues : List (List WorkItem)) (handle : TlbFlushHandle) (core_map : CoreBitMap) :
    AllocM (List (List WorkItem) × List ℕ × List ℕ) := do
  let num_cores := threads.length
  -- `Vec::try_with_capacity(num_cores).expect(..)`
  if !(← AllocM.request) then AllocM.panic
  let vregion_end ← (Outcome.checkedAdd USIZE_BITS handle.vaddr handle.size : Outcome ℕ)
  let (cluster_destination, queues, shootdowns) ←
    shootdown_loop x2 threads my_gtid (handle.vaddr, vregion_end) num_cores core_map.cores
      (initial_cluster_destination, queues, [])
  -- an IPI for each cluster whose destination has one of bits 0..=3 set
  let ipis := cluster_destination.filter fun cluster_ldr => cluster_ldr % 2 ^ 4 ≠ 0
  return (queues, ipis, shootdowns)

/-- A logical multicast IPI to `ldr` is accepted by the core with x2APIC ID `apic_id`: the
cluster matches and the core's bit is in the mask. -/
def Reaches (x2 : X2ApicLogical) (ldr apic_id : ℕ) : Prop :=
  ldr >>> 16 = x2.x2apic_logical_cluster_id apic_id ∧
    ldr.testBit (x2.x2apic_logical_cluster_address apic_id) = true

section x2apic

variable {x2 : X2ApicLogical}

theorem enqueue_of_lt {queues : List (List WorkItem)} {gtid : ℕ} (h : gtid < queues.length)
    (s : WorkItem) : ∃ queues', enqueue queues gtid s = .ok queues' ∧
      queues'.length = queues.length := by
  unfold enqueue
  simp only [List.getElem?_eq_getElem h]
  split_ifs
  · exact ⟨_, rfl, List.length_set⟩
  · exact ⟨_, rfl, rfl⟩

theorem enqueue_of_full {queues : List (List WorkItem)} {gtid : ℕ} {queue : List WorkItem}
    (h : queues[gtid]? = some queue) (hfull : IPI_WORKQUEUE_CAPACITY ≤ queue.length)
    (s : WorkItem) : enqueue queues gtid s = .ok queues := by
  simp only [enqueue, h]
  exact if_neg (Nat.not_lt.mpr hfull)

/-- One core other than the caller: its bit is set in its cluster's destination, a shoot-down
is queued for it, and it joins the cores waited for. -/
theorem shootdown_loop_cons_run (threads : List ℕ) (my_gtid : ℕ) (vregion : ℕ × ℕ)
    (capacity : ℕ) {gtid apic_id ldr : ℕ} (rest : List ℕ) {cd : List ℕ}
    {queues queues' : List (List WorkItem)} {shootdowns : List ℕ} (hne : gtid ≠ my_gtid)
    (happic : threads[gtid]? = some apic_id)
    (hldr : cd[x2.x2apic_logical_cluster_id apic_id]? = some ldr)
    (haddr : x2.x2apic_logical_cluster_address apic_id < 32)
    (hq : enqueue queues gtid (.Shootdown vregion) = .ok queues')
    (hcap : shootdowns.length < capacity) :
    (shootdown_loop x2 threads my_gtid vregion capacity (gtid :: rest)
        (cd, queues, shootdowns)).run Allocator.unlimited =
      (shootdown_loop x2 threads my_gtid vregion capacity rest
        (cd.set (x2.x2apic_logical_cluster_id apic_id)
          (Nat.set_bit 32 ldr (x2.x2apic_logical_cluster_address apic_id) true),
         queues', shootdowns ++ [gtid])).run Allocator.unlimited := by
  simp only [shootdown_loop, if_neg hne, happic, hldr, Option.elim, haddr, hq, hcap,
    StateT.run_bind, AllocM.run_liftM, Outcome.ok_bind, not_true_eq_false, if_false,
    AllocM.run_request, Allocator.unlimited_request, Bool.not_true]
  rfl

theorem shootdown_loop_self_run (threads : List ℕ) (my_gtid : ℕ) (vregion : ℕ × ℕ)
    (capacity : ℕ) (rest : List ℕ) (st : List ℕ × List (List WorkItem) × List ℕ) :
    shootdown_loop x2 threads my_gtid vregion capacity (my_gtid :: rest) st =
      shootdown_loop x2 threads my_gtid vregion capacity rest st := by
  obtain ⟨cd, queues, shootdowns⟩ := st
  simp only [shootdown_loop, if_true]

/-! ## The destinations of the IPIs -/

/-- What the loop keeps of the destinations: one 32-bit word per cluster with the cluster id
in bits 31..16, and, in the word of cluster `c`, none of bits 0..3. -/
def DestInv (c : ℕ) (cd : List ℕ) : Prop :=
  cd.length = 16 ∧ ∀ k (hk : k < cd.length),
    cd[k] < 2 ^ 32 ∧ cd[k] >>> 16 = k ∧ (k = c → ∀ i < 4, cd[k].testBit i = false)

theorem destInv_initial (c : ℕ) : DestInv c initial_cluster_destination := by
  refine ⟨by simp [initial_cluster_destination], fun k hk => ?_⟩
  have hk16 : k < 16 := by simpa [initial_cluster_destination] using hk
  simp only [initial_cluster_destination, List.getElem_map, List.getElem_range,
    Nat.shiftLeft_eq]
  refine ⟨by omega, by rw [Nat.shiftRight_eq_div_pow, Nat.mul_div_cancel _ (Nat.two_pow_pos 16)],
    fun _ i hi => ?_⟩
  rw [Nat.testBit_mul_two_pow]
  simp [show ¬ 16 ≤ i by omega]

/-- Marking a core of cluster `cl` keeps the invariant, as long as a core of cluster `c` has
a logical address of 4 or more. -/
theorem DestInv.set {c : ℕ} {cd : List ℕ} (hinv : DestInv c cd) {cl addr : ℕ}
    (hcl : cl < cd.length) (haddr : addr < 16) (hc : cl = c → 4 ≤ addr) :
    DestInv c (cd.set cl (Nat.set_bit 32 cd[cl] addr true)) := by
  obtain ⟨hlen, hwords⟩ := hinv
  refine ⟨by rw [List.length_set, hlen], fun k hk => ?_⟩
  rw [List.length_set] at hk
  by_cases hkcl : k = cl
  · subst hkcl
    obtain ⟨hlt, hhigh, hlow⟩ := hwords k hcl
    have hbits := Nat.testBit_set_bit hlt (show addr < 32 by omega) true
    rw [List.getElem_set_self]
    refine ⟨Nat.set_bit_lt hlt (by omega) true, ?_, fun hkc i hi => ?_⟩
    · -- the word above bit 16 is untouched
      refine Eq.trans ?_ hhigh
      apply Nat.eq_of_testBit_eq
      intro j
      rw [Nat.testBit_shiftRight, Nat.testBit_shiftRight, hbits, if_neg (by omega)]
    · rw [hbits, if_neg (by have := hc hkc; omega)]
      exact hlow hkc i hi
  · rw [List.getElem_set_ne (Ne.symm hkcl)]
    exact hwords k hk

theorem not_reaches_of_destInv {c : ℕ} {cd : List ℕ} (hinv : DestInv c cd) {apic_id : ℕ}
    (hc : x2.x2apic_logical_cluster_id apic_id = c) {ldr : ℕ}
    (hldr : ldr ∈ cd.filter fun cluster_ldr => cluster_ldr % 2 ^ 4 ≠ 0) :
    ¬ Reaches x2 ldr apic_id := by
  rintro ⟨hcluster, -⟩
  obtain ⟨hmem, hsent⟩ := List.mem_filter.mp hldr
  obtain ⟨k, hk, rfl⟩ := List.getElem_of_mem hmem
  obtain ⟨-, hhigh, hlow⟩ := hinv.2 k hk
  -- the word is that of cluster `c`, whose bits 0..3 are clear
  have hkc : k = c := by rw [← hc, ← hcluster, hhigh]
  have hzero : cd[k] % 2 ^ 4 = 0 := by
    apply Nat.eq_of_testBit_eq
    intro i
    rw [Nat.testBit_mod_two_pow, Nat.zero_testBit]
    by_cases hi : i < 4
    · simp [hi, hlow hkc i hi]
    · simp [hi]
  exact of_decide_eq_true hsent hzero

/-- The loop over a list of cores, each of which, but the caller, has an x2APIC ID, a cluster
below 16 and a work queue, and has a logical address of 4 or more if its cluster is `c`: with
room for every shoot-down, it returns, waits for every core but the caller, and keeps
`DestInv c`. -/
theorem shootdown_loop_run (haddr : ∀ a, x2.x2apic_logical_cluster_address a < 2 ^ 4)
    (threads : List ℕ) (my_gtid : ℕ) (vregion : ℕ × ℕ) (capacity c : ℕ) :
    ∀ (l cd : List ℕ) (queues : List (List WorkItem)) (shootdowns : List ℕ),
      (∀ g ∈ l, g ≠ my_gtid → ∃ apic_id, threads[g]? = some apic_id ∧
        x2.x2apic_logical_cluster_id apic_id < 16 ∧ g < queues.length ∧
        (x2.x2apic_logical_cluster_id apic_id = c →
          4 ≤ x2.x2apic_logical_cluster_address apic_id)) →
      shootdowns.length + (l.filter (· ≠ my_gtid)).length ≤ capacity → DestInv c cd →
      ∃ cd' queues', (shootdown_loop x2 threads my_gtid vregion capacity l
          (cd, queues, shootdowns)).run Allocator.unlimited =
          .ok ((cd', queues', shootdowns ++ l.filter (· ≠ my_gtid)), Allocator.unlimited) ∧
        DestInv c cd'
  | [], cd, queues, shootdowns, _, _, hinv => ⟨cd, queues, by simp [shootdown_loop], hinv⟩
  | g :: rest, cd, queues, shootdowns, hl, hcap, hinv => by
      have hrest : ∀ g' ∈ rest, g' ∈ g :: rest := fun g' hg' => List.mem_cons_of_mem g hg'
      by_cases hg : g = my_gtid
      · -- the caller's own core is skipped
        subst hg
        obtain ⟨cd', queues', hrun, hinv'⟩ := shootdown_loop_run haddr threads g vregion capacity c rest
          cd queues shootdowns (fun g' hg' => hl g' (hrest g' hg')) (by simpa using hcap) hinv
        refine ⟨cd', queues', ?_, hinv'⟩
        rw [shootdown_loop_self_run, hrun]
        simp
      · obtain ⟨apic_id, happic, hcl, hq, hc⟩ := hl g List.mem_cons_self hg
        obtain ⟨queues', henq, hlen'⟩ := enqueue_of_lt hq (.Shootdown vregion)
        have hcd : x2.x2apic_logical_cluster_id apic_id < cd.length := hinv.1 ▸ hcl
        have hcap' : shootdowns.length + 1 + (rest.filter (· ≠ my_gtid)).length ≤ capacity := by
          simpa [List.filter_cons, hg, Nat.add_assoc, Nat.add_comm 1] using hcap
        obtain ⟨cd', queues'', hrun, hinv'⟩ := shootdown_loop_run haddr threads my_gtid vregion
          capacity c
          rest _ queues' (shootdowns ++ [g])
          (fun g' hg' hne' => by
            obtain ⟨a, h₁, h₂, h₃, h₄⟩ := hl g' (hrest g' hg') hne'
            exact ⟨a, h₁, h₂, hlen' ▸ h₃, h₄⟩)
          (by simpa using hcap')
          (hinv.set hcd (haddr apic_id) hc)
        refine ⟨cd', queues'', ?_, hinv'⟩
        rw [shootdown_loop_cons_run threads my_gtid vregion capacity rest hg happic
          (List.getElem?_eq_getElem hcd) (lt_trans (haddr apic_id) (by decide)) henq (by omega),
          hrun]
        simp [hg]

end x2apic

/-- The cores a shoot-down goes to fit the vector `shootdown` reserves: they are distinct and
each has an entry in the topology. -/
theorem length_targets_le {l : List ℕ} (hl : l.Nodup) {threads : List ℕ} {my_gtid : ℕ}
    (hin : ∀ g ∈ l, g ≠ my_gtid → g < threads.length) :
    (l.filter (· ≠ my_gtid)).length ≤ threads.length := by
  have hsub : l.filter (· ≠ my_gtid) ⊆ List.range threads.length := by
    intro g hg
    obtain ⟨hmem, hne⟩ := List.mem_filter.mp hg
    exact List.mem_range.mpr (hin g hmem (of_decide_eq_true hne))
  simpa using (List.subperm_of_subset (hl.filter _) hsub).length_le

/-- `shootdown` waits for a core that it sends no IPI to, whenever every target core of that
core's x2APIC cluster has a logical address of 4 or more: a cluster's multicast goes out only
when one of bits 0..3 of its destination is set. -/
theorem shootdown_skips_high_addresses (x2 : X2ApicLogical)
    (haddr : ∀ a, x2.x2apic_logical_cluster_address a < 2 ^ 4) (threads : List ℕ) (my_gtid : ℕ)
    (queues : List (List WorkItem)) (handle : TlbFlushHandle) (core_map : CoreBitMap)
    (hend : handle.vaddr + handle.size < 2 ^ USIZE_BITS)
    (hcores : ∀ g ∈ core_map.cores, g ≠ my_gtid → ∃ a, threads[g]? = some a ∧
      x2.x2apic_logical_cluster_id a < 16 ∧ g < queues.length)
    {gtid : ℕ} (hg : gtid ∈ core_map.cores) (hme : gtid ≠ my_gtid)
    (hhigh : ∀ g ∈ core_map.cores, g ≠ my_gtid → ∀ a b, threads[g]? = some a →
      threads[gtid]? = some b →
        x2.x2apic_logical_cluster_id a = x2.x2apic_logical_cluster_id b →
        4 ≤ x2.x2apic_logical_cluster_address a) :
    ∃ queues' ipis shootdowns, (shootdown x2 threads my_gtid queues handle core_map).run
        Allocator.unlimited = .ok ((queues', ipis, shootdowns), Allocator.unlimited) ∧
      gtid ∈ shootdowns ∧ ∀ ldr ∈ ipis, ∀ a, threads[gtid]? = some a → ¬ Reaches x2 ldr a := by
  obtain ⟨apic_id, happic, -, -⟩ := hcores gtid hg hme
  have hcap : ([] : List ℕ).length + (core_map.cores.filter (· ≠ my_gtid)).length ≤
      threads.length := by
    rw [List.length_nil, Nat.zero_add]
    refine length_targets_le (CoreBitMap.nodup_cores core_map) fun g hg hne => ?_
    obtain ⟨a, ha, -, -⟩ := hcores g hg hne
    exact (List.getElem?_eq_some_iff.mp ha).1
  -- the loop keeps bits 0..3 of the destination of `gtid`'s cluster clear
  obtain ⟨cd, queues', hrun, hinv⟩ := shootdown_loop_run haddr threads my_gtid
    (handle.vaddr, handle.vaddr + handle.size) threads.length (x2.x2apic_logical_cluster_id apic_id)
    core_map.cores initial_cluster_destination queues []
    (fun g hg hne => by
      obtain ⟨a, ha, hcl, hq⟩ := hcores g hg hne
      exact ⟨a, ha, hcl, hq, hhigh g hg hne a apic_id ha happic⟩)
    hcap (destInv_initial _)
  refine ⟨queues', _, [] ++ core_map.cores.filter (· ≠ my_gtid), ?_, ?_,
    fun ldr hldr a ha => not_reaches_of_destInv hinv (by rw [happic] at ha; cases ha; rfl) hldr⟩
  · simp only [shootdown, StateT.run_bind, AllocM.run_request, Allocator.unlimited_request,
      Bool.not_true, Bool.false_eq_true, if_false, StateT.run_pure, Outcome.ok_bind,
      AllocM.run_liftM, Outcome.checkedAdd_of_lt hend, hrun]
    rfl
  · exact List.mem_append_right _ (List.mem_filter.mpr ⟨hg, decide_eq_true hme⟩)

/-- Cores 0 and 1 with x2APIC IDs 0 and 4, whose logical cluster and address are bits 19..4 and
3..0, and a shoot-down started on core 0: core 1, in cluster 0 at logical address 4, is waited
for and gets no IPI. -/
theorem shootdown_misses_apic_four :
    ∃ queues' ipis shootdowns, (shootdown ⟨fun a => a / 2 ^ 4 % 2 ^ 16, fun a => a % 2 ^ 4⟩
        [0, 4] 0 [[], []] ⟨0x1000, 0, 0x1000, MapAction.user⟩
        ⟨3, 0, by decide, by decide⟩).run Allocator.unlimited =
        .ok ((queues', ipis, shootdowns), Allocator.unlimited) ∧
      1 ∈ shootdowns ∧ ∀ ldr ∈ ipis, ∀ a, [0, 4][1]? = some a →
        ¬ Reaches ⟨fun a => a / 2 ^ 4 % 2 ^ 16, fun a => a % 2 ^ 4⟩ ldr a := by
  have hcores : CoreBitMap.cores ⟨3, 0, by decide, by decide⟩ = [0, 1] := by decide
  refine shootdown_skips_high_addresses ⟨fun a => a / 2 ^ 4 % 2 ^ 16, fun a => a % 2 ^ 4⟩
    (fun a => Nat.mod_lt a (Nat.two_pow_pos 4)) [0, 4] 0 [[], []]
    ⟨0x1000, 0, 0x1000, MapAction.user⟩ ⟨3, 0, by decide, by decide⟩ (by decide) ?_
    (by rw [hcores]; decide) (by decide) ?_
  · intro g hg hne
    rw [hcores] at hg
    rcases List.mem_pair.mp hg with rfl | rfl
    · exact absurd rfl hne
    · exact ⟨4, rfl, by decide, by decide⟩
  · intro g hg hne a b ha _ _
    rw [hcores] at hg
    rcases List.mem_pair.mp hg with rfl | rfl
    · exact absurd rfl hne
    · cases ha
      decide

end Nrk.Memory
