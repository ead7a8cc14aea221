import Nrk.Lib.Simulation
import Nrk.Vmxnet3.Basic

/-! # The vmxnet3 receive queue (`lib/vmxnet3/src/var.rs`, `RxQueue`) -/

namespace Nrk.Vmxnet3

/-! ## Descriptors and rings -/

/-- `vmxnet3_rxdesc`: the buffer address and the bitfields that `enqueue` writes. All zero by
default. -/
structure Vmxnet3Rxdesc where
  addr : ℕ
  len : ℕ
  btype : ℕ
  gen : ℕ
  deriving DecidableEq, Repr, Inhabited

namespace Vmxnet3Rxdesc

/-- The setters of the bitfields: `len` is 14 bits wide, `btype` and `gen` one bit each. -/
def set_len (d : Vmxnet3Rxdesc) (val : ℕ) : Vmxnet3Rxdesc := { d with len := val % 2 ^ 14 }

def set_btype (d : Vmxnet3Rxdesc) (val : ℕ) : Vmxnet3Rxdesc := { d with btype := val % 2 }

def set_gen (d : Vmxnet3Rxdesc) (val : ℕ) : Vmxnet3Rxdesc := { d with gen := val % 2 }

/-- The four writes of `enqueue` for the `i`-th segment `seg`, with the ring's generation. -/
def post (d : Vmxnet3Rxdesc) (seg : IOBuf) (i gen : ℕ) : Vmxnet3Rxdesc :=
  (({ d with addr := seg.paddr }.set_len seg.len).set_btype
    (if i % 2 = 0 then VMXNET3_BTYPE_HEAD else VMXNET3_BTYPE_BODY)).set_gen gen

@[simp] theorem post_addr (d : Vmxnet3Rxdesc) (seg : IOBuf) (i gen : ℕ) :
    (d.post seg i gen).addr = seg.paddr := rfl

end Vmxnet3Rxdesc

/-- `vmxnet3_rxcompdesc`: the fields of a receive completion that `dequeue` and `can_dequeue`
read. All zero by default. -/
structure Vmxnet3Rxcompdesc where
  rxd_idx : ℕ
  eop : Bool
  sop : Bool
  len : ℕ
  error : Bool
  gen : ℕ
  deriving DecidableEq, Repr, Inhabited

/-- `vmxnet3_rxring`: the descriptors, the generation of the driver's lap, and where the next
chain goes. -/
structure Vmxnet3Rxring where
  vxrxr_rxd : List Vmxnet3Rxdesc
  vxrxr_gen : ℕ
  vxrxr_refill_start : ℕ
  deriving DecidableEq, Repr

def Vmxnet3Rxring.vxrxr_ndesc (r : Vmxnet3Rxring) : ℕ := r.vxrxr_rxd.length

def Vmxnet3Rxring.new (vxrxr_ndesc : ℕ) : AllocM (Except VMXNet3Error Vmxnet3Rxring) := do
  match ← descriptors_new default vxrxr_ndesc with
  | .ok vxrxr_rxd => return .ok ⟨vxrxr_rxd, VMXNET3_INIT_GEN, 0⟩
  | .error e => return .error e

/-- `vmxnet3_rxcomp_ring`: the completions, and the generation of the lap being read. -/
structure Vmxnet3RxcompRing where
  vxcr : List Vmxnet3Rxcompdesc
  vxcr_gen : ℕ
  deriving DecidableEq, Repr

def Vmxnet3RxcompRing.vxcr_ndesc (r : Vmxnet3RxcompRing) : ℕ := r.vxcr.length

def Vmxnet3RxcompRing.new (ndesc : ℕ) : AllocM (Except VMXNet3Error Vmxnet3RxcompRing) := do
  match ← descriptors_new default ndesc with
  | .ok vxcr => return .ok ⟨vxcr, VMXNET3_INIT_GEN⟩
  | .error e => return .error e

/-! ## The queue -/

/-- `RxQueue`: command ring 0 (ring 1 is built empty and never used), the completion ring,
the two cursors, and the chains posted and not yet returned, each with the index of its first
descriptor. -/
structure RxQueue where
  vxrxq_cmd_ring0 : Vmxnet3Rxring
  vxrxq_comp_ring : Vmxnet3RxcompRing
  pidx_tail0 : ℕ
  pidx_head0 : ℕ
  inflight_chains : List (ℕ × IOBufChain)
  deriving DecidableEq, Repr

namespace RxQueue

/-- `RxQueue::new`. The deques of chains are reserved for the bounded count, the rings for
`ndesc` itself. -/
def new (ndesc : ℕ) : AllocM (Except VMXNet3Error RxQueue) := do
  let vxtxr_ndesc := BoundedUSize.new VMXNET3_MIN_RX_NDESC VMXNET3_MAX_RX_NDESC ndesc
  -- `inflight_chains` and `processed_chains`
  if !(← try_reserve_exact vxtxr_ndesc) then return .error .OutOfMemory1
  else if !(← try_reserve_exact vxtxr_ndesc) then return .error .OutOfMemory1
  else
    match ← Vmxnet3Rxring.new ndesc with
    | .error e => return .error e
    | .ok ring0 =>
        match ← Vmxnet3Rxring.new 0 with
        | .error e => return .error e
        | .ok _ =>
            match ← Vmxnet3RxcompRing.new (1 * ndesc) with
            | .error e => return .error e
            | .ok comp_ring => return .ok ⟨ring0, comp_ring, 0, 0, []⟩

def len (q : RxQueue) : ℕ :=
  if q.pidx_head0 > q.pidx_tail0 then q.pidx_head0 - q.pidx_tail0
  else q.pidx_tail0 - q.pidx_head0

def capacity (q : RxQueue) : ℕ := q.vxrxq_cmd_ring0.vxrxr_ndesc

def is_full (q : RxQueue) : Outcome Bool := do
  return (← Outcome.checkedSub q.capacity q.len) == 1

def is_empty (q : RxQueue) : Bool := q.pidx_tail0 == q.pidx_head0

/-- The loop of `enqueue` over the chain's segments: the `i`-th goes to descriptor `idx`, and
the index wraps to 0 at the end of the ring, where the ring's generation flips. An index past
the descriptors, or a length that does not fit a `u32` (`try_into().unwrap()`), panics. -/
def post_segments (ndesc : ℕ) :
    List IOBuf → ℕ → Vmxnet3Rxring → ℕ → Outcome (Vmxnet3Rxring × ℕ)
  | [], _, rxr, idx => .ok (rxr, idx)
  | seg :: segs, i, rxr, idx =>
      match rxr.vxrxr_rxd[idx]? with
      | none => .panic
      | some d =>
          if 2 ^ 32 ≤ seg.len then .panic
          else
            let next := advance ndesc idx rxr.vxrxr_gen
            post_segments ndesc segs (i + 1)
              { rxr with vxrxr_rxd := rxr.vxrxr_rxd.set idx (d.post seg i rxr.vxrxr_gen)
                         vxrxr_gen := next.2 } next.1

/-- `enqueue`: a chain that does not fit is handed back; one with other than two segments
fails the `assert_eq!`. The chain is recorded with `idx.wrapping_sub(len) % ndesc`. -/
def enqueue (q : RxQueue) (chain : IOBufChain) : Outcome (RxQueue × Except IOBufChain Unit) := do
  if (← Outcome.checkedSub q.capacity q.len) < chain.segments.length then
    return (q, .error chain)
  else if chain.segments.length ≠ 2 then .panic
  else
    let ndesc := q.vxrxq_cmd_ring0.vxrxr_ndesc
    let (rxr, idx) ←
      post_segments ndesc chain.segments 0 q.vxrxq_cmd_ring0 q.vxrxq_cmd_ring0.vxrxr_refill_start
    -- `ndesc` is not 0 here: two descriptors were written
    return ({ q with
      vxrxq_cmd_ring0 := { rxr with vxrxr_refill_start := idx }
      pidx_head0 := idx
      inflight_chains := q.inflight_chains ++
        [((idx + 2 ^ USIZE_BITS - chain.segments.length) % 2 ^ USIZE_BITS % ndesc, chain)] },
      .ok ())

def can_enqueue (q : RxQueue) (how_many_seg : ℕ) : Outcome Bool := do
  let room ← Outcome.checkedSub (← Outcome.checkedSub q.capacity 1) q.len
  return decide (how_many_seg < room)

/-- The loop of `can_dequeue` from completion `idx` on, reading at most `fuel` entries: it
stops at an entry of another generation or once `budget` packets are counted. The
`debug_assert!`s on `sop` panic. With `fuel` one more than the ring's size the fuel never runs
out: after a lap the generation looked for has flipped, and the entry where the loop started
has the other one. -/
def count_completed (vxcr : List Vmxnet3Rxcompdesc) (budget : ℕ) :
    ℕ → ℕ → ℕ → Bool → ℕ → Outcome ℕ
  | 0, _, _, _, _ => .panic
  | fuel + 1, idx, completed_gen, expect_sop, available =>
      match vxcr[idx]? with
      | none => .panic
      | some rxcd =>
          if rxcd.gen ≠ completed_gen then .ok available
          else if rxcd.sop ≠ expect_sop then .panic
          else
            let available := if rxcd.eop ∧ rxcd.len ≠ 0 then available + 1 else available
            if budget ≤ available then .ok available
            else
              let next := advance vxcr.length idx completed_gen
              count_completed vxcr budget fuel next.1 next.2 rxcd.eop available

/-- The `while` loop of `dequeue` that skips zero-length completions, each of which must carry
both `sop` and `eop`. It reads no generation: a whole lap of zero-length entries keeps it
going forever, which is no result. -/
def skip_zero_length (vxcr : List Vmxnet3Rxcompdesc) : ℕ → ℕ → ℕ → Outcome (ℕ × ℕ)
  | 0, _, _ => .panic
  | fuel + 1, tail, gen =>
      match vxcr[tail]? with
      | none => .panic
      | some rxcd =>
          if rxcd.len ≠ 0 then .ok (tail, gen)
          else if !(rxcd.eop && rxcd.sop) then .panic
          else
            let next := advance vxcr.length tail gen
            skip_zero_length vxcr fuel next.1 next.2

/-- The fragment loop of `dequeue`: the completions from `tail` on, each of the lap's
generation and naming a descriptor of ring 0, cut the chain's segments in turn to their
lengths, up to the one with `eop`. A completion past the last segment, or longer than its
segment (`debug_assert!`), panics. Returns the segments, the new tail and generation, and the
last completion read. -/
def fill_frags (nrxd : ℕ) (vxcr : List Vmxnet3Rxcompdesc) :
    List IOBuf → ℕ → ℕ → Outcome (List IOBuf × ℕ × ℕ × Vmxnet3Rxcompdesc)
  | [], _, _ => .panic
  | seg :: segs, tail, gen =>
      match vxcr[tail]? with
      | none => .panic
      | some rxcd =>
          if rxcd.gen ≠ gen ∨ nrxd ≤ rxcd.rxd_idx ∨ seg.len < rxcd.len then .panic
          else
            let next := advance vxcr.length tail gen
            if rxcd.eop then .ok (seg.truncate rxcd.len :: segs, next.1, next.2, rxcd)
            else do
              let (segs, tail, gen, last) ← fill_frags nrxd vxcr segs next.1 next.2
              return (seg.truncate rxcd.len :: segs, tail, gen, last)

/-- `can_dequeue(exact)`: the packets completed from `pidx_tail0` on, at most one unless
`exact`. It changes nothing. -/
def can_dequeue (q : RxQueue) (exact : Bool) : Outcome ℕ :=
  let budget := if exact then VMXNET3_MAX_RX_NDESC else 1
  let rxc := q.vxrxq_comp_ring
  count_completed rxc.vxcr budget (rxc.vxcr_ndesc + 1) q.pidx_tail0 rxc.vxcr_gen true 0

/-- `dequeue`: the oldest chain in flight, its segments cut to what the device wrote (to 0 on a
packet with an error). The checksum, VLAN and RSS data it sets on the chain are left out. -/
def dequeue (q : RxQueue) : Outcome (RxQueue × Except DevQueueError IOBufChain) := do
  if (← q.can_dequeue false) = 0 then return (q, .error .QueueEmpty)
  else
    let rxc := q.vxrxq_comp_ring
    let (tail, gen) ← skip_zero_length rxc.vxcr (rxc.vxcr_ndesc + 1) q.pidx_tail0 rxc.vxcr_gen
    match rxc.vxcr[tail]? with
    | none => .panic
    | some rxcd =>
        if !rxcd.sop then .panic
        else
          match q.inflight_chains with
          | [] => .panic
          | (_, chain) :: inflight_chains =>
              let (segments, tail, gen, last) ←
                fill_frags q.vxrxq_cmd_ring0.vxrxr_ndesc rxc.vxcr chain.segments tail gen
              let segments := if last.error then segments.map (·.truncate 0) else segments
              return ({ q with
                vxrxq_comp_ring := { rxc with vxcr_gen := gen }
                pidx_tail0 := tail
                inflight_chains := inflight_chains }, .ok { chain with segments := segments })

end RxQueue

/-! ## A new queue -/

theorem Vmxnet3Rxring.run_new {n : ℕ} {a a' : Allocator} {r : Vmxnet3Rxring}
    (h : (Vmxnet3Rxring.new n).run a = .ok (.ok r, a')) :
    r = ⟨List.replicate n default, VMXNET3_INIT_GEN, 0⟩ := by
  rw [Vmxnet3Rxring.new, AllocM.run_bind_eq_ok] at h
  obtain ⟨ds, a₁, hds, h⟩ := h
  cases ds with
  | error e => simp at h
  | ok rxd =>
      simp only [StateT.run_pure, Outcome.pure_eq, Outcome.ok.injEq, Prod.mk.injEq,
        Except.ok.injEq] at h
      rw [← h.1, run_descriptors_new hds]

/-- A queue that `new` returns has `ndesc` descriptors on ring 0, and its cursors and the
list of chains are where they start. -/
theorem RxQueue.run_new {ndesc : ℕ} {a a' : Allocator} {q : RxQueue}
    (h : (RxQueue.new ndesc).run a = .ok (.ok q, a')) :
    q.vxrxq_cmd_ring0 = ⟨List.replicate ndesc default, VMXNET3_INIT_GEN, 0⟩ ∧
      q.pidx_tail0 = 0 ∧ q.pidx_head0 = 0 ∧ q.inflight_chains = [] := by
  rw [RxQueue.new, AllocM.run_bind_eq_ok] at h
  -- the two deques of chains
  obtain ⟨_ | _, a₁, -, h⟩ := h
  · simp at h
  simp only [Bool.not_true, Bool.false_eq_true, if_false, AllocM.run_bind_eq_ok] at h
  obtain ⟨_ | _, a₂, -, h⟩ := h
  · simp at h
  simp only [Bool.not_true, Bool.false_eq_true, if_false, AllocM.run_bind_eq_ok] at h
  -- command ring 0, the empty ring 1, and the completion ring
  obtain ⟨_ | ring0, a₃, hring0, h⟩ := h
  · simp at h
  simp only [AllocM.run_bind_eq_ok] at h
  obtain ⟨_ | _, a₄, -, h⟩ := h
  · simp at h
  simp only [AllocM.run_bind_eq_ok] at h
  obtain ⟨_ | comp_ring, a₅, -, h⟩ := h
  · simp at h
  simp only [StateT.run_pure, Outcome.pure_eq, Outcome.ok.injEq, Prod.mk.injEq,
    Except.ok.injEq] at h
  rw [← h.1]
  exact ⟨Vmxnet3Rxring.run_new hring0, rfl, rfl, rfl⟩

/-! ## Posting a two-segment chain -/

/-- Two segments go to descriptors `idx` and `idx + 1` of a ring that holds both without a
wrap in between, and the next index is `idx + 2` modulo the ring's size. The other
descriptors stay as they were. -/
theorem RxQueue.post_segments_two {ndesc idx : ℕ} {rxr : Vmxnet3Rxring} {s₀ s₁ : IOBuf}
    (hlen : rxr.vxrxr_ndesc = ndesc) (hidx : idx + 2 ≤ ndesc) (h₀ : s₀.len < 2 ^ 32)
    (h₁ : s₁.len < 2 ^ 32) :
    ∃ rxr', RxQueue.post_segments ndesc [s₀, s₁] 0 rxr idx = .ok (rxr', (idx + 2) % ndesc) ∧
      rxr'.vxrxr_ndesc = ndesc ∧
      rxr'.vxrxr_rxd[idx]?.map Vmxnet3Rxdesc.addr = some s₀.paddr ∧
      ∀ j, j ≠ idx → j ≠ idx + 1 → rxr'.vxrxr_rxd[j]? = rxr.vxrxr_rxd[j]? := by
  rw [Vmxnet3Rxring.vxrxr_ndesc] at hlen
  obtain ⟨d₀, hd₀⟩ : ∃ d, rxr.vxrxr_rxd[idx]? = some d :=
    ⟨_, List.getElem?_eq_getElem (by omega)⟩
  obtain ⟨d₁, hd₁⟩ : ∃ d, rxr.vxrxr_rxd[idx + 1]? = some d :=
    ⟨_, List.getElem?_eq_getElem (by omega)⟩
  -- the first write leaves descriptor `idx + 1` as it was
  have hd₁' : (rxr.vxrxr_rxd.set idx (d₀.post s₀ 0 rxr.vxrxr_gen))[idx + 1]? = some d₁ := by
    rw [List.getElem?_set_ne (by omega), hd₁]
  have hnext : advance ndesc idx rxr.vxrxr_gen = (idx + 1, rxr.vxrxr_gen) :=
    advance_of_lt (by omega)
  refine ⟨{ rxr with
      vxrxr_rxd := (rxr.vxrxr_rxd.set idx (d₀.post s₀ 0 rxr.vxrxr_gen)).set (idx + 1)
        (d₁.post s₁ 1 rxr.vxrxr_gen)
      vxrxr_gen := (advance ndesc (idx + 1) rxr.vxrxr_gen).2 }, ?_, ?_, ?_, ?_⟩
  · simp only [RxQueue.post_segments, hd₀, hd₁', hnext, Nat.not_le.mpr h₀, Nat.not_le.mpr h₁, if_false]
    rw [advance_fst (by omega)]
  · simp [Vmxnet3Rxring.vxrxr_ndesc, hlen]
  · rw [List.getElem?_set_ne (by omega), List.getElem?_set_self (by omega)]
    rfl
  · intro j hj hj'
    rw [List.getElem?_set_ne (Ne.symm hj'), List.getElem?_set_ne (Ne.symm hj)]

/-- A chain of two segments whose lengths fit a `u32`, the chains the driver posts. -/
def TwoSegments (c : IOBufChain) : Prop :=
  c.segments.length = 2 ∧ ∀ seg ∈ c.segments, seg.len < 2 ^ 32

instance : DecidablePred TwoSegments := fun c =>
  inferInstanceAs (Decidable (c.segments.length = 2 ∧ ∀ seg ∈ c.segments, seg.len < 2 ^ 32))

/-- `enqueue` of a two-segment chain, in a queue with room for it and no wrap inside it: the
first segment's buffer goes on the refill descriptor and the next one, the head and the refill
index move two on, and the chain joins the end of the list, recorded two before the new head.
The other descriptors stay as they were. -/
theorem RxQueue.enqueue_two {q : RxQueue} {c : IOBufChain} (hc : TwoSegments c)
    (hroom : q.len + 2 ≤ q.capacity)
    (hidx : q.vxrxq_cmd_ring0.vxrxr_refill_start + 2 ≤ q.capacity) :
    ∃ q', q.enqueue c = .ok (q', .ok ()) ∧
      q'.capacity = q.capacity ∧ q'.pidx_tail0 = q.pidx_tail0 ∧
      q'.pidx_head0 = (q.vxrxq_cmd_ring0.vxrxr_refill_start + 2) % q.capacity ∧
      q'.vxrxq_cmd_ring0.vxrxr_refill_start = q'.pidx_head0 ∧
      q'.inflight_chains = q.inflight_chains ++
        [((q'.pidx_head0 + 2 ^ USIZE_BITS - 2) % 2 ^ USIZE_BITS % q.capacity, c)] ∧
      q'.vxrxq_cmd_ring0.vxrxr_rxd[q.vxrxq_cmd_ring0.vxrxr_refill_start]?.map
        Vmxnet3Rxdesc.addr = c.segments.head?.map IOBuf.paddr ∧
      ∀ j, j ≠ q.vxrxq_cmd_ring0.vxrxr_refill_start →
        j ≠ q.vxrxq_cmd_ring0.vxrxr_refill_start + 1 →
        q'.vxrxq_cmd_ring0.vxrxr_rxd[j]? = q.vxrxq_cmd_ring0.vxrxr_rxd[j]? := by
  obtain ⟨hlen, hsmall⟩ := hc
  obtain ⟨s₀, s₁, hseg⟩ := List.length_eq_two.mp hlen
  have h₀ : s₀.len < 2 ^ 32 := hsmall s₀ (by simp [hseg])
  have h₁ : s₁.len < 2 ^ 32 := hsmall s₁ (by simp [hseg])
  obtain ⟨rxr', hpost, hndesc, haddr, hother⟩ := RxQueue.post_segments_two rfl hidx h₀ h₁
  have hfits : ¬ q.capacity - q.len < 2 := by omega
  refine ⟨{ q with
      vxrxq_cmd_ring0 := { rxr' with
        vxrxr_refill_start := (q.vxrxq_cmd_ring0.vxrxr_refill_start + 2) % q.capacity }
      pidx_head0 := (q.vxrxq_cmd_ring0.vxrxr_refill_start + 2) % q.capacity
      inflight_chains := q.inflight_chains ++
        [(((q.vxrxq_cmd_ring0.vxrxr_refill_start + 2) % q.capacity + 2 ^ USIZE_BITS - 2) %
          2 ^ USIZE_BITS % q.capacity, c)] }, ?_, hndesc, rfl, rfl, rfl, rfl, ?_, ?_⟩
  · simp only [RxQueue.enqueue, Outcome.checkedSub_of_le (by omega : q.len ≤ q.capacity),
      Outcome.ok_bind, hseg, List.length_cons, List.length_nil, hfits, if_false, ne_eq,
      not_true_eq_false]
    rw [hpost]
    rfl
  · simpa [hseg] using haddr
  · exact hother

/-! ## Filling the ring -/

theorem RxQueue.len_of_tail_zero {q : RxQueue} (h : q.pidx_tail0 = 0) :
    q.len = q.pidx_head0 := by
  simp only [RxQueue.len, h]
  split <;> omega

/-- The queue after the two-segment chains `cs` went in one after another from a new queue of
`ndesc` descriptors, none taken out: the tail at 0, the head and the refill index two on per
chain modulo `ndesc`, the chains in flight in order with the first recorded at descriptor 0,
and descriptor 0 holding the first chain's first buffer. -/
structure Posted (ndesc : ℕ) (cs : List IOBufChain) (q : RxQueue) : Prop where
  capacity_eq : q.capacity = ndesc
  tail_eq : q.pidx_tail0 = 0
  head_eq : q.pidx_head0 = 2 * cs.length % ndesc
  refill_eq : q.vxrxq_cmd_ring0.vxrxr_refill_start = 2 * cs.length % ndesc
  chains_eq : q.inflight_chains.map Prod.snd = cs
  first_at_zero : ∀ e ∈ q.inflight_chains.head?, e.1 = 0
  first_posted : ∀ c ∈ cs.head?,
    q.vxrxq_cmd_ring0.vxrxr_rxd[0]?.map Vmxnet3Rxdesc.addr = c.segments.head?.map IOBuf.paddr

theorem posted_new {ndesc : ℕ} {a a' : Allocator} {q : RxQueue}
    (h : (RxQueue.new ndesc).run a = .ok (.ok q, a')) : Posted ndesc [] q := by
  obtain ⟨hring, htail, hhead, hchains⟩ := RxQueue.run_new h
  refine ⟨?_, htail, ?_, ?_, ?_, ?_, ?_⟩
  · simp [RxQueue.capacity, Vmxnet3Rxring.vxrxr_ndesc, hring]
  · simp [hhead]
  · simp [hring]
  · simp [hchains]
  · simp [hchains]
  · simp

/-- One more two-segment chain, while the ring has room for it: `enqueue` takes it, and the
queue is the one after `cs ++ [c]`. -/
theorem Posted.enqueue {ndesc : ℕ} {cs : List IOBufChain} {q : RxQueue} {c : IOBufChain}
    (hP : Posted ndesc cs q) (h4 : 4 ≤ ndesc) (hroom : 2 * cs.length + 2 ≤ ndesc)
    (hc : TwoSegments c) :
    ∃ q', q.enqueue c = .ok (q', .ok ()) ∧ Posted ndesc (cs ++ [c]) q' := by
  have hhead : q.pidx_head0 = 2 * cs.length := by
    rw [hP.head_eq, Nat.mod_eq_of_lt (by omega)]
  have hrefill : q.vxrxq_cmd_ring0.vxrxr_refill_start = 2 * cs.length := by
    rw [hP.refill_eq, Nat.mod_eq_of_lt (by omega)]
  have hlen : q.len = 2 * cs.length := by rw [RxQueue.len_of_tail_zero hP.tail_eq, hhead]
  obtain ⟨q', hq', hcap, htail, hhead', hrefill', hchains, haddr, hother⟩ :=
    RxQueue.enqueue_two hc (by rw [hlen, hP.capacity_eq]; exact hroom)
      (by rw [hrefill, hP.capacity_eq]; exact hroom)
  have hlength : 2 * (cs ++ [c]).length = 2 * cs.length + 2 := by simp; omega
  refine ⟨q', hq', ⟨?_, ?_, ?_, ?_, ?_, ?_, ?_⟩⟩
  · rw [hcap, hP.capacity_eq]
  · rw [htail, hP.tail_eq]
  · rw [hhead', hrefill, hP.capacity_eq, hlength]
  · rw [hrefill', hhead', hrefill, hP.capacity_eq, hlength]
  · simp [hchains, hP.chains_eq]
  -- the first chain in flight: `c` itself when the ring was empty, else the one before
  · cases cs with
    | nil =>
        have hnil : q.inflight_chains = [] := List.map_eq_nil_iff.mp hP.chains_eq
        have htwo : q'.pidx_head0 = 2 := by
          rw [hhead', hrefill, hP.capacity_eq]
          simp only [List.length_nil, Nat.mul_zero, Nat.zero_add]
          exact Nat.mod_eq_of_lt (by omega)
        simp [hchains, hnil, htwo, USIZE_BITS]
    | cons c₀ cs =>
        have hne : q.inflight_chains ≠ [] := fun h => by simpa [h] using hP.chains_eq
        rw [hchains, List.head?_append_of_ne_nil _ hne]
        exact hP.first_at_zero
  · cases cs with
    | nil =>
        intro c₀ hc₀
        simp only [List.nil_append, List.head?_cons, Option.mem_def, Option.some.injEq] at hc₀
        subst hc₀
        simpa [hrefill] using haddr
    | cons c₀ cs =>
        intro c₁ hc₁
        simp only [List.cons_append, List.head?_cons, Option.mem_def, Option.some.injEq] at hc₁
        subst hc₁
        rw [hother 0 (by simp [hrefill]) (by simp [hrefill])]
        exact hP.first_posted c₀ rfl

/-- A run of `enqueue`s of two-segment chains that the ring has room for, from the queue after
`done`, takes every chain. -/
theorem Posted.run {ndesc : ℕ} (h4 : 4 ≤ ndesc) (cs : List IOBufChain) :
    ∀ {done : List IOBufChain} {q : RxQueue}, Posted ndesc done q →
      2 * (done.length + cs.length) ≤ ndesc → (∀ c ∈ cs, TwoSegments c) →
      ∃ q', Sim.runImpl RxQueue.enqueue q cs = .ok (q', cs.map fun _ => .ok ()) ∧
        Posted ndesc (done ++ cs) q' := by
  induction cs with
  | nil =>
      intro done q hP _ _
      exact ⟨q, rfl, by simpa using hP⟩
  | cons c cs ih =>
      intro done q hP hroom htwo
      simp only [List.length_cons] at hroom
      obtain ⟨q₁, hq₁, hP₁⟩ := hP.enqueue h4 (by omega) (htwo c List.mem_cons_self)
      obtain ⟨q', hrun, hP'⟩ := ih hP₁ (by simp only [List.length_append, List.length_singleton]; omega)
        (fun c' hc' => htwo c' (List.mem_cons_of_mem c hc'))
      exact ⟨q', Sim.runImpl_cons_of_ok hq₁ hrun, by simpa using hP'⟩

theorem Posted.head?_eq {ndesc : ℕ} {cs : List IOBufChain} {q : RxQueue}
    (hP : Posted ndesc cs q) : q.inflight_chains.head? = cs.head?.map (Prod.mk 0) := by
  have hchains := hP.chains_eq
  cases h : q.inflight_chains with
  | nil =>
      rw [h, List.map_nil] at hchains
      rw [← hchains]
      rfl
  | cons e es =>
      rw [h, List.map_cons] at hchains
      have he : e.1 = 0 := hP.first_at_zero e (by simp [h])
      rw [← hchains, List.head?_cons, List.head?_cons, Option.map_some, ← he]

/-- From a new queue of an even number `ndesc` of descriptors, at least the minimum,
`ndesc / 2` two-segment chains are all taken and fill the ring, after which `len` is 0 and
`is_empty` holds, and the next two-segment chain is taken too: its first buffer goes on
descriptor 0, which holds the first buffer of the first chain, still in flight and recorded
there. -/
theorem rx_full_ring_reads_empty_and_reposts {ndesc : ℕ} (hlo : VMXNET3_MIN_RX_NDESC ≤ ndesc)
    (heven : 2 ∣ ndesc) {a a' : Allocator} {q : RxQueue}
    (hnew : (RxQueue.new ndesc).run a = .ok (.ok q, a')) (chains : List IOBufChain)
    (hlen : chains.length = ndesc / 2) (htwo : ∀ c ∈ chains, TwoSegments c) (c : IOBufChain)
    (hc : TwoSegments c) :
    ∃ q₁, Sim.runImpl RxQueue.enqueue q chains = .ok (q₁, chains.map fun _ => .ok ()) ∧
      q₁.inflight_chains.length = ndesc / 2 ∧ q₁.len = 0 ∧ q₁.is_empty = true ∧
      ∃ q₂ c₀ rest, q₁.enqueue c = .ok (q₂, .ok ()) ∧ chains = c₀ :: rest ∧
        q₂.inflight_chains.head? = some (0, c₀) ∧
        q₁.vxrxq_cmd_ring0.vxrxr_rxd[0]?.map Vmxnet3Rxdesc.addr =
          c₀.segments.head?.map IOBuf.paddr ∧
        q₂.vxrxq_cmd_ring0.vxrxr_rxd[0]?.map Vmxnet3Rxdesc.addr =
          c.segments.head?.map IOBuf.paddr := by
  have h4 : 4 ≤ ndesc := le_trans (by decide) hlo
  obtain ⟨q₁, hrun, hP⟩ := Posted.run h4 chains (posted_new hnew) (by simp [hlen]; omega) htwo
  rw [List.nil_append] at hP
  -- `ndesc / 2` chains of two bring the head back to 0
  have hzero : 2 * chains.length % ndesc = 0 := by
    rw [hlen, Nat.mul_div_cancel' heven, Nat.mod_self]
  have hhead : q₁.pidx_head0 = 0 := by rw [hP.head_eq, hzero]
  have hlen₁ : q₁.len = 0 := by rw [RxQueue.len_of_tail_zero hP.tail_eq, hhead]
  obtain ⟨q₂, hq₂, -, -, -, -, hchains₂, haddr₂, -⟩ := RxQueue.enqueue_two hc
    (by rw [hlen₁, hP.capacity_eq]; omega) (by rw [hP.refill_eq, hzero, hP.capacity_eq]; omega)
  obtain ⟨c₀, rest, rfl⟩ : ∃ c₀ rest, chains = c₀ :: rest :=
    List.exists_cons_of_length_pos (by rw [hlen]; omega)
  have hfirst : q₁.inflight_chains.head? = some (0, c₀) := hP.head?_eq
  refine ⟨q₁, hrun, ?_, hlen₁, ?_, q₂, c₀, rest, hq₂, rfl, ?_, hP.first_posted c₀ rfl, ?_⟩
  · rw [← List.length_map Prod.snd, hP.chains_eq, hlen]
  · simp [RxQueue.is_empty, hP.tail_eq, hhead]
  · rw [hchains₂, List.head?_append_of_ne_nil _ (fun h => by simp [h] at hfirst), hfirst]
  · rwa [hP.refill_eq, hzero] at haddr₂

/-- The ring of 32 descriptors filled by sixteen chains reads as empty, and a seventeenth
chain is taken. -/
theorem rx_full_ring_thirty_two :
    ∃ q₁ os q₂, Sim.runImpl RxQueue.enqueue
        ⟨⟨List.replicate 32 default, VMXNET3_INIT_GEN, 0⟩,
          ⟨List.replicate 32 default, VMXNET3_INIT_GEN⟩, 0, 0, []⟩
        ((List.range 16).map fun k => ⟨[⟨2 * k * 4096, 2048⟩, ⟨(2 * k + 1) * 4096, 2048⟩], 0⟩) =
          .ok (q₁, os) ∧
      q₁.is_empty = true ∧ q₁.inflight_chains.length = 16 ∧
      q₁.enqueue ⟨[⟨32 * 4096, 2048⟩, ⟨33 * 4096, 2048⟩], 0⟩ = .ok (q₂, .ok ()) := by
  obtain ⟨q₁, hrun, hlen, -, hempty, q₂, -, -, hq₂, -⟩ :=
    rx_full_ring_reads_empty_and_reposts (show VMXNET3_MIN_RX_NDESC ≤ 32 by decide) (by decide)
      (show (RxQueue.new 32).run Allocator.unlimited = .ok (.ok
        ⟨⟨List.replicate 32 default, VMXNET3_INIT_GEN, 0⟩,
          ⟨List.replicate 32 default, VMXNET3_INIT_GEN⟩, 0, 0, []⟩, Allocator.unlimited) from rfl)
      ((List.range 16).map fun k => ⟨[⟨2 * k * 4096, 2048⟩, ⟨(2 * k + 1) * 4096, 2048⟩], 0⟩)
      (by decide) (by decide) ⟨[⟨32 * 4096, 2048⟩, ⟨33 * 4096, 2048⟩], 0⟩ (by decide)
  exact ⟨q₁, _, q₂, hrun, hempty, hlen, hq₂⟩

end Nrk.Vmxnet3
