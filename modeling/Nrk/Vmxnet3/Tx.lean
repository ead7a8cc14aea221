import Nrk.Lib.Simulation
import Nrk.Vmxnet3.Basic

/-! # The vmxnet3 transmit queue (`lib/vmxnet3/src/var.rs`, `TxQueue`) and the device

The driver, and a device that follows the contract the driver is written against. -/

namespace Nrk.Vmxnet3

/-! ## Descriptors and rings -/

/-- The interrupt flag of a chain that `enqueue` copies into the last descriptor. -/
def IPI_TX_INTR : ℕ := 0x1

/-- `vmxnet3_txdesc`: the buffer and the bits of a transmit descriptor that the device reads.
All zero by default. -/
structure Vmxnet3Txdesc where
  addr : ℕ
  len : ℕ
  gen : ℕ
  eop : ℕ
  compreq : ℕ
  deriving DecidableEq, Repr, Inhabited

namespace Vmxnet3Txdesc

/-- The setters of the bitfields: `len` is 14 bits wide, `gen`, `eop` and `compreq` one bit
each. -/
def set_len (d : Vmxnet3Txdesc) (val : ℕ) : Vmxnet3Txdesc := { d with len := val % 2 ^ 14 }

def set_gen (d : Vmxnet3Txdesc) (val : ℕ) : Vmxnet3Txdesc := { d with gen := val % 2 }

def set_eop (d : Vmxnet3Txdesc) (val : ℕ) : Vmxnet3Txdesc := { d with eop := val % 2 }

def set_compreq (d : Vmxnet3Txdesc) (val : ℕ) : Vmxnet3Txdesc := { d with compreq := val % 2 }

/-- The writes of `enqueue` to the descriptor of segment `seg`, with generation `gen`. The last
segment's descriptor also gets `eop` and asks for a completion interrupt when the chain's
flags do. -/
def post (d : Vmxnet3Txdesc) (seg : IOBuf) (gen : ℕ) (last : Bool) (flags : ℕ) :
    Vmxnet3Txdesc :=
  let d := ((({ d with addr := seg.paddr }.set_len seg.len).set_gen gen).set_eop 0).set_compreq 0
  if last then (d.set_eop 1).set_compreq (flags &&& IPI_TX_INTR) else d

end Vmxnet3Txdesc

/-- `vmxnet3_txcompdesc`: the index of the last descriptor of a packet sent, and the
generation. All zero by default. -/
structure Vmxnet3Txcompdesc where
  eop_idx : ℕ
  gen : ℕ
  deriving DecidableEq, Repr, Inhabited

/-- `vmxnet3_txring`: the generation of the driver's lap and the descriptors. -/
structure Vmxnet3Txring where
  vxtxr_gen : ℕ
  vxtxr_txd : List Vmxnet3Txdesc
  deriving DecidableEq, Repr

def Vmxnet3Txring.vxtxr_ndesc (r : Vmxnet3Txring) : ℕ := r.vxtxr_txd.length

def Vmxnet3Txring.new (vxtxr_ndesc : ℕ) : AllocM (Except VMXNet3Error Vmxnet3Txring) := do
  match ← descriptors_new default vxtxr_ndesc with
  | .ok vxtxr_txd => return .ok ⟨VMXNET3_INIT_GEN, vxtxr_txd⟩
  | .error e => return .error e

/-- `vmxnet3_txcomp_ring`: the completions, where the driver reads next, and the generation of
the lap it reads. -/
structure Vmxnet3TxcompRing where
  vxcr : List Vmxnet3Txcompdesc
  vxcr_next : ℕ
  vxcr_gen : ℕ
  deriving DecidableEq, Repr

def Vmxnet3TxcompRing.vxcr_ndesc (r : Vmxnet3TxcompRing) : ℕ := r.vxcr.length

def Vmxnet3TxcompRing.new (ndesc : ℕ) : AllocM (Except VMXNet3Error Vmxnet3TxcompRing) := do
  match ← descriptors_new default ndesc with
  | .ok vxcr => return .ok ⟨vxcr, 0, VMXNET3_INIT_GEN⟩
  | .error e => return .error e

/-! ## The queue -/

/-- `TxQueue`: the last head given to the device, the two rings, the cursors, the chains sent
and not yet reported, each with the index of its last descriptor, and the chains reported and
not yet dequeued. -/
structure TxQueue where
  vxtxq_last_flush : ℤ
  vxtxq_cmd_ring : Vmxnet3Txring
  vxtxq_comp_ring : Vmxnet3TxcompRing
  pidx_tail : ℕ
  pidx_head : ℕ
  inflight_chains : List (ℕ × IOBufChain)
  processed_chains : List IOBufChain
  deriving DecidableEq, Repr

/-- `count(tail, head, size)`: `head.wrapping_sub(tail) & (size - 1)`, the entries from `tail`
to `head` on a ring whose size is a power of two. -/
def count (tail head size : ℕ) : ℕ :=
  (head + 2 ^ USIZE_BITS - tail) % 2 ^ USIZE_BITS &&& (size - 1)

namespace TxQueue

/-- `TxQueue::new`: both rings and both deques are sized by the bounded count. -/
def new (ndesc : ℕ) : AllocM (Except VMXNet3Error TxQueue) := do
  let vxtxr_ndesc := BoundedUSize.new VMXNET3_MIN_TX_NDESC VMXNET3_MAX_TX_NDESC ndesc
  -- `inflight_chains` and `processed_chains`
  if !(← try_reserve_exact vxtxr_ndesc) then return .error .OutOfMemory1
  else if !(← try_reserve_exact vxtxr_ndesc) then return .error .OutOfMemory1
  else
    match ← Vmxnet3Txring.new vxtxr_ndesc with
    | .error e => return .error e
    | .ok cmd_ring =>
        match ← Vmxnet3TxcompRing.new vxtxr_ndesc with
        | .error e => return .error e
        | .ok comp_ring => return .ok ⟨-1, cmd_ring, comp_ring, 0, 0, [], []⟩

/-- `len`: `count` of the two cursors, after a `debug_assert!` that the ring's size is a power
of two. -/
def len (q : TxQueue) : Outcome ℕ :=
  let size := q.vxtxq_cmd_ring.vxtxr_ndesc
  if size.isPowerOfTwo then .ok (count q.pidx_tail q.pidx_head size) else .panic

def capacity (q : TxQueue) : ℕ := q.vxtxq_cmd_ring.vxtxr_ndesc

def is_full (q : TxQueue) : Outcome Bool := do
  return (← Outcome.checkedSub q.capacity (← q.len)) == 1

def is_empty (q : TxQueue) : Bool := q.pidx_tail == q.pidx_head

/-- The loop of `enqueue` over the segments: each goes on the descriptor at `head`, which moves
on and wraps to 0 at the end of the ring, where the ring's generation flips. The first is
written with `gen`, each later one with the ring's generation at that point. A full ring
(`is_full()`, inlined), an index past the descriptors or a length that does not fit a `u32`
panics. -/
def post_segments (ndesc tail flags : ℕ) :
    List IOBuf → Vmxnet3Txring → ℕ → ℕ → Outcome (Vmxnet3Txring × ℕ)
  | [], txr, head, _ => .ok (txr, head)
  | seg :: segs, txr, head, gen => do
      if (← Outcome.checkedSub ndesc (count tail head ndesc)) = 1 then .panic
      else
        match txr.vxtxr_txd[head]? with
        | none => .panic
        | some d =>
            if 2 ^ 32 ≤ seg.len then .panic
            else
              let next := advance ndesc head txr.vxtxr_gen
              post_segments ndesc tail flags segs
                ⟨next.2, txr.vxtxr_txd.set head (d.post seg gen segs.isEmpty flags)⟩
                next.1 next.2

/-- `enqueue`: more than `VMXNET3_TX_MAXSEGS` segments fail the `assert!`, and a chain that
does not fit is handed back. The first descriptor is written with the generation the device
does not expect and flipped after the others; the chain is recorded with
`pidx_head.wrapping_sub(1) % ndesc`. -/
def enqueue (q : TxQueue) (chain : IOBufChain) : Outcome (TxQueue × Except IOBufChain Unit) := do
  if VMXNET3_TX_MAXSEGS < chain.segments.length then .panic
  else if (← Outcome.checkedSub (← Outcome.checkedSub q.capacity 1) (← q.len)) <
      chain.segments.length then
    return (q, .error chain)
  else
    let old_head := q.pidx_head
    let ndesc := q.vxtxq_cmd_ring.vxtxr_ndesc
    let (txr, head) ← post_segments ndesc q.pidx_tail chain.flags chain.segments
      q.vxtxq_cmd_ring q.pidx_head (q.vxtxq_cmd_ring.vxtxr_gen ^^^ 1)
    match txr.vxtxr_txd[old_head]? with
    | none => .panic
    | some sop =>
        -- `ndesc` is not 0 here: `len` asserted it is a power of two
        return ({ q with
          vxtxq_cmd_ring := { txr with
            vxtxr_txd := txr.vxtxr_txd.set old_head (sop.set_gen (sop.gen ^^^ 1)) }
          pidx_head := head
          inflight_chains := q.inflight_chains ++
            [((head + 2 ^ USIZE_BITS - 1) % 2 ^ USIZE_BITS % ndesc, chain)] }, .ok ())

/-- `flush`: the head is given to the device (a register write, left out) unless it was the
last one given; `pidx_head as i32` is kept in `vxtxq_last_flush`. -/
def flush (q : TxQueue) : TxQueue × Except DevQueueError ℕ :=
  if q.vxtxq_last_flush = (q.pidx_head : ℤ).bmod (2 ^ 32) then (q, .ok 0)
  else ({ q with vxtxq_last_flush := (q.pidx_head : ℤ).bmod (2 ^ 32) }, .ok 0)

def can_enqueue (q : TxQueue) (how_many_seg : ℕ) : Outcome Bool := do
  return decide (how_many_seg < (← Outcome.checkedSub q.capacity (← q.len)))

/-- The loop of `can_dequeue`: each completion of the lap's generation at `vxcr_next` retires
the oldest chain in flight, whose recorded index must be the completion's `eop_idx`
(`assert_eq!`), moves it to `processed_chains` and the tail past it. Without `exact` it stops
after one. Every turn that goes on takes a chain off `inflight_chains`, so `fuel` one more than
their number is never used up. -/
def process_completions (exact : Bool) : ℕ → TxQueue → ℕ → Outcome (TxQueue × ℕ)
  | 0, q, processed => .ok (q, processed)
  | fuel + 1, q, processed =>
      let txc := q.vxtxq_comp_ring
      match txc.vxcr[txc.vxcr_next]? with
      | none => .panic
      | some txcd =>
          if txcd.gen ≠ txc.vxcr_gen then .ok (q, processed)
          else
            let next := advance txc.vxcr_ndesc txc.vxcr_next txc.vxcr_gen
            match q.inflight_chains with
            | [] => .panic
            | (chain_eop_idx, buf_chain) :: inflight_chains =>
                if chain_eop_idx ≠ txcd.eop_idx then .panic
                else
                  let q := { q with
                    vxtxq_comp_ring := { txc with vxcr_next := next.1, vxcr_gen := next.2 }
                    inflight_chains := inflight_chains
                    processed_chains := q.processed_chains ++ [buf_chain]
                    pidx_tail := (txcd.eop_idx + 1) % q.vxtxq_cmd_ring.vxtxr_ndesc }
                  if exact then process_completions exact fuel q (processed + 1)
                  else .ok (q, processed + 1)

/-- `can_dequeue(exact)`: the number of chains the device reported as sent, now waiting in
`processed_chains`. -/
def can_dequeue (q : TxQueue) (exact : Bool) : Outcome (TxQueue × ℕ) :=
  process_completions exact (q.inflight_chains.length + 1) q 0

/-- `dequeue`: the oldest chain reported as sent. `can_dequeue(false)` runs only when no chain
is waiting already (`||`), and a chain must then be waiting (`debug_assert!`). -/
def dequeue (q : TxQueue) : Outcome (TxQueue × Except DevQueueError IOBufChain) := do
  let (q, ready) ←
    if !q.processed_chains.isEmpty then pure (q, true)
    else do
      let (q, processed) ← q.can_dequeue false
      pure (q, decide (1 ≤ processed))
  if ready then
    match q.processed_chains with
    | [] => .panic
    | chain :: processed_chains => return ({ q with processed_chains := processed_chains }, .ok chain)
  else return (q, .error .QueueEmpty)

end TxQueue

/-! ## The device -/

/-- The device's side of the rings: where it reads next and the generation it expects there,
where its next completion goes and with which generation, and the packets it has sent, each
as the buffers of its descriptors. -/
structure TxDevice where
  cursor : ℕ
  gen : ℕ
  comp_next : ℕ
  comp_gen : ℕ
  sent : List (List IOBuf)
  deriving DecidableEq, Repr

/-- The device after reset, in the first lap of both rings. -/
def TxDevice.init : TxDevice := ⟨0, VMXNET3_INIT_GEN, 0, VMXNET3_INIT_GEN, []⟩

/-- The descriptors of one packet from `idx` on, up to the first with `eop`, reading at most
`fuel` of them: their buffers, the index of the last, and the cursor and generation after
it. -/
def read_packet (txd : List Vmxnet3Txdesc) : ℕ → ℕ → ℕ → Option (List IOBuf × ℕ × ℕ × ℕ)
  | 0, _, _ => none
  | fuel + 1, idx, gen =>
      match txd[idx]? with
      | none => none
      | some d =>
          let next := advance txd.length idx gen
          if d.eop = 1 then some ([⟨d.addr, d.len⟩], idx, next.1, next.2)
          else (read_packet txd fuel next.1 next.2).map
            fun (segs, last, cursor, gen) => (⟨d.addr, d.len⟩ :: segs, last, cursor, gen)

/-- One packet sent by the device, when the descriptor at its cursor carries the generation it
expects and a descriptor with `eop` follows within the ring; the completion is written on the
queue's completion ring. -/
def TxDevice.step (dev : TxDevice) (q : TxQueue) : Option (TxDevice × TxQueue) :=
  let txd := q.vxtxq_cmd_ring.vxtxr_txd
  let txc := q.vxtxq_comp_ring
  match txd[dev.cursor]? with
  | none => none
  | some sop =>
      if sop.gen ≠ dev.gen then none
      else
        match read_packet txd txd.length dev.cursor dev.gen with
        | none => none
        | some (segs, last, cursor, gen) =>
            if txc.vxcr.length ≤ dev.comp_next then none
            else
              let next := advance txc.vxcr.length dev.comp_next dev.comp_gen
              some (⟨cursor, gen, next.1, next.2, dev.sent ++ [segs]⟩,
                { q with vxtxq_comp_ring := { txc with
                    vxcr := txc.vxcr.set dev.comp_next ⟨last, dev.comp_gen⟩ } })

/-! ## The driver and the device together -/

/-- What happens next: a call of the driver, or a step of the device. -/
inductive TxCall where
  | enqueue (chain : IOBufChain)
  | can_enqueue (how_many_seg : ℕ)
  | flush
  | can_dequeue (exact : Bool)
  | dequeue
  | device

/-- What a call returns; for the device, whether it sent a packet. -/
inductive TxReply where
  | enqueued (r : Except IOBufChain Unit)
  | room (b : Bool)
  | flushed (r : Except DevQueueError ℕ)
  | processed (n : ℕ)
  | dequeued (r : Except DevQueueError IOBufChain)
  | sent (b : Bool)
  deriving DecidableEq, Repr

/-- One call or device step on the queue and the device. The device does nothing when it has
no packet to send. -/
def tx_step (s : TxQueue × TxDevice) : TxCall → Outcome ((TxQueue × TxDevice) × TxReply)
  | .enqueue chain => do
      let (q, r) ← s.1.enqueue chain
      return ((q, s.2), .enqueued r)
  | .can_enqueue n => do
      let b ← s.1.can_enqueue n
      return (s, .room b)
  | .flush => .ok ((s.1.flush.1, s.2), .flushed s.1.flush.2)
  | .can_dequeue exact => do
      let (q, n) ← s.1.can_dequeue exact
      return ((q, s.2), .processed n)
  | .dequeue => do
      let (q, r) ← s.1.dequeue
      return ((q, s.2), .dequeued r)
  | .device =>
      match s.2.step s.1 with
      | none => .ok (s, .sent false)
      | some (dev, q) => .ok ((q, dev), .sent true)

/-! ## A new queue -/

theorem Vmxnet3Txring.run_new {n : ℕ} {a a' : Allocator} {r : Vmxnet3Txring}
    (h : (Vmxnet3Txring.new n).run a = .ok (.ok r, a')) :
    r = ⟨VMXNET3_INIT_GEN, List.replicate n default⟩ := by
  rw [Vmxnet3Txring.new, AllocM.run_bind_eq_ok] at h
  obtain ⟨_ | txd, a₁, htxd, h⟩ := h
  · simp at h
  simp only [StateT.run_pure, Outcome.pure_eq, Outcome.ok.injEq, Prod.mk.injEq,
    Except.ok.injEq] at h
  rw [← h.1, run_descriptors_new htxd]

theorem Vmxnet3TxcompRing.run_new {n : ℕ} {a a' : Allocator} {r : Vmxnet3TxcompRing}
    (h : (Vmxnet3TxcompRing.new n).run a = .ok (.ok r, a')) :
    r = ⟨List.replicate n default, 0, VMXNET3_INIT_GEN⟩ := by
  rw [Vmxnet3TxcompRing.new, AllocM.run_bind_eq_ok] at h
  obtain ⟨_ | vxcr, a₁, hvxcr, h⟩ := h
  · simp at h
  simp only [StateT.run_pure, Outcome.pure_eq, Outcome.ok.injEq, Prod.mk.injEq,
    Except.ok.injEq] at h
  rw [← h.1, run_descriptors_new hvxcr]

/-- A queue that `new` returns: both rings of the bounded size, all descriptors zero, both in
the first lap, and nothing in flight. -/
theorem TxQueue.run_new {ndesc : ℕ} {a a' : Allocator} {q : TxQueue}
    (h : (TxQueue.new ndesc).run a = .ok (.ok q, a')) :
    q = ⟨-1, ⟨VMXNET3_INIT_GEN,
      List.replicate (BoundedUSize.new VMXNET3_MIN_TX_NDESC VMXNET3_MAX_TX_NDESC ndesc) default⟩,
      ⟨List.replicate (BoundedUSize.new VMXNET3_MIN_TX_NDESC VMXNET3_MAX_TX_NDESC ndesc) default,
        0, VMXNET3_INIT_GEN⟩, 0, 0, [], []⟩ := by
  rw [TxQueue.new, AllocM.run_bind_eq_ok] at h
  -- the two deques of chains
  obtain ⟨_ | _, a₁, -, h⟩ := h
  · simp at h
  simp only [Bool.not_true, Bool.false_eq_true, if_false, AllocM.run_bind_eq_ok] at h
  obtain ⟨_ | _, a₂, -, h⟩ := h
  · simp at h
  simp only [Bool.not_true, Bool.false_eq_true, if_false, AllocM.run_bind_eq_ok] at h
  -- the command ring and the completion ring
  obtain ⟨_ | cmd_ring, a₃, hcmd, h⟩ := h
  · simp at h
  simp only [AllocM.run_bind_eq_ok] at h
  obtain ⟨_ | comp_ring, a₄, hcomp, h⟩ := h
  · simp at h
  simp only [StateT.run_pure, Outcome.pure_eq, Outcome.ok.injEq, Prod.mk.injEq,
    Except.ok.injEq] at h
  rw [← h.1, Vmxnet3Txring.run_new hcmd, Vmxnet3TxcompRing.run_new hcomp]

/-! ## What the calls do -/

namespace TxQueue

theorem count_self (t size : ℕ) : count t t size = 0 := by
  simp [count]

theorem len_eq_ok {q : TxQueue} {l : ℕ} :
    q.len = .ok l ↔ q.capacity.isPowerOfTwo ∧ count q.pidx_tail q.pidx_head q.capacity = l := by
  simp only [len, capacity]
  by_cases hpow : q.vxtxq_cmd_ring.vxtxr_ndesc.isPowerOfTwo <;> simp [hpow]

theorem len_of_eq {q : TxQueue} (hpow : q.capacity.isPowerOfTwo)
    (h : q.pidx_head = q.pidx_tail) : q.len = .ok 0 :=
  len_eq_ok.mpr ⟨hpow, by rw [h, count_self]⟩

/-- `enqueue` of a chain with no segments: no descriptor is written, but the generation of the
descriptor at the head is flipped, and the chain is recorded with the index before the head. -/
theorem enqueue_nil {q : TxQueue} {c : IOBufChain} {l : ℕ} (hc : c.segments = [])
    (hlen : q.len = .ok l) (hl : l < q.capacity) {sop : Vmxnet3Txdesc}
    (hsop : q.vxtxq_cmd_ring.vxtxr_txd[q.pidx_head]? = some sop) :
    q.enqueue c = .ok ({ q with
      vxtxq_cmd_ring := { q.vxtxq_cmd_ring with
        vxtxr_txd := q.vxtxq_cmd_ring.vxtxr_txd.set q.pidx_head (sop.set_gen (sop.gen ^^^ 1)) }
      inflight_chains := q.inflight_chains ++
        [((q.pidx_head + 2 ^ USIZE_BITS - 1) % 2 ^ USIZE_BITS % q.capacity, c)] }, .ok ()) := by
  simp only [enqueue, hc, List.length_nil, Nat.not_lt_zero, if_false,
    Outcome.checkedSub_of_le (show 1 ≤ q.capacity by omega), Outcome.ok_bind, hlen,
    Outcome.checkedSub_of_le (show l ≤ q.capacity - 1 by omega), post_segments, hsop]
  rfl

/-- `enqueue` of a chain with one segment, with room for it: the segment goes on the descriptor
at the head with `eop`, that descriptor's generation is flipped to the ring's, the head moves
one on, and the chain is recorded with the index before the new head. -/
theorem enqueue_single {q : TxQueue} {c : IOBufChain} {seg : IOBuf} {l : ℕ}
    (hc : c.segments = [seg]) (hseg : seg.len < 2 ^ 32) (hlen : q.len = .ok l)
    (hl : l + 1 < q.capacity) {d : Vmxnet3Txdesc}
    (hd : q.vxtxq_cmd_ring.vxtxr_txd[q.pidx_head]? = some d) :
    q.enqueue c = .ok ({ q with
      vxtxq_cmd_ring := ⟨(advance q.capacity q.pidx_head q.vxtxq_cmd_ring.vxtxr_gen).2,
        q.vxtxq_cmd_ring.vxtxr_txd.set q.pidx_head
          ((d.post seg (q.vxtxq_cmd_ring.vxtxr_gen ^^^ 1) true c.flags).set_gen
            ((d.post seg (q.vxtxq_cmd_ring.vxtxr_gen ^^^ 1) true c.flags).gen ^^^ 1))⟩
      pidx_head := (advance q.capacity q.pidx_head q.vxtxq_cmd_ring.vxtxr_gen).1
      inflight_chains := q.inflight_chains ++
        [(((advance q.capacity q.pidx_head q.vxtxq_cmd_ring.vxtxr_gen).1 + 2 ^ USIZE_BITS - 1) %
          2 ^ USIZE_BITS % q.capacity, c)] }, .ok ()) := by
  obtain ⟨-, hcount⟩ := len_eq_ok.mp hlen
  have hhead : q.pidx_head < q.vxtxq_cmd_ring.vxtxr_txd.length :=
    (List.getElem?_eq_some_iff.mp hd).1
  -- the inlined `is_full()` of the loop does not fire
  have hfull : Outcome.checkedSub q.capacity (count q.pidx_tail q.pidx_head q.capacity) =
      .ok (q.capacity - l) := by
    rw [hcount, Outcome.checkedSub_of_le (by omega)]
  have hnot_full : q.capacity - l ≠ 1 := by omega
  simp only [enqueue, hc, List.length_singleton, show ¬ VMXNET3_TX_MAXSEGS < 1 by decide,
    if_false, Outcome.checkedSub_of_le (show 1 ≤ q.capacity by omega), Outcome.ok_bind, hlen,
    Outcome.checkedSub_of_le (show l ≤ q.capacity - 1 by omega),
    show ¬ q.capacity - 1 - l < 1 by omega, post_segments]
  rw [show q.vxtxq_cmd_ring.vxtxr_ndesc = q.capacity from rfl, hfull]
  simp only [Outcome.ok_bind, hnot_full, if_false, hd, Nat.not_le.mpr hseg, List.isEmpty_nil,
    List.getElem?_set_self hhead, List.set_set]
  rfl

/-- A completion of the lap's generation whose index is not the one recorded for the oldest
chain in flight: `can_dequeue` panics. -/
theorem can_dequeue_of_mismatch {q : TxQueue} {txcd : Vmxnet3Txcompdesc}
    (hcd : q.vxtxq_comp_ring.vxcr[q.vxtxq_comp_ring.vxcr_next]? = some txcd)
    (hgen : txcd.gen = q.vxtxq_comp_ring.vxcr_gen) {r : ℕ} {c : IOBufChain}
    (hin : q.inflight_chains.head? = some (r, c)) (hne : r ≠ txcd.eop_idx) (exact : Bool) :
    q.can_dequeue exact = .panic := by
  obtain ⟨rest, hrest⟩ := List.head?_eq_some_iff.mp hin
  simp [can_dequeue, process_completions, hcd, hgen, hrest, hne]

end TxQueue

theorem read_packet_of_eop {txd : List Vmxnet3Txdesc} {fuel idx gen : ℕ} {d : Vmxnet3Txdesc}
    (hfuel : 0 < fuel) (hd : txd[idx]? = some d) (heop : d.eop = 1) :
    read_packet txd fuel idx gen =
      some ([⟨d.addr, d.len⟩], idx, (advance txd.length idx gen).1,
        (advance txd.length idx gen).2) := by
  obtain ⟨fuel, rfl⟩ := Nat.exists_eq_add_one_of_ne_zero hfuel.ne'
  simp [read_packet, hd, heop]

/-- The device sends a one-descriptor packet at its cursor, when that descriptor carries the
generation it expects: the completion records the cursor, and both of the device's cursors
move one on. -/
theorem TxDevice.step_of_eop {dev : TxDevice} {q : TxQueue} {d : Vmxnet3Txdesc}
    (hd : q.vxtxq_cmd_ring.vxtxr_txd[dev.cursor]? = some d) (hgen : d.gen = dev.gen)
    (heop : d.eop = 1) (hcomp : dev.comp_next < q.vxtxq_comp_ring.vxcr.length) :
    dev.step q = some (⟨(advance q.vxtxq_cmd_ring.vxtxr_txd.length dev.cursor dev.gen).1,
        (advance q.vxtxq_cmd_ring.vxtxr_txd.length dev.cursor dev.gen).2,
        (advance q.vxtxq_comp_ring.vxcr.length dev.comp_next dev.comp_gen).1,
        (advance q.vxtxq_comp_ring.vxcr.length dev.comp_next dev.comp_gen).2,
        dev.sent ++ [[⟨d.addr, d.len⟩]]⟩,
      { q with vxtxq_comp_ring := { q.vxtxq_comp_ring with
          vxcr := q.vxtxq_comp_ring.vxcr.set dev.comp_next ⟨dev.cursor, dev.comp_gen⟩ } }) := by
  have hpos : 0 < q.vxtxq_cmd_ring.vxtxr_txd.length :=
    Nat.lt_of_le_of_lt (Nat.zero_le _) (List.getElem?_eq_some_iff.mp hd).1
  simp [TxDevice.step, hd, hgen, read_packet_of_eop hpos hd heop, Nat.not_le.mpr hcomp]

/-! ## An empty chain -/

/-- On a new queue whose ring size is a power of two, a chain with no segments and then a chain
with one segment are both taken, and the device sends the one packet there is: its completion
carries the index of that packet's descriptor. The driver's `can_dequeue` then finds the empty
chain first in flight, recorded with another index, and panics. -/
theorem tx_empty_chain_breaks_completions {ndesc : ℕ} (hpow : ndesc.isPowerOfTwo)
    (hlo : VMXNET3_MIN_TX_NDESC ≤ ndesc) (hhi : ndesc ≤ VMXNET3_MAX_TX_NDESC)
    {a a' : Allocator} {q : TxQueue} (hnew : (TxQueue.new ndesc).run a = .ok (.ok q, a'))
    (c₀ c₁ : IOBufChain) (seg : IOBuf) (h₀ : c₀.segments = []) (h₁ : c₁.segments = [seg])
    (hseg : seg.len ≤ VMXNET3_TX_MAXSEGSIZE) (exact : Bool) :
    ∃ s, Sim.runImpl tx_step (q, TxDevice.init) [.enqueue c₀, .enqueue c₁, .device] =
        .ok (s, [.enqueued (.ok ()), .enqueued (.ok ()), .sent true]) ∧
      s.2.sent = [c₁.segments] ∧
      Sim.runImpl tx_step (q, TxDevice.init)
        [.enqueue c₀, .enqueue c₁, .device, .can_dequeue exact] = .panic := by
  have hq := TxQueue.run_new hnew
  rw [BoundedUSize.new_of_le hlo hhi] at hq
  have h32 : 32 ≤ ndesc := hlo
  have hseg' : seg.len < 2 ^ 14 := Nat.lt_of_le_of_lt hseg (by decide)
  have hcap : q.capacity = ndesc := by simp [hq, TxQueue.capacity, Vmxnet3Txring.vxtxr_ndesc]
  -- the empty chain: the head stays at 0 and descriptor 0's generation flips to 1
  have hlen₀ : q.len = .ok 0 := TxQueue.len_of_eq (hcap ▸ hpow) (by simp [hq])
  have hsop₀ : q.vxtxq_cmd_ring.vxtxr_txd[q.pidx_head]? = some default := by
    simp only [hq]
    rw [List.getElem?_replicate, if_pos (by omega)]
  obtain ⟨q₁, he₀, hq₁⟩ : ∃ q₁, q.enqueue c₀ = .ok (q₁, .ok ()) ∧ q₁ = _ :=
    ⟨_, TxQueue.enqueue_nil h₀ hlen₀ (by omega) hsop₀, rfl⟩
  -- the one-segment chain goes on descriptor 0 as well
  have hcap₁ : q₁.capacity = ndesc := by
    simp [hq₁, hq, TxQueue.capacity, Vmxnet3Txring.vxtxr_ndesc]
  have hlen₁ : q₁.len = .ok 0 := TxQueue.len_of_eq (hcap₁ ▸ hpow) (by simp [hq₁, hq])
  have hd₁ : q₁.vxtxq_cmd_ring.vxtxr_txd[q₁.pidx_head]? =
      some ((default : Vmxnet3Txdesc).set_gen (0 ^^^ 1)) := by
    simp only [hq₁, hq]
    rw [List.getElem?_set_self (by simp; omega)]
    rfl
  obtain ⟨q₂, he₁, hq₂⟩ : ∃ q₂, q₁.enqueue c₁ = .ok (q₂, .ok ()) ∧ q₂ = _ :=
    ⟨_, TxQueue.enqueue_single h₁ (by omega) hlen₁ (by omega) hd₁, rfl⟩
  -- the device sends it and reports descriptor 0
  have hd₂ : q₂.vxtxq_cmd_ring.vxtxr_txd[TxDevice.init.cursor]? =
      some ⟨seg.paddr, seg.len, 1, 1, (c₁.flags &&& IPI_TX_INTR) % 2⟩ := by
    simp only [hq₂, hq₁, hq, TxDevice.init]
    rw [List.getElem?_set_self (by simp; omega)]
    simp [Vmxnet3Txdesc.post, Vmxnet3Txdesc.set_gen, Vmxnet3Txdesc.set_eop,
      Vmxnet3Txdesc.set_compreq, Vmxnet3Txdesc.set_len, VMXNET3_INIT_GEN]
    exact hseg'
  obtain ⟨⟨dev₃, q₃⟩, hdev, hstep⟩ : ∃ p, TxDevice.init.step q₂ = some p ∧ p = _ :=
    ⟨_, TxDevice.step_of_eop hd₂ rfl rfl (by simp [hq₂, hq₁, hq, TxDevice.init]; omega), rfl⟩
  obtain ⟨hdev₃, hq₃⟩ := Prod.mk.inj hstep
  -- the empty chain was recorded with `(2 ^ 64 - 1) % ndesc`, not 0 on a ring of even size
  have hne : (0 + 2 ^ USIZE_BITS - 1) % 2 ^ USIZE_BITS % ndesc ≠ 0 := by
    obtain ⟨k, rfl⟩ := hpow
    have hk : k ≠ 0 := by
      rintro rfl
      simp at h32
    intro h
    have h2 : 2 ∣ (0 + 2 ^ USIZE_BITS - 1) % 2 ^ USIZE_BITS :=
      (dvd_pow_self 2 hk).trans (Nat.dvd_of_mod_eq_zero h)
    exact absurd h2 (by decide)
  -- the device's completion for descriptor 0 meets the empty chain
  have hcd : q₃.vxtxq_comp_ring.vxcr[q₃.vxtxq_comp_ring.vxcr_next]? =
      some ⟨0, VMXNET3_INIT_GEN⟩ := by
    simp only [hq₃, hq₂, hq₁, hq, TxDevice.init]
    rw [List.getElem?_set_self (by simp; omega)]
  have hgen : (⟨0, VMXNET3_INIT_GEN⟩ : Vmxnet3Txcompdesc).gen = q₃.vxtxq_comp_ring.vxcr_gen := by
    simp [hq₃, hq₂, hq₁, hq]
  have hin : q₃.inflight_chains.head? =
      some ((0 + 2 ^ USIZE_BITS - 1) % 2 ^ USIZE_BITS % ndesc, c₀) := by
    simp [hq₃, hq₂, hq₁, hq, TxQueue.capacity, Vmxnet3Txring.vxtxr_ndesc]
  have hpanic := TxQueue.can_dequeue_of_mismatch hcd hgen hin hne exact
  -- the run, step by step
  have hs₀ : tx_step (q, TxDevice.init) (.enqueue c₀) =
      .ok ((q₁, TxDevice.init), .enqueued (.ok ())) := by
    simp [tx_step, he₀]
  have hs₁ : tx_step (q₁, TxDevice.init) (.enqueue c₁) =
      .ok ((q₂, TxDevice.init), .enqueued (.ok ())) := by
    simp [tx_step, he₁]
  have hs₂ : tx_step (q₂, TxDevice.init) .device = .ok ((q₃, dev₃), .sent true) := by
    simp [tx_step, hdev]
  have hs₃ : tx_step (q₃, dev₃) (.can_dequeue exact) = .panic := by
    simp [tx_step, hpanic]
  refine ⟨(q₃, dev₃), Sim.runImpl_cons_of_ok hs₀ (Sim.runImpl_cons_of_ok hs₁
    (Sim.runImpl_cons_of_ok hs₂ rfl)), ?_, Sim.runImpl_cons_panic hs₀ (Sim.runImpl_cons_panic hs₁
    (Sim.runImpl_cons_panic hs₂ (Sim.runImpl_cons_of_panic hs₃)))⟩
  simp [hdev₃, TxDevice.init, h₁]

/-- On a new ring of 32 descriptors: an empty chain, a chain of one 1500-byte buffer, the
device's step, and `can_dequeue(true)` panics. -/
theorem tx_empty_chain_thirty_two :
    Sim.runImpl tx_step (⟨-1, ⟨VMXNET3_INIT_GEN, List.replicate 32 default⟩,
        ⟨List.replicate 32 default, 0, VMXNET3_INIT_GEN⟩, 0, 0, [], []⟩, TxDevice.init)
      [.enqueue ⟨[], 0⟩, .enqueue ⟨[⟨4096, 1500⟩], IPI_TX_INTR⟩, .device, .can_dequeue true] =
        .panic := by
  obtain ⟨-, -, -, hpanic⟩ := tx_empty_chain_breaks_completions
    (show (32 : ℕ).isPowerOfTwo by decide) (by decide) (by decide)
    (show (TxQueue.new 32).run Allocator.unlimited = .ok (.ok
      ⟨-1, ⟨VMXNET3_INIT_GEN, List.replicate 32 default⟩,
        ⟨List.replicate 32 default, 0, VMXNET3_INIT_GEN⟩, 0, 0, [], []⟩, Allocator.unlimited) from rfl)
    ⟨[], 0⟩ ⟨[⟨4096, 1500⟩], IPI_TX_INTR⟩ ⟨4096, 1500⟩ rfl rfl (by decide) true
  exact hpanic

end Nrk.Vmxnet3
