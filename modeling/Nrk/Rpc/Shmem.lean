import Nrk.Rpc.Tcp

/-! # The shared-memory transport (`lib/rpc/src/transport/shmem/transport.rs`, `mod.rs`)

Each message is one entry of the rpc `Queue`; a run of the two sides is a run of their attempts
that succeed. -/

namespace Nrk.Rpc

namespace ShmemTransport

/-- `max_send()`: `QUEUE_ENTRY_SIZE`. -/
def max_send : ℕ := QUEUE_ENTRY_SIZE

/-! ## The slices of each call -/

/-- What `send_msg` hands the queue: the header's bytes, then the payload slices, in an array of
seven that the loop fills from index 1, which panics at a seventh payload slice. -/
def send_msg_slices (hdr : RPCHeader) (payload : List (List UInt8)) :
    Outcome (List (List UInt8)) :=
  if payload.length + 1 ≤ 7 then .ok (hdr.bytes :: payload) else .panic

/-- What `send_mbuf` hands the queue: the header and `msg_len` bytes of data, a slice of
`as_bytes()` that panics past its end. -/
def send_mbuf_slices (mbuf : MBuf) : Outcome (List (List UInt8)) :=
  if HDR_LEN + mbuf.hdr.msg_len ≤ MAX_BUFF_LEN then
    .ok [mbuf.bytes.take (HDR_LEN + mbuf.hdr.msg_len)]
  else .panic

/-- What `recv_msg` hands the queue: the header's bytes alone for no payload buffers, else the
header's bytes and the payload buffers in an array of seven, which panics at a seventh. -/
def recv_msg_slices (hdr : RPCHeader) (payload : List (List UInt8)) :
    Outcome (List (List UInt8)) :=
  if payload = [] then .ok [hdr.bytes]
  else if payload.length + 1 ≤ 7 then .ok (hdr.bytes :: payload) else .panic

def send_slices : SendCall → Outcome (List (List UInt8))
  | .msg hdr payload => send_msg_slices hdr payload
  | .mbuf mbuf => send_mbuf_slices mbuf

/-- `recv_mbuf` hands the queue `mbuf.as_mut_bytes()`. -/
def recv_slices : RecvCall → Outcome (List (List UInt8))
  | .msg hdr payload => recv_msg_slices hdr payload
  | .mbuf mbuf => .ok [mbuf.bytes]

/-- The call's header and buffers once the dequeue has written `slices` into them: the first
slice is the header, or the whole `MBuf`, and the others are the payload buffers. -/
def stored : RecvCall → List (List UInt8) → RecvCall
  | .msg hdr _, slices => .msg (hdr.write 0 (slices.headD [])) slices.tail
  | .mbuf mbuf, slices => .mbuf (mbuf.write (slices.headD []))

/-- One enqueue of a send's slices (`Queue::enqueue`, as `try_send_msg` and `try_send_mbuf` make
it): whether the message went in. -/
def try_send (bd : Build) (tx : SeqRing.State Entry) (c : SendCall) :
    Outcome (SeqRing.State Entry × Bool) := do
  let slices ← send_slices c
  State.push bd tx slices

/-- One dequeue into a receive's slices (`Queue::dequeue`): the call's header and buffers once a
message came. -/
def try_recv (bd : Build) (rx : SeqRing.State Entry) (r : RecvCall) :
    Outcome (SeqRing.State Entry × Option RecvCall) := do
  let slices ← recv_slices r
  let (rx, res, slices) ← State.pop bd rx slices
  match res with
  | .ok _ => return (rx, some (stored r slices))
  | .error _ => return (rx, none)

/-! ## The slices -/

theorem send_slices_eq {c : SendCall} (hc : c.Framed max_send) :
    ∃ slices, send_slices c = .ok slices ∧ slices.flatten = c.wire := by
  cases c with
  | msg hdr payload =>
      refine ⟨hdr.bytes :: payload, if_pos (by have := hc.2.2; omega), ?_⟩
      simp [SendCall.wire, SendCall.hdr, SendCall.payload]
  | mbuf mbuf =>
      have hfit : HDR_LEN + mbuf.hdr.msg_len ≤ MAX_BUFF_LEN := hc
      refine ⟨[mbuf.bytes.take (HDR_LEN + mbuf.hdr.msg_len)], if_pos hfit, ?_⟩
      simp [SendCall.wire, SendCall.hdr, SendCall.payload, MBuf.take_bytes]

theorem recv_msg_slices_eq (hdr : RPCHeader) {payload : List (List UInt8)}
    (h : payload.length ≤ 6) : recv_msg_slices hdr payload = .ok (hdr.bytes :: payload) := by
  unfold recv_msg_slices
  split
  · next h0 => rw [h0]
  · exact if_pos (by omega)

/-- A message written across the header and the payload buffers of a `recv_msg` leaves its
delivery: the header is the sender's, the payload goes to the buffers. -/
theorem stored_fill_msg (c : SendCall) (hdr : RPCHeader) (payload : List (List UInt8)) :
    stored (.msg hdr payload) (fill c.wire (hdr.bytes :: payload)) =
      (RecvCall.msg hdr payload).deliver c := by
  have hge : hdr.bytes.length ≤ c.wire.length := by
    simp [SendCall.wire, hdr.length_bytes, c.hdr.length_bytes]
  rw [fill_cons_of_ge payload hge, hdr.length_bytes, SendCall.wire,
    List.take_left' c.hdr.length_bytes, List.drop_left' c.hdr.length_bytes]
  simp only [stored, List.headD_cons, List.tail_cons, RecvCall.deliver]
  simpa using RPCHeader.write_zero_append hdr c.hdr []

theorem stored_fill_mbuf {c : SendCall} (hc : c.Framed max_send) (m : MBuf) :
    stored (.mbuf m) (fill c.wire [m.bytes]) = (RecvCall.mbuf m).deliver c := by
  have hmax : max_send ≤ MAX_BUFF_LEN := le_rfl
  have hlen := SendCall.length_payload hc hmax
  have hfits := hc.fits
  have hfit : c.wire.length ≤ m.bytes.length := by
    rw [SendCall.length_wire hc hmax, m.length_bytes]
    exact hfits.trans hmax
  have hp : c.payload.length ≤ m.data.length := by
    rw [m.length_data, hlen]
    simp only [HDR_LEN, MAX_BUFF_LEN, max_send, QUEUE_ENTRY_SIZE] at hfits ⊢
    omega
  -- the data after the message's bytes is the data after its payload
  have hdrop : m.bytes.drop c.wire.length = m.data.drop c.payload.length := by
    rw [MBuf.bytes, SendCall.wire, List.length_append, c.hdr.length_bytes, ← m.hdr.length_bytes,
      List.drop_append]
    simp
  rw [fill_cons_of_le [] hfit]
  simp only [stored, List.headD_cons, RecvCall.deliver, RecvCall.mbuf.injEq]
  ext1
  · simp only [MBuf.write, SendCall.wire, List.append_assoc, RPCHeader.write_zero_append]
  · simp only [MBuf.write, SendCall.wire, List.append_assoc, List.drop_left' c.hdr.length_bytes]
    have hys : (c.payload ++ m.data.drop c.payload.length).length = m.data.length := by
      simp only [List.length_append, List.length_drop]
      omega
    rw [← SendCall.wire, hdrop, List.write_at_zero, List.write_at_zero, hys,
      List.take_of_length_le hys.le, List.drop_length, List.append_nil, List.take_of_length_le hp]

/-- A receive into at most six payload buffers hands the queue slices with room for the header
and its payload, and a message that fits in them, written across them, leaves its delivery. -/
theorem recv_slices_ok {r : RecvCall} (hr : r.bufs.length ≤ 6) :
    ∃ slices, recv_slices r = .ok slices ∧ (slices.map List.length).sum = HDR_LEN + r.room ∧
      ∀ {c : SendCall}, c.Framed max_send → stored r (fill c.wire slices) = r.deliver c := by
  cases r with
  | msg hdr payload =>
      refine ⟨hdr.bytes :: payload, recv_msg_slices_eq hdr hr, ?_, fun _ => stored_fill_msg _ _ _⟩
      simp [RecvCall.room, RecvCall.bufs, hdr.length_bytes]
  | mbuf m =>
      refine ⟨[m.bytes], rfl, ?_, fun hc => stored_fill_mbuf hc m⟩
      simp [RecvCall.room, RecvCall.bufs, m.length_bytes, m.length_data, HDR_LEN, MAX_BUFF_LEN]

/-! ## One attempt on a queue that holds a FIFO -/

section Attempts

variable {bd : Build} {n : ℕ} {s s' : SeqRing.State Entry} {cap : ℕ} {items : List (List UInt8)}

theorem push_of_step {values : List (List UInt8)} {ok : Bool}
    (h : step bd s (.enqueue values) = .ok (s', .enqueue ok)) :
    State.push bd s values = .ok (s', ok) := by
  rw [step, Outcome.bind_eq_ok] at h
  obtain ⟨⟨s₁, ok₁⟩, hpush, hret⟩ := h
  cases hret
  exact hpush

theorem pop_of_step {values values' : List (List UInt8)} {result : Except QueueError ℕ}
    (h : step bd s (.dequeue values) = .ok (s', .dequeue result values')) :
    State.pop bd s values = .ok (s', result, values') := by
  rw [step, Outcome.bind_eq_ok] at h
  obtain ⟨⟨s₁, result₁, values₁⟩, hpop, hret⟩ := h
  cases hret
  exact hpop

theorem push_send_slices {c : SendCall} (hc : c.Framed max_send) {slices : List (List UInt8)}
    (hflat : slices.flatten = c.wire) :
    State.push bd s slices =
      SeqRing.push bd USIZE_BITS (Entry.write (HDR_LEN + c.hdr.msg_len) slices) s := by
  have hsum : slices.foldl (fun acc x => acc + x.length) 0 = HDR_LEN + c.hdr.msg_len := by
    rw [List.foldl_add_length, Nat.zero_add, ← List.length_flatten, hflat,
      SendCall.length_wire hc le_rfl]
  have hfits : HDR_LEN + c.hdr.msg_len ≤ QUEUE_ENTRY_SIZE := hc.fits
  simp only [State.push, hsum]
  rw [if_pos hfits, if_neg (by simp [HDR_LEN])]

/-- A message that fits goes in when the FIFO has room, behind the messages already there. -/
theorem try_send_of_lt {c : SendCall} (hc : c.Framed max_send) (hR : Rel bd n s ⟨cap, items⟩)
    (hlt : items.length < cap) :
    ∃ s', try_send bd s c = .ok (s', true) ∧ Rel bd n s' ⟨cap, items ++ [c.wire]⟩ := by
  obtain ⟨slices, hslices, hflat⟩ := send_slices_eq hc
  have hsum : (slices.map List.length).sum = HDR_LEN + c.hdr.msg_len := by
    rw [← List.length_flatten, hflat, SendCall.length_wire hc le_rfl]
  have hfits : HDR_LEN + c.hdr.msg_len ≤ QUEUE_ENTRY_SIZE := hc.fits
  have hspec : spec ⟨cap, items⟩ (.enqueue slices) =
      some (⟨cap, items ++ [c.wire]⟩, .enqueue true) := by
    rw [spec, hsum, if_neg (by simp [HDR_LEN]), if_pos hfits, hflat,
      Memory.Queue.push_of_lt hlt]
  obtain ⟨s', hstep, hR'⟩ := enqueue_simulates hR hspec
  exact ⟨s', by rw [try_send, hslices, Outcome.ok_bind, push_of_step hstep], hR'⟩

/-- On a full FIFO the enqueue fails and leaves the queue as it is. -/
theorem try_send_of_full {c : SendCall} (hc : c.Framed max_send) (hR : Rel bd n s ⟨cap, items⟩)
    (hfull : cap ≤ items.length) : try_send bd s c = .ok (s, false) := by
  obtain ⟨e, D, hcap, h, hfit⟩ := hR
  obtain ⟨slices, hslices, hflat⟩ := send_slices_eq hc
  have hlen : items.length = 2 ^ e := by
    have hle := h.length_le
    simp only at hcap hle
    omega
  rw [try_send, hslices, Outcome.ok_bind, push_send_slices hc hflat,
    h.push_of_full (hfit.mono (by omega)) hlen]

/-- A receive into at most six payload buffers with room takes the oldest message, and leaves
its delivery. -/
theorem try_recv_of_cons {c : SendCall} {r : RecvCall} (hc : c.Framed max_send)
    (hroom : c.hdr.msg_len ≤ r.room) (hr : r.bufs.length ≤ 6)
    (hR : Rel bd (n + 1) s ⟨cap, c.wire :: items⟩) :
    ∃ s', try_recv bd s r = .ok (s', some (r.deliver c)) ∧ Rel bd n s' ⟨cap, items⟩ := by
  obtain ⟨slices, hslices, hsum, hstored⟩ := recv_slices_ok hr
  have hfit : c.wire.length ≤ (slices.map List.length).sum := by
    rw [hsum, SendCall.length_wire hc le_rfl]
    omega
  have hspec : spec ⟨cap, c.wire :: items⟩ (.dequeue slices) =
      some (⟨cap, items⟩, .dequeue (.ok c.wire.length) (fill c.wire slices)) := by
    rw [spec, if_neg (by simp [hsum, HDR_LEN])]
    simp only [Memory.Queue.pop, if_pos hfit]
  obtain ⟨s', hstep, hR'⟩ := dequeue_simulates hR hspec
  refine ⟨s', ?_, hR'⟩
  rw [try_recv, hslices, Outcome.ok_bind, pop_of_step hstep, Outcome.ok_bind]
  dsimp only
  rw [hstored hc]
  rfl

/-- On an empty FIFO a receive into at most six payload buffers gets nothing and leaves the queue
as it is. -/
theorem try_recv_of_nil {r : RecvCall} (hr : r.bufs.length ≤ 6) (hR : Rel bd n s ⟨cap, []⟩) :
    try_recv bd s r = .ok (s, none) := by
  obtain ⟨e, D, hcap, h, hfit⟩ := hR
  obtain ⟨slices, hslices, hsum, -⟩ := recv_slices_ok hr
  have hpop : SeqRing.pop bd USIZE_BITS (Entry.read slices (HDR_LEN + r.room)) s =
      .ok (s, none) := h.pop_nil (hfit.mono (by omega))
  have hlen : slices.foldl (fun acc x => acc + x.length) 0 = HDR_LEN + r.room := by
    rw [List.foldl_add_length, Nat.zero_add, hsum]
  rw [try_recv, hslices, Outcome.ok_bind]
  simp only [State.pop, hlen, if_neg (show HDR_LEN + r.room ≠ 0 by simp [HDR_LEN]), hpop]
  rfl

end Attempts

/-- A `recv_msg` into seven payload buffers or more fills the array of seven pointers past its
end. -/
theorem try_recv_of_seven_le (bd : Build) {s : SeqRing.State Entry} (hdr : RPCHeader)
    {payload : List (List UInt8)} (h : 7 ≤ payload.length) :
    try_recv bd s (.msg hdr payload) = .panic := by
  have hne : payload ≠ [] := List.ne_nil_of_length_pos (by omega)
  have hslices : recv_slices (.msg hdr payload) = .panic := by
    rw [recv_slices, recv_msg_slices, if_neg hne, if_neg (by omega)]
  rw [try_recv, hslices, Outcome.panic_bind]

theorem recv_msg_into_seven_buffers :
    (∃ s, (State.with_capacity .debug 2).run Allocator.unlimited =
        .ok (.ok s, Allocator.unlimited) ∧
      try_recv .debug s (.msg ⟨List.replicate 40 0, rfl⟩ (List.replicate 7 [])) = .panic) ∧
    ∃ s, (State.with_capacity .release 2).run Allocator.unlimited =
        .ok (.ok s, Allocator.unlimited) ∧
      try_recv .release s (.msg ⟨List.replicate 40 0, rfl⟩ (List.replicate 7 [])) = .panic :=
  ⟨⟨_, rfl, try_recv_of_seven_le _ _ (by simp)⟩, ⟨_, rfl, try_recv_of_seven_le _ _ (by simp)⟩⟩

/-! ## The two sides of a queue -/

/-- A queue, the sends one side has still to make, the receives the other side has still to
make, and what the receives made so far left in their buffers. -/
structure Sys where
  queue : SeqRing.State Entry
  sends : List SendCall
  recvs : List RecvCall
  got : List RecvCall

/-- An attempt that succeeds: the enqueue that ends `Sender::send`, or the dequeue that ends
`Receiver::recv`. -/
inductive Step (bd : Build) : Sys → Sys → Prop
  | send {queue queue' : SeqRing.State Entry} {c : SendCall} {sends : List SendCall}
      {recvs got : List RecvCall} (h : try_send bd queue c = .ok (queue', true)) :
      Step bd ⟨queue, c :: sends, recvs, got⟩ ⟨queue', sends, recvs, got⟩
  | recv {queue queue' : SeqRing.State Entry} {sends : List SendCall} {r r' : RecvCall}
      {recvs got : List RecvCall} (h : try_recv bd queue r = .ok (queue', some r')) :
      Step bd ⟨queue, sends, r :: recvs, got⟩ ⟨queue', sends, recvs, got ++ [r']⟩

theorem step_calls_lt {bd : Build} {st st' : Sys} (h : Step bd st st') :
    st'.sends.length + st'.recvs.length < st.sends.length + st.recvs.length := by
  cases h with
  | send => simp
  | recv => simp

/-- No run of the two sides is infinite. -/
theorem acc_step (bd : Build) (st : Sys) : Acc (Function.swap (Step bd)) st :=
  Subrelation.accessible (fun h => step_calls_lt h)
    ((InvImage.wf (fun st : Sys => st.sends.length + st.recvs.length) wellFounded_lt).apply st)

/-- After the first `got.length` receives: they left the deliveries of the first messages, the
others are still to make, and the queue holds, as a FIFO of capacity `cap`, the messages sent
and not yet received, with room for the receives still to make. -/
structure Inv (bd : Build) (cs : List SendCall) (rs : List RecvCall) (cap : ℕ) (st : Sys) :
    Prop where
  got_eq : st.got = delivered (cs.take st.got.length) (rs.take st.got.length)
  recvs_eq : st.recvs = rs.drop st.got.length
  queued : ∃ inflight, cs.drop st.got.length = inflight ++ st.sends ∧
    Rel bd st.recvs.length st.queue ⟨cap, inflight.map SendCall.wire⟩

section Run

variable {bd : Build} {cs : List SendCall} {rs : List RecvCall} {cap : ℕ} {st st' : Sys}

theorem Inv.init {queue : SeqRing.State Entry} (hq : Rel bd rs.length queue ⟨cap, []⟩) :
    Inv bd cs rs cap ⟨queue, cs, rs, []⟩ :=
  ⟨rfl, rfl, [], rfl, hq⟩

theorem Inv.mem_sends (hinv : Inv bd cs rs cap st) {c : SendCall} (hc : c ∈ st.sends) : c ∈ cs := by
  obtain ⟨inflight, hdrop, -⟩ := hinv.queued
  exact List.mem_of_mem_drop (hdrop ▸ List.mem_append_right inflight hc)

theorem rel_capacity_pos {n : ℕ} {s : SeqRing.State Entry} {items : List (List UInt8)}
    (hR : Rel bd n s ⟨cap, items⟩) : 0 < cap := by
  obtain ⟨e, D, hcap, -⟩ := hR
  simp only at hcap
  exact hcap ▸ Nat.two_pow_pos e

/-- What the next send does from a state of a run: it goes in behind the messages in flight
when the FIFO has room for it, and fails and leaves the queue as it is when it does not. -/
theorem Inv.try_send_cases (hcs : ∀ c ∈ cs, c.Framed max_send) (hinv : Inv bd cs rs cap st)
    {c : SendCall} {sends : List SendCall} (hsends : st.sends = c :: sends) :
    ∃ inflight, cs.drop st.got.length = inflight ++ st.sends ∧
      ((inflight.length < cap ∧ ∃ s', try_send bd st.queue c = .ok (s', true) ∧
          Rel bd st.recvs.length s' ⟨cap, (inflight ++ [c]).map SendCall.wire⟩) ∨
        (cap ≤ inflight.length ∧ try_send bd st.queue c = .ok (st.queue, false))) := by
  obtain ⟨inflight, hdrop, hR⟩ := hinv.queued
  have hc : c.Framed max_send := hcs c (hinv.mem_sends (hsends ▸ List.mem_cons_self))
  refine ⟨inflight, hdrop, ?_⟩
  rcases Nat.lt_or_ge inflight.length cap with hlt | hfull
  · obtain ⟨s', hsend, hR'⟩ := try_send_of_lt hc hR (by simpa using hlt)
    exact .inl ⟨hlt, s', hsend, by simpa using hR'⟩
  · exact .inr ⟨hfull, try_send_of_full hc hR (by simpa using hfull)⟩

/-- What the next receive does from a state of a run: with no message in flight it gets nothing
and leaves the queue as it is; otherwise it leaves the delivery of the oldest, which is the next
message to receive, and the queue holds the others. -/
theorem Inv.try_recv_cases (hcs : ∀ c ∈ cs, c.Framed max_send) (hroom : HasRoom cs rs)
    (hrs : ∀ r ∈ rs, r.bufs.length ≤ 6) (hinv : Inv bd cs rs cap st) {r : RecvCall}
    {recvs : List RecvCall} (hrecvs : st.recvs = r :: recvs) :
    (cs.drop st.got.length = st.sends ∧ try_recv bd st.queue r = .ok (st.queue, none)) ∨
      ∃ c rest s', cs.drop st.got.length = c :: (rest ++ st.sends) ∧
        try_recv bd st.queue r = .ok (s', some (r.deliver c)) ∧
        Rel bd recvs.length s' ⟨cap, rest.map SendCall.wire⟩ := by
  obtain ⟨inflight, hdrop, hR⟩ := hinv.queued
  rw [hrecvs, List.length_cons] at hR
  have hrecvs' : rs.drop st.got.length = r :: recvs := hinv.recvs_eq ▸ hrecvs
  have hr : r ∈ rs := by
    apply List.mem_of_mem_drop (i := st.got.length)
    rw [hrecvs']
    exact List.mem_cons_self
  cases inflight with
  | nil => exact .inl ⟨hdrop, try_recv_of_nil (hrs r hr) hR⟩
  | cons c rest =>
      -- the oldest message in flight is the next to receive, into buffers with room for it
      rw [List.cons_append] at hdrop
      have hc : c.Framed max_send := hcs c (List.mem_of_mem_drop (hdrop ▸ List.mem_cons_self))
      have hroom' : c.hdr.msg_len ≤ r.room := by
        have hnext := hroom.drop st.got.length
        rw [hdrop, hrecvs'] at hnext
        exact hnext.head
      obtain ⟨s', hrecv, hR'⟩ := try_recv_of_cons hc hroom' (hrs r hr) hR
      exact .inr ⟨c, rest, s', hdrop, hrecv, hR'⟩

theorem Inv.step (hcs : ∀ c ∈ cs, c.Framed max_send) (hroom : HasRoom cs rs)
    (hrs : ∀ r ∈ rs, r.bufs.length ≤ 6) (hinv : Inv bd cs rs cap st) (hstep : Step bd st st') :
    Inv bd cs rs cap st' := by
  cases hstep with
  | @send queue queue' c sends recvs got h =>
      obtain ⟨inflight, hdrop, ⟨-, s', hsend, hR'⟩ | ⟨-, hfail⟩⟩ := hinv.try_send_cases hcs rfl
      · -- the message went in behind those in flight
        rw [h, Outcome.ok.injEq, Prod.mk.injEq] at hsend
        obtain ⟨rfl, -⟩ := hsend
        exact ⟨hinv.got_eq, hinv.recvs_eq, inflight ++ [c], by simpa using hdrop, hR'⟩
      · rw [h] at hfail
        simp at hfail
  | @recv queue queue' sends r r' recvs got h =>
      obtain ⟨-, hnone⟩ | ⟨c, rest, s', hdrop, hrecv, hR'⟩ :=
        hinv.try_recv_cases hcs hroom hrs rfl
      · rw [h] at hnone
        simp at hnone
      · -- the receive took the oldest message in flight
        rw [h, Outcome.ok.injEq, Prod.mk.injEq, Option.some.injEq] at hrecv
        obtain ⟨rfl, rfl⟩ := hrecv
        have hrecvs : rs.drop got.length = r :: recvs := hinv.recvs_eq.symm
        refine ⟨?_, ?_, rest, ?_, hR'⟩
        · simp only [List.length_append, List.length_singleton]
          rw [delivered_take_add_one hdrop hrecvs, ← hinv.got_eq]
        · simp only [List.length_append, List.length_singleton]
          exact (List.drop_add_one_of_drop hrecvs).symm
        · simp only [List.length_append, List.length_singleton]
          exact List.drop_add_one_of_drop hdrop

theorem Inv.reachable (hcs : ∀ c ∈ cs, c.Framed max_send) (hroom : HasRoom cs rs)
    (hrs : ∀ r ∈ rs, r.bufs.length ≤ 6) {st₀ : Sys} (hinv : Inv bd cs rs cap st₀)
    (hreach : Relation.ReflTransGen (Step bd) st₀ st) : Inv bd cs rs cap st := by
  induction hreach with
  | refl => exact hinv
  | tail _ hstep ih => exact ih.step hcs hroom hrs hstep

theorem Inv.got_le (hinv : Inv bd cs rs cap st) : st.got.length ≤ rs.length := by
  have hlen := congrArg List.length hinv.got_eq
  simp only [delivered, List.length_zipWith, List.length_take] at hlen
  omega

/-- From a state of a run, a receiving side that is not done can move: a message is in flight
for it, or the sending side can send the next one into a FIFO that holds nothing. -/
theorem Inv.can_step (hcs : ∀ c ∈ cs, c.Framed max_send) (hroom : HasRoom cs rs)
    (hrs : ∀ r ∈ rs, r.bufs.length ≤ 6) (hinv : Inv bd cs rs cap st) (hne : st.recvs ≠ []) :
    ∃ st', Step bd st st' := by
  obtain ⟨queue, sends, recvs, got⟩ := st
  obtain ⟨r, recvs, rfl⟩ := List.exists_cons_of_ne_nil hne
  rcases hinv.try_recv_cases hcs hroom hrs rfl with ⟨hdrop, -⟩ | ⟨c, rest, s', -, hrecv, -⟩
  · cases sends with
    | nil =>
        -- nothing is left to send, so there is no message for the receive
        have hcs_le : cs.length ≤ got.length := by simpa using hdrop
        have hrs_lt : got.length < rs.length := by
          have hlen := congrArg List.length hinv.recvs_eq
          simp only [List.length_cons, List.length_drop] at hlen
          omega
        have := hroom.1
        omega
    | cons c sends =>
        obtain ⟨inflight, hdrop', ⟨-, s', hsend, -⟩ | ⟨hfull, -⟩⟩ := hinv.try_send_cases hcs rfl
        · exact ⟨_, .send hsend⟩
        · -- nothing is in flight, and the FIFO has room for the message
          obtain ⟨_, -, hR⟩ := hinv.queued
          have hpos := rel_capacity_pos hR
          have hnil := congrArg List.length (hdrop.symm.trans hdrop')
          simp only [List.length_append] at hnil
          omega
  · exact ⟨_, .recv hrecv⟩

end Run

/-- The two sides of a queue that holds the empty FIFO, one that sends the messages `cs`, each
of which fits, and one that receives the first of them, in order, into buffers with room and at
most six payload buffers. In every state of every run, the receives so far are receives of their
messages, and all of them are once the receiving side is done; no attempt of either side panics,
and one that fails leaves the queue as it is; a receiving side that is not done can move. No run
is infinite. -/
theorem shmem_delivers {bd : Build} {cs : List SendCall} {rs : List RecvCall}
    {queue : SeqRing.State Entry} {cap : ℕ} (hcs : ∀ c ∈ cs, c.Framed max_send)
    (hroom : HasRoom cs rs) (hrs : ∀ r ∈ rs, r.bufs.length ≤ 6)
    (hq : Rel bd rs.length queue ⟨cap, []⟩) :
    (∀ st, Relation.ReflTransGen (Step bd) ⟨queue, cs, rs, []⟩ st →
      Received (cs.take st.got.length) (rs.take st.got.length) st.got ∧
      (st.recvs = [] → st.got.length = rs.length) ∧
      (∀ c sends, st.sends = c :: sends →
        ∃ res, try_send bd st.queue c = .ok res ∧ (res.2 = false → res.1 = st.queue)) ∧
      (∀ r recvs, st.recvs = r :: recvs →
        ∃ res, try_recv bd st.queue r = .ok res ∧ (res.2 = none → res.1 = st.queue)) ∧
      (st.recvs ≠ [] → ∃ st', Step bd st st')) ∧
    Acc (Function.swap (Step bd)) (⟨queue, cs, rs, []⟩ : Sys) := by
  refine ⟨fun st hreach => ?_, acc_step bd _⟩
  have hinv : Inv bd cs rs cap st := (Inv.init hq).reachable hcs hroom hrs hreach
  refine ⟨?_, fun hnil => ?_, fun c sends hsends => ?_, fun r recvs hrecvs => ?_,
    hinv.can_step hcs hroom hrs⟩
  · -- the deliveries of the first messages are receives of them
    have hreceived := received_delivered (le_rfl : max_send ≤ MAX_BUFF_LEN)
      (fun c hc => hcs c (List.mem_of_mem_take hc)) (hroom.take st.got.length)
    rwa [← hinv.got_eq] at hreceived
  · have hdone := hinv.recvs_eq
    rw [hnil, eq_comm, List.drop_eq_nil_iff] at hdone
    exact le_antisymm hinv.got_le hdone
  · obtain ⟨-, -, ⟨-, s', hsend, -⟩ | ⟨-, hfail⟩⟩ := hinv.try_send_cases hcs hsends
    · exact ⟨(s', true), hsend, fun h => Bool.noConfusion h⟩
    · exact ⟨(st.queue, false), hfail, fun _ => rfl⟩
  · obtain ⟨-, hnone⟩ | ⟨c, -, s', -, hrecv, -⟩ := hinv.try_recv_cases hcs hroom hrs hrecvs
    · exact ⟨(st.queue, none), hnone, fun _ => rfl⟩
    · exact ⟨(s', some (r.deliver c)), hrecv, fun h => absurd h (Option.some_ne_none _)⟩

end ShmemTransport

/-! ## Both transports -/

theorem framing_round_trips {cs : List SendCall} {rs : List RecvCall} (hroom : HasRoom cs rs)
    (htcp : ∀ c ∈ cs, c.Framed TCPTransport.max_send)
    (hshmem : ∀ c ∈ cs, c.Framed ShmemTransport.max_send) :
    ((∀ st, Relation.ReflTransGen Pipe.Step
        (⟨TCPTransport.sender cs, TCPTransport.receiver rs, []⟩ : Pipe.Sys UInt8 _ _) st →
        (∀ res, st.reader = .done res → res.2 = .ok () ∧ Received cs rs res.1) ∧
        ((∀ res, st.reader ≠ .done res) → ∃ st', Pipe.Step st st')) ∧
      Acc (Function.swap Pipe.Step)
        (⟨TCPTransport.sender cs, TCPTransport.receiver rs, []⟩ : Pipe.Sys UInt8 _ _)) ∧
    ((∀ r ∈ rs, r.bufs.length ≤ 6) → ∀ (bd : Build) (queue : SeqRing.State Entry) (cap : ℕ),
      Rel bd rs.length queue ⟨cap, []⟩ →
      (∀ st, Relation.ReflTransGen (ShmemTransport.Step bd) ⟨queue, cs, rs, []⟩ st →
        Received (cs.take st.got.length) (rs.take st.got.length) st.got ∧
        (st.recvs = [] → st.got.length = rs.length) ∧
        (∀ c sends, st.sends = c :: sends →
          ∃ res, ShmemTransport.try_send bd st.queue c = .ok res ∧
            (res.2 = false → res.1 = st.queue)) ∧
        (∀ r recvs, st.recvs = r :: recvs →
          ∃ res, ShmemTransport.try_recv bd st.queue r = .ok res ∧
            (res.2 = none → res.1 = st.queue)) ∧
        (st.recvs ≠ [] → ∃ st', ShmemTransport.Step bd st st')) ∧
      Acc (Function.swap (ShmemTransport.Step bd)) (⟨queue, cs, rs, []⟩ : ShmemTransport.Sys)) := by
  refine ⟨?_, fun hrs bd queue cap hq => ShmemTransport.shmem_delivers hshmem hroom hrs hq⟩
  obtain ⟨hrun, hacc⟩ := TCPTransport.tcp_delivers htcp hroom
  refine ⟨fun st hreach => ?_, hacc⟩
  obtain ⟨hdone, hmove⟩ := hrun st hreach
  refine ⟨fun res hres => ?_, hmove⟩
  rw [hdone res hres]
  exact ⟨rfl, received_delivered le_rfl htcp hroom⟩

theorem framing_round_trips_one_message :
    HasRoom [.msg ⟨List.replicate 32 0 ++ [2, 0, 0, 0, 0, 0, 0, 0], rfl⟩ [[1, 2]]]
        [.msg ⟨List.replicate 40 0, rfl⟩ [[0], [0]]] ∧
      (∀ c ∈ [SendCall.msg ⟨List.replicate 32 0 ++ [2, 0, 0, 0, 0, 0, 0, 0], rfl⟩ [[1, 2]]],
        c.Framed TCPTransport.max_send) ∧
      (∀ c ∈ [SendCall.msg ⟨List.replicate 32 0 ++ [2, 0, 0, 0, 0, 0, 0, 0], rfl⟩ [[1, 2]]],
        c.Framed ShmemTransport.max_send) ∧
      (∀ st, Relation.ReflTransGen Pipe.Step
        (⟨TCPTransport.sender [.msg ⟨List.replicate 32 0 ++ [2, 0, 0, 0, 0, 0, 0, 0], rfl⟩ [[1, 2]]],
          TCPTransport.receiver [.msg ⟨List.replicate 40 0, rfl⟩ [[0], [0]]], []⟩ :
            Pipe.Sys UInt8 _ _) st →
        ∀ res, st.reader = .done res → res.2 = .ok () ∧
          Received [.msg ⟨List.replicate 32 0 ++ [2, 0, 0, 0, 0, 0, 0, 0], rfl⟩ [[1, 2]]]
            [.msg ⟨List.replicate 40 0, rfl⟩ [[0], [0]]] res.1) ∧
      (State.with_capacity .debug 2).run Allocator.unlimited =
        .ok (.ok (SeqRing.init USIZE_BITS 2 Entry.zero), Allocator.unlimited) ∧
      ∀ st, Relation.ReflTransGen (ShmemTransport.Step .debug)
        ⟨SeqRing.init USIZE_BITS 2 Entry.zero,
          [.msg ⟨List.replicate 32 0 ++ [2, 0, 0, 0, 0, 0, 0, 0], rfl⟩ [[1, 2]]],
          [.msg ⟨List.replicate 40 0, rfl⟩ [[0], [0]]], []⟩ st →
        st.recvs = [] → st.got.length = 1 := by
  have hroom : HasRoom [.msg ⟨List.replicate 32 0 ++ [2, 0, 0, 0, 0, 0, 0, 0], rfl⟩ [[1, 2]]]
      [.msg ⟨List.replicate 40 0, rfl⟩ [[0], [0]]] := by
    refine ⟨by simp, ?_⟩
    simp only [List.zip_cons_cons, List.zip_nil_right, List.mem_singleton, forall_eq]
    decide
  have hframed : ∀ m : ℕ, 42 ≤ m →
      ∀ c ∈ [SendCall.msg ⟨List.replicate 32 0 ++ [2, 0, 0, 0, 0, 0, 0, 0], rfl⟩ [[1, 2]]],
        c.Framed m := by
    intro m hm c hc
    rw [List.mem_singleton] at hc
    subst hc
    refine ⟨by decide, ?_, by decide⟩
    have h2 : RPCHeader.msg_len ⟨List.replicate 32 0 ++ [2, 0, 0, 0, 0, 0, 0, 0], rfl⟩ = 2 := by
      decide
    rw [h2, HDR_LEN]
    exact hm
  have htcp := hframed TCPTransport.max_send (by decide)
  have hshmem := hframed ShmemTransport.max_send (by decide)
  have hnew : (State.with_capacity .debug 2).run Allocator.unlimited =
      .ok (.ok (SeqRing.init USIZE_BITS 2 Entry.zero), Allocator.unlimited) := rfl
  -- the shared-memory half runs on the queue a debug build's `Queue::with_capacity(2)` makes
  have hq := rel_with_capacity (n := 1) (by norm_num) hnew (Or.inr (by decide))
  have hshmem_run := (framing_round_trips hroom htcp hshmem).2 (by decide) _ _ _ hq
  exact ⟨hroom, htcp, hshmem,
    fun st hreach => ((framing_round_trips hroom htcp hshmem).1.1 st hreach).1,
    hnew, fun st hreach => (hshmem_run.1 st hreach).2.1⟩

end Nrk.Rpc
