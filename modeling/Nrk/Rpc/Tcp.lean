import Nrk.Lib.Pipe
import Nrk.Rpc.Transport

/-! # The TCP transport (`lib/rpc/src/transport/smoltcp.rs`)

The socket is a `Pipe` of bytes, and `send`, `recv` and `recv_msg` are programs at its ends. -/

namespace Nrk.Rpc

open Pipe

/-- `RX_BUF_LEN`: the socket's receive buffer. -/
def RX_BUF_LEN : ℕ := 8192

namespace TCPTransport

/-- `max_send()`. -/
def max_send : ℕ := RX_BUF_LEN

/-! ## `send` and `recv` -/

/-- The loop of `send` once `offset` bytes are sent: `send_slice(&send_buf[offset..])` until all
are sent. -/
def send_rest (send_buf : List UInt8) (offset : ℕ) : Prog UInt8 Bool :=
  .send true (send_buf.drop offset) fun bytes_sent =>
    if offset + bytes_sent.1 = send_buf.length then .done true
    else send_rest send_buf (offset + bytes_sent.1)
termination_by send_buf.length - offset
decreasing_by
  have hpos := bytes_sent.2.2 rfl
  have hle := bytes_sent.2.1
  simp only [List.length_drop] at hle
  omega

/-- `send(send_buf, is_try)`: nothing to do for no bytes; a first `send_slice` if the socket can
send, which ends a try that sent nothing; then the loop until all are sent. -/
def send (send_buf : List UInt8) (is_try : Bool) : Prog UInt8 Bool :=
  if send_buf = [] then .done true
  else
    .send false send_buf fun offset =>
      if is_try = true ∧ offset.1 = 0 then .done false
      else if offset.1 = send_buf.length then .done true
      else send_rest send_buf offset.1

/-- The loop of `recv` once `offset` bytes are in: `recv_slice(&mut recv_buf[offset..])` until
the buffer is full; the buffer once full. -/
def recv_rest (recv_buf : List UInt8) (offset : ℕ) : Prog UInt8 (List UInt8) :=
  .recv true (recv_buf.length - offset) fun bytes_recv =>
    if offset + bytes_recv.1.length = recv_buf.length then
      .done (recv_buf.write_at offset bytes_recv.1)
    else recv_rest (recv_buf.write_at offset bytes_recv.1) (offset + bytes_recv.1.length)
termination_by recv_buf.length - offset
decreasing_by
  have := bytes_recv.2.1
  have := bytes_recv.2.2 rfl
  simp only [List.length_write_at]
  omega

/-- `recv(recv_buf)`: the buffer once full. -/
def recv (recv_buf : List UInt8) : Prog UInt8 (List UInt8) :=
  if recv_buf = [] then .done recv_buf else recv_rest recv_buf 0

theorem send_rest_writes (send_buf : List UInt8) (offset : ℕ) (h : offset < send_buf.length) :
    Writes (send_rest send_buf offset) (send_buf.drop offset) true := by
  rw [send_rest]
  refine .send (fun _ => by simp; omega) List.prefix_rfl fun bytes_sent => ?_
  have hle := bytes_sent.2.1
  simp only [List.length_drop] at hle
  rw [List.drop_drop]
  split
  · -- all sent
    rw [List.drop_eq_nil_of_le (by omega)]
    exact .done true
  · exact send_rest_writes send_buf (offset + bytes_sent.1) (by omega)
termination_by send_buf.length - offset
decreasing_by
  have hpos := bytes_sent.2.2 rfl
  omega

/-- A blocking `send` puts its whole buffer into the stream, however the socket takes it. -/
theorem send_writes (send_buf : List UInt8) : Writes (send send_buf false) send_buf true := by
  unfold send
  split
  · next h =>
      subst h
      exact .done true
  · refine .send (fun h => absurd h Bool.false_ne_true) List.prefix_rfl fun offset => ?_
    simp only [Bool.false_eq_true, false_and, if_false]
    split
    · next hall =>
        rw [List.drop_eq_nil_of_le (by omega)]
        exact .done true
    · exact send_rest_writes send_buf offset.1 (lt_of_le_of_ne offset.2.1 ‹_›)

theorem recv_rest_reads (recv_buf : List UInt8) (offset : ℕ) {v : List UInt8}
    (h : offset < recv_buf.length) (hv : v.length = recv_buf.length - offset) :
    Reads (recv_rest recv_buf offset) v (recv_buf.take offset ++ v) := by
  rw [recv_rest]
  refine .recv (fun _ => by omega) (by omega) fun bytes_recv hpre => ?_
  have hle := bytes_recv.2.1
  -- the bytes go into `recv_buf[offset..]`, after the `offset` bytes already in
  have hwrite : recv_buf.write_at offset bytes_recv.1 =
      recv_buf.take offset ++ bytes_recv.1 ++ recv_buf.drop (offset + bytes_recv.1.length) := by
    rw [List.write_at_of_le (by omega), List.overwrite]
  have hv' : bytes_recv.1 ++ v.drop bytes_recv.1.length = v := by
    obtain ⟨t, ht⟩ := hpre
    rw [← ht, List.drop_left]
  split
  · next hfull =>
      -- the buffer is full, and the bytes were the last of `v`
      rw [List.drop_eq_nil_of_le (by omega), hwrite, List.drop_eq_nil_of_le (by omega),
        List.append_nil, ← hv', List.drop_eq_nil_of_le (by omega), List.append_nil]
      exact .done _
  · next hmore =>
      have hlt : offset + bytes_recv.1.length < (recv_buf.write_at offset bytes_recv.1).length := by
        rw [List.length_write_at]
        omega
      have hlen : (v.drop bytes_recv.1.length).length =
          (recv_buf.write_at offset bytes_recv.1).length - (offset + bytes_recv.1.length) := by
        rw [List.length_write_at, List.length_drop]
        omega
      have hrest := recv_rest_reads (recv_buf.write_at offset bytes_recv.1)
        (offset + bytes_recv.1.length) hlt hlen
      have htake : (recv_buf.write_at offset bytes_recv.1).take (offset + bytes_recv.1.length) =
          recv_buf.take offset ++ bytes_recv.1 := by
        rw [hwrite, List.take_left' (by simp; omega)]
      rwa [htake, List.append_assoc, hv'] at hrest
termination_by recv_buf.length - offset
decreasing_by
  have hpos := bytes_recv.2.2 rfl
  simp only [List.length_write_at]
  omega

/-- A `recv` takes exactly as many bytes as its buffer holds, however the socket gives them, and
ends with them in the buffer. -/
theorem recv_reads {recv_buf v : List UInt8} (hv : v.length = recv_buf.length) :
    Reads (recv recv_buf) v v := by
  unfold recv
  split
  · next h =>
      subst h
      rw [List.eq_nil_of_length_eq_zero hv]
      exact .done []
  · next h =>
      simpa using recv_rest_reads recv_buf 0 (v := v) (List.length_pos_iff.mpr h) (by simpa using hv)

/-! ## `recv_msg` -/

/-- The loop of `recv_msg` over the payload buffers, `recv_count` bytes received: a buffer past
which the message ends gets the rest at its front and ends the loop, a buffer that the message
fills is received whole. The buffers as the loop leaves them. -/
def recv_payload (expected_data : ℕ) : List (List UInt8) → ℕ → Prog UInt8 (List (List UInt8))
  | [], _ => .done []
  | p :: ps, recv_count =>
      if recv_count + p.length > expected_data then do
        -- `self.recv(&mut p[..(expected_data - recv_count)])?; return Ok(true)`
        let front ← recv (p.take (expected_data - recv_count))
        return p.write_at 0 front :: ps
      else do
        let p' ← recv p
        let ps' ← recv_payload expected_data ps (recv_count + p.length)
        return p' :: ps'

/-- `recv_msg(hdr, payload, is_try)`: the header and the payload buffers as it leaves them, and
its result. -/
def recv_msg (hdr : RPCHeader) (payload : List (List UInt8)) (is_try : Bool) :
    Prog UInt8 (RPCHeader × List (List UInt8) × Except RPCError Bool) :=
  -- `if socket.can_recv()`: a first `recv_slice` into the header, of what has arrived
  .recv false HDR_LEN fun bytes_recv =>
    if is_try = true ∧ bytes_recv.1.length = 0 then .done (hdr, payload, .ok false)
    else do
      let offset := bytes_recv.1.length
      let hdr := hdr.write 0 bytes_recv.1
      -- finish receiving the header
      let rest ← recv (hdr.bytes.drop offset)
      let hdr := hdr.write offset rest
      let expected_data := hdr.msg_len
      let max_recv_data := payload.foldl (fun acc x => acc + x.length) 0
      if expected_data > max_recv_data then return (hdr, payload, .error .InternalError)
      else if expected_data = 0 then return (hdr, payload, .ok true)
      else do
        let payload ← recv_payload expected_data payload 0
        return (hdr, payload, .ok true)

/-- The loop takes the rest of the message, `expected_data - recv_count` bytes, and leaves it at
the front of the buffers. -/
theorem recv_payload_reads (expected_data : ℕ) :
    ∀ (payload : List (List UInt8)) (recv_count : ℕ) {v : List UInt8},
      recv_count + v.length = expected_data → v.length ≤ (payload.map List.length).sum →
      Reads (recv_payload expected_data payload recv_count) v (fill v payload)
  | [], recv_count, v, hv, hroom => by
      have hv0 : v = [] := List.eq_nil_of_length_eq_zero (by simpa using hroom)
      rw [hv0, fill_nil]
      exact .done []
  | p :: ps, recv_count, v, hv, hroom => by
      rw [recv_payload]
      simp only [Prog.bind_eq, Prog.pure_eq]
      split
      · next hgt =>
          -- the message ends inside `p`
          have hvp : v.length ≤ p.length := by omega
          have hfront : p.write_at 0 v = v ++ p.drop v.length := by
            rw [List.write_at_of_le (by omega), List.overwrite]
            simp
          rw [show expected_data - recv_count = v.length by omega, fill_cons_of_le ps hvp, ← hfront]
          exact (@recv_reads (p.take v.length) v (by simp; omega)).bind_done rfl
      · next hle =>
          -- `p` is filled, and the rest goes on to the buffers after it
          simp only [List.map_cons, List.sum_cons] at hroom
          obtain ⟨v₁, v₂, rfl, hv₁⟩ : ∃ v₁ v₂, v = v₁ ++ v₂ ∧ v₁.length = p.length :=
            ⟨v.take p.length, v.drop p.length, (List.take_append_drop _ _).symm, by simp; omega⟩
          simp only [List.length_append] at hv hroom
          have hfill : fill (v₁ ++ v₂) (p :: ps) = v₁ :: fill v₂ ps := by
            rw [fill_cons_of_ge ps (by simp; omega), List.take_left' hv₁, List.drop_left' hv₁]
          rw [hfill]
          refine (@recv_reads p v₁ hv₁).bind ?_
          exact (recv_payload_reads expected_data ps (recv_count + p.length) (by omega)
            (by omega)).bind_done rfl

/-- A header received in two parts, the first `got` at its start and the rest after it, holds
the bytes received. -/
theorem write_two_parts (hdr : RPCHeader) {h : RPCHeader} {got : List UInt8}
    (hgot : got <+: h.bytes) : (hdr.write 0 got).write got.length (h.bytes.drop got.length) = h := by
  obtain ⟨t, ht⟩ := hgot
  have htl : got.length + t.length = HDR_LEN := by
    rw [← h.length_bytes, ← ht, List.length_append]
  have hfirst : (hdr.write 0 got).bytes = got ++ hdr.bytes.drop got.length := by
    rw [RPCHeader.bytes_write, List.write_at_of_le (by rw [hdr.length_bytes]; omega),
      List.overwrite]
    simp
  ext1
  rw [RPCHeader.bytes_write, hfirst, ← ht, List.drop_left,
    List.write_at_of_le (by simp [hdr.length_bytes]; omega), List.overwrite, List.take_left' rfl,
    List.drop_eq_nil_of_le (by simp [hdr.length_bytes]; omega), List.append_nil]

/-- A blocking `recv_msg` takes a header and the `msg_len` bytes that follow it, when its
buffers have room for them, and leaves the header and the payload at the front of its
buffers. -/
theorem recv_msg_reads (hdr : RPCHeader) {payload : List (List UInt8)} {h : RPCHeader}
    {body : List UInt8} (hbody : body.length = h.msg_len)
    (hroom : h.msg_len ≤ (payload.map List.length).sum) :
    Reads (recv_msg hdr payload false) (h.bytes ++ body) (h, fill body payload, .ok true) := by
  rw [recv_msg]
  refine .recv (fun hf => absurd hf Bool.false_ne_true) (by simp [h.length_bytes])
    fun got hgot => ?_
  have hle : got.1.length ≤ h.bytes.length := by
    rw [h.length_bytes]
    exact got.2.1
  have hpre : got.1 <+: h.bytes :=
    List.prefix_of_prefix_length_le hgot (List.prefix_append _ _) hle
  simp only [Bool.false_eq_true, false_and, if_false, Prog.bind_eq, Prog.pure_eq]
  rw [List.drop_append_of_le_length hle]
  -- the rest of the header
  refine (recv_reads ?_).bind ?_
  · simp [RPCHeader.write, hdr.length_bytes, h.length_bytes]
  rw [write_two_parts hdr hpre, List.foldl_add_length, Nat.zero_add, if_neg (by omega)]
  split
  · next h0 =>
      rw [List.eq_nil_of_length_eq_zero (hbody.trans h0), fill_nil]
      exact .done _
  · exact (recv_payload_reads h.msg_len payload 0 (by omega) (by omega)).bind_done rfl

/-! ## The `Transport` methods, and two sides that use them -/

/-- `send_msg(hdr, payload)`: the header, then each payload slice. -/
def send_msg (hdr : RPCHeader) (payload : List (List UInt8)) :
    Prog UInt8 (Except RPCError Unit) := do
  let _ ← send hdr.bytes false
  for p in payload do
    let _ ← send p false
  return .ok ()

/-- `send_mbuf(mbuf)`: the header and `msg_len` bytes of data, a slice of `as_bytes()` that
panics past its end. -/
def send_mbuf (mbuf : MBuf) : Prog UInt8 (Except RPCError Unit) :=
  if HDR_LEN + mbuf.hdr.msg_len ≤ MAX_BUFF_LEN then do
    let _ ← send (mbuf.bytes.take (HDR_LEN + mbuf.hdr.msg_len)) false
    return .ok ()
  else .panic

/-- `recv_mbuf(mbuf)`: `recv_msg` into the header and the data, whose one payload buffer is the
data itself. -/
def recv_mbuf (mbuf : MBuf) : Prog UInt8 (MBuf × Except RPCError Unit) := do
  let (hdr, payload, r) ← recv_msg mbuf.hdr [mbuf.data] false
  return (⟨hdr, mbuf.data.write_at 0 payload.flatten, by rw [List.length_write_at, mbuf.length_data]⟩,
    r.map fun _ => ())

/-- A call of `send_msg` or `send_mbuf`. -/
def send_call : SendCall → Prog UInt8 (Except RPCError Unit)
  | .msg hdr payload => send_msg hdr payload
  | .mbuf mbuf => send_mbuf mbuf

/-- A call of `recv_msg(hdr, payload)`, which is `recv_msg(hdr, payload, false)?`, or of
`recv_mbuf`: what it left in its buffers, and its result. -/
def recv_call : RecvCall → Prog UInt8 (RecvCall × Except RPCError Unit)
  | .msg hdr payload => do
      let (hdr, payload, r) ← recv_msg hdr payload false
      return (.msg hdr payload, r.map fun _ => ())
  | .mbuf mbuf => do
      let (mbuf, r) ← recv_mbuf mbuf
      return (.mbuf mbuf, r)

/-- A side that makes the sends `cs` one after the other, each followed by `?`. -/
def sender : List SendCall → Prog UInt8 (Except RPCError Unit)
  | [] => .done (.ok ())
  | c :: cs => do
      match ← send_call c with
      | .ok () => sender cs
      | .error e => return .error e

/-- A side that makes the receives `rs` one after the other, each followed by `?`: what they
left in their buffers. -/
def receiver : List RecvCall → Prog UInt8 (List RecvCall × Except RPCError Unit)
  | [] => .done ([], .ok ())
  | r :: rs => do
      let (r, res) ← recv_call r
      match res with
      | .ok () => do
          let (rs, res) ← receiver rs
          return (r :: rs, res)
      | .error e => return ([r], .error e)

theorem send_msg_writes (hdr : RPCHeader) (payload : List (List UInt8)) :
    Writes (send_msg hdr payload) (hdr.bytes ++ payload.flatten) (.ok ()) := by
  unfold send_msg
  simp only [Prog.bind_eq, Prog.pure_eq]
  -- the loop puts each slice into the stream in turn
  have hloop : Writes (forIn payload PUnit.unit fun p _ =>
      (send p false).bind fun _ => Prog.done (ForInStep.yield PUnit.unit)) payload.flatten
      PUnit.unit := by
    rw [← List.flatMap_id]
    exact Writes.forIn fun p _ => (send_writes p).bind_done rfl
  exact (send_writes hdr.bytes).bind (hloop.bind_done rfl)

theorem send_call_writes {c : SendCall} (hc : c.Framed max_send) :
    Writes (send_call c) c.wire (.ok ()) := by
  cases c with
  | msg hdr payload => exact send_msg_writes hdr payload
  | mbuf mbuf =>
      have hfit : HDR_LEN + mbuf.hdr.msg_len ≤ MAX_BUFF_LEN := hc
      rw [send_call, send_mbuf, if_pos hfit, SendCall.wire, SendCall.hdr, SendCall.payload,
        ← MBuf.take_bytes]
      exact (send_writes _).bind_done rfl

theorem sender_writes : ∀ {cs : List SendCall}, (∀ c ∈ cs, c.Framed max_send) →
    Writes (sender cs) (cs.flatMap SendCall.wire) (.ok ())
  | [], _ => .done _
  | c :: cs, hcs => by
      rw [sender, List.flatMap_cons]
      exact (send_call_writes (hcs c List.mem_cons_self)).bind
        (sender_writes fun c' hc' => hcs c' (List.mem_cons_of_mem c hc'))

theorem recv_call_reads {c : SendCall} {r : RecvCall} (hc : c.Framed max_send)
    (hroom : c.hdr.msg_len ≤ r.room) : Reads (recv_call r) c.wire (r.deliver c, .ok ()) := by
  have hmax : max_send ≤ MAX_BUFF_LEN := le_rfl
  have hlen := SendCall.length_payload hc hmax
  cases r with
  | msg hdr payload =>
      exact (recv_msg_reads hdr hlen hroom).bind_done rfl
  | mbuf mbuf =>
      have hroom' : c.hdr.msg_len ≤ ([mbuf.data].map List.length).sum := hroom
      have hdata : mbuf.data.write_at 0 (fill c.payload [mbuf.data]).flatten =
          mbuf.data.write_at 0 c.payload := by
        have hfit : c.payload.length ≤ mbuf.data.length := by simpa [hlen] using hroom'
        have hflat : (fill c.payload [mbuf.data]).flatten =
            c.payload ++ mbuf.data.drop c.payload.length := by
          rw [flatten_fill (by simpa [hlen] using hroom'), List.flatten_singleton]
        rw [hflat, List.write_at_of_le (by simp; omega), List.write_at_of_le (by omega)]
        simp [List.overwrite]
        omega
      rw [recv_call, recv_mbuf]
      simp only [Prog.bind_eq, Prog.pure_eq]
      refine Reads.bind_done (Reads.bind_done (recv_msg_reads mbuf.hdr hlen hroom') rfl) ?_
      simp only [RecvCall.deliver, hdata]
      rfl

/-- The receives take the first messages, one after the other, and end with their deliveries. -/
theorem receiver_reads : ∀ {cs : List SendCall} {rs : List RecvCall},
    (∀ c ∈ cs, c.Framed max_send) → HasRoom cs rs →
      Reads (receiver rs) ((cs.take rs.length).flatMap SendCall.wire) (delivered cs rs, .ok ())
  | _, [], _, _ => by
      simp only [List.length_nil, List.take_zero, List.flatMap_nil]
      exact .done _
  | [], _ :: _, _, hroom => absurd hroom.1 (by simp)
  | c :: cs, r :: rs, hcs, hroom => by
      rw [receiver, List.length_cons, List.take_succ_cons, List.flatMap_cons]
      exact (recv_call_reads (hcs c List.mem_cons_self) hroom.head).bind
        ((receiver_reads (fun c' hc' => hcs c' (List.mem_cons_of_mem c hc')) hroom.tail).bind_done
          rfl)

/-- A side that sends the messages `cs`, each of which fits, and a side that receives the first
of them, in order, into buffers with room, over a TCP connection with nothing in flight. In
every state of every run, a receiving side that is done ends with the deliveries of the
messages into its buffers, and one that is not can move; no run is infinite. -/
theorem tcp_delivers {cs : List SendCall} {rs : List RecvCall}
    (hcs : ∀ c ∈ cs, c.Framed max_send) (hroom : HasRoom cs rs) :
    (∀ st, Relation.ReflTransGen Step (⟨sender cs, receiver rs, []⟩ : Sys UInt8 _ _) st →
      (∀ res, st.reader = .done res → res = (delivered cs rs, .ok ())) ∧
      ((∀ res, st.reader ≠ .done res) → ∃ st', Step st st')) ∧
    Acc (Function.swap Step) (⟨sender cs, receiver rs, []⟩ : Sys UInt8 _ _) := by
  have hpre : (cs.take rs.length).flatMap SendCall.wire <+: cs.flatMap SendCall.wire :=
    ⟨(cs.drop rs.length).flatMap SendCall.wire, by
      rw [← List.flatMap_append, List.take_append_drop]⟩
  exact delivers (sender_writes hcs) (receiver_reads hcs hroom) hpre

end TCPTransport

end Nrk.Rpc
