import Mathlib.Data.Nat.Digits.Defs
import Nrk.Rpc.Queue

/-! # Messages of the rpc transports (`lib/rpc/src/rpc.rs`, `lib/rpc/src/transport/mod.rs`)

`RPCHeader`, `MBuf`, the calls that send and receive, and what a receive should leave in its
buffers. -/

namespace Nrk.Rpc

/-- `HDR_LEN`: `size_of::<RPCHeader>()`, three words, a byte padded to eight, and a word. -/
def HDR_LEN : ℕ := 40

/-- `MAX_BUFF_LEN`. -/
def MAX_BUFF_LEN : ℕ := 8192

/-- The `RPCError`s the transports return. -/
inductive RPCError where
  | InternalError
  | TransportError
  deriving DecidableEq, Repr

/-- An `RPCHeader`, as the transports see it: its bytes in memory. -/
@[ext] structure RPCHeader where
  bytes : List UInt8
  length_bytes : bytes.length = HDR_LEN
  deriving DecidableEq

/-- `msg_len: u64`, at offset 32, little-endian. -/
def RPCHeader.msg_len (hdr : RPCHeader) : ℕ :=
  Nat.ofDigits 256 (((hdr.bytes.drop 32).take 8).map UInt8.toNat)

/-- A copy of `ys` into `hdr.as_mut_bytes()[o..]`. -/
def RPCHeader.write (hdr : RPCHeader) (o : ℕ) (ys : List UInt8) : RPCHeader :=
  ⟨hdr.bytes.write_at o ys, by rw [List.length_write_at, hdr.length_bytes]⟩

@[simp] theorem RPCHeader.bytes_write (hdr : RPCHeader) (o : ℕ) (ys : List UInt8) :
    (hdr.write o ys).bytes = hdr.bytes.write_at o ys := rfl

theorem RPCHeader.write_zero_append (hdr h : RPCHeader) (ys : List UInt8) :
    hdr.write 0 (h.bytes ++ ys) = h := by
  ext1
  rw [RPCHeader.bytes_write, List.write_at_zero, hdr.length_bytes,
    List.take_left' h.length_bytes, List.drop_eq_nil_of_le (by simp [hdr.length_bytes,
      h.length_bytes]), List.append_nil]

/-- An `MBuf`: a header, and `MAX_BUFF_LEN - HDR_LEN` bytes of data after it. -/
@[ext] structure MBuf where
  hdr : RPCHeader
  data : List UInt8
  length_data : data.length = MAX_BUFF_LEN - HDR_LEN
  deriving DecidableEq

/-- `MBuf::as_bytes`. -/
def MBuf.bytes (mbuf : MBuf) : List UInt8 := mbuf.hdr.bytes ++ mbuf.data

theorem MBuf.length_bytes (mbuf : MBuf) : mbuf.bytes.length = MAX_BUFF_LEN := by
  simp [MBuf.bytes, mbuf.hdr.length_bytes, mbuf.length_data, HDR_LEN, MAX_BUFF_LEN]

/-- The first `HDR_LEN + msg_len` bytes of an `MBuf` are its header and the front of its
data. -/
theorem MBuf.take_bytes (mbuf : MBuf) :
    mbuf.bytes.take (HDR_LEN + mbuf.hdr.msg_len) =
      mbuf.hdr.bytes ++ mbuf.data.take mbuf.hdr.msg_len := by
  rw [MBuf.bytes, List.take_append, List.take_of_length_le (by rw [mbuf.hdr.length_bytes]; omega),
    mbuf.hdr.length_bytes, Nat.add_sub_cancel_left]

/-- A copy of `ys` over `mbuf.as_mut_bytes()`, from the start. -/
def MBuf.write (mbuf : MBuf) (ys : List UInt8) : MBuf :=
  ⟨mbuf.hdr.write 0 ys, mbuf.data.write_at 0 (ys.drop HDR_LEN),
    by rw [List.length_write_at, mbuf.length_data]⟩

/-! ## Calls -/

/-- A call of `send_msg(hdr, payload)` or `send_mbuf(mbuf)`. -/
inductive SendCall where
  | msg (hdr : RPCHeader) (payload : List (List UInt8))
  | mbuf (mbuf : MBuf)

/-- A call of `recv_msg(hdr, payload)` or `recv_mbuf(mbuf)`, with the buffers it receives into;
after the call, with what it left in them. -/
inductive RecvCall where
  | msg (hdr : RPCHeader) (payload : List (List UInt8))
  | mbuf (mbuf : MBuf)
  deriving DecidableEq

namespace SendCall

def hdr : SendCall → RPCHeader
  | msg hdr _ => hdr
  | mbuf m => m.hdr

/-- The payload: the slices one after the other, or the first `msg_len` bytes of the data. -/
def payload : SendCall → List UInt8
  | msg _ payload => payload.flatten
  | mbuf m => m.data.take m.hdr.msg_len

/-- The message as one run of bytes. -/
def wire (c : SendCall) : List UInt8 := c.hdr.bytes ++ c.payload

/-- A send whose `msg_len` is the length of its payload, whose message fits in `max_send`, and
whose payload comes in at most six slices. -/
def Framed (max_send : ℕ) : SendCall → Prop
  | msg hdr payload =>
      hdr.msg_len = (payload.map List.length).sum ∧ HDR_LEN + hdr.msg_len ≤ max_send ∧
        payload.length ≤ 6
  | mbuf m => HDR_LEN + m.hdr.msg_len ≤ max_send

theorem Framed.fits {max_send : ℕ} {c : SendCall} (hc : c.Framed max_send) :
    HDR_LEN + c.hdr.msg_len ≤ max_send := by
  cases c with
  | msg hdr payload => exact hc.2.1
  | mbuf m => exact hc

theorem length_payload {max_send : ℕ} {c : SendCall} (hc : c.Framed max_send)
    (hmax : max_send ≤ MAX_BUFF_LEN) : c.payload.length = c.hdr.msg_len := by
  cases c with
  | msg hdr slices => simp [SendCall.payload, SendCall.hdr, List.length_flatten, hc.1]
  | mbuf m =>
      have hm : HDR_LEN + m.hdr.msg_len ≤ MAX_BUFF_LEN := (show _ ≤ max_send from hc).trans hmax
      simp [SendCall.payload, SendCall.hdr, m.length_data]
      simp only [HDR_LEN, MAX_BUFF_LEN] at hm ⊢
      omega

theorem length_wire {max_send : ℕ} {c : SendCall} (hc : c.Framed max_send)
    (hmax : max_send ≤ MAX_BUFF_LEN) : c.wire.length = HDR_LEN + c.hdr.msg_len := by
  rw [wire, List.length_append, c.hdr.length_bytes, length_payload hc hmax]

end SendCall

namespace RecvCall

def hdr : RecvCall → RPCHeader
  | msg hdr _ => hdr
  | mbuf m => m.hdr

/-- The payload buffers: the slices, or the data. -/
def bufs : RecvCall → List (List UInt8)
  | msg _ payload => payload
  | mbuf m => [m.data]

/-- The room for payload. -/
def room (r : RecvCall) : ℕ := (r.bufs.map List.length).sum

/-- What receiving the message of `c` should leave in the buffers of `r`. -/
def deliver (r : RecvCall) (c : SendCall) : RecvCall :=
  match r with
  | msg _ payload => msg c.hdr (fill c.payload payload)
  | mbuf m => mbuf ⟨c.hdr, m.data.write_at 0 c.payload, by rw [List.length_write_at, m.length_data]⟩

/-- `r'` is a receive into the buffers of `r` of the message of `c`: its header bytes are the
sender's, its payload buffers have their lengths, and their concatenation starts with the
sender's `msg_len` bytes of payload. -/
def Receives (c : SendCall) (r r' : RecvCall) : Prop :=
  r'.hdr.bytes = c.hdr.bytes ∧ r'.bufs.map List.length = r.bufs.map List.length ∧
    r'.bufs.flatten.take c.hdr.msg_len = c.payload

theorem receives_deliver {max_send : ℕ} {c : SendCall} {r : RecvCall} (hc : c.Framed max_send)
    (hmax : max_send ≤ MAX_BUFF_LEN) (hroom : c.hdr.msg_len ≤ r.room) :
    Receives c r (r.deliver c) := by
  have hlen := SendCall.length_payload hc hmax
  cases r with
  | msg hdr payload =>
      have hfit : c.payload.length ≤ (payload.map List.length).sum := hlen ▸ hroom
      refine ⟨rfl, map_length_fill hfit, ?_⟩
      simp only [deliver, bufs]
      rw [flatten_fill hfit, ← hlen, List.take_left' rfl]
  | mbuf m =>
      have hfit : c.payload.length ≤ m.data.length := by
        simpa [room, bufs, hlen] using hroom
      refine ⟨rfl, by simp [deliver, bufs, m.length_data], ?_⟩
      simp only [deliver, bufs, List.flatten_cons, List.flatten_nil, List.append_nil]
      rw [List.write_at_of_le (by omega), List.overwrite, ← hlen]
      simp

end RecvCall

/-- The receives `rs` take the first of the messages `cs`, in order, each into buffers with room
for its payload. -/
def HasRoom (cs : List SendCall) (rs : List RecvCall) : Prop :=
  rs.length ≤ cs.length ∧ ∀ p ∈ cs.zip rs, p.1.hdr.msg_len ≤ p.2.room

section HasRoom

variable {cs : List SendCall} {rs : List RecvCall}

theorem HasRoom.head {c : SendCall} {r : RecvCall} (h : HasRoom (c :: cs) (r :: rs)) :
    c.hdr.msg_len ≤ r.room :=
  h.2 (c, r) (by simp)

theorem HasRoom.tail {c : SendCall} {r : RecvCall} (h : HasRoom (c :: cs) (r :: rs)) :
    HasRoom cs rs :=
  ⟨Nat.le_of_succ_le_succ h.1, fun p hp => h.2 p (by simp [hp])⟩

theorem HasRoom.take (h : HasRoom cs rs) (k : ℕ) : HasRoom (cs.take k) (rs.take k) := by
  refine ⟨?_, fun p hp => h.2 p ?_⟩
  · have := h.1
    simp only [List.length_take]
    omega
  · have hzip : (cs.take k).zip (rs.take k) = (cs.zip rs).take k := List.take_zipWith.symm
    rw [hzip] at hp
    exact List.mem_of_mem_take hp

theorem HasRoom.drop (h : HasRoom cs rs) (k : ℕ) : HasRoom (cs.drop k) (rs.drop k) := by
  induction k generalizing cs rs with
  | zero => simpa using h
  | succ k ih =>
      cases rs with
      | nil => exact ⟨by simp, by simp⟩
      | cons r rs =>
          cases cs with
          | nil => exact absurd h.1 (by simp)
          | cons c cs => simpa using ih h.tail

end HasRoom

/-- `rs'` is what the receives `rs` left in their buffers, each a receive of its message of
`cs`. -/
def Received (cs : List SendCall) (rs rs' : List RecvCall) : Prop :=
  List.Forall₂ (fun p r' => RecvCall.Receives p.1 p.2 r') (cs.zip rs) rs'

/-- The deliveries of the messages `cs` into the buffers of the receives `rs`, in order. -/
def delivered (cs : List SendCall) (rs : List RecvCall) : List RecvCall :=
  List.zipWith RecvCall.deliver rs cs

theorem delivered_take_add_one {cs cs' : List SendCall} {rs rs' : List RecvCall} {k : ℕ}
    {c : SendCall} {r : RecvCall} (hc : cs.drop k = c :: cs') (hr : rs.drop k = r :: rs') :
    delivered (cs.take (k + 1)) (rs.take (k + 1)) =
      delivered (cs.take k) (rs.take k) ++ [r.deliver c] := by
  have hcs : k < cs.length := by
    have := congrArg List.length hc
    simp only [List.length_drop, List.length_cons] at this
    omega
  have hrs : k < rs.length := by
    have := congrArg List.length hr
    simp only [List.length_drop, List.length_cons] at this
    omega
  have hk : (rs.take k).length = (cs.take k).length := by
    simp only [List.length_take]
    omega
  rw [List.take_add_one_of_drop hc, List.take_add_one_of_drop hr, delivered, delivered,
    List.zipWith_append hk]
  rfl

theorem received_delivered {max_send : ℕ} (hmax : max_send ≤ MAX_BUFF_LEN) :
    ∀ {cs : List SendCall} {rs : List RecvCall}, (∀ c ∈ cs, c.Framed max_send) →
      HasRoom cs rs → Received cs rs (delivered cs rs)
  | _, [], _, _ => by simp [Received, delivered]
  | [], _ :: _, _, hroom => absurd hroom.1 (by simp)
  | c :: cs, r :: rs, hcs, hroom =>
      List.Forall₂.cons (RecvCall.receives_deliver (hcs c List.mem_cons_self) hmax hroom.head)
        (received_delivered hmax (fun c' hc' => hcs c' (List.mem_cons_of_mem c hc')) hroom.tail)

end Nrk.Rpc
