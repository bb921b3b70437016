import BankSel4.Network.Receive
import BankSel4.Network.Transmit

/-!
# Packets of lwIP

A packet is a chain of segments, each a `struct pbuf`, in a memory of bytes.  That `tot_len` is the
length of the chain from a segment on is a field of `Pbuf`.

`low_level_output` and `netif_output` look at the first segment of the packet they are given, and
`hardware_irq_handle` at the first segment of the one that it has from `pbuf_alloc`.
-/

namespace BankSel4.Network

/-- The bytes of a flat address space. -/
abbrev Memory := Nat → UInt8

/-- The `n` bytes at an address. -/
def bytesAt (mem : Memory) (addr n : Nat) : Str := (List.range n).map fun i => mem (addr + i)

@[simp] theorem length_bytesAt (mem : Memory) (addr n : Nat) : (bytesAt mem addr n).length = n := by
  rw [bytesAt, List.length_map, List.length_range]

/-- `struct pbuf`: a segment of a packet.  `payload` is an address. -/
structure Segment where
  payload : Nat
  len : UInt16
  totLen : UInt16
  deriving DecidableEq, Repr

/-- The bytes of the payload. -/
def Segment.data (mem : Memory) (seg : Segment) : Str := bytesAt mem seg.payload seg.len.toNat

/-- The address is one of the payload. -/
def Segment.Covers (seg : Segment) (a : Nat) : Prop :=
  seg.payload ≤ a ∧ a < seg.payload + seg.len.toNat

instance (seg : Segment) (a : Nat) : Decidable (seg.Covers a) := inferInstanceAs (Decidable (_ ∧ _))

/-- The sum of `len` over the segments. -/
def totalLen (segs : List Segment) : Nat := (segs.map fun seg => seg.len.toNat).sum

/-- `tot_len` is the sum of `len` from each segment on. -/
def TotLens : List Segment → Prop
  | [] => True
  | seg :: segs => seg.totLen.toNat = totalLen (seg :: segs) ∧ TotLens segs

instance decidableTotLens : (segs : List Segment) → Decidable (TotLens segs)
  | [] => isTrue trivial
  | _ :: segs =>
    have := decidableTotLens segs
    inferInstanceAs (Decidable (_ ∧ _))

/-- A packet: a segment, and those that follow it by `next`. -/
structure Pbuf where
  head : Segment
  next : List Segment
  totLens : TotLens (head :: next)

namespace Pbuf

/-- The segments, in order. -/
def segments (p : Pbuf) : List Segment := p.head :: p.next

/-- The bytes of the packet. -/
def contents (p : Pbuf) (mem : Memory) : Str := p.segments.flatMap (Segment.data mem)

/-! ### Sending -/

/-- The frame of a call for the packet: what `memcpy(tx_buffer[desc_idx], p->payload, p->len)`
copies. -/
def frame (p : Pbuf) (mem : Memory) : Str := bytesAt mem p.head.payload p.head.len.toNat

/-- `low_level_output(netif, p)`. -/
def lowLevelOutput (p : Pbuf) (mem : Memory) : TxAction := .lowLevelOutput (p.frame mem)

/-- `netif_output(netif, p, ipaddr)`. -/
def netifOutput (p : Pbuf) (mem : Memory) : TxAction := .netifOutput (p.frame mem)

end Pbuf

/-! ### Receiving -/

/-- `rx_buffer`. -/
abbrev RxBuffer := Mem (ringSize * bufferSize)

/-- The bytes of a used element: the first `len` of its buffer. -/
def frameAt (rxBuffer : RxBuffer) (e : VringUsedElem) : Str :=
  (List.range e.len.toNat).map fun k => rxBuffer.byte (bufferSize * e.id.toNat + k)

theorem length_frameAt {rxBuffer : RxBuffer} {e : VringUsedElem} :
    (frameAt rxBuffer e).length = e.len.toNat := by
  rw [frameAt, List.length_map, List.length_range]

/-- A copy out of a buffer does not leave the array. -/
theorem memcpyFrom_frameAt {rxBuffer : RxBuffer} {e : VringUsedElem} (hid : e.id.toNat < ringSize)
    (hlen : e.len.toNat ≤ bufferSize) :
    rxBuffer.memcpyFrom (bufferSize * e.id.toNat : Nat) e.len.toNat =
      .ok (frameAt rxBuffer e) := by
  have hbounds : (0 : Int) ≤ (bufferSize * e.id.toNat : Nat) ∧
      ((bufferSize * e.id.toNat : Nat) : Int) + e.len.toNat ≤ (ringSize * bufferSize : Nat) := by
    unfold ringSize bufferSize at *
    omega
  rw [Mem.memcpyFrom, if_pos hbounds, Int.toNat_natCast]
  rfl

/-- What `hardware_irq_handle` gives to `netif.input`: the packet, the copy that filled it, and the
memory after that. -/
structure Packet where
  pbuf : Pbuf
  copy : Block
  mem : Memory

/-- The part of `hardware_irq_handle` that makes a packet of a used element.  `pbuf_alloc` takes the
length as a `u16_t`.  The copy starts at the payload of the first segment, however long that is. -/
def receivePacket (pbufAlloc : UInt16 → Option Pbuf) (rxBuffer : RxBuffer) (mem : Memory)
    (e : VringUsedElem) : Except Fault (Option Packet) :=
  match pbufAlloc e.len.toUInt16 with
  | none => .ok none
  | some p => do
    let data ← rxBuffer.memcpyFrom (bufferSize * e.id.toNat : Nat) e.len.toNat
    .ok (some ⟨p, ⟨p.head.payload, data⟩, overlay mem p.head.payload data⟩)

end BankSel4.Network
