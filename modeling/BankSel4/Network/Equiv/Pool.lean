import BankSel4.Network.Equiv.Send

/-!
# Packets that are received

`PoolAlloc headerSize bufSize pbufAlloc` is what lwIP promises of `pbuf_alloc` for packets from its
pool: a chain of segments with the length asked for, each with a payload of at most `bufSize` bytes
(`PBUF_POOL_BUFSIZE`) behind a `struct pbuf` of its own.

`ReceivedIntact`: the packet that `hardware_irq_handle` gives to lwIP has the bytes that were
received, and they were copied to payloads of the packet only.  The copy runs on from the payload of
the first segment, so it leaves that payload as soon as the packet has a second one:
`receivedIntact_iff`.
-/

namespace BankSel4.Network

/-- A chain of the pool, of the length `len`. -/
structure PoolChain (headerSize bufSize : Nat) (len : UInt16) (p : Pbuf) : Prop where
  totLen_eq : p.head.totLen = len
  len_le : ∀ seg ∈ p.segments, seg.len.toNat ≤ bufSize
  /-- The buffers of the segments are apart, with a `struct pbuf` before each. -/
  apart : p.segments.Pairwise fun q r =>
    q.payload + bufSize + headerSize ≤ r.payload ∨ r.payload + bufSize + headerSize ≤ q.payload

/-- `pbuf_alloc(PBUF_RAW, .., PBUF_POOL)` returns chains of the pool, if it does not fail. -/
def PoolAlloc (headerSize bufSize : Nat) (pbufAlloc : UInt16 → Option Pbuf) : Prop :=
  ∀ len p, pbufAlloc len = some p → PoolChain headerSize bufSize len p

/-- The packet `p` for the used element has the bytes received, and nothing but payloads of it was
written. -/
def ReceivedIntact (pbufAlloc : UInt16 → Option Pbuf) (rxBuffer : RxBuffer) (mem : Memory)
    (e : VringUsedElem) (p : Pbuf) : Prop :=
  ∃ packet, receivePacket pbufAlloc rxBuffer mem e = .ok (some packet) ∧ packet.pbuf = p ∧
    p.contents packet.mem = frameAt rxBuffer e ∧
    ∀ a : Nat, packet.copy.addr ≤ a → a < packet.copy.addr + packet.copy.data.length →
      ∃ seg ∈ p.segments, seg.Covers a

/-! ### The copy -/

/-- A block that was put somewhere is found there. -/
theorem bytesAt_overlay (mem : Memory) (addr : Nat) (data : Str) :
    bytesAt (overlay mem addr data) addr data.length = data := by
  refine List.ext_getElem (length_bytesAt ..) fun i hi hi' => ?_
  simp only [bytesAt, List.getElem_map, List.getElem_range]
  rw [overlay_of_mem (Nat.le_add_right ..) (Nat.add_lt_add_left hi' _), Nat.add_sub_cancel_left,
    List.getD_eq_getElem _ _ hi']

section Receive

variable {pbufAlloc : UInt16 → Option Pbuf} {rxBuffer : RxBuffer} {mem : Memory} {e : VringUsedElem}
  {p : Pbuf} {headerSize bufSize : Nat}

/-- The handler makes the packet of what is in the buffer. -/
theorem receivePacket_eq (hid : e.id.toNat < ringSize) (hlen : e.len.toNat ≤ bufferSize)
    (hp : pbufAlloc e.len.toUInt16 = some p) : receivePacket pbufAlloc rxBuffer mem e =
      .ok (some ⟨p, ⟨p.head.payload, frameAt rxBuffer e⟩,
        overlay mem p.head.payload (frameAt rxBuffer e)⟩) := by
  rw [receivePacket, hp]
  dsimp only
  rw [memcpyFrom_frameAt hid hlen]
  rfl

/-- What it means for the packet to be intact. -/
theorem receivedIntact_iff_copy (hid : e.id.toNat < ringSize) (hlen : e.len.toNat ≤ bufferSize)
    (hp : pbufAlloc e.len.toUInt16 = some p) : ReceivedIntact pbufAlloc rxBuffer mem e p ↔
      p.contents (overlay mem p.head.payload (frameAt rxBuffer e)) = frameAt rxBuffer e ∧
      ∀ a, p.head.payload ≤ a → a < p.head.payload + e.len.toNat →
        ∃ seg ∈ p.segments, seg.Covers a := by
  unfold ReceivedIntact
  rw [receivePacket_eq hid hlen hp]
  constructor
  · rintro ⟨packet, hpacket, -, hcontents, hinside⟩
    obtain rfl := Option.some.inj (Except.ok.inj hpacket)
    refine ⟨hcontents, fun a hlo hhi => hinside a (Int.ofNat_le.mpr hlo) ?_⟩
    dsimp only
    rw [length_frameAt]
    exact_mod_cast hhi
  · rintro ⟨hcontents, hinside⟩
    refine ⟨_, rfl, rfl, hcontents, fun a hlo hhi => hinside a (Int.ofNat_le.mp hlo) ?_⟩
    dsimp only at hhi
    rw [length_frameAt] at hhi
    exact_mod_cast hhi

/-! ### Chains of the pool -/

/-- Behind the payload of the first segment comes no payload of the packet. -/
theorem PoolChain.not_covers {len : UInt16} (h : PoolChain headerSize bufSize len p)
    (hheader : 0 < headerSize) {seg : Segment} (hseg : seg ∈ p.segments) :
    ¬ seg.Covers (p.head.payload + p.head.len.toNat) := by
  rintro ⟨hlo, hhi⟩
  have hhead := h.len_le _ (List.mem_cons_self ..)
  have hle := h.len_le _ hseg
  rcases List.mem_cons.mp hseg with rfl | hnext
  · exact absurd hhi (Nat.lt_irrefl _)
  · have hapart := (List.pairwise_cons.mp h.apart).1 seg hnext
    omega

theorem toNat_toUInt16_len (hlen : e.len.toNat ≤ bufferSize) :
    e.len.toUInt16.toNat = e.len.toNat := by
  rw [UInt32.toNat_toUInt16]
  exact Nat.mod_eq_of_lt (Nat.lt_of_le_of_lt hlen (by decide))

/-- The packet is as long as what was received. -/
theorem PoolChain.totalLen_eq (h : PoolChain headerSize bufSize e.len.toUInt16 p)
    (hlen : e.len.toNat ≤ bufferSize) : p.head.totLen.toNat = e.len.toNat := by
  rw [h.totLen_eq, toNat_toUInt16_len hlen]

/-- A first segment with room for all that was received is all of the packet. -/
theorem PoolChain.single (h : PoolChain headerSize bufSize e.len.toUInt16 p)
    (hlen : e.len.toNat ≤ bufferSize) (hfits : e.len.toNat ≤ p.head.len.toNat) :
    p.Single ∧ p.head.len.toNat = e.len.toNat := by
  have htotal := h.totalLen_eq hlen
  have hle := p.len_le_totLen
  rw [Pbuf.single_iff]
  omega

/-- **Packets are received intact** exactly when the first segment holds all of them. -/
theorem receivedIntact_iff (halloc : PoolAlloc headerSize bufSize pbufAlloc)
    (hheader : 0 < headerSize) (hid : e.id.toNat < ringSize) (hlen : e.len.toNat ≤ bufferSize)
    (hp : pbufAlloc e.len.toUInt16 = some p) :
    (ReceivedIntact pbufAlloc rxBuffer mem e p ↔ e.len.toNat ≤ p.head.len.toNat) ∧
      -- a pool that fills a segment before it takes the next one
      (p.head.len.toNat = min e.len.toNat bufSize →
        (ReceivedIntact pbufAlloc rxBuffer mem e p ↔ e.len.toNat ≤ bufSize)) := by
  have hchain := halloc _ p hp
  have hiff : ReceivedIntact pbufAlloc rxBuffer mem e p ↔ e.len.toNat ≤ p.head.len.toNat := by
    rw [receivedIntact_iff_copy hid hlen hp]
    constructor
    · rintro ⟨-, hinside⟩
      -- otherwise the copy reaches the byte behind the first payload
      by_contra hlt
      obtain ⟨seg, hseg, hcovers⟩ := hinside (p.head.payload + p.head.len.toNat)
        (Nat.le_add_right ..) (by omega)
      exact hchain.not_covers hheader hseg hcovers
    · intro hfits
      obtain ⟨hsingle, hhead⟩ := hchain.single hlen hfits
      refine ⟨?_, fun a hlo hhi => ⟨p.head, List.mem_cons_self .., hlo, by omega⟩⟩
      have hdata := bytesAt_overlay mem p.head.payload (frameAt rxBuffer e)
      rw [length_frameAt] at hdata
      rw [hsingle.contents_eq_frame, Pbuf.frame, hhead, hdata]
  refine ⟨hiff, fun hfilled => ?_⟩
  rw [hiff, hfilled, Nat.le_min]
  exact and_iff_right le_rfl

end Receive

/-- A packet of 1514 bytes in a pool with buffers of 592 bytes, behind headers of 16. -/
def fullPacket : Pbuf :=
  ⟨⟨0x1010, 592, 1514⟩, [⟨0x1270, 592, 922⟩, ⟨0x14d0, 330, 330⟩], by decide⟩

/-- A pool that has the packet left. -/
def fullPool (len : UInt16) : Option Pbuf := if len = 1514 then some fullPacket else none

theorem poolAlloc_fullPool : PoolAlloc 16 592 fullPool := by
  intro len p hp
  unfold fullPool at hp
  split_ifs at hp with hlen
  rw [← Option.some.inj hp, hlen]
  exact ⟨rfl, by decide, by decide⟩

theorem receivedIntact_iff_fullPool :
    (ReceivedIntact fullPool Mem.zero (fun _ => 0) ⟨0, 1514⟩ fullPacket ↔
      (1514 : UInt32).toNat ≤ fullPacket.head.len.toNat) ∧
    (fullPacket.head.len.toNat = min (1514 : UInt32).toNat 592 →
      (ReceivedIntact fullPool Mem.zero (fun _ => 0) ⟨0, 1514⟩ fullPacket ↔
        (1514 : UInt32).toNat ≤ 592)) :=
  receivedIntact_iff (e := ⟨0, 1514⟩) poolAlloc_fullPool (by decide) (by decide) (by decide) rfl

/-- The copy of a frame of full size runs over the `struct pbuf` of the second segment. -/
theorem not_receivedIntact_fullPool : PoolAlloc 16 592 fullPool ∧
    fullPool (1514 : UInt32).toUInt16 = some fullPacket ∧
    ¬ ReceivedIntact fullPool Mem.zero (fun _ => 0) ⟨0, 1514⟩ fullPacket := by
  refine ⟨poolAlloc_fullPool, rfl, fun h => ?_⟩
  obtain ⟨-, hinside⟩ := (receivedIntact_iff_copy (e := ⟨0, 1514⟩) (by decide) (by decide) rfl).mp h
  obtain ⟨seg, hseg, hcovers⟩ := hinside (0x1010 + 592) (by decide) (by decide)
  exact (poolAlloc_fullPool 1514 _ rfl).not_covers (by decide) hseg hcovers

end BankSel4.Network
