import BankSel4.Network.Equiv.Transmit
import BankSel4.Network.Pbuf

/-!
# Packets that are sent

`SentWhole mem p s`: from the state `s`, a call of `low_level_output` or `netif_output` for the
packet `p` offers it whole, whatever the device does meanwhile.  Both functions copy `p->len` bytes
and describe `p->len` bytes, and do not look at `p->next`.  So a packet goes out whole exactly when
its first segment is all of it (`sentWhole_iff`).

A step of the device leaves what the driver has written (`TxState.driver`), so a call ends there as
it does when the device stands still (`driver_of_isCall`).
-/

namespace BankSel4.Network

/-! ### Segments -/

namespace Pbuf

variable {p : Pbuf} {mem : Memory}

theorem totLen_eq (p : Pbuf) : p.head.totLen.toNat = totalLen p.segments := p.totLens.1

theorem totalLen_segments (p : Pbuf) :
    totalLen p.segments = p.head.len.toNat + totalLen p.next := by
  rw [segments, totalLen, List.map_cons, List.sum_cons, totalLen]

@[simp] theorem length_frame (p : Pbuf) (mem : Memory) : (p.frame mem).length = p.head.len.toNat :=
  length_bytesAt ..

theorem len_le_totLen (p : Pbuf) : p.head.len.toNat ≤ p.head.totLen.toNat := by
  rw [p.totLen_eq, p.totalLen_segments]
  exact Nat.le_add_right ..

/-- The bytes of a packet start with those of its first segment. -/
theorem contents_eq (p : Pbuf) (mem : Memory) :
    p.contents mem = p.frame mem ++ p.next.flatMap (Segment.data mem) := rfl

/-- The first segment is all of the packet. -/
def Single (p : Pbuf) : Prop := ∀ seg ∈ p.next, seg.len = 0

instance (p : Pbuf) : Decidable p.Single := inferInstanceAs (Decidable (∀ _ ∈ _, _))

theorem single_iff : p.Single ↔ p.head.len.toNat = p.head.totLen.toNat := by
  have hzero : totalLen p.next = 0 ↔ p.Single := by
    rw [totalLen, List.sum_eq_zero_iff_forall_eq_nat, List.forall_mem_map]
    refine forall₂_congr fun seg _ => ?_
    rw [← UInt16.toNat_inj]
    rfl
  rw [← hzero, p.totLen_eq, p.totalLen_segments]
  omega

theorem Single.contents_eq_frame (h : p.Single) (mem : Memory) : p.contents mem = p.frame mem := by
  have hnil : p.next.flatMap (Segment.data mem) = [] := by
    rw [List.flatMap_eq_nil_iff]
    intro seg hseg
    rw [Segment.data, h seg hseg]
    rfl
  rw [contents_eq, hnil, List.append_nil]

end Pbuf

/-! ### Steps of the device -/

/-- A step of the device. -/
def TxAction.OfDevice : TxAction → Prop
  | .take | .read _ | .complete _ => True
  | .lowLevelOutput _ | .netifOutput _ | .run => False

instance : DecidablePred TxAction.OfDevice := fun a => by
  cases a <;> unfold TxAction.OfDevice <;> infer_instance

/-- The call `a` to its return, with steps of the device in between. -/
def IsCall (a : TxAction) (l : List TxAction) : Prop :=
  l.filter (fun b => ¬ b.OfDevice) = a :: List.replicate 4 .run

namespace TxState

variable {s s' : TxState} {q q' : Logged}

/-- What the driver has written. -/
def driver (s : TxState) : TxState where
  txRing := ⟨s.txRing.desc, s.txRing.availRing, s.txRing.availIdx, Vring.zero.usedRing, 0⟩
  txBuffer := s.txBuffer
  txIdx := s.txIdx
  phase := s.phase
  device := ⟨0, []⟩

theorem driver_of_ofDevice {a : TxAction} (ha : a.OfDevice) {r : TxState × Option TxEvent}
    (hs : s.step a = some r) : r.1.driver = s.driver := by
  cases a with
  | take =>
    rw [step] at hs
    split_ifs at hs
    rw [← Option.some.inj hs]
    rfl
  | read k =>
    obtain ⟨id, -, rfl⟩ := Option.map_eq_some_iff.mp hs
    rfl
  | complete k =>
    obtain ⟨id, -, rfl⟩ := Option.map_eq_some_iff.mp hs
    rfl
  | _ => exact absurd ha id

theorem output_driver (s : TxState) (frame : Str) :
    s.driver.output frame = (s.output frame).map fun r => (r.1.driver, r.2) := by
  unfold output
  have hphase : s.driver.phase = s.phase := rfl
  rw [hphase]
  split_ifs
  · rw [Option.map_map]
    rfl
  · rfl

theorem run_driver (s : TxState) :
    s.driver.run = s.run.map fun r => (r.1.driver, r.2) := by
  have hphase : s.driver.phase = s.phase := rfl
  unfold run
  rw [hphase]
  cases s.phase <;> rfl

/-- A step of the driver depends on what the driver has written only. -/
theorem step_driver {a : TxAction} (ha : ¬ a.OfDevice) {r : TxState × Option TxEvent}
    (hs : s.step a = some r) : s.driver.step a = some (r.1.driver, r.2) := by
  cases a with
  | lowLevelOutput frame | netifOutput frame =>
    exact (output_driver s frame).trans (by rw [show s.output frame = some r from hs]; rfl)
  | run => exact (run_driver s).trans (by rw [show s.run = some r from hs]; rfl)
  | _ => exact absurd trivial ha

/-- The steps of the driver do the same without those of the device. -/
theorem runSteps_driver {l : List TxAction} (hrun : runSteps (withLog TxState.step) q l = some q')
    (log : List (TxAction × Option TxEvent)) : ∃ log',
      runSteps (withLog TxState.step) (q.1.driver, log) (l.filter fun a => ¬ a.OfDevice) =
        some (q'.1.driver, log') := by
  induction l generalizing q log with
  | nil =>
    obtain rfl := Option.some.inj hrun
    exact ⟨log, rfl⟩
  | cons a l ih =>
    obtain ⟨t, ht, hrun'⟩ := Option.bind_eq_some_iff.mp hrun
    obtain ⟨ev, hstep, -⟩ := withLog_eq_some.mp ht
    by_cases ha : a.OfDevice
    · obtain ⟨log', hlog'⟩ := ih hrun' log
      rw [List.filter_cons_of_neg (by simpa using ha), ← driver_of_ofDevice ha hstep]
      exact ⟨log', hlog'⟩
    · obtain ⟨log', hlog'⟩ := ih hrun' (log ++ [(a, ev)])
      have hdriver : withLog TxState.step (q.1.driver, log) a =
          some (t.1.driver, log ++ [(a, ev)]) := withLog_of_step (step_driver ha hstep)
      rw [List.filter_cons_of_pos (by simpa using ha), runSteps_cons, hdriver, Option.bind_some]
      exact ⟨log', hlog'⟩

/-- What a call has written when it returns. -/
theorem driver_of_isCall {a : TxAction} {frame : Str}
    (ha : ∀ t : TxState, t.step a = t.output frame) (hidle : s.phase = .idle)
    (hfits : frame.length ≤ bufferSize) {l : List TxAction} (hcall : IsCall a l)
    (hrun : runSteps (withLog TxState.step) (s, []) l = some q) :
    q.1.driver = s.driver.sent frame := by
  obtain ⟨log', hdriver⟩ := runSteps_driver hrun []
  rw [show l.filter _ = _ from hcall, runSteps_call (ha _) hidle hfits] at hdriver
  exact (congrArg Prod.fst (Option.some.inj hdriver)).symm

/-! ### Packets that are offered -/

/-- The descriptor in the avail entry that a call from `s` writes. -/
def offered (s s' : TxState) : UInt16 := s'.txRing.availRing (slot s.txRing.availIdx)

section Offered

variable {frame : Str}

theorem offered_eq (h : s'.driver = s.driver.sent frame) :
    offered s s' = UInt16.ofNat (slot s.txIdx) := by
  have hring : s'.txRing.availRing = Function.update s.txRing.availRing (slot s.txRing.availIdx)
      (UInt16.ofNat (slot s.txIdx)) := congrArg (fun t => t.txRing.availRing) h
  rw [offered, hring, Function.update_self]

theorem desc_offered (h : s'.driver = s.driver.sent frame) :
    s'.txRing.desc (offered s s').toNat =
      ⟨bufferSize * slot s.txIdx, UInt32.ofNat frame.length, 0⟩ := by
  have hdesc : s'.txRing.desc = Function.update s.txRing.desc (slot s.txIdx)
      ⟨bufferSize * slot s.txIdx, UInt32.ofNat frame.length, 0⟩ :=
    congrArg (fun t => t.txRing.desc) h
  rw [offered_eq h, show (UInt16.ofNat (slot s.txIdx)).toNat = slot s.txIdx from toNat_ofNat_mod _,
    hdesc, Function.update_self]

theorem txBuffer_eq (h : s'.driver = s.driver.sent frame) :
    s'.txBuffer = s.txBuffer.store (bufferSize * slot s.txIdx) frame :=
  congrArg txBuffer h

theorem slot_room (idx : UInt16) (hfits : frame.length ≤ bufferSize) :
    bufferSize * slot idx + frame.length ≤ ringSize * bufferSize := by
  have hlt := slot_lt idx
  unfold ringSize bufferSize at *
  omega

/-- The device finds the frame in the buffer of the descriptor. -/
theorem readBuffer_offered (h : s'.driver = s.driver.sent frame)
    (hfits : frame.length ≤ bufferSize) : s'.readBuffer (offered s s') = frame := by
  refine readBuffer_of_holds hfits (desc_offered h) ?_
  rw [txBuffer_eq h]
  exact Mem.holds_store _ (slot_room _ hfits)

/-- The other slots keep their bytes. -/
theorem byte_of_not_slot (h : s'.driver = s.driver.sent frame) (hfits : frame.length ≤ bufferSize)
    {i : Nat} (hi : i < bufferSize * slot s.txIdx ∨ bufferSize * (slot s.txIdx + 1) ≤ i) :
    s'.txBuffer.byte i = s.txBuffer.byte i := by
  have hout : ¬ (bufferSize * slot s.txIdx ≤ i ∧ i < bufferSize * slot s.txIdx + frame.length) := by
    unfold bufferSize at *
    omega
  rw [txBuffer_eq h, Mem.byte_store _ (slot_room _ hfits), overlay_of_not_mem hout]

end Offered

end TxState

/-- From `s` to `s'` one entry has been offered, with the length and the bytes of the packet, and no
byte of another slot of `tx_buffer` has changed. -/
structure OfferedWhole (mem : Memory) (p : Pbuf) (s s' : TxState) : Prop where
  availIdx_eq : s'.txRing.availIdx = s.txRing.availIdx + 1
  len_eq : (s'.txRing.desc (s.offered s').toNat).len.toNat = p.head.totLen.toNat
  contents_eq : s'.readBuffer (s.offered s') = p.contents mem
  slot_only : ∀ i, i < bufferSize * slot s.txIdx ∨ bufferSize * (slot s.txIdx + 1) ≤ i →
    s'.txBuffer.byte i = s.txBuffer.byte i

/-- A call of either function from the state `s` sends the packet whole. -/
structure SentWhole (mem : Memory) (p : Pbuf) (s : TxState) : Prop where
  /-- The calls return. -/
  returns : ∀ a ∈ [p.lowLevelOutput mem, p.netifOutput mem], ∃ l q, IsCall a l ∧
    runSteps (withLog TxState.step) (s, []) l = some q
  /-- When they return, whatever the device did, the packet has been offered whole. -/
  offered : ∀ a ∈ [p.lowLevelOutput mem, p.netifOutput mem], ∀ l q, IsCall a l →
    runSteps (withLog TxState.step) (s, []) l = some q → OfferedWhole mem p s q.1
  /-- The copy of the payload stays in its slot of `tx_buffer`. -/
  within : (⟨bufferSize * slot s.txIdx, p.frame mem⟩ : Block).Within
    (bufferSize * slot s.txIdx) (bufferSize * (slot s.txIdx + 1))
  /-- Both functions offer the same descriptor. -/
  same : ∀ l l' q q', IsCall (p.lowLevelOutput mem) l → IsCall (p.netifOutput mem) l' →
    runSteps (withLog TxState.step) (s, []) l = some q →
    runSteps (withLog TxState.step) (s, []) l' = some q' →
    q.1.txRing.desc (s.offered q.1).toNat = q'.1.txRing.desc (s.offered q'.1).toNat

section SentWhole

variable {mem : Memory} {p : Pbuf} {s : TxState}

theorem step_of_mem_calls {a : TxAction} (ha : a ∈ [p.lowLevelOutput mem, p.netifOutput mem])
    (t : TxState) : t.step a = t.output (p.frame mem) := by
  rcases List.mem_pair.mp ha with rfl | rfl
  · rfl
  · rfl

theorem isCall_of_driver (a : TxAction) (ha : ¬ a.OfDevice) :
    IsCall a (a :: List.replicate 4 .run) := by
  rw [IsCall, List.filter_cons_of_pos (by simpa using ha)]
  rfl

/-- The two calls return when the device stands still. -/
theorem exists_isCall (hidle : s.phase = .idle) (hfits : p.head.len.toNat ≤ bufferSize)
    {a : TxAction} (ha : a ∈ [p.lowLevelOutput mem, p.netifOutput mem]) : ∃ l q, IsCall a l ∧
      runSteps (withLog TxState.step) (s, []) l = some q := by
  have hdriver : ¬ a.OfDevice := by
    rcases List.mem_pair.mp ha with rfl | rfl
    · exact id
    · exact id
  rw [← p.length_frame mem] at hfits
  exact ⟨_, _, isCall_of_driver a hdriver,
    TxState.runSteps_call (q := (s, [])) (step_of_mem_calls ha s) hidle hfits⟩

/-- The descriptor offered has the length of the first segment. -/
theorem len_offered {s' : TxState} (h : s'.driver = s.driver.sent (p.frame mem)) :
    (s'.txRing.desc (s.offered s').toNat).len.toNat = p.head.len.toNat := by
  rw [TxState.desc_offered h, p.length_frame, UInt32.toNat_ofNat']
  exact Nat.mod_eq_of_lt (Nat.lt_trans p.head.len.toNat_lt (by decide))

/-- A packet that is its first segment is offered whole. -/
theorem OfferedWhole.of_single (hsingle : p.Single) (hfits : p.head.len.toNat ≤ bufferSize)
    {s' : TxState} (h : s'.driver = s.driver.sent (p.frame mem)) : OfferedWhole mem p s s' where
  availIdx_eq := congrArg (fun t => t.txRing.availIdx) h
  len_eq := (len_offered h).trans (Pbuf.single_iff.mp hsingle)
  contents_eq := by
    rw [TxState.readBuffer_offered h (by rwa [p.length_frame]), hsingle.contents_eq_frame]
  slot_only i hi := TxState.byte_of_not_slot h (by rwa [p.length_frame]) hi

/-- **Packets go out whole** exactly when their first segment is all of them. -/
theorem sentWhole_iff (hidle : s.phase = .idle) (hlen : p.head.totLen.toNat ≤ 1514) :
    SentWhole mem p s ↔ p.Single := by
  have hfits : p.head.len.toNat ≤ bufferSize :=
    p.len_le_totLen.trans (hlen.trans (by decide))
  have hdriver : ∀ {a}, a ∈ [p.lowLevelOutput mem, p.netifOutput mem] → ∀ {l q}, IsCall a l →
      runSteps (withLog TxState.step) (s, []) l = some q →
      q.1.driver = s.driver.sent (p.frame mem) := fun ha _ _ hcall hrun =>
    TxState.driver_of_isCall (step_of_mem_calls ha) hidle (by rwa [p.length_frame]) hcall hrun
  constructor
  · rintro ⟨hreturns, hoffered, -, -⟩
    obtain ⟨l, q, hcall, hrun⟩ := hreturns _ (List.mem_cons_self ..)
    have hwhole := hoffered _ (List.mem_cons_self ..) l q hcall hrun
    rw [Pbuf.single_iff, ← hwhole.len_eq]
    exact (len_offered (hdriver (List.mem_cons_self ..) hcall hrun)).symm
  · intro hsingle
    refine ⟨fun a ha => exists_isCall hidle hfits ha, fun a ha l q hcall hrun => ?_, ?_, ?_⟩
    · exact OfferedWhole.of_single hsingle hfits (hdriver ha hcall hrun)
    · refine ⟨le_rfl, ?_⟩
      dsimp only
      rw [p.length_frame]
      unfold bufferSize at *
      omega
    · intro l l' q q' hcall hcall' hrun hrun'
      have hlow := hdriver (List.mem_cons_self ..) hcall hrun
      have hnetif := hdriver (List.mem_cons_of_mem _ (List.mem_singleton_self _)) hcall' hrun'
      rw [TxState.desc_offered hlow, TxState.desc_offered hnetif]

end SentWhole

/-- A TCP segment of full size: the headers in one segment and the data in another. -/
def tcpPacket : Pbuf := ⟨⟨0x100, 54, 1514⟩, [⟨0x1000, 1460, 1460⟩], by decide⟩

theorem sentWhole_iff_tcpPacket :
    SentWhole (fun _ => 0) tcpPacket txStart ↔ tcpPacket.Single :=
  sentWhole_iff rfl (by decide)

/-- The headers go out without the data. -/
theorem not_sentWhole_tcpPacket : txStart.phase = .idle ∧
    tcpPacket.head.totLen.toNat ≤ 1514 ∧ ¬ SentWhole (fun _ => 0) tcpPacket txStart := by
  refine ⟨rfl, by decide, fun h => ?_⟩
  obtain ⟨l, q, hcall, hrun⟩ := h.returns _ (List.mem_cons_self ..)
  have hdriver : q.1.driver = txStart.driver.sent (tcpPacket.frame fun _ => 0) :=
    TxState.driver_of_isCall (fun _ => rfl) rfl (by rw [tcpPacket.length_frame]; decide) hcall hrun
  have hlen := (h.offered _ (List.mem_cons_self ..) l q hcall hrun).len_eq
  rw [len_offered hdriver] at hlen
  exact absurd hlen (by decide)

end BankSel4.Network
