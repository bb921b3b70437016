import BankSel4.Network.Layout

/-!
# Rings in arrays that are too small

With 256 slots and an alignment of 4096 the used ring of an array starts 8192 bytes behind its
start, where the array ends.  So an access to a used ring is outside the array, and what comes right
behind the array has the used ring at its start: the descriptors of the other queue, or the buffers.
A frame that does not fit the rest of `tx_buffer` is copied to what comes behind that.

`Avoids` are the steps that do not come across this.  In a run of such steps the queues keep to
their arrays and do not disturb each other, and in no other run whose frames fit:
`queuesIndependent_iff`.
-/

namespace BankSel4.Network

section Bytes

variable {mem mem' : Memory}

theorem length_leBytes (width value : Nat) : (leBytes width value).length = width := by
  induction width generalizing value with
  | zero => rfl
  | succ width ih => rw [leBytes, List.length_cons, ih]

theorem readLe_congr {addr width : Nat} (h : ∀ k < width, mem' (addr + k) = mem (addr + k)) :
    readLe mem' addr width = readLe mem addr width := by
  induction width generalizing addr with
  | zero => rfl
  | succ width ih =>
    have hhead := h 0 (Nat.succ_pos width)
    have htail : ∀ k < width, mem' (addr + 1 + k) = mem (addr + 1 + k) := by
      intro k hk
      rw [Nat.add_assoc, Nat.add_comm 1 k]
      exact h (k + 1) (Nat.succ_lt_succ hk)
    rw [Nat.add_zero] at hhead
    rw [readLe, readLe, hhead, ih htail]

end Bytes

namespace Field

/-- Two fields have no byte in common. -/
def Disjoint (vr : VringAddr) (f : Field) (vr' : VringAddr) (f' : Field) : Prop :=
  f.addr vr + f.width ≤ f'.addr vr' ∨ f'.addr vr' + f'.width ≤ f.addr vr

end Field

theorem Queue.other_eq {q q' : Queue} (h : q ≠ q') : q.other = q' := by
  cases q <;> cases q' <;> first | rfl | exact absurd rfl h

/-- No byte is copied onto the field. -/
def Copy.Misses (c : Copy) (vr : VringAddr) (f : Field) : Prop :=
  c.len = 0 ∨ c.addr + c.len ≤ f.addr vr ∨ f.addr vr + f.width ≤ c.addr

/-- Where `vring_init` puts the rings of an array. -/
def ringsAt (base : Nat) : VringAddr := ⟨base, base + 4096, base + 8192⟩

theorem StandardLayout.eq_ringsAt {vringInit : Nat → Nat → Nat → VringAddr}
    (h : StandardLayout vringInit) {base : Nat} (hbase : 4096 ∣ base) :
    vringInit ringSize base 4096 = ringsAt base := by
  rw [h _ _ _ (by decide), ringsAt, alignUp, ringSize]
  congr 1
  omega

namespace MemState

variable {vringInit : Nat → Nat → Nat → VringAddr} {p : Placement} {s s' : MemState} {a : MemAction}

/-- The fields that the last step accessed lie in the arrays of their queues. -/
def Inside (p : Placement) (s' : MemState) : Prop :=
  ∀ x ∈ s'.accesses, p.ringMem x.queue ≤ x.field.addr (s'.ring x.queue) ∧
    x.field.addr (s'.ring x.queue) + x.field.width ≤ p.ringMem x.queue + ringMemSize

/-- What the last step wrote and copied has no byte in common with a field of the other queue. -/
def Apart (s' : MemState) : Prop :=
  (∀ x ∈ s'.accesses, x.write → ∀ f : Field, f.Valid →
    x.field.Disjoint (s'.ring x.queue) (s'.ring x.queue.other) f) ∧
  ∀ c ∈ s'.copies, ∀ f : Field, f.Valid → c.Misses (s'.ring c.queue.other) f

/-- The step from `s` to `s'` changes no field of a queue that it is not an operation on. -/
def Unchanged (s s' : MemState) : Prop :=
  ∀ q, (∀ x ∈ s'.accesses, x.queue ≠ q) → (∀ c ∈ s'.copies, c.queue ≠ q) →
    ∀ f : Field, f.Valid →
      readLe s'.mem (f.addr (s'.ring q)) f.width = readLe s.mem (f.addr (s'.ring q)) f.width

/-- The step keeps to the arrays and does not disturb the other queue. -/
def Independent (vringInit : Nat → Nat → Nat → VringAddr) (p : Placement) (s : MemState)
    (a : MemAction) : Prop :=
  ∀ s' ∈ step vringInit p s a, Inside p s' ∧ Apart s' ∧ Unchanged s s'

/-- If the step is a send, the frame ends inside `tx_buffer`. -/
def FrameFits (s : MemState) : MemAction → Prop
  | .lowLevelOutput frame | .netifOutput frame =>
    bufferSize * slot s.txIdx + frame.length ≤ buffersSize
  | _ => True

/-- The rings of both queues are not set, or set to their arrays. -/
def RingsOk (p : Placement) (s : MemState) : Prop :=
  s.rings = none ∨ s.rings = some (ringsAt p.rxRingMem, ringsAt p.txRingMem)

theorem ring_of_rings (h : s.rings = some (ringsAt p.rxRingMem, ringsAt p.txRingMem))
    (q : Queue) : s.ring q = ringsAt (p.ringMem q) := by
  cases q <;> simp [ring, h, Placement.ringMem]

/-- The descriptors and the avail ring end before the array does. -/
theorem inside_of_not_used {f : Field} (hvalid : f.Valid) (hused : ¬ f.Used) (base : Nat) :
    base ≤ f.addr (ringsAt base) ∧ f.addr (ringsAt base) + f.width ≤ base + 4612 := by
  cases f with
  | usedIdx | usedId _ | usedLen _ => exact absurd trivial hused
  | _ =>
    simp only [Field.Valid, Field.addr, Field.width, ringsAt, ringSize] at *
    omega

/-- The used ring starts where the array ends. -/
theorem used_of_used {f : Field} (hvalid : f.Valid) (hused : f.Used) (base : Nat) :
    base + 8194 ≤ f.addr (ringsAt base) ∧ f.addr (ringsAt base) + f.width ≤ base + 10244 := by
  cases f with
  | usedIdx | usedId _ | usedLen _ =>
    simp only [Field.Valid, Field.addr, Field.width, ringsAt, ringSize] at *
    omega
  | _ => exact hused.elim

theorem bufferSize_mul_add_le {i len : Nat} (hi : i < ringSize) (hlen : len ≤ bufferSize) :
    bufferSize * i + len ≤ buffersSize := by
  unfold buffersSize ringSize bufferSize at *
  omega

/-- The notes of an iteration that finds an element. -/
def noteElement (s : MemState) : MemState :=
  ((s.note ⟨.rx, .usedIdx, false⟩).note ⟨.rx, .usedLen (slot s.lastRxIdx), false⟩).note
    ⟨.rx, .usedId (slot s.lastRxIdx), false⟩

/-- The body of the loop, up to the copy. -/
def copyElement (p : Placement) (s : MemState) (payload : Option Nat) : MemState :=
  (noteElement s).copyPacket p payload (s.value .rx (.usedId (slot s.lastRxIdx)))
    (s.value .rx (.usedLen (slot s.lastRxIdx)))

theorem irqIteration_of_eq (payload : Option Nat) (h : s.lastRxIdx.toNat = s.value .rx .usedIdx) :
    irqIteration p s payload = { s.note ⟨.rx, .usedIdx, false⟩ with inLoop := false } :=
  if_neg (not_not.mpr h)

theorem irqIteration_of_ne (payload : Option Nat) (h : s.lastRxIdx.toNat ≠ s.value .rx .usedIdx) :
    irqIteration p s payload =
      { (copyElement p s payload).pushAvail .rx (s.value .rx (.usedId (slot s.lastRxIdx))) with
        lastRxIdx := ((copyElement p s payload).pushAvail .rx
          (s.value .rx (.usedId (slot s.lastRxIdx)))).lastRxIdx + 1 } :=
  if_pos h

/-! ### Frames -/

/-- What comes after `s` by accesses to the rings and copies: the memory is the same but for the
fields that are written and the bytes that are copied. -/
structure Frame (s s' : MemState) : Prop where
  rings : s'.rings = s.rings
  changes : ∃ xs cs, s'.accesses = s.accesses ++ xs ∧ s'.copies = s.copies ++ cs ∧
    ∀ i, (∀ x ∈ xs, x.write →
      i < x.field.addr (s.ring x.queue) ∨ x.field.addr (s.ring x.queue) + x.field.width ≤ i) →
      (∀ c ∈ cs, i < c.addr ∨ c.addr + c.len ≤ i) → s'.mem i = s.mem i

theorem Frame.refl (s : MemState) : Frame s s :=
  ⟨rfl, [], [], (List.append_nil _).symm, (List.append_nil _).symm, fun _ _ _ => rfl⟩

theorem Frame.ring_eq (h : Frame s s') (q : Queue) : s'.ring q = s.ring q := by
  unfold ring
  rw [h.rings]

theorem Frame.note (h : Frame s s') (x : Access) : Frame s (s'.note x) := by
  obtain ⟨hrings, xs, cs, hxs, hcs, hmem⟩ := h
  refine ⟨hrings, xs ++ [x], cs, ?_, hcs, fun i hi hc => ?_⟩
  · rw [MemState.note, hxs, List.append_assoc]
  · exact hmem i (fun y hy => hi y (List.mem_append_left _ hy)) hc

theorem Frame.store (h : Frame s s') (q : Queue) (f : Field) (v : Nat) :
    Frame s (s'.store q f v) := by
  have hring := h.ring_eq q
  obtain ⟨hrings, xs, cs, hxs, hcs, hmem⟩ := h
  refine ⟨hrings, xs ++ [⟨q, f, true⟩], cs, ?_, hcs, fun i hi hc => ?_⟩
  · rw [MemState.store, MemState.note, hxs, List.append_assoc]
  · have hnot := hi ⟨q, f, true⟩ (List.mem_append_right _ (List.mem_singleton_self _)) rfl
    have hlen := length_leBytes f.width v
    have hkept : (s'.store q f v).mem i = s'.mem i := by
      refine overlay_of_not_mem ?_
      rw [hring, hlen]
      dsimp only at hnot
      omega
    rw [hkept]
    exact hmem i (fun y hy => hi y (List.mem_append_left _ hy)) hc

theorem Frame.copyTo (h : Frame s s') (q : Queue) (addr : Nat) (data : Str) :
    Frame s (s'.copyTo q addr data) := by
  obtain ⟨hrings, xs, cs, hxs, hcs, hmem⟩ := h
  refine ⟨hrings, xs, cs ++ [⟨q, addr, data.length⟩], hxs, ?_, fun i hi hc => ?_⟩
  · rw [MemState.copyTo, hcs, List.append_assoc]
  · have hnot := hc ⟨q, addr, data.length⟩ (List.mem_append_right _ (List.mem_singleton_self _))
    have hkept : (s'.copyTo q addr data).mem i = s'.mem i := by
      refine overlay_of_not_mem ?_
      dsimp only at hnot
      omega
    rw [hkept]
    exact hmem i hi fun c hc' => hc c (List.mem_append_left _ hc')

theorem Frame.pushAvail (h : Frame s s') (q : Queue) (id : Nat) : Frame s (s'.pushAvail q id) :=
  (((h.note _).store q _ id).note _).store q _ _

theorem Frame.output (h : Frame s s') (frame : Str) : Frame s (output p s' frame) := by
  have := ((((h.copyTo .tx (p.txBuffer + bufferSize * slot s'.txIdx) frame).store
    .tx (.descAddr (slot s'.txIdx)) (p.txBuffer + bufferSize * slot s'.txIdx)).store
    .tx (.descLen (slot s'.txIdx)) frame.length).store .tx (.descFlags (slot s'.txIdx)) 0).pushAvail
      .tx (slot s'.txIdx)
  exact ⟨this.rings, this.changes⟩

theorem Frame.fillSlot (h : Frame s s') (i : Nat) : Frame s (fillSlot p s' i) :=
  (((h.store _ _ _).store _ _ _).store _ _ _).store _ _ _

theorem Frame.foldl_fillSlot (h : Frame s s') (l : List Nat) :
    Frame s (l.foldl (MemState.fillSlot p) s') := by
  induction l generalizing s' with
  | nil => exact h
  | cons i l ih => exact ih (h.fillSlot i)

theorem Frame.copyPacket (h : Frame s s') (payload : Option Nat) (id len : Nat) :
    Frame s (s'.copyPacket p payload id len) := by
  cases payload with
  | none => exact h
  | some addr => exact h.copyTo _ _ _

theorem Frame.irqIteration (h : Frame s s') (payload : Option Nat) :
    Frame s (irqIteration p s' payload) := by
  have hidx := h.note ⟨.rx, .usedIdx, false⟩
  have hbody := (((hidx.note ⟨.rx, .usedLen (slot s'.lastRxIdx), false⟩).note
    ⟨.rx, .usedId (slot s'.lastRxIdx), false⟩).copyPacket (p := p) payload
      (s'.value .rx (.usedId (slot s'.lastRxIdx)))
      (s'.value .rx (.usedLen (slot s'.lastRxIdx)))).pushAvail .rx
        (s'.value .rx (.usedId (slot s'.lastRxIdx)))
  unfold MemState.irqIteration
  dsimp only [load]
  split_ifs
  · exact ⟨hbody.rings, hbody.changes⟩
  · exact ⟨hidx.rings, hidx.changes⟩

/-! ### The accesses of the steps -/

/-- The accesses of `avail->ring[avail->idx % RING_SIZE] = id; avail->idx++;`. -/
def pushAccesses (q : Queue) (k : Nat) : List Access :=
  [⟨q, .availIdx, false⟩, ⟨q, .availRing k, true⟩, ⟨q, .availIdx, false⟩, ⟨q, .availIdx, true⟩]

theorem accesses_pushAvail (s : MemState) (q : Queue) (id : Nat) : ∃ k < ringSize,
    (s.pushAvail q id).accesses = s.accesses ++ pushAccesses q k :=
  ⟨_, Nat.mod_lt _ (by decide), by simp [pushAvail, load, store, note, pushAccesses]; rfl⟩

/-- The accesses of a call of `low_level_output` or `netif_output`, with its avail slot. -/
def outputAccesses (descIdx k : Nat) : List Access :=
  [⟨.tx, .descAddr descIdx, true⟩, ⟨.tx, .descLen descIdx, true⟩,
    ⟨.tx, .descFlags descIdx, true⟩] ++ pushAccesses .tx k

theorem outputAccesses_plain {descIdx k : Nat} (hslot : descIdx < ringSize) (hk : k < ringSize)
    {x : Access} (hx : x ∈ outputAccesses descIdx k) (base : Nat) :
    x.queue = .tx ∧ x.field.Valid ∧ ¬ x.field.Used ∧
      (129 ≤ descIdx → base + 2052 ≤ x.field.addr (ringsAt base)) := by
  simp only [outputAccesses, pushAccesses, List.cons_append, List.nil_append, List.mem_cons,
    List.not_mem_nil, or_false] at hx
  rcases hx with rfl | rfl | rfl | rfl | rfl | rfl | rfl
  all_goals
    refine ⟨rfl, ?_, id, fun hle => ?_⟩
    · first | exact hslot | exact hk | exact trivial
    · simp only [Field.addr, ringsAt]
      omega

theorem accesses_output (p : Placement) (s : MemState) (frame : Str) : ∃ k < ringSize,
    (output p s frame).accesses = s.accesses ++ outputAccesses (slot s.txIdx) k := by
  obtain ⟨k, hk, hpush⟩ := accesses_pushAvail
    ((((s.copyTo .tx (p.txBuffer + bufferSize * slot s.txIdx) frame).store
      .tx (.descAddr (slot s.txIdx)) (p.txBuffer + bufferSize * slot s.txIdx)).store
      .tx (.descLen (slot s.txIdx)) frame.length).store .tx (.descFlags (slot s.txIdx)) 0)
    .tx (slot s.txIdx)
  refine ⟨k, hk, hpush.trans ?_⟩
  simp [store, note, copyTo, outputAccesses]

theorem copies_output (p : Placement) (s : MemState) (frame : Str) :
    (output p s frame).copies =
      s.copies ++ [⟨.tx, p.txBuffer + bufferSize * slot s.txIdx, frame.length⟩] := rfl

/-- The accesses of the pre-fill of one slot. -/
def fillAccesses (i : Nat) : List Access :=
  [⟨.rx, .descAddr i, true⟩, ⟨.rx, .descLen i, true⟩, ⟨.rx, .descFlags i, true⟩,
    ⟨.rx, .availRing i, true⟩]

theorem fillAccesses_plain {i : Nat} (hi : i < ringSize) {x : Access} (hx : x ∈ fillAccesses i) :
    x.queue = .rx ∧ x.field.Valid ∧ ¬ x.field.Used := by
  simp only [fillAccesses, List.mem_cons, List.not_mem_nil, or_false] at hx
  rcases hx with rfl | rfl | rfl | rfl <;> exact ⟨rfl, hi, id⟩

theorem accesses_foldl_fillSlot (p : Placement) (s : MemState) (n : Nat) :
    ((List.range n).foldl (fillSlot p) s).accesses =
      s.accesses ++ (List.range n).flatMap fillAccesses := by
  induction n with
  | zero => exact (List.append_nil _).symm
  | succ n ih =>
    rw [List.range_succ, List.foldl_append, List.flatMap_append, ← List.append_assoc, ← ih]
    simp [fillSlot, store, note, fillAccesses]

theorem copies_store (s : MemState) (q : Queue) (f : Field) (v : Nat) :
    (s.store q f v).copies = s.copies := rfl

theorem copies_foldl_fillSlot (p : Placement) (s : MemState) (l : List Nat) :
    (l.foldl (fillSlot p) s).copies = s.copies := by
  induction l generalizing s with
  | nil => rfl
  | cons i l ih => exact ih (fillSlot p s i)

theorem accesses_copyPacket (p : Placement) (s : MemState) (payload : Option Nat) (id len : Nat) :
    (s.copyPacket p payload id len).accesses = s.accesses := by
  cases payload with
  | none => rfl
  | some addr => rfl

/-- The test of the loop of the handler looks at the used ring. -/
theorem accesses_irqIteration (p : Placement) (s : MemState) (payload : Option Nat) :
    ∃ xs, (irqIteration p s payload).accesses = s.accesses ++ ⟨.rx, .usedIdx, false⟩ :: xs ∧
      ∀ x ∈ xs, x.field.Valid := by
  have hslot := slot_lt s.lastRxIdx
  by_cases hne : s.lastRxIdx.toNat ≠ s.value .rx .usedIdx
  · obtain ⟨k, hk, hpush⟩ := accesses_pushAvail (copyElement p s payload) .rx
      (s.value .rx (.usedId (slot s.lastRxIdx)))
    have hnotes : (copyElement p s payload).accesses = (noteElement s).accesses :=
      accesses_copyPacket p (noteElement s) payload _ _
    refine ⟨⟨.rx, .usedLen (slot s.lastRxIdx), false⟩ :: ⟨.rx, .usedId (slot s.lastRxIdx), false⟩ ::
      pushAccesses .rx k, ?_, ?_⟩
    · rw [irqIteration_of_ne payload hne]
      refine hpush.trans ?_
      rw [hnotes]
      simp [noteElement, note]
    · simp only [pushAccesses, List.forall_mem_cons]
      exact ⟨hslot, hslot, trivial, hk, trivial, trivial, fun x hx => absurd hx List.not_mem_nil⟩
  · rw [irqIteration_of_eq payload (not_not.mp hne)]
    exact ⟨[], rfl, fun x hx => absurd hx List.not_mem_nil⟩

theorem copies_irqIteration (p : Placement) (s : MemState) (payload : Option Nat) :
    (irqIteration p s payload).copies = s.copies ∨
      s.lastRxIdx.toNat ≠ s.value .rx .usedIdx ∧ ∃ addr ∈ payload,
        (irqIteration p s payload).copies =
          s.copies ++ [⟨.rx, addr, s.value .rx (.usedLen (slot s.lastRxIdx))⟩] := by
  by_cases hne : s.lastRxIdx.toNat ≠ s.value .rx .usedIdx
  · have hbody : (irqIteration p s payload).copies = (copyElement p s payload).copies := by
      rw [irqIteration_of_ne payload hne]
      rfl
    rw [hbody]
    cases payload with
    | none => exact Or.inl rfl
    | some addr =>
      refine Or.inr ⟨hne, addr, rfl, ?_⟩
      simp [copyElement, copyPacket, copyTo, noteElement, note]
  · rw [irqIteration_of_eq payload (not_not.mp hne)]
    exact Or.inl rfl

/-- The fields that the pre-fill of the RX ring accesses. -/
theorem mem_prefill_accesses {s₀ : MemState} (haccesses : s₀.accesses = []) {x : Access} :
    x ∈ (((List.range ringSize).foldl (fillSlot p) s₀).store .rx .availIdx ringSize).accesses ↔
      (∃ i < ringSize, x ∈ fillAccesses i) ∨ x = ⟨.rx, .availIdx, true⟩ := by
  rw [store, note, accesses_foldl_fillSlot, haccesses, List.nil_append, List.mem_append,
    List.mem_flatMap, List.mem_singleton]
  simp only [List.mem_range]

theorem prefill_plain {s₀ : MemState} (haccesses : s₀.accesses = []) {x : Access}
    (hx : x ∈ (((List.range ringSize).foldl (fillSlot p) s₀).store
      .rx .availIdx ringSize).accesses) :
    x.queue = .rx ∧ x.field.Valid ∧ ¬ x.field.Used := by
  rcases (mem_prefill_accesses haccesses).mp hx with ⟨i, hlt, hx⟩ | rfl
  · exact fillAccesses_plain hlt hx
  · exact ⟨rfl, trivial, id⟩

theorem copies_prefill (p : Placement) (s₀ : MemState) :
    (((List.range ringSize).foldl (fillSlot p) s₀).store .rx .availIdx ringSize).copies =
      s₀.copies := by
  rw [copies_store, copies_foldl_fillSlot]

/-- What a step that keeps the queues apart writes, and a field of the other queue. -/
theorem Apart.disjoint (h : Apart s')
    (hrings : s'.rings = some (ringsAt p.rxRingMem, ringsAt p.txRingMem)) {q : Queue}
    {f f' : Field} (hmem : ⟨q, f, true⟩ ∈ s'.accesses) (hvalid' : f'.Valid) :
    f.Disjoint (ringsAt (p.ringMem q)) (ringsAt (p.ringMem q.other)) f' := by
  have hdisj := h.1 _ hmem rfl f' hvalid'
  rwa [ring_of_rings hrings, ring_of_rings hrings] at hdisj

theorem rings_of_isSome (h : RingsOk p s) (hsome : s.rings.isSome) :
    s.rings = some (ringsAt p.rxRingMem, ringsAt p.txRingMem) := by
  rcases h with hnone | hrings
  · rw [hnone] at hsome
    cases hsome
  · exact hrings

/-- The initialisation of the rings. -/
theorem virtioInitHardware_magic (hstd : StandardLayout vringInit) (hp : p.Proper) (s : MemState) :
    virtioInitHardware vringInit p (some virtioMagicValue) s =
      ((List.range ringSize).foldl (fillSlot p) { s with
        regs := true
        rings := some (ringsAt p.rxRingMem, ringsAt p.txRingMem) }).store
          .rx .availIdx ringSize := by
  have hrx := hstd.eq_ringsAt (hp.ringMem_aligned .rx)
  have htx := hstd.eq_ringsAt (hp.ringMem_aligned .tx)
  rw [virtioInitHardware, if_neg (not_not.mpr rfl), initRings]
  dsimp only [Placement.ringMem] at hrx htx
  rw [hrx, htx]

/-- Without a device nothing is set up. -/
theorem virtioInitHardware_of_ne (vringInit : Nat → Nat → Nat → VringAddr) (p : Placement)
    {magic : Option UInt32} (hmagic : magic ≠ some virtioMagicValue) (s : MemState) :
    ∃ regs, virtioInitHardware vringInit p magic s = { s with regs := regs } := by
  cases magic with
  | none => exact ⟨s.regs, rfl⟩
  | some value =>
    have hvalue : value ≠ virtioMagicValue := fun heq => hmagic (congrArg some heq)
    rw [virtioInitHardware, if_pos hvalue]
    exact ⟨true, rfl⟩

theorem RingsOk.step (hstd : StandardLayout vringInit) (hp : p.Proper) (h : RingsOk p s)
    (hs : MemState.step vringInit p s a = some s') : RingsOk p s' := by
  cases a with
  | virtioInitHardware magic =>
    obtain rfl := Option.some.inj hs
    by_cases hmagic : magic = some virtioMagicValue
    · rw [hmagic, virtioInitHardware_magic hstd hp]
      exact Or.inr (((Frame.refl _).foldl_fillSlot _).store _ _ _).rings
    · obtain ⟨regs, heq⟩ := virtioInitHardware_of_ne vringInit p hmagic s.clear
      rw [heq]
      exact h
  | lowLevelOutput frame | netifOutput frame =>
    obtain ⟨-, hs'⟩ := Option.ite_none_right_eq_some.mp hs
    obtain rfl := Option.some.inj hs'
    rw [RingsOk, ((Frame.refl s.clear).output (p := p) frame).rings]
    exact h
  | hardwareIrqHandle isr =>
    obtain ⟨-, hs'⟩ := Option.ite_none_left_eq_some.mp hs
    obtain rfl := Option.some.inj hs'
    exact h
  | irqIteration payload =>
    obtain ⟨-, hs'⟩ := Option.ite_none_right_eq_some.mp hs
    obtain rfl := Option.some.inj hs'
    rw [RingsOk, ((Frame.refl s.clear).irqIteration (p := p) payload).rings]
    exact h
  | deviceWrite q i e idx | deviceFill i data =>
    obtain ⟨-, hs'⟩ := Option.ite_none_right_eq_some.mp hs
    obtain rfl := Option.some.inj hs'
    exact h

/-- `vring_init` with the standard layout. -/
def standardVringInit (num p align : Nat) : VringAddr :=
  ⟨p, p + 16 * num, alignUp align (p + 16 * num + 4 + 2 * num + 2)⟩

/-- The places of the variables before the buffers. -/
def smallVars : List (Nat × Nat) :=
  [(0x3f000, 2), (0x3f002, 2), (0x3f008, 32), (0x3f028, 32), (0x3f048, 8)]

theorem standardLayout_standardVringInit : StandardLayout standardVringInit :=
  fun _ _ _ _ => rfl

/-- `tx_ring_mem`, a gap and `rx_ring_mem`. -/
def apartPlacement : Placement := ⟨0x106000, 0x100000, 0x40000, 0xa0000, smallVars⟩

theorem proper_apartPlacement : apartPlacement.Proper where
  ringMem_aligned q := by cases q <;> decide
  buffer_aligned q := by cases q <;> decide
  disjoint := by decide

end MemState

end BankSel4.Network
