import BankSel4.Network.Equiv.Layout
import BankSel4.Network.Rings

/-!
# Rings with room behind their arrays

Where there is room behind `rx_ring_mem` and `tx_ring_mem` the used ring of each lies in it, and no
two fields of the rings have a byte in common.  So a store changes one field of one ring
(`vring_store`), and a copy that stays in the buffers none (`vring_copyTo`).  Every step is then an
operation on one queue (`ringState_step`), and what a queue holds after a run is what its own
operations make of it, while the places of the variables keep their bytes: `ringState_run`.
-/

namespace BankSel4.Network

/-! ### Numbers in memory -/

section Bytes

variable (mem : Memory)

theorem readLe_lt (addr width : Nat) : readLe mem addr width < 256 ^ width := by
  induction width generalizing addr with
  | zero => exact Nat.one_pos
  | succ width ih =>
    have hbyte := (mem addr).toNat_lt
    have hrest := ih (addr + 1)
    rw [readLe, pow_succ]
    omega

/-- A number that was stored is read back, as far as it fits. -/
theorem readLe_overlay (addr width v : Nat) :
    readLe (overlay mem addr (leBytes width v)) addr width = v % 256 ^ width := by
  induction width generalizing mem addr v with
  | zero => rw [readLe, pow_zero, Nat.mod_one]
  | succ width ih =>
    have hhead : overlay mem addr (leBytes (width + 1) v) addr = UInt8.ofNat (v % 256) := by
      rw [overlay_of_mem le_rfl (by rw [length_leBytes]; omega), Nat.sub_self]
      rfl
    -- the bytes behind the first are those of the quotient
    have htail : ∀ k < width, overlay mem addr (leBytes (width + 1) v) (addr + 1 + k) =
        overlay mem (addr + 1) (leBytes width (v / 256)) (addr + 1 + k) := by
      intro k hk
      rw [overlay_of_mem (by omega) (by rw [length_leBytes]; omega),
        overlay_of_mem (by omega) (by rw [length_leBytes]; omega),
        show addr + 1 + k - addr = k + 1 by omega, Nat.add_sub_cancel_left, leBytes,
        List.getD_cons_succ]
    have hpow : 256 ^ (width + 1) = 256 * 256 ^ width := Nat.pow_succ'
    rw [readLe, readLe_congr htail, ih, hhead, UInt8.toNat_ofNat', hpow, Nat.mod_mul]
    omega

end Bytes

/-! ### Fields -/

/-- What a field holds. -/
def fieldValue (mem : Memory) (vr : VringAddr) (f : Field) : Nat :=
  readLe mem (f.addr vr) f.width

/-- The fields of a ring have no byte in common. -/
theorem Field.disjoint_of_ne {f f' : Field} (hvalid : f.Valid) (hvalid' : f'.Valid) (hne : f' ≠ f)
    (base : Nat) : f.Disjoint (ringsAt base) (ringsAt base) f' := by
  cases f <;> cases f' <;>
    simp only [Field.Disjoint, Field.Valid, Field.addr, Field.width, ringsAt, ringSize, ne_eq,
      reduceCtorEq, not_false_eq_true, not_true_eq_false, Field.descAddr.injEq, Field.descLen.injEq,
      Field.descFlags.injEq, Field.descNext.injEq, Field.availRing.injEq, Field.usedId.injEq,
      Field.usedLen.injEq] at * <;> omega

theorem fieldValue_overlay_of_disjoint {vr vr' : VringAddr} {f f' : Field}
    (h : f.Disjoint vr vr' f') (mem : Memory) (v : Nat) :
    fieldValue (overlay mem (f.addr vr) (leBytes f.width v)) vr' f' = fieldValue mem vr' f' := by
  refine readLe_congr fun k hk => overlay_of_not_mem ?_
  rw [length_leBytes]
  unfold Field.Disjoint at h
  omega

/-- The bytes of an array and of the used ring behind it. -/
def ringSpan : Nat := 10244

theorem field_span {f : Field} (hvalid : f.Valid) (base : Nat) :
    base ≤ f.addr (ringsAt base) ∧ f.addr (ringsAt base) + f.width ≤ base + ringSpan := by
  unfold ringSpan
  by_cases hused : f.Used
  · have := MemState.used_of_used hvalid hused base
    omega
  · have := MemState.inside_of_not_used hvalid hused base
    omega

/-- A part of an object has no byte in common with another one either. -/
theorem NoOverlap.mono {x y : Nat × Nat} (h : NoOverlap x y) {addr len : Nat} (hlo : x.1 ≤ addr)
    (hhi : addr + len ≤ x.1 + x.2) : NoOverlap (addr, len) y := by
  unfold NoOverlap at *
  dsimp only
  omega

namespace Placement

/-- What may not lie in the room behind the array of a queue. -/
def others (p : Placement) (q : Queue) : List (Nat × Nat) :=
  [(p.ringMem q.other, ringSpan), (p.rxBuffer, buffersSize), (p.txBuffer, buffersSize)] ++
    p.vars

/-- There is room for the used rings behind the arrays. -/
def Room (p : Placement) : Prop := ∀ q, ∀ o ∈ p.others q, NoOverlap (p.ringMem q, ringSpan) o

/-- The addresses of the buffers are 64-bit numbers. -/
def InSpace (p : Placement) : Prop := ∀ q, p.buffer q + buffersSize ≤ 2 ^ 64

/-- The rings, and the variables of the driver. -/
def state (p : Placement) : List (Nat × Nat) :=
  [(p.rxRingMem, ringSpan), (p.txRingMem, ringSpan)] ++ p.vars

theorem ring_mem_state (p : Placement) (q : Queue) : (p.ringMem q, ringSpan) ∈ p.state := by
  cases q
  · exact List.mem_cons_self
  · exact List.mem_cons_of_mem _ List.mem_cons_self

theorem variable_mem_state {p : Placement} {o : Nat × Nat} (ho : o ∈ p.vars) :
    o ∈ p.state := List.mem_append_right _ ho

/-- The buffers are apart from the rings and the variables. -/
theorem buffer_noOverlap_state {p : Placement} (hp : p.Proper) (hroom : p.Room) (q : Queue) :
    ∀ o ∈ p.state, NoOverlap (p.buffer q, buffersSize) o := by
  have hrings : ∀ q', NoOverlap (p.ringMem q', ringSpan) (p.buffer q, buffersSize) := by
    intro q'
    refine hroom q' _ (List.mem_append_left _ ?_)
    cases q <;> simp [buffer]
  intro o ho
  rcases List.mem_append.mp ho with hring | hvar
  · simp only [List.mem_cons, List.not_mem_nil, or_false] at hring
    rcases hring with rfl | rfl
    · exact (hrings .rx).symm
    · exact (hrings .tx).symm
  · have hdisj := hp.disjoint
    simp only [objects, List.cons_append, List.nil_append, List.pairwise_cons,
      List.mem_cons] at hdisj
    obtain ⟨-, -, hrx, htx, -⟩ := hdisj
    cases q
    · exact hrx o (Or.inr hvar)
    · exact htx o hvar

end Placement

/-- With room behind the arrays, the rings have no byte in common. -/
theorem disjoint_of_room {p : Placement} (hroom : p.Room) {q q' : Queue} (hq : q' ≠ q)
    {f f' : Field} (hvalid : f.Valid) (hvalid' : f'.Valid) :
    f.Disjoint (ringsAt (p.ringMem q)) (ringsAt (p.ringMem q')) f' := by
  have hf := field_span hvalid (p.ringMem q)
  have hf' := field_span hvalid' (p.ringMem q')
  have hgap := hroom q (p.ringMem q.other, ringSpan) List.mem_cons_self
  rw [Queue.other_eq hq.symm] at hgap
  unfold NoOverlap at hgap
  unfold Field.Disjoint
  dsimp only at hgap
  omega

/-! ### A store to one field -/

namespace Vring

/-- The ring with one field stored. -/
def setField (base : Nat) (vr : Vring) : Field → Nat → Vring
  | .descAddr i, v => vr.setDesc i { vr.desc i with addr := v % 2 ^ 64 - base }
  | .descLen i, v => vr.setDesc i { vr.desc i with len := UInt32.ofNat v }
  | .descFlags i, v => vr.setDesc i { vr.desc i with flags := UInt16.ofNat v }
  | .descNext _, _ => vr
  | .availIdx, v => { vr with availIdx := UInt16.ofNat v }
  | .availRing i, v => { vr with availRing := Function.update vr.availRing i (UInt16.ofNat v) }
  | .usedIdx, v => { vr with usedIdx := UInt16.ofNat v }
  | .usedId i, v => { vr with
      usedRing := Function.update vr.usedRing i { vr.usedRing i with id := UInt32.ofNat v } }
  | .usedLen i, v => { vr with
      usedRing := Function.update vr.usedRing i { vr.usedRing i with len := UInt32.ofNat v } }

theorem ofFields_congr (base : Nat) {val val' : Field → Nat}
    (h : ∀ f : Field, f.Valid → val f = val' f) : ofFields base val = ofFields base val' := by
  unfold ofFields
  congr 1
  · funext i
    split_ifs with hi
    · rw [h (.descAddr i) hi, h (.descLen i) hi, h (.descFlags i) hi]
    · rfl
  · funext i
    split_ifs with hi
    · rw [h (.availRing i) hi]
    · rfl
  · rw [h .availIdx trivial]
  · funext i
    split_ifs with hi
    · rw [h (.usedId i) hi, h (.usedLen i) hi]
    · rfl
  · rw [h .usedIdx trivial]

@[simp] theorem ofNat_mod_two (v : Nat) : UInt16.ofNat (v % 65536) = UInt16.ofNat v :=
  UInt16.ofNat_mod_size

@[simp] theorem ofNat_mod_four (v : Nat) : UInt32.ofNat (v % 4294967296) = UInt32.ofNat v :=
  UInt32.ofNat_mod_size

/-- A field that changes is a field stored. -/
theorem ofFields_update (base : Nat) (val : Field → Nat) {f : Field} (hvalid : f.Valid) (v : Nat) :
    ofFields base (Function.update val f (v % 256 ^ f.width)) =
      (ofFields base val).setField base f v := by
  cases f with
  | descAddr i | descLen i | descFlags i | availRing i | usedId i | usedLen i =>
    have hi : i < ringSize := hvalid
    simp only [ofFields, setField, setDesc]
    congr 1
    funext j
    by_cases hj : j = i
    · subst hj
      simp [hi, Field.width]
    · simp [hj]
  | availIdx | usedIdx =>
    simp [ofFields, setField, Field.width]
  | descNext i => simp [ofFields, setField]

/-- The three fields of a descriptor. -/
theorem setField_desc {base i : Nat} (h : base + bufferSize * i < 2 ^ 64) (vr : Vring)
    (len flags : Nat) :
    ((vr.setField base (.descAddr i) (base + bufferSize * i)).setField base (.descLen i)
      len).setField base (.descFlags i) flags =
        vr.setDesc i ⟨bufferSize * i, UInt32.ofNat len, UInt16.ofNat flags⟩ := by
  have hmod : (base + bufferSize * i) % 2 ^ 64 - base = bufferSize * i := by
    rw [Nat.mod_eq_of_lt h, Nat.add_sub_cancel_left]
  simp only [setField, setDesc, hmod, Function.update_self, Function.update_idem]

/-- The two fields of a used element. -/
theorem setField_used (base i : Nat) (vr : Vring) (e : VringUsedElem) :
    (vr.setField base (.usedId i) e.id.toNat).setField base (.usedLen i) e.len.toNat =
      { vr with usedRing := Function.update vr.usedRing i e } := by
  simp [setField]

end Vring

/-! ### The rings of a state -/

namespace MemState

/-- The ring of a queue, as memory spells it. -/
def vring (p : Placement) (s : MemState) (q : Queue) : Vring :=
  Vring.ofFields (p.buffer q) (fieldValue s.mem (ringsAt (p.ringMem q)))

/-- The rings are set to their arrays, which have room behind them. -/
structure WithRoom (p : Placement) (s : MemState) : Prop where
  room : p.Room
  rings_eq : s.rings = some (ringsAt p.rxRingMem, ringsAt p.txRingMem)

section Stores

variable {p : Placement} {s : MemState}

theorem WithRoom.store (h : WithRoom p s) (q : Queue) (f : Field) (v : Nat) :
    WithRoom p (s.store q f v) := ⟨h.room, h.rings_eq⟩

theorem WithRoom.copyTo (h : WithRoom p s) (q : Queue) (addr : Nat) (data : Str) :
    WithRoom p (s.copyTo q addr data) := ⟨h.room, h.rings_eq⟩

/-- **A store changes one field of one ring.** -/
theorem vring_store (h : WithRoom p s) (q : Queue) {f : Field} (hvalid : f.Valid) (v : Nat) :
    vring p (s.store q f v) =
      Function.update (vring p s) q ((vring p s q).setField (p.buffer q) f v) := by
  have hring := ring_of_rings h.rings_eq q
  funext q'
  unfold vring store
  dsimp only
  rw [hring]
  by_cases hq : q' = q
  · subst hq
    rw [Function.update_self, ← Vring.ofFields_update _ _ hvalid]
    refine Vring.ofFields_congr _ fun f' hvalid' => ?_
    by_cases hf : f' = f
    · rw [hf, Function.update_self]
      exact readLe_overlay _ _ _ _
    · rw [Function.update_of_ne hf]
      exact fieldValue_overlay_of_disjoint (Field.disjoint_of_ne hvalid hvalid' hf _) _ v
  · rw [Function.update_of_ne hq]
    exact Vring.ofFields_congr _ fun f' hvalid' => fieldValue_overlay_of_disjoint
      (disjoint_of_room h.room hq hvalid hvalid') _ v

/-- **A copy that is apart from the rings changes none of their fields.** -/
theorem vring_copyTo (q : Queue) {addr : Nat} {data : Str}
    (hapart : ∀ o ∈ p.state, NoOverlap (addr, data.length) o) :
    vring p (s.copyTo q addr data) = vring p s := by
  funext q'
  refine Vring.ofFields_congr _ fun f hvalid => readLe_congr fun k hk => overlay_of_not_mem ?_
  have hspan := field_span hvalid (p.ringMem q')
  have hmiss := hapart _ (p.ring_mem_state q')
  unfold NoOverlap at hmiss
  dsimp only at hmiss
  omega

theorem value_availIdx (h : WithRoom p s) (q : Queue) :
    s.value q .availIdx = (vring p s q).availIdx.toNat := by
  have hlt : s.value q .availIdx < 2 ^ 16 := readLe_lt s.mem _ 2
  have hval : (vring p s q).availIdx = UInt16.ofNat (s.value q .availIdx) := by
    rw [value, ring_of_rings h.rings_eq]
    rfl
  rw [hval, UInt16.toNat_ofNat', Nat.mod_eq_of_lt hlt]

theorem WithRoom.note (h : WithRoom p s) (x : Access) : WithRoom p (s.note x) :=
  ⟨h.room, h.rings_eq⟩

@[simp] theorem vring_note (x : Access) : vring p (s.note x) = vring p s := rfl

theorem vring_pushAvail (h : WithRoom p s) (q : Queue) (id : Nat) :
    vring p (s.pushAvail q id) = Function.update (vring p s) q
      ((vring p s q).putAvail (UInt16.ofNat id)).bumpAvail := by
  have hslot : (Field.availRing (s.value q .availIdx % ringSize)).Valid :=
    Nat.mod_lt _ (by decide)
  have h₁ := h.note ⟨q, .availIdx, false⟩
  have hput := vring_store h₁ q hslot id
  have h₂ := h₁.store q (.availRing (s.value q .availIdx % ringSize)) id
  -- `avail->idx` is read again behind the store, and has not changed
  have hidx := value_availIdx h₂ q
  unfold pushAvail load
  dsimp only
  rw [vring_store (h₂.note _) q (show Field.availIdx.Valid from trivial), vring_note, hidx, hput,
    vring_note, Function.update_self, Function.update_idem, value_availIdx h]
  rfl

/-- A buffer of a queue is in the address space. -/
theorem buffer_lt (hspace : p.InSpace) (q : Queue) {i : Nat} (hi : i < ringSize) :
    p.buffer q + bufferSize * i < 2 ^ 64 := by
  have := hspace q
  unfold buffersSize ringSize bufferSize at *
  omega

theorem vring_desc (h : WithRoom p s) (hspace : p.InSpace) (q : Queue) {i : Nat} (hi : i < ringSize)
    (len flags : Nat) :
    vring p (((s.store q (.descAddr i) (p.buffer q + bufferSize * i)).store q (.descLen i)
      len).store q (.descFlags i) flags) = Function.update (vring p s) q
        ((vring p s q).setDesc i ⟨bufferSize * i, UInt32.ofNat len, UInt16.ofNat flags⟩) := by
  have h₁ := h.store q (.descAddr i) (p.buffer q + bufferSize * i)
  have h₂ := h₁.store q (.descLen i) len
  rw [vring_store h₂ q (show (Field.descFlags i).Valid from hi),
    vring_store h₁ q (show (Field.descLen i).Valid from hi),
    vring_store h q (show (Field.descAddr i).Valid from hi)]
  simp only [Function.update_self, Function.update_idem]
  rw [Vring.setField_desc (buffer_lt hspace q hi)]

theorem WithRoom.desc (h : WithRoom p s) (q : Queue) (i addr len flags : Nat) :
    WithRoom p (((s.store q (.descAddr i) addr).store q (.descLen i) len).store q (.descFlags i)
      flags) :=
  ((h.store q _ _).store q _ _).store q _ _

/-! ### The operations -/

theorem vring_output (h : WithRoom p s) (hspace : p.InSpace) {frame : Str}
    (hapart : ∀ o ∈ p.state, NoOverlap (p.txBuffer + bufferSize * slot s.txIdx, frame.length) o) :
    vring p (output p s frame) = Function.update (vring p s) .tx
      (RingState.next ⟨vring p s .tx, s.txIdx⟩ (.output frame.length)).vring := by
  have hslot := slot_lt s.txIdx
  have hcopy : vring p (s.copyTo .tx (p.txBuffer + bufferSize * slot s.txIdx) frame) =
      vring p s := vring_copyTo .tx hapart
  have h₁ := h.copyTo .tx (p.txBuffer + bufferSize * slot s.txIdx) frame
  have hdesc := vring_desc h₁ hspace .tx hslot frame.length 0
  have hpush := vring_pushAvail (h₁.desc .tx (slot s.txIdx)
    (p.buffer .tx + bufferSize * slot s.txIdx) frame.length 0) .tx (slot s.txIdx)
  rw [hdesc, Function.update_self, Function.update_idem, hcopy] at hpush
  exact hpush

theorem vring_copyPacket {payload : Option Nat} {id len : Nat}
    (hapart : ∀ addr ∈ payload, ∀ o ∈ p.state, NoOverlap (addr, len) o) :
    vring p (s.copyPacket p payload id len) = vring p s := by
  cases payload with
  | none => rfl
  | some addr =>
    refine vring_copyTo .rx ?_
    rw [length_bytesAt]
    exact hapart addr rfl

theorem vring_fillSlot (h : WithRoom p s) (hspace : p.InSpace) {i : Nat} (hi : i < ringSize) :
    vring p (fillSlot p s i) =
      Function.update (vring p s) .rx (Network.fillSlot (vring p s .rx) i) := by
  have hdesc := vring_desc h hspace .rx hi bufferSize vringDescFWrite.toNat
  have hstore := vring_store (h.desc .rx i (p.buffer .rx + bufferSize * i) bufferSize
    vringDescFWrite.toNat) .rx (f := .availRing i) hi i
  rw [hdesc, Function.update_self, Function.update_idem] at hstore
  exact hstore

theorem vring_foldl_fillSlot (h : WithRoom p s) (hspace : p.InSpace) {l : List Nat}
    (hl : ∀ i ∈ l, i < ringSize) : vring p (l.foldl (fillSlot p) s) =
      Function.update (vring p s) .rx (l.foldl Network.fillSlot (vring p s .rx)) := by
  induction l generalizing s with
  | nil => exact (Function.update_eq_self .rx (vring p s)).symm
  | cons i l ih =>
    obtain ⟨hi, hl'⟩ := List.forall_mem_cons.mp hl
    have h' : WithRoom p (fillSlot p s i) := (h.desc .rx i _ _ _).store .rx _ _
    rw [List.foldl_cons, ih h' hl', vring_fillSlot h hspace hi, Function.update_self,
      Function.update_idem]
    rfl

theorem vring_deviceWrite (h : WithRoom p s) (q : Queue) {i : Nat} (hi : i < ringSize)
    (e : VringUsedElem) (idx : UInt16) :
    vring p (deviceWrite s q i e idx) = Function.update (vring p s) q
      { vring p s q with
        usedRing := Function.update (vring p s q).usedRing i e, usedIdx := idx } := by
  have h₁ := h.store q (.usedId i) e.id.toNat
  have h₂ := h₁.store q (.usedLen i) e.len.toNat
  rw [deviceWrite, vring_store h₂ q (show Field.usedIdx.Valid from trivial),
    vring_store h₁ q (show (Field.usedLen i).Valid from hi),
    vring_store h q (show (Field.usedId i).Valid from hi)]
  simp only [Function.update_self, Function.update_idem]
  rw [Vring.setField_used]
  simp [Vring.setField]

theorem value_usedIdx (h : WithRoom p s) (q : Queue) :
    s.value q .usedIdx = (vring p s q).usedIdx.toNat := by
  have hlt : s.value q .usedIdx < 2 ^ 16 := readLe_lt s.mem _ 2
  have hval : (vring p s q).usedIdx = UInt16.ofNat (s.value q .usedIdx) := by
    rw [value, ring_of_rings h.rings_eq]
    rfl
  rw [hval, UInt16.toNat_ofNat', Nat.mod_eq_of_lt hlt]

theorem value_usedId (h : WithRoom p s) (q : Queue) {i : Nat} (hi : i < ringSize) :
    ((vring p s q).usedRing i).id.toUInt16 = UInt16.ofNat (s.value q (.usedId i)) := by
  have hval : ((vring p s q).usedRing i).id = UInt32.ofNat (s.value q (.usedId i)) := by
    rw [value, ring_of_rings h.rings_eq]
    simp [vring, Vring.ofFields, hi, fieldValue]
  rw [hval, UInt32.toUInt16_ofNat']

end Stores

/-- `last_rx_idx` or `tx_idx`. -/
def idx (s : MemState) : Queue → UInt16
  | .rx => s.lastRxIdx
  | .tx => s.txIdx

/-- A queue, with the index of the driver. -/
def ringState (p : Placement) (s : MemState) (q : Queue) : RingState := ⟨vring p s q, s.idx q⟩

section Steps

variable {vringInit : Nat → Nat → Nat → VringAddr} {p : Placement} {s s' : MemState} {a : MemAction}

@[simp] theorem idx_note (s : MemState) (a : Access) : (s.note a).idx = s.idx := by
  funext q'
  cases q' <;> rfl

@[simp] theorem idx_store (s : MemState) (q : Queue) (f : Field) (v : Nat) :
    (s.store q f v).idx = s.idx := by
  funext q'
  cases q' <;> rfl

theorem idx_pushAvail (s : MemState) (q : Queue) (id : Nat) : (s.pushAvail q id).idx = s.idx := by
  unfold pushAvail load
  rw [idx_store, idx_note, idx_store, idx_note]

@[simp] theorem idx_copyTo (s : MemState) (q : Queue) (addr : Nat) (data : Str) :
    (s.copyTo q addr data).idx = s.idx := by
  funext q'
  cases q' <;> rfl

theorem idx_copyPacket (s : MemState) (payload : Option Nat) (id len : Nat) :
    (s.copyPacket p payload id len).idx = s.idx := by
  cases payload with
  | none => rfl
  | some addr => exact idx_copyTo s .rx addr _

theorem idx_output (p : Placement) (s : MemState) (frame : Str) :
    (output p s frame).idx = Function.update s.idx .tx (s.txIdx + 1) := by
  obtain ⟨t, ht, hidx⟩ : ∃ t : MemState,
      output p s frame = { t with txIdx := t.txIdx + 1 } ∧ t.idx = s.idx :=
    ⟨_, rfl, by rw [idx_pushAvail, idx_store, idx_store, idx_store, idx_copyTo]⟩
  rw [ht]
  funext q
  cases q with
  | rx => exact congrFun hidx .rx
  | tx => exact congrArg (· + 1) (congrFun hidx .tx)

@[simp] theorem idx_foldl_fillSlot (s : MemState) (l : List Nat) :
    (l.foldl (fillSlot p) s).idx = s.idx := by
  induction l generalizing s with
  | nil => rfl
  | cons i l ih => rw [List.foldl_cons, ih, fillSlot, idx_store, idx_store, idx_store, idx_store]

theorem WithRoom.foldl_fillSlot (h : WithRoom p s) (l : List Nat) :
    WithRoom p (l.foldl (fillSlot p) s) := by
  induction l generalizing s with
  | nil => exact h
  | cons i l ih => exact ih ((h.desc .rx i _ _ _).store .rx _ _)

/-- One queue has changed, by an operation. -/
theorem ringState_of_update {q : Queue} {b : RingAction}
    (hvring : vring p s' = Function.update (vring p s) q ((ringState p s q).next b).vring)
    (hidx : s'.idx q = ((ringState p s q).next b).idx) (hother : s'.idx q.other = s.idx q.other)
    (q' : Queue) :
    ringState p s' q' = (ringState p s q').after (if q' = q then some b else none) := by
  rw [ringState, hvring]
  by_cases hq : q' = q
  · rw [if_pos hq, hq, Function.update_self, hidx]
    rfl
  · have hq' : q' = q.other := by cases q <;> cases q' <;> first | rfl | exact absurd rfl hq
    rw [if_neg hq, Function.update_of_ne hq, hq', hother]
    rfl

theorem ringState_prefill (h : WithRoom p s) (hspace : p.InSpace) (q : Queue) :
    ringState p (((List.range ringSize).foldl (fillSlot p) s).store .rx .availIdx ringSize) q =
      (ringState p s q).after (if q = .rx then some .prefill else none) := by
  have hfill := vring_foldl_fillSlot h hspace fun i hi => List.mem_range.mp hi
  have hstore := vring_store (h.foldl_fillSlot (List.range ringSize)) .rx
    (show Field.availIdx.Valid from trivial) ringSize
  rw [hfill, Function.update_self, Function.update_idem] at hstore
  exact ringState_of_update hstore (by simp [RingState.next, ringState]) (by simp) q

theorem ringState_output (h : WithRoom p s) (hspace : p.InSpace) {frame : Str}
    (hapart : ∀ o ∈ p.state, NoOverlap (p.txBuffer + bufferSize * slot s.txIdx, frame.length) o)
    (q : Queue) : ringState p (output p s frame) q =
      (ringState p s q).after (if q = .tx then some (.output frame.length) else none) :=
  ringState_of_update (vring_output h hspace hapart) (congrFun (idx_output p s frame) .tx)
    (congrFun (idx_output p s frame) .rx) q

theorem ringState_deviceWrite (h : WithRoom p s) (q' : Queue) {i : Nat} (hi : i < ringSize)
    (e : VringUsedElem) (idx : UInt16) (q : Queue) :
    ringState p (deviceWrite s q' i e idx) q =
      (ringState p s q).after (if q = q' then some (.deviceWrite i e idx) else none) :=
  ringState_of_update (vring_deviceWrite h q' hi e idx)
    (by simp [deviceWrite, RingState.next, ringState]) (by simp [deviceWrite]) q

theorem idx_copyElement (s : MemState) (payload : Option Nat) :
    (copyElement p s payload).idx = s.idx := by
  rw [copyElement, idx_copyPacket, noteElement, idx_note, idx_note, idx_note]

/-- If the loop goes on, the copy is apart from the rings and the variables. -/
def PacketApart (p : Placement) (s : MemState) (payload : Option Nat) : Prop :=
  s.lastRxIdx.toNat ≠ s.value .rx .usedIdx → ∀ addr ∈ payload, ∀ o ∈ p.state,
    NoOverlap (addr, s.value .rx (.usedLen (slot s.lastRxIdx))) o

instance (p : Placement) (s : MemState) : DecidablePred (PacketApart p s) := fun _ =>
  inferInstanceAs (Decidable (_ → _))

theorem WithRoom.copyElement (h : WithRoom p s) (payload : Option Nat) :
    WithRoom p (copyElement p s payload) := by
  cases payload <;> exact ⟨h.room, h.rings_eq⟩

theorem ringState_irqIteration (h : WithRoom p s) {payload : Option Nat}
    (hapart : PacketApart p s payload) (q : Queue) :
    ringState p (irqIteration p s payload) q =
      (ringState p s q).after (if q = .rx then some .irqIteration else none) := by
  have hslot := slot_lt s.lastRxIdx
  have hused := value_usedIdx h .rx
  by_cases heq : s.lastRxIdx = (vring p s .rx).usedIdx
  · -- the loop ends, and nothing is stored
    have hnext : (ringState p s .rx).next .irqIteration = ringState p s .rx :=
      if_neg (not_not.mpr heq)
    rw [irqIteration_of_eq payload (by rw [hused, heq])]
    refine ringState_of_update (s := s) (q := .rx) (b := .irqIteration) ?_ ?_ rfl q
    · rw [hnext]
      exact (Function.update_eq_self .rx (vring p s)).symm
    · rw [hnext]
      rfl
  · have hnext : (ringState p s .rx).next .irqIteration = ⟨((vring p s .rx).putAvail
        ((vring p s .rx).usedRing (slot s.lastRxIdx)).id.toUInt16).bumpAvail, s.lastRxIdx + 1⟩ :=
      if_pos heq
    have hne : s.lastRxIdx.toNat ≠ s.value .rx .usedIdx := by
      rw [hused]
      exact fun hne => heq (UInt16.toNat_inj.mp hne)
    have hcopy : vring p (copyElement p s payload) = vring p s :=
      vring_copyPacket (s := noteElement s) (hapart hne)
    have hpush := vring_pushAvail (h.copyElement payload) .rx
      (s.value .rx (.usedId (slot s.lastRxIdx)))
    have hidx := idx_pushAvail (copyElement p s payload) .rx
      (s.value .rx (.usedId (slot s.lastRxIdx)))
    rw [hcopy, ← value_usedId h .rx hslot] at hpush
    rw [idx_copyElement] at hidx
    rw [irqIteration_of_ne payload hne]
    generalize (copyElement p s payload).pushAvail .rx (s.value .rx (.usedId (slot s.lastRxIdx))) =
      t at hpush hidx ⊢
    refine ringState_of_update (s := s) (q := .rx) (b := .irqIteration) ?_ ?_ ?_ q
    · rw [hnext]
      exact hpush
    · rw [hnext]
      exact congrArg (· + 1) (congrFun hidx .rx)
    · exact congrFun hidx .tx

/-- The copy of an iteration is apart from the rings and the variables. -/
theorem noOverlap_of_packetApart {payload : Option Nat} (hapart : PacketApart p s payload)
    (hcopies : s.copies = []) {c : Copy} (hc : c ∈ (irqIteration p s payload).copies) :
    ∀ o ∈ p.state, NoOverlap (c.addr, c.len) o := by
  rcases copies_irqIteration p s payload with hnone | ⟨hne, addr, haddr, hcopy⟩
  · rw [hnone, hcopies] at hc
    cases hc
  · rw [hcopy, hcopies] at hc
    obtain rfl := List.mem_singleton.mp hc
    exact hapart hne addr haddr

/-! ### The variables -/

/-- The places of the variables keep their bytes. -/
def VariablesKept (p : Placement) (mem mem' : Memory) : Prop :=
  ∀ o ∈ p.vars, ∀ i, o.1 ≤ i → i < o.1 + o.2 → mem' i = mem i

/-- What writes fields of the rings, and copies apart from the variables, keeps the variables. -/
theorem Frame.variablesKept (h : Frame s s') (hroom : p.Room)
    (hrings : s.rings = some (ringsAt p.rxRingMem, ringsAt p.txRingMem))
    (haccesses : s.accesses = []) (hcopies : s.copies = [])
    (hvalid : ∀ x ∈ s'.accesses, x.field.Valid)
    (hapart : ∀ c ∈ s'.copies, ∀ o ∈ p.vars, NoOverlap (c.addr, c.len) o) :
    VariablesKept p s.mem s'.mem := by
  intro o ho i hlo hhi
  obtain ⟨-, xs, cs, hxs, hcs, hkept⟩ := h
  rw [haccesses, List.nil_append] at hxs
  rw [hcopies, List.nil_append] at hcs
  refine hkept i (fun x hx _ => ?_) fun c hc => ?_
  · have hspan := field_span (hvalid x (hxs ▸ hx)) (p.ringMem x.queue)
    have hgap := hroom x.queue o (List.mem_append_right _ ho)
    rw [ring_of_rings hrings]
    unfold NoOverlap at hgap
    dsimp only at hgap
    omega
  · have hmiss := hapart c (hcs ▸ hc) o ho
    unfold NoOverlap at hmiss
    dsimp only at hmiss
    omega

/-! ### Steps and runs -/

/-- A frame ends inside `tx_buffer`, and the copy of a packet is apart from the rings and the
variables. -/
def CopiesApart (p : Placement) (s : MemState) : MemAction → Prop
  | .irqIteration payload => PacketApart p s payload
  | a => FrameFits s a

instance (s : MemState) (a : MemAction) : Decidable (FrameFits s a) := by
  cases a <;> unfold FrameFits <;> infer_instance

instance (p : Placement) (s : MemState) (a : MemAction) : Decidable (CopiesApart p s a) := by
  cases a <;> unfold CopiesApart <;> infer_instance

theorem WithRoom.of_isSome (hroom : p.Room) (h : RingsOk p s) (hsome : s.rings.isSome) :
    WithRoom p s.clear :=
  ⟨hroom, rings_of_isSome h hsome⟩

/-- A copy that stays in the buffers is apart from the rings and the variables. -/
theorem noOverlap_of_fits (hp : p.Proper) (hroom : p.Room) (q : Queue) {i len : Nat}
    (hfits : bufferSize * i + len ≤ buffersSize) :
    ∀ o ∈ p.state, NoOverlap (p.buffer q + bufferSize * i, len) o := fun o ho =>
  (Placement.buffer_noOverlap_state hp hroom q o ho).mono (Nat.le_add_right _ _) (by omega)

/-- **A step is an operation on one queue**, or on none. -/
theorem ringState_step (hstd : StandardLayout vringInit) (hp : p.Proper) (hroom : p.Room)
    (hspace : p.InSpace) (h : RingsOk p s) (hapart : CopiesApart p s a)
    (hs : step vringInit p s a = some s') (q : Queue) :
    ringState p s' q = (ringState p s q).after (actionOf q a) := by
  cases a with
  | virtioInitHardware magic =>
    obtain rfl := Option.some.inj hs
    by_cases hmagic : magic = some virtioMagicValue
    · have hwith : WithRoom p { s.clear with
          regs := true
          rings := some (ringsAt p.rxRingMem, ringsAt p.txRingMem) } := ⟨hroom, rfl⟩
      rw [hmagic, virtioInitHardware_magic hstd hp, ringState_prefill hwith hspace]
      simp [actionOf]
      rfl
    · obtain ⟨regs, heq⟩ := virtioInitHardware_of_ne vringInit p hmagic s.clear
      rw [heq]
      simp [actionOf, hmagic]
      rfl
  | lowLevelOutput frame | netifOutput frame =>
    obtain ⟨⟨hsome, -⟩, hs'⟩ := Option.ite_none_right_eq_some.mp hs
    obtain rfl := Option.some.inj hs'
    exact ringState_output (WithRoom.of_isSome hroom h hsome) hspace
      (noOverlap_of_fits hp hroom .tx hapart) q
  | hardwareIrqHandle isr =>
    obtain ⟨-, hs'⟩ := Option.ite_none_left_eq_some.mp hs
    obtain rfl := Option.some.inj hs'
    rfl
  | irqIteration payload =>
    obtain ⟨⟨hsome, -⟩, hs'⟩ := Option.ite_none_right_eq_some.mp hs
    obtain rfl := Option.some.inj hs'
    exact ringState_irqIteration (WithRoom.of_isSome hroom h hsome) hapart q
  | deviceWrite q' i e idx =>
    obtain ⟨⟨hsome, hi⟩, hs'⟩ := Option.ite_none_right_eq_some.mp hs
    obtain rfl := Option.some.inj hs'
    rw [ringState_deviceWrite (WithRoom.of_isSome hroom h hsome) q' hi, actionOf]
    simp only [eq_comm]
    rfl
  | deviceFill i data =>
    obtain ⟨⟨-, hi, hlen⟩, hs'⟩ := Option.ite_none_right_eq_some.mp hs
    obtain rfl := Option.some.inj hs'
    have hcopy := vring_copyTo (s := s.clear) .rx
      (noOverlap_of_fits hp hroom .rx (bufferSize_mul_add_le hi hlen))
    rw [ringState, idx_copyTo]
    exact congrArg (RingState.mk · (s.idx q)) (congrFun hcopy q)

theorem variablesKept_prefill (s₀ : MemState) (hroom : p.Room)
    (hrings : s₀.rings = some (ringsAt p.rxRingMem, ringsAt p.txRingMem))
    (haccesses : s₀.accesses = []) (hcopies : s₀.copies = []) :
    VariablesKept p s₀.mem
      (((List.range ringSize).foldl (fillSlot p) s₀).store .rx .availIdx ringSize).mem := by
  refine (((Frame.refl s₀).foldl_fillSlot (List.range ringSize)).store .rx .availIdx
    ringSize).variablesKept hroom hrings haccesses hcopies
      (fun x hx => (prefill_plain haccesses hx).2.1) fun c hc => ?_
  rw [copies_prefill, hcopies] at hc
  cases hc

/-- **A step keeps the variables.** -/
theorem variablesKept_step (hstd : StandardLayout vringInit) (hp : p.Proper) (hroom : p.Room)
    (h : RingsOk p s) (hapart : CopiesApart p s a) (hs : step vringInit p s a = some s') :
    VariablesKept p s.mem s'.mem := by
  cases a with
  | virtioInitHardware magic =>
    obtain rfl := Option.some.inj hs
    by_cases hmagic : magic = some virtioMagicValue
    · rw [hmagic, virtioInitHardware_magic hstd hp]
      exact variablesKept_prefill { s.clear with
        regs := true
        rings := some (ringsAt p.rxRingMem, ringsAt p.txRingMem) } hroom rfl rfl rfl
    · obtain ⟨regs, heq⟩ := virtioInitHardware_of_ne vringInit p hmagic s.clear
      rw [heq]
      exact fun o _ i _ _ => rfl
  | lowLevelOutput frame | netifOutput frame =>
    obtain ⟨⟨hsome, -⟩, hs'⟩ := Option.ite_none_right_eq_some.mp hs
    obtain rfl := Option.some.inj hs'
    obtain ⟨k, hk, hacc⟩ := accesses_output p s.clear frame
    refine ((Frame.refl s.clear).output frame).variablesKept hroom (rings_of_isSome h hsome) rfl
      rfl (fun x hx => ?_) fun c hc o ho => ?_
    · rw [hacc] at hx
      exact (outputAccesses_plain (slot_lt _) hk hx 0).2.1
    · rw [copies_output] at hc
      obtain rfl := List.mem_singleton.mp hc
      exact noOverlap_of_fits hp hroom .tx hapart o (Placement.variable_mem_state ho)
  | hardwareIrqHandle isr =>
    obtain ⟨-, hs'⟩ := Option.ite_none_left_eq_some.mp hs
    obtain rfl := Option.some.inj hs'
    exact fun o _ i _ _ => rfl
  | irqIteration payload =>
    obtain ⟨⟨hsome, -⟩, hs'⟩ := Option.ite_none_right_eq_some.mp hs
    obtain rfl := Option.some.inj hs'
    obtain ⟨xs, hacc, hvalid⟩ := accesses_irqIteration p s.clear payload
    refine ((Frame.refl s.clear).irqIteration payload).variablesKept hroom
      (rings_of_isSome h hsome) rfl rfl (fun x hx => ?_) fun c hc o ho => ?_
    · rw [hacc] at hx
      rcases List.mem_cons.mp hx with rfl | hx
      · trivial
      · exact hvalid x hx
    · exact noOverlap_of_packetApart (s := s.clear) hapart rfl hc o
        (Placement.variable_mem_state ho)
  | deviceWrite q i e idx =>
    obtain ⟨⟨hsome, hi⟩, hs'⟩ := Option.ite_none_right_eq_some.mp hs
    obtain rfl := Option.some.inj hs'
    refine ((((Frame.refl s.clear).store q _ _).store q _ _).store q _ _).variablesKept hroom
      (rings_of_isSome h hsome) rfl rfl (fun x hx => ?_) fun c hc => absurd hc List.not_mem_nil
    simp only [store, note, clear, List.nil_append, List.cons_append, List.mem_cons,
      List.not_mem_nil, or_false] at hx
    rcases hx with rfl | rfl | rfl
    · exact hi
    · exact hi
    · trivial
  | deviceFill i data =>
    obtain ⟨⟨hsome, hi, hlen⟩, hs'⟩ := Option.ite_none_right_eq_some.mp hs
    obtain rfl := Option.some.inj hs'
    refine ((Frame.refl s.clear).copyTo _ _ _).variablesKept hroom (rings_of_isSome h hsome) rfl
      rfl (fun x hx => absurd hx List.not_mem_nil) fun c hc o ho => ?_
    obtain rfl := List.mem_singleton.mp hc
    exact noOverlap_of_fits hp hroom .rx (bufferSize_mul_add_le hi hlen) o
      (Placement.variable_mem_state ho)

/-- **The queues are apart**: with room behind the arrays, a run from any memory, in any
interleaving, leaves in each queue what the operations on that queue alone make of it, and in the
places of the variables what was there. -/
theorem ringState_run (hstd : StandardLayout vringInit) (hp : p.Proper) (hroom : p.Room)
    (hspace : p.InSpace) {mem : Memory} {l : List MemAction}
    (hrun : runSteps (step vringInit p) (start mem) l = some s)
    (hapart : EveryStep (step vringInit p) (fun _ s a => CopiesApart p s a) (start mem) l) :
    (∀ q, ringState p s q =
      (l.filterMap (actionOf q)).foldl RingState.next (ringState p (start mem) q)) ∧
    VariablesKept p mem s.mem := by
  suffices h : RingsOk p s ∧ (∀ q, ringState p s q =
      (l.filterMap (actionOf q)).foldl RingState.next (ringState p (start mem) q)) ∧
      VariablesKept p mem s.mem from h.2
  refine runSteps_invariant (P := fun _ s a => CopiesApart p s a)
    (I := fun pre s => RingsOk p s ∧ (∀ q, ringState p s q =
      (pre.filterMap (actionOf q)).foldl RingState.next (ringState p (start mem) q)) ∧
      VariablesKept p mem s.mem)
    ⟨Or.inl rfl, fun q => rfl, fun o _ i _ _ => rfl⟩ ?_ hapart hrun
  rintro pre t a t' - ⟨hok, h, hkept⟩ hcopies hs
  refine ⟨hok.step hstd hp hs, fun q => ?_, fun o ho i hlo hhi => ?_⟩
  · rw [ringState_step hstd hp hroom hspace hok hcopies hs, h, List.filterMap_append,
      List.foldl_append]
    cases hb : actionOf q a <;> simp [hb, RingState.after]
  · rw [variablesKept_step hstd hp hroom hok hcopies hs o ho i hlo hhi]
    exact hkept o ho i hlo hhi

/-- Both queues at work, in turns. -/
def turnsRun : List MemAction :=
  [.virtioInitHardware none, .virtioInitHardware (some virtioMagicValue),
    .lowLevelOutput (bytes "ping"), .deviceFill 3 (bytes "pong"), .deviceWrite .rx 0 ⟨3, 4⟩ 1,
    .hardwareIrqHandle 1, .irqIteration (some 0x200000), .deviceWrite .tx 0 ⟨0, 0⟩ 1,
    .irqIteration none, .netifOutput (bytes "ack")]

theorem ringState_run_turnsRun : ∃ s,
    runSteps (step standardVringInit apartPlacement) (start fun _ => 7) turnsRun = some s ∧
      (∀ q, ringState apartPlacement s q = (turnsRun.filterMap (actionOf q)).foldl RingState.next
        (ringState apartPlacement (start fun _ => 7) q)) ∧
      ∀ o ∈ apartPlacement.vars, ∀ i, o.1 ≤ i → i < o.1 + o.2 → s.mem i = 7 := by
  have hsome : (runSteps (step standardVringInit apartPlacement) (start fun _ => 7)
      turnsRun).isSome := by
    decide +kernel
  obtain ⟨s, hrun⟩ := Option.isSome_iff_exists.mp hsome
  have hroom : apartPlacement.Room := by
    intro q
    cases q <;> decide
  have hspace : apartPlacement.InSpace := by
    intro q
    cases q <;> decide
  have hapart : EveryStep (step standardVringInit apartPlacement)
      (fun _ s a => CopiesApart apartPlacement s a) (start fun _ => 7) turnsRun := by
    decide +kernel
  exact ⟨s, hrun, ringState_run standardLayout_standardVringInit proper_apartPlacement hroom hspace
    hrun hapart⟩

end Steps

end MemState

end BankSel4.Network
