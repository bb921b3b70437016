import BankSel4.Network.Transmit

/-!
# Flow control of the transmit queue

The calls of `low_level_output` and `netif_output` use the slots of the ring in turn and never look
at the used ring.  `CanSend` is the condition that they rely on: a frame fits its buffer, and the
frame of 256 calls before is completed.  `Flow` is the invariant of the runs that meet it, which
says what the descriptor, the buffer and the avail entry of each frame hold that the device is not
done with.  `untouched_iff` is that then, and only then, no call touches what is outstanding, and
the device reads the frames of the calls.
-/

namespace BankSel4.Network

/-- The frame of the call that is running. -/
def TxPhase.frames : TxPhase → List Str
  | .idle => []
  | .describe _ frame | .enqueue _ frame | .publish frame | .finish frame => [frame]

/-- The descriptors that the call that is running has set up. -/
def TxPhase.described : TxPhase → Nat
  | .idle | .describe .. => 0
  | .enqueue .. | .publish .. | .finish .. => 1

/-- The entries of the avail ring that the call that is running has written. -/
def TxPhase.enqueued : TxPhase → Nat
  | .idle | .describe .. | .enqueue .. => 0
  | .publish .. | .finish .. => 1

/-- The entries that the call that is running has offered. -/
def TxPhase.published : TxPhase → Nat
  | .idle | .describe .. | .enqueue .. | .publish .. => 0
  | .finish .. => 1

namespace TxState

variable {s : TxState} {q q' : Logged}

/-- The entries that the device has been offered and has not completed: their numbers and their
descriptors. -/
def outstanding (s : TxState) : List (Nat × UInt16) :=
  s.device.held ++ (List.range (distance s.next s.txRing.availIdx)).map fun i =>
    (s.device.taken + i, s.txRing.availRing (slot (UInt16.ofNat (s.device.taken + i))))

/-- The step does not write to the buffer, the descriptor or the avail entry of an outstanding
entry. -/
def Untouched (s : TxState) : TxAction → Prop
  | .lowLevelOutput frame | .netifOutput frame => ∀ x ∈ s.outstanding, ∀ i < frame.length,
      ¬ (bufferSize * x.2.toNat ≤ bufferSize * slot s.txIdx + i ∧
        bufferSize * slot s.txIdx + i < bufferSize * (x.2.toNat + 1))
  | .run =>
    match s.phase with
    | .describe descIdx _ => ∀ x ∈ s.outstanding, x.2 ≠ descIdx
    | .enqueue .. => ∀ x ∈ s.outstanding, x.1 % ringSize ≠ slot s.txRing.availIdx
    | _ => True
  | _ => True

/-- The device reads the frames of the calls, in order. -/
structure Delivered (q : Logged) : Prop where
  /-- What it reads from the entry with the number `k` is the frame of the call with the number
  `k`. -/
  read : ∀ x ∈ reads q.2, (calls q.2)[x.1]? = some x.2
  /-- The calls return `ERR_OK`, but for one that may be running. -/
  returned : calls q.2 = returned q.2 ++ q.1.phase.frames
  /-- The frames of these calls are taken or still available. -/
  none_lost : q.1.device.taken + distance q.1.next q.1.txRing.availIdx =
    (TxState.returned q.2).length + q.1.phase.published

/-- A call passes a frame that fits its buffer, when the device has completed the frame of 256 calls
before, if there is one. -/
def CanSend (q : Logged) : TxAction → Prop
  | .lowLevelOutput frame | .netifOutput frame => frame.length ≤ bufferSize ∧
      ∀ k, k + ringSize = (calls q.2).length → k ∈ completed q.2
  | _ => True

theorem forall_mem_iff {n : Nat} {K : List Nat} :
    (∀ k, k + ringSize = n → k ∈ K) ↔ n < ringSize ∨ n - ringSize ∈ K := by
  constructor
  · intro h
    rcases Nat.lt_or_ge n ringSize with hlt | hge
    · exact Or.inl hlt
    · exact Or.inr (h _ (Nat.sub_add_cancel hge))
  · rintro (hlt | hmem) k rfl
    · omega
    · rwa [Nat.add_sub_cancel] at hmem

instance decidableCanSend (q : Logged) : (a : TxAction) → Decidable (CanSend q a)
  | .lowLevelOutput _ | .netifOutput _ =>
    decidable_of_iff (_ ∧ (_ ∨ _)) (and_congr_right' forall_mem_iff.symm)
  | .run | .take | .read _ | .complete _ => isTrue trivial

/-! ### The invariant -/

/-- The frames `C` of the calls, those `R` of the calls that returned, and the numbers `K` of the
entries completed. -/
structure Flow (s : TxState) (C R : List Str) (K : List Nat) : Prop where
  calls_eq : C = R ++ s.phase.frames
  fits : ∀ f ∈ C, f.length ≤ bufferSize
  availIdx_eq : s.txRing.availIdx = UInt16.ofNat (R.length + s.phase.published)
  txIdx_eq : s.txIdx = UInt16.ofNat R.length
  descIdx_eq : match s.phase with
    | .describe descIdx _ | .enqueue descIdx _ => descIdx = UInt16.ofNat (R.length % ringSize)
    | _ => True
  taken_le : s.device.taken ≤ R.length + s.phase.published
  of_held : ∀ x ∈ s.device.held,
    x.1 < s.device.taken ∧ x.1 ∉ K ∧ x.2 = UInt16.ofNat (x.1 % ringSize)
  held : ∀ k < s.device.taken, k ∉ K → k ∈ s.device.held.map Prod.fst
  completed_lt : ∀ k ∈ K, k < s.device.taken
  /-- No more than 256 frames are not completed. -/
  window : ∀ k, k + ringSize < C.length → k ∈ K
  buffer : ∀ k f, C[k]? = some f → k ∉ K → s.txBuffer.Holds (bufferSize * (k % ringSize)) f
  desc : ∀ k f, C[k]? = some f → k ∉ K → k < R.length + s.phase.described →
    s.txRing.desc (k % ringSize) = ⟨bufferSize * (k % ringSize), UInt32.ofNat f.length, 0⟩
  avail : ∀ k, k ∉ K → k < R.length + s.phase.enqueued →
    s.txRing.availRing (k % ringSize) = UInt16.ofNat (k % ringSize)

section Flow

variable {C R : List Str} {K : List Nat}

theorem flow_txStart : Flow txStart [] [] [] := by
  constructor <;> simp [txStart, TxPhase.frames, TxPhase.published, TxPhase.described,
    TxPhase.enqueued, Vring.zero]

theorem length_frames (phase : TxPhase) : phase.published ≤ phase.frames.length := by
  cases phase <;> simp [TxPhase.published, TxPhase.frames]

theorem published_le_enqueued (phase : TxPhase) : phase.published ≤ phase.enqueued := by
  cases phase <;> simp [TxPhase.published, TxPhase.enqueued]

theorem published_le_described (phase : TxPhase) : phase.published ≤ phase.described := by
  cases phase <;> simp [TxPhase.published, TxPhase.described]

theorem Flow.published_le (h : Flow s C R K) : R.length + s.phase.published ≤ C.length := by
  have := length_frames s.phase
  rw [h.calls_eq, List.length_append]
  omega

/-- The window, with the frame of 256 calls before completed as well. -/
theorem Flow.window_succ (h : Flow s C R K) (hdone : ∀ k, k + ringSize = C.length → k ∈ K) :
    ∀ k, k + ringSize < C.length + 1 → k ∈ K := by
  intro k hk
  rcases Nat.lt_succ_iff_lt_or_eq.mp hk with hk | hk
  · exact h.window k hk
  · exact hdone k hk

/-- Frames that are not completed are in different slots. -/
theorem mod_ne_of_window {n k j : Nat} (hwindow : ∀ k, k + ringSize < n → k ∈ K) (hk : k ∉ K)
    (hkj : k < j) (hj : j < n) : k % ringSize ≠ j % ringSize := by
  have hle : n ≤ k + ringSize := Nat.le_of_not_lt fun hlt => hk (hwindow k hlt)
  unfold ringSize at hle ⊢
  omega

/-- While a call runs, its frame comes after those of the calls that returned. -/
theorem Flow.length_lt (h : Flow s C R K) (hrunning : s.phase.frames ≠ []) :
    R.length < C.length := by
  have hpos := List.length_pos_iff.mpr hrunning
  rw [h.calls_eq, List.length_append]
  omega

theorem Flow.not_mem_taken (h : Flow s C R K) : s.device.taken ∉ K := fun hmem =>
  Nat.lt_irrefl _ (h.completed_lt _ hmem)

/-- The entries that the device has not taken. -/
theorem Flow.distance_eq (h : Flow s C R K) :
    distance s.next s.txRing.availIdx = R.length + s.phase.published - s.device.taken := by
  have hle := h.taken_le
  have hpub := h.published_le
  -- at most 256 frames are not completed, so the difference is not lost in the 16 bits
  have hwin : ¬ s.device.taken + ringSize < C.length := fun hlt =>
    h.not_mem_taken (h.window _ hlt)
  rw [next, h.availIdx_eq, distance, UInt16.toNat_sub, UInt16.toNat_ofNat', UInt16.toNat_ofNat']
  unfold ringSize at hwin
  omega

theorem slot_ofNat (k : Nat) : slot (UInt16.ofNat k) = k % ringSize := by
  rw [slot, UInt16.toNat_ofNat', ringSize]
  omega

theorem toNat_ofNat_mod (k : Nat) : (UInt16.ofNat (k % ringSize)).toNat = k % ringSize := by
  rw [UInt16.toNat_ofNat', ringSize]
  omega

/-- The outstanding entries are those offered and not completed. -/
theorem Flow.mem_outstanding (h : Flow s C R K) {x : Nat × UInt16} :
    x ∈ s.outstanding ↔ x.1 < R.length + s.phase.published ∧ x.1 ∉ K ∧
      x.2 = UInt16.ofNat (x.1 % ringSize) := by
  have htaken := h.taken_le
  have hpub := published_le_enqueued s.phase
  have hslot : ∀ k, s.device.taken ≤ k → k < R.length + s.phase.published →
      s.txRing.availRing (slot (UInt16.ofNat k)) = UInt16.ofNat (k % ringSize) := by
    intro k hk hlt
    rw [slot_ofNat]
    exact h.avail k (fun hmem => Nat.not_lt.mpr hk (h.completed_lt k hmem)) (by omega)
  unfold outstanding
  rw [h.distance_eq, List.mem_append, List.mem_map]
  constructor
  · rintro (hx | ⟨i, hi, rfl⟩)
    · obtain ⟨hlt, hK, hid⟩ := h.of_held x hx
      exact ⟨by omega, hK, hid⟩
    · rw [List.mem_range] at hi
      refine ⟨by dsimp only; omega, fun hmem => ?_, hslot _ (Nat.le_add_right _ _) (by omega)⟩
      have := h.completed_lt _ hmem
      omega
  · obtain ⟨k, id⟩ := x
    rintro ⟨hlt, hK, hid⟩
    dsimp only at hlt hK hid
    -- an entry is held once it is taken, and in the avail ring before
    by_cases hk : k < s.device.taken
    · obtain ⟨y, hy, hyk⟩ := List.mem_map.mp (h.held k hk hK)
      have hyid := (h.of_held y hy).2.2
      rw [hyk] at hyid
      have heq : y = (k, id) := Prod.ext hyk (hyid.trans hid.symm)
      exact Or.inl (heq ▸ hy)
    · refine Or.inr ⟨k - s.device.taken, List.mem_range.mpr (by omega), ?_⟩
      rw [Nat.add_sub_cancel' (by omega), hslot k (by omega) hlt, hid]

/-- What the device reads through a descriptor. -/
theorem readBuffer_of_holds {id : UInt16} {off : Nat} {f : Str} (hfits : f.length ≤ bufferSize)
    (hdesc : s.txRing.desc id.toNat = ⟨off, UInt32.ofNat f.length, 0⟩)
    (hbytes : s.txBuffer.Holds off f) : s.readBuffer id = f := by
  have hlen : (UInt32.ofNat f.length).toNat = f.length := by
    rw [UInt32.toNat_ofNat']
    exact Nat.mod_eq_of_lt (Nat.lt_of_le_of_lt hfits (by decide))
  rw [readBuffer, hdesc]
  dsimp only
  rw [hlen]
  refine List.ext_getElem (by simp) fun i hi hi' => ?_
  rw [List.getElem_map, List.getElem_range, hbytes.2 i hi', List.getD_eq_getElem _ _ hi']

/-- What the device reads from an entry that it holds. -/
theorem Flow.readBuffer_eq (h : Flow s C R K) {k : Nat} {id : UInt16}
    (hk : (k, id) ∈ s.device.held) : C[k]? = some (s.readBuffer id) := by
  obtain ⟨hlt, hK, hid⟩ := h.of_held _ hk
  dsimp only at hlt hK hid
  have htaken := h.taken_le
  have hpub := h.published_le
  obtain ⟨f, hf⟩ : ∃ f, C[k]? = some f := ⟨_, List.getElem?_eq_getElem (by omega)⟩
  have hle := h.fits f (List.mem_of_getElem? hf)
  have hdesc := h.desc k f hf hK (by have := published_le_described s.phase; omega)
  rw [hf, Option.some_inj]
  refine (readBuffer_of_holds hle ?_ (h.buffer k f hf hK)).symm
  rw [hid, toNat_ofNat_mod]
  exact hdesc

/-! ### Steps -/

/-- The frame of the call that is running comes after those of the calls that returned. -/
theorem getElem?_append_singleton_length (R : List Str) (frame : Str) :
    (R ++ [frame])[R.length]? = some frame := by
  rw [List.getElem?_append_right le_rfl, Nat.sub_self]
  rfl

theorem output_of_idle (hidle : s.phase = .idle) {frame : Str}
    (hfits : frame.length ≤ bufferSize) :
    s.output frame = some ({ s with
      txBuffer := s.txBuffer.store (bufferSize * slot s.txIdx) frame
      phase := .describe (UInt16.ofNat (slot s.txIdx)) frame }, some (.called frame)) := by
  have hslot : (UInt16.ofNat (slot s.txIdx)).toNat = slot s.txIdx := toNat_ofNat_mod _
  have hlt := slot_lt s.txIdx
  have hwithin : (⟨bufferSize * slot s.txIdx, frame⟩ : Block).Within 0
      (ringSize * bufferSize : Nat) := by
    unfold Block.Within
    dsimp only
    unfold ringSize bufferSize at *
    omega
  rw [output, if_pos ⟨hidle, Nat.lt_of_le_of_lt hfits (by decide)⟩]
  dsimp only
  rw [hslot, Mem.perform_of_within _ hwithin]
  rfl

theorem output_eq_some {frame : Str} (hfits : frame.length ≤ bufferSize)
    {r : TxState × Option TxEvent} (hs : s.output frame = some r) :
    s.phase = .idle ∧ r = ({ s with
      txBuffer := s.txBuffer.store (bufferSize * slot s.txIdx) frame
      phase := .describe (UInt16.ofNat (slot s.txIdx)) frame }, some (.called frame)) := by
  have hidle : s.phase = .idle := by
    unfold output at hs
    split_ifs at hs with hidle
    exact hidle.1
  rw [output_of_idle hidle hfits] at hs
  exact ⟨hidle, (Option.some.inj hs).symm⟩

/-- The copy of the payload goes to a slot with no frame that is not completed. -/
theorem Flow.output (h : Flow s C R K) {frame : Str} (hfits : frame.length ≤ bufferSize)
    (hdone : ∀ k, k + ringSize = C.length → k ∈ K) (hidle : s.phase = .idle) :
    Flow { s with
      txBuffer := s.txBuffer.store (bufferSize * slot s.txIdx) frame
      phase := .describe (UInt16.ofNat (slot s.txIdx)) frame } (C ++ [frame]) R K := by
  obtain ⟨txRing, txBuffer, txIdx, phase, device⟩ := s
  subst hidle
  obtain rfl : C = R := h.calls_eq.trans (List.append_nil R)
  have hslot : slot txIdx = C.length % ringSize := by
    rw [show txIdx = _ from h.txIdx_eq, slot_ofNat]
  have hwindow : ∀ k, k + ringSize < (C ++ [frame]).length → k ∈ K := by
    rw [List.length_append, List.length_singleton]
    exact h.window_succ hdone
  have hroom : ∀ k len, len ≤ bufferSize →
      bufferSize * (k % ringSize) + len ≤ ringSize * bufferSize := by
    intro k len hlen
    have := Nat.mod_lt k (show 0 < ringSize by decide)
    unfold ringSize bufferSize at *
    omega
  have hold : ∀ {k f}, (C ++ [frame])[k]? = some f → k < C.length → C[k]? = some f :=
    fun hk hlt => List.getElem?_append_left hlt ▸ hk
  refine ⟨rfl, ?_, h.availIdx_eq, h.txIdx_eq, ?_, h.taken_le, h.of_held, h.held,
    h.completed_lt, hwindow, fun k f hk hK => ?_,
    fun k f hk hK hlt => h.desc k f (hold hk hlt) hK hlt, h.avail⟩
  · rw [List.forall_mem_append]
    exact ⟨h.fits, by simpa using hfits⟩
  · exact congrArg UInt16.ofNat hslot
  · dsimp only
    rw [hslot]
    -- the slot holds the new frame, and the frames in other slots keep their bytes
    by_cases heq : k = C.length
    · rw [heq, getElem?_append_singleton_length, Option.some_inj] at hk
      rw [heq, ← hk]
      exact Mem.holds_store _ (hroom _ _ hfits)
    · have hlt : k < C.length := by
        obtain ⟨hlt, -⟩ := List.getElem?_eq_some_iff.mp hk
        simp at hlt
        omega
      have hne := mod_ne_of_window hwindow hK hlt (by simp)
      have hkfits := h.fits f (List.mem_of_getElem? (hold hk hlt))
      refine (h.buffer k f (hold hk hlt) hK).store (hroom _ _ hfits) ?_
      unfold bufferSize at *
      omega

theorem Flow.describe {txRing : Vring} {txBuffer : Mem (ringSize * bufferSize)} {txIdx : UInt16}
    {device : TxDevice} {descIdx : UInt16} {frame : Str}
    (h : Flow ⟨txRing, txBuffer, txIdx, .describe descIdx frame, device⟩ C R K) :
    Flow ⟨txRing.setDesc descIdx.toNat
      ⟨bufferSize * descIdx.toNat, UInt32.ofNat frame.length, 0⟩, txBuffer, txIdx,
      .enqueue descIdx frame, device⟩ C R K := by
  have hid : descIdx.toNat = R.length % ringSize := by
    rw [show descIdx = _ from h.descIdx_eq, toNat_ofNat_mod]
  have hC : C = R ++ [frame] := h.calls_eq
  refine ⟨hC, h.fits, h.availIdx_eq, h.txIdx_eq, h.descIdx_eq, h.taken_le, h.of_held, h.held,
    h.completed_lt, h.window, h.buffer, fun k f hk hK hlt => ?_, h.avail⟩
  dsimp only [Vring.setDesc]
  rw [hid]
  -- the descriptor of the call, or one in another slot
  by_cases heq : k = R.length
  · rw [heq, hC, getElem?_append_singleton_length, Option.some_inj] at hk
    rw [heq, Function.update_self, hk]
  · have hlt' : k < R.length := by
      dsimp only [TxPhase.described] at hlt
      omega
    have hlen := h.length_lt (List.cons_ne_nil frame [])
    rw [Function.update_of_ne (mod_ne_of_window h.window hK hlt' hlen)]
    exact h.desc k f hk hK hlt'

theorem Flow.enqueue {txRing : Vring} {txBuffer : Mem (ringSize * bufferSize)} {txIdx : UInt16}
    {device : TxDevice} {descIdx : UInt16} {frame : Str}
    (h : Flow ⟨txRing, txBuffer, txIdx, .enqueue descIdx frame, device⟩ C R K) :
    Flow ⟨txRing.putAvail descIdx, txBuffer, txIdx, .publish frame, device⟩ C R K := by
  have hslot : slot txRing.availIdx = R.length % ringSize := by
    rw [show txRing.availIdx = _ from h.availIdx_eq, slot_ofNat]
    rfl
  refine ⟨h.calls_eq, h.fits, h.availIdx_eq, h.txIdx_eq, trivial, h.taken_le, h.of_held, h.held,
    h.completed_lt, h.window, h.buffer, h.desc, fun k hK hlt => ?_⟩
  dsimp only [Vring.putAvail]
  rw [hslot]
  by_cases heq : k = R.length
  · rw [heq, Function.update_self, show descIdx = _ from h.descIdx_eq]
  · have hlt' : k < R.length := by
      dsimp only [TxPhase.enqueued] at hlt
      omega
    have hlen := h.length_lt (List.cons_ne_nil frame [])
    rw [Function.update_of_ne (mod_ne_of_window h.window hK hlt' hlen)]
    exact h.avail k hK hlt'

theorem Flow.publish {txRing : Vring} {txBuffer : Mem (ringSize * bufferSize)} {txIdx : UInt16}
    {device : TxDevice} {frame : Str}
    (h : Flow ⟨txRing, txBuffer, txIdx, .publish frame, device⟩ C R K) :
    Flow ⟨txRing.bumpAvail, txBuffer, txIdx, .finish frame, device⟩ C R K := by
  refine ⟨h.calls_eq, h.fits, ?_, h.txIdx_eq, trivial, Nat.le_succ_of_le h.taken_le, h.of_held,
    h.held, h.completed_lt, h.window, h.buffer, h.desc, h.avail⟩
  calc txRing.availIdx + 1
      = UInt16.ofNat R.length + 1 := congrArg (· + 1) h.availIdx_eq
    _ = UInt16.ofNat (R.length + 1) := (UInt16.ofNat_add R.length 1).symm

theorem Flow.finish {txRing : Vring} {txBuffer : Mem (ringSize * bufferSize)} {txIdx : UInt16}
    {device : TxDevice} {frame : Str}
    (h : Flow ⟨txRing, txBuffer, txIdx, .finish frame, device⟩ C R K) :
    Flow ⟨txRing, txBuffer, txIdx + 1, .idle, device⟩ C (R ++ [frame]) K := by
  have hlen : (R ++ [frame]).length = R.length + 1 := by simp
  have hC : C = R ++ [frame] := h.calls_eq
  refine ⟨by rw [hC]; exact (List.append_nil _).symm, h.fits, ?_, ?_, trivial, ?_, h.of_held,
    h.held, h.completed_lt, h.window, h.buffer, fun k f hk hK hlt => ?_, fun k hK hlt => ?_⟩
  · rw [hlen]
    exact h.availIdx_eq
  · calc txIdx + 1
        = UInt16.ofNat R.length + 1 := congrArg (· + 1) h.txIdx_eq
      _ = UInt16.ofNat (R ++ [frame]).length := by
        rw [hlen]
        exact (UInt16.ofNat_add R.length 1).symm
  · rw [hlen]
    exact h.taken_le
  · rw [hlen] at hlt
    exact h.desc k f hk hK hlt
  · rw [hlen] at hlt
    exact h.avail k hK hlt

theorem Flow.take (h : Flow s C R K) (hne : s.next ≠ s.txRing.availIdx) :
    Flow { s with device := ⟨s.device.taken + 1,
      s.device.held ++ [(s.device.taken, s.txRing.availRing (slot s.next))]⟩ } C R K := by
  have hlt : s.device.taken < R.length + s.phase.published := by
    refine Nat.lt_of_le_of_ne h.taken_le fun heq => hne ?_
    rw [h.availIdx_eq, next, heq]
  have hid : s.txRing.availRing (slot s.next) = UInt16.ofNat (s.device.taken % ringSize) := by
    rw [next, slot_ofNat]
    exact h.avail _ h.not_mem_taken (by have := published_le_enqueued s.phase; omega)
  refine ⟨h.calls_eq, h.fits, h.availIdx_eq, h.txIdx_eq, h.descIdx_eq, hlt, fun x hx => ?_,
    fun k hk hK => ?_, fun k hK => Nat.lt_succ_of_lt (h.completed_lt k hK), h.window, h.buffer,
    h.desc, h.avail⟩
  · rcases List.mem_append.mp hx with hx | hx
    · obtain ⟨hxlt, hrest⟩ := h.of_held x hx
      exact ⟨Nat.lt_succ_of_lt hxlt, hrest⟩
    · rw [List.mem_singleton.mp hx]
      exact ⟨Nat.lt_succ_self _, h.not_mem_taken, hid⟩
  · rw [List.map_append, List.mem_append]
    rcases Nat.lt_succ_iff_lt_or_eq.mp hk with hk | rfl
    · exact Or.inl (h.held k hk hK)
    · exact Or.inr (List.mem_singleton_self _)

theorem Flow.complete (h : Flow s C R K) {k : Nat} {id : UInt16} (hk : (k, id) ∈ s.device.held) :
    Flow { s with
      txRing := s.txRing.complete ⟨id.toUInt32, 0⟩
      device := { s.device with held := s.device.held.filter (·.1 ≠ k) } } C R (K ++ [k]) := by
  have hK : ∀ {j}, j ∉ K ++ [k] → j ∉ K ∧ j ≠ k := fun hj =>
    ⟨fun hmem => hj (List.mem_append_left _ hmem), fun heq => hj (by simp [heq])⟩
  refine ⟨h.calls_eq, h.fits, h.availIdx_eq, h.txIdx_eq, h.descIdx_eq, h.taken_le, fun x hx => ?_,
    fun j hj hjK => ?_, fun j hj => ?_, fun j hj => List.mem_append_left _ (h.window j hj),
    fun j f hj hjK => h.buffer j f hj (hK hjK).1, fun j f hj hjK => h.desc j f hj (hK hjK).1,
    fun j hjK => h.avail j (hK hjK).1⟩
  · obtain ⟨hx, hne⟩ := List.mem_filter.mp hx
    obtain ⟨hlt, hxK, hid⟩ := h.of_held x hx
    refine ⟨hlt, fun hmem => ?_, hid⟩
    rcases List.mem_append.mp hmem with hmem | hmem
    · exact hxK hmem
    · exact of_decide_eq_true hne (List.mem_singleton.mp hmem)
  · obtain ⟨x, hx, rfl⟩ := List.mem_map.mp (h.held j hj (hK hjK).1)
    exact List.mem_map.mpr ⟨x, List.mem_filter.mpr ⟨hx, decide_eq_true (hK hjK).2⟩, rfl⟩
  · rcases List.mem_append.mp hj with hj | hj
    · exact h.completed_lt j hj
    · rw [List.mem_singleton.mp hj]
      exact (h.of_held _ hk).1

/-- The number of the next call. -/
theorem Flow.length_of_idle (h : Flow s C R K) (hidle : s.phase = .idle) :
    R.length + s.phase.published = C.length ∧ slot s.txIdx = C.length % ringSize := by
  have hC : C = R := by
    rw [h.calls_eq, hidle]
    exact List.append_nil R
  rw [hidle, h.txIdx_eq, slot_ofNat, hC]
  exact ⟨rfl, rfl⟩

/-- A call touches nothing outstanding if the frame of 256 calls before is completed. -/
theorem Flow.disjoint_of_completed (h : Flow s C R K) (hidle : s.phase = .idle) {frame : Str}
    (hfits : frame.length ≤ bufferSize) (hdone : ∀ k, k + ringSize = C.length → k ∈ K)
    {x : Nat × UInt16} (hx : x ∈ s.outstanding) {i : Nat} (hi : i < frame.length) :
    ¬ (bufferSize * x.2.toNat ≤ bufferSize * slot s.txIdx + i ∧
      bufferSize * slot s.txIdx + i < bufferSize * (x.2.toNat + 1)) := by
  obtain ⟨hlen, hslot⟩ := h.length_of_idle hidle
  obtain ⟨hlt, hK, hid⟩ := h.mem_outstanding.mp hx
  rw [hlen] at hlt
  have hne := mod_ne_of_window (h.window_succ hdone) hK hlt C.length.lt_succ_self
  rw [hid, toNat_ofNat_mod, hslot]
  unfold bufferSize at *
  omega

/-- A call with a byte to copy touches the buffer of the frame of 256 calls before. -/
theorem Flow.completed_of_disjoint (h : Flow s C R K) (hidle : s.phase = .idle)
    (hdisj : ∀ x ∈ s.outstanding, ¬ (bufferSize * x.2.toNat ≤ bufferSize * slot s.txIdx ∧
      bufferSize * slot s.txIdx < bufferSize * (x.2.toNat + 1)))
    {k : Nat} (hk : k + ringSize = C.length) : k ∈ K := by
  obtain ⟨hlen, hslot⟩ := h.length_of_idle hidle
  -- otherwise that frame is outstanding, in the slot that the call uses
  by_contra hK
  have hlt : k < R.length + s.phase.published := by
    rw [hlen, ← hk]
    exact Nat.lt_add_of_pos_right (by decide)
  have hmem := h.mem_outstanding.mpr
    ⟨hlt, hK, (rfl : (k, UInt16.ofNat (k % ringSize)).2 = UInt16.ofNat (k % ringSize))⟩
  have hmod : C.length % ringSize = k % ringSize := by
    rw [← hk, Nat.add_mod_right]
  refine hdisj _ hmem ?_
  rw [hslot, hmod, toNat_ofNat_mod]
  unfold bufferSize
  omega

/-- The writes after the copy touch nothing outstanding either. -/
theorem Flow.untouched_run (h : Flow s C R K) : Untouched s .run := by
  obtain ⟨txRing, txBuffer, txIdx, phase, device⟩ := s
  cases phase with
  | describe descIdx frame =>
    intro x hx heq
    obtain ⟨hlt, hK, hid⟩ := h.mem_outstanding.mp hx
    have hlen := h.length_lt (List.cons_ne_nil frame [])
    have hmod : x.1 % ringSize = R.length % ringSize := by
      rw [← toNat_ofNat_mod x.1, ← hid, heq, show descIdx = _ from h.descIdx_eq, toNat_ofNat_mod]
    exact mod_ne_of_window h.window hK hlt hlen hmod
  | enqueue descIdx frame =>
    intro x hx heq
    obtain ⟨hlt, hK, -⟩ := h.mem_outstanding.mp hx
    have hlen := h.length_lt (List.cons_ne_nil frame [])
    refine mod_ne_of_window h.window hK hlt hlen (heq.trans ?_)
    rw [h.availIdx_eq, slot_ofNat]
  | _ => trivial

end Flow

/-! ### Runs -/

/-- The invariant of the runs that meet `CanSend`. -/
structure FlowInv (q : Logged) : Prop where
  flow : Flow q.1 (calls q.2) (returned q.2) (completed q.2)
  read : ∀ x ∈ reads q.2, (calls q.2)[x.1]? = some x.2

theorem flowInv_txStart : FlowInv (txStart, []) where
  flow := flow_txStart
  read := nofun

/-- One event more in the log. -/
theorem flowInv_snoc {log : List (TxAction × Option TxEvent)} {x : TxAction × Option TxEvent}
    {C R : List Str} {K : List Nat} (hC : calls log ++ calls [x] = C)
    (hR : returned log ++ returned [x] = R) (hK : completed log ++ completed [x] = K)
    (hflow : Flow s C R K) (hread : ∀ y ∈ reads log ++ reads [x], C[y.1]? = some y.2) :
    FlowInv (s, log ++ [x]) := by
  subst hC hR hK
  constructor
  · rw [calls, returned, completed, List.filterMap_append, List.filterMap_append,
      List.filterMap_append]
    exact hflow
  · rw [calls, reads, List.filterMap_append, List.filterMap_append]
    exact hread

/-- An event that says nothing of the frames. -/
theorem FlowInv.quiet {log : List (TxAction × Option TxEvent)} {s' : TxState}
    (h : FlowInv (s, log)) (hflow : Flow s' (calls log) (returned log) (completed log))
    (a : TxAction) : FlowInv (s', log ++ [(a, none)]) :=
  flowInv_snoc (List.append_nil _) (List.append_nil _) (List.append_nil _) hflow fun y hy =>
    h.read y (List.append_nil (reads log) ▸ hy)

theorem FlowInv.output {log : List (TxAction × Option TxEvent)} {s' : TxState}
    (h : FlowInv (s, log)) {frame : Str}
    (hflow : Flow s' (calls log ++ [frame]) (returned log) (completed log)) (a : TxAction) :
    FlowInv (s', log ++ [(a, some (.called frame))]) := by
  refine flowInv_snoc rfl (List.append_nil _) (List.append_nil _) hflow fun y hy => ?_
  have hy' := h.read y (List.append_nil (reads log) ▸ hy)
  obtain ⟨hlt, -⟩ := List.getElem?_eq_some_iff.mp hy'
  rw [List.getElem?_append_left hlt]
  exact hy'

theorem FlowInv.run {log : List (TxAction × Option TxEvent)} (h : FlowInv (s, log))
    {r : TxState × Option TxEvent} (hs : s.run = some r) :
    FlowInv (r.1, log ++ [(.run, r.2)]) := by
  obtain ⟨txRing, txBuffer, txIdx, phase, device⟩ := s
  have hflow := h.flow
  cases phase with
  | idle => cases hs
  | describe descIdx frame =>
    obtain rfl := Option.some.inj hs
    exact h.quiet hflow.describe .run
  | enqueue descIdx frame =>
    obtain rfl := Option.some.inj hs
    exact h.quiet hflow.enqueue .run
  | publish frame =>
    obtain rfl := Option.some.inj hs
    exact h.quiet hflow.publish .run
  | finish frame =>
    obtain rfl := Option.some.inj hs
    exact flowInv_snoc (List.append_nil _) rfl (List.append_nil _) hflow.finish fun y hy =>
      h.read y (List.append_nil (reads log) ▸ hy)

theorem mem_of_lookup_eq_some {held : List (Nat × UInt16)} {k : Nat} {id : UInt16}
    (h : held.lookup k = some id) : (k, id) ∈ held := by
  obtain ⟨l₁, l₂, rfl, -⟩ := List.lookup_eq_some_iff.mp h
  exact List.mem_append_right _ List.mem_cons_self

theorem FlowInv.step {a : TxAction} (h : FlowInv q) (hcan : CanSend q a)
    (hs : withLog TxState.step q a = some q') : FlowInv q' := by
  obtain ⟨s, log⟩ := q
  obtain ⟨s', log'⟩ := q'
  obtain ⟨ev, hstep, hlog⟩ := withLog_eq_some.mp hs
  dsimp only at hstep hlog
  subst hlog
  cases a with
  | lowLevelOutput frame | netifOutput frame =>
    obtain ⟨hidle, hr⟩ := output_eq_some hcan.1 hstep
    obtain ⟨rfl, rfl⟩ := Prod.mk.inj hr
    exact h.output (h.flow.output hcan.1 hcan.2 hidle) _
  | run => exact h.run hstep
  | take =>
    unfold TxState.step at hstep
    dsimp only at hstep
    split_ifs at hstep with hne
    obtain ⟨rfl, rfl⟩ := Prod.mk.inj (Option.some.inj hstep)
    exact h.quiet (h.flow.take hne) _
  | read k =>
    obtain ⟨id, hid, hr⟩ := Option.map_eq_some_iff.mp hstep
    obtain ⟨rfl, rfl⟩ := Prod.mk.inj hr
    refine flowInv_snoc (List.append_nil _) (List.append_nil _) (List.append_nil _) h.flow
      fun y hy => ?_
    rcases List.mem_append.mp hy with hy | hy
    · exact h.read y hy
    · rw [show y = (k, s.readBuffer id) from List.mem_singleton.mp hy]
      exact h.flow.readBuffer_eq (mem_of_lookup_eq_some hid)
  | complete k =>
    obtain ⟨id, hid, hr⟩ := Option.map_eq_some_iff.mp hstep
    obtain ⟨rfl, rfl⟩ := Prod.mk.inj hr
    exact flowInv_snoc (List.append_nil _) (List.append_nil _) rfl
      (h.flow.complete (mem_of_lookup_eq_some hid)) fun y hy =>
        h.read y (List.append_nil (reads log) ▸ hy)

theorem FlowInv.untouched {a : TxAction} (h : FlowInv q) (hcan : CanSend q a)
    (hs : withLog TxState.step q a = some q') : Untouched q.1 a := by
  obtain ⟨ev, hstep, -⟩ := withLog_eq_some.mp hs
  cases a with
  | lowLevelOutput frame | netifOutput frame =>
    obtain ⟨hidle, -⟩ := output_eq_some hcan.1 hstep
    exact fun x hx i hi => h.flow.disjoint_of_completed hidle hcan.1 hcan.2 hx hi
  | run => exact h.flow.untouched_run
  | _ => trivial

/-- A call passes a frame of at least one byte that fits its buffer. -/
def FrameFits : TxAction → Prop
  | .lowLevelOutput frame | .netifOutput frame => frame ≠ [] ∧ frame.length ≤ bufferSize
  | _ => True

theorem FlowInv.canSend {a : TxAction} (h : FlowInv q) (hframe : FrameFits a)
    (huntouched : Untouched q.1 a) (hs : withLog TxState.step q a = some q') : CanSend q a := by
  obtain ⟨ev, hstep, -⟩ := withLog_eq_some.mp hs
  cases a with
  | lowLevelOutput frame | netifOutput frame =>
    obtain ⟨hidle, -⟩ := output_eq_some hframe.2 hstep
    refine ⟨hframe.2, fun k hk => h.flow.completed_of_disjoint hidle (fun x hx => ?_) hk⟩
    -- the first byte of the frame is the one that falls into a buffer still outstanding
    exact huntouched x hx 0 (List.length_pos_iff.mpr hframe.1)
  | _ => trivial

theorem flowInv_of_run {l : List TxAction}
    (hcan : EveryStep (withLog TxState.step) (fun _ => CanSend) (txStart, []) l)
    (hrun : runSteps (withLog TxState.step) (txStart, []) l = some q) : FlowInv q :=
  runSteps_invariant (P := fun _ => CanSend) (I := fun _ q => FlowInv q) flowInv_txStart
    (fun _ _ _ _ _ h hcan hs => h.step hcan hs) hcan hrun

theorem FlowInv.delivered (h : FlowInv q) : Delivered q where
  read := h.read
  returned := h.flow.calls_eq
  none_lost := by
    have := h.flow.taken_le
    rw [h.flow.distance_eq]
    omega

/-- **A frame handed to the device is not touched** until the device is done with it, and the device
reads the frames of the calls in order, in the runs in which each frame fits its buffer and each
call comes after the completion of the frame of 256 calls before; and, with frames that fit and are
not empty, in no other runs. -/
theorem untouched_iff {l : List TxAction} {q : Logged}
    (hrun : runSteps (withLog TxState.step) (txStart, []) l = some q) :
    (EveryStep (withLog TxState.step) (fun _ => CanSend) (txStart, []) l →
      EveryStep (withLog TxState.step) (fun _ q => Untouched q.1) (txStart, []) l ∧ Delivered q) ∧
    ((∀ a ∈ l, FrameFits a) →
      EveryStep (withLog TxState.step) (fun _ q => Untouched q.1) (txStart, []) l →
      EveryStep (withLog TxState.step) (fun _ => CanSend) (txStart, []) l) := by
  constructor
  · refine fun hcan => ⟨?_, (flowInv_of_run hcan hrun).delivered⟩
    rintro pre a post t rfl ht
    obtain ⟨t', ht'⟩ := exists_step_of_runSteps hrun ht
    exact (flowInv_of_run hcan.of_append ht).untouched (hcan pre a post t rfl ht) ht'
  · intro hframes huntouched
    -- the invariant holds as far as the run goes well, so the induction is on the run
    induction l using List.reverseRecOn generalizing q with
    | nil => exact everyStep_nil _
    | append_singleton l a ih =>
      obtain ⟨t, ht, hstep⟩ := runSteps_snoc_eq_some.mp hrun
      have hcan := ih ht (fun b hb => hframes b (List.mem_append_left _ hb)) huntouched.of_append
      have hframe := hframes a (List.mem_append_right _ (List.mem_singleton_self a))
      refine everyStep_snoc hcan fun t' ht' => ?_
      obtain rfl := Option.some.inj (ht.symm.trans ht')
      exact (flowInv_of_run hcan ht).canSend hframe (everyStep_last huntouched ht) hstep

/-- Two frames, which the device reads and completes in the other order. -/
def txRun : List TxAction :=
  .lowLevelOutput [1, 2] :: List.replicate 4 .run ++ .netifOutput [3] :: List.replicate 4 .run ++
    [.take, .take, .read 1, .complete 1, .read 0, .complete 0]

theorem untouched_iff_txRun : ∃ q, runSteps (withLog TxState.step) (txStart, []) txRun = some q ∧
    reads q.2 = [(1, [3]), (0, [1, 2])] ∧
    EveryStep (withLog TxState.step) (fun _ q => Untouched q.1) (txStart, []) txRun ∧
    Delivered q := by
  have hany : (runSteps (withLog TxState.step) (txStart, []) txRun).any
      fun q => reads q.2 = [(1, [3]), (0, [1, 2])] := by
    decide +kernel
  have hcan : EveryStep (withLog TxState.step) (fun _ => CanSend) (txStart, []) txRun := by
    decide +kernel
  obtain ⟨q, hrun, hreads⟩ := (Option.any_eq_true _ _).mp hany
  exact ⟨q, hrun, of_decide_eq_true hreads, (untouched_iff hrun).1 hcan⟩

/-! ### A burst -/

/-- A call of `low_level_output`, to its return. -/
def callRun (frame : Str) : List TxAction := .lowLevelOutput frame :: List.replicate 4 .run

/-- The state that a call leaves. -/
def sent (s : TxState) (frame : Str) : TxState where
  txRing := ((s.txRing.setDesc (slot s.txIdx)
    ⟨bufferSize * slot s.txIdx, UInt32.ofNat frame.length, 0⟩).putAvail
      (UInt16.ofNat (slot s.txIdx))).bumpAvail
  txBuffer := s.txBuffer.store (bufferSize * slot s.txIdx) frame
  txIdx := s.txIdx + 1
  phase := .idle
  device := s.device

/-- What a call adds to the log. -/
def callLog (frame : Str) : List (TxAction × Option TxEvent) :=
  [(.lowLevelOutput frame, some (.called frame)), (.run, none), (.run, none), (.run, none),
    (.run, some (.ok frame))]

/-- A call to its return, without a step of the device. -/
theorem runSteps_call {a : TxAction} {frame : Str} (ha : q.1.step a = q.1.output frame)
    (hidle : q.1.phase = .idle) (hfits : frame.length ≤ bufferSize) :
    runSteps (withLog TxState.step) q (a :: List.replicate 4 .run) =
      some (q.1.sent frame, q.2 ++ [(a, some (.called frame)), (.run, none), (.run, none),
        (.run, none), (.run, some (.ok frame))]) := by
  have hslot : (UInt16.ofNat (slot q.1.txIdx)).toNat = slot q.1.txIdx := toNat_ofNat_mod _
  have hstep := ha.trans (output_of_idle hidle hfits)
  rw [runSteps_cons, withLog_of_step hstep, Option.bind_some]
  simp only [List.replicate, runSteps_cons, runSteps_nil, withLog, TxState.step, TxState.run,
    Option.map_some, Option.bind_some, hslot, sent, List.append_assoc, List.cons_append,
    List.nil_append]

theorem runSteps_callRun {frame : Str} (hidle : q.1.phase = .idle)
    (hfits : frame.length ≤ bufferSize) :
    runSteps (withLog TxState.step) q (callRun frame) =
      some (q.1.sent frame, q.2 ++ callLog frame) := runSteps_call rfl hidle hfits

/-- Calls without a step of the device. -/
theorem exists_runSteps_calls {frame : Str} (hfits : frame.length ≤ bufferSize) (n : Nat) : ∃ q,
    runSteps (withLog TxState.step) (txStart, []) (List.replicate n (callRun frame)).flatten =
      some q ∧ q.1.phase = .idle ∧ q.1.txIdx = UInt16.ofNat n ∧
      q.1.txRing.availIdx = UInt16.ofNat n ∧ q.1.device = ⟨0, []⟩ ∧
      calls q.2 = List.replicate n frame := by
  induction n with
  | zero => exact ⟨_, rfl, rfl, rfl, rfl, rfl, rfl⟩
  | succ n ih =>
    obtain ⟨q, hq, hidle, htx, havail, hdevice, hcalls⟩ := ih
    refine ⟨(q.1.sent frame, q.2 ++ callLog frame), ?_, rfl, ?_, ?_, hdevice, ?_⟩
    · rw [List.replicate_succ', List.flatten_append, List.flatten_singleton, runSteps_append, hq,
        Option.bind_some, runSteps_callRun hidle hfits]
    · rw [UInt16.ofNat_add n 1, ← htx]
      rfl
    · rw [UInt16.ofNat_add n 1, ← havail]
      rfl
    · rw [calls, List.filterMap_append, List.replicate_succ', ← hcalls]
      rfl

/-- 257 frames, and the device reads the first. -/
def burst : List TxAction :=
  (List.replicate 256 (callRun [0])).flatten ++ (callRun [1] ++ [.take, .read 0])

/-- What the device reads from the slot 0 after a call that uses it. -/
theorem runSteps_take_read {frame : Str} (hidle : s.phase = .idle) (hdevice : s.device = ⟨0, []⟩)
    (htx : slot s.txIdx = 0) (havail : slot s.txRing.availIdx = 0)
    (hne : s.txRing.availIdx + 1 ≠ 0) (hfits : frame.length ≤ bufferSize)
    (log : List (TxAction × Option TxEvent)) : ∃ q,
      runSteps (withLog TxState.step) (s, log) (callRun frame ++ [.take, .read 0]) = some q ∧
        calls q.2 = calls log ++ [frame] ∧ (0, frame) ∈ reads q.2 := by
  have hnext : (s.sent frame).next = 0 := by
    rw [next, sent, hdevice]
    rfl
  have hid : (s.sent frame).txRing.availRing (slot 0) = 0 := by
    dsimp only [sent, Vring.bumpAvail, Vring.putAvail, Vring.setDesc]
    rw [havail, htx]
    exact Function.update_self _ _ _
  have htake : (s.sent frame).step .take =
      some ({ s.sent frame with device := ⟨1, [(0, 0)]⟩ }, none) := by
    have hidx : (s.sent frame).txRing.availIdx = s.txRing.availIdx + 1 := rfl
    rw [TxState.step, hnext, hidx, if_pos hne.symm, hid]
    simp only [sent, hdevice, Nat.zero_add, List.nil_append]
  have hread : readBuffer { s.sent frame with device := ⟨1, [(0, 0)]⟩ } 0 = frame := by
    have hdesc : (s.sent frame).txRing.desc (0 : UInt16).toNat =
        ⟨bufferSize * slot s.txIdx, UInt32.ofNat frame.length, 0⟩ := by
      dsimp only [sent, Vring.bumpAvail, Vring.putAvail, Vring.setDesc]
      rw [htx]
      exact Function.update_self _ _ _
    have hroom : bufferSize * slot s.txIdx + frame.length ≤ ringSize * bufferSize := by
      rw [htx, Nat.mul_zero, Nat.zero_add]
      exact Nat.le_trans hfits (by decide)
    exact readBuffer_of_holds hfits hdesc (Mem.holds_store _ hroom)
  have hstep : TxState.step { s.sent frame with device := ⟨1, [(0, 0)]⟩ } (.read 0) =
      some ({ s.sent frame with device := ⟨1, [(0, 0)]⟩ }, some (.read 0 frame)) :=
    congrArg (fun f => some (_, some (TxEvent.read 0 f))) hread
  refine ⟨({ s.sent frame with device := ⟨1, [(0, 0)]⟩ },
    log ++ callLog frame ++ [(.take, none)] ++ [(.read 0, some (.read 0 frame))]), ?_, ?_, ?_⟩
  · rw [runSteps_append, runSteps_callRun hidle hfits, Option.bind_some, runSteps_cons,
      withLog_of_step htake, Option.bind_some, runSteps_cons, withLog_of_step hstep]
    rfl
  · simp [calls, callLog]
  · simp [reads]

/-- The device reads the last frame in place of the first. -/
theorem not_delivered_burst : ∃ q, runSteps (withLog TxState.step) (txStart, []) burst = some q ∧
    ¬ (EveryStep (withLog TxState.step) (fun _ q => Untouched q.1) (txStart, []) burst ∧
      Delivered q) := by
  -- the call with the number 256 uses the slot 0 again, before the device has taken an entry
  obtain ⟨q, hq, hidle, htx, havail, hdevice, hcalls⟩ :=
    exists_runSteps_calls (show ([0] : Str).length ≤ bufferSize by decide) 256
  obtain ⟨q', hq', hcalls', hread⟩ := runSteps_take_read hidle hdevice (htx ▸ rfl) (havail ▸ rfl)
    (havail ▸ by decide) (show ([1] : Str).length ≤ bufferSize by decide) q.2
  refine ⟨q', ?_, ?_⟩
  · rw [burst, runSteps_append, hq]
    exact hq'
  · rintro ⟨-, hdelivered⟩
    have hfirst := hdelivered.read _ hread
    have hlt : 0 < (List.replicate 256 ([0] : Str)).length := by
      rw [List.length_replicate]
      decide
    rw [hcalls', hcalls, List.getElem?_append_left hlt, List.getElem?_replicate,
      if_pos (by decide), Option.some_inj] at hfirst
    exact absurd hfirst (by decide)

end TxState

end BankSel4.Network
