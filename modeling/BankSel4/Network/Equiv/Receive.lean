import BankSel4.Network.Receive

/-!
# Custody of the receive buffers

Each descriptor of the receive queue is at every moment in one place: offered in the avail ring,
held by the device, completed in the used ring, or in the hand of the handler between the two rings.
`Custody` is the invariant, with the lists of the rings taken between 16-bit indices, and
`Custody.step` says that every step of the handler or the device keeps it; `conserved` is what it
says of the states between the iterations of the handler's loop.
-/

namespace BankSel4.Network

namespace RxState

variable {s : RxState} {q q' : Logged}

/-- The ids offered to the device and not yet taken. -/
def offered (s : RxState) : List Nat := (s.driver.rxRing.avail s.device.next).map UInt16.toNat

/-- The ids that the device holds. -/
def held (s : RxState) : List Nat := s.device.held.map UInt16.toNat

/-- The index of the next element to process: from the processing to the end of the iteration
`last_rx_idx` is one behind. -/
def nextUsed (s : RxState) : UInt16 :=
  match s.phase with
  | .signal .. | .refill .. | .offer .. | .count .. => s.driver.lastRxIdx + 1
  | _ => s.driver.lastRxIdx

/-- The elements completed and not yet processed. -/
def unprocessed (s : RxState) : List VringUsedElem := s.driver.rxRing.used s.nextUsed

/-- The ids of used elements. -/
def ids (es : List VringUsedElem) : List Nat := es.map fun e => e.id.toNat

/-- The slots of the entries offered and not yet taken. -/
def untakenSlots (s : RxState) : List Nat :=
  (List.range (distance s.device.next s.driver.rxRing.availIdx)).map fun k =>
    slot (s.device.next + UInt16.ofNat k)

/-- Before or after an iteration of the handler's loop, or outside the handler. -/
def OutsideIteration (s : RxState) : Prop :=
  match s.phase with
  | .element .. | .received .. | .signal .. | .refill .. | .offer .. | .count .. => False
  | _ => True

/-- No buffer is lost or duplicated. -/
structure Conserved (q : Logged) : Prop where
  /-- Each id is in exactly one of the three places. -/
  perm : q.1.OutsideIteration →
    (q.1.offered ++ q.1.held ++ ids q.1.unprocessed).Perm (List.range ringSize)
  availIdx_eq : q.1.OutsideIteration →
    q.1.driver.rxRing.availIdx = q.1.driver.lastRxIdx + UInt16.ofNat ringSize
  /-- The slot that the handler writes is not one of an entry that the device has yet to take. -/
  slot_free : ∀ isr n id, q.1.phase = .refill isr n id →
    slot q.1.driver.rxRing.availIdx ∉ q.1.untakenSlots
  length_le : q.1.unprocessed.length ≤ ringSize
  /-- The completions are processed in order, each once. -/
  in_order : completions q.2 = processed q.2 ++ q.1.unprocessed

/-! ### The log -/

theorem completions_append (l₁ l₂ : List (RxAction × Option RxEvent)) :
    completions (l₁ ++ l₂) = completions l₁ ++ completions l₂ :=
  List.filterMap_append

theorem processed_append (l₁ l₂ : List (RxAction × Option RxEvent)) :
    processed (l₁ ++ l₂) = processed l₁ ++ processed l₂ :=
  List.filterMap_append

/-- An event that is neither a completion nor a processing. -/
theorem in_order_snoc {log : List (RxAction × Option RxEvent)} {es : List VringUsedElem}
    (h : completions log = processed log ++ es) {x : RxAction × Option RxEvent}
    (hc : completions [x] = []) (hp : processed [x] = []) :
    completions (log ++ [x]) = processed (log ++ [x]) ++ es := by
  rw [completions_append, processed_append, hc, hp, List.append_nil, List.append_nil, h]

/-! ### The invariant -/

/-- The id in the hand of the handler: the element is processed, and the buffer not given back. -/
def hand (s : RxState) : List Nat :=
  match s.phase with
  | .signal _ _ id | .refill _ _ id | .offer _ _ id => [id.toNat]
  | _ => []

/-- The index of the next element whose buffer is given back. -/
def nextGiven (s : RxState) : UInt16 :=
  match s.phase with
  | .count .. => s.driver.lastRxIdx + 1
  | _ => s.driver.lastRxIdx

/-- What the handler knows where it stands. -/
def PhaseInv (s : RxState) : Prop :=
  match s.phase with
  | .element .. => s.unprocessed ≠ []
  | .received _ _ e => s.unprocessed.head? = some e
  | .offer _ _ id => s.driver.rxRing.availRing (slot s.driver.rxRing.availIdx) = id.toUInt16
  | _ => True

structure Custody (q : Logged) : Prop where
  perm : (q.1.offered ++ q.1.held ++ q.1.hand ++ ids q.1.unprocessed).Perm (List.range ringSize)
  availIdx_eq : q.1.driver.rxRing.availIdx = q.1.nextGiven + UInt16.ofNat ringSize
  in_order : completions q.2 = processed q.2 ++ q.1.unprocessed
  phase : q.1.PhaseInv

theorem Custody.length_eq (h : Custody q) :
    distance q.1.device.next q.1.driver.rxRing.availIdx + q.1.device.held.length +
      q.1.hand.length + q.1.unprocessed.length = ringSize := by
  have := h.perm.length_eq
  simpa [offered, held, ids, Vring.avail, Nat.add_assoc] using this

/-- The device has room for a completion. -/
theorem Custody.distance_used_lt (h : Custody q) (hheld : 0 < q.1.device.held.length) :
    distance q.1.nextUsed q.1.driver.rxRing.usedIdx < ringSize := by
  have hlen := h.length_eq
  have : q.1.unprocessed.length = distance q.1.nextUsed q.1.driver.rxRing.usedIdx :=
    length_between
  omega

/-- The handler has room to give a buffer back. -/
theorem Custody.distance_avail_lt (h : Custody q) (hhand : 0 < q.1.hand.length) :
    distance q.1.device.next q.1.driver.rxRing.availIdx < ringSize := by
  have hlen := h.length_eq
  omega

/-! ### Steps of the handler -/

theorem perm_give (i : Nat) (as bs cs : List Nat) :
    (as ++ [i] ++ bs ++ [] ++ cs).Perm (as ++ bs ++ [i] ++ cs) := by
  refine List.Perm.append_right cs ?_
  rw [List.append_nil, List.append_assoc, List.append_assoc]
  exact List.perm_append_comm.append_left as

section Run

variable {driver : Driver} {device : Device} {log : List (RxAction × Option RxEvent)} {isr : UInt32}
  {n : UInt16} {result : Delivery}

/-- The element moves from the used ring into the hand of the handler, and into the log. -/
theorem Custody.run_received {e : VringUsedElem}
    (h : Custody (⟨driver, .received isr n e, device⟩, log)) :
    Custody (⟨driver, if result = .noPbuf then .refill isr n e.id else .signal isr n e.id, device⟩,
      log ++ [(.run result, some (.processed e result))]) := by
  have hused : driver.rxRing.used driver.lastRxIdx =
      e :: driver.rxRing.used (driver.lastRxIdx + 1) := Vring.used_of_head? h.phase
  have hperm : ((driver.rxRing.avail device.next).map UInt16.toNat ++
      device.held.map UInt16.toNat ++ [] ++ ids (driver.rxRing.used driver.lastRxIdx)).Perm
      (List.range ringSize) := h.perm
  have horder : completions log = processed log ++ driver.rxRing.used driver.lastRxIdx := h.in_order
  rw [hused] at hperm horder
  have hhand : ((driver.rxRing.avail device.next).map UInt16.toNat ++
      device.held.map UInt16.toNat ++ [e.id.toNat] ++
      ids (driver.rxRing.used (driver.lastRxIdx + 1))).Perm (List.range ringSize) := by
    simpa [ids] using hperm
  have hlog : completions (log ++ [(.run result, some (.processed e result))]) =
      processed (log ++ [(.run result, some (.processed e result))]) ++
        driver.rxRing.used (driver.lastRxIdx + 1) := by
    rw [completions_append, processed_append, horder]
    simp [completions, processed]
  -- a dropped packet is not signalled
  split_ifs
  · exact ⟨hhand, h.availIdx_eq, hlog, trivial⟩
  · exact ⟨hhand, h.availIdx_eq, hlog, trivial⟩

/-- The slot that the handler writes is behind the entries offered. -/
theorem Custody.run_refill {id : UInt32}
    (h : Custody (⟨driver, .refill isr n id, device⟩, log)) :
    Custody (⟨⟨driver.regs, driver.rxRing.putAvail id.toUInt16, driver.lastRxIdx,
      driver.dataAvailable⟩, .offer isr n id, device⟩, log ++ [(.run result, none)]) := by
  have havail := Vring.avail_putAvail (h.distance_avail_lt Nat.one_pos) id.toUInt16
  refine ⟨?_, h.availIdx_eq, in_order_snoc h.in_order rfl rfl, Function.update_self _ _ _⟩
  have hperm := h.perm
  unfold offered at hperm ⊢
  rwa [← havail] at hperm

/-- The id moves from the hand of the handler into the avail ring. -/
theorem Custody.run_offer {id : UInt32}
    (h : Custody (⟨driver, .offer isr n id, device⟩, log)) :
    Custody (⟨⟨driver.regs, driver.rxRing.bumpAvail, driver.lastRxIdx,
      driver.dataAvailable⟩, .count isr n, device⟩, log ++ [(.run result, none)]) := by
  have hroom := h.distance_avail_lt Nat.one_pos
  have havail : driver.rxRing.bumpAvail.avail device.next =
      driver.rxRing.avail device.next ++ [id.toUInt16] := by
    rw [Vring.avail_bumpAvail (Nat.lt_trans hroom (by decide))]
    exact congrArg (_ ++ [·]) h.phase
  -- the id is one of the 256 in custody, so the 16 bits of the entry keep it
  have hid : id.toUInt16.toNat = id.toNat := by
    have hmem : id.toNat ∈ List.range ringSize := h.perm.subset (by simp [hand])
    rw [List.mem_range] at hmem
    exact Nat.mod_eq_of_lt (Nat.lt_trans hmem (by decide))
  refine ⟨?_, ?_, in_order_snoc h.in_order rfl rfl, trivial⟩
  · refine List.Perm.trans ?_ h.perm
    unfold offered
    dsimp only
    rw [havail, List.map_append, List.map_singleton, hid]
    exact perm_give id.toNat _ _ _
  · calc driver.rxRing.availIdx + 1
        = driver.lastRxIdx + UInt16.ofNat ringSize + 1 := congrArg (· + 1) h.availIdx_eq
      _ = driver.lastRxIdx + 1 + UInt16.ofNat ringSize := by
        rw [UInt16.add_assoc, UInt16.add_assoc, UInt16.add_comm 1]

theorem Custody.run {q : Logged} (h : Custody q) (result : Delivery) :
    Custody ((q.1.run result).1, q.2 ++ [(.run result, (q.1.run result).2)]) := by
  obtain ⟨⟨driver, phase, device⟩, log⟩ := q
  obtain ⟨hperm, hidx, horder, hphase⟩ := id h
  cases phase with
  | idle =>
    unfold RxState.run
    dsimp only
    split_ifs
    all_goals exact ⟨hperm, hidx, in_order_snoc horder rfl rfl, trivial⟩
  | test isr n =>
    unfold RxState.run
    dsimp only
    split_ifs with hne
    · refine ⟨hperm, hidx, in_order_snoc horder rfl rfl, fun hnil => ?_⟩
      exact hne (between_eq_nil_iff.mp hnil)
    · exact ⟨hperm, hidx, in_order_snoc horder rfl rfl, trivial⟩
  | element isr n =>
    refine ⟨hperm, hidx, in_order_snoc horder rfl rfl, ?_⟩
    have hne : driver.lastRxIdx ≠ driver.rxRing.usedIdx := fun heq =>
      hphase (between_eq_nil_iff.mpr heq)
    exact congrArg List.head? (Vring.used_cons hne)
  | received isr n e => exact h.run_received
  | signal isr n id => exact ⟨hperm, hidx, in_order_snoc horder rfl rfl, trivial⟩
  | refill isr n id => exact h.run_refill
  | offer isr n id => exact h.run_offer
  | count isr n =>
    exact ⟨hperm, hidx, in_order_snoc horder rfl rfl, trivial⟩
  | notify isr n =>
    refine ⟨hperm, hidx, in_order_snoc horder ?_ ?_, trivial⟩
    all_goals
      unfold RxState.run
      dsimp only
      split_ifs <;> rfl
  | ack isr => exact ⟨hperm, hidx, in_order_snoc horder rfl rfl, trivial⟩
  | irqAcknowledge => exact ⟨hperm, hidx, in_order_snoc horder rfl rfl, trivial⟩

end Run

/-! ### Steps of the device -/

theorem perm_take (i : Nat) (as bs cs ds : List Nat) :
    (as ++ (bs ++ [i]) ++ cs ++ ds).Perm (i :: as ++ bs ++ cs ++ ds) := by
  refine (List.Perm.append_right cs ?_).append_right ds
  rw [← List.append_assoc]
  exact List.perm_append_singleton i (as ++ bs)

theorem perm_complete (i : Nat) {as bs bs' cs ds : List Nat} (hbs : bs.Perm (i :: bs')) :
    (as ++ bs' ++ cs ++ (ds ++ [i])).Perm (as ++ bs ++ cs ++ ds) := by
  have hmove : (bs' ++ (cs ++ (ds ++ [i]))).Perm (i :: bs' ++ (cs ++ ds)) := by
    rw [← List.append_assoc cs, ← List.append_assoc]
    exact List.perm_append_singleton i _
  simp only [List.append_assoc]
  exact (hmove.trans (hbs.symm.append_right _)).append_left as

/-- The id moves from the avail ring into the hands of the device. -/
theorem Custody.take (h : Custody q) (hne : q.1.device.next ≠ q.1.driver.rxRing.availIdx)
    {id : UInt16} (hid : q.1.driver.rxRing.availRing (slot q.1.device.next) = id) :
    Custody (q.1.take, q.2 ++ [(.take, some (.taken id))]) := by
  subst hid
  refine ⟨?_, h.availIdx_eq, in_order_snoc h.in_order rfl rfl, h.phase⟩
  -- the first id offered is the one that the device takes next
  have hoffered : q.1.offered =
      (q.1.driver.rxRing.availRing (slot q.1.device.next)).toNat :: q.1.take.offered :=
    congrArg (List.map UInt16.toNat) (Vring.avail_cons hne)
  have hheld : q.1.take.held =
      q.1.held ++ [(q.1.driver.rxRing.availRing (slot q.1.device.next)).toNat] :=
    List.map_append
  refine List.Perm.trans ?_ h.perm
  rw [hoffered]
  dsimp only
  rw [hheld]
  exact perm_take _ _ _ _ _

theorem unprocessed_complete (h : Custody q) {id : UInt16} (hid : id ∈ q.1.device.held)
    (len : UInt32) :
    (q.1.complete id len).unprocessed = q.1.unprocessed ++ [⟨id.toUInt32, len⟩] :=
  Vring.used_complete (h.distance_used_lt (List.length_pos_of_mem hid)) _

/-- The id moves from the hands of the device into the used ring. -/
theorem Custody.complete (h : Custody q) {id : UInt16} (hid : id ∈ q.1.device.held)
    (len : UInt32) :
    Custody (q.1.complete id len,
      q.2 ++ [(.complete id len, some (.completed ⟨id.toUInt32, len⟩))]) := by
  have hused := unprocessed_complete h hid len
  constructor
  · refine List.Perm.trans ?_ h.perm
    dsimp only
    rw [hused, ids, List.map_append]
    exact perm_complete _ ((List.perm_cons_erase hid).map UInt16.toNat)
  · exact h.availIdx_eq
  · dsimp only
    rw [completions_append, processed_append, h.in_order, hused]
    simp [completions, processed]
  · have hphase := h.phase
    obtain ⟨⟨driver, phase, device⟩, log⟩ := q
    cases phase with
    -- the element in hand stays the first one, since the completion comes behind it
    | element isr n =>
      change unprocessed _ ≠ []
      rw [hused]
      exact List.concat_ne_nil _ _
    | received isr n e =>
      change (unprocessed _).head? = some e
      rw [hused, List.head?_append, show (unprocessed _).head? = some e from hphase]
      rfl
    | _ => exact hphase

/-- A step of the handler or of the device keeps the buffers in custody. -/
theorem Custody.step {a : RxAction} (h : Custody q) (hs : withLog RxState.step q a = some q') :
    Custody q' := by
  obtain ⟨ev, hstep, hlog⟩ := withLog_eq_some.mp hs
  obtain ⟨s', log'⟩ := q'
  dsimp only at hstep hlog
  subst hlog
  cases a with
  | run result =>
    have hrun := h.run result
    rwa [show q.1.run result = (s', ev) from Option.some.inj hstep] at hrun
  | take =>
    obtain ⟨hne, hr⟩ := step_take_eq_some.mp hstep
    obtain ⟨rfl, rfl⟩ := Prod.mk.inj hr
    exact h.take hne rfl
  | complete id len =>
    obtain ⟨hid, hr⟩ := step_complete_eq_some.mp hstep
    obtain ⟨rfl, rfl⟩ := Prod.mk.inj hr
    exact h.complete hid len
  | raise bits =>
    obtain ⟨rfl, rfl⟩ := Prod.mk.inj (Option.some.inj hstep)
    exact ⟨h.perm, h.availIdx_eq, in_order_snoc h.in_order rfl rfl, h.phase⟩

/-! ### Runs -/

theorem availRing_foldl_fillSlot (vr : Vring) (n i : Nat) :
    ((List.range n).foldl fillSlot vr).availRing i =
      if i < n then UInt16.ofNat i else vr.availRing i := by
  induction n with
  | zero => rfl
  | succ n ih =>
    rw [List.range_succ, List.foldl_append, List.foldl_cons, List.foldl_nil,
      availRing_fillSlot]
    by_cases hi : i = n
    · rw [hi, Function.update_self, if_pos n.lt_succ_self]
    · rw [Function.update_of_ne hi, ih]
      exact if_congr (by omega) rfl rfl

theorem usedIdx_foldl_fillSlot (vr : Vring) (n : Nat) :
    ((List.range n).foldl fillSlot vr).usedIdx = vr.usedIdx := by
  induction n with
  | zero => rfl
  | succ n ih =>
    rw [List.range_succ, List.foldl_append]
    exact ih

theorem usedIdx_prefill (vr : Vring) : (prefill vr).usedIdx = vr.usedIdx := by
  rw [prefill]
  dsimp only
  rw [usedIdx_foldl_fillSlot]

theorem availRing_prefill (vr : Vring) {i : Nat} (hi : i < ringSize) :
    (prefill vr).availRing i = UInt16.ofNat i := by
  rw [prefill]
  dsimp only
  rw [availRing_foldl_fillSlot, if_pos hi]

/-- After `virtio_init_hardware` all buffers are offered. -/
theorem offered_rxStart : rxStart.offered = List.range ringSize := by
  have havail : (prefill Vring.zero).avail 0 =
      ringEntries ringSize (prefill Vring.zero).availRing 0 ringSize := rfl
  rw [offered, driver_rxStart, show rxStart.device.next = 0 from rfl, havail, ringEntries,
    List.map_map]
  conv_rhs => rw [← List.map_id (List.range ringSize)]
  -- the entry `k` is in the slot `k` and is `k` itself
  refine List.map_congr_left fun k hk => ?_
  have hlt : k < ringSize := List.mem_range.mp hk
  rw [Function.comp_apply, Nat.zero_add, Nat.mod_eq_of_lt hlt, availRing_prefill _ hlt]
  exact Nat.mod_eq_of_lt (Nat.lt_trans hlt (by decide))

theorem custody_rxStart : Custody (rxStart, []) := by
  have hnone : rxStart.unprocessed = [] := by
    rw [unprocessed, driver_rxStart, Vring.used, usedIdx_prefill]
    exact between_self 0
  constructor
  · dsimp only
    rw [offered_rxStart, hnone, show rxStart.held = [] from rfl, show rxStart.hand = [] from rfl,
      List.append_nil, List.append_nil]
    exact (List.append_nil (List.range ringSize)).symm ▸ List.Perm.refl _
  · rfl
  · dsimp only
    rw [hnone]
    rfl
  · trivial

theorem custody_of_run {l : List RxAction} {q : Logged}
    (hrun : runSteps (withLog RxState.step) (rxStart, []) l = some q) : Custody q :=
  runSteps_state_invariant custody_rxStart (fun _ _ _ h hs => h.step hs) hrun

/-- The entries not yet taken are in other slots than the next one. -/
theorem slot_not_mem_untakenSlots
    (h : distance s.device.next s.driver.rxRing.availIdx < ringSize) :
    slot s.driver.rxRing.availIdx ∉ s.untakenSlots := by
  unfold untakenSlots
  rw [List.mem_map]
  rintro ⟨k, hk, heq⟩
  -- two indices less than a ring apart are in different slots
  rw [slot_add_ofNat, slot_of_distance s.device.next s.driver.rxRing.availIdx] at heq
  exact slot_ne_next h (List.mem_range.mp hk) heq

theorem Custody.toConserved (h : Custody q) : Conserved q := by
  have hlen := h.length_eq
  obtain ⟨⟨driver, phase, device⟩, log⟩ := q
  refine ⟨fun hb => ?_, fun hb => ?_, fun isr n id hphase => ?_, by omega, h.in_order⟩
  · have hperm := h.perm
    cases phase <;> first | exact hb.elim | simpa [hand] using hperm
  · cases phase <;> first | exact hb.elim | exact h.availIdx_eq
  · refine slot_not_mem_untakenSlots (h.distance_avail_lt ?_)
    dsimp only at hphase ⊢
    subst hphase
    exact Nat.one_pos

/-- **Receive buffers are neither lost nor duplicated**: in every interleaving of the steps of
`hardware_irq_handle` and of the device, from what `virtio_init_hardware` leaves. -/
theorem conserved {l : List RxAction} {q : Logged}
    (hrun : runSteps (withLog RxState.step) (rxStart, []) l = some q) : Conserved q :=
  (custody_of_run hrun).toConserved

/-- Two packets, completed in the other order; the first is dropped, the second is completed while
the first is handled. -/
def rxRun : List RxAction :=
  [.take, .take, .complete 1 60] ++ List.replicate 5 (.run .noPbuf) ++ [.complete 0 42] ++
    List.replicate 13 (.run .accepted)

theorem conserved_rxRun : ∃ q, runSteps (withLog RxState.step) (rxStart, []) rxRun = some q ∧
    processed q.2 = [⟨1, 60⟩, ⟨0, 42⟩] ∧ Conserved q := by
  have hany : (runSteps (withLog RxState.step) (rxStart, []) rxRun).any
      fun q => processed q.2 = [⟨1, 60⟩, ⟨0, 42⟩] := by
    decide +kernel
  obtain ⟨q, hrun, hprocessed⟩ := (Option.any_eq_true _ _).mp hany
  exact ⟨q, hrun, of_decide_eq_true hprocessed, conserved hrun⟩

end RxState

end BankSel4.Network
