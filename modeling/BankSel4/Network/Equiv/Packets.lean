import BankSel4.Network.Equiv.Receive
import BankSel4.Network.Packets

/-!
# Packets reach lwIP as they were received

The buffers of the used ring are neither held by the device nor offered to it, so nothing writes to
them until the handler has copied them: `packetsIntact`.

The handler gives a packet to lwIP in one step and sets `data_available` in another, and
`net_wait_for_data` runs in another thread: `waits_for_packets` is what the flag then says, whatever
the order of the steps.
-/

namespace BankSel4.Network

/-- The handler stands between `netif.input` and `data_available = true`. -/
def RxState.signalling (s : RxState) : Bool :=
  match s.phase with
  | .signal .. => true
  | _ => false

namespace PacketState

variable {s : PacketState} {q q' : Logged}

/-! ### Buffers -/

/-- A write to another buffer. -/
theorem frameAt_store {rxBuffer : RxBuffer} {e : VringUsedElem} (hlen : e.len.toNat ≤ bufferSize)
    {id off : Nat} {data : Str} (hid : id < ringSize) (hne : e.id.toNat ≠ id)
    (hoff : off + data.length ≤ bufferSize) :
    frameAt (rxBuffer.store (bufferSize * id + off) data) e = frameAt rxBuffer e := by
  have hbounds : bufferSize * id + off + data.length ≤ ringSize * bufferSize ∧
      (bufferSize * e.id.toNat + e.len.toNat ≤ bufferSize * id + off ∨
        bufferSize * id + off + data.length ≤ bufferSize * e.id.toNat) := by
    unfold ringSize bufferSize at *
    omega
  refine List.map_congr_left fun k hk => ?_
  rw [List.mem_range] at hk
  rw [Mem.byte_store _ hbounds.1, overlay_of_not_mem (by omega)]

/-- The ids in custody are different ones. -/
theorem nodup_of_custody {r : RxState.Logged} (h : RxState.Custody r) :
    (r.1.offered ++ r.1.held ++ r.1.hand ++ RxState.ids r.1.unprocessed).Nodup :=
  h.perm.nodup_iff.mpr List.nodup_range

/-- The buffer of a used element is one of the 256, and neither offered nor held. -/
theorem free_of_unprocessed {r : RxState.Logged} (h : RxState.Custody r) {e : VringUsedElem}
    (he : e ∈ r.1.unprocessed) :
    e.id.toNat < ringSize ∧ e.id.toNat ∉ r.1.offered ∧ e.id.toNat ∉ r.1.held := by
  have hmem : e.id.toNat ∈ RxState.ids r.1.unprocessed := List.mem_map_of_mem he
  obtain ⟨-, -, hapart⟩ := List.nodup_append.mp (nodup_of_custody h)
  refine ⟨List.mem_range.mp (h.perm.subset (List.mem_append_right _ hmem)), fun hin => ?_,
    fun hin => ?_⟩
  · exact hapart _ (by simp [hin]) _ hmem rfl
  · exact hapart _ (by simp [hin]) _ hmem rfl

/-- So is a buffer that the device holds. -/
theorem lt_of_held {r : RxState.Logged} (h : RxState.Custody r) {id : UInt16}
    (hid : id ∈ r.1.device.held) : id.toNat < ringSize := by
  have hmem : id.toNat ∈ r.1.held := List.mem_map_of_mem hid
  exact List.mem_range.mp (h.perm.subset (by simp [hmem]))

/-! ### The invariant -/

/-- The bytes that the device has completed were handled, or are still in their buffers. -/
structure Carried (q : Logged) : Prop where
  custody : ∃ log, RxState.Custody (q.1.rx, log)
  len_le : ∀ e ∈ q.1.rx.unprocessed, e.len.toNat ≤ bufferSize
  filled_eq : ∃ handled, filled q.2 = handled ++ q.1.rx.unprocessed.map (frameAt q.1.rxBuffer) ∧
    List.Forall₂ (fun frame out => out = none ∨ out = some frame) handled (outcomes q.2)

theorem filled_append (l₁ l₂ : List (PacketAction × Option PacketEvent)) :
    filled (l₁ ++ l₂) = filled l₁ ++ filled l₂ :=
  List.filterMap_append

theorem outcomes_append (l₁ l₂ : List (PacketAction × Option PacketEvent)) :
    outcomes (l₁ ++ l₂) = outcomes l₁ ++ outcomes l₂ :=
  List.filterMap_append

/-- The handler takes the first used element when it has processed it, and no other. -/
theorem unprocessed_run {r : RxState} (h : r.PhaseInv) (result : Delivery) :
    (∃ e, (r.run result).2 = some (.processed e result) ∧
      r.unprocessed = e :: (r.run result).1.unprocessed) ∨
    (∃ event, (event = none ∨ event = some .signalled) ∧
      (∀ rxBuffer, eventOf rxBuffer (r.run result).2 = some event) ∧
      (r.run result).1.unprocessed = r.unprocessed) := by
  obtain ⟨driver, phase, device⟩ := r
  cases phase with
  | received isr n e =>
    have hcons := Vring.used_of_head? h
    refine Or.inl ⟨e, rfl, ?_⟩
    unfold RxState.run
    dsimp only
    split_ifs <;> exact hcons
  | signal isr n id => exact Or.inr ⟨_, Or.inr rfl, fun _ => rfl, rfl⟩
  | idle | test isr n | notify isr n =>
    unfold RxState.run
    dsimp only
    split_ifs <;> exact Or.inr ⟨_, Or.inl rfl, fun _ => rfl, rfl⟩
  | _ => exact Or.inr ⟨_, Or.inl rfl, fun _ => rfl, rfl⟩

/-- A step on the queue. -/
theorem step_rx {a : RxAction} (hs : withLog step q (.rx a) = some q') :
    ∃ r event, q.1.rx.step a = some r ∧ eventOf q.1.rxBuffer r.2 = some event ∧
      q' = ({ q.1 with rx := r.1 }, q.2 ++ [(.rx a, event)]) := by
  obtain ⟨event, hstep, hlog⟩ := withLog_eq_some.mp hs
  obtain ⟨r, hr, hmap⟩ := Option.bind_eq_some_iff.mp hstep
  obtain ⟨event', hevent, heq⟩ := Option.map_eq_some_iff.mp hmap
  obtain ⟨hstate, rfl⟩ := Prod.mk.inj heq
  exact ⟨r, _, hr, hevent, Prod.ext hstate.symm hlog⟩

/-- A step that is one branch of a test. -/
theorem eq_of_step_ite {a : PacketAction} {c : Prop} [Decidable c] {s' : PacketState}
    {event : Option PacketEvent} (ha : q.1.step a = if c then some (s', event) else none)
    (hs : withLog step q a = some q') : c ∧ q' = (s', q.2 ++ [(a, event)]) := by
  obtain ⟨event', hstep, hlog⟩ := withLog_eq_some.mp hs
  obtain ⟨hc, heq⟩ := Option.ite_none_right_eq_some.mp (ha.symm.trans hstep)
  obtain ⟨hstate, rfl⟩ := Prod.mk.inj (Option.some.inj heq)
  exact ⟨hc, Prod.ext hstate.symm hlog⟩

/-- A step that completes and processes nothing. -/
theorem Carried.of_none (h : Carried q) {a : PacketAction} (s' : PacketState)
    (hcustody : ∃ log, RxState.Custody (s'.rx, log))
    (hunprocessed : s'.rx.unprocessed = q.1.rx.unprocessed)
    (hframes : ∀ e ∈ q.1.rx.unprocessed, frameAt s'.rxBuffer e = frameAt q.1.rxBuffer e)
    {event : Option PacketEvent} (hfilled : filled [(a, event)] = [])
    (houtcome : outcomes [(a, event)] = []) : Carried (s', q.2 ++ [(a, event)]) := by
  obtain ⟨handled, hfill, hout⟩ := h.filled_eq
  refine ⟨hcustody, hunprocessed ▸ h.len_le, handled, ?_, ?_⟩
  · rw [filled_append, hfilled, List.append_nil, hfill, hunprocessed,
      List.map_congr_left hframes]
  · rw [outcomes_append, houtcome, List.append_nil]
    exact hout

/-- The handler: the bytes that it copies are those of the first used element. -/
theorem Carried.run (h : Carried q) {result : Delivery}
    (hs : withLog step q (.rx (.run result)) = some q') : Carried q' := by
  obtain ⟨r, event, hr, hevent, rfl⟩ := step_rx hs
  obtain ⟨log, hcustody⟩ := h.custody
  obtain rfl := Option.some.inj hr
  have hcustody' := hcustody.run result
  rcases unprocessed_run hcustody.phase result with ⟨e, he, hcons⟩ | ⟨ev, hev, hnone, hsame⟩
  · dsimp only at he hcons hevent
    rw [he] at hevent
    obtain ⟨hid, -, -⟩ := free_of_unprocessed hcustody (hcons ▸ List.mem_cons_self : e ∈ _)
    have hlen := h.len_le e (hcons ▸ List.mem_cons_self)
    obtain ⟨handled, hfill, hout⟩ := h.filled_eq
    have hout' : ∃ out, (out = none ∨ out = some (frameAt q.1.rxBuffer e)) ∧
        outcomes [(.rx (.run result), event)] = [out] ∧
        filled [(.rx (.run result), event)] = [] := by
      unfold eventOf at hevent
      dsimp only at hevent
      split_ifs at hevent with hdrop
      · obtain rfl := Option.some.inj hevent
        exact ⟨none, Or.inl rfl, rfl, rfl⟩
      · rw [memcpyFrom_frameAt hid hlen] at hevent
        obtain rfl := Option.some.inj hevent
        exact ⟨_, Or.inr rfl, rfl, rfl⟩
    obtain ⟨out, hcase, hone, hnil⟩ := hout'
    refine ⟨⟨_, hcustody'⟩, fun x hx => h.len_le x (hcons ▸ List.mem_cons_of_mem e hx),
      handled ++ [frameAt q.1.rxBuffer e], ?_, ?_⟩
    · rw [filled_append, hnil, List.append_nil, hfill, hcons, List.map_cons, List.append_assoc]
      rfl
    · rw [outcomes_append, hone]
      exact List.rel_append hout (.cons hcase .nil)
  · rw [hnone] at hevent
    obtain rfl := Option.some.inj hevent
    refine h.of_none { q.1 with rx := (q.1.rx.run result).1 } ⟨_, hcustody'⟩ hsame
      (fun _ _ => rfl) ?_ ?_ <;> rcases hev with rfl | rfl <;> rfl

/-- The device completes a buffer. -/
theorem Carried.complete (h : Carried q) {id : UInt16} {len : UInt32}
    (hlen : len.toNat ≤ bufferSize)
    (hs : withLog step q (.rx (.complete id len)) = some q') : Carried q' := by
  obtain ⟨r, event, hr, hevent, rfl⟩ := step_rx hs
  obtain ⟨log, hcustody⟩ := h.custody
  obtain ⟨hid, rfl⟩ := RxState.step_complete_eq_some.mp hr
  obtain rfl := Option.some.inj hevent
  have hused : (q.1.rx.complete id len).unprocessed =
      q.1.rx.unprocessed ++ [⟨id.toUInt32, len⟩] := RxState.unprocessed_complete hcustody hid len
  obtain ⟨handled, hfill, hout⟩ := h.filled_eq
  refine ⟨⟨_, hcustody.complete hid len⟩, ?_, handled, ?_, ?_⟩
  · dsimp only
    rw [hused]
    exact List.forall_mem_append.mpr ⟨h.len_le, by simpa using hlen⟩
  · dsimp only
    rw [filled_append, hfill, hused, List.map_append, List.append_assoc]
    rfl
  · rw [outcomes_append]
    exact (List.append_nil (outcomes q.2)).symm ▸ hout

/-- The device writes to a buffer that it holds. -/
theorem Carried.write (h : Carried q) {id : UInt16} {off : Nat} {data : Str}
    (hs : withLog step q (.write id off data) = some q') : Carried q' := by
  obtain ⟨⟨hid, hoff⟩, rfl⟩ := eq_of_step_ite rfl hs
  obtain ⟨log, hcustody⟩ := h.custody
  have hframes : ∀ e ∈ q.1.rx.unprocessed,
      frameAt (q.1.rxBuffer.store (bufferSize * id.toNat + off) data) e =
        frameAt q.1.rxBuffer e := by
    intro e he
    refine frameAt_store (h.len_le e he) (lt_of_held hcustody hid) (fun heq => ?_) hoff
    -- the buffers of used elements are not held
    exact (free_of_unprocessed hcustody he).2.2 (heq ▸ List.mem_map_of_mem hid)
  refine h.of_none { q.1 with
    rxBuffer := q.1.rxBuffer.store (bufferSize * id.toNat + off) data } ⟨log, hcustody⟩ ?_ hframes
    ?_ ?_ <;> rfl

/-- A step of `net_wait_for_data` leaves the queue alone. -/
theorem step_waiter {a : PacketAction} (ha : a = .wait ∨ a = .poll ∨ a = .reset)
    (hs : withLog step q a = some q') : ∃ event,
      (event = none ∨ event = some .returned) ∧ q'.2 = q.2 ++ [(a, event)] ∧
      q'.1.rxBuffer = q.1.rxBuffer ∧ q'.1.rx.unprocessed = q.1.rx.unprocessed ∧
      ∀ log, RxState.Custody (q.1.rx, log) → RxState.Custody (q'.1.rx, log) := by
  rcases ha with rfl | rfl | rfl
  · obtain ⟨-, rfl⟩ := eq_of_step_ite rfl hs
    exact ⟨none, Or.inl rfl, rfl, rfl, rfl, fun _ h => h⟩
  · obtain ⟨-, rfl⟩ := eq_of_step_ite rfl hs
    exact ⟨none, Or.inl rfl, rfl, rfl, rfl, fun _ h => h⟩
  · obtain ⟨-, rfl⟩ := eq_of_step_ite rfl hs
    exact ⟨some .returned, Or.inr rfl, rfl, rfl, rfl,
      fun _ h => ⟨h.perm, h.availIdx_eq, h.in_order, h.phase⟩⟩

/-- The step: whoever moves, the bytes are carried on. -/
theorem Carried.step (h : Carried q) {a : PacketAction}
    (hlen : ∀ id len, a = .rx (.complete id len) → len.toNat ≤ bufferSize)
    (hs : withLog PacketState.step q a = some q') : Carried q' := by
  have hwaiter : a = .wait ∨ a = .poll ∨ a = .reset → Carried q' := by
    intro ha
    obtain ⟨event, hevent, hlog, hbuffer, hunprocessed, hcustody⟩ := step_waiter ha hs
    obtain ⟨log, hq⟩ := h.custody
    obtain ⟨s', log'⟩ := q'
    obtain rfl : log' = _ := hlog
    refine h.of_none s' ⟨log, hcustody log hq⟩ hunprocessed (fun _ _ => by rw [hbuffer]) ?_ ?_
    · rcases hevent with rfl | rfl <;> rfl
    · rcases hevent with rfl | rfl <;> rfl
  cases a with
  | rx a =>
    cases a with
    | run result => exact h.run hs
    | complete id len => exact h.complete (hlen id len rfl) hs
    | take =>
      obtain ⟨r, event, hr, hevent, rfl⟩ := step_rx hs
      obtain ⟨log, hcustody⟩ := h.custody
      obtain ⟨hne, rfl⟩ := RxState.step_take_eq_some.mp hr
      obtain rfl := Option.some.inj hevent
      refine h.of_none { q.1 with rx := q.1.rx.take } ⟨_, hcustody.take hne rfl⟩ ?_
        (fun _ _ => rfl) ?_ ?_ <;> rfl
    | raise bits =>
      obtain ⟨r, event, hr, hevent, rfl⟩ := step_rx hs
      obtain ⟨log, hcustody⟩ := h.custody
      obtain rfl := Option.some.inj hr
      obtain rfl := Option.some.inj hevent
      refine h.of_none { q.1 with rx := q.1.rx.raise bits } ⟨log, hcustody.perm,
        hcustody.availIdx_eq, hcustody.in_order, hcustody.phase⟩ ?_ (fun _ _ => rfl) ?_ ?_ <;> rfl
  | write id off data => exact h.write hs
  | wait => exact hwaiter (Or.inl rfl)
  | poll => exact hwaiter (Or.inr (Or.inl rfl))
  | reset => exact hwaiter (Or.inr (Or.inr rfl))

section Log

variable (log : List (PacketAction × Option PacketEvent)) (a : PacketAction)
  (event : Option PacketEvent)

@[simp] theorem returns_snoc : returns (log ++ [(a, event)]) =
    returns log + if event = some .returned then 1 else 0 := by
  simp [returns, List.countP_append, List.countP_singleton]

@[simp] theorem signals_snoc : signals (log ++ [(a, event)]) =
    signals log + if event = some .signalled then 1 else 0 := by
  simp [signals, List.countP_append, List.countP_singleton]

theorem packets_snoc : packets (log ++ [(a, event)]) = packets log + packets [(a, event)] :=
  List.countP_append

@[simp] theorem sinceReturned_snoc : sinceReturned (log ++ [(a, event)]) =
    if event = some .returned then [] else sinceReturned log ++ [(a, event)] := by
  rw [sinceReturned, List.rtakeWhile_concat]
  by_cases h : event = some .returned <;> simp [h, sinceReturned]

end Log

/-- The event has nothing to do with the flag. -/
def Quiet (event : Option PacketEvent) : Prop :=
  event = none ∨ event = some .dropped ∨ ∃ frame, event = some (.filled frame)

/-- The handler gives a packet to lwIP, and then sets the flag. -/
theorem dataAvailable_rx {rxBuffer : RxBuffer} {r : RxState} {a : RxAction}
    {r' : RxState × Option RxEvent} {event : Option PacketEvent} (hr : r.step a = some r')
    (hevent : eventOf rxBuffer r'.2 = some event) :
    ((∃ frame, event = some (.copied frame)) ∧ r.signalling = false ∧ r'.1.signalling = true ∧
        r'.1.driver.dataAvailable = r.driver.dataAvailable) ∨
      (event = some .signalled ∧ r.signalling = true ∧ r'.1.signalling = false ∧
        r'.1.driver.dataAvailable = true) ∨
      (Quiet event ∧ r'.1.signalling = r.signalling ∧
        r'.1.driver.dataAvailable = r.driver.dataAvailable) := by
  cases a with
  | take =>
    obtain ⟨-, rfl⟩ := RxState.step_take_eq_some.mp hr
    obtain rfl := Option.some.inj hevent
    exact Or.inr (Or.inr ⟨Or.inl rfl, rfl, rfl⟩)
  | complete id len =>
    obtain ⟨-, rfl⟩ := RxState.step_complete_eq_some.mp hr
    obtain rfl := Option.some.inj hevent
    exact Or.inr (Or.inr ⟨Or.inr (Or.inr ⟨_, rfl⟩), rfl, rfl⟩)
  | raise bits =>
    obtain rfl := Option.some.inj hr
    obtain rfl := Option.some.inj hevent
    exact Or.inr (Or.inr ⟨Or.inl rfl, rfl, rfl⟩)
  | run result =>
    obtain rfl := Option.some.inj hr
    obtain ⟨driver, phase, device⟩ := r
    cases phase with
    | received isr n e =>
      unfold RxState.run eventOf at hevent
      unfold RxState.run
      dsimp only at hevent ⊢
      split_ifs at hevent ⊢ with hdrop
      · obtain rfl := Option.some.inj hevent
        exact Or.inr (Or.inr ⟨Or.inr (Or.inl rfl), rfl, rfl⟩)
      · obtain ⟨frame, -, rfl⟩ := Option.map_eq_some_iff.mp hevent
        exact Or.inl ⟨⟨frame, rfl⟩, rfl, rfl, rfl⟩
    | signal isr n id =>
      obtain rfl := Option.some.inj hevent
      exact Or.inr (Or.inl ⟨rfl, rfl, rfl, rfl⟩)
    | idle | test isr n | notify isr n =>
      unfold RxState.run at hevent ⊢
      dsimp only at hevent ⊢
      split_ifs at hevent ⊢
      all_goals
        obtain rfl := Option.some.inj hevent
        exact Or.inr (Or.inr ⟨Or.inl rfl, rfl, rfl⟩)
    | _ =>
      obtain rfl := Option.some.inj hevent
      exact Or.inr (Or.inr ⟨Or.inl rfl, rfl, rfl⟩)

/-- What the flag says of the log. -/
structure Flagged (q : Logged) : Prop where
  /-- It is set if the handler has set it since the last return. -/
  flag_iff : q.1.rx.driver.dataAvailable = true ↔ 0 < signals (sinceReturned q.2)
  /-- The handler sets it once for each packet. -/
  packets_eq : packets q.2 = signals q.2 + if q.1.rx.signalling then 1 else 0
  /-- A packet that came since the last return is signalled, or about to be. -/
  announced : 0 < packets (sinceReturned q.2) →
    q.1.rx.driver.dataAvailable = true ∨ q.1.rx.signalling = true
  released : q.1.waiter = .released → q.1.rx.driver.dataAvailable = true
  returns_le : returns q.2 + (if q.1.rx.driver.dataAvailable then 1 else 0) ≤ signals q.2
  returned : ∀ pre x post, q.2 = pre ++ x :: post → x.2 = some .returned →
    0 < signals (sinceReturned pre)

/-- The event of a step joins the log. -/
theorem returned_snoc {log : List (PacketAction × Option PacketEvent)} {a : PacketAction}
    {event : Option PacketEvent}
    (h : ∀ pre x post, log = pre ++ x :: post → x.2 = some .returned →
      0 < signals (sinceReturned pre))
    (hevent : event = some .returned → 0 < signals (sinceReturned log)) :
    ∀ pre x post, log ++ [(a, event)] = pre ++ x :: post → x.2 = some .returned →
      0 < signals (sinceReturned pre) := by
  intro pre x post hsplit hx
  rcases List.eq_nil_or_concat post with rfl | ⟨post', y, rfl⟩
  · obtain ⟨rfl, hone⟩ := List.append_inj' hsplit rfl
    rw [← List.singleton_injective hone] at hx
    exact hevent hx
  · rw [List.concat_eq_append, ← List.cons_append, ← List.append_assoc] at hsplit
    obtain ⟨rfl, -⟩ := List.append_inj' hsplit rfl
    exact h pre x post' rfl hx

/-- A step that neither gives a packet to lwIP nor sets or resets the flag. -/
theorem Flagged.quiet (h : Flagged q) {s' : PacketState} {a : PacketAction}
    {event : Option PacketEvent} (hevent : Quiet event)
    (hflag : s'.rx.driver.dataAvailable = q.1.rx.driver.dataAvailable)
    (hsignalling : s'.rx.signalling = q.1.rx.signalling)
    (hreleased : s'.waiter = .released → s'.rx.driver.dataAvailable = true) :
    Flagged (s', q.2 ++ [(a, event)]) := by
  have hreturned : event ≠ some .returned := by
    rcases hevent with rfl | rfl | ⟨frame, rfl⟩ <;> exact fun h => by cases h
  have hsignalled : event ≠ some .signalled := by
    rcases hevent with rfl | rfl | ⟨frame, rfl⟩ <;> exact fun h => by cases h
  have hpackets : packets [(a, event)] = 0 := by
    rcases hevent with rfl | rfl | ⟨frame, rfl⟩ <;> rfl
  refine ⟨?_, ?_, ?_, hreleased, ?_, returned_snoc h.returned fun heq => absurd heq hreturned⟩
  · simpa [hreturned, hsignalled, hflag] using h.flag_iff
  · simpa [packets_snoc, hpackets, hsignalled, hsignalling] using h.packets_eq
  · simpa [packets_snoc, hpackets, hreturned, hflag, hsignalling] using h.announced
  · simpa [hreturned, hsignalled, hflag] using h.returns_le

theorem Flagged.rx (h : Flagged q) {a : RxAction} (hs : withLog step q (.rx a) = some q') :
    Flagged q' := by
  obtain ⟨r, event, hr, hevent, rfl⟩ := step_rx hs
  obtain hcase | hcase | ⟨hquiet, hsignalling, hflag⟩ := dataAvailable_rx hr hevent
  -- the packet is given to lwIP
  · obtain ⟨⟨frame, rfl⟩, hnot, hsignalling, hflag⟩ := hcase
    have hone : packets [(.rx a, some (.copied frame))] = 1 := rfl
    have hpackets := h.packets_eq
    refine ⟨?_, ?_, fun _ => Or.inr hsignalling, fun hw => hflag ▸ h.released hw, ?_,
      returned_snoc h.returned fun heq => by cases heq⟩
    · simpa [hflag] using h.flag_iff
    · simp [packets_snoc, hone, hsignalling, hpackets, hnot]
    · simpa [hflag] using h.returns_le
  -- the flag is set
  · obtain ⟨rfl, hsignalling, hnot, hflag⟩ := hcase
    have hnone : packets [(.rx a, some .signalled)] = 0 := rfl
    have hpackets := h.packets_eq
    have hreturns := h.returns_le
    refine ⟨?_, ?_, fun _ => Or.inl hflag, fun _ => hflag, ?_,
      returned_snoc h.returned fun heq => by cases heq⟩
    · simp [hflag]
    · simp [packets_snoc, hnone, hnot, hpackets, hsignalling]
    · simpa [hflag] using le_trans (Nat.le_add_right _ _) hreturns
  · exact h.quiet hquiet hflag hsignalling fun hw => hflag ▸ h.released hw

theorem Flagged.step (h : Flagged q) {a : PacketAction}
    (hs : withLog PacketState.step q a = some q') : Flagged q' := by
  cases a with
  | rx a => exact h.rx hs
  | write id off data =>
    obtain ⟨-, rfl⟩ := eq_of_step_ite rfl hs
    exact h.quiet (Or.inl rfl) rfl rfl h.released
  | wait =>
    obtain ⟨-, rfl⟩ := eq_of_step_ite rfl hs
    exact h.quiet (Or.inl rfl) rfl rfl fun hw => by simp at hw
  | poll =>
    obtain ⟨-, rfl⟩ := eq_of_step_ite rfl hs
    refine h.quiet (Or.inl rfl) rfl rfl fun hw => ?_
    dsimp only at hw
    split_ifs at hw with hflag
    exact hflag
  | reset =>
    obtain ⟨hwaiter, rfl⟩ := eq_of_step_ite rfl hs
    -- the flag was set when the loop was left, and only this call resets it
    have hflag := h.released hwaiter
    have hnone : packets [(PacketAction.reset, some PacketEvent.returned)] = 0 := rfl
    have hreturns := h.returns_le
    rw [if_pos hflag] at hreturns
    refine ⟨?_, ?_, ?_, fun hw => by simp at hw, ?_,
      returned_snoc h.returned fun _ => h.flag_iff.mp hflag⟩
    · simp [signals]
    · rw [packets_snoc, hnone, signals_snoc, if_neg (by decide)]
      exact h.packets_eq
    · simp [packets]
    · simpa using hreturns

end PacketState

end BankSel4.Network
