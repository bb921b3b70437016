import BankSel4.Network.Equiv.Receive

/-!
# Pending interrupts

The handler drains the used ring and then acknowledges the interrupts that it has read before.  A
completion that arrives in between is acknowledged with them: `AckSafe` is the condition that none
does, `noneLeftBehind_iff` is that then, and only then, no completed element is left without a
pending interrupt.
-/

namespace BankSel4.Network

namespace RxState

variable {s : RxState} {q q' : Logged}

/-- While the handler is not running, an element that it has not processed comes with bit 0 of
`InterruptStatus` set. -/
def NoneLeftBehind (s : RxState) : Prop :=
  s.phase = .idle → s.driver.rxRing.usedIdx ≠ s.driver.lastRxIdx →
    s.device.interruptStatus &&& 1 ≠ 0

instance (s : RxState) : Decidable (NoneLeftBehind s) := inferInstanceAs (Decidable (_ → _ → _))

/-- The handler is between the test that ends its loop and the write of `InterruptACK`. -/
def Drained (s : RxState) : Prop :=
  match s.phase with
  | .notify .. | .ack .. => True
  | _ => False

/-- No descriptor is completed between the end of the loop and the write of `InterruptACK`. -/
def AckSafe (s : RxState) : RxAction → Prop
  | .complete .. => ¬ s.Drained
  | _ => True

/-! ### Bit 0 -/

theorem and_one_ne_zero_iff (x : UInt32) : x &&& 1 ≠ 0 ↔ x.toBitVec.getLsbD 0 = true := by
  rw [Ne, ← UInt32.toNat_inj, UInt32.toNat_and, UInt32.toNat_one, Nat.and_one_is_mod,
    BitVec.getLsbD, Nat.testBit_zero]
  simp

theorem or_and_one_ne_zero {x : UInt32} (h : x &&& 1 ≠ 0) (y : UInt32) :
    (x ||| y) &&& 1 ≠ 0 := by
  rw [and_one_ne_zero_iff] at h ⊢
  simp [h]

/-- Acknowledging clears the bits that were read. -/
theorem and_not_and_one {y : UInt32} (h : y &&& 1 ≠ 0) (x : UInt32) : x &&& ~~~y &&& 1 = 0 := by
  rw [and_one_ne_zero_iff] at h
  rw [← not_ne_iff, and_one_ne_zero_iff, UInt32.toBitVec_and, UInt32.toBitVec_not,
    BitVec.getLsbD_and, BitVec.getLsbD_not, h]
  simp

/-! ### The invariant -/

/-- What keeps the interrupt pending, as long as no completion is acknowledged unseen. -/
structure Signalled (s : RxState) : Prop where
  pending : s.driver.rxRing.usedIdx ≠ s.driver.lastRxIdx → s.device.interruptStatus &&& 1 ≠ 0
  phase : match s.phase with
    | .element .. | .received .. | .signal .. | .refill .. | .offer .. | .count .. =>
      s.device.interruptStatus &&& 1 ≠ 0
    | .notify .. | .ack .. => s.driver.rxRing.usedIdx = s.driver.lastRxIdx
    | _ => True

theorem Signalled.run (h : Signalled s) (result : Delivery) : Signalled (s.run result).1 := by
  obtain ⟨driver, phase, device⟩ := s
  obtain ⟨hpending, hphase⟩ := id h
  cases phase with
  | idle =>
    unfold RxState.run
    dsimp only
    split_ifs <;> exact ⟨hpending, trivial⟩
  | test isr n =>
    unfold RxState.run
    dsimp only
    split_ifs with hne
    · exact ⟨hpending, hpending (Ne.symm hne)⟩
    · exact ⟨hpending, (not_ne_iff.mp hne).symm⟩
  | received isr n e =>
    unfold RxState.run
    dsimp only
    split_ifs <;> exact ⟨hpending, hphase⟩
  | count isr n => exact ⟨fun _ => hphase, trivial⟩
  -- the bit may be cleared here, but the ring is still drained
  | ack isr => exact ⟨fun hne => absurd hphase hne, trivial⟩
  | irqAcknowledge => exact ⟨hpending, trivial⟩
  | _ => exact ⟨hpending, hphase⟩

theorem Signalled.complete (h : Signalled s) (hsafe : ¬ s.Drained) (id : UInt16) (len : UInt32) :
    Signalled (s.complete id len) := by
  have hbit : (s.device.interruptStatus ||| 1) &&& 1 ≠ 0 := by
    rw [and_one_ne_zero_iff]
    simp
  refine ⟨fun _ => hbit, ?_⟩
  obtain ⟨driver, phase, device⟩ := s
  -- behind the loop, where the completion would be acknowledged unseen, there is none
  cases phase <;> first | exact hbit | exact trivial | exact absurd trivial hsafe

theorem Signalled.raise (h : Signalled s) (bits : UInt32) : Signalled (s.raise bits) := by
  obtain ⟨driver, phase, device⟩ := s
  obtain ⟨hpending, hphase⟩ := h
  refine ⟨fun hne => or_and_one_ne_zero (hpending hne) bits, ?_⟩
  cases phase <;> first | exact trivial | exact or_and_one_ne_zero hphase bits | exact hphase

theorem Signalled.step {a : RxAction} (h : Signalled q.1) (hsafe : AckSafe q.1 a)
    (hs : withLog RxState.step q a = some q') : Signalled q'.1 := by
  rcases step_cases hs with ⟨result, rfl, heq⟩ | ⟨rfl, -, heq⟩ | ⟨id, len, rfl, -, heq⟩ |
    ⟨bits, rfl, heq⟩
  · exact heq ▸ h.run result
  · exact heq ▸ ⟨h.pending, h.phase⟩
  · exact heq ▸ h.complete hsafe id len
  · exact heq ▸ h.raise bits

theorem signalled_rxStart : Signalled rxStart where
  pending hne := by
    rw [driver_rxStart, usedIdx_prefill] at hne
    exact absurd rfl hne
  phase := trivial

theorem signalled_of_run {l : List RxAction}
    (hsafe : EveryStep (withLog RxState.step) (fun _ q a => AckSafe q.1 a) (rxStart, []) l)
    (hrun : runSteps (withLog RxState.step) (rxStart, []) l = some q) : Signalled q.1 :=
  runSteps_invariant (P := fun _ q a => AckSafe q.1 a) (I := fun _ q => Signalled q.1)
    signalled_rxStart (fun _ _ _ _ _ h hsafe hs => h.step hsafe hs) hsafe hrun

/-! ### A completion that is acknowledged unseen -/

/-- In the loop and behind it, bit 0 of what was read from `InterruptStatus` is set. -/
def ReadInterrupt (s : RxState) : Prop :=
  match s.phase with
  | .test isr _ | .element isr _ | .received isr _ _ | .signal isr _ _ | .refill isr _ _
  | .offer isr _ _ | .count isr _ | .notify isr _ | .ack isr => isr &&& 1 ≠ 0
  | _ => True

theorem ReadInterrupt.run (h : ReadInterrupt s) (result : Delivery) :
    ReadInterrupt (s.run result).1 := by
  obtain ⟨driver, phase, device⟩ := s
  cases phase with
  | idle =>
    unfold RxState.run
    dsimp only
    split_ifs with hregs hbit <;> first | exact trivial | exact hbit
  | test isr n | received isr n e =>
    unfold RxState.run
    dsimp only
    split_ifs <;> exact h
  | ack isr => exact trivial
  | irqAcknowledge => exact trivial
  | _ => exact h

theorem readInterrupt_of_run {l : List RxAction}
    (hrun : runSteps (withLog RxState.step) (rxStart, []) l = some q) : ReadInterrupt q.1 := by
  have hstart : ReadInterrupt rxStart := trivial
  refine runSteps_state_invariant (I := fun q => ReadInterrupt q.1) hstart
    (fun q a q' h hs => ?_) hrun
  rcases step_cases hs with ⟨result, -, heq⟩ | ⟨-, -, heq⟩ | ⟨id, len, -, -, heq⟩ | ⟨bits, -, heq⟩
  · exact heq ▸ h.run result
  · exact heq ▸ h
  · exact heq ▸ h
  · exact heq ▸ h

/-- The handler runs `n` steps by itself. -/
theorem exists_runSteps_run (q : Logged) (n : Nat) : ∃ log,
    runSteps (withLog RxState.step) q (List.replicate n (.run .accepted)) =
      some ((fun s => (s.run .accepted).1)^[n] q.1, log) := by
  induction n generalizing q with
  | zero => exact ⟨q.2, rfl⟩
  | succ n ih =>
    have hstep : withLog RxState.step q (.run .accepted) =
        some ((q.1.run .accepted).1, q.2 ++ [(.run .accepted, (q.1.run .accepted).2)]) := rfl
    obtain ⟨log, hlog⟩ := ih ((q.1.run .accepted).1, _)
    exact ⟨log, by rw [List.replicate_succ, runSteps_cons, hstep, Option.bind_some, hlog]; rfl⟩

/-- The handler acknowledges the interrupt of an element that it has not seen. -/
theorem exists_not_noneLeftBehind (hdrained : s.Drained) (hread : ReadInterrupt s)
    (hne : s.driver.rxRing.usedIdx ≠ s.driver.lastRxIdx) :
    ∃ n, ¬ NoneLeftBehind ((fun s => (s.run .accepted).1)^[n] s) := by
  obtain ⟨driver, phase, device⟩ := s
  cases phase with
  | notify isr n => exact ⟨3, fun h => h rfl hne (and_not_and_one hread device.interruptStatus)⟩
  | ack isr => exact ⟨2, fun h => h rfl hne (and_not_and_one hread device.interruptStatus)⟩
  | _ => exact hdrained.elim

/-- A completion in the window leaves an element behind. -/
theorem exists_left_behind_of_complete {pre : List RxAction} {id : UInt16} {len : UInt32}
    (hq : runSteps (withLog RxState.step) (rxStart, []) pre = some q) (hdrained : q.1.Drained)
    (hs : withLog RxState.step q (.complete id len) = some q') : ∃ n r,
      runSteps (withLog RxState.step) q' (List.replicate n (.run .accepted)) = some r ∧
        ¬ NoneLeftBehind r.1 := by
  obtain ⟨ev, hstep, -⟩ := withLog_eq_some.mp hs
  obtain ⟨hid, hr⟩ := step_complete_eq_some.mp hstep
  have hused := unprocessed_complete (custody_of_run hq) hid len
  have hread := readInterrupt_of_run hq
  -- the ring was drained, so the completion is the one element that is not processed
  have hne : (q.1.complete id len).driver.rxRing.usedIdx ≠ q.1.driver.lastRxIdx := by
    have hnext : (q.1.complete id len).nextUsed = q.1.driver.lastRxIdx := by
      obtain ⟨⟨driver, phase, device⟩, log⟩ := q
      cases phase <;> first | rfl | exact hdrained.elim
    intro heq
    rw [unprocessed, hnext, Vring.used, heq, between_self] at hused
    exact List.concat_ne_nil _ _ hused.symm
  -- the handler, left to itself, acknowledges it and returns
  obtain ⟨n, hn⟩ := exists_not_noneLeftBehind (s := q.1.complete id len) hdrained hread hne
  obtain ⟨log, hlog⟩ := exists_runSteps_run q' n
  rw [congrArg Prod.fst hr] at hlog
  exact ⟨n, _, hlog, hn⟩

/-- **No packet is left behind without a pending interrupt**, at any moment of a run and however
long the handler then goes on by itself, exactly when no completion of the run falls between the end
of the handler's loop and its write of `InterruptACK`. -/
theorem noneLeftBehind_iff {l : List RxAction} {q : Logged}
    (hrun : runSteps (withLog RxState.step) (rxStart, []) l = some q) :
    (∀ pre n q', pre <+: l → runSteps (withLog RxState.step) (rxStart, [])
      (pre ++ List.replicate n (.run .accepted)) = some q' → NoneLeftBehind q'.1) ↔
    EveryStep (withLog RxState.step) (fun _ q a => AckSafe q.1 a) (rxStart, []) l := by
  constructor
  · rintro h pre a post t rfl ht
    cases a with
    | complete id len =>
      intro hdrained
      obtain ⟨t', ht'⟩ := exists_step_of_runSteps hrun ht
      obtain ⟨n, r, hr, hleft⟩ := exists_left_behind_of_complete ht hdrained ht'
      refine hleft (h (pre ++ [.complete id len]) n r ⟨post, by simp⟩ ?_)
      rw [runSteps_append, runSteps_snoc_eq_some.mpr ⟨t, ht, ht'⟩, Option.bind_some, hr]
    | _ => exact trivial
  · rintro hsafe pre n q' ⟨post, rfl⟩ hq' hidle hne
    -- the steps that the handler takes by itself complete nothing
    have hsafe' : EveryStep (withLog RxState.step) (fun _ q a => AckSafe q.1 a) (rxStart, [])
        (pre ++ List.replicate n (.run .accepted)) := by
      refine hsafe.of_append.append_of_forall fun a ha _ _ => ?_
      rw [List.eq_of_mem_replicate ha]
      exact trivial
    exact (signalled_of_run hsafe' hq').pending hne

/-- Two packets, the second completed after the handler has seen that the first was the last. -/
def lateRun : List RxAction :=
  [.take, .take, .complete 0 60] ++ List.replicate 9 (.run .accepted) ++ [.complete 1 60] ++
    List.replicate 3 (.run .accepted)

theorem not_noneLeftBehind_lateRun : ∃ q,
    runSteps (withLog RxState.step) (rxStart, []) lateRun = some q ∧ ¬ NoneLeftBehind q.1 := by
  have hany : (runSteps (withLog RxState.step) (rxStart, []) lateRun).any
      fun q => ¬ NoneLeftBehind q.1 := by
    decide +kernel
  obtain ⟨q, hrun, hleft⟩ := (Option.any_eq_true _ _).mp hany
  exact ⟨q, hrun, of_decide_eq_true hleft⟩

theorem noneLeftBehind_iff_rxRun : ∃ q,
    runSteps (withLog RxState.step) (rxStart, []) rxRun = some q ∧
      ((∀ pre n q', pre <+: rxRun → runSteps (withLog RxState.step) (rxStart, [])
        (pre ++ List.replicate n (.run .accepted)) = some q' → NoneLeftBehind q'.1) ↔
      EveryStep (withLog RxState.step) (fun _ q a => AckSafe q.1 a) (rxStart, []) rxRun) := by
  have hsome : (runSteps (withLog RxState.step) (rxStart, []) rxRun).isSome := by decide +kernel
  obtain ⟨q, hrun⟩ := Option.isSome_iff_exists.mp hsome
  exact ⟨q, hrun, noneLeftBehind_iff hrun⟩

end RxState

end BankSel4.Network
