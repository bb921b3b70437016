import BankSel4.Algorithm.Run
import BankSel4.Bridge.Equiv.Steps

/-!
# Requests and replies over the bridge

`Delivers s a`: a write does not replace a request that the gateway has yet to read, and a read
finds the reply to the last request.  Nothing makes the client wait for the reply but a delay, so it
can read too early, and go on to the next request: `not_delivers_early`.

`delivers_iff`: a run delivers exactly when the gateway is back at its wait, with no signal pending,
whenever the client reads.
-/

namespace BankSel4.Bridge

open Gateway

/-- No request is lost, and the response is the reply to the last request. -/
def Delivers (s : State) : Action → Prop
  | .clientWrite _ => s.slot.unread = false
  | .gatewayWrite => s.slot.unread = false
  | .clientRead => ∃ n, s.writes = n + 1 ∧ s.slot.origin = .reply (.request n)
  | _ => True

/-- The client reads only while the gateway waits and no signal is pending. -/
def ReadsAtRest (s : State) : Action → Prop
  | .clientRead => s.gateway = .waiting ∧ s.dataReady = false
  | _ => True

instance (s : State) (a : Action) : Decidable (ReadsAtRest s a) :=
  match a with
  | .clientRead => inferInstanceAs (Decidable (_ ∧ _))
  | .clientWrite _ => inferInstanceAs (Decidable True)
  | .clientEmit => inferInstanceAs (Decidable True)
  | .gatewayWait => inferInstanceAs (Decidable True)
  | .gatewayRead _ => inferInstanceAs (Decidable True)
  | .gatewayDispatch _ => inferInstanceAs (Decidable True)
  | .gatewayWrite => inferInstanceAs (Decidable True)

/-- How far the last request has come. -/
inductive Phase where
  | idle
  | written
  | signalled
  | woken
  | loaded (buf : Str)
  | answered (reply : Str)
  | replied

/-- What the state is in each phase of the request `n`. -/
def Phase.Holds (n : Nat) (s : State) : Phase → Prop
  | .idle => s.client = .input ∧ s.gateway = .waiting ∧ s.dataReady = false ∧ s.slot.unread = false
  | .written => s.client = .written ∧ s.gateway = .waiting ∧ s.dataReady = false ∧
    s.writes = n + 1 ∧ s.slot.origin = .request n
  | .signalled => s.client = .waiting ∧ s.gateway = .waiting ∧ s.dataReady = true ∧
    s.writes = n + 1 ∧ s.slot.origin = .request n
  | .woken => s.client = .waiting ∧ s.gateway = .woken ∧ s.dataReady = false ∧
    s.writes = n + 1 ∧ s.slot.origin = .request n
  | .loaded buf => s.client = .waiting ∧ s.gateway = .loaded buf (.request n) ∧
    s.dataReady = false ∧ s.writes = n + 1 ∧ s.slot.origin = .request n ∧ s.slot.unread = false
  | .answered reply => s.client = .waiting ∧ s.gateway = .answered reply (.request n) ∧
    s.dataReady = false ∧ s.writes = n + 1 ∧ s.slot.origin = .request n ∧ s.slot.unread = false
  | .replied => s.client = .waiting ∧ s.gateway = .waiting ∧ s.dataReady = false ∧
    s.writes = n + 1 ∧ s.slot.origin = .reply (.request n) ∧ s.slot.unread = false

/-- The last request is in some phase. -/
def InPhase (s : State) : Prop := ∃ n p, Phase.Holds n s p

theorem inPhase_init : InPhase State.init := ⟨0, .idle, rfl, rfl, rfl, rfl⟩

section Phases

variable {overflow : Int → Int32} {s s' : State} {a : Action} {call : Option Call}

/-- In every phase, a step delivers exactly when it is no read before the reply. -/
theorem delivers_iff_readsAtRest (h : InPhase s) (hs : Step overflow s a call s') :
    Delivers s a ↔ ReadsAtRest s a := by
  obtain ⟨n, p, hp⟩ := h
  cases hs with
  | clientWrite request hclient =>
    cases p <;> simp_all [Phase.Holds, Delivers, ReadsAtRest]
  | gatewayWrite reply origin hgateway =>
    cases p <;> simp_all [Phase.Holds, Delivers, ReadsAtRest]
  | clientRead hclient =>
    cases p <;> simp_all [Phase.Holds, Delivers, ReadsAtRest]
  -- the other steps touch neither the dataport nor what was read
  | _ => exact Iff.rfl

/-- A step that is no read before the reply takes a phase to the next. -/
theorem inPhase_step (h : InPhase s) (hrest : ReadsAtRest s a) (hs : Step overflow s a call s') :
    InPhase s' := by
  obtain ⟨n, p, hp⟩ := h
  -- the actor of the step is in one place of its loop, which leaves one phase
  cases hs with
  | clientWrite request hclient =>
    refine ⟨s.writes, .written, ?_⟩
    cases p <;> simp_all [Phase.Holds]
  | clientEmit hclient =>
    refine ⟨n, .signalled, ?_⟩
    cases p <;> simp_all [Phase.Holds]
  | clientRead hclient =>
    refine ⟨n, .idle, ?_⟩
    cases p <;> simp_all [Phase.Holds, ReadsAtRest]
  | gatewayWait hgateway hready =>
    refine ⟨n, .woken, ?_⟩
    cases p <;> simp_all [Phase.Holds]
  | gatewayRead prev hgateway =>
    refine ⟨n, .loaded (localBuf prev s.slot.text), ?_⟩
    cases p <;> simp_all [Phase.Holds]
  | gatewayDispatch result buf origin reply call hgateway hdispatch =>
    refine ⟨n, .answered reply, ?_⟩
    cases p <;> simp_all [Phase.Holds]
  | gatewayWrite reply origin hgateway =>
    refine ⟨n, .replied, ?_⟩
    cases p <;> simp_all [Phase.Holds]

end Phases

/-- **Delivery**: in a run of the two loops no request is lost and every response is the reply to
the last request, exactly when the client reads only while the gateway waits and no signal is
pending. -/
theorem delivers_iff {overflow : Int → Int32} {l : List Action} {s : State}
    (hrun : runSteps (next overflow) State.init l = some s) :
    EveryStep (next overflow) (fun _ => Delivers) State.init l ↔
      EveryStep (next overflow) (fun _ => ReadsAtRest) State.init l := by
  refine everyStep_congr inPhase_init (fun s a s' h hs => ?_) (fun s a s' h hrest hs => ?_) hrun
  · obtain ⟨call, hstep⟩ := next_eq_some hs
    exact delivers_iff_readsAtRest h hstep
  · obtain ⟨call, hstep⟩ := next_eq_some hs
    exact inPhase_step h hrest hstep

/-- The client reads after the gateway is done. -/
def servedRun : List Action :=
  [.clientWrite mockData, .clientEmit, .gatewayWait, .gatewayRead Mem.zero, .gatewayDispatch (-1),
    .gatewayWrite, .clientRead]

theorem delivers_servedRun :
    EveryStep (next Int32.ofInt) (fun _ => Delivers) State.init servedRun := by
  have hsome : (runSteps (next Int32.ofInt) State.init servedRun).isSome = true := by decide +kernel
  obtain ⟨s, hrun⟩ := Option.isSome_iff_exists.mp hsome
  exact (delivers_iff hrun).mpr (by decide +kernel)

/-- The client reads, and writes again, before the gateway is there. -/
def earlyRun : List Action :=
  [.clientWrite mockData, .clientEmit, .clientRead, .clientWrite mockData]

/-- The client reads its own request for the response, and then replaces it unread. -/
theorem not_delivers_early : (runSteps (next Int32.ofInt) State.init earlyRun).isSome = true ∧
    ¬ EveryStep (next Int32.ofInt) (fun _ => Delivers) State.init earlyRun ∧
    ∃ s, runSteps (next Int32.ofInt) State.init (earlyRun.take 3) = some s ∧
      ¬ Delivers s (.clientWrite mockData) := by
  refine ⟨by decide +kernel, fun h => ?_, _, rfl, nofun⟩
  obtain ⟨n, -, horigin⟩ := h [.clientWrite mockData, .clientEmit] .clientRead
    [.clientWrite mockData] _ rfl rfl
  cases horigin

end BankSel4.Bridge
