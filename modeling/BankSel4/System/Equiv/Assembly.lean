import BankSel4.Algorithm.Simulation
import BankSel4.Bridge.Equiv.Once
import BankSel4.System.Assembly

/-!
# The parts of the assembly

A run of the assembly is a run of the bridge, in which the gateway has the results from the servers
(`exists_bridge_run`), and a run of the servers with the calls that were served
(`exists_servers_run`).  So what holds of every run of a part holds of the assembly.
-/

namespace BankSel4.System

open Sql Gateway

section Parts

variable {overflow : Int → Int32} {eng : Engine}

/-! ### Steps -/

/-- The call of an event. -/
def Event.call? : Event → Option (Gateway.Call × Reply)
  | .called c reply => some (c, reply)
  | _ => none

/-- The request of an event. -/
def Event.request? : Event → Option Str
  | .requested request => some request
  | _ => none

namespace Assembly

theorem requests_append (log : List (Action × Option Event)) (x : Action × Option Event) :
    requests (log ++ [x]) = requests log ++ (x.2.bind Event.request?).toList := by
  rw [requests, List.filterMap_append]
  rcases h : x.2 with _ | (_ | _ | _) <;> simp [requests, h, Event.request?]

theorem served_append (log : List (Action × Option Event)) (x : Action × Option Event) :
    served (log ++ [x]) = served log ++ (x.2.bind Event.call?).toList := by
  rw [served, List.filterMap_append]
  rcases h : x.2 with _ | (_ | _ | _) <;> simp [served, h, Event.call?]

end Assembly

/-- An answer is what the gateway of the bridge makes of the result that the servers return. -/
theorem dispatch_of_answer {fails : Nat → Nat → Bool} {servers : State} {buf : Str} {r : Answer}
    (h : answer overflow eng fails servers buf = some r) :
    ∃ result, Bridge.dispatch overflow buf result = some (r.reply, r.call.map Prod.fst) := by
  unfold answer at h
  unfold Bridge.dispatch
  rcases hparse : parse overflow buf with e | (reply | c)
  · rw [hparse] at h
    cases h
  · rw [hparse] at h
    obtain rfl := Option.some.inj h
    exact ⟨0, rfl⟩
  · rw [hparse] at h
    obtain ⟨⟨servers', reply'⟩, -, hr⟩ := Option.bind_eq_some_iff.mp h
    obtain ⟨reply, hreply, rfl⟩ := Option.map_eq_some_iff.mp hr
    exact ⟨reply'.rc, Option.map_eq_some_iff.mpr ⟨reply, hreply, rfl⟩⟩

namespace Assembly

variable {s s' : Assembly} {a : Action} {e : Option Event}

/-- A dispatch answers what the gateway has loaded. -/
theorem step_dispatch {fails : Nat → Nat → Bool}
    (h : s.step overflow eng (.gatewayDispatch fails) = some (s', e)) :
    ∃ buf origin r, s.bridge.gateway = .loaded buf origin ∧
      answer overflow eng fails s.servers buf = some r ∧
      s' = ⟨{ s.bridge with gateway := .answered r.reply origin }, r.servers⟩ ∧
      e = r.call.map fun x => .called x.1 x.2 := by
  cases hgateway : s.bridge.gateway with
  | waiting => simp [step, hgateway] at h
  | woken => simp [step, hgateway] at h
  | answered reply origin => simp [step, hgateway] at h
  | loaded buf origin =>
    simp only [step, hgateway] at h
    obtain ⟨r, hr, heq⟩ := Option.map_eq_some_iff.mp h
    obtain ⟨rfl, rfl⟩ := Prod.mk.inj heq
    exact ⟨buf, origin, r, rfl, hr, rfl, rfl⟩

/-- The step that a loop takes on the bridge, but for the dispatch. -/
def loopAction : Action → Option Bridge.Action
  | .clientWrite request => some (.clientWrite request)
  | .clientEmit => some .clientEmit
  | .clientRead => some .clientRead
  | .gatewayWait => some .gatewayWait
  | .gatewayRead prev => some (.gatewayRead prev)
  | .gatewayDispatch _ => none
  | .gatewayWrite => some .gatewayWrite

/-- Any other step is one of the bridge, and no call. -/
theorem step_loop {b : Bridge.Action} (hb : loopAction a = some b)
    (h : s.step overflow eng a = some (s', e)) :
    s'.servers = s.servers ∧ e.bind Event.call? = none ∧ e.bind Event.request? = b.request? ∧
      ∃ call, Bridge.step overflow s.bridge b = some (s'.bridge, call) := by
  have hloop : ∀ ev : Option Event, s.loopStep overflow b ev = some (s', e) →
      s'.servers = s.servers ∧ e = ev ∧
        ∃ call, Bridge.step overflow s.bridge b = some (s'.bridge, call) := by
    intro ev hev
    obtain ⟨⟨t, call⟩, ht, heq⟩ := Option.map_eq_some_iff.mp hev
    obtain ⟨rfl, rfl⟩ := Prod.mk.inj heq
    exact ⟨rfl, rfl, call, ht⟩
  cases a with
  | gatewayDispatch fails => cases hb
  | _ =>
    obtain rfl := Option.some.inj hb
    obtain ⟨hservers, rfl, hstep⟩ := hloop _ h
    exact ⟨hservers, rfl, rfl, hstep⟩

/-- A loop other than the gateway's dispatch makes no call. -/
theorem call_eq_none_of_loop {b : Bridge.Action} {call : Option Gateway.Call}
    {t t' : Bridge.State} (hb : loopAction a = some b)
    (h : Bridge.step overflow t b = some (t', call)) : call = none := by
  cases a with
  | gatewayDispatch fails => cases hb
  | _ =>
    obtain rfl := Option.some.inj hb
    cases Bridge.step_eq_some h
    rfl

/-- Only a write of the client writes a request. -/
theorem action_of_request? (h : s.step overflow eng a = some (s', e)) {request : Str}
    (hrequest : e.bind Event.request? = some request) : a = .clientWrite request := by
  cases a with
  | gatewayDispatch fails =>
    obtain ⟨buf, origin, r, -, -, -, rfl⟩ := step_dispatch h
    cases hr : r.call <;> simp [hr, Event.request?] at hrequest
  | clientWrite request' =>
    obtain ⟨-, -, hb, -⟩ := step_loop rfl h
    exact congrArg Action.clientWrite (Option.some.inj (hb.symm.trans hrequest))
  | _ =>
    obtain ⟨-, -, hb, -⟩ := step_loop rfl h
    cases hb.symm.trans hrequest

/-- Every step is one of the bridge. -/
theorem exists_bridge_step (h : s.step overflow eng a = some (s', e)) :
    ∃ b, Bridge.step overflow s.bridge b =
      some (s'.bridge, (e.bind Event.call?).map Prod.fst) ∧
        b.request? = e.bind Event.request? := by
  cases hb : loopAction a with
  | some b =>
    obtain ⟨-, hcall, hrequest, call, hstep⟩ := step_loop hb h
    obtain rfl := call_eq_none_of_loop hb hstep
    exact ⟨b, by rw [hcall]; exact hstep, hrequest.symm⟩
  | none =>
    cases a with
    | gatewayDispatch fails =>
      obtain ⟨buf, origin, r, hgateway, hanswer, rfl, rfl⟩ := step_dispatch h
      obtain ⟨result, hdispatch⟩ := dispatch_of_answer hanswer
      refine ⟨.gatewayDispatch result, ?_, ?_⟩
      · simp only [Bridge.step, hgateway, hdispatch]
        cases r.call <;> rfl
      · cases r.call <;> rfl
    | _ => cases hb

/-- The requests that are written are at most `n` bytes long. -/
def WritesAtMost (n : Nat) (l : List Action) : Prop :=
  ∀ request, Action.clientWrite request ∈ l → request.length ≤ n

/-- The state and the log of the bridge in a run of the assembly. -/
def OnBridge (q : Logged) (p : Bridge.State × List (Bridge.Action × Option Gateway.Call)) : Prop :=
  p.1 = q.1.bridge ∧ Bridge.requests p.2 = requests q.2 ∧
    Bridge.calls p.2 = (served q.2).map Prod.fst

theorem simulates_bridge (n : Nat) : Simulates (withLog (step overflow eng))
    (withLog (Bridge.step overflow)) (fun _ a => WritesAtMost n [a])
    (fun _ b => ∀ request, b = .clientWrite request → request.length ≤ n) OnBridge := by
  rintro q p a q' ⟨hstate, hrequests, hcalls⟩ hfits hs
  obtain ⟨e, hstep, hlog⟩ := withLog_eq_some.mp hs
  obtain ⟨b, hb, hrequest⟩ := exists_bridge_step hstep
  rw [← hstate] at hb
  refine .move ?_ (withLog_of_step hb) ⟨rfl, ?_, ?_⟩
  · rintro request rfl
    obtain rfl := action_of_request? hstep hrequest.symm
    exact hfits request (List.mem_singleton_self _)
  · rw [hlog, requests_append, Bridge.requests_append, hrequests, hrequest]
  · rw [hlog, served_append, Bridge.calls_append, hcalls, List.map_append]
    cases e.bind Event.call? <;> rfl

variable {db : Option Db} {l : List Action} {q : Logged}

/-- **A run of the assembly is a run of the bridge.** -/
theorem exists_bridge_run {n : Nat}
    (hrun : runSteps (withLog (step overflow eng)) (start db, []) l = some q)
    (hlen : WritesAtMost n l) : ∃ l' p,
      (∀ request, Bridge.Action.clientWrite request ∈ l' → request.length ≤ n) ∧
      runSteps (withLog (Bridge.step overflow)) (Bridge.State.init, []) l' = some p ∧
      OnBridge q p := by
  obtain ⟨l', p, hQ, hp, hR⟩ := (simulates_bridge n).exists_run (t := (Bridge.State.init, []))
    ⟨rfl, rfl, rfl⟩ (fun pre a post t hsplit _ request hmem => hlen request (by
      obtain rfl := List.mem_singleton.mp hmem
      simp [hsplit])) hrun
  exact ⟨l', p, fun request hmem => hQ.forall_mem hp _ hmem request rfl, hp, hR⟩

/-- The requests of a run are what its actions write. -/
theorem mem_of_mem_requests
    (hrun : runSteps (withLog (step overflow eng)) (start db, []) l = some q) {request : Str}
    (h : request ∈ requests q.2) : .clientWrite request ∈ l := by
  refine runSteps_invariant (P := fun _ _ _ => True)
    (I := fun pre q => ∀ request ∈ requests q.2, Action.clientWrite request ∈ pre)
    (fun _ hmem => absurd hmem List.not_mem_nil) ?_
    (fun _ _ _ _ _ _ => trivial) hrun request h
  intro pre q a q' _ ih _ hs request hmem
  obtain ⟨e, hstep, hlog⟩ := withLog_eq_some.mp hs
  rw [hlog, requests_append, List.mem_append] at hmem
  rcases hmem with hmem | hmem
  · exact List.mem_append_left _ (ih request hmem)
  · rw [action_of_request? hstep (Option.mem_toList.mp hmem)]
    exact List.mem_append_right _ (List.mem_singleton_self _)

end Assembly

end Parts

end BankSel4.System
