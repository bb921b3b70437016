import BankSel4.Bridge.Protocol

/-!
# The steps of the two loops

`Step overflow s a call s'` lists what each step needs and does; it is `step` (`step_eq_some`).
-/

namespace BankSel4.Bridge

open Gateway

/-- The action `a` takes `s` to `s'`, and makes the call. -/
inductive Step (overflow : Int → Int32) (s : State) : Action → Option Call → State → Prop where
  | clientWrite (request : Str) (hclient : s.client = .input) (hnul : NoNul request)
      (hlen : request.length < 512) : Step overflow s (.clientWrite request) none { s with
        slot := ⟨request, .request s.writes, true⟩, client := .written, writes := s.writes + 1 }
  | clientEmit (hclient : s.client = .written) :
      Step overflow s .clientEmit none { s with dataReady := true, client := .waiting }
  | clientRead (hclient : s.client = .waiting) :
      Step overflow s .clientRead none { s with client := .input }
  | gatewayWait (hgateway : s.gateway = .waiting) (hready : s.dataReady = true) :
      Step overflow s .gatewayWait none { s with dataReady := false, gateway := .woken }
  | gatewayRead (prev : Mem 512) (hgateway : s.gateway = .woken) :
      Step overflow s (.gatewayRead prev) none { s with
        slot := ⟨s.slot.text, s.slot.origin, false⟩
        gateway := .loaded (localBuf prev s.slot.text) s.slot.origin }
  | gatewayDispatch (result : Int32) (buf : Str) (origin : Origin) (reply : Str)
      (call : Option Call) (hgateway : s.gateway = .loaded buf origin)
      (hdispatch : dispatch overflow buf result = some (reply, call)) :
      Step overflow s (.gatewayDispatch result) call { s with gateway := .answered reply origin }
  | gatewayWrite (reply : Str) (origin : Origin) (hgateway : s.gateway = .answered reply origin) :
      Step overflow s .gatewayWrite none { s with
        slot := ⟨reply, .reply origin, false⟩, gateway := .waiting }

theorem step_eq_some {overflow : Int → Int32} {s s' : State} {a : Action} {call : Option Call}
    (h : step overflow s a = some (s', call)) : Step overflow s a call s' := by
  cases a with
  | clientWrite request =>
    obtain ⟨⟨hclient, hnul, hlen⟩, heq⟩ := Option.ite_none_right_eq_some.mp h
    obtain ⟨rfl, rfl⟩ := Prod.mk.inj (Option.some.inj heq)
    exact .clientWrite request hclient hnul hlen
  | clientEmit =>
    obtain ⟨hclient, heq⟩ := Option.ite_none_right_eq_some.mp h
    obtain ⟨rfl, rfl⟩ := Prod.mk.inj (Option.some.inj heq)
    exact .clientEmit hclient
  | clientRead =>
    obtain ⟨hclient, heq⟩ := Option.ite_none_right_eq_some.mp h
    obtain ⟨rfl, rfl⟩ := Prod.mk.inj (Option.some.inj heq)
    exact .clientRead hclient
  | gatewayWait =>
    obtain ⟨⟨hgateway, hready⟩, heq⟩ := Option.ite_none_right_eq_some.mp h
    obtain ⟨rfl, rfl⟩ := Prod.mk.inj (Option.some.inj heq)
    exact .gatewayWait hgateway hready
  | gatewayRead prev =>
    obtain ⟨hgateway, heq⟩ := Option.ite_none_right_eq_some.mp h
    obtain ⟨rfl, rfl⟩ := Prod.mk.inj (Option.some.inj heq)
    exact .gatewayRead prev hgateway
  | gatewayDispatch result =>
    cases hgateway : s.gateway with
    | waiting => simp [step, hgateway] at h
    | woken => simp [step, hgateway] at h
    | answered reply origin => simp [step, hgateway] at h
    | loaded buf origin =>
      simp only [step, hgateway] at h
      obtain ⟨⟨reply, call'⟩, hdispatch, heq⟩ := Option.map_eq_some_iff.mp h
      obtain ⟨rfl, rfl⟩ := Prod.mk.inj heq
      exact .gatewayDispatch result buf origin reply call' hgateway hdispatch
  | gatewayWrite =>
    cases hgateway : s.gateway with
    | waiting => simp [step, hgateway] at h
    | woken => simp [step, hgateway] at h
    | loaded buf origin => simp [step, hgateway] at h
    | answered reply origin =>
      simp only [step, hgateway] at h
      obtain ⟨rfl, rfl⟩ := Prod.mk.inj (Option.some.inj h)
      exact .gatewayWrite reply origin hgateway

theorem next_eq_some {overflow : Int → Int32} {s s' : State} {a : Action}
    (h : next overflow s a = some s') : ∃ call, Step overflow s a call s' := by
  obtain ⟨⟨t, call⟩, ht, rfl⟩ := Option.map_eq_some_iff.mp h
  exact ⟨call, step_eq_some ht⟩

end BankSel4.Bridge
