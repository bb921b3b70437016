import BankSel4.Algorithm.Run
import BankSel4.Bridge.Equiv.Steps
import BankSel4.Gateway.Equiv.Parse
import Mathlib.Order.Fin.Basic

/-!
# No request is executed twice

The gateway reads a request at most once, for it replaces the string it has read before it reads
again.  What it finds when it is woken without a new request is its own reply, or the empty slot,
and these lead to no call (`parse_of_isReply`).

`Once` is the invariant: the calls made so far are numbered by an increasing list of requests that
ask for them, and the requests that can still be read are newer.  `calls_once` is what it gives: the
calls of a run map to the requests written, in order.
-/

namespace BankSel4.Bridge

open Gateway

/-- The request that the action writes. -/
def Action.request? : Action → Option Str
  | .clientWrite request => some request
  | _ => none

/-- The requests written. -/
def requests (log : List (Action × Option Call)) : List Str := log.filterMap fun x => x.1.request?

/-- The calls made by the gateway. -/
def calls (log : List (Action × Option Call)) : List Call := log.filterMap Prod.snd

section Once

variable {overflow : Int → Int32}

/-- As a request, the text leads to no call. -/
def Quiet (overflow : Int → Int32) (text : Str) : Prop :=
  ∀ prev c, parse overflow (localBuf prev text) ≠ .ok (.call c)

theorem quiet_nil : Quiet overflow [] := by
  intro prev c
  rw [parse_localBuf (by decide) (by decide)]
  exact refuse_ne_call _ _ c

/-- The `n`-th request asks for the call. -/
def Asks (overflow : Int → Int32) (reqs : List Str) (n : Nat) (c : Call) : Prop :=
  ∃ request, reqs[n]? = some request ∧ askedCall overflow request = some c

theorem Asks.append {reqs : List Str} {n : Nat} {c : Call} (h : Asks overflow reqs n c)
    (reqs' : List Str) : Asks overflow (reqs ++ reqs') n c := by
  obtain ⟨request, hrequest, hasked⟩ := h
  refine ⟨request, ?_, hasked⟩
  rw [List.getElem?_append_left (List.getElem?_eq_some_iff.mp hrequest).1, hrequest]

/-! ### The invariant -/

/-- The requests `idx` ask for the calls, in order, and what the gateway can still read is newer. -/
structure Once (overflow : Int → Int32) (s : State) (reqs : List Str) (cs : List Call)
    (idx : List Nat) : Prop where
  writes_eq : s.writes = reqs.length
  reqs_fit : ∀ request ∈ reqs, NoNul request ∧ request.length ≤ 510
  increasing : idx.Pairwise (· < ·)
  asks : List.Forall₂ (Asks overflow reqs) idx cs
  lt_length : ∀ i ∈ idx, i < reqs.length
  slot_request : ∀ n, s.slot.origin = .request n → reqs[n]? = some s.slot.text
  slot_quiet : (∀ n, s.slot.origin ≠ .request n) → Quiet overflow s.slot.text
  newer : s.gateway = .waiting ∨ s.gateway = .woken →
    ∀ n, s.slot.origin = .request n → ∀ i ∈ idx, i < n
  loaded : ∀ buf n, s.gateway = .loaded buf (.request n) →
    (∀ i ∈ idx, i < n) ∧ ∃ prev request, reqs[n]? = some request ∧ buf = localBuf prev request
  loaded_quiet : ∀ buf o, s.gateway = .loaded buf o → (∀ n, o ≠ .request n) →
    ∀ c, parse overflow buf ≠ .ok (.call c)
  answered : ∀ reply o, s.gateway = .answered reply o → IsReply reply

theorem once_init : Once overflow State.init [] [] [] where
  writes_eq := rfl
  reqs_fit := by simp
  increasing := .nil
  asks := .nil
  lt_length := by simp
  slot_request _ h := by cases h
  slot_quiet _ := quiet_nil
  newer _ _ h := by cases h
  loaded _ _ h := by cases h
  loaded_quiet _ _ h := by cases h
  answered _ _ h := by cases h

theorem isReply_dispatch {buf reply : Str} {result : Int32} {call : Option Call}
    (h : dispatch overflow buf result = some (reply, call)) : IsReply reply := by
  unfold dispatch at h
  split at h
  · cases h
  · rename_i text hparse
    obtain ⟨rfl, -⟩ := Prod.mk.inj (Option.some.inj h)
    exact isReply_parse hparse
  · rename_i c hparse
    obtain ⟨text, htext, heq⟩ := Option.map_eq_some_iff.mp h
    obtain ⟨rfl, -⟩ := Prod.mk.inj heq
    exact isReply_replyTo (toOption_eq_some.mp htext)

theorem parse_of_dispatch {buf reply : Str} {result : Int32} {c : Call}
    (h : dispatch overflow buf result = some (reply, some c)) :
    parse overflow buf = .ok (.call c) := by
  unfold dispatch at h
  split at h
  · cases h
  · cases h
  · rename_i c' hparse
    obtain ⟨text, -, heq⟩ := Option.map_eq_some_iff.mp h
    obtain ⟨-, hcall⟩ := Prod.mk.inj heq
    rw [hparse, Option.some.inj hcall]

section Steps

variable {s s' : State} {reqs : List Str} {cs : List Call} {idx : List Nat}

/-- A write of the client adds a request, which is newer than those called for. -/
theorem Once.clientWrite (h : Once overflow s reqs cs idx) {request : Str} (hnul : NoNul request)
    (hlen : request.length ≤ 510) : Once overflow { s with
      slot := ⟨request, .request s.writes, true⟩, client := .written, writes := s.writes + 1 }
      (reqs ++ [request]) cs idx where
  writes_eq := by rw [List.length_append, ← h.writes_eq]; rfl
  reqs_fit := by
    intro r hr
    rcases List.mem_append.mp hr with hr | hr
    · exact h.reqs_fit r hr
    · rw [List.mem_singleton.mp hr]
      exact ⟨hnul, hlen⟩
  increasing := h.increasing
  asks := h.asks.imp fun _ _ hask => hask.append [request]
  lt_length i hi := by
    have := h.lt_length i hi
    rw [List.length_append]
    omega
  slot_request n hn := by
    obtain rfl := Origin.request.inj hn
    rw [h.writes_eq, List.getElem?_concat_length]
  slot_quiet hno := absurd rfl (hno s.writes)
  newer _ n hn i hi := by
    obtain rfl := Origin.request.inj hn
    exact h.writes_eq ▸ h.lt_length i hi
  loaded buf n hloaded := by
    obtain ⟨hidx, prev, r, hr, hbuf⟩ := h.loaded buf n hloaded
    refine ⟨hidx, prev, r, ?_, hbuf⟩
    rw [List.getElem?_append_left (List.getElem?_eq_some_iff.mp hr).1, hr]
  loaded_quiet := h.loaded_quiet
  answered := h.answered

/-- The gateway reads a request that it has not called for, or a text that leads to no call. -/
theorem Once.gatewayRead (h : Once overflow s reqs cs idx) (hgateway : s.gateway = .woken)
    (prev : Mem 512) : Once overflow { s with
      slot := ⟨s.slot.text, s.slot.origin, false⟩
      gateway := .loaded (localBuf prev s.slot.text) s.slot.origin } reqs cs idx where
  __ := h
  newer hgw := by
    rcases hgw with hgw | hgw <;> cases hgw
  loaded buf n hloaded := by
    obtain ⟨rfl, horigin⟩ := GatewayPc.loaded.inj hloaded
    exact ⟨h.newer (Or.inr hgateway) n horigin, prev, s.slot.text, h.slot_request n horigin, rfl⟩
  loaded_quiet buf o hloaded hno := by
    obtain ⟨rfl, rfl⟩ := GatewayPc.loaded.inj hloaded
    exact h.slot_quiet hno prev
  answered _ _ hgw := by cases hgw

/-- The gateway calls for the request that it has read, if at all. -/
theorem Once.gatewayDispatch (h : Once overflow s reqs cs idx) {buf reply : Str} {origin : Origin}
    {result : Int32} {call : Option Call} (hgateway : s.gateway = .loaded buf origin)
    (hdispatch : dispatch overflow buf result = some (reply, call)) :
    ∃ idx', Once overflow { s with gateway := .answered reply origin } reqs
      (cs ++ call.toList) idx' := by
  have hframe : ∀ idx' cs', idx'.Pairwise (· < ·) → List.Forall₂ (Asks overflow reqs) idx' cs' →
      (∀ i ∈ idx', i < reqs.length) →
      Once overflow { s with gateway := .answered reply origin } reqs cs' idx' := by
    refine fun idx' cs' hinc hasks hlt => ⟨h.writes_eq, h.reqs_fit, hinc, hasks, hlt,
      h.slot_request, h.slot_quiet, ?_, ?_, ?_, ?_⟩
    · rintro (hgw | hgw) <;> cases hgw
    · exact fun _ _ hgw => nomatch hgw
    · exact fun _ _ hgw => nomatch hgw
    · intro reply' o hgw
      obtain ⟨rfl, -⟩ := GatewayPc.answered.inj hgw
      exact isReply_dispatch hdispatch
  cases call with
  | none =>
    rw [Option.toList_none, List.append_nil]
    exact ⟨idx, hframe idx cs h.increasing h.asks h.lt_length⟩
  | some c =>
    have hparse := parse_of_dispatch hdispatch
    -- a request leads to its own call, and what is no request to none
    by_cases horigin : ∃ n, origin = .request n
    · obtain ⟨n, rfl⟩ := horigin
      obtain ⟨hidx, prev, request, hrequest, hbuf⟩ := h.loaded buf n hgateway
      obtain ⟨hnul, hlen⟩ := h.reqs_fit request (List.mem_of_getElem? hrequest)
      have hasks : Asks overflow reqs n c := by
        rw [hbuf, parse_localBuf hnul hlen] at hparse
        exact ⟨request, hrequest, by rw [askedCall, hparse]⟩
      refine ⟨idx ++ [n], hframe _ _ ?_ (List.rel_append h.asks (.cons hasks .nil)) ?_⟩
      · rw [List.pairwise_append]
        refine ⟨h.increasing, List.pairwise_singleton _ _, fun i hi j hj => ?_⟩
        rw [List.mem_singleton.mp hj]
        exact hidx i hi
      · intro i hi
        rcases List.mem_append.mp hi with hi | hi
        · exact h.lt_length i hi
        · rw [List.mem_singleton.mp hi]
          exact (List.getElem?_eq_some_iff.mp hrequest).1
    · exact absurd hparse (h.loaded_quiet buf origin hgateway (not_exists.mp horigin) c)

/-- The reply that the gateway writes leads to no call. -/
theorem Once.gatewayWrite (h : Once overflow s reqs cs idx) {reply : Str} {origin : Origin}
    (hgateway : s.gateway = .answered reply origin) : Once overflow { s with
      slot := ⟨reply, .reply origin, false⟩, gateway := .waiting } reqs cs idx where
  __ := h
  slot_request _ hn := nomatch hn
  slot_quiet _ := parse_of_isReply (h.answered reply origin hgateway)
  newer _ _ hn := nomatch hn
  loaded _ _ hgw := nomatch hgw
  loaded_quiet _ _ hgw := nomatch hgw
  answered _ _ hgw := nomatch hgw

/-- The step: every action keeps the invariant, with the request it writes and the call it makes. -/
theorem once_step (h : Once overflow s reqs cs idx) {a : Action} {call : Option Call}
    (hlen : ∀ request, a = .clientWrite request → request.length ≤ 510)
    (hs : Step overflow s a call s') :
    ∃ idx', Once overflow s' (reqs ++ a.request?.toList) (cs ++ call.toList) idx' := by
  cases hs with
  | clientWrite request hclient hnul =>
    rw [Option.toList_none, List.append_nil]
    exact ⟨idx, h.clientWrite hnul (hlen request rfl)⟩
  | clientEmit | clientRead =>
    simp only [Action.request?, Option.toList_none, List.append_nil]
    exact ⟨idx, { h with }⟩
  | gatewayWait hgateway hready =>
    simp only [Action.request?, Option.toList_none, List.append_nil]
    refine ⟨idx, { h with
      newer := fun _ => h.newer (Or.inl hgateway)
      loaded := ?_
      loaded_quiet := ?_
      answered := ?_ }⟩
    · exact fun _ _ hgw => nomatch hgw
    · exact fun _ _ hgw => nomatch hgw
    · exact fun _ _ hgw => nomatch hgw
  | gatewayRead prev hgateway =>
    simp only [Action.request?, Option.toList_none, List.append_nil]
    exact ⟨idx, h.gatewayRead hgateway prev⟩
  | gatewayDispatch result buf origin reply call hgateway hdispatch =>
    simp only [Action.request?, Option.toList_none, List.append_nil]
    exact h.gatewayDispatch hgateway hdispatch
  | gatewayWrite reply origin hgateway =>
    simp only [Action.request?, Option.toList_none, List.append_nil]
    exact ⟨idx, h.gatewayWrite hgateway⟩

end Steps

/-! ### Runs -/

theorem requests_append (log : List (Action × Option Call)) (x : Action × Option Call) :
    requests (log ++ [x]) = requests log ++ x.1.request?.toList := by
  rw [requests, List.filterMap_append]
  cases h : x.1.request? <;> simp [requests, h]

theorem calls_append (log : List (Action × Option Call)) (x : Action × Option Call) :
    calls (log ++ [x]) = calls log ++ x.2.toList := by
  rw [calls, List.filterMap_append]
  cases h : x.2 <;> simp [calls, h]

section Runs

variable {l : List Action} {p : State × List (Action × Option Call)}

theorem once_run (hrun : runSteps (withLog (step overflow)) (State.init, []) l = some p)
    (hlen : ∀ request, .clientWrite request ∈ l → request.length ≤ 510) :
    ∃ idx, Once overflow p.1 (requests p.2) (calls p.2) idx := by
  refine runSteps_invariant
    (P := fun _ _ a => ∀ request, a = .clientWrite request → request.length ≤ 510)
    (I := fun _ p => ∃ idx, Once overflow p.1 (requests p.2) (calls p.2) idx)
    ⟨[], once_init⟩ ?_ ?_ hrun
  · rintro - p a q - ⟨idx, h⟩ hfits hs
    obtain ⟨call, hstep, hlog⟩ := withLog_eq_some.mp hs
    rw [hlog, requests_append, calls_append]
    exact once_step h hfits (step_eq_some hstep)
  · rintro pre a post t rfl - request rfl
    exact hlen request (by simp)

/-- **No request is executed twice**: the calls of the gateway map injectively, in order, to the
requests that the client has written, and each is the call that its request asks for.  What is no
request leads to no call. -/
theorem calls_once (hrun : runSteps (withLog (step overflow)) (State.init, []) l = some p)
    (hlen : ∀ request, .clientWrite request ∈ l → request.length ≤ 510) :
    (∃ f : Fin (calls p.2).length → Fin (requests p.2).length, StrictMono f ∧
      ∀ i, askedCall overflow ((requests p.2).get (f i)) = some ((calls p.2).get i)) ∧
    ∀ buf origin result q call, p.1.gateway = .loaded buf origin →
      (∀ n, origin ≠ .request n) → step overflow p.1 (.gatewayDispatch result) = some (q, call) →
      call = none := by
  -- the list of the invariant is the map
  obtain ⟨idx, h⟩ := once_run hrun hlen
  constructor
  · have hlength : idx.length = (calls p.2).length := h.asks.length_eq
    refine ⟨fun i => ⟨idx.get (i.cast hlength.symm), h.lt_length _ (List.get_mem ..)⟩, ?_, ?_⟩
    · intro i j hij
      exact List.pairwise_iff_get.mp h.increasing _ _ hij
    · intro i
      obtain ⟨request, hrequest, hasked⟩ := (List.forall₂_iff_get.mp h.asks).2 i
        (by omega) i.isLt
      rw [← hasked]
      congr 1
      exact (List.getElem?_eq_some_iff.mp hrequest).2
  · intro buf origin result q call hgateway horigin hs
    cases step_eq_some hs with
    | gatewayDispatch _ buf' origin' reply _ hgateway' hdispatch =>
      obtain ⟨rfl, rfl⟩ := GatewayPc.loaded.inj (hgateway.symm.trans hgateway')
      cases call with
      | none => rfl
      | some c =>
        exact absurd (parse_of_dispatch hdispatch) (h.loaded_quiet buf origin hgateway horigin c)

end Runs

end Once

/-- The gateway is woken by the signal of a request that it has served before: it reads its own
reply. -/
def staleRun : List Action :=
  [.clientWrite mockData, .clientEmit, .gatewayWait, .clientRead, .clientWrite mockData,
    .gatewayRead Mem.zero, .gatewayDispatch 0, .clientEmit, .gatewayWrite, .gatewayWait,
    .gatewayRead Mem.zero]

theorem calls_once_staleRun : ∃ p,
    runSteps (withLog (step Int32.ofInt)) (State.init, []) staleRun = some p ∧
    (∃ f : Fin (calls p.2).length → Fin (requests p.2).length, StrictMono f ∧
      ∀ i, askedCall Int32.ofInt ((requests p.2).get (f i)) = some ((calls p.2).get i)) ∧
    ∀ buf origin result q call, p.1.gateway = .loaded buf origin →
      (∀ n, origin ≠ .request n) → step Int32.ofInt p.1 (.gatewayDispatch result) = some (q, call) →
      call = none := by
  have hsome : (runSteps (withLog (step Int32.ofInt)) (State.init, []) staleRun).isSome = true := by
    decide +kernel
  obtain ⟨p, hrun⟩ := Option.isSome_iff_exists.mp hsome
  refine ⟨p, hrun, calls_once hrun fun request hmem => ?_⟩
  obtain rfl : request = mockData := by simpa [staleRun] using hmem
  decide

end BankSel4.Bridge
