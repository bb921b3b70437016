import BankSel4.Bridge.Equiv.Delivery
import BankSel4.Ledger.Equiv.Runs
import BankSel4.System.Equiv.Assembly

/-!
# The assembly as a service

`serve` is what the bank is for: a request is taken and answered at once, by the servers as they
are.  While the client reads only at rest, the two loops and the dataport between them are no more
than this (`refines_serve`): the requests are served in the order in which they are written, each
once, and every response is the reply to its request.  And they are no less: what the service can
serve the loops can (`exists_round_run`).
-/

namespace BankSel4.System

open Sql Gateway Bridge

section Service

variable (overflow : Int → Int32) (eng : Engine)

/-- A request with the statements that fail in its call, and its reply. -/
def serve (servers : State) (x : Str × (Nat → Nat → Bool)) : Option (State × Str) :=
  (answer overflow eng x.2 servers (localBuf Mem.zero x.1)).map fun r => (r.servers, r.reply)

end Service

/-- The response of an event. -/
def Event.response? : Event → Option Str
  | .responded response => some response
  | _ => none

/-- The statements that fail in a call of the gateway are as `F` has them. -/
def Action.FailsIn (F : (Nat → Nat → Bool) → Prop) : Action → Prop
  | .gatewayDispatch fails => F fails
  | _ => True

namespace Assembly

/-- The responses that the client has read. -/
def responses (log : List (Action × Option Event)) : List Str :=
  log.filterMap fun x => x.2.bind Event.response?

/-- The client reads only while the gateway waits and no signal is pending. -/
def ReadsAtRest (q : Logged) : Action → Prop
  | .clientRead => q.1.bridge.gateway = .waiting ∧ q.1.bridge.dataReady = false
  | _ => True

instance (q : Logged) (a : Action) : Decidable (ReadsAtRest q a) :=
  match a with
  | .clientRead => inferInstanceAs (Decidable (_ ∧ _))
  | .clientWrite _ | .clientEmit | .gatewayWait | .gatewayRead _ | .gatewayDispatch _
  | .gatewayWrite => inferInstanceAs (Decidable True)

section Steps

variable {overflow : Int → Int32} {eng : Engine} {s s' : Assembly} {a : Action} {e : Option Event}

theorem responses_append (log : List (Action × Option Event)) (x : Action × Option Event) :
    responses (log ++ [x]) = responses log ++ (x.2.bind Event.response?).toList := by
  rw [responses, List.filterMap_append]
  cases h : x.2.bind Event.response? <;> simp [responses, h]

/-- The client reads what is in the dataport. -/
theorem response_of_clientRead (h : s.step overflow eng .clientRead = some (s', e)) :
    e.bind Event.response? = some s.bridge.slot.text := by
  obtain ⟨r, -, heq⟩ := Option.map_eq_some_iff.mp h
  rw [← (Prod.mk.inj heq).2]
  rfl

/-- No other step gives a response. -/
theorem response_eq_none (ha : a ≠ .clientRead) (h : s.step overflow eng a = some (s', e)) :
    e.bind Event.response? = none := by
  cases a with
  | clientRead => exact absurd rfl ha
  | gatewayDispatch fails =>
    obtain ⟨buf, origin, r, -, -, -, rfl⟩ := step_dispatch h
    cases r.call <;> rfl
  | _ =>
    obtain ⟨r, -, heq⟩ := Option.map_eq_some_iff.mp h
    rw [← (Prod.mk.inj heq).2]
    rfl

end Steps

end Assembly

section Refinement

variable {overflow : Int → Int32} {eng : Engine}

/-- What was in `local_buf` before does not matter to the answer. -/
theorem answer_localBuf {request : Str} (hnul : NoNul request) (hlen : request.length ≤ 510)
    (fails : Nat → Nat → Bool) (servers : State) (prev prev' : Mem 512) :
    answer overflow eng fails servers (localBuf prev request) =
      answer overflow eng fails servers (localBuf prev' request) := by
  unfold answer
  rw [parse_localBuf hnul hlen, parse_localBuf hnul hlen]

/-- The request that is not served yet, while `text` is in the dataport. -/
def asked (text : Str) : Phase → List Str
  | .written | .signalled | .woken | .loaded _ => [text]
  | .idle | .answered _ | .replied => []

/-- The reply that is not read yet, while `text` is in the dataport. -/
def unread (text : Str) : Phase → List Str
  | .answered reply => [reply]
  | .replied => [text]
  | .idle | .written | .signalled | .woken | .loaded _ => []

namespace Assembly

/-- The service has served the requests of a run but for the last, and its replies are read but for
the last. -/
structure Serving (q : Logged) (p : State × List ((Str × (Nat → Nat → Bool)) × Str)) (n : Nat)
    (ph : Phase) : Prop where
  phase : ph.Holds n q.1.bridge
  servers_eq : p.1 = q.1.servers
  requests_eq : requests q.2 = p.2.map (fun x => x.1.1) ++ asked q.1.bridge.slot.text ph
  replies_eq : p.2.map Prod.snd = responses q.2 ++ unread q.1.bridge.slot.text ph
  fits : ∀ request ∈ asked q.1.bridge.slot.text ph, NoNul request ∧ request.length ≤ 510
  loaded : ∀ buf, ph = .loaded buf → ∃ prev, buf = localBuf prev q.1.bridge.slot.text

section Serving

variable {q q' : Logged} {p : State × List ((Str × (Nat → Nat → Bool)) × Str)} {n : Nat}
  {ph : Phase} {e : Option Event}

/-- A loop takes a step of the bridge. -/
theorem exists_bridge_of_loop {a : Action} {b : Bridge.Action} (hb : loopAction a = some b)
    (hs : withLog (step overflow eng) q a = some q') :
    ∃ call t, Bridge.Step overflow q.1.bridge b call t ∧ q'.1.bridge = t := by
  obtain ⟨e, hstep, -⟩ := withLog_eq_some.mp hs
  obtain ⟨-, -, -, call, hbridge⟩ := step_loop hb hstep
  exact ⟨call, _, Bridge.step_eq_some hbridge, rfl⟩

/-- A step in which the service rests: the requests and the responses stay as they are. -/
theorem Serving.of_loop {a : Action} {b : Bridge.Action} (hb : loopAction a = some b)
    (h : Serving q p n ph) {ph' : Phase} (hs : withLog (step overflow eng) q a = some q')
    (hph' : ph'.Holds n q'.1.bridge) (hrequest : b.request? = none) (hresponse : a ≠ .clientRead)
    (hasked : asked q'.1.bridge.slot.text ph' = asked q.1.bridge.slot.text ph)
    (hunread : unread q'.1.bridge.slot.text ph' = unread q.1.bridge.slot.text ph)
    (hloaded : ∀ buf, ph' = .loaded buf → ∃ prev, buf = localBuf prev q'.1.bridge.slot.text) :
    Serving q' p n ph' := by
  obtain ⟨e, hstep, hlog⟩ := withLog_eq_some.mp hs
  obtain ⟨hservers, -, hb', -⟩ := step_loop hb hstep
  refine ⟨hph', h.servers_eq.trans hservers.symm, ?_, ?_, hasked ▸ h.fits, hloaded⟩
  · rw [hlog, requests_append, hb', hrequest, h.requests_eq, hasked]
    exact List.append_nil _
  · rw [hlog, responses_append, response_eq_none hresponse hstep, h.replies_eq, hunread]
    exact congrArg (· ++ _) (List.append_nil _).symm

theorem Serving.clientWrite {request : Str} (hlen : request.length ≤ 510)
    (h : Serving q p n ph)
    (hs : withLog (step overflow eng) q (.clientWrite request) = some q') :
    Serving q' p q.1.bridge.writes .written := by
  obtain ⟨e, hstep, hlog⟩ := withLog_eq_some.mp hs
  obtain ⟨hservers, -, hrequest, -⟩ := step_loop rfl hstep
  have hresponse := response_eq_none (by simp) hstep
  have hphase := h.phase
  obtain ⟨call, t, hbridge, hb'⟩ := exists_bridge_of_loop rfl hs
  cases hbridge with
  | clientWrite _ hclient hnul _ =>
    obtain rfl : ph = .idle := by cases ph <;> simp_all [Phase.Holds]
    obtain ⟨-, hgateway, hready, -⟩ := hphase
    refine ⟨?_, h.servers_eq.trans hservers.symm, ?_, ?_, ?_, by simp⟩
    · rw [hb']
      exact ⟨rfl, hgateway, hready, rfl, rfl⟩
    · rw [hlog, requests_append, hrequest, h.requests_eq, hb']
      simp [asked, Action.request?]
    · rw [hlog, responses_append, hresponse, h.replies_eq]
      simp [unread]
    · rw [hb']
      intro r hr
      rw [List.mem_singleton.mp hr]
      exact ⟨hnul, hlen⟩

theorem Serving.clientRead (h : Serving q p n ph) (hrest : ReadsAtRest q .clientRead)
    (hs : withLog (step overflow eng) q .clientRead = some q') : Serving q' p n .idle := by
  obtain ⟨e, hstep, hlog⟩ := withLog_eq_some.mp hs
  obtain ⟨hservers, -, hrequest, -⟩ := step_loop rfl hstep
  have hresponse := response_of_clientRead hstep
  have hphase := h.phase
  obtain ⟨hgateway, hready⟩ := hrest
  obtain ⟨call, t, hbridge, hb'⟩ := exists_bridge_of_loop rfl hs
  cases hbridge with
  | clientRead hclient =>
    -- at rest, what the client reads is the reply
    obtain rfl : ph = .replied := by cases ph <;> simp_all [Phase.Holds]
    obtain ⟨-, -, -, -, -, hunread⟩ := hphase
    refine ⟨?_, h.servers_eq.trans hservers.symm, ?_, ?_, List.forall_mem_nil _, by simp⟩
    · rw [hb']
      exact ⟨rfl, hgateway, hready, hunread⟩
    · rw [hlog, requests_append, hrequest, h.requests_eq]
      simp [asked, Action.request?]
    · rw [hlog, responses_append, hresponse, h.replies_eq]
      simp [unread]

/-- The signal, the wake-up, the copy and the write of the reply take the phase to the next. -/
theorem Serving.rest (h : Serving q p n ph) {a : Action} {b : Bridge.Action}
    (hb : loopAction a = some b) (hrequest : b.request? = none) (hresponse : a ≠ .clientRead)
    (hs : withLog (step overflow eng) q a = some q') : ∃ ph', Serving q' p n ph' := by
  have hphase := h.phase
  obtain ⟨call, t, hbridge, hb'⟩ := exists_bridge_of_loop hb hs
  cases hbridge with
  | clientWrite => cases hrequest
  | clientRead => cases a <;> simp_all [loopAction]
  | gatewayDispatch => cases a <;> simp [loopAction] at hb
  | clientEmit hclient =>
    obtain rfl : ph = .written := by cases ph <;> simp_all [Phase.Holds]
    obtain ⟨-, hgateway, -, hwrites, horigin⟩ := hphase
    refine ⟨.signalled, h.of_loop hb hs ?_ hrequest hresponse ?_ ?_ (by simp)⟩
    · rw [hb']
      exact ⟨rfl, hgateway, rfl, hwrites, horigin⟩
    · rw [hb']
      rfl
    · rw [hb']
      rfl
  | gatewayWait hgateway hready =>
    obtain rfl : ph = .signalled := by cases ph <;> simp_all [Phase.Holds]
    obtain ⟨hclient, -, -, hwrites, horigin⟩ := hphase
    refine ⟨.woken, h.of_loop hb hs ?_ hrequest hresponse ?_ ?_ (by simp)⟩
    · rw [hb']
      exact ⟨hclient, rfl, rfl, hwrites, horigin⟩
    · rw [hb']
      rfl
    · rw [hb']
      rfl
  | gatewayRead prev hgateway =>
    obtain rfl : ph = .woken := by cases ph <;> simp_all [Phase.Holds]
    obtain ⟨hclient, -, hready, hwrites, horigin⟩ := hphase
    refine ⟨.loaded (localBuf prev q.1.bridge.slot.text),
      h.of_loop hb hs ?_ hrequest hresponse ?_ ?_ ?_⟩
    · rw [hb']
      exact ⟨hclient, congrArg (GatewayPc.loaded _) horigin, hready, hwrites, horigin, rfl⟩
    · rw [hb']
      rfl
    · rw [hb']
      rfl
    · intro buf hbuf
      rw [hb', ← Phase.loaded.inj hbuf]
      exact ⟨prev, rfl⟩
  | gatewayWrite reply origin hgateway =>
    obtain rfl : ph = .answered reply := by cases ph <;> simp_all [Phase.Holds]
    obtain ⟨hclient, hanswered, hready, hwrites, -, -⟩ := hphase
    obtain ⟨-, rfl⟩ := GatewayPc.answered.inj (hgateway.symm.trans hanswered)
    refine ⟨.replied, h.of_loop hb hs ?_ hrequest hresponse ?_ ?_ (by simp)⟩
    · rw [hb']
      exact ⟨hclient, rfl, hready, hwrites, rfl, rfl⟩
    · rw [hb']
      rfl
    · rw [hb']
      rfl

/-- The service answers the request when the gateway does. -/
theorem Serving.gatewayDispatch (h : Serving q p n ph) {fails : Nat → Nat → Bool}
    (hs : withLog (step overflow eng) q (.gatewayDispatch fails) = some q') :
    ∃ request p' reply, withLog (serve overflow eng) p (request, fails) = some p' ∧
      Serving q' p' n (.answered reply) := by
  obtain ⟨e, hstep, hlog⟩ := withLog_eq_some.mp hs
  obtain ⟨buf, origin, r, hgateway, hanswer, hq', he⟩ := step_dispatch hstep
  have hphase := h.phase
  obtain rfl : ph = .loaded buf := by cases ph <;> simp_all [Phase.Holds]
  obtain ⟨hclient, hloaded, hready, hwrites, horigin, hunread⟩ := hphase
  obtain ⟨-, rfl⟩ := GatewayPc.loaded.inj (hgateway.symm.trans hloaded)
  obtain ⟨prev, hbuf⟩ := h.loaded buf rfl
  obtain ⟨hnul, hlen⟩ := h.fits _ (List.mem_singleton_self _)
  rw [hbuf, answer_localBuf hnul hlen fails q.1.servers prev Mem.zero] at hanswer
  have hserve : serve overflow eng p.1 (q.1.bridge.slot.text, fails) =
      some (r.servers, r.reply) := by
    rw [serve, h.servers_eq, hanswer]
    rfl
  refine ⟨_, _, r.reply, withLog_of_step hserve, ?_, ?_, ?_, ?_, List.forall_mem_nil _, by simp⟩
  · rw [hq']
    exact ⟨hclient, rfl, hready, hwrites, horigin, hunread⟩
  · rw [hq']
  · have hrequest : e.bind Event.request? = none := by rw [he]; cases r.call <;> rfl
    rw [hlog, requests_append, hrequest, h.requests_eq]
    simp [asked]
  · rw [hlog, responses_append, response_eq_none (by simp) hstep, List.map_append, h.replies_eq]
    simp [unread]

end Serving

/-- The guard of a step. -/
def InTurn (q : Logged) (a : Action) : Prop := WritesAtMost 510 [a] ∧ ReadsAtRest q a

/-- The service moves with the gateway's dispatch, in which the same statements fail, and rests in
every other step. -/
theorem simulates_serve (F : (Nat → Nat → Bool) → Prop) :
    Simulates (withLog (step overflow eng)) (withLog (serve overflow eng))
      (fun q a => InTurn q a ∧ a.FailsIn F) (fun _ x => F x.2)
      fun q p => ∃ n ph, Serving q p n ph := by
  rintro q p a q' ⟨n, ph, h⟩ ⟨⟨hfits, hrest⟩, hfails⟩ hs
  cases a with
  | clientWrite request =>
    exact .rest ⟨_, _, h.clientWrite (hfits request (List.mem_singleton_self _)) hs⟩
  | clientRead => exact .rest ⟨_, _, h.clientRead hrest hs⟩
  | gatewayDispatch fails =>
    obtain ⟨request, p', reply, hp', h'⟩ := h.gatewayDispatch hs
    exact .move (b := (request, fails)) hfails hp' ⟨_, _, h'⟩
  | _ =>
    obtain ⟨ph', h'⟩ := h.rest rfl rfl (by simp) hs
    exact .rest ⟨n, ph', h'⟩

/-- A run in which the client reads only at rest is a run of the service, in whose calls the same
statements fail. -/
theorem exists_serve_run_failsIn {F : (Nat → Nat → Bool) → Prop} {db : Option Db} {l : List Action}
    {q : Logged} (hrun : runSteps (withLog (step overflow eng)) (start db, []) l = some q)
    (hlen : WritesAtMost 510 l)
    (hrest : EveryStep (withLog (step overflow eng)) (fun _ => ReadsAtRest) (start db, []) l)
    (hfails : ∀ a ∈ l, a.FailsIn F) :
    ∃ l' p, runSteps (withLog (serve overflow eng)) (⟨Auth.State.init, db⟩, []) l' = some p ∧
      (∀ x ∈ l', F x.2) ∧ ∃ n ph, Serving q p n ph := by
  have h0 : Serving (start db, []) (⟨Auth.State.init, db⟩, []) 0 .idle :=
    ⟨⟨rfl, rfl, rfl, rfl⟩, rfl, rfl, rfl, nofun, nofun⟩
  have hguard : EveryStep (withLog (step overflow eng)) (fun _ q a => InTurn q a ∧ a.FailsIn F)
      (start db, []) l := by
    intro pre a post t hsplit ht
    refine ⟨⟨fun request hmem => hlen request ?_, hrest pre a post t hsplit ht⟩, hfails a ?_⟩
    · obtain rfl := List.mem_singleton.mp hmem
      simp [hsplit]
    · simp [hsplit]
  obtain ⟨l', p, hserved, hp, h⟩ := (simulates_serve F).exists_run ⟨0, .idle, h0⟩ hguard hrun
  exact ⟨l', p, hp, hserved.forall_mem hp, h⟩

/-- A run in which the client reads only at rest is a run of the service. -/
theorem exists_serve_run {db : Option Db} {l : List Action} {q : Logged}
    (hrun : runSteps (withLog (step overflow eng)) (start db, []) l = some q)
    (hlen : WritesAtMost 510 l)
    (hrest : EveryStep (withLog (step overflow eng)) (fun _ => ReadsAtRest) (start db, []) l) :
    ∃ l' p, runSteps (withLog (serve overflow eng)) (⟨Auth.State.init, db⟩, []) l' = some p ∧
      ∃ n ph, Serving q p n ph := by
  obtain ⟨l', p, hp, -, h⟩ := exists_serve_run_failsIn (F := fun _ => True) hrun hlen hrest
    fun a _ => by cases a <;> trivial
  exact ⟨l', p, hp, h⟩

/-- What the client has not read is one reply, or the request that is not served. -/
theorem Serving.length_le {q : Logged} {p : State × List ((Str × (Nat → Nat → Bool)) × Str)}
    {n : Nat} {ph : Phase} (h : Serving q p n ph) :
    (requests q.2).length ≤ (responses q.2).length + 1 := by
  have hlength := congrArg List.length h.replies_eq
  rw [List.length_map, List.length_append] at hlength
  rw [h.requests_eq, List.length_append, List.length_map, hlength]
  cases ph <;> simp [asked, unread]

/-- **The assembly refines the service.**  When the client reads only at rest, a run serves its
requests in the order in which they are written, each at most once and all but the last for sure,
and the responses are their replies. -/
theorem refines_serve {db : Option Db} {l : List Action} {q : Logged}
    (hrun : runSteps (withLog (step overflow eng)) (start db, []) l = some q)
    (hlen : WritesAtMost 510 l)
    (hrest : EveryStep (withLog (step overflow eng)) (fun _ => ReadsAtRest) (start db, []) l) :
    ∃ l' p, runSteps (withLog (serve overflow eng)) (⟨Auth.State.init, db⟩, []) l' = some p ∧
      p.1 = q.1.servers ∧ p.2.map (fun x => x.1.1) <+: requests q.2 ∧
      responses q.2 <+: p.2.map Prod.snd ∧ (requests q.2).length ≤ (responses q.2).length + 1 := by
  obtain ⟨l', p, hp, n, ph, h⟩ := exists_serve_run hrun hlen hrest
  refine ⟨l', p, hp, h.servers_eq, ?_, ?_, h.length_le⟩
  · rw [h.requests_eq]
    exact List.prefix_append _ _
  · rw [h.replies_eq]
    exact List.prefix_append _ _

/-! ### The service by rounds -/

/-- The steps that take a request to its reply in the dataport. -/
def roundTrip (x : Str × (Nat → Nat → Bool)) : List Action :=
  [.clientWrite x.1, .clientEmit, .gatewayWait, .gatewayRead Mem.zero, .gatewayDispatch x.2,
    .gatewayWrite]

/-- One round of the two loops. -/
def round (x : Str × (Nat → Nat → Bool)) : List Action := roundTrip x ++ [.clientRead]

/-- What is written in rounds are their requests. -/
theorem exists_of_mem_rounds {xs : List (Str × (Nat → Nat → Bool))} {request : Str}
    (h : .clientWrite request ∈ xs.flatMap round) : ∃ x ∈ xs, request = x.1 := by
  obtain ⟨x, hx, hmem⟩ := List.mem_flatMap.mp h
  exact ⟨x, hx, by simpa [round, roundTrip] using hmem⟩

/-- Both loops are at their start. -/
def AtStart (s : Assembly) : Prop :=
  s.bridge.client = .input ∧ s.bridge.gateway = .waiting ∧ s.bridge.dataReady = false

/-- What a request comes to, from the start of the loops. -/
theorem roundTrip_spec (slot : Slot) (writes : Nat) {servers : State}
    (log : List (Action × Option Event)) {x : Str × (Nat → Nat → Bool)} (hnul : NoNul x.1)
    (hlen : x.1.length ≤ 510) {r : Answer}
    (hanswer : answer overflow eng x.2 servers (localBuf Mem.zero x.1) = some r) :
    runSteps (withLog (step overflow eng)) (⟨⟨slot, false, .input, .waiting, writes⟩, servers⟩, log)
      (roundTrip x) = some (⟨⟨⟨r.reply, .reply (.request writes), false⟩, false, .waiting, .waiting,
        writes + 1⟩, r.servers⟩, log ++ [(.clientWrite x.1, some (.requested x.1)),
          (.clientEmit, none), (.gatewayWait, none), (.gatewayRead Mem.zero, none),
          (.gatewayDispatch x.2, r.call.map fun y => .called y.1 y.2), (.gatewayWrite, none)]) := by
  have hlt : x.1.length < 512 := by omega
  simp [roundTrip, withLog, step, loopStep, Bridge.step, hnul, hlt, hanswer]

/-- A round serves its request, and takes the loops back to their start. -/
theorem round_spec {q : Logged} (hstart : q.1.AtStart) {x : Str × (Nat → Nat → Bool)}
    (hnul : NoNul x.1) (hlen : x.1.length ≤ 510) {servers' : State} {reply : Str}
    (hserve : serve overflow eng q.1.servers x = some (servers', reply)) :
    ∃ q', runSteps (withLog (step overflow eng)) q (round x) = some q' ∧ q'.1.AtStart ∧
      q'.1.servers = servers' ∧ requests q'.2 = requests q.2 ++ [x.1] ∧
      responses q'.2 = responses q.2 ++ [reply] ∧
      EveryStep (withLog (step overflow eng)) (fun _ => ReadsAtRest) q (round x) := by
  obtain ⟨⟨⟨slot, ready, client, gateway, writes⟩, servers⟩, log⟩ := q
  obtain ⟨rfl, rfl, rfl⟩ := hstart
  obtain ⟨r, hanswer, heq⟩ := Option.map_eq_some_iff.mp hserve
  obtain ⟨rfl, rfl⟩ := Prod.mk.inj heq
  have htrip := roundTrip_spec slot writes log hnul hlen hanswer
  refine ⟨(_, _ ++ [(.clientRead, some (.responded r.reply))]),
    runSteps_snoc_eq_some.mpr ⟨_, htrip, rfl⟩, ⟨rfl, rfl, rfl⟩, rfl, ?_, ?_, ?_⟩
  · cases r.call <;> simp [requests]
  · rw [responses_append]
    cases r.call <;> simp [responses, Event.response?]
  · refine everyStep_snoc (fun pre a post t hsplit _ => ?_) fun t ht => ?_
    · -- no step before the last is a read
      have hmem : a ∈ roundTrip x := by simp [hsplit]
      cases a with
      | clientRead => simp [roundTrip] at hmem
      | _ => trivial
    · obtain rfl := Option.some.inj (htrip.symm.trans ht)
      exact ⟨rfl, rfl⟩

/-- **The assembly serves what the service serves**: round by round, with every read at rest. -/
theorem exists_round_run {db : Option Db} {xs : List (Str × (Nat → Nat → Bool))}
    {p : State × List ((Str × (Nat → Nat → Bool)) × Str)}
    (hfits : ∀ x ∈ xs, NoNul x.1 ∧ x.1.length ≤ 510)
    (hrun : runSteps (withLog (serve overflow eng)) (⟨Auth.State.init, db⟩, []) xs = some p) :
    ∃ q, runSteps (withLog (step overflow eng)) (start db, []) (xs.flatMap round) = some q ∧
      q.1.servers = p.1 ∧ requests q.2 = xs.map Prod.fst ∧
      responses q.2 = p.2.map Prod.snd ∧
      EveryStep (withLog (step overflow eng)) (fun _ => ReadsAtRest) (start db, [])
        (xs.flatMap round) := by
  suffices h : ∃ q, runSteps (withLog (step overflow eng)) (start db, []) (xs.flatMap round) =
      some q ∧ q.1.AtStart ∧ q.1.servers = p.1 ∧ requests q.2 = xs.map Prod.fst ∧
      responses q.2 = p.2.map Prod.snd ∧
      EveryStep (withLog (step overflow eng)) (fun _ => ReadsAtRest) (start db, [])
        (xs.flatMap round) by
    obtain ⟨q, hq, -, h⟩ := h
    exact ⟨q, hq, h⟩
  induction xs using List.reverseRecOn generalizing p with
  | nil =>
    obtain rfl := Option.some.inj hrun
    exact ⟨_, rfl, ⟨rfl, rfl, rfl⟩, rfl, rfl, rfl, everyStep_nil _⟩
  | append_singleton xs x ih =>
    obtain ⟨p₁, hp₁, hx⟩ := runSteps_snoc_eq_some.mp hrun
    obtain ⟨q₁, hq₁, hstart, hservers, hrequests, hresponses, hrest⟩ :=
      ih (fun y hy => hfits y (List.mem_append_left _ hy)) hp₁
    obtain ⟨reply, hserve, hlog⟩ := withLog_eq_some.mp hx
    obtain ⟨hnul, hlen⟩ := hfits x (List.mem_append_right _ (List.mem_singleton_self _))
    rw [← hservers] at hserve
    obtain ⟨q, hq, hstart', hservers', hrequests', hresponses', hrest'⟩ :=
      round_spec hstart hnul hlen hserve
    rw [List.flatMap_append, List.flatMap_singleton]
    refine ⟨q, ?_, hstart', hservers', ?_, ?_, everyStep_append hrest hq₁ hrest'⟩
    · rw [runSteps_append, hq₁]
      exact hq
    · rw [hrequests', hrequests, List.map_append, List.map_singleton]
    · rw [hresponses', hresponses, hlog, List.map_append, List.map_singleton]

end Assembly

end Refinement

namespace Assembly

/-- A user registers, logs in, and asks for the transaction of the client. -/
def visit : List (Str × (Nat → Nat → Bool)) :=
  [(bytes "register Alice 1234", Ledger.noFails), (bytes "login Alice 1234", Ledger.noFails),
    (mockData, Ledger.noFails)]

theorem length_visit : ∀ x ∈ visit, x.1.length ≤ 510 := by decide

theorem refines_serve_visit : ∃ q l' p,
    runSteps (withLog (step Int32.ofInt Ledger.plainEngine)) (start Ledger.firstDb, [])
      (visit.flatMap round) = some q ∧
    runSteps (withLog (serve Int32.ofInt Ledger.plainEngine))
      (⟨Auth.State.init, Ledger.firstDb⟩, []) l' = some p ∧
    p.1 = q.1.servers ∧ p.2.map (fun x => x.1.1) <+: requests q.2 ∧
    responses q.2 <+: p.2.map Prod.snd ∧ (requests q.2).length ≤ (responses q.2).length + 1 := by
  have hsome : (runSteps (withLog (step Int32.ofInt Ledger.plainEngine)) (start Ledger.firstDb, [])
      (visit.flatMap round)).isSome = true := by
    decide +kernel
  obtain ⟨q, hrun⟩ := Option.isSome_iff_exists.mp hsome
  have hlen : WritesAtMost 510 (visit.flatMap round) := by
    intro request hmem
    obtain ⟨x, hx, rfl⟩ := exists_of_mem_rounds hmem
    exact length_visit x hx
  obtain ⟨l', p, h⟩ := refines_serve hrun hlen (by decide +kernel)
  exact ⟨q, l', p, hrun, h⟩

theorem exists_round_run_visit : ∃ p q,
    runSteps (withLog (serve Int32.ofInt Ledger.plainEngine))
      (⟨Auth.State.init, Ledger.firstDb⟩, []) visit = some p ∧
    runSteps (withLog (step Int32.ofInt Ledger.plainEngine)) (start Ledger.firstDb, [])
      (visit.flatMap round) = some q ∧
    q.1.servers = p.1 ∧ requests q.2 = visit.map Prod.fst ∧ responses q.2 = p.2.map Prod.snd ∧
    EveryStep (withLog (step Int32.ofInt Ledger.plainEngine)) (fun _ => ReadsAtRest)
      (start Ledger.firstDb, []) (visit.flatMap round) := by
  have hsome : (runSteps (withLog (serve Int32.ofInt Ledger.plainEngine))
      (⟨Auth.State.init, Ledger.firstDb⟩, []) visit).isSome = true := by
    decide +kernel
  obtain ⟨p, hrun⟩ := Option.isSome_iff_exists.mp hsome
  obtain ⟨q, h⟩ := exists_round_run (by decide) hrun
  exact ⟨p, q, hrun, h⟩

end Assembly

end BankSel4.System
