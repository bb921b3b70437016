import BankSel4.System.Dataport
import BankSel4.System.Equiv.Service

/-!
# Strings in the dataport

While the client reads only at rest, the two loops take turns at the dataport (`Stage`): no copy
goes on while the other loop accesses the page, and so each is as good as one step.
`refines_assembly`: every run byte by byte is a run of the assembly with the same events, and no
access leaves the page.
-/

namespace BankSel4.System

open Sql Gateway

/-! ### The page -/

/-- The page holds the C string `text`. -/
structure Port (m : Mem bufSize) (text : Str) : Prop where
  noNul : NoNul text
  length_lt : text.length < 512
  holds : m.Holds 0 (text ++ [0])

/-- The bytes that are stored are those of the text. -/
structure Copy.Going (c : Copy) (m : Mem bufSize) : Prop where
  noNul : NoNul c.text
  length_lt : c.text.length < 512
  todo_le : ∀ i ∈ c.todo, i ≤ c.text.length
  stored : ∀ i ≤ c.text.length, i ∉ c.todo → m.byte i = (c.text ++ [0]).getD i 0

section Page

variable {m m' : Mem bufSize} {c c' : Copy} {text read : Str} {i : Nat} {b : UInt8}

theorem port_zero : Port Mem.zero [] where
  noNul := List.not_mem_nil
  length_lt := by decide
  holds := by
    refine ⟨by decide, fun k hk => ?_⟩
    obtain rfl : k = 0 := by simpa using hk
    rfl

theorem Copy.going_start (hnul : NoNul text) (hlen : text.length < 512) :
    (Copy.start text).Going m where
  noNul := hnul
  length_lt := hlen
  todo_le _ hi := Nat.lt_succ_iff.mp (List.mem_range.mp hi)
  stored _ hi hnot := absurd (List.mem_range.mpr (Nat.lt_succ_of_le hi)) hnot

/-- One byte more is stored. -/
theorem Copy.Going.store (h : c.Going m) (hs : c.store m i = some (m', c')) :
    c'.text = c.text ∧ c'.Going m' := by
  obtain ⟨⟨hi, hlt⟩, heq⟩ := Option.ite_none_right_eq_some.mp hs
  obtain ⟨rfl, rfl⟩ := Prod.mk.inj (Option.some.inj heq)
  refine ⟨rfl, h.noNul, h.length_lt, fun j hj => h.todo_le j (List.mem_of_mem_erase hj), ?_⟩
  intro j hj hnot
  rw [Mem.byte_store m (by rwa [List.length_singleton])]
  by_cases hji : j = i
  · rw [hji, overlay_of_mem (Nat.le_refl i) (by simp), Nat.sub_self]
    rfl
  · rw [overlay_of_not_mem (by rw [List.length_singleton]; omega)]
    exact h.stored j hj fun hmem => hnot ((List.mem_erase_of_ne hji).mpr hmem)

/-- A copy that has stored all its bytes. -/
theorem Copy.Going.port (h : c.Going m) (htodo : c.todo = []) : Port m c.text := by
  have hlen := h.length_lt
  refine ⟨h.noNul, hlen, by simp [bufSize]; omega, fun k hk => ?_⟩
  rw [List.length_append, List.length_singleton] at hk
  rw [Nat.zero_add]
  exact h.stored k (by omega) (by simp [htodo])

/-- The bytes of a copy lie in the page. -/
theorem Copy.Going.lt (h : c.Going m) : ∀ i ∈ c.todo, i < bufSize := by
  intro i hi
  have hle := h.todo_le i hi
  have hlen := h.length_lt
  unfold bufSize
  omega

/-- What comes behind a part of the text: its next byte, or the terminator. -/
theorem Port.load (h : Port m text) (hread : read <+: text)
    (hb : loadByte m read.length = some b) :
    (b = 0 ∧ read = text) ∨ (b ≠ 0 ∧ read ++ [b] <+: text) := by
  obtain ⟨rest, rfl⟩ := hread
  unfold loadByte at hb
  split_ifs at hb with hlt
  have hbyte : m.byte read.length = b := (Mem.byte_of_lt m hlt).trans (Option.some.inj hb)
  have hget := h.holds.2 read.length (by simp)
  rw [Nat.zero_add, hbyte, List.append_assoc, List.getD_append_right _ _ _ _ le_rfl,
    Nat.sub_self] at hget
  cases rest with
  | nil => exact Or.inl ⟨hget, (List.append_nil read).symm⟩
  | cons c rest =>
    obtain rfl : b = c := hget
    refine Or.inr ⟨fun h0 => ?_, rest, by simp⟩
    exact h.noNul (h0 ▸ List.mem_append_right _ List.mem_cons_self)

theorem Port.lt (h : Port m text) (hread : read <+: text) : read.length < bufSize := by
  have hle := hread.length_le
  have hlen := h.length_lt
  unfold bufSize
  omega

end Page

/-- What the gateway answers is a C string that fits its `reply`. -/
theorem fitsReply_answer {overflow : Int → Int32} {eng : Engine} {fails : Nat → Nat → Bool}
    {servers : State} {buf : Str} {r : Answer}
    (h : answer overflow eng fails servers buf = some r) : FitsReply r.reply := by
  unfold answer at h
  split at h
  · cases h
  · rename_i reply hparse
    obtain rfl := Option.some.inj h
    exact fitsReply_parse hparse
  · obtain ⟨⟨servers', reply'⟩, -, hr⟩ := Option.bind_eq_some_iff.mp h
    obtain ⟨reply, hreply, rfl⟩ := Option.map_eq_some_iff.mp hr
    exact fitsReply_replyTo (toOption_eq_some.mp hreply)

namespace Dataport

/-! ### Steps -/

/-- The action `a` takes `s` to `s'`, with the event `e`. -/
inductive Step (overflow : Int → Int32) (eng : Engine) (s : Dataport) :
    Action → Option Event → Dataport → Prop where
  | clientWrite (request : Str) (hclient : s.client = .input) (hnul : NoNul request)
      (hlen : request.length < 512) : Step overflow eng s (.clientWrite request) none
        { s with client := .storing (Copy.start request) }
  | clientStore (i : Nat) (c : Copy) (m : Mem bufSize) (c' : Copy) (hclient : s.client = .storing c)
      (hstore : c.store s.netBuffer i = some (m, c')) (htodo : c'.todo ≠ []) :
      Step overflow eng s (.clientStore i) none { s with netBuffer := m, client := .storing c' }
  /-- The last byte of the request. -/
  | clientLast (i : Nat) (c : Copy) (m : Mem bufSize) (c' : Copy) (hclient : s.client = .storing c)
      (hstore : c.store s.netBuffer i = some (m, c')) (htodo : c'.todo = []) :
      Step overflow eng s (.clientStore i) (some (.requested c.text))
        { s with netBuffer := m, client := .written }
  | clientEmit (hclient : s.client = .written) :
      Step overflow eng s .clientEmit none { s with dataReady := true, client := .waiting }
  | clientRead (hclient : s.client = .waiting) :
      Step overflow eng s .clientRead none { s with client := .printing [] }
  | clientLoad (read : Str) (b : UInt8) (hclient : s.client = .printing read)
      (hload : loadByte s.netBuffer read.length = some b) (hb : b ≠ 0) :
      Step overflow eng s .clientLoad none { s with client := .printing (read ++ [b]) }
  /-- The terminator of the response. -/
  | clientDone (read : Str) (hclient : s.client = .printing read)
      (hload : loadByte s.netBuffer read.length = some 0) :
      Step overflow eng s .clientLoad (some (.responded read)) { s with client := .input }
  | gatewayWait (hgateway : s.gateway = .waiting) (hready : s.dataReady = true) :
      Step overflow eng s .gatewayWait none { s with dataReady := false, gateway := .woken }
  | gatewayRead (prev : Mem 512) (hgateway : s.gateway = .woken) :
      Step overflow eng s (.gatewayRead prev) none { s with gateway := .copying prev [] }
  | gatewayLoad (prev : Mem 512) (read : Str) (b : UInt8) (hgateway : s.gateway = .copying prev read)
      (hload : loadByte s.netBuffer read.length = some b) (hb : b ≠ 0)
      (hlen : read.length + 1 ≠ 511) :
      Step overflow eng s .gatewayLoad none { s with gateway := .copying prev (read ++ [b]) }
  /-- The terminator of the request. -/
  | gatewayDone (prev : Mem 512) (read : Str) (hgateway : s.gateway = .copying prev read)
      (hload : loadByte s.netBuffer read.length = some 0) :
      Step overflow eng s .gatewayLoad none { s with gateway := .loaded (localBuf prev read) }
  /-- The last byte that the copy takes. -/
  | gatewayFull (prev : Mem 512) (read : Str) (b : UInt8) (hgateway : s.gateway = .copying prev read)
      (hload : loadByte s.netBuffer read.length = some b) (hb : b ≠ 0)
      (hlen : read.length + 1 = 511) : Step overflow eng s .gatewayLoad none
        { s with gateway := .loaded (localBuf prev (read ++ [b])) }
  | gatewayDispatch (fails : Nat → Nat → Bool) (buf : Str) (r : Answer)
      (hgateway : s.gateway = .loaded buf)
      (hanswer : answer overflow eng fails s.servers buf = some r) :
      Step overflow eng s (.gatewayDispatch fails) (r.call.map fun x => .called x.1 x.2)
        { s with gateway := .answered r.reply, servers := r.servers }
  | gatewayWrite (reply : Str) (hgateway : s.gateway = .answered reply) :
      Step overflow eng s .gatewayWrite none { s with gateway := .storing (Copy.start reply) }
  | gatewayStore (i : Nat) (c : Copy) (m : Mem bufSize) (c' : Copy)
      (hgateway : s.gateway = .storing c) (hstore : c.store s.netBuffer i = some (m, c'))
      (htodo : c'.todo ≠ []) :
      Step overflow eng s (.gatewayStore i) none { s with netBuffer := m, gateway := .storing c' }
  /-- The last byte of the reply. -/
  | gatewayLast (i : Nat) (c : Copy) (m : Mem bufSize) (c' : Copy)
      (hgateway : s.gateway = .storing c) (hstore : c.store s.netBuffer i = some (m, c'))
      (htodo : c'.todo = []) :
      Step overflow eng s (.gatewayStore i) none { s with netBuffer := m, gateway := .waiting }

section Steps

variable {overflow : Int → Int32} {eng : Engine} {s s' : Dataport} {a : Action} {e : Option Event}

theorem step_eq_some (h : s.step overflow eng a = some (s', e)) : Step overflow eng s a e s' := by
  cases a with
  | clientWrite request =>
    obtain ⟨⟨hclient, hnul, hlen⟩, heq⟩ := Option.ite_none_right_eq_some.mp h
    obtain ⟨rfl, rfl⟩ := Prod.mk.inj (Option.some.inj heq)
    exact .clientWrite request hclient hnul hlen
  | clientStore i =>
    cases hclient : s.client with
    | storing c =>
      simp only [step, hclient] at h
      obtain ⟨⟨m, c'⟩, hstore, heq⟩ := Option.map_eq_some_iff.mp h
      split_ifs at heq with htodo
      · obtain ⟨rfl, rfl⟩ := Prod.mk.inj heq
        exact .clientLast i c m c' hclient hstore htodo
      · obtain ⟨rfl, rfl⟩ := Prod.mk.inj heq
        exact .clientStore i c m c' hclient hstore htodo
    | _ => simp [step, hclient] at h
  | clientEmit =>
    obtain ⟨hclient, heq⟩ := Option.ite_none_right_eq_some.mp h
    obtain ⟨rfl, rfl⟩ := Prod.mk.inj (Option.some.inj heq)
    exact .clientEmit hclient
  | clientRead =>
    obtain ⟨hclient, heq⟩ := Option.ite_none_right_eq_some.mp h
    obtain ⟨rfl, rfl⟩ := Prod.mk.inj (Option.some.inj heq)
    exact .clientRead hclient
  | clientLoad =>
    cases hclient : s.client with
    | printing read =>
      simp only [step, hclient] at h
      obtain ⟨b, hload, heq⟩ := Option.map_eq_some_iff.mp h
      split_ifs at heq with hb
      · obtain ⟨rfl, rfl⟩ := Prod.mk.inj heq
        exact .clientDone read hclient (hb ▸ hload)
      · obtain ⟨rfl, rfl⟩ := Prod.mk.inj heq
        exact .clientLoad read b hclient hload hb
    | _ => simp [step, hclient] at h
  | gatewayWait =>
    cases hgateway : s.gateway with
    | waiting =>
      simp only [step, hgateway] at h
      obtain ⟨hready, heq⟩ := Option.ite_none_right_eq_some.mp h
      obtain ⟨rfl, rfl⟩ := Prod.mk.inj (Option.some.inj heq)
      exact .gatewayWait hgateway hready
    | _ => simp [step, hgateway] at h
  | gatewayRead prev =>
    cases hgateway : s.gateway with
    | woken =>
      simp only [step, hgateway] at h
      obtain ⟨rfl, rfl⟩ := Prod.mk.inj (Option.some.inj h)
      exact .gatewayRead prev hgateway
    | _ => simp [step, hgateway] at h
  | gatewayLoad =>
    cases hgateway : s.gateway with
    | copying prev read =>
      simp only [step, hgateway] at h
      obtain ⟨b, hload, heq⟩ := Option.map_eq_some_iff.mp h
      split_ifs at heq with hb hlen
      · obtain ⟨rfl, rfl⟩ := Prod.mk.inj heq
        exact .gatewayDone prev read hgateway (hb ▸ hload)
      · obtain ⟨rfl, rfl⟩ := Prod.mk.inj heq
        exact .gatewayFull prev read b hgateway hload hb hlen
      · obtain ⟨rfl, rfl⟩ := Prod.mk.inj heq
        exact .gatewayLoad prev read b hgateway hload hb hlen
    | _ => simp [step, hgateway] at h
  | gatewayDispatch fails =>
    cases hgateway : s.gateway with
    | loaded buf =>
      simp only [step, hgateway] at h
      obtain ⟨r, hanswer, heq⟩ := Option.map_eq_some_iff.mp h
      obtain ⟨rfl, rfl⟩ := Prod.mk.inj heq
      exact .gatewayDispatch fails buf r hgateway hanswer
    | _ => simp [step, hgateway] at h
  | gatewayWrite =>
    cases hgateway : s.gateway with
    | answered reply =>
      simp only [step, hgateway] at h
      obtain ⟨rfl, rfl⟩ := Prod.mk.inj (Option.some.inj h)
      exact .gatewayWrite reply hgateway
    | _ => simp [step, hgateway] at h
  | gatewayStore i =>
    cases hgateway : s.gateway with
    | storing c =>
      simp only [step, hgateway] at h
      obtain ⟨⟨m, c'⟩, hstore, heq⟩ := Option.map_eq_some_iff.mp h
      split_ifs at heq with htodo
      · obtain ⟨rfl, rfl⟩ := Prod.mk.inj heq
        exact .gatewayLast i c m c' hgateway hstore htodo
      · obtain ⟨rfl, rfl⟩ := Prod.mk.inj heq
        exact .gatewayStore i c m c' hgateway hstore htodo
    | _ => simp [step, hgateway] at h

end Steps

/-! ### Turns -/

/-- Whose turn it is, and how far it has come. -/
inductive Stage where
  | input
  | storing (c : Copy)
  | written
  | signalled
  | woken
  | copying (prev : Mem 512) (read : Str)
  | loaded (buf : Str)
  | answered (reply : Str)
  | replying (c : Copy)
  | replied
  | printing (read : Str)

namespace Stage

def client : Stage → ClientPc
  | .input => .input
  | .storing c => .storing c
  | .written => .written
  | .printing read => .printing read
  | .signalled | .woken | .copying .. | .loaded _ | .answered _ | .replying _ | .replied => .waiting

def gateway : Stage → GatewayPc
  | .woken => .woken
  | .copying prev read => .copying prev read
  | .loaded buf => .loaded buf
  | .answered reply => .answered reply
  | .replying c => .storing c
  | .input | .storing _ | .written | .signalled | .replied | .printing _ => .waiting

def dataReady : Stage → Bool
  | .signalled => true
  | _ => false

/-- The client of the assembly, for which a copy is to come until it is done. -/
def wholeClient : Stage → Bridge.ClientPc
  | .input | .storing _ => .input
  | .written => .written
  | _ => .waiting

/-- The gateway of the assembly. -/
def wholeGateway (o : Bridge.Origin) : Stage → Bridge.GatewayPc
  | .woken | .copying .. => .woken
  | .loaded buf => .loaded buf o
  | .answered reply => .answered reply o
  | .replying c => .answered c.text o
  | _ => .waiting

/-- What is in the page, where the dataport of the assembly holds `text`. -/
def Page (m : Mem bufSize) (text : Str) : Stage → Prop
  | .storing c | .replying c => c.Going m
  | .copying _ read | .printing read => Port m text ∧ read <+: text
  | .answered reply => Port m text ∧ FitsReply reply
  | .input | .written | .signalled | .woken | .loaded _ | .replied => Port m text

end Stage

/-- Both are at a stage. -/
structure At (st : Stage) (s : Dataport) (p : Assembly) : Prop where
  client_eq : s.client = st.client
  gateway_eq : s.gateway = st.gateway
  ready_eq : s.dataReady = st.dataReady
  whole_client : p.bridge.client = st.wholeClient
  whole_gateway : ∃ o, p.bridge.gateway = st.wholeGateway o
  whole_ready : p.bridge.dataReady = st.dataReady
  servers_eq : p.servers = s.servers
  page : st.Page s.netBuffer p.bridge.slot.text

/-- The client starts to read only while the gateway waits and no signal is pending. -/
def ReadsAtRest (q : Logged) : Action → Prop
  | .clientRead => q.1.gateway = .waiting ∧ q.1.dataReady = false
  | _ => True

instance (g : GatewayPc) : Decidable (g = .waiting) :=
  match g with
  | .waiting => isTrue rfl
  | .woken | .copying .. | .loaded _ | .answered _ | .storing _ => isFalse nofun

instance (q : Logged) (a : Action) : Decidable (ReadsAtRest q a) :=
  match a with
  | .clientRead => inferInstanceAs (Decidable (_ ∧ _))
  | .clientWrite _ | .clientStore _ | .clientEmit | .clientLoad | .gatewayWait | .gatewayRead _
  | .gatewayLoad | .gatewayDispatch _ | .gatewayWrite | .gatewayStore _ =>
    inferInstanceAs (Decidable True)

/-- The events of a run. -/
def events {α : Type*} (log : List (α × Option Event)) : List Event := log.filterMap Prod.snd

theorem events_append {α : Type*} (log : List (α × Option Event)) (x : α × Option Event) :
    events (log ++ [x]) = events log ++ x.2.toList := by
  rw [events, List.filterMap_append]
  cases h : x.2 <;> simp [events, h]

section Turns

variable {overflow : Int → Int32} {eng : Engine} {s s' : Dataport} {p : Assembly} {st : Stage}
  {a : Action} {e : Option Event}

/-- The assembly rests, or takes a step at rest with the same event. -/
def Follows (overflow : Int → Int32) (eng : Engine) (p : Assembly) (s' : Dataport)
    (e : Option Event) : Prop :=
  (e = none ∧ ∃ st, At st s' p) ∨
    ∃ a p', (∀ log, Assembly.ReadsAtRest (p, log) a) ∧ p.step overflow eng a = some (p', e) ∧
      ∃ st, At st s' p'

theorem Follows.rest (st : Stage) (h : At st s' p) : Follows overflow eng p s' none :=
  Or.inl ⟨rfl, st, h⟩

/-- A step of the assembly that keeps the servers. -/
theorem Follows.loop (st : Stage) {a : System.Action} {t : Bridge.State}
    (hstep : p.step overflow eng a = some (⟨t, p.servers⟩, e))
    (hrest : ∀ log, Assembly.ReadsAtRest (p, log) a) (h : At st s' ⟨t, p.servers⟩) :
    Follows overflow eng p s' e :=
  Or.inr ⟨a, _, hrest, hstep, st, h⟩

section Client

theorem At.clientStore {c c' : Copy} {m : Mem bufSize} {i : Nat} (h : At (.storing c) s p)
    (hstore : c.store s.netBuffer i = some (m, c')) :
    Follows overflow eng p { s with netBuffer := m, client := .storing c' } none := by
  obtain ⟨-, hgateway, hready, hc, hg, hr, hservers, hpage⟩ := h
  exact .rest (.storing c') ⟨rfl, hgateway, hready, hc, hg, hr, hservers,
    (hpage.store hstore).2⟩

/-- With its last byte the request is in the dataport. -/
theorem At.clientLast {c c' : Copy} {m : Mem bufSize} {i : Nat} (h : At (.storing c) s p)
    (hstore : c.store s.netBuffer i = some (m, c')) (htodo : c'.todo = []) :
    Follows overflow eng p { s with netBuffer := m, client := .written }
      (some (.requested c.text)) := by
  obtain ⟨-, hgateway, hready, hc, ⟨o, hg⟩, hr, hservers, hpage⟩ := h
  obtain ⟨htext, hgoing⟩ := hpage.store hstore
  have hstep : p.step overflow eng (.clientWrite c.text) = some (⟨{ p.bridge with
      slot := ⟨c.text, .request p.bridge.writes, true⟩
      client := .written
      writes := p.bridge.writes + 1 }, p.servers⟩, some (.requested c.text)) := by
    simp [Assembly.step, Assembly.loopStep, Bridge.step, hc, Stage.wholeClient, hpage.noNul,
      hpage.length_lt]
  refine .loop .written hstep (fun _ => trivial)
    ⟨rfl, hgateway, hready, rfl, ⟨o, hg⟩, hr, hservers, ?_⟩
  exact htext ▸ hgoing.port htodo

theorem At.clientEmit (h : At .written s p) :
    Follows overflow eng p { s with dataReady := true, client := .waiting } none := by
  obtain ⟨-, hgateway, -, hc, ⟨o, hg⟩, -, hservers, hpage⟩ := h
  have hstep : p.step overflow eng .clientEmit = some (⟨{ p.bridge with
      dataReady := true, client := .waiting }, p.servers⟩, none) := by
    simp [Assembly.step, Assembly.loopStep, Bridge.step, hc, Stage.wholeClient]
  exact .loop .signalled hstep (fun _ => trivial)
    ⟨rfl, hgateway, rfl, rfl, ⟨o, hg⟩, rfl, hservers, hpage⟩

theorem At.clientRead (h : At .replied s p) :
    Follows overflow eng p { s with client := .printing [] } none := by
  obtain ⟨-, hgateway, hready, hc, hg, hr, hservers, hpage⟩ := h
  exact .rest (.printing []) ⟨rfl, hgateway, hready, hc, hg, hr, hservers, hpage,
    List.nil_prefix⟩

theorem At.clientLoad {read : Str} {b : UInt8} (h : At (.printing read) s p)
    (hload : loadByte s.netBuffer read.length = some b) (hb : b ≠ 0) :
    Follows overflow eng p { s with client := .printing (read ++ [b]) } none := by
  obtain ⟨-, hgateway, hready, hc, hg, hr, hservers, hport, hread⟩ := h
  rcases hport.load hread hload with ⟨h0, -⟩ | ⟨-, hread'⟩
  · exact absurd h0 hb
  · exact .rest (.printing (read ++ [b])) ⟨rfl, hgateway, hready, hc, hg, hr, hservers, hport,
      hread'⟩

/-- With its terminator the response is read. -/
theorem At.clientDone {read : Str} (h : At (.printing read) s p)
    (hload : loadByte s.netBuffer read.length = some 0) :
    Follows overflow eng p { s with client := .input } (some (.responded read)) := by
  obtain ⟨-, hgateway, hready, hc, ⟨o, hg⟩, hr, hservers, hport, hread⟩ := h
  rcases hport.load hread hload with ⟨-, htext⟩ | ⟨h0, -⟩
  · have hstep : p.step overflow eng .clientRead = some (⟨{ p.bridge with
        client := .input }, p.servers⟩, some (.responded read)) := by
      simp [Assembly.step, Assembly.loopStep, Bridge.step, hc, Stage.wholeClient, htext]
    exact .loop .input hstep (fun _ => ⟨hg, hr⟩)
      ⟨rfl, hgateway, hready, rfl, ⟨o, hg⟩, hr, hservers, hport⟩
  · exact absurd rfl h0

end Client

section Gateway

theorem At.gatewayWait (h : At .signalled s p) :
    Follows overflow eng p { s with dataReady := false, gateway := .woken } none := by
  obtain ⟨hclient, -, -, hc, ⟨o, hg⟩, hr, hservers, hpage⟩ := h
  have hstep : p.step overflow eng .gatewayWait = some (⟨{ p.bridge with
      dataReady := false, gateway := .woken }, p.servers⟩, none) := by
    simp [Assembly.step, Assembly.loopStep, Bridge.step, hg, hr, Stage.wholeGateway,
      Stage.dataReady]
  exact .loop .woken hstep (fun _ => trivial)
    ⟨hclient, rfl, rfl, hc, ⟨o, rfl⟩, rfl, hservers, hpage⟩

theorem At.gatewayRead (h : At .woken s p) (prev : Mem 512) :
    Follows overflow eng p { s with gateway := .copying prev [] } none := by
  obtain ⟨hclient, -, hready, hc, hg, hr, hservers, hpage⟩ := h
  exact .rest (.copying prev []) ⟨hclient, rfl, hready, hc, hg, hr, hservers, hpage,
    List.nil_prefix⟩

theorem At.gatewayLoad {prev : Mem 512} {read : Str} {b : UInt8} (h : At (.copying prev read) s p)
    (hload : loadByte s.netBuffer read.length = some b) (hb : b ≠ 0) :
    Follows overflow eng p { s with gateway := .copying prev (read ++ [b]) } none := by
  obtain ⟨hclient, -, hready, hc, hg, hr, hservers, hport, hread⟩ := h
  rcases hport.load hread hload with ⟨h0, -⟩ | ⟨-, hread'⟩
  · exact absurd h0 hb
  · exact .rest (.copying prev (read ++ [b])) ⟨hclient, rfl, hready, hc, hg, hr, hservers,
      hport, hread'⟩

/-- The copy has what it takes of the request. -/
theorem At.gatewayLoaded {prev : Mem 512} {read copied : Str} (h : At (.copying prev read) s p)
    (hcopied : localBuf prev copied = localBuf prev p.bridge.slot.text) :
    Follows overflow eng p { s with gateway := .loaded (localBuf prev copied) } none := by
  obtain ⟨hclient, -, hready, hc, ⟨o, hg⟩, hr, hservers, hport, -⟩ := h
  have hstep : p.step overflow eng (.gatewayRead prev) = some (⟨{ p.bridge with
      slot := ⟨p.bridge.slot.text, p.bridge.slot.origin, false⟩
      gateway := .loaded (localBuf prev p.bridge.slot.text) p.bridge.slot.origin },
      p.servers⟩, none) := by
    simp [Assembly.step, Assembly.loopStep, Bridge.step, hg, Stage.wholeGateway]
  exact .loop (.loaded (localBuf prev copied)) hstep (fun _ => trivial)
    ⟨hclient, rfl, hready, hc, ⟨p.bridge.slot.origin, by rw [hcopied]; rfl⟩, hr, hservers, hport⟩

theorem At.gatewayDone {prev : Mem 512} {read : Str} (h : At (.copying prev read) s p)
    (hload : loadByte s.netBuffer read.length = some 0) :
    Follows overflow eng p { s with gateway := .loaded (localBuf prev read) } none := by
  obtain ⟨hport, hread⟩ := h.page
  rcases hport.load hread hload with ⟨-, htext⟩ | ⟨h0, -⟩
  · exact h.gatewayLoaded (by rw [htext])
  · exact absurd rfl h0

/-- `strncpy` stores the same 511 bytes of a request that has more. -/
theorem localBuf_of_copied {read text : Str} (hnul : NoNul text) (hread : read <+: text)
    (hlen : read.length = 511) (prev : Mem 512) : localBuf prev read = localBuf prev text := by
  obtain ⟨rest, rfl⟩ := hread
  have hnul' := (noNul_append.mp hnul).1
  have hwhole := strncpy_append hnul' (Nat.le_of_eq hlen) rest
  have hpart := strncpy_append hnul' (Nat.le_of_eq hlen) []
  rw [List.append_nil] at hpart
  rw [localBuf, localBuf, hwhole, hpart, hlen, Nat.sub_self]
  rfl

theorem At.gatewayFull {prev : Mem 512} {read : Str} {b : UInt8} (h : At (.copying prev read) s p)
    (hload : loadByte s.netBuffer read.length = some b) (hb : b ≠ 0)
    (hlen : read.length + 1 = 511) :
    Follows overflow eng p { s with gateway := .loaded (localBuf prev (read ++ [b])) } none := by
  obtain ⟨hport, hread⟩ := h.page
  rcases hport.load hread hload with ⟨h0, -⟩ | ⟨-, hread'⟩
  · exact absurd h0 hb
  · exact h.gatewayLoaded (localBuf_of_copied hport.noNul hread' (by simpa using hlen) prev)

theorem At.gatewayDispatch {buf : Str} {fails : Nat → Nat → Bool} {r : Answer}
    (h : At (.loaded buf) s p) (hanswer : answer overflow eng fails s.servers buf = some r) :
    Follows overflow eng p { s with gateway := .answered r.reply, servers := r.servers }
      (r.call.map fun x => .called x.1 x.2) := by
  obtain ⟨hclient, -, hready, hc, ⟨o, hg⟩, hr, hservers, hpage⟩ := h
  have hgateway : p.bridge.gateway = .loaded buf o := hg
  have hstep : p.step overflow eng (.gatewayDispatch fails) = some (⟨{ p.bridge with
      gateway := .answered r.reply o }, r.servers⟩, r.call.map fun x => .called x.1 x.2) := by
    simp [Assembly.step, hgateway, hservers, hanswer]
  refine Or.inr ⟨.gatewayDispatch fails, _, fun _ => trivial, hstep, .answered r.reply, hclient,
    rfl, hready, hc, ⟨o, rfl⟩, hr, rfl, hpage, fitsReply_answer hanswer⟩

theorem At.gatewayWrite {reply : Str} (h : At (.answered reply) s p) :
    Follows overflow eng p { s with gateway := .storing (Copy.start reply) } none := by
  obtain ⟨hclient, -, hready, hc, hg, hr, hservers, -, hnul, hlen⟩ := h
  exact .rest (.replying (Copy.start reply)) ⟨hclient, rfl, hready, hc, hg, hr, hservers,
    Copy.going_start hnul hlen⟩

theorem At.gatewayStore {c c' : Copy} {m : Mem bufSize} {i : Nat} (h : At (.replying c) s p)
    (hstore : c.store s.netBuffer i = some (m, c')) :
    Follows overflow eng p { s with netBuffer := m, gateway := .storing c' } none := by
  obtain ⟨hclient, -, hready, hc, ⟨o, hg⟩, hr, hservers, hpage⟩ := h
  obtain ⟨htext, hgoing⟩ := hpage.store hstore
  exact .rest (.replying c') ⟨hclient, rfl, hready, hc, ⟨o, by rw [hg]; simp
    [Stage.wholeGateway, htext]⟩, hr, hservers, hgoing⟩

/-- With its last byte the reply is in the dataport. -/
theorem At.gatewayLast {c c' : Copy} {m : Mem bufSize} {i : Nat} (h : At (.replying c) s p)
    (hstore : c.store s.netBuffer i = some (m, c')) (htodo : c'.todo = []) :
    Follows overflow eng p { s with netBuffer := m, gateway := .waiting } none := by
  obtain ⟨hclient, -, hready, hc, ⟨o, hg⟩, hr, hservers, hpage⟩ := h
  obtain ⟨htext, hgoing⟩ := hpage.store hstore
  have hstep : p.step overflow eng .gatewayWrite = some (⟨{ p.bridge with
      slot := ⟨c.text, .reply o, false⟩, gateway := .waiting }, p.servers⟩, none) := by
    simp [Assembly.step, Assembly.loopStep, Bridge.step, hg, Stage.wholeGateway]
  exact .loop .replied hstep (fun _ => trivial)
    ⟨hclient, rfl, hready, hc, ⟨o, rfl⟩, hr, hservers, htext ▸ hgoing.port htodo⟩

end Gateway

/-- **Each step of a loop is followed**: where the actor of the step is leaves one stage. -/
theorem At.follows (h : At st s p) (hrest : ReadsAtRest (s, []) a)
    (hs : s.step overflow eng a = some (s', e)) : Follows overflow eng p s' e := by
  have hc := h.client_eq
  have hg := h.gateway_eq
  have hr := h.ready_eq
  cases step_eq_some hs with
  | clientWrite request hclient hnul hlen =>
    obtain rfl : st = .input := by cases st <;> simp_all [Stage.client]
    obtain ⟨-, hgateway, hready, hc, hg, hr, hservers, -⟩ := h
    exact .rest (.storing (Copy.start request)) ⟨rfl, hgateway, hready, hc, hg, hr, hservers,
      Copy.going_start hnul hlen⟩
  | clientStore i c m c' hclient hstore =>
    obtain rfl : st = .storing c := by cases st <;> simp_all [Stage.client]
    exact h.clientStore hstore
  | clientLast i c m c' hclient hstore htodo =>
    obtain rfl : st = .storing c := by cases st <;> simp_all [Stage.client]
    exact h.clientLast hstore htodo
  | clientEmit hclient =>
    obtain rfl : st = .written := by cases st <;> simp_all [Stage.client]
    exact h.clientEmit
  | clientRead hclient =>
    -- at rest there is a reply
    obtain ⟨hwaiting, hready⟩ := hrest
    obtain rfl : st = .replied := by
      cases st <;> simp_all [Stage.client, Stage.gateway, Stage.dataReady]
    exact h.clientRead
  | clientLoad read b hclient hload hb =>
    obtain rfl : st = .printing read := by cases st <;> simp_all [Stage.client]
    exact h.clientLoad hload hb
  | clientDone read hclient hload =>
    obtain rfl : st = .printing read := by cases st <;> simp_all [Stage.client]
    exact h.clientDone hload
  | gatewayWait hgateway hready =>
    obtain rfl : st = .signalled := by cases st <;> simp_all [Stage.dataReady]
    exact h.gatewayWait
  | gatewayRead prev hgateway =>
    obtain rfl : st = .woken := by cases st <;> simp_all [Stage.gateway]
    exact h.gatewayRead prev
  | gatewayLoad prev read b hgateway hload hb =>
    obtain rfl : st = .copying prev read := by cases st <;> simp_all [Stage.gateway]
    exact h.gatewayLoad hload hb
  | gatewayDone prev read hgateway hload =>
    obtain rfl : st = .copying prev read := by cases st <;> simp_all [Stage.gateway]
    exact h.gatewayDone hload
  | gatewayFull prev read b hgateway hload hb hlen =>
    obtain rfl : st = .copying prev read := by cases st <;> simp_all [Stage.gateway]
    exact h.gatewayFull hload hb hlen
  | gatewayDispatch fails buf r hgateway hanswer =>
    obtain rfl : st = .loaded buf := by cases st <;> simp_all [Stage.gateway]
    exact h.gatewayDispatch hanswer
  | gatewayWrite reply hgateway =>
    obtain rfl : st = .answered reply := by cases st <;> simp_all [Stage.gateway]
    exact h.gatewayWrite
  | gatewayStore i c m c' hgateway hstore =>
    obtain rfl : st = .replying c := by cases st <;> simp_all [Stage.gateway]
    exact h.gatewayStore hstore
  | gatewayLast i c m c' hgateway hstore htodo =>
    obtain rfl : st = .replying c := by cases st <;> simp_all [Stage.gateway]
    exact h.gatewayLast hstore htodo

end Turns

/-! ### Runs -/

/-- A copy into or out of the page is going on at the client. -/
def ClientPc.Accesses : ClientPc → Prop
  | .storing _ | .printing _ => True
  | .input | .written | .waiting => False

/-- So it is at the gateway. -/
def GatewayPc.Accesses : GatewayPc → Prop
  | .copying .. | .storing _ => True
  | .waiting | .woken | .loaded _ | .answered _ => False

/-- The next access of a copy lies in the page. -/
structure InPage (s : Dataport) : Prop where
  clientStore : ∀ c, s.client = .storing c → ∀ i ∈ c.todo, i < bufSize
  clientLoad : ∀ read, s.client = .printing read → read.length < bufSize
  gatewayLoad : ∀ prev read, s.gateway = .copying prev read → read.length < bufSize
  gatewayStore : ∀ c, s.gateway = .storing c → ∀ i ∈ c.todo, i < bufSize

section Runs

variable {overflow : Int → Int32} {eng : Engine} {s : Dataport} {p : Assembly} {st : Stage}

theorem At.not_both (h : At st s p) : ¬ (s.client.Accesses ∧ s.gateway.Accesses) := by
  rw [h.client_eq, h.gateway_eq]
  cases st <;> simp [Stage.client, Stage.gateway, ClientPc.Accesses, GatewayPc.Accesses]

theorem At.inPage (h : At st s p) : InPage s := by
  have hc := h.client_eq
  have hg := h.gateway_eq
  have hpage := h.page
  refine ⟨fun c hclient => ?_, fun read hclient => ?_, fun prev read hgateway => ?_,
    fun c hgateway => ?_⟩
  · obtain rfl : st = .storing c := by cases st <;> simp_all [Stage.client]
    exact hpage.lt
  · obtain rfl : st = .printing read := by cases st <;> simp_all [Stage.client]
    exact hpage.1.lt hpage.2
  · obtain rfl : st = .copying prev read := by cases st <;> simp_all [Stage.gateway]
    exact hpage.1.lt hpage.2
  · obtain rfl : st = .replying c := by cases st <;> simp_all [Stage.gateway]
    exact hpage.lt

/-- The dataport and the assembly are at a stage, after the same events. -/
def SameEvents (q : Logged) (p : Assembly.Logged) : Prop :=
  (∃ st, At st q.1 p.1) ∧ events p.2 = events q.2

theorem simulates_assembly : Simulates (withLog (step overflow eng))
    (withLog (Assembly.step overflow eng)) ReadsAtRest Assembly.ReadsAtRest SameEvents := by
  rintro q p a q' ⟨⟨st, h⟩, hevents⟩ hrest hs
  obtain ⟨e, hstep, hlog⟩ := withLog_eq_some.mp hs
  rcases h.follows hrest hstep with ⟨rfl, hst⟩ | ⟨b, p', hrest', hb, hst⟩
  · refine .rest ⟨hst, ?_⟩
    rw [hlog, events_append, hevents, Option.toList_none, List.append_nil]
  · refine .move (hrest' p.2) (withLog_of_step hb) ⟨hst, ?_⟩
    rw [hlog, events_append, events_append, hevents]

/-- **Strings pass the dataport whole.**  When the client starts to read only at rest, a run byte by
byte, in any order of the bytes, is a run of the assembly with reads at rest, with the same events
and servers; the two loops are never both at the page, and neither leaves it. -/
theorem refines_assembly {db : Option Db} {l : List Action} {q : Logged}
    (hrun : runSteps (withLog (step overflow eng)) (start db, []) l = some q)
    (hrest : EveryStep (withLog (step overflow eng)) (fun _ => ReadsAtRest) (start db, []) l) :
    (∃ l' p, runSteps (withLog (Assembly.step overflow eng)) (Assembly.start db, []) l' = some p ∧
      EveryStep (withLog (Assembly.step overflow eng)) (fun _ => Assembly.ReadsAtRest)
        (Assembly.start db, []) l' ∧
      p.1.servers = q.1.servers ∧ events p.2 = events q.2) ∧
    ¬ (q.1.client.Accesses ∧ q.1.gateway.Accesses) ∧ InPage q.1 := by
  have h0 : SameEvents (start db, []) (Assembly.start db, []) :=
    ⟨⟨.input, rfl, rfl, rfl, rfl, ⟨.start, rfl⟩, rfl, rfl, port_zero⟩, rfl⟩
  obtain ⟨l', p, hrest', hp, ⟨st, h⟩, hevents⟩ := simulates_assembly.exists_run h0 hrest hrun
  exact ⟨⟨l', p, hp, hrest', h.servers_eq, hevents⟩, h.not_both, h.inPage⟩

end Runs

/-- A login before any registration; the bytes of the request and of the reply are stored from
behind. -/
def loginRun : List Action :=
  .clientWrite (bytes "login Bob 12") :: (List.range 13).reverse.map .clientStore ++
    [.clientEmit, .gatewayWait, .gatewayRead Mem.zero] ++ List.replicate 13 .gatewayLoad ++
    [.gatewayDispatch Ledger.noFails, .gatewayWrite] ++ (List.range 17).reverse.map .gatewayStore ++
    .clientRead :: List.replicate 17 .clientLoad

theorem refines_assembly_loginRun : ∃ q,
    runSteps (withLog (step Int32.ofInt Ledger.plainEngine)) (start Ledger.firstDb, [])
      loginRun = some q ∧
    (∃ l' p, runSteps (withLog (Assembly.step Int32.ofInt Ledger.plainEngine))
        (Assembly.start Ledger.firstDb, []) l' = some p ∧
      EveryStep (withLog (Assembly.step Int32.ofInt Ledger.plainEngine))
        (fun _ => Assembly.ReadsAtRest) (Assembly.start Ledger.firstDb, []) l' ∧
      p.1.servers = q.1.servers ∧ events p.2 = events q.2) ∧
    ¬ (q.1.client.Accesses ∧ q.1.gateway.Accesses) ∧ InPage q.1 := by
  have hsome : (runSteps (withLog (step Int32.ofInt Ledger.plainEngine)) (start Ledger.firstDb, [])
      loginRun).isSome = true := by
    decide +kernel
  obtain ⟨q, hrun⟩ := Option.isSome_iff_exists.mp hsome
  exact ⟨q, hrun, refines_assembly hrun (by decide +kernel)⟩

/-- A client that does not wait gets the first byte of the reply and the rest of its request. -/
example : (runSteps (withLog (step Int32.ofInt Ledger.plainEngine)) (start Ledger.firstDb, [])
    ([.clientWrite (bytes "abc")] ++ (List.range 4).map .clientStore ++
      [.clientEmit, .gatewayWait, .gatewayRead Mem.zero] ++ List.replicate 4 .gatewayLoad ++
      [.gatewayDispatch Ledger.noFails, .gatewayWrite, .gatewayStore 0, .clientRead] ++
      List.replicate 4 .clientLoad)).map (fun q => events q.2) =
    some [.requested (bytes "abc"), .responded (bytes "Ebc")] := by
  decide +kernel

end Dataport

end BankSel4.System
