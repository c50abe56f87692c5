import Mathlib.Data.List.Flatten
import NameResolution.Proofs.Codec.RoundTrip
import NameResolution.Proofs.Resolution.Closing

/-!
# Closing is final

* `Conduct.Withstands`: a conduct that what comes with a happening from outside keeps.
  `Conduct.Lasts`: a conduct that withstands everything.
* `System.later`: a system after some happenings. `System.holds_later`: a conduct that lasts holds
  at any later time. `System.calls_afterwards`: so does what every step of a call keeps.
* `System.closing_is_final`: no query is sent and none is registered after closing. The caches stay
  empty unless a response waits to be taken up, or a referral to be followed.
-/

namespace NameResolution

/-! ## Conducts that last -/

/-- What a happening does to a `resolver` apart from what calls do. -/
def Happening.outside : Happening → Resolver → Resolver
  | .arrival source octets, resolver => (resolver.deliver source octets).2
  | .sending, resolver => { resolver with outbox := [] }
  | .passing span, resolver => { resolver with now := resolver.now.saturatingAdd span }
  | .hooking hook, resolver => { resolver with hook := hook }
  | .closing, resolver => resolver.close
  | .request _, resolver | .step _, resolver | .event _ _ _, resolver | .abandon _, resolver =>
    resolver

/-- What comes with the happening from outside keeps the `conduct`. -/
def Conduct.Withstands (conduct : Conduct) (happening : Happening) : Prop :=
  ∀ passes resolver, conduct.Holds passes resolver →
    conduct.Holds passes (happening.outside resolver)

/-- Whatever happens to a resolver apart from what calls do keeps the `conduct`. -/
structure Conduct.Lasts (conduct : Conduct) : Prop where
  arrival {passes : List Pass} {resolver : Resolver} (source : Endpoint) (octets : Octets)
    (holds : conduct.Holds passes resolver) :
    conduct.Holds passes (resolver.deliver source octets).2
  sending {passes : List Pass} {resolver : Resolver} (holds : conduct.Holds passes resolver) :
    conduct.Holds passes { resolver with outbox := [] }
  passing {passes : List Pass} {resolver : Resolver} (now : Duration)
    (holds : conduct.Holds passes resolver) : conduct.Holds passes { resolver with now := now }
  hooking {passes : List Pass} {resolver : Resolver} (hook : Hook)
    (holds : conduct.Holds passes resolver) : conduct.Holds passes { resolver with hook := hook }
  closing {passes : List Pass} {resolver : Resolver} (holds : conduct.Holds passes resolver) :
    conduct.Holds passes resolver.close

theorem Conduct.Lasts.withstands {conduct : Conduct} (lasts : conduct.Lasts)
    (happening : Happening) : conduct.Withstands happening := by
  intro passes resolver holds
  cases happening with
  | arrival source octets => exact lasts.arrival source octets holds
  | sending => exact lasts.sending holds
  | passing span => exact lasts.passing _ holds
  | hooking hook => exact lasts.hooking hook holds
  | closing => exact lasts.closing holds
  | request | step | event | abandon => exact holds

namespace Resolver

variable {outbox : List Datagram} {resolver : Resolver}

/-- A `resolver` at which nothing is registered takes nothing from the network. -/
theorem Shut.deliver_eq (shut : resolver.Shut outbox) (source : Endpoint) (octets : Octets) :
    (resolver.deliver source octets).2 = resolver := by
  have ignores : (Registry.deliver resolver.hook source octets resolver.registry).2 =
      resolver.registry := Registry.deliver_of_no_answer fun ⟨_, entry, mem, _⟩ => by
    rw [shut.outstanding] at mem
    cases mem
  show { resolver with
    registry := (Registry.deliver resolver.hook source octets resolver.registry).2 } = resolver
  rw [ignores]

theorem Shut.close_eq (shut : resolver.Shut outbox) : resolver.close = resolver := by
  unfold close
  rw [if_pos shut.closed]

theorem Shut.sent (shut : resolver.Shut outbox) : Shut outbox { resolver with outbox := [] } :=
  { shut with outbox := .inr rfl }

end Resolver

namespace Conduct

theorem lasts_shut (outbox : List Datagram) : (Regime.shut outbox).conduct.Lasts where
  arrival source octets shut := by rwa [Resolver.Shut.deliver_eq shut]
  sending shut := Resolver.Shut.sent shut
  passing _ shut := { (shut : Resolver.Shut outbox _) with }
  hooking _ shut := { (shut : Resolver.Shut outbox _) with }
  closing shut := by rwa [Resolver.Shut.close_eq shut]

theorem lasts_blank (outbox : List Datagram) : (Regime.blank outbox).conduct.Lasts where
  arrival source octets blank := by
    rwa [(Resolver.Blank.toShut blank).deliver_eq]
  sending blank := { (blank : Resolver.Blank outbox _) with outbox := .inr rfl }
  passing _ blank := { (blank : Resolver.Blank outbox _) with }
  hooking _ blank := { (blank : Resolver.Blank outbox _) with }
  closing blank := by rwa [(Resolver.Blank.toShut blank).close_eq]

theorem lasts_idle (outbox : List Datagram) : (idle outbox).Lasts where
  arrival source octets holds := by
    rwa [holds.1.1.toShut.deliver_eq]
  sending holds := ⟨⟨{ holds.1.1 with outbox := .inr rfl }, holds.1.2⟩, holds.2⟩
  passing _ holds := ⟨⟨{ holds.1.1 with }, holds.1.2⟩, holds.2⟩
  hooking _ holds := ⟨⟨{ holds.1.1 with }, holds.1.2⟩, holds.2⟩
  closing holds := by rwa [holds.1.1.toShut.close_eq]

end Conduct

namespace System

/-- The passes of all `calls`. -/
def passes (system : System) : List Pass := system.calls.flatMap Call.passes

/-- The `system` after some `happenings`, whether they succeed or are refused on the way. -/
def later (happenings : List Happening) (system : System) : System :=
  happenings.foldl (fun system happening => (occur happening system).2) system

theorem later_arrival {source : Endpoint} {octets : Octets} {message : Message}
    (decoded : Message.decode octets = .ok message) (response : message.header.isResponse = true)
    {happenings : List Happening} {system : System} :
    later (.arrival source octets :: happenings) system =
      later happenings (system.take source octets message) :=
  congrArg (later happenings) (occur_arrival decoded response system)

theorem later_append (first second : List Happening) (system : System) :
    later (first ++ second) system = later second (later first system) := List.foldl_append

variable {conduct : Conduct} {system : System}

/-- The passes of a `call`, and those of the other `calls`. -/
theorem passes_perm {calls : List Call} {index : Nat} {call : Call}
    (here : calls[index]? = some call) :
    (calls.flatMap Call.passes).Perm
      (call.passes ++ (calls.eraseIdx index).flatMap Call.passes) := by
  obtain ⟨bound, rfl⟩ := List.getElem?_eq_some_iff.mp here
  exact (List.getElem_cons_eraseIdx_perm bound).symm.flatMap_right Call.passes

theorem passes_set_perm {calls : List Call} {index : Nat} {call : Call}
    (here : calls[index]? = some call) (next : Call) :
    ((calls.set index next).flatMap Call.passes).Perm
      (next.passes ++ (calls.eraseIdx index).flatMap Call.passes) :=
  (List.set_perm_cons_eraseIdx (List.getElem?_eq_some_iff.mp here).1 next).flatMap_right
    Call.passes

/-- What happens to a `system` keeps a `conduct` that `withstands` it, even where it is refused. -/
theorem holds_occur {happening : Happening} (withstands : conduct.Withstands happening)
    (holds : conduct.Holds system.passes system.resolver) :
    conduct.Holds (occur happening system).2.passes (occur happening system).2.resolver := by
  -- Calls keep the conduct by themselves; for all that comes from outside this is what is given.
  cases happening with
  | request request =>
    have same : (occur (.request request) system).2.passes = system.passes := by
      show (system.calls ++ [_]).flatMap Call.passes = _
      rw [List.flatMap_append]
      exact List.append_nil _
    rwa [same]
  | step index =>
    cases here : system.calls[index]? with
    | none => rwa [occur, onCall_of_none here]
    | some call =>
      obtain ⟨next, calls, goes⟩ := Conduct.holds_step here (conduct.perm (passes_perm here) holds)
      unfold passes
      rw [calls]
      exact conduct.perm (passes_set_perm here next).symm goes
  | event index serial event =>
    cases here : system.calls[index]? with
    | none => rwa [occur, onCall_of_none here]
    | some call =>
      rw [occur_event here]
      exact conduct.perm ((passes_perm here).trans
        (passes_set_perm here (call.notify serial event)).symm) holds
  | abandon index =>
    cases here : system.calls[index]? with
    | none => rwa [occur, onCall_of_none here]
    | some call =>
      obtain ⟨calls, goes⟩ := Conduct.holds_abandon here (conduct.perm (passes_perm here) holds)
      unfold passes
      rwa [calls]
  | arrival | sending | passing | hooking | closing => exact withstands _ _ holds

/-- A `conduct` that `withstands` all that happens holds at the end. -/
theorem holds_afterwards {happenings : List Happening}
    (withstands : ∀ happening ∈ happenings, conduct.Withstands happening)
    (holds : conduct.Holds system.passes system.resolver) :
    conduct.Holds (later happenings system).passes (later happenings system).resolver := by
  induction happenings generalizing system with
  | nil => exact holds
  | cons happening happenings ih =>
    obtain ⟨first, rest⟩ := List.forall_mem_cons.mp withstands
    exact ih rest (holds_occur first holds)

/-- Where a `call` of a `system` comes from when something happens. -/
inductive Brings (system : System) : Call → Prop
  | stays {call : Call} (member : call ∈ system.calls) : Brings system call
  | begins (request : Request) : Brings system (.new request system.resolver.settings.budget)
  | steps {call next : Call} {after : Resolver} (member : call ∈ system.calls)
    (ran : call.step system.resolver = (.ok (some next), after)) : Brings system next
  | hears {call : Call} (member : call ∈ system.calls) (serial : Nat) (event : Event) :
    Brings system (call.notify serial event)

theorem brings_of_occur {happening : Happening} {call : Call}
    (member : call ∈ (occur happening system).2.calls) : system.Brings call := by
  -- Where one call is put in its place, the others stay.
  have put (index : Nat) {next : Call} (own : system.Brings next)
      (member : call ∈ system.calls.set index next) : system.Brings call := by
    obtain before | rfl := List.mem_or_eq_of_mem_set member
    · exact .stays before
    · exact own
  cases happening with
  | request request =>
    obtain before | new := List.mem_append.mp member
    · exact .stays before
    · obtain rfl := List.mem_singleton.mp new
      exact .begins request
  | step index =>
    cases here : system.calls[index]? with
    | none =>
      rw [occur, onCall_of_none here] at member
      exact .stays member
    | some prior =>
      have among := List.mem_of_getElem? here
      simp only [occur, onCall_of_some here, onResolver, Op.bind_apply, Op.onPart_apply] at member
      rcases stepped : prior.step system.resolver with ⟨misuse | _ | next, after⟩
      all_goals rw [stepped] at member
      · exact .stays member
      · exact .stays member
      · exact put index (.steps among stepped) member
  | event index serial event =>
    cases here : system.calls[index]? with
    | none =>
      rw [occur, onCall_of_none here] at member
      exact .stays member
    | some prior =>
      rw [occur_event here] at member
      exact put index (.hears (List.mem_of_getElem? here) serial event) member
  | abandon index =>
    cases here : system.calls[index]? with
    | none =>
      rw [occur, onCall_of_none here] at member
      exact .stays member
    | some prior =>
      simp only [occur, onCall_of_some here, onResolver, Op.bind_apply, Op.onPart_apply,
        Op.lift_apply] at member
      exact .stays (List.mem_of_mem_eraseIdx member)
  | arrival | sending | passing | hooking | closing => exact .stays member

/-- What is true of every `call` that begins, and stays true when it hears of an `event` or takes a
`step` at a `resolver` of which the `conduct` holds, is true of all `calls` at the end. -/
theorem calls_afterwards {P : Call → Prop} {happenings : List Happening}
    (withstands : ∀ happening ∈ happenings, conduct.Withstands happening)
    (begins : ∀ request budget, P (.new request budget))
    (hears : ∀ (call : Call) serial event, P call → P (call.notify serial event))
    (steps : ∀ (call next : Call) passes resolver after, conduct.Holds passes resolver →
      call.step resolver = (.ok (some next), after) → P call → P next)
    (holds : conduct.Holds system.passes system.resolver) (all : ∀ call ∈ system.calls, P call) :
    ∀ call ∈ (later happenings system).calls, P call := by
  induction happenings generalizing system with
  | nil => exact all
  | cons happening happenings ih =>
    obtain ⟨first, rest⟩ := List.forall_mem_cons.mp withstands
    refine ih rest (holds_occur first holds) fun call member => ?_
    cases brings_of_occur member with
    | stays before => exact all call before
    | begins request => exact begins request _
    | steps before ran => exact steps _ _ _ _ _ holds ran (all _ before)
    | hears before serial event => exact hears _ serial event (all _ before)

theorem holds_later (lasts : conduct.Lasts) (holds : conduct.Holds system.passes system.resolver)
    (happenings : List Happening) :
    conduct.Holds (later happenings system).passes (later happenings system).resolver :=
  holds_afterwards (fun happening _ => lasts.withstands happening) holds

/-- Closing is final.

Whatever happens after a resolver was closed while calls were under way, no query is put into the
`outbox` that was not on its way already, and none is `outstanding`. The `cache` stays empty if no
response waited to be taken up at that time (`Unanswered`). The `delegations` stay empty if besides
no `Pass` waited for another one to end, since it asks for the addresses of the servers that it was
referred to. -/
theorem closing_is_final (system : System) (opened : system.resolver.closed = false)
    (happenings : List Happening) :
    let after := (later (.closing :: happenings) system).resolver
    after.closed = true ∧ after.registry.outstanding = [] ∧
      (after.outbox = system.resolver.outbox ∨ after.outbox = []) ∧
      (system.resolver.registry.Unanswered → after.cache.isEmpty = true ∧
        (Pass.Flat system.passes → after.delegations.isEmpty = true)) := by
  intro after
  let closed : System := { system with resolver := system.resolver.close }
  have same : closed.resolver = { system.resolver with
      closed := true
      registry := system.resolver.registry.clear
      cache := system.resolver.cache.clear
      delegations := system.resolver.delegations.clear } := by
    simp [closed, Resolver.close, opened]
  let outbox := system.resolver.outbox
  have shut : (Regime.shut outbox).conduct.Holds closed.passes closed.resolver := by
    rw [same]
    exact ⟨rfl, rfl, .inl rfl⟩
  -- Three conducts one above the other: shut, then without responses, then without nested passes.
  have final : after.Shut outbox := holds_later (Conduct.lasts_shut outbox) shut happenings
  refine ⟨final.closed, final.outstanding, final.outbox, fun unanswered => ?_⟩
  have blank : (Regime.blank outbox).conduct.Holds closed.passes closed.resolver := by
    rw [same] at shut ⊢
    exact ⟨shut, unanswered, rfl⟩
  have stays : after.Blank outbox := holds_later (Conduct.lasts_blank outbox) blank happenings
  refine ⟨stays.cache, fun flat => ?_⟩
  have idle : (Conduct.idle outbox).Holds closed.passes closed.resolver := by
    refine ⟨⟨blank, ?_⟩, flat⟩
    rw [same]
    rfl
  have last := holds_later (Conduct.lasts_idle outbox) idle happenings
  exact last.1.2

/-- A server. Below it stand a system without calls that asks it, and how a lookup there comes to
wait for the responses to its first queries. -/
def sampleServer : Endpoint := .ofAddress (.v4 (.ofOctets 192 0 2 1)) 53

def sampleStart : System := .start (Settings.new.addServer sampleServer) .empty .default .default

def sampleLookup : List Happening :=
  [.request (.host "a."), .step 0, .step 0, .step 0, .sending, .event 0 1 .written, .step 0]

/-- A lookup waits for the responses to its first queries when the `resolver` is closed. -/
theorem closing_is_final_lookup :
    let waiting := later sampleLookup sampleStart
    let after := (later [.closing, .event 0 1 .roused, .step 0] waiting).resolver
    waiting.resolver.registry.size = 2 ∧ after.closed = true ∧ after.registry.outstanding = [] ∧
      after.cache.isEmpty = true ∧ after.delegations.isEmpty = true := by
  have waits : (later sampleLookup sampleStart).resolver.registry.size = 2 := by decide +kernel
  have opened : (later sampleLookup sampleStart).resolver.closed = false := by decide +kernel
  have none : (later sampleLookup sampleStart).resolver.registry.replies.isEmpty = true := by
    decide +kernel
  have flat : (later sampleLookup sampleStart).passes.all (·.outer.isEmpty) = true := by
    decide +kernel
  obtain ⟨closed, empty, -, stays⟩ :=
    closing_is_final (later sampleLookup sampleStart) opened [.event 0 1 .roused, .step 0]
  obtain ⟨cache, delegations⟩ := stays fun serial message mem => by
    rw [List.isEmpty_iff.mp none] at mem
    cases mem
  exact ⟨waits, closed, empty, cache, delegations fun pass mem =>
    List.isEmpty_iff.mp (List.all_eq_true.mp flat pass mem)⟩

/-! ### A referral that is followed across the closing -/

/-- The response to the query for addresses of `a.`, which says that `b.` serves the zone `a.` -/
def referral : Message :=
  ⟨⟨0, 129, 128⟩, [.internet (.top 97) .a], [],
    [⟨.top 97, .internet, 3600, .ns (.top 98)⟩], []⟩

def referralOctets : Octets :=
  #[0, 0, 129, 128, 0, 1, 0, 0, 0, 1, 0, 0, 1, 97, 0, 0, 1, 0, 1,
    192, 12, 0, 2, 0, 1, 0, 0, 14, 16, 0, 3, 1, 98, 0]

theorem spells_referral : Spells referralOctets 12 (Name.top 97).labels 15 :=
  .label (by decide) (.root (by decide))

theorem reads_referral_question :
    Question.decoder.Reads (· = .internet (.top 97) .a) referralOctets 12 19 :=
  (Name.reads_of_spells spells_referral (by decide)).bind fun _ own => ⟨_, rfl, by rw [own]; rfl⟩

theorem reads_referral_record :
    Record.decoder.Reads (· = ⟨.top 97, .internet, 3600, .ns (.top 98)⟩)
      referralOctets 19 34 := by
  have owner : Spells referralOctets 19 (Name.top 97).labels 21 :=
    .pointer (by decide) (by decide) (by decide) spells_referral
  have server : Spells referralOctets 31 (Name.top 98).labels 34 :=
    .label (by decide) (.root (by decide))
  have data : (RecordData.decoder .ns 3).Reads (· = .ns (.top 98)) referralOctets 31 34 :=
    (Name.reads_of_spells server (by decide)).map fun _ own => congrArg RecordData.ns own
  exact Record.reads (Name.reads_of_spells owner (by decide)) ⟨_, rfl, rfl⟩ ⟨_, rfl, rfl⟩
    ⟨_, rfl, rfl⟩ ⟨3, rfl, rfl⟩ data (by decide) rfl

theorem decode_referral : Message.decode referralOctets = .ok referral :=
  Message.decode_of_reads ⟨_, rfl, rfl⟩ ⟨1, rfl, rfl⟩ ⟨0, rfl, rfl⟩ ⟨1, rfl, rfl⟩ ⟨0, rfl, rfl⟩
    reads_referral_question.single .none reads_referral_record.single .none

/-- A lookup was referred to a server, for the addresses of which it asks when the `resolver` is
closed. It fails to learn these, but remembers the server. -/
theorem closing_is_final_referred :
    let waiting := later (sampleLookup ++ [.arrival sampleServer referralOctets,
      .event 0 1 .roused, .step 0]) sampleStart
    (later [.closing, .event 0 3 .written, .step 0] waiting).resolver.delegations.isEmpty =
      false := by
  let taken := (later sampleLookup sampleStart).take sampleServer referralOctets referral
  have goes : (later [.closing, .event 0 3 .written, .step 0]
      (later [.event 0 1 .roused, .step 0] taken)).resolver.delegations.isEmpty = false := by
    decide +kernel
  intro waiting
  have same : waiting = later [.event 0 1 .roused, .step 0] taken := by
    rw [← later_arrival decode_referral rfl]
    exact later_append _ _ _
  rw [same]
  exact goes

end System

end NameResolution
