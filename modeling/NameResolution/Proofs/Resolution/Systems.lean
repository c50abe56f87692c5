import NameResolution.Proofs.Resolution.Safety
import NameResolution.Proofs.Settings

/-!
# Resolvers in operation

A `System` is a resolver with all calls into it. Its environment is arbitrary: calls begin and take
their steps in any order, any octets arrive from anywhere, sending fails or times out at will, the
searches for IDs start anywhere, and the hook may become another one whenever something happens.

* `Happening`: what can happen to a system. `System.run`: one thing after the other.
* `System.step_sound`: whatever happens to a sound system succeeds, and leaves it sound.
* `System.run_never_refused`: so no precondition is ever broken, as long as the clock does not run
  out. All records that are kept are encodable, and there are servers for all turns.
-/

namespace NameResolution

/-- A `Resolver` and all calls into it that were not given up. -/
structure System where
  resolver : Resolver
  calls : List Call

/-- What can happen to a system: a call begins, takes a step, hears of an event or is given up; a
message arrives; the queries in the outbox are sent; time passes; the resolver is closed. A hook may
keep a state, by which it does something else from then on: this is `hooking`. -/
inductive Happening
  | request (request : Request)
  | step (index : Nat)
  | event (index serial : Nat) (event : Event)
  | abandon (index : Nat)
  | arrival (source : Endpoint) (octets : Octets)
  | sending
  | passing (span : Duration)
  | hooking (hook : Hook)
  | closing

/-- How long a `Happening` takes. -/
def Happening.span : Happening → Nat
  | .passing span => span.nanos
  | _ => 0

namespace System

/-- A system without calls, with a resolver that has learned nothing yet. The random values at which
it searches for IDs are the `starts`. -/
def start (settings : Settings) (hosts : HostTable) (hook : Hook) (limits : CacheSettings)
    (starts : Nat → UInt16 := fun _ => 0) : System := ⟨.new settings hosts hook limits starts, []⟩

/-- An operation on the `Resolver`. -/
def onResolver {α : Type} (op : Op Resolver α) : Op System α :=
  Op.onPart System.resolver (fun system resolver => { system with resolver := resolver }) op

/-- Lets something happen to a `call`. -/
def onCall (index : Nat) (change : Call → Op System Unit) : Op System Unit := do
  match (← get).calls[index]? with
  | some call => change call
  | none => return

/-- Puts a `call` in its place. -/
def putCall (index : Nat) (call : Call) : Op System Unit :=
  modify fun system => { system with calls := system.calls.set index call }

/-- Lets a `Happening` happen. -/
def occur : Happening → Op System Unit
  | .request request => modify fun system => { system with
      calls := system.calls ++ [.new request system.resolver.settings.budget] }
  | .step index => onCall index fun call => do
    match ← onResolver call.step with
    | some next => putCall index next
    | none => return
  | .event index serial event => onCall index fun call => putCall index (call.notify serial event)
  | .abandon index => onCall index fun call => do
    onResolver (ExceptT.lift call.drop)
    modify fun system => { system with calls := system.calls.eraseIdx index }
  | .arrival source octets => do
    let _ ← onResolver (ExceptT.lift (Resolver.deliver source octets))
  | .sending => modify fun system => { system with
      resolver := { system.resolver with outbox := [] } }
  | .passing span => modify fun system => { system with
      resolver := { system.resolver with now := system.resolver.now.saturatingAdd span } }
  | .hooking hook => modify fun system => { system with
      resolver := { system.resolver with hook := hook } }
  | .closing => modify fun system => { system with resolver := system.resolver.close }

section

variable {system : System} {index : Nat} {change : Call → Op System Unit}

/-- Where there is no call at `index`, nothing happens to one. -/
theorem onCall_of_none (none : system.calls[index]? = none) :
    onCall index change system = (.ok (), system) := by
  simp only [onCall, Op.bind_apply, Op.get_apply, none, Op.pure_apply]

theorem onCall_of_some {call : Call} (here : system.calls[index]? = some call) :
    onCall index change system = change call system := by
  simp only [onCall, Op.bind_apply, Op.get_apply, here]

/-- The `call` that hears of an `event` is the only one that changes. -/
theorem occur_event {call : Call} (here : system.calls[index]? = some call) (serial : Nat)
    (event : Event) : (occur (.event index serial event) system).2 =
      { system with calls := system.calls.set index (call.notify serial event) } :=
  congrArg Prod.snd (onCall_of_some here)

end

/-- The `system` after a response has come in `octets`. -/
def take (source : Endpoint) (octets : Octets) (message : Message) (system : System) : System :=
  { system with resolver := { system.resolver with
    registry := system.resolver.registry.take system.resolver.hook source octets message } }

theorem occur_arrival {source : Endpoint} {octets : Octets} {message : Message}
    (decoded : Message.decode octets = .ok message) (response : message.header.isResponse = true)
    (system : System) :
    (occur (.arrival source octets) system).2 = system.take source octets message := by
  show { system with resolver := { system.resolver with
    registry := (Registry.deliver system.resolver.hook source octets
      system.resolver.registry).2 } } = _
  rw [Registry.deliver_of_read (Registry.readResponse_eq_ok_iff.mpr ⟨decoded, response⟩)]
  rfl

/-- Lets things happen one after the other, by `occur`. -/
def run : List Happening → Op System Unit
  | [] => return
  | happening :: happenings => do
    occur happening
    run happenings

/-- How long all of the happenings take: the sum of what each one's `span` is. -/
def duration : List Happening → Nat
  | [] => 0
  | happening :: happenings => happening.span + duration happenings

/-! ## What is under way -/

/-- The inquiries of a `Run`: that of its `pass`, and those of the passes around it. -/
def inquiriesOfRun : Run → List Inquiry
  | .waiting pass => pass.asked.inquiry :: pass.outer.map (·.inquiry)
  | _ => []

/-- The inquiries of a `call`. -/
def inquiriesOf (call : Call) : List Inquiry :=
  match call.activity with
  | .racing lookup => lookup.race.runs.flatMap fun run => inquiriesOfRun run.2
  | .asking asked => [asked.inquiry]
  | _ => []

/-- All `inquiries` under way. -/
def inquiries (system : System) : List Inquiry := system.calls.flatMap inquiriesOf

/-- The record `set` is kept in the cache, or among the delegations. -/
def Keeps (system : System) (set : RecordSet) : Prop :=
  ∃ cache ∈ [system.resolver.cache, system.resolver.delegations.cache], ∃ name type entry,
    cache.find? name type = some entry ∧ entry.finding = .present set

/-! ## Soundness -/

/-- The resolver and all calls are sound at the time `now`. -/
structure Sound (now : Duration) (system : System) : Prop where
  resolver : system.resolver.Sound now
  calls : ∀ call ∈ system.calls, call.Sound

theorem sound_start {settings : Settings} (absolute : settings.SearchesAbsolute)
    (hosts : HostTable) (hook : Hook) (limits : CacheSettings) (starts : Nat → UInt16) :
    (start settings hosts hook limits starts).Sound .zero where
  resolver := {
    search := absolute
    cache := Cache.sound_empty limits
    tidy := Cache.tidy_empty limits
    delegations := Cache.sound_empty limits
    registry := Registry.sound_empty starts
    time := rfl
    clock := Nat.le_of_ble_eq_true rfl }
  calls _ member := nomatch member

theorem Sound.encodable {now : Duration} {system : System} (sound : system.Sound now)
    {set : RecordSet} (keeps : system.Keeps set) : set.Encodable := by
  obtain ⟨cache, among, name, type, entry, found, present⟩ := keeps
  rw [List.mem_cons, List.mem_singleton] at among
  obtain rfl | rfl := among
  · exact sound.resolver.cache.sets name type entry set found present
  · exact sound.resolver.delegations.sets name type entry set found present

theorem Sound.inquiry {now : Duration} {system : System} (sound : system.Sound now)
    {inquiry : Inquiry} (member : inquiry ∈ system.inquiries) : inquiry.Sound := by
  obtain ⟨call, among, member⟩ := List.mem_flatMap.mp member
  have own := sound.calls call among
  unfold Call.Sound at own
  unfold inquiriesOf at member
  cases activity : call.activity with
  | racing lookup =>
    rw [activity] at own member
    obtain ⟨⟨type, run⟩, runs, member⟩ := List.mem_flatMap.mp member
    have goes := own.race.runs _ runs
    cases run with
    | waiting pass =>
      have waits : pass.Sound := goes
      obtain rfl | around := List.mem_cons.mp member
      · exact waits.asked
      · obtain ⟨gathering, outer, rfl⟩ := List.mem_map.mp around
        exact (waits.outer gathering outer).inquiry
    | _ => cases member
  | asking asked =>
    rw [activity] at own member
    exact List.mem_singleton.mp member ▸ own
  | _ =>
    rw [activity] at member
    cases member

/-! ## Steps -/

section

variable {now : Duration}

theorem sound_deliver (source : Endpoint) (octets : Octets) {resolver : Resolver}
    (sound : resolver.Sound now) : (resolver.deliver source octets).2.Sound now :=
  { sound with registry := sound.registry.deliver resolver.hook source octets }

theorem sound_close {resolver : Resolver} (sound : resolver.Sound now) :
    resolver.close.Sound now := by
  unfold Resolver.close
  split
  · exact sound
  · exact { sound with
      cache := Cache.sound_clear _
      tidy := Cache.tidy_clear _
      delegations := Cache.sound_clear _
      registry := sound.registry.of_subset (List.Subset.refl _) }

theorem succeeds_onResolver {α : Type} {op : Op Resolver α} {P : α → Prop}
    (succeeds : Op.Succeeds (Resolver.Sound now) op P) :
    Op.Succeeds (Sound now) (onResolver op) P :=
  .onPart (fun _ sound => sound.resolver) (fun _ _ sound next => { sound with resolver := next })
    succeeds

theorem succeeds_onCall {index : Nat} {change : Call → Op System Unit}
    (each : ∀ call : Call, call.Sound → Op.Succeeds (Sound now) (change call) fun _ => True) :
    Op.Succeeds (Sound now) (onCall index change) fun _ => True := by
  refine .bind .get fun system sound => ?_
  split
  · rename_i call here
    exact each call (sound.calls call (List.mem_of_getElem? here))
  · exact .pure trivial

theorem succeeds_putCall (index : Nat) {call : Call} (own : call.Sound) :
    Op.Succeeds (Sound now) (putCall index call) fun _ => True := by
  refine .modify fun system sound => ⟨sound.resolver, fun other member => ?_⟩
  obtain before | rfl := List.mem_or_eq_of_mem_set member
  · exact sound.calls other before
  · exact own

/-- Whatever happens to a `Sound` `system` succeeds, and leaves it sound at a later time, provided
that the clock goes that far. -/
theorem step_sound {system : System} (sound : system.Sound now) (happening : Happening)
    (clock : now.nanos + happening.span + 0xFFFFFFFF * Duration.second ≤
      Duration.longest.nanos) :
    ∃ next after, occur happening system = (.ok (), after) ∧ after.Sound next ∧
      next.nanos ≤ now.nanos + happening.span := by
  -- All happenings but the passing of time are over at once.
  have atOnce (succeeds : Op.Succeeds (Sound now) (occur happening) fun _ => True) :
      ∃ next after, occur happening system = (.ok (), after) ∧ after.Sound next ∧
        next.nanos ≤ now.nanos + happening.span := by
    obtain ⟨⟨⟩, after, ran, kept, -⟩ := succeeds system sound
    exact ⟨now, after, ran, kept, Nat.le_add_right _ _⟩
  cases happening with
  | request request =>
    exact atOnce (.modify fun _ sound => { sound with
      calls := List.forall_mem_append.mpr
        ⟨sound.calls, List.forall_mem_singleton.mpr (Call.sound_new request _)⟩ })
  | step index =>
    refine atOnce (succeeds_onCall fun call own => ?_)
    refine (succeeds_onResolver (Call.succeeds_step own)).bind fun next goes => ?_
    cases next with
    | none => exact .pure trivial
    | some next => exact succeeds_putCall index (goes next rfl)
  | event index serial event =>
    exact atOnce (succeeds_onCall fun call own =>
      succeeds_putCall index (Call.sound_notify own serial event))
  | abandon index =>
    refine atOnce (succeeds_onCall fun call own => ?_)
    refine (succeeds_onResolver (.lift (P := fun _ => True) fun _ sound =>
      ⟨call.sound_drop sound, trivial⟩)).bind fun _ _ => ?_
    exact .modify fun _ sound => { sound with
      calls := fun other member => sound.calls other (List.mem_of_mem_eraseIdx member) }
  | arrival source octets =>
    exact atOnce ((succeeds_onResolver (.lift (P := fun _ => True) fun _ sound =>
      ⟨sound_deliver source octets sound, trivial⟩)).bind fun _ _ => .pure trivial)
  | sending => exact atOnce (.modify fun _ sound => { sound with
      resolver := { sound.resolver with } })
  | hooking hook => exact atOnce (.modify fun _ sound => { sound with
      resolver := { sound.resolver with } })
  | closing => exact atOnce (.modify fun _ sound => { sound with
      resolver := sound_close sound.resolver })
  | passing span =>
    have later : (now.saturatingAdd span).nanos = now.nanos + span.nanos := by
      have bounded : now.nanos + span.nanos < 0x10000000000000000 * 1000000000 := by
        have most : Duration.longest.nanos = 0x10000000000000000 * 1000000000 - 1 := rfl
        simp only [Happening.span, Duration.second, most] at clock
        omega
      unfold Duration.saturatingAdd Duration.ofNanos
      rw [dif_pos bounded]
    have timely : Cache.Timely (now.saturatingAdd span) := by
      rw [Cache.Timely, later]
      exact clock
    exact ⟨now.saturatingAdd span, _, rfl, { sound with
      resolver := { sound.resolver with
        time := congrArg (·.saturatingAdd span) sound.resolver.time
        clock := timely } }, Nat.le_of_eq later⟩

/-- Whatever happens to a `Sound` `system` one thing after the other, all of it succeeds, and the
system stays sound. -/
theorem run_sound {happenings : List Happening} {system : System} (sound : system.Sound now)
    (clock : now.nanos + duration happenings + 0xFFFFFFFF * Duration.second ≤
      Duration.longest.nanos) :
    ∃ next after, run happenings system = (.ok (), after) ∧ after.Sound next := by
  induction happenings generalizing now system with
  | nil => exact ⟨now, system, rfl, sound⟩
  | cons happening happenings ih =>
    rw [duration] at clock
    obtain ⟨later, middle, first, kept, soon⟩ := step_sound sound happening (by omega)
    obtain ⟨next, after, rest, holds⟩ := ih kept (by omega)
    exact ⟨next, after, Op.bind_eq_ok.mpr ⟨(), middle, first, rest⟩, holds⟩

end

/-- All that happens to a `system` from its start on succeeds, and the system is `Sound`. -/
theorem run_sound_start {settings : Settings} (absolute : settings.SearchesAbsolute)
    (hosts : HostTable) (hook : Hook) (limits : CacheSettings) (starts : Nat → UInt16)
    {happenings : List Happening}
    (clock : duration happenings + 0xFFFFFFFF * Duration.second ≤ Duration.longest.nanos) :
    ∃ now system, run happenings (start settings hosts hook limits starts) = (.ok (), system) ∧
      system.Sound now := by
  refine run_sound (sound_start absolute hosts hook limits starts) ?_
  rw [show Duration.zero.nanos = 0 from rfl, Nat.zero_add]
  exact clock

/-- However the `settings` came about, wherever the searches for IDs start, and whatever happens to
the system, the `run` succeeds, so no operation is ever refused with a `Misuse`: no relative name is
put into a message, looked up or said to be absent, no type that appears in questions only is kept,
only name servers are remembered as delegations, no data or section is too long, and no query is
begun twice. All record sets that are kept are encodable, and all inquiries are about absolute
names, with a server for every turn that is left. -/
theorem run_never_refused {settings : Settings} (built : settings.Built) (hosts : HostTable)
    (hook : Hook) (limits : CacheSettings) (starts : Nat → UInt16) (happenings : List Happening)
    (clock : duration happenings + 0xFFFFFFFF * Duration.second ≤ Duration.longest.nanos) :
    ∃ system, run happenings (start settings hosts hook limits starts) = (.ok (), system) ∧
      (∀ set, system.Keeps set → set.Encodable) ∧
      ∀ inquiry ∈ system.inquiries, inquiry.name.absolute = true ∧
        (inquiry.rota.next < inquiry.rota.stop → inquiry.rota.turn?.isSome) := by
  obtain ⟨now, system, ran, kept⟩ :=
    run_sound_start built.searchesAbsolute hosts hook limits starts clock
  refine ⟨system, ran, fun set => kept.encodable, fun inquiry member => ?_⟩
  have own := kept.inquiry member
  exact ⟨own.name, own.rota.isSome_turn?⟩

/-- Whatever happens, every call finds a `Tidy` `cache`. -/
theorem run_tidy {settings : Settings} (built : settings.Built) (hosts : HostTable) (hook : Hook)
    (limits : CacheSettings) (starts : Nat → UInt16) (happenings : List Happening)
    (clock : duration happenings + 0xFFFFFFFF * Duration.second ≤ Duration.longest.nanos) :
    ∃ system, run happenings (start settings hosts hook limits starts) = (.ok (), system) ∧
      system.resolver.cache.Tidy := by
  obtain ⟨now, system, ran, kept⟩ :=
    run_sound_start built.searchesAbsolute hosts hook limits starts clock
  exact ⟨system, ran, kept.resolver.tidy⟩

/-- A response to a query for the address of a top level name, with a record of a type that appears
in questions only. -/
def metaResponse : Octets :=
  #[0, 0, 129, 128, 0, 1, 0, 1, 0, 0, 0, 0, 1, 97, 0, 0, 1, 0, 1,
    192, 12, 0, 255, 0, 1, 0, 0, 0, 60, 0, 1, 0]

/-- A lookup of a host at the server on this host, which answers with `metaResponse`. -/
def metaRun : List Happening :=
  [.request (.host "a."), .step 0, .step 0, .sending, .event 0 1 .written, .step 0,
    .passing (.ofMillis 20), .arrival (.v4 .loopback 53) metaResponse, .event 0 1 .roused, .step 0,
    .passing (.ofSeconds 5), .event 0 2 .elapsed, .step 0, .closing]

theorem run_never_refused_meta : (Settings.finalize .new).Built ∧
    duration metaRun + 0xFFFFFFFF * Duration.second ≤ Duration.longest.nanos ∧
    ∃ system, run metaRun (start (Settings.finalize .new) .empty .default .default) =
        (.ok (), system) ∧
      (∀ set, system.Keeps set → set.Encodable) ∧
      ∀ inquiry ∈ system.inquiries, inquiry.name.absolute = true ∧
        (inquiry.rota.next < inquiry.rota.stop → inquiry.rota.turn?.isSome) := by
  have clock : duration metaRun + 0xFFFFFFFF * Duration.second ≤ Duration.longest.nanos := by decide
  exact ⟨.finalize .new, clock,
    run_never_refused (.finalize .new) .empty .default .default (fun _ => 0) metaRun clock⟩

end System

end NameResolution
