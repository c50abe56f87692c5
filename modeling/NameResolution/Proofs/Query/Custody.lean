import Mathlib.Data.List.Nodup
import NameResolution.Proofs.Query.Allocation
import NameResolution.Query.Basic

/-!
# Custody of registrations

A query that is never unregistered takes an ID of its server away for good. So every registration
is held by a query that is still under way, however queries end.

* `Query.Holds`: a query that is under way holds a registration.
* `Query.proceeds_happen`: all that an event does to a query and the registry.
* `Registry.Covered`: all registrations are held.
* `Desk`: queries of one registry, which are begun, meet events and are dropped in any order.
* `Desk.kept_run`: what holds after all such runs.
-/

namespace NameResolution

/-- The state of a query that has ended with a result, which is a `Settlement`. -/
def QueryState.ofSettlement : Settlement → QueryState
  | .ok _ => succeeded
  | .error .timeout => timedOut
  | .error .cancelled => cancelled
  | .error _ => transportFailed

theorem QueryState.isSettled_ofSettlement (result : Settlement) :
    (ofSettlement result).isSettled = true := by
  cases result with
  | ok message => rfl
  | error failure => cases failure <;> rfl

namespace Query

/-- The `query` is under way, and the `Registration` is its own. -/
structure Holds (query : Query) (entry : Registration) : Prop where
  unsettled : query.state.isSettled = false
  server : entry.server = query.server
  id : entry.id = query.id
  serial : entry.serial = query.serial

/-- Beginning a `query` makes it one that has been begun, and that is being sent unless this is
refused. A query that has been begun stays as it is. -/
theorem begin_cases (hook : Hook) (query : Query) :
    query.begun = true ∧ (begin hook).runOn query = (.error .queryRunTwice, query) ∨
      query.begun = false ∧
        ((∃ misuse, (begin hook).runOn query = (.error misuse, { query with begun := true })) ∨
          ∃ octets, (begin hook).runOn query =
            (.ok octets, { query with begun := true, state := .writing })) := by
  rw [Op.runOn_eq, begin, Op.bind_apply, Op.get_apply]
  dsimp only
  cases begun : query.begun with
  | true => exact .inl ⟨rfl, rfl⟩
  | false =>
    refine .inr ⟨rfl, ?_⟩
    cases encoded : (Message.query query.question query.id true).encode with
    | error misuse => exact .inl ⟨misuse, by simp⟩
    | ok octets => exact .inr ⟨hook.sign query.server octets, by simp [Except.map]⟩

/-- What an event can do to a `query` and its `registry`: nothing; the query has been sent; or it
ends with a `result`, in the `state` for this result, and undoes its registration. A `response` is
one that the query was handed. -/
inductive Happened (query : Query) (registry : Registry) :
    (Option Settlement × Query) × Registry → Prop
  | nothing : Happened query registry ((none, query), registry)
  | written (writing : query.state = .writing) :
    Happened query registry ((none, { query with state := .awaiting }), registry)
  | ends (result : Settlement) (underWay : query.state = .writing ∨ query.state = .awaiting)
    (handed : ∀ message, result = .ok message →
      (query.serial, Reply.response message) ∈ registry.replies) :
    Happened query registry ((some result, { query with state := .ofSettlement result }),
      registry.release query.server query.id query.serial)

/-- Whatever the `Registry`, the operation does to the `query` what an event can do. -/
def Proceeds (query : Query) (op : StateM Registry (Option Settlement × Query)) : Prop :=
  ∀ registry, query.Happened registry (op registry)

theorem mem_replies_of_fate {registry : Registry} {serial : Nat} {reply : Reply}
    (fate : registry.fate serial = .answered reply) : (serial, reply) ∈ registry.replies := by
  unfold Registry.fate at fate
  split at fate
  · rename_i found
    obtain ⟨front, back, replies, -⟩ := List.lookup_eq_some_iff.mp found
    rw [replies, ← Fate.answered.inj fate]
    exact List.mem_append_right _ List.mem_cons_self
  · split at fate <;> cases fate

theorem proceeds_check {query : Query} (awaiting : query.state = .awaiting) :
    query.Proceeds query.check := by
  intro registry
  simp only [check, stateM_bind_apply, stateM_get_apply]
  cases fate : registry.fate query.serial with
  | waiting => exact .nothing
  | answered reply =>
    cases reply with
    | response message =>
      refine .ends (.ok message) (.inr awaiting) fun other same => ?_
      exact Except.ok.inj same ▸ mem_replies_of_fate fate
    | rejected => exact .ends (.error .rejected) (.inr awaiting) fun _ same => nomatch same
  | gone => exact .ends (.error .cancelled) (.inr awaiting) fun _ same => nomatch same

/-- All that an `event` can do to a `query` and the registry. -/
theorem proceeds_happen (query : Query) (event : Event) : query.Proceeds (query.happen event) := by
  unfold happen
  split
  · rename_i writing
    intro registry
    have waits : { query with state := .awaiting }.state = .awaiting := rfl
    have checked := proceeds_check waits registry
    generalize check { query with state := .awaiting } registry = found at checked ⊢
    cases checked with
    | nothing => exact .written writing
    | written writing => cases writing
    | ends result _ handed => exact .ends result (.inl writing) handed
  · rename_i text writing
    exact fun _ => .ends (.error (.transport text)) (.inl writing) fun _ same => nomatch same
  · rename_i awaiting
    exact proceeds_check awaiting
  · rename_i awaiting
    intro registry
    have checked := proceeds_check awaiting registry
    rw [stateM_bind_apply]
    generalize query.check registry = found at checked
    cases checked with
    | nothing => exact .ends (.error .timeout) (.inr awaiting) fun _ same => nomatch same
    | written writing => cases writing.symm.trans awaiting
    | ends result _ handed => exact .ends result (.inr awaiting) handed
  · exact fun _ => .nothing

end Query

/-! ## Registrations that are held -/

namespace Registry

/-- All registrations of the `registry` are `held`. -/
def Covered (registry : Registry) (held : Registration → Prop) : Prop :=
  ∀ entry ∈ registry.outstanding, held entry

variable {registry : Registry} {held : Registration → Prop}

theorem Covered.of_subset (covered : registry.Covered held) {next : Registry}
    (fewer : next.outstanding ⊆ registry.outstanding) : next.Covered held :=
  fun entry mem => covered entry (fewer mem)

theorem Covered.imp (covered : registry.Covered held) {other : Registration → Prop}
    (weaker : ∀ entry ∈ registry.outstanding, held entry → other entry) :
    registry.Covered other := fun entry mem => weaker entry mem (covered entry mem)

theorem outstanding_deliver_sublist (hook : Hook) (source : Endpoint) (octets : Octets) :
    (deliver hook source octets registry).2.outstanding.Sublist registry.outstanding := by
  cases read : readResponse octets with
  | error failure => simp [deliver, read]
  | ok message =>
    cases found : registry.find? source message.header.id with
    | none => simp [deliver, read, found]
    | some entry =>
      by_cases answer : message.IsAnswerTo entry.question <;>
        simp [deliver, read, found, answer, remove]

/-- A `query` that undoes its registration no longer has to hold it. -/
theorem Covered.release {query : Query} (covered : registry.Covered fun entry =>
    query.Holds entry ∨ held entry) :
    (registry.release query.server query.id query.serial).Covered held := by
  intro entry left
  obtain ⟨mem, other⟩ := List.mem_filter.mp left
  obtain own | held := covered entry mem
  · simp [own.server, own.id, own.serial] at other
  · exact held

/-- A `query` that is dropped no longer has to hold its registration. -/
theorem Covered.drop {query : Query} (covered : registry.Covered fun entry =>
    query.Holds entry ∨ held entry) : (query.drop registry).2.Covered held := by
  unfold Query.drop
  by_cases settled : query.state.isSettled = true
  · rw [if_pos settled]
    refine covered.imp fun entry _ holder => holder.resolve_left fun own => ?_
    exact Bool.false_ne_true (own.unsettled.symm.trans settled)
  · rw [if_neg settled]
    exact covered.release

/-- A `query` that goes on waiting still holds its registration, and one that has ended does not
have to. -/
theorem Covered.happen {query : Query} (covered : registry.Covered fun entry =>
    query.Holds entry ∨ held entry) {happened : (Option Settlement × Query) × Registry}
    (effect : query.Happened registry happened) :
    happened.2.Covered fun entry => happened.1.2.Holds entry ∨ held entry := by
  cases effect with
  | nothing => exact covered
  | written =>
    exact covered.imp fun entry _ => Or.imp_left fun own => ⟨rfl, own.server, own.id, own.serial⟩
  | ends result => exact covered.release.imp fun _ _ => .inr

end Registry

/-! ## Desks -/

/-- A `Query`, the result that it has ended with, and whether it was dropped. -/
structure Context where
  query : Query
  result : Option Settlement
  dropped : Bool

namespace Context

/-- The query of the `context` is settled, or it was dropped. -/
def Closed (context : Context) : Prop :=
  context.query.state.isSettled = true ∨ context.dropped = true

instance (context : Context) : Decidable context.Closed := inferInstanceAs (Decidable (_ ∨ _))

/-- The query holds a `Registration` and was not dropped. -/
def Keeps (context : Context) (entry : Registration) : Prop :=
  context.dropped = false ∧ context.query.Holds entry

/-- The state of the query is that for the result of the `context`, if it has one. -/
structure Agrees (context : Context) : Prop where
  settled : context.query.state.isSettled = context.result.isSome
  state : ∀ result, context.result = some result → context.query.state = .ofSettlement result
  fresh : context.query.begun = false → context.query.state = .created

/-- The state of the query says how it ended, which is the result of the `context`. -/
structure Tells (context : Context) : Prop where
  succeeded : context.query.state = .succeeded ↔ ∃ message, context.result = some (.ok message)
  timedOut : context.query.state = .timedOut ↔ context.result = some (.error .timeout)
  cancelled : context.query.state = .cancelled ↔ context.result = some (.error .cancelled)
  transportFailed : context.query.state = .transportFailed ↔
    ∃ failure, context.result = some (.error failure) ∧ failure ≠ .timeout ∧ failure ≠ .cancelled

theorem Agrees.tells {context : Context} (agrees : context.Agrees) : context.Tells := by
  have settled := agrees.settled
  have state := agrees.state
  cases result : context.result with
  | none =>
    rw [result] at settled
    constructor <;> cases own : context.query.state <;> simp_all [QueryState.isSettled]
  | some result' =>
    have same := state result' result
    cases result' with
    | ok message => constructor <;> simp [result, same, QueryState.ofSettlement]
    | error failure =>
      constructor <;> cases failure <;> simp [result, same, QueryState.ofSettlement]

theorem Keeps.not_closed {context : Context} {entry : Registration} (keeps : context.Keeps entry) :
    ¬context.Closed := by
  rintro (settled | dropped)
  · exact Bool.false_ne_true (keeps.2.unsettled.symm.trans settled)
  · exact Bool.false_ne_true (keeps.1.symm.trans dropped)

end Context

/-- The queries of one `Registry`, in the order in which they were made. Those that were dropped are
still listed. -/
structure Desk where
  registry : Registry
  contexts : List Context

namespace Desk

/-- What can happen at a desk: a query is made, begun, meets an `event` or is dropped; messages
arrive; registrations are removed. -/
inductive Deed
  | make (start : UInt16) (server : Endpoint) (question : Question)
  | begin (index : Nat) (hook : Hook)
  | event (index : Nat) (event : Event)
  | drop (index : Nat)
  | deliver (hook : Hook) (source : Endpoint) (octets : Octets)
  | remove (server : Endpoint) (id : UInt16)
  | clear

/-- A `Desk` without queries. -/
def empty : Desk := ⟨.empty, []⟩

/-- Lets a `change` happen to the query in the place `index`, unless it was dropped. -/
def onContext (desk : Desk) (index : Nat) (change : Context → StateM Registry Context) : Desk :=
  match desk.contexts[index]? with
  | some context =>
    if context.dropped then desk
    else
      let (next, registry) := change context desk.registry
      ⟨registry, desk.contexts.set index next⟩
  | none => desk

/-- Begins the query of a `context`, also where this is refused. -/
def beginContext (hook : Hook) (context : Context) : StateM Registry Context :=
  return { context with query := ((Query.begin hook).runOn context.query).2 }

/-- Lets a `query` meet an `event`. Its first `result` stays. -/
def meetEvent (event : Event) (context : Context) : StateM Registry Context := do
  let (result, query) ← context.query.happen event
  return { context with query := query, result := context.result.or result }

/-- Drops a `query`. -/
def dropContext (context : Context) : StateM Registry Context := do
  context.query.drop
  return { context with dropped := true }

/-- The `desk` after a deed. -/
def after (desk : Desk) : Deed → Desk
  | .make start server question =>
    match Registry.add start server question desk.registry with
    | (.ok entry, registry) =>
      ⟨registry, desk.contexts ++ [⟨.ofRegistration entry, none, false⟩]⟩
    | (.error _, registry) => { desk with registry := registry }
  | .begin index hook => desk.onContext index (beginContext hook)
  | .event index event => desk.onContext index (meetEvent event)
  | .drop index => desk.onContext index dropContext
  | .deliver hook source octets =>
    { desk with registry := (Registry.deliver hook source octets desk.registry).2 }
  | .remove server id => { desk with registry := desk.registry.remove server id }
  | .clear => { desk with registry := desk.registry.clear }

/-- The `Desk` after some `deeds`, from an empty one on. -/
def run (deeds : List Deed) : Desk := deeds.foldl after empty

/-! ### Steps -/

/-- What a change of a query may do to it and to the `registry`. -/
structure Faithful (context : Context) (registry : Registry) (changed : Context × Registry) :
    Prop where
  serial : changed.1.query.serial = context.query.serial
  counted : changed.2.lastSerial = registry.lastSerial
  fewer : changed.2.outstanding.Sublist registry.outstanding
  agrees : context.Agrees → changed.1.Agrees
  covered : context.dropped = false → ∀ held : Registration → Prop,
    registry.Covered (fun entry => context.Keeps entry ∨ held entry) →
      changed.2.Covered fun entry => changed.1.Keeps entry ∨ held entry

theorem faithful_begin (hook : Hook) (context : Context) (registry : Registry) :
    Faithful context registry (beginContext hook context registry) := by
  unfold beginContext
  obtain ⟨-, refused⟩ | ⟨begun, ⟨misuse, refused⟩ | ⟨octets, started⟩⟩ :=
    Query.begin_cases hook context.query
  · rw [refused]
    exact ⟨rfl, rfl, .refl _, id, fun _ _ => id⟩
  · rw [refused]
    refine ⟨rfl, rfl, .refl _,
      fun agrees => ⟨agrees.settled, agrees.state, fun no => nomatch no⟩,
      fun _ _ covered => covered.imp fun entry _ => Or.imp_left fun ⟨kept, own⟩ => ?_⟩
    exact ⟨kept, own.unsettled, own.server, own.id, own.serial⟩
  · rw [started]
    refine ⟨rfl, rfl, .refl _, fun agrees => ?_, fun _ _ covered =>
      covered.imp fun entry _ => Or.imp_left fun ⟨kept, own⟩ => ?_⟩
    · -- A query that has not begun has no result yet, and beginning gives it none.
      have none : context.result.isSome = false := by
        rw [← agrees.settled, agrees.fresh begun]
        rfl
      refine ⟨none.symm, fun result same => ?_, fun no => nomatch no⟩
      have same : context.result = some result := same
      rw [same] at none
      cases none
    · exact ⟨kept, rfl, own.server, own.id, own.serial⟩

theorem faithful_event (event : Event) (context : Context) (registry : Registry) :
    Faithful context registry (meetEvent event context registry) := by
  have happened := context.query.proceeds_happen event registry
  simp only [meetEvent, stateM_bind_apply, stateM_pure_apply]
  generalize context.query.happen event registry = found at happened ⊢
  -- An event has an effect only on a query that is being sent or awaits its response.
  have unsettled (underWay : context.query.state = .writing ∨ context.query.state = .awaiting) :
      context.query.state.isSettled = false := by
    obtain state | state := underWay <;> rw [state] <;> rfl
  refine ⟨?_, ?_, ?_, fun agrees => ?_, fun kept held covered => ?_⟩
  · cases happened <;> rfl
  · cases happened <;> rfl
  · cases happened with
    | nothing | written => exact .refl _
    | ends => exact List.filter_sublist
  · have open_ (underWay : context.query.state = .writing ∨ context.query.state = .awaiting) :
        context.result = none := by
      rw [← Option.not_isSome_iff_eq_none, ← agrees.settled, unsettled underWay]
      exact Bool.false_ne_true
    have begun (underWay : context.query.state = .writing ∨ context.query.state = .awaiting)
        (fresh : context.query.begun = false) : False := by
      obtain state | state := underWay <;> cases state.symm.trans (agrees.fresh fresh)
    cases happened with
    | nothing => exact ⟨by simpa using agrees.settled, by simpa using agrees.state, agrees.fresh⟩
    | written writing =>
      have none := open_ (.inl writing)
      exact ⟨by simp [none, QueryState.isSettled], by simp [none], fun fresh =>
        (begun (.inl writing) fresh).elim⟩
    | ends result underWay =>
      have none := open_ underWay
      exact ⟨by simp [none, QueryState.isSettled_ofSettlement], by simp [none],
        fun fresh => (begun underWay fresh).elim⟩
  · have own : registry.Covered fun entry => context.query.Holds entry ∨ held entry :=
      covered.imp fun entry _ => Or.imp_left And.right
    exact (own.happen happened).imp fun entry _ => Or.imp_left fun holds => ⟨kept, holds⟩

theorem faithful_drop (context : Context) (registry : Registry) :
    Faithful context registry (dropContext context registry) := by
  refine ⟨rfl, ?_, ?_, fun agrees => ⟨agrees.settled, agrees.state, agrees.fresh⟩,
    fun _ held covered => ?_⟩
  · show (context.query.drop registry).2.lastSerial = registry.lastSerial
    unfold Query.drop
    split <;> rfl
  · show (context.query.drop registry).2.outstanding.Sublist registry.outstanding
    unfold Query.drop
    split
    · exact .refl _
    · exact List.filter_sublist
  · have own : registry.Covered fun entry => context.query.Holds entry ∨ held entry :=
      covered.imp fun entry _ => Or.imp_left And.right
    exact own.drop.imp fun _ _ => .inr

/-- What every `Deed` at a `desk` keeps. -/
structure Kept (desk : Desk) : Prop where
  distinct : desk.registry.Distinct
  covered : desk.registry.Covered fun entry => ∃ context ∈ desk.contexts, context.Keeps entry
  serials : (desk.contexts.map (·.query.serial)).Nodup
  counted : ∀ context ∈ desk.contexts, context.query.serial ≤ desk.registry.lastSerial
  agrees : ∀ context ∈ desk.contexts, context.Agrees

variable {desk : Desk}

theorem kept_empty : Kept empty := by
  constructor <;> simp [empty, Registry.empty, Registry.Covered, Registry.Distinct]

theorem Kept.onContext (kept : desk.Kept) (index : Nat)
    {change : Context → StateM Registry Context}
    (faithful : ∀ context registry, Faithful context registry (change context registry)) :
    (desk.onContext index change).Kept := by
  unfold Desk.onContext
  cases here : desk.contexts[index]? with
  | none => exact kept
  | some context =>
    dsimp only
    split
    · exact kept
    rename_i present
    have own := faithful context desk.registry
    generalize change context desk.registry = changed at own
    obtain ⟨next, registry⟩ := changed
    obtain ⟨bound, found⟩ := List.getElem?_eq_some_iff.mp here
    have member : context ∈ desk.contexts := List.mem_of_getElem? here
    -- The other contexts are those at other places.
    have others : registry.Covered fun entry => next.Keeps entry ∨
        ∃ place other, place ≠ index ∧ desk.contexts[place]? = some other ∧ other.Keeps entry := by
      refine own.covered (by simpa using present) _ (kept.covered.imp ?_)
      rintro entry - ⟨other, mem, keeps⟩
      obtain ⟨place, there⟩ := List.mem_iff_getElem?.mp mem
      by_cases same : place = index
      · subst same
        obtain rfl := Option.some.inj (here.symm.trans there)
        exact .inl keeps
      · exact .inr ⟨place, other, same, there, keeps⟩
    constructor
    case distinct => exact kept.distinct.of_sublist own.fewer
    case covered =>
      rintro entry mem
      obtain keeps | ⟨place, other, away, there, keeps⟩ := others entry mem
      · exact ⟨next, List.mem_set bound next, keeps⟩
      · exact ⟨other, List.mem_of_getElem? ((List.getElem?_set_ne away.symm).trans there), keeps⟩
    case serials =>
      have same : (desk.contexts.set index next).map (·.query.serial) =
          desk.contexts.map (·.query.serial) := by
        have bound' : index < (desk.contexts.map (·.query.serial)).length := by
          rwa [List.length_map]
        have there : (desk.contexts.map (·.query.serial))[index] = context.query.serial :=
          (List.getElem_map _).trans (congrArg (·.query.serial) found)
        rw [List.map_set, own.serial, ← there, List.set_getElem_self]
      rw [same]
      exact kept.serials
    case counted =>
      intro other mem
      rw [own.counted]
      obtain before | rfl := List.mem_or_eq_of_mem_set mem
      · exact kept.counted other before
      · rw [own.serial]
        exact kept.counted context member
    case agrees =>
      intro other mem
      obtain before | rfl := List.mem_or_eq_of_mem_set mem
      · exact kept.agrees other before
      · exact own.agrees (kept.agrees context member)

/-- Registrations can be taken away from queries at any time, so any `registry` with `fewer` of them
will do. -/
theorem Kept.of_sublist (kept : desk.Kept) {registry : Registry}
    (fewer : registry.outstanding.Sublist desk.registry.outstanding)
    (counted : registry.lastSerial = desk.registry.lastSerial) :
    Kept { desk with registry := registry } where
  distinct := kept.distinct.of_sublist fewer
  covered := kept.covered.of_subset fewer.subset
  serials := kept.serials
  counted context mem := counted.symm ▸ kept.counted context mem
  agrees := kept.agrees

theorem Kept.make (kept : desk.Kept) {server : Endpoint} {id : UInt16}
    (free : desk.registry.find? server id = none) (question : Question) :
    let entry : Registration := ⟨server, id, desk.registry.lastSerial + 1, question⟩
    Kept ⟨{ desk.registry with
        outstanding := entry :: desk.registry.outstanding
        lastSerial := entry.serial },
      desk.contexts ++ [⟨.ofRegistration entry, none, false⟩]⟩ := by
  intro entry
  let context : Context := ⟨.ofRegistration entry, none, false⟩
  -- What holds of the queries so far and of the new one at the end holds of all.
  have last {P : Context → Prop} (others : ∀ other ∈ desk.contexts, P other) (own : P context) :
      ∀ other ∈ desk.contexts ++ [context], P other :=
    List.forall_mem_append.mpr ⟨others, List.forall_mem_singleton.mpr own⟩
  constructor
  case distinct => exact kept.distinct.cons free
  case covered =>
    refine List.forall_mem_cons.mpr ⟨⟨context, by simp [context], rfl, rfl, rfl, rfl, rfl⟩,
      fun other mem => ?_⟩
    obtain ⟨holder, among, keeps⟩ := kept.covered other mem
    exact ⟨holder, List.mem_append_left _ among, keeps⟩
  case serials =>
    rw [List.map_append, List.nodup_append]
    refine ⟨kept.serials, List.nodup_singleton _, fun serial mem other mem' => ?_⟩
    obtain ⟨holder, among, rfl⟩ := List.mem_map.mp mem
    obtain rfl := List.mem_singleton.mp mem'
    exact Nat.ne_of_lt (Nat.lt_succ_of_le (kept.counted holder among))
  case counted =>
    exact last (fun other mem => Nat.le_succ_of_le (kept.counted other mem)) (Nat.le_refl _)
  case agrees => exact last kept.agrees ⟨rfl, fun _ same => (nomatch same), fun _ => rfl⟩

theorem Kept.after (kept : desk.Kept) (deed : Deed) : (desk.after deed).Kept := by
  cases deed with
  | make start server question =>
    obtain refused | ⟨id, free, added⟩ := Registry.add_cases start server question desk.registry
    · simpa [Desk.after, refused] using kept
    · simpa [Desk.after, added] using kept.make free question
  | begin index hook => exact kept.onContext index (faithful_begin hook)
  | event index event => exact kept.onContext index (faithful_event event)
  | drop index => exact kept.onContext index faithful_drop
  | deliver hook source octets =>
    exact kept.of_sublist (Registry.outstanding_deliver_sublist hook source octets)
      (Registry.Ledger.lastSerial_deliver hook source octets desk.registry)
  | remove server id => exact kept.of_sublist List.filter_sublist rfl
  | clear => exact kept.of_sublist (List.nil_sublist _) rfl

theorem kept_run (deeds : List Deed) : (run deeds).Kept := by
  induction deeds using List.reverseRecOn with
  | nil => exact kept_empty
  | append_singleton deeds deed ih =>
    rw [run, List.foldl_concat]
    exact ih.after deed

/-- A `Registration` with the `serial` number of a `query` is there only as long as the query is
neither settled nor dropped. -/
theorem Kept.not_closed (kept : desk.Kept) {context : Context} (member : context ∈ desk.contexts)
    {entry : Registration} (mem : entry ∈ desk.registry.outstanding)
    (own : entry.serial = context.query.serial) : ¬context.Closed := by
  obtain ⟨holder, among, keeps⟩ := kept.covered entry mem
  have same : holder = context := List.inj_on_of_nodup_map kept.serials among member
    (keeps.2.serial.symm.trans own)
  exact same ▸ keeps.not_closed

/-- Once all queries are `Closed`, none is `outstanding`. -/
theorem Kept.outstanding_eq_nil (kept : desk.Kept)
    (closed : ∀ context ∈ desk.contexts, context.Closed) : desk.registry.outstanding = [] := by
  refine List.eq_nil_iff_forall_not_mem.mpr fun entry mem => ?_
  obtain ⟨holder, among, keeps⟩ := kept.covered entry mem
  exact keeps.not_closed (closed holder among)

end Desk

end NameResolution
