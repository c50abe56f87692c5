import Mathlib.Tactic.IntervalCases
import NameResolution.Proofs.Query.Endings
import NameResolution.Proofs.Resolution.Conduct

/-!
# The registrations of calls

Each query that a call begins is registered, and many calls share one registry. Queries end in many
ways, races give passes up in the middle, and calls are given up at any time.

* `Registry.Shared`: a registry as one of several calls sees it.
* `Regime.shared`: whatever a call does, its registrations are held by the queries it waits for.
* `Journal`: a system with the numbers of its calls and the registrations that they made.
* `Journal.kept_run`: after all runs each registration is held by the call that made it.
-/

namespace NameResolution

/-! ## A registry that is shared -/

namespace Registry

/-- The registrations as a call sees them that has made its own ones after a `mark` or was known to
have made them: any other one belongs to others, and its own are held by the `queries` that it waits
for. -/
structure Shared (Other : Registration → Prop) (Own : Nat → Prop) (mark : Nat)
    (queries : List Query) (registry : Registry) : Prop where
  later : mark ≤ registry.lastSerial
  counted : ∀ entry ∈ registry.outstanding, entry.serial ≤ registry.lastSerial
  made : registry.Covered fun entry => Other entry ∨ Own entry.serial ∨ mark < entry.serial
  covered : registry.Covered fun entry => Other entry ∨ ∃ query ∈ queries, query.Holds entry

namespace Shared

variable {Other : Registration → Prop} {Own : Nat → Prop} {mark : Nat} {query : Query}
  {queries rest : List Query} {registry next : Registry}

theorem fewer (shared : registry.Shared Other Own mark queries)
    (subset : next.outstanding ⊆ registry.outstanding)
    (serials : next.lastSerial = registry.lastSerial)
    (covered : next.Covered fun entry => Other entry ∨ ∃ query ∈ rest, query.Holds entry) :
    next.Shared Other Own mark rest where
  later := serials ▸ shared.later
  counted entry mem := serials ▸ shared.counted entry (subset mem)
  made := shared.made.of_subset subset
  covered := covered

/-- What is held by some `queries` is held by others if these hold it instead. -/
theorem exchange (shared : registry.Shared Other Own mark queries)
    (instead : ∀ query ∈ queries, ∀ entry, query.Holds entry → ∃ other ∈ rest, other.Holds entry) :
    registry.Shared Other Own mark rest :=
  shared.fewer (List.Subset.refl _) rfl (shared.covered.imp fun entry _ =>
    Or.imp_right fun ⟨query, mem, holds⟩ => instead query mem entry holds)

/-- What the first `query` holds is held by another one if that one holds it instead. -/
theorem replace (shared : registry.Shared Other Own mark (query :: rest)) {other : Query}
    (instead : ∀ entry, query.Holds entry → other.Holds entry) :
    registry.Shared Other Own mark (other :: rest) :=
  shared.exchange (List.forall_mem_cons.mpr
    ⟨fun entry own => ⟨other, List.mem_cons_self, instead entry own⟩,
      fun holder among _ holds => ⟨holder, List.mem_cons_of_mem _ among, holds⟩⟩)

/-- The first `query` is set apart from the others. -/
theorem apart (shared : registry.Shared Other Own mark (query :: rest)) :
    registry.Covered fun entry =>
      query.Holds entry ∨ Other entry ∨ ∃ query ∈ rest, query.Holds entry := by
  refine shared.covered.imp fun entry _ held => ?_
  obtain other | ⟨holder, mem, holds⟩ := held
  · exact .inr (.inl other)
  · obtain rfl | among := List.mem_cons.mp mem
    · exact .inl holds
    · exact .inr (.inr ⟨holder, among, holds⟩)

theorem subset_release (server : Endpoint) (id : UInt16) (serial : Nat) :
    (registry.release server id serial).outstanding ⊆ registry.outstanding :=
  List.filter_subset_self _

theorem release (shared : registry.Shared Other Own mark (query :: rest)) :
    (registry.release query.server query.id query.serial).Shared Other Own mark rest :=
  shared.fewer (subset_release _ _ _) rfl shared.apart.release

theorem drop (shared : registry.Shared Other Own mark (query :: rest)) :
    (query.drop registry).2.Shared Other Own mark rest := by
  refine shared.fewer ?_ ?_ shared.apart.drop
  all_goals
    unfold Query.drop
    split
  · exact List.Subset.refl _
  · exact subset_release _ _ _
  all_goals rfl

/-- A `Query` that has been registered holds its registration. -/
theorem register (shared : registry.Shared Other Own mark rest) (server : Endpoint)
    (question : Question) :
    (Query.register server question registry).2.Shared Other Own mark
      ((Query.register server question registry).1.toOption.toList ++ rest) := by
  simp only [Query.register, stateM_bind_apply, stateM_get_apply]
  obtain refused | ⟨id, -, added⟩ :=
    Registry.add_cases registry.nextStart server question registry
  · rw [refused]
    exact shared
  · rw [added]
    have newer := Nat.lt_succ_of_le shared.later
    refine ⟨Nat.le_of_lt newer, List.forall_mem_cons.mpr ⟨Nat.le_refl _, fun entry mem =>
      Nat.le_succ_of_le (shared.counted entry mem)⟩, List.forall_mem_cons.mpr
      ⟨.inr (.inr newer), shared.made⟩, List.forall_mem_cons.mpr
      ⟨.inr ⟨_, List.mem_cons_self, rfl, rfl, rfl, rfl⟩, fun entry mem => ?_⟩⟩
    refine (shared.covered entry mem).imp_right fun held => ?_
    obtain ⟨holder, among, holds⟩ := held
    exact ⟨holder, List.mem_cons_of_mem _ among, holds⟩

end Shared

end Registry

/-! ## What a call does -/

namespace Session

variable {Other : Registration → Prop} {Own : Nat → Prop} {mark : Nat} {rest : List Query}

/-- The `registry` of a `session` is shared. -/
def Shares (Other : Registration → Prop) (Own : Nat → Prop) (mark : Nat) (queries : List Query)
    (session : Session) : Prop := session.resolver.registry.Shared Other Own mark queries

/-- A `query` that is sent keeps its registration, and one that cannot be sent gives it up. -/
theorem triple_send (query : Query) :
    Op.Triple (Shares Other Own mark (query :: rest)) (send query)
      (fun sent => Shares Other Own mark (sent :: rest)) (Shares Other Own mark rest) := by
  intro session shared
  simp only [send, Op.bind_apply, Op.get_apply]
  obtain ⟨-, began⟩ | ⟨-, ⟨misuse, began⟩ | ⟨octets, began⟩⟩ :=
    Query.begin_cases session.resolver.hook query
  · rw [began]
    exact Registry.Shared.drop shared
  · rw [began]
    have begins : session.resolver.registry.Shared Other Own mark
        ({ query with begun := true } :: rest) := shared.replace fun entry own =>
      ⟨own.unsettled, own.server, own.id, own.serial⟩
    exact begins.drop
  · rw [began]
    exact Registry.Shared.replace shared fun entry own => ⟨rfl, own.server, own.id, own.serial⟩

theorem triple_ask (server : Endpoint) (name : Name) (type : RecordType) :
    Op.Triple (Shares Other Own mark rest) (ask server name type)
      (fun asking => Shares Other Own mark (asking.toOption.toList ++ rest))
      (Shares Other Own mark rest) := by
  have takes : Op.Triple (Shares Other Own mark rest) takeQuery
      (fun _ => Shares Other Own mark rest) (Shares Other Own mark rest) := by
    intro session shared
    obtain refused | ⟨budget, taken, -⟩ := takeQuery_spec session
    · rw [refused]
      exact shared
    · rw [taken]
      exact shared
  have registers : Op.Triple (Shares Other Own mark rest)
      (withResolver (Resolver.onRegistry (Query.register server (.internet name type))))
      (fun registered => Shares Other Own mark (registered.toOption.toList ++ rest))
      (Shares Other Own mark rest) :=
    fun session shared => Registry.Shared.register shared server (.internet name type)
  have reads : Op.Triple (Shares Other Own mark rest) get (fun _ => Shares Other Own mark rest)
      (Shares Other Own mark rest) := fun _ => id
  unfold ask
  refine reads.bind fun session => ?_
  split
  · exact .ret fun _ => id
  refine takes.bind fun taken => ?_
  split
  · refine registers.bind fun registered => ?_
    cases registered with
    | ok query => exact (triple_send query).bind fun _ => .ret fun _ => id
    | error failure => exact .ret fun _ => id
  · exact .ret fun _ => id

end Session

/-- Whatever a call does, its registrations are held by the queries it waits for, and it does not
touch those of others: those that are `Other`, and the serial numbers in `Own`. -/
def Regime.shared (Other : Registration → Prop) (Own : Nat → Prop) (mark : Nat) : Regime where
  Holds queries resolver := resolver.registry.Shared Other Own mark queries
  Ends _ := True
  mono within shared := shared.exchange fun query mem entry holds => ⟨query, within mem, holds⟩
  ask _ server name type := Session.triple_ask server name type
  consult _ _ shared := shared
  learn {_ session response} _ shared := by
    obtain ⟨cache, learned⟩ := Session.resolver_learn response session
    rwa [learned]
  elsewhere _ _ shared := shared
  happen query event shared := .of_happened event shared
    (fun _ => shared.replace fun entry own => ⟨rfl, own.server, own.id, own.serial⟩)
    (fun _ _ => ⟨shared.release, trivial⟩)
  drop _ shared := shared.drop

theorem Resolver.registry_close (resolver : Resolver) :
    resolver.close.registry = resolver.registry ∨
      resolver.close.registry = resolver.registry.clear := by
  unfold close
  split
  · exact .inl rfl
  · exact .inr rfl

/-! ## Journals -/

/-- A system with the `numbers` of its calls, how many calls were ever begun, and the registrations
that each of them made, by serial number. -/
structure Journal where
  system : System
  numbers : List Nat
  begun : Nat
  made : List (Nat × Nat)

/-- What can happen to a system whose registry is open to others: beside each `Happening` they can
also remove what is registered. -/
inductive Incident
  | happens (happening : Happening)
  | removal (server : Endpoint) (id : UInt16)
  | clearing

namespace Journal

/-- A journal of a `System` to which nothing has happened yet. -/
def start (settings : Settings) (hosts : HostTable) (hook : Hook) (limits : CacheSettings)
    (starts : Nat → UInt16 := fun _ => 0) : Journal :=
  ⟨.start settings hosts hook limits starts, [], 0, []⟩

/-- The `System` after a happening, which may have been refused on the way. -/
def systemAfter (journal : Journal) (happening : Happening) : System :=
  (System.occur happening journal.system).2

/-- The registrations that were made between two states of a `Registry`. -/
def serialsBetween (before after : Registry) : List Nat :=
  List.range' (before.lastSerial + 1) (after.lastSerial - before.lastSerial)

/-- What the call at `index` has registered in a step, if there is such a call. -/
def madeBy (journal : Journal) (index : Nat) (after : Registry) : List (Nat × Nat) :=
  match journal.numbers[index]? with
  | some number =>
    (serialsBetween journal.system.resolver.registry after).map fun serial => (number, serial)
  | none => []

/-- The `journal` after something has happened to the `Registry`. -/
def onRegistry (journal : Journal) (change : Registry → Registry) : Journal :=
  { journal with system := { journal.system with
      resolver := { journal.system.resolver with
        registry := change journal.system.resolver.registry } } }

/-- The `journal` after an `Incident`. -/
def after (journal : Journal) : Incident → Journal
  | .happens (.request request) =>
    ⟨journal.systemAfter (.request request), journal.numbers ++ [journal.begun], journal.begun + 1,
      journal.made⟩
  | .happens (.step index) =>
    let system := journal.systemAfter (.step index)
    { journal with
      system := system
      made := journal.madeBy index system.resolver.registry ++ journal.made }
  | .happens (.abandon index) =>
    { journal with
      system := journal.systemAfter (.abandon index)
      numbers := journal.numbers.eraseIdx index }
  | .happens happening => { journal with system := journal.systemAfter happening }
  | .removal server id => journal.onRegistry (·.remove server id)
  | .clearing => journal.onRegistry (·.clear)

/-- The `Journal` after some `incidents`, from the start on. -/
def run (start : Journal) (incidents : List Incident) : Journal := incidents.foldl after start

/-- The `call` with a `number` is in a place of the system. -/
def CallAt (journal : Journal) (place number : Nat) (call : Call) : Prop :=
  journal.numbers[place]? = some number ∧ journal.system.calls[place]? = some call

/-- The call with a `number` is over, or it was given up, or it never began. -/
def Gone (journal : Journal) (number : Nat) : Prop :=
  ∀ place call, journal.CallAt place number call → call.isOver = true

/-- The call in a place of the system has made a `Registration` and waits for its query. -/
def HeldAt (journal : Journal) (place : Nat) (entry : Registration) : Prop :=
  ∃ number call, journal.CallAt place number call ∧ (number, entry.serial) ∈ journal.made ∧
    ∃ pass ∈ call.passes, pass.query.Holds entry

/-- What every `Incident` keeps. -/
structure Kept (journal : Journal) : Prop where
  places : journal.numbers.length = journal.system.calls.length
  recorded : ∀ pair ∈ journal.made, pair.2 ≤ journal.system.resolver.registry.lastSerial
  once : (journal.made.map Prod.snd).Nodup
  counted : ∀ entry ∈ journal.system.resolver.registry.outstanding,
    entry.serial ≤ journal.system.resolver.registry.lastSerial
  covered : journal.system.resolver.registry.Covered fun entry =>
    ∃ place, journal.HeldAt place entry

variable {journal : Journal}

theorem kept_start (settings : Settings) (hosts : HostTable) (hook : Hook)
    (limits : CacheSettings) (starts : Nat → UInt16) :
    (start settings hosts hook limits starts).Kept := by
  constructor <;>
    simp [start, System.start, Resolver.new, Registry.empty, Registry.Covered]

/-- A call that is `Gone` holds nothing. -/
theorem HeldAt.not_gone {place : Nat} {entry : Registration} (held : journal.HeldAt place entry) :
    ∃ number, (number, entry.serial) ∈ journal.made ∧ ¬journal.Gone number := by
  obtain ⟨number, call, here, made, pass, waits, -⟩ := held
  refine ⟨number, made, fun gone => ?_⟩
  have isOver := gone place call here
  unfold Call.passes at waits
  unfold Call.isOver at isOver
  split at isOver
  · rename_i result ended
    rw [ended] at waits
    cases waits
  · cases isOver

/-- What is held in one place is still held if the `call` is still somewhere and waits for the same
queries. -/
theorem HeldAt.carry {next : Journal} {place later : Nat} {entry : Registration}
    (held : journal.HeldAt place entry)
    (kept : ∀ number call, journal.CallAt place number call →
      ∃ other, next.CallAt later number other ∧ call.passes ⊆ other.passes)
    (more : journal.made ⊆ next.made) : next.HeldAt later entry := by
  obtain ⟨number, call, here, made, pass, waits, holds⟩ := held
  obtain ⟨other, there, passes⟩ := kept number call here
  exact ⟨number, other, there, more made, pass, passes waits, holds⟩

/-- What is held in one place is still held after the `Call` in another one has gone on. -/
theorem HeldAt.elsewhere {system : System} {made : List (Nat × Nat)} {place index : Nat}
    {entry : Registration} {next : Call} (held : journal.HeldAt place entry)
    (away : place ≠ index) (calls : system.calls = journal.system.calls.set index next)
    (more : journal.made ⊆ made) :
    HeldAt { journal with system := system, made := made } place entry := by
  refine held.carry ?_ more
  rintro number call ⟨named, there⟩
  refine ⟨call, ⟨named, ?_⟩, List.Subset.refl _⟩
  rw [calls]
  exact (List.getElem?_set_ne away.symm).trans there

/-- What happens to the `registry` alone can take registrations away, but nothing else. -/
theorem Kept.of_fewer (kept : journal.Kept) {system : System}
    (calls : system.calls = journal.system.calls)
    (fewer : system.resolver.registry.outstanding ⊆ journal.system.resolver.registry.outstanding)
    (serials : system.resolver.registry.lastSerial = journal.system.resolver.registry.lastSerial) :
    Kept { journal with system := system } where
  places := kept.places.trans (congrArg List.length calls.symm)
  recorded pair mem := serials.symm ▸ kept.recorded pair mem
  once := kept.once
  counted entry mem := serials.symm ▸ kept.counted entry (fewer mem)
  covered := by
    refine (kept.covered.of_subset fewer).imp fun entry _ ⟨place, held⟩ => ⟨place, held.carry ?_ ?_⟩
    · rintro number call ⟨named, here⟩
      exact ⟨call, ⟨named, (congrArg (·[place]?) calls).trans here⟩, List.Subset.refl _⟩
    · exact List.Subset.refl _

/-- The `registry` as the `call` in a place sees it. -/
theorem Kept.shared (kept : journal.Kept) {index number : Nat} {call : Call}
    (here : journal.CallAt index number call) :
    journal.system.resolver.registry.Shared
      (fun entry => ∃ place, place ≠ index ∧ journal.HeldAt place entry)
      (fun serial => (number, serial) ∈ journal.made) journal.system.resolver.registry.lastSerial
      (call.passes.map Pass.query) := by
  have own (entry : Registration) (mem : entry ∈ journal.system.resolver.registry.outstanding) :
      (∃ place, place ≠ index ∧ journal.HeldAt place entry) ∨
        (number, entry.serial) ∈ journal.made ∧
          ∃ query ∈ call.passes.map Pass.query, query.Holds entry := by
    obtain ⟨place, held⟩ := kept.covered entry mem
    by_cases same : place = index
    · subst same
      obtain ⟨other, holder, there, made, pass, waits, holds⟩ := held
      obtain rfl := Option.some.inj (here.1.symm.trans there.1)
      obtain rfl := Option.some.inj (here.2.symm.trans there.2)
      exact .inr ⟨made, _, List.mem_map_of_mem waits, holds⟩
    · exact .inl ⟨place, same, held⟩
  exact ⟨Nat.le_refl _, kept.counted, fun entry mem => (own entry mem).imp_right fun held =>
    .inl held.1, fun entry mem => (own entry mem).imp_right And.right⟩

theorem mem_madeBy {index : Nat} {after : Registry} {pair : Nat × Nat} :
    pair ∈ journal.madeBy index after ↔ journal.numbers[index]? = some pair.1 ∧
      journal.system.resolver.registry.lastSerial < pair.2 ∧ pair.2 ≤ after.lastSerial := by
  obtain ⟨number, serial⟩ := pair
  unfold madeBy
  cases named : journal.numbers[index]? with
  | none => simp
  | some own =>
    simp only [serialsBetween, List.mem_map, List.mem_range'_1, Prod.mk.injEq, Option.some.injEq]
    constructor
    · rintro ⟨_, between, rfl, rfl⟩
      exact ⟨rfl, by omega⟩
    · rintro ⟨rfl, between⟩
      exact ⟨serial, by omega, rfl, rfl⟩

/-- What a call registers in a step is not later than the `registry`. -/
theorem Kept.recorded_madeBy (kept : journal.Kept) (index : Nat) {after : Registry}
    (later : journal.system.resolver.registry.lastSerial ≤ after.lastSerial) :
    ∀ pair ∈ journal.madeBy index after ++ journal.made, pair.2 ≤ after.lastSerial :=
  List.forall_mem_append.mpr ⟨fun _ mem => (mem_madeBy.mp mem).2.2, fun pair mem =>
    Nat.le_trans (kept.recorded pair mem) later⟩

/-- What the call at `index` registers in a step has never been registered before. -/
theorem Kept.once_madeBy (kept : journal.Kept) (index : Nat) (after : Registry) :
    ((journal.madeBy index after ++ journal.made).map Prod.snd).Nodup := by
  rw [List.map_append]
  refine List.nodup_append.mpr ⟨?_, kept.once, ?_⟩
  · unfold madeBy
    split
    · rw [List.map_map]
      exact (List.map_id _).symm ▸ List.nodup_range'
    · exact List.nodup_nil
  · intro serial mem other mem'
    obtain ⟨pair, new, rfl⟩ := List.mem_map.mp mem
    obtain ⟨old, among, rfl⟩ := List.mem_map.mp mem'
    exact Nat.ne_of_gt (Nat.lt_of_le_of_lt (kept.recorded old among) (mem_madeBy.mp new).2.1)

theorem Kept.callAt (kept : journal.Kept) {index : Nat} {call : Call}
    (here : journal.system.calls[index]? = some call) :
    ∃ number, journal.CallAt index number call := by
  obtain ⟨bound, -⟩ := List.getElem?_eq_some_iff.mp here
  rw [← kept.places] at bound
  exact ⟨_, List.getElem?_eq_getElem bound, here⟩

/-- Where there is no call at `index`, there is no number. -/
theorem Kept.unnamed (kept : journal.Kept) {index : Nat}
    (none : journal.system.calls[index]? = none) : journal.numbers[index]? = .none := by
  rw [List.getElem?_eq_none_iff] at none ⊢
  rwa [kept.places]

theorem Kept.step (kept : journal.Kept) (index : Nat) :
    (journal.after (.happens (.step index))).Kept := by
  cases here : journal.system.calls[index]? with
  | none =>
    have unnamed := kept.unnamed here
    have idle : journal.after (.happens (.step index)) = journal := by
      simp [Journal.after, systemAfter, System.occur, System.onCall_of_none here, madeBy, unnamed]
    rwa [idle]
  | some call =>
    obtain ⟨number, callAt⟩ := kept.callAt here
    have shared := kept.shared callAt
    rw [← List.append_nil call.passes] at shared
    obtain ⟨next, calls, goes⟩ := (Regime.shared _ _ _).conduct.holds_step here shared
    rw [List.append_nil] at goes
    have goes : (journal.systemAfter (.step index)).resolver.registry.Shared _ _ _ _ := goes
    have calls : (journal.systemAfter (.step index)).calls = _ := calls
    generalize after : journal.systemAfter (.step index) = system at goes calls
    have final : journal.after (.happens (.step index)) = { journal with
        system := system
        made := journal.madeBy index system.resolver.registry ++ journal.made } := by
      rw [Journal.after, after]
    rw [final]
    constructor
    case places => rw [calls, List.length_set, kept.places]
    case recorded => exact kept.recorded_madeBy index goes.later
    case once => exact kept.once_madeBy index _
    case counted => exact goes.counted
    case covered =>
      intro entry mem
      have more : journal.made ⊆ journal.madeBy index system.resolver.registry ++ journal.made :=
        List.subset_append_right _ _
      -- A registration was held in another place before, or it is of the call that takes the step.
      obtain ⟨place, away, held⟩ | own := goes.made entry mem
      · exact ⟨place, held.elsewhere away calls more⟩
      obtain ⟨place, away, held⟩ | ⟨query, waits, holds⟩ := goes.covered entry mem
      · exact ⟨place, held.elsewhere away calls more⟩
      obtain ⟨pass, among, rfl⟩ := List.mem_map.mp waits
      have there : system.calls[index]? = some next := by
        rw [calls]
        exact List.getElem?_set_self (List.getElem?_eq_some_iff.mp here).1
      refine ⟨index, number, next, ⟨callAt.1, there⟩, List.mem_append.mpr ?_, pass, among, holds⟩
      obtain before | since := own
      · exact .inr before
      · exact .inl (mem_madeBy.mpr ⟨callAt.1, since, goes.counted entry mem⟩)

theorem Kept.request (kept : journal.Kept) (request : Request) :
    (journal.after (.happens (.request request))).Kept where
  places := by
    show (journal.numbers ++ [journal.begun]).length = (journal.system.calls ++ [_]).length
    rw [List.length_append, List.length_append, kept.places]
    rfl
  recorded := kept.recorded
  once := kept.once
  counted := kept.counted
  covered := by
    refine kept.covered.imp fun entry _ ⟨place, held⟩ => ⟨place, held.carry ?_ (List.Subset.refl _)⟩
    rintro number call ⟨named, here⟩
    refine ⟨call, ⟨?_, ?_⟩, List.Subset.refl _⟩
    · exact (List.getElem?_append_left (List.getElem?_eq_some_iff.mp named).1).trans named
    · exact (List.getElem?_append_left (List.getElem?_eq_some_iff.mp here).1).trans here

/-- An `event` that a call hears of has no effect before the call attends to it. -/
theorem Kept.event (kept : journal.Kept) (index serial : Nat) (event : Event) :
    (journal.after (.happens (.event index serial event))).Kept := by
  cases here : journal.system.calls[index]? with
  | none =>
    have idle : journal.after (.happens (.event index serial event)) = journal := by
      simp [Journal.after, systemAfter, System.occur, System.onCall_of_none here]
    rwa [idle]
  | some call =>
    have noted : journal.after (.happens (.event index serial event)) = { journal with
        system := { journal.system with
          calls := journal.system.calls.set index (call.notify serial event) } } :=
      congrArg (fun system => { journal with system := system })
        (System.occur_event here serial event)
    rw [noted]
    refine ⟨?_, kept.recorded, kept.once, kept.counted, ?_⟩
    · exact kept.places.trans List.length_set.symm
    · refine kept.covered.imp fun entry _ somewhere => ?_
      obtain ⟨place, held⟩ := somewhere
      refine ⟨place, ?_⟩
      -- The call that hears of the event still waits for the same queries.
      by_cases same : place = index
      · subst same
        refine held.carry ?_ (List.Subset.refl _)
        rintro number other ⟨named, there⟩
        obtain rfl := Option.some.inj (here.symm.trans there)
        exact ⟨_, ⟨named, List.getElem?_set_self (List.getElem?_eq_some_iff.mp here).1⟩,
          List.Subset.refl _⟩
      · exact held.elsewhere same rfl (List.Subset.refl _)

theorem getElem?_eraseIdx_moved {α : Type} {list : List α} {place index : Nat}
    (away : place ≠ index) :
    (list.eraseIdx index)[if place < index then place else place - 1]? = list[place]? := by
  by_cases before : place < index
  · rw [if_pos before, List.getElem?_eraseIdx_of_lt before]
  · rw [if_neg before, List.getElem?_eraseIdx_of_ge (by omega), Nat.sub_add_cancel (by omega)]

/-- The call at `index` gives up its registrations when it is given up. -/
theorem Kept.abandon (kept : journal.Kept) (index : Nat) :
    (journal.after (.happens (.abandon index))).Kept := by
  cases here : journal.system.calls[index]? with
  | none =>
    have unnamed := kept.unnamed here
    have idle : journal.after (.happens (.abandon index)) = journal := by
      simp [Journal.after, systemAfter, System.occur, System.onCall_of_none here,
        List.eraseIdx_of_length_le (List.getElem?_eq_none_iff.mp unnamed)]
    rwa [idle]
  | some call =>
    obtain ⟨number, callAt⟩ := kept.callAt here
    have shared := kept.shared callAt
    rw [← List.append_nil call.passes] at shared
    obtain ⟨calls, goes⟩ := (Regime.shared _ _ _).conduct.holds_abandon here shared
    have goes : (journal.systemAfter (.abandon index)).resolver.registry.Shared _ _ _ [] := goes
    have calls : (journal.systemAfter (.abandon index)).calls = _ := calls
    have final : journal.after (.happens (.abandon index)) = { journal with
        system := journal.systemAfter (.abandon index)
        numbers := journal.numbers.eraseIdx index } := rfl
    rw [final]
    refine ⟨?_, fun pair mem => Nat.le_trans (kept.recorded pair mem) goes.later, kept.once,
      goes.counted, fun entry mem => ?_⟩
    · rw [calls, List.length_eraseIdx, List.length_eraseIdx, kept.places]
    · obtain ⟨place, away, held⟩ | ⟨query, none, -⟩ := goes.covered entry mem
      · -- The places after the call move up.
        refine ⟨if place < index then place else place - 1, held.carry ?_ (List.Subset.refl _)⟩
        rintro number other ⟨named, there⟩
        refine ⟨other, ⟨?_, ?_⟩, List.Subset.refl _⟩
        · exact (getElem?_eraseIdx_moved away).trans named
        · rw [calls]
          exact (getElem?_eraseIdx_moved away).trans there
      · cases none

theorem Kept.after (kept : journal.Kept) (incident : Incident) : (journal.after incident).Kept := by
  -- All but four of the happenings come from outside and at most take registrations away.
  cases incident with
  | happens happening =>
    cases happening with
    | request request => exact kept.request request
    | step index => exact kept.step index
    | event index serial event => exact kept.event index serial event
    | abandon index => exact kept.abandon index
    | arrival source octets =>
      exact kept.of_fewer rfl (Registry.outstanding_deliver_sublist _ source octets).subset
        (Registry.Ledger.lastSerial_deliver _ source octets _)
    | sending => exact kept.of_fewer rfl (List.Subset.refl _) rfl
    | passing span => exact kept.of_fewer rfl (List.Subset.refl _) rfl
    | hooking hook => exact kept.of_fewer rfl (List.Subset.refl _) rfl
    | closing =>
      obtain same | cleared := journal.system.resolver.registry_close
      · exact kept.of_fewer rfl (same ▸ List.Subset.refl _) (congrArg _ same)
      · exact kept.of_fewer rfl (cleared ▸ List.nil_subset _)
          ((congrArg Registry.lastSerial cleared).trans rfl)
  | removal server id => exact kept.of_fewer rfl (List.filter_subset_self _) rfl
  | clearing => exact kept.of_fewer rfl (List.nil_subset _) rfl

theorem kept_run {start : Journal} (kept : start.Kept) (incidents : List Incident) :
    (run start incidents).Kept := by
  induction incidents using List.reverseRecOn with
  | nil => exact kept
  | append_singleton incidents incident ih =>
    rw [run, List.foldl_concat]
    exact ih.after incident

/-- A registration has been `made` by one call only. -/
theorem Kept.maker_unique (kept : journal.Kept) {number other serial : Nat}
    (made : (number, serial) ∈ journal.made) (also : (other, serial) ∈ journal.made) :
    number = other :=
  congrArg Prod.fst (List.inj_on_of_nodup_map kept.once made also rfl)

/-- Registrations do not leak, and queries settle.

Whatever is done to the queries of one registry by `deeds`, in any order, a registration of a query
is there only while this is neither settled nor dropped, so once all queries of the desk are
`Closed` none is `outstanding`. The state of a query says how it ended (`Tells`), and every query
that was not dropped ends in the state for what becomes of it (`Settles`): when it is answered, when
its registration is gone, when it can't be sent and when its time is over.

Whatever happens to a system by `incidents`, wherever its searches for IDs start, each registration
was made by a call that still waits, so none is left of a call that has returned or was given up
(`Gone`). -/
theorem run_leaks_nothing (deeds : List Desk.Deed) (settings : Settings) (hosts : HostTable)
    (hook : Hook) (limits : CacheSettings) (starts : Nat → UInt16) (incidents : List Incident) :
    let desk := Desk.run deeds
    let journal := run (start settings hosts hook limits starts) incidents
    (∀ context ∈ desk.contexts, context.Tells ∧
      ∀ entry ∈ desk.registry.outstanding, entry.serial = context.query.serial →
        ¬context.Closed) ∧
      ((∀ context ∈ desk.contexts, context.Closed) → desk.registry.outstanding = []) ∧
      (∀ index context, desk.contexts[index]? = some context → context.dropped = false →
        desk.Settles index context.query) ∧
      (∀ entry ∈ journal.system.resolver.registry.outstanding,
        ∃ number, (number, entry.serial) ∈ journal.made ∧ ¬journal.Gone number) ∧
      ∀ number, journal.Gone number →
        ∀ entry ∈ journal.system.resolver.registry.outstanding,
          (number, entry.serial) ∉ journal.made := by
  intro desk journal
  have sits : desk.Kept := Desk.kept_run deeds
  have kept : journal.Kept := kept_run (kept_start settings hosts hook limits starts) incidents
  have waits (entry : Registration)
      (mem : entry ∈ journal.system.resolver.registry.outstanding) :
      ∃ number, (number, entry.serial) ∈ journal.made ∧ ¬journal.Gone number := by
    obtain ⟨place, held⟩ := kept.covered entry mem
    exact held.not_gone
  refine ⟨fun context member => ⟨(sits.agrees context member).tells, fun entry mem =>
    sits.not_closed member mem⟩, sits.outstanding_eq_nil,
    fun index context here present => sits.settles here present, waits, ?_⟩
  intro number gone entry mem made
  obtain ⟨other, also, here⟩ := waits entry mem
  -- A registration has one maker, and this one would have to be gone and to wait.
  exact here (kept.maker_unique made also ▸ gone)

/-! ### A registry in use -/

/-- A server, and its response to the query for addresses of the root with the ID 7. -/
def sampleServer : Endpoint := .ofAddress (.v4 (.ofOctets 192 0 2 1)) 53

def sampleResponse : Message := ⟨⟨7, 129, 128⟩, [.internet .root .a], [], [], []⟩

def sampleOctets : Octets := #[0, 7, 129, 128, 0, 1, 0, 0, 0, 0, 0, 0, 0, 0, 1, 0, 1]

theorem decode_sampleOctets : Message.decode sampleOctets = .ok sampleResponse := by
  have owner : Spells sampleOctets 12 Name.root.labels 13 := .root (by decide)
  have question : Question.decoder.Reads (· = .internet .root .a) sampleOctets 12 17 :=
    (Name.reads_of_spells owner (by decide)).bind fun _ own => ⟨_, rfl, by rw [own]; rfl⟩
  exact Message.decode_of_reads ⟨_, rfl, rfl⟩ ⟨1, rfl, rfl⟩ ⟨0, rfl, rfl⟩ ⟨0, rfl, rfl⟩
    ⟨0, rfl, rfl⟩ question.single .none .none .none

/-- A `Hook` that lets no response pass. -/
def rejecting : Hook := ⟨fun _ octets => octets, fun _ _ _ => false⟩

/-- The query in a place of a `Desk` is made, begun and sent. -/
def sentDeeds (index : Nat) : List Desk.Deed :=
  [.make 7 sampleServer (.internet .root .a), .begin index .default, .event index .written]

/-- Queries end in all ways there are: the response to the first one is accepted and that to the
second one rejected; the third one times out while the fourth one waits for its turn to be removed;
the fifth one is cleared away and the sixth one can't be sent; the seventh one is dropped before it
begins. -/
def sampleDeeds : List Desk.Deed :=
  [sentDeeds 0, [.deliver .default sampleServer sampleOctets, .event 0 .roused],
    sentDeeds 1, [.deliver rejecting sampleServer sampleOctets, .event 1 .roused],
    sentDeeds 2, sentDeeds 3, [.event 2 .elapsed, .remove sampleServer 8, .event 3 .roused],
    sentDeeds 4, [.clear, .event 4 .roused],
    [.make 7 sampleServer (.internet .root .a), .begin 5 .default, .event 5 (.unsent "refused")],
    [.make 7 sampleServer (.internet .root .a), .drop 6],
    sentDeeds 7, [.deliver .default sampleServer sampleOctets, .drop 7]].flatten

/-- The call that comes to `place` begins, and its query is sent. -/
def asking (place serial : Nat) : List Incident :=
  [.happens (.request (.question .root .a)), .happens (.step place),
    .happens (.event place serial .written), .happens (.step place)]

/-- A call attends to an `event` of its query. -/
def attending (place serial : Nat) (event : Event) : List Incident :=
  [.happens (.event place serial event), .happens (.step place)]

/-- The first call is answered. The hook rejects the response to the second one, which asks again
and times out. The query of the third one is removed, and that of the fourth one cleared away. The
fifth one is given up while the sixth one waits. -/
def sampleIncidents : List Incident :=
  asking 0 1 ++ .happens (.arrival sampleServer sampleOctets) :: (attending 0 1 .roused ++
    .happens (.hooking rejecting) :: asking 1 2 ++
    .happens (.arrival sampleServer sampleOctets) :: (attending 1 2 .roused ++
    attending 1 3 .written ++ attending 1 3 .elapsed ++
    asking 2 4 ++ asking 3 5 ++ .removal sampleServer 7 :: attending 2 4 .roused ++
    .clearing :: attending 3 5 .roused ++ asking 4 6 ++ asking 5 7 ++ [.happens (.abandon 4)]))

def sampleStart : Journal :=
  start (Settings.new.addServer sampleServer) .empty .default .default (fun _ => 7)

def sampleRun : Journal := run sampleStart sampleIncidents

/-- The `journal` after a response has come in `octets`. -/
def take (source : Endpoint) (octets : Octets) (message : Message) (journal : Journal) : Journal :=
  { journal with system := journal.system.take source octets message }

theorem run_arrival {source : Endpoint} {octets : Octets} {message : Message}
    (decoded : Message.decode octets = .ok message) (response : message.header.isResponse = true)
    (before later : List Incident) (start : Journal) :
    run start (before ++ .happens (.arrival source octets) :: later) =
      run ((run start before).take source octets message) later := by
  have arrives : (run start before).after (.happens (.arrival source octets)) =
      (run start before).take source octets message :=
    congrArg (fun system => { run start before with system := system })
      (System.occur_arrival decoded response (run start before).system)
  rw [run, List.foldl_append, List.foldl_cons]
  exact congrArg (run · later) arrives

/-- How the queries of `sampleDeeds` have ended. -/
theorem states_sampleDeeds :
    (Desk.run sampleDeeds).contexts.map (·.query.state) =
      [.succeeded, .transportFailed, .timedOut, .cancelled, .cancelled, .transportFailed, .created,
        .awaiting] ∧
    ∀ context ∈ (Desk.run sampleDeeds).contexts, context.Closed := by
  simp only [Desk.run, sampleDeeds, sentDeeds, List.flatten_cons, List.flatten_nil,
    List.cons_append, List.nil_append, List.foldl_cons, List.foldl_nil,
    Desk.after_deliver decode_sampleOctets rfl]
  decide +kernel

/-- After `sampleDeeds`, one more query waits. -/
def waitingDesk : Desk := Desk.run (sampleDeeds ++ sentDeeds 8)

theorem waits_waitingDesk :
    (waitingDesk.contexts[8]?.map fun context =>
        (context.dropped, context.query.state, context.query.serial)) = some (false, .awaiting, 9) ∧
      (waitingDesk.registry.replies.lookup 9).isNone ∧
      waitingDesk.registry.outstanding = [⟨sampleServer, 7, 9, .internet .root .a⟩] := by
  simp only [waitingDesk, Desk.run, sampleDeeds, sentDeeds, List.flatten_cons, List.flatten_nil,
    List.cons_append, List.nil_append, List.foldl_cons, List.foldl_nil,
    Desk.after_deliver decode_sampleOctets rfl]
  decide +kernel

/-- What the calls of `sampleRun` have registered, and which of them are over. -/
theorem calls_sampleRun : sampleRun.numbers = [0, 1, 2, 3, 5] ∧
    sampleRun.system.calls.map (·.isOver) = [true, true, true, true, false] ∧
    sampleRun.made = [(5, 7), (4, 6), (3, 5), (2, 4), (1, 3), (1, 2), (0, 1)] ∧
    sampleRun.system.resolver.registry.outstanding.map (·.serial) = [7] := by
  rw [sampleRun, sampleIncidents, run_arrival decode_sampleOctets rfl,
    run_arrival decode_sampleOctets rfl]
  decide +kernel

/-- All calls of `sampleRun` but the last one have returned or were given up. -/
theorem gone_sampleRun {number : Nat} (before : number < 5) : sampleRun.Gone number := by
  obtain ⟨numbers, ended, -⟩ := calls_sampleRun
  rintro place call ⟨named, here⟩
  have ends : (sampleRun.system.calls.map (·.isOver))[place]? = some call.isOver := by
    rw [List.getElem?_map, here]
    rfl
  rw [ended] at ends
  rw [numbers] at named
  obtain ⟨bound, -⟩ := List.getElem?_eq_some_iff.mp named
  have bound : place < 5 := bound
  interval_cases place
  case «4» =>
    obtain rfl := Option.some.inj named
    exact absurd before (Nat.lt_irrefl 5)
  all_goals exact (Option.some.inj ends).symm

/-- Nothing stays registered for the queries that have ended. One more `query` waits, and ends with
the verdict of the hook or when its time is over. Of all calls only the last one, which waits, has a
registration. -/
theorem run_leaks_nothing_sample :
    ((Desk.run sampleDeeds).contexts.map (·.query.state) = [.succeeded, .transportFailed,
        .timedOut, .cancelled, .cancelled, .transportFailed, .created, .awaiting] ∧
      (∀ context ∈ (Desk.run sampleDeeds).contexts, context.Tells) ∧
      (Desk.run sampleDeeds).registry.outstanding = []) ∧
    (∃ context ∈ waitingDesk.contexts, ∃ entry ∈ waitingDesk.registry.outstanding,
      entry.serial = context.query.serial ∧ ¬context.Closed) ∧
    ((waitingDesk.after (.deliver .default sampleServer sampleOctets)).after
      (.event 8 .roused)).EndedWith 8 (.ok sampleResponse) ∧
    ((waitingDesk.after (.deliver rejecting sampleServer sampleOctets)).after
      (.event 8 .elapsed)).EndedWith 8 (.error .rejected) ∧
    (waitingDesk.after (.event 8 .elapsed)).EndedWith 8 (.error .timeout) ∧
    ∃ entry ∈ sampleRun.system.resolver.registry.outstanding, (5, entry.serial) ∈ sampleRun.made ∧
      ∀ number < 5, sampleRun.Gone number ∧ (number, entry.serial) ∉ sampleRun.made := by
  obtain ⟨tells, empty, -, -, left⟩ := run_leaks_nothing sampleDeeds
    (Settings.new.addServer sampleServer) .empty .default .default (fun _ => 7) sampleIncidents
  obtain ⟨held, -, settles, -⟩ := run_leaks_nothing (sampleDeeds ++ sentDeeds 8)
    (Settings.new.addServer sampleServer) .empty .default .default (fun _ => 7) sampleIncidents
  obtain ⟨states, closed⟩ := states_sampleDeeds
  obtain ⟨last, unanswered, outstanding⟩ := waits_waitingDesk
  obtain ⟨-, -, made, waits⟩ := calls_sampleRun
  have seventh : 7 ∈ sampleRun.system.resolver.registry.outstanding.map (·.serial) := by
    rw [waits]
    exact List.mem_singleton_self 7
  obtain ⟨final, among, made'⟩ := List.mem_map.mp seventh
  refine ⟨⟨states, fun context among => (tells context among).1, empty closed⟩, ?waiting⟩
  have desk : Desk.run (sampleDeeds ++ sentDeeds 8) = waitingDesk := rfl
  have journal : run (start (Settings.new.addServer sampleServer) .empty .default .default
    fun _ => 7) sampleIncidents = sampleRun := rfl
  rw [desk] at held settles
  rw [journal] at left
  -- What is left to show of the desk follows from what is known about it by now.
  generalize waitingDesk = waiting at *
  obtain ⟨context, here, same⟩ := Option.map_eq_some_iff.mp last
  obtain ⟨present, awaiting, serial⟩ : context.dropped = false ∧ context.query.state = .awaiting ∧
      context.query.serial = 9 := by simpa using same
  have settles : waiting.Settles 8 context.query := settles 8 context here present
  have member : context ∈ waiting.contexts := List.mem_of_getElem? here
  let entry : Registration := ⟨sampleServer, 7, 9, .internet .root .a⟩
  have mem : entry ∈ waiting.registry.outstanding := outstanding ▸ List.mem_singleton_self entry
  have answers : Registry.Answers sampleServer sampleOctets sampleResponse entry :=
    ⟨decode_sampleOctets, rfl, rfl, rfl, _, rfl, Name.beq_iff.mpr rfl, rfl, rfl⟩
  have own : entry.serial = context.query.serial := serial.symm
  have accepted := settles.answered .default _ _ _ entry mem own answers _ (.roused awaiting)
  have rejected := settles.answered rejecting _ _ _ entry mem own answers _ (.elapsed awaiting)
  have elapsed := settles.elapsed awaiting (serial ▸ Option.isNone_iff_eq_none.mp unanswered)
    ⟨entry, mem, own⟩
  refine ⟨⟨context, member, entry, mem, own, (held context member).2 entry mem own⟩, accepted,
    rejected, elapsed, final, among, ?_, fun number before =>
      ⟨gone_sampleRun before, left number (gone_sampleRun before) final among⟩⟩
  rw [made', made]
  exact .head _

end Journal

end NameResolution
