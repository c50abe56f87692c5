import NameResolution.Proofs.Query.Custody

/-!
# How queries end

Whatever becomes of the registration of a query, the query finds it out at the next event that makes
it look, and ends in the state for it. When its time is over, it ends in any case.

* `Query.Looks`: an event makes a query look what has become of it. `Query.endsBy_of_fate`: it ends
  with what it finds. `Query.endsBy_of_elapsed`, `Query.endsBy_of_unsent`: how it ends otherwise.
* `Desk.EndedWith`: a query has ended with a result, in the state for it, and is not registered.
* `Desk.Settles`: all ways in which a query that is under way ends. `Desk.Kept.settles`: after any
  run every query that was not dropped does.
-/

namespace NameResolution

/-- The result of a query that takes up the reply. -/
def Reply.settlement : Reply → Settlement
  | .response message => .ok message
  | .rejected => .error .rejected

/-- The result of a query for the `Fate` of it, unless it has to wait on. -/
def Fate.settlement? : Fate → Option Settlement
  | .waiting => none
  | .answered reply => some reply.settlement
  | .gone => some (.error .cancelled)

namespace Registry

variable {registry : Registry} {serial : Nat}

theorem fate_of_lookup {reply : Reply} (handed : registry.replies.lookup serial = some reply) :
    registry.fate serial = .answered reply := by
  rw [fate, handed]

theorem fate_of_registered (none : registry.replies.lookup serial = none) {entry : Registration}
    (mem : entry ∈ registry.outstanding) (own : entry.serial = serial) :
    registry.fate serial = .waiting := by
  have waits : registry.outstanding.any (·.serial = serial) = true :=
    List.any_eq_true.mpr ⟨entry, mem, decide_eq_true own⟩
  rw [fate, none]
  exact if_pos waits

theorem fate_of_unregistered (none : registry.replies.lookup serial = none)
    (gone : ∀ entry ∈ registry.outstanding, entry.serial ≠ serial) :
    registry.fate serial = .gone := by
  have left : ¬registry.outstanding.any (·.serial = serial) = true := fun waits => by
    obtain ⟨entry, mem, own⟩ := List.any_eq_true.mp waits
    exact gone entry mem (of_decide_eq_true own)
  rw [fate, none]
  exact if_neg left

/-- A delivery that `answers` a query hands it the `verdict` of the `hook`. -/
theorem lookup_deliver (hook : Hook) {source : Endpoint} {octets : Octets} {message : Message}
    {entry : Registration} (distinct : registry.Distinct) (mem : entry ∈ registry.outstanding)
    (answers : Answers source octets message entry) :
    (deliver hook source octets registry).2.replies.lookup entry.serial =
      some (verdict hook source octets message) := by
  rw [deliver_of_answers hook distinct mem answers]
  exact List.lookup_cons_self

end Registry

namespace Query

/-- The `Event` makes the `query` look what has become of its registration. -/
inductive Looks (query : Query) : Event → Prop
  | written (writing : query.state = .writing) : Looks query .written
  | roused (awaiting : query.state = .awaiting) : Looks query .roused
  | elapsed (awaiting : query.state = .awaiting) : Looks query .elapsed

variable {query : Query} {event : Event} {registry : Registry}

theorem Looks.isSettled (looks : query.Looks event) : query.state.isSettled = false := by
  cases looks with
  | written state | roused state | elapsed state => rw [state]; rfl

/-- The `event` makes the `query` end with a `result`, in the state for it. -/
def EndsBy (query : Query) (event : Event) (registry : Registry) (result : Settlement) : Prop :=
  (query.happen event registry).1 = (some result, { query with state := .ofSettlement result })

theorem check_of_fate {result : Settlement}
    (ends : (registry.fate query.serial).settlement? = some result) :
    (query.check registry).1 = (some result, { query with state := .ofSettlement result }) := by
  simp only [check, stateM_bind_apply, stateM_get_apply]
  cases fate : registry.fate query.serial with
  | waiting =>
    rw [fate] at ends
    cases ends
  | gone =>
    rw [fate] at ends
    obtain rfl := Option.some.inj ends
    rfl
  | answered reply =>
    rw [fate] at ends
    obtain rfl := Option.some.inj ends
    cases reply <;> rfl

/-- A `query` that looks ends with what has become of it, unless it has to wait on. -/
theorem endsBy_of_fate {result : Settlement} (looks : query.Looks event)
    (ends : (registry.fate query.serial).settlement? = some result) :
    query.EndsBy event registry result := by
  unfold EndsBy happen
  cases looks with
  | written state =>
    have sent : (registry.fate { query with state := .awaiting }.serial).settlement? =
      some result := ends
    rw [state]
    exact check_of_fate sent
  | roused state =>
    rw [state]
    exact check_of_fate ends
  | elapsed state =>
    have checked := check_of_fate ends
    rw [state]
    dsimp only
    rw [stateM_bind_apply, checked]
    rfl

/-- A `query` that has to wait on ends when its time is over. -/
theorem endsBy_of_elapsed (awaiting : query.state = .awaiting)
    (waits : registry.fate query.serial = .waiting) :
    query.EndsBy .elapsed registry (.error .timeout) := by
  simp [EndsBy, happen, awaiting, check, waits, settle, QueryState.ofSettlement]

/-- A `query` that cannot be sent ends at once. -/
theorem endsBy_of_unsent (writing : query.state = .writing) (text : String) :
    query.EndsBy (.unsent text) registry (.error (.transport text)) := by
  simp [EndsBy, happen, writing, settle, QueryState.ofSettlement]

end Query

/-! ## Queries at a desk -/

namespace Desk

/-- The query in a place has ended with a `result`: the result is kept, the query is in the state
for it, and nothing is registered for it any more. -/
def EndedWith (desk : Desk) (index : Nat) (result : Settlement) : Prop :=
  ∃ context, desk.contexts[index]? = some context ∧ context.result = some result ∧
    context.query.state = .ofSettlement result ∧
    ∀ entry ∈ desk.registry.outstanding, entry.serial ≠ context.query.serial

/-- A `query` in a place that is under way ends in one of these ways. -/
structure Settles (desk : Desk) (index : Nat) (query : Query) : Prop where
  /-- The `query` could not be sent. -/
  unsent : query.state = .writing → ∀ text,
    (desk.after (.event index (.unsent text))).EndedWith index (.error (.transport text))
  /-- A response has come that answers the `query`, and the `hook` has given its `verdict`. -/
  answered : ∀ hook source octets message, ∀ entry ∈ desk.registry.outstanding,
    entry.serial = query.serial → Registry.Answers source octets message entry →
    ∀ event, query.Looks event →
      ((desk.after (.deliver hook source octets)).after (.event index event)).EndedWith index
        (Registry.verdict hook source octets message).settlement
  /-- The `query` was handed a reply before, and has not taken it up yet. -/
  replied : ∀ reply, desk.registry.replies.lookup query.serial = some reply →
    ∀ event, query.Looks event →
      (desk.after (.event index event)).EndedWith index reply.settlement
  /-- The registration of the `query` has been removed. -/
  gone : desk.registry.replies.lookup query.serial = none →
    (∀ entry ∈ desk.registry.outstanding, entry.serial ≠ query.serial) →
    ∀ event, query.Looks event →
      (desk.after (.event index event)).EndedWith index (.error .cancelled)
  /-- The `query` is still registered, but its time is over. -/
  elapsed : query.state = .awaiting → desk.registry.replies.lookup query.serial = none →
    (∃ entry ∈ desk.registry.outstanding, entry.serial = query.serial) →
    (desk.after (.event index .elapsed)).EndedWith index (.error .timeout)

variable {desk : Desk} {index : Nat} {context : Context}

theorem after_deliver {source : Endpoint} {octets : Octets} {message : Message}
    (decoded : Message.decode octets = .ok message) (response : message.header.isResponse = true)
    (hook : Hook) (desk : Desk) :
    desk.after (.deliver hook source octets) =
      { desk with registry := desk.registry.take hook source octets message } :=
  congrArg (Desk.mk · desk.contexts)
    (Registry.deliver_of_read (Registry.readResponse_eq_ok_iff.mpr ⟨decoded, response⟩))

theorem Kept.endedWith (kept : desk.Kept) (here : desk.contexts[index]? = some context)
    (present : context.dropped = false) (underWay : context.query.state.isSettled = false)
    {event : Event} {result : Settlement}
    (ends : context.query.EndsBy event desk.registry result) :
    (desk.after (.event index event)).EndedWith index result := by
  -- A query that is under way has no result so far, so it keeps the one that it ends with.
  have none : context.result = none := by
    have settled := (kept.agrees context (List.mem_of_getElem? here)).settled
    rw [underWay] at settled
    simpa using settled.symm
  let next : Context := { context with
    query := { context.query with state := .ofSettlement result }
    result := some result }
  have after : (desk.after (.event index event)).contexts = desk.contexts.set index next := by
    have met : (meetEvent event context desk.registry).1 = next := by
      rw [Query.EndsBy] at ends
      simp only [meetEvent, stateM_bind_apply, stateM_pure_apply, ends, none, Option.none_or, next]
    simp only [Desk.after, Desk.onContext, here, present]
    exact congrArg (desk.contexts.set index) met
  have there : (desk.after (.event index event)).contexts[index]? = some next := by
    rw [after]
    exact List.getElem?_set_self (List.getElem?_eq_some_iff.mp here).1
  refine ⟨next, there, rfl, rfl, fun entry mem own => ?_⟩
  exact (kept.after _).not_closed (List.mem_of_getElem? there) mem own
    (.inl (QueryState.isSettled_ofSettlement result))

/-- Every `query` that was not dropped ends in one of the ways there are. -/
theorem Kept.settles (kept : desk.Kept) (here : desk.contexts[index]? = some context)
    (present : context.dropped = false) : desk.Settles index context.query where
  unsent writing text :=
    kept.endedWith here present (by rw [writing]; rfl) (Query.endsBy_of_unsent writing text)
  answered hook source octets message entry mem own answers event looks := by
    have handed := Registry.lookup_deliver hook kept.distinct mem answers
    rw [own] at handed
    have delivered : (desk.after (.deliver hook source octets)).Kept := kept.after _
    exact delivered.endedWith here present looks.isSettled (Query.endsBy_of_fate looks
      (congrArg Fate.settlement? (Registry.fate_of_lookup handed)))
  replied reply handed event looks :=
    kept.endedWith here present looks.isSettled (Query.endsBy_of_fate looks
      (congrArg Fate.settlement? (Registry.fate_of_lookup handed)))
  gone none left event looks :=
    kept.endedWith here present looks.isSettled (Query.endsBy_of_fate looks
      (congrArg Fate.settlement? (Registry.fate_of_unregistered none left)))
  elapsed awaiting none registered := by
    obtain ⟨entry, mem, own⟩ := registered
    exact kept.endedWith here present (by rw [awaiting]; rfl)
      (Query.endsBy_of_elapsed awaiting (Registry.fate_of_registered none mem own))

end Desk

end NameResolution
