import NameResolution.Proofs.Resolution.CallInvariants

/-!
# Histories of calls

A `Call.History` is all that happens to a call, without end. The call takes steps, each with any
resolver; events of queries come up; and the budget can be filled up again at any time, so that it
sets no limit.

* `Call.History.stationary`: from some time on nothing is left to do but to wait.
* `Call.History.Fair`: the call is tended to, and every query is settled at some time.
* `Call.History.exists_fair_of_play`: a script that ends with nothing to do begins such a history.
* `Call.History.never_loops`: referrals lead downwards, the single chances are used once, only finitely
  many queries are sent, and a call with a fair history is over at some time.
-/

namespace NameResolution

namespace Call

/-- What can happen to a `Call`. -/
inductive Deed
  | step (resolver : Resolver)
  | notify (serial : Nat) (event : Event)
  | refill (budget : Budget)

/-- What a deed leads to, for a `call` that has sent some queries. A `step` can also find that the
call has to wait. -/
inductive Deed.Leads (call : Call) (sent : Nat) : Deed → Call → Nat → Prop
  | step {resolver after : Resolver} {next : Call}
    (stepped : call.step resolver = (.ok (some next), after)) :
    Leads call sent (.step resolver) next (sent + (after.outbox.length - resolver.outbox.length))
  | rest {resolver after : Resolver} (rests : call.step resolver = (.ok none, after)) :
    Leads call sent (.step resolver) call sent
  | notify (serial : Nat) (event : Event) :
    Leads call sent (.notify serial event) (call.notify serial event) sent
  | refill (budget : Budget) :
    Leads call sent (.refill budget)
      { call with allowance := { call.allowance with budget := budget } } sent

/-- All that happens to a `Call` that has sent some queries, and how many it has sent at each
time. -/
structure History (first : Call) (already : Nat) where
  call : Nat → Call
  sent : Nat → Nat
  deed : Nat → Deed
  call_zero : call 0 = first
  sent_zero : sent 0 = already
  leads : ∀ time, (deed time).Leads (call time) (sent time) (call (time + 1)) (sent (time + 1))

namespace Deed

variable {call next : Call} {sent total : Nat} {deed : Deed}

theorem Leads.less_or_same (leads : deed.Leads call sent next total) : next.work.Less call.work ∨
    next.work = call.work ∧ next.serials = call.serials ∧ total = sent := by
  cases leads with
  | step stepped =>
    obtain less | ⟨work, serials, outbox⟩ := (stride_of_step stepped).less_or_same
    · exact .inl less
    · exact .inr ⟨work, serials, by rw [outbox, Nat.sub_self]; rfl⟩
  | rest rests => exact .inr ⟨rfl, rfl, rfl⟩
  | notify serial event => exact .inr ⟨rfl, rfl, rfl⟩
  | refill budget => exact .inr ⟨rfl, rfl, rfl⟩

theorem Leads.sent_le (leads : deed.Leads call sent next total) : sent ≤ total := by
  cases leads with
  | step stepped => exact Nat.le_add_right _ _
  | rest rests => exact Nat.le_refl _
  | notify serial event => exact Nat.le_refl _
  | refill budget => exact Nat.le_refl _

theorem Leads.chances (leads : deed.Leads call sent next total) :
    (call.allowance.chased = true → next.allowance.chased = true) ∧
      (call.allowance.aliasAsked = true → next.allowance.aliasAsked = true) := by
  cases leads with
  | step stepped => exact (stride_of_step stepped).chances
  | rest rests => exact ⟨id, id⟩
  | notify serial event => exact ⟨id, id⟩
  | refill budget => exact ⟨id, id⟩

theorem Leads.ready (leads : deed.Leads call sent next total) (ready : call.Ready) :
    next.Ready := by
  cases leads with
  | step stepped => exact (stride_of_step stepped).ready ready
  | rest rests => exact ready
  | notify serial event =>
    exact ⟨fun requested => List.mem_append_left _ (ready.begins requested), ready.nodup,
      fun type mem => List.mem_append_left _ (ready.starts type mem)⟩
  | refill budget => exact ⟨ready.begins, ready.nodup, ready.starts⟩

theorem Leads.onCourse (leads : deed.Leads call sent next total) (onCourse : call.OnCourse) :
    next.OnCourse := by
  cases leads with
  | step stepped => exact (stride_of_step stepped).onCourse onCourse
  | rest rests => exact onCourse
  | notify serial event => exact onCourse
  | refill budget => exact onCourse

theorem Leads.shrinks (leads : deed.Leads call sent next total) : next.work.AtMost call.work := by
  obtain less | ⟨same, -⟩ := leads.less_or_same
  · exact less.atMost
  · exact .inl same

theorem Leads.fallsBack {resolver : Resolver}
    (leads : (Deed.step resolver).Leads call sent next total) (falls : call.FallsBack resolver) :
    call.allowance.aliasAsked = false ∧ next.allowance.aliasAsked = true := by
  obtain ⟨asking, after, stepped, asks, anew⟩ := falls
  cases leads with
  | rest rests => cases stepped.symm.trans rests
  | step stepped' =>
    cases stepped.symm.trans stepped'
    exact (stride_of_step stepped).fallsBack asks anew

theorem Leads.chasesAlias {resolver : Resolver}
    (leads : (Deed.step resolver).Leads call sent next total) (chases : call.ChasesAlias resolver) :
    call.allowance.chased = false ∧ next.allowance.chased = true := by
  cases leads with
  | step stepped => exact (stride_of_step stepped).chasesAlias chases
  | rest rests =>
    obtain ⟨serial, event, matters, _, _, _, _, _, _, first, -⟩ := chases
    cases (of_rests rests).1.symm.trans first

end Deed

namespace History

section Futures

variable {first : Call} {already : Nat} (history : History first already)

/-- At this `time` an alias is chased at the network. -/
def ChasesAt (time : Nat) : Prop :=
  ∃ resolver, history.deed time = .step resolver ∧ (history.call time).ChasesAlias resolver

/-- At this `time` the call falls back to asking whether a name is an alias. -/
def FallsBackAt (time : Nat) : Prop :=
  ∃ resolver, history.deed time = .step resolver ∧ (history.call time).FallsBack resolver

/-- The call is tended to, so that again and again it has nothing to do but to wait, and no query is
waited for without end. -/
structure Fair : Prop where
  tended : ∀ time, ∃ later, time ≤ later ∧
    ∃ resolver after, (history.call later).step resolver = (.ok none, after)
  settled : ∀ time, ∀ serial ∈ (history.call time).serials,
    ∃ later, time ≤ later ∧ serial ∉ (history.call later).serials

theorem monotone_sent : Monotone history.sent :=
  monotone_nat_of_le_succ fun time => (history.leads time).sent_le

/-- What uses up a chance that does not come back happens at one `time` at most. -/
theorem once {happens : Nat → Prop} {used : Nat → Bool}
    (kept : ∀ time, used time = true → used (time + 1) = true)
    (uses : ∀ time, happens time → used time = false ∧ used (time + 1) = true) {time later : Nat}
    (first : happens time) (second : happens later) : time = later := by
  have never {time later : Nat} (first : happens time) (second : happens later) :
      later ≤ time := by
    by_contra before
    have still : used later = true :=
      Nat.le_induction (uses time first).2 (fun middle _ => kept middle) later
        (Nat.lt_of_not_le before)
    cases still.symm.trans (uses later second).1
  exact Nat.le_antisymm (never second first) (never first second)

/-- From some `start` on there is nothing left to do but to wait, and for the same queries. -/
theorem stationary : ∃ start, ∀ time, start ≤ time →
    (history.call time).serials = (history.call start).serials ∧
      history.sent time = history.sent start := by
  obtain ⟨start, same⟩ : ∃ start, ∀ time, start ≤ time →
      (history.call time).work = (history.call start).work :=
    Work.stationary fun time => (history.leads time).shrinks
  refine ⟨start, fun time later => ?_⟩
  induction time, later using Nat.le_induction with
  | base => exact ⟨rfl, rfl⟩
  | succ time later ih =>
    obtain less | ⟨-, serials, sent⟩ := (history.leads time).less_or_same
    · rw [same _ (Nat.le_succ_of_le later), same _ later] at less
      exact absurd less Work.Less.irrefl
    · exact ⟨serials.trans ih.1, sent.trans ih.2⟩

/-! ## Composing histories -/

/-- The `History` of a `call` that rests for ever. -/
def rest {call : Call} {resolver after : Resolver} (rests : call.step resolver = (.ok none, after))
    (sent : Nat) : History call sent where
  call _ := call
  sent _ := sent
  deed _ := .step resolver
  call_zero := rfl
  sent_zero := rfl
  leads _ := .rest rests

/-- A `History` with a deed before it. -/
def cons {call : Call} {sent : Nat} {deed : Deed} (leads : deed.Leads call sent first already) :
    History call sent where
  call
    | 0 => call
    | time + 1 => history.call time
  sent
    | 0 => sent
    | time + 1 => history.sent time
  deed
    | 0 => deed
    | time + 1 => history.deed time
  call_zero := rfl
  sent_zero := rfl
  leads
    | 0 => by simpa only [history.call_zero, history.sent_zero] using leads
    | time + 1 => history.leads time

theorem fair_rest {call : Call} {resolver after : Resolver}
    (rests : call.step resolver = (.ok none, after)) (none : call.serials = []) (sent : Nat) :
    (rest rests sent).Fair where
  tended time := ⟨time, Nat.le_refl _, resolver, after, rests⟩
  settled time serial waits := by
    rw [show ((rest rests sent).call time).serials = [] from none] at waits
    cases waits

/-- What happens at first does not matter for a `history` to be fair. -/
theorem Fair.cons {history : History first already} {call : Call} {sent : Nat} {deed : Deed}
    (fair : history.Fair) (leads : deed.Leads call sent first already) :
    (history.cons leads).Fair where
  tended time := by
    obtain ⟨later, after, rests⟩ := fair.tended time
    exact ⟨later + 1, Nat.le_succ_of_le after, rests⟩
  settled time serial waits := by
    by_cases gone : serial ∈ (history.call time).serials
    · obtain ⟨later, after, gone⟩ := fair.settled time serial gone
      exact ⟨later + 1, Nat.le_succ_of_le after, gone⟩
    · exact ⟨time + 1, Nat.le_succ _, gone⟩

/-! ## Histories that are played -/

/-- What happens to a call whose resolver nobody else uses: it takes a `step`; an `event` of a query
comes up; a query gets its response; the `budget` is filled up again. -/
inductive Cue
  | step
  | notify (serial : Nat) (event : Event)
  | answer (serial : Nat) (message : Message)
  | refill (budget : Nat)

/-- The deed of a `Cue`. -/
def Cue.deed (resolver : Resolver) : Cue → Deed
  | step => .step resolver
  | notify serial event => .notify serial event
  | answer serial _ => .notify serial .roused
  | refill budget => .refill (.full budget)

/-- The `Resolver` and the `Call` after a `Cue`, unless the call has to wait or is refused a
`step`. -/
def Cue.play (state : Resolver × Call) : Cue → Option (Resolver × Call)
  | step =>
    match state.2.step state.1 with
    | (.ok (some next), after) => some (after, next)
    | _ => none
  | notify serial event => some (state.1, state.2.notify serial event)
  | answer serial message =>
    let registry := { state.1.registry with
      outstanding := state.1.registry.outstanding.filter (·.serial ≠ serial)
      replies := (serial, .response message) :: state.1.registry.replies }
    some ({ state.1 with registry := registry }, state.2.notify serial .roused)
  | refill budget => some (state.1, { state.2 with
      allowance := { state.2.allowance with budget := .full budget } })

/-- The `Resolver` and the `Call` after a `script`. -/
def play (state : Resolver × Call) (script : List Cue) : Option (Resolver × Call) :=
  script.foldlM Cue.play state

theorem Cue.leads {state next : Resolver × Call} {cue : Cue} (played : cue.play state = some next)
    (sent : Nat) : ∃ total, (cue.deed state.1).Leads state.2 sent next.2 total := by
  cases cue with
  | step =>
    rw [Cue.play] at played
    split at played
    · rename_i call after stepped
      obtain rfl := Option.some.inj played
      exact ⟨_, .step stepped⟩
    · cases played
  | notify serial event =>
    obtain rfl := Option.some.inj played
    exact ⟨_, .notify serial event⟩
  | answer serial message =>
    obtain rfl := Option.some.inj played
    exact ⟨_, .notify serial .roused⟩
  | refill budget =>
    obtain rfl := Option.some.inj played
    exact ⟨_, .refill _⟩

/-- A `script` that ends with nothing to do is the beginning of a fair `history`. -/
theorem exists_fair_of_play {state last : Resolver × Call} {script : List Cue}
    (played : play state script = some last) (done : last.2.isOver = true)
    (attended : last.2.matters.isEmpty = true) (sent : Nat) :
    ∃ history : History state.2 sent, history.Fair ∧
      ∀ before cue rest, script = before ++ cue :: rest → ∃ middle,
        play state before = some middle ∧ history.call before.length = middle.2 ∧
          history.deed before.length = cue.deed middle.1 := by
  -- The induction is on the cues that are left. When none is, the call rests for ever.
  induction script generalizing state sent with
  | nil =>
    obtain rfl := Option.some.inj played
    obtain ⟨resolver, request, allowance, activity, matters⟩ := state
    obtain rfl : matters = [] := List.isEmpty_iff.mp attended
    cases activity with
    | «over» result =>
      have rests : Call.step ⟨request, allowance, .over result, []⟩ resolver =
        (.ok none, resolver) := rfl
      refine ⟨rest rests sent, fair_rest rests rfl sent, fun before cue rest split => ?_⟩
      cases List.append_ne_nil_of_right_ne_nil before (List.cons_ne_nil cue rest) split.symm
    | requested => cases done
    | racing lookup => cases done
    | asking asked => cases done
  | cons cue script ih =>
    obtain ⟨next, first, later⟩ := Option.bind_eq_some_iff.mp played
    obtain ⟨total, leads⟩ := cue.leads first sent
    obtain ⟨history, fair, follows⟩ := ih later total
    refine ⟨history.cons leads, fair.cons leads, fun before other rest split => ?_⟩
    cases before with
    | nil =>
      obtain ⟨rfl, -⟩ := List.cons.inj split
      exact ⟨state, rfl, rfl, rfl⟩
    | cons head before =>
      obtain ⟨rfl, tail⟩ := List.cons.inj split
      obtain ⟨middle, plays, call, deed⟩ := follows before other rest tail
      refine ⟨middle, ?_, call, deed⟩
      rw [play, List.foldlM_cons, first]
      exact plays

end Futures

/-! ## Histories of new calls -/

variable {request : Request} {budget : Nat} (history : History (.new request budget) 0)

theorem ready (time : Nat) : (history.call time).Ready := by
  induction time with
  | zero =>
    rw [history.call_zero]
    exact ready_new _ _
  | succ time ih => exact (history.leads time).ready ih

theorem onCourse (time : Nat) : (history.call time).OnCourse := by
  induction time with
  | zero =>
    rw [history.call_zero]
    exact onCourse_new _ _
  | succ time ih => exact (history.leads time).onCourse ih

/-- A `call` with a fair `history` is over at some time: otherwise it would wait for a query when
nothing is left to do but to wait, and this query would be settled. -/
theorem exists_over (fair : history.Fair) : ∃ time, (history.call time).isOver = true := by
  obtain ⟨start, same⟩ := history.stationary
  obtain ⟨time, later, resolver, after, rests⟩ := fair.tended start
  refine ⟨time, ?_⟩
  by_contra busy
  obtain ⟨serial, waits⟩ := (history.ready time).exists_serial rests (by simpa using busy)
  obtain ⟨settled, later', gone⟩ := fair.settled time serial waits
  rw [(same time later).1] at waits
  rw [(same settled (later.trans later')).1] at gone
  exact gone waits

/-- Referrals never loop, and a call ends without its budget.

A pass that `Goes` on keeps its servers, or it `Descends`: it accepts a referral to a zone around
the name that it asks for, strictly below the zone of the servers that gave it. So the `zones` of a
pass lead strictly downwards, with at most 127 redirects, and this is how all passes of a call run
at any time. A call chases at most one alias at the network (`ChasesAt`), and asks at most once
whether a name is an alias (`FallsBackAt`). So no pass goes on for ever while its queries are
settled. A call sends only finitely many queries, even when its budget is filled up again and again.
If it is tended to and no query is waited for without end (`Fair`), it is over at some time. -/
theorem never_loops : (∀ (stage next : Pass.Stage) (response : Option Message),
      stage.Goes response next → stage.Keeps next ∨ stage.Descends response next) ∧
    (∀ (zones : List Name) (stage : Pass.Stage), Pass.Course zones stage →
      zones.head? = some stage.zone ∧ zones.IsChain Name.IsBelow ∧ zones.length ≤ 128) ∧
    (∀ time, (history.call time).OnCourse) ∧
    (∀ time later, history.ChasesAt time → history.ChasesAt later → time = later) ∧
    (∀ time later, history.FallsBackAt time → history.FallsBackAt later → time = later) ∧
    IsEmpty Pass.Endless ∧
    (∃ most, ∀ time, history.sent time ≤ most) ∧
    (history.Fair → ∃ time, (history.call time).isOver = true) := by
  refine ⟨fun stage next response => Pass.Stage.Goes.keeps_or_descends,
    fun zones stage => Pass.Course.descends, history.onCourse, fun time later => ?_,
    fun time later => ?_, Pass.isEmpty_endless, ?_, history.exists_over⟩
  · refine once (fun time => (history.leads time).chances.1) fun time chases => ?_
    obtain ⟨resolver, steps, chases⟩ := chases
    exact (steps ▸ history.leads time).chasesAlias chases
  · refine once (fun time => (history.leads time).chances.2) fun time falls => ?_
    obtain ⟨resolver, steps, falls⟩ := falls
    exact (steps ▸ history.leads time).fallsBack falls
  · obtain ⟨start, same⟩ := history.stationary
    refine ⟨history.sent start, fun time => ?_⟩
    rcases Nat.le_total start time with later | before
    · exact (same time later).2.le
    · exact history.monotone_sent before

/-! ### A lookup that is referred -/

/-- The first server says that `b.` serves the zone `a.`, and where it is. -/
def referring : Message :=
  ⟨⟨0, 129, 128⟩, [.internet (.top 97) .a], [], [⟨.top 97, .internet, 3600, .ns (.top 98)⟩],
    [⟨.top 98, .internet, 3600, .a (.ofOctets 192 0 2 2)⟩]⟩

/-- The second one says that `a.` is an alias of `c.` -/
def aliasing : Message :=
  ⟨⟨0, 129, 128⟩, [.internet (.top 97) .a], [⟨.top 97, .internet, 3600, .cname (.top 99)⟩], [], []⟩

/-- Then it gives an address of `c.` -/
def answering : Message :=
  ⟨⟨0, 129, 128⟩, [.internet (.top 99) .a],
    [⟨.top 99, .internet, 3600, .a (.ofOctets 192 0 2 7)⟩], [], []⟩

/-- A host is looked up with a budget of one query, which is filled up again (`refill`) for the
server that the lookup is referred to, and for the alias that it chases there. -/
def referredScript : List Cue :=
  [.step, .step, .step, .notify 1 .written, .step, .answer 1 referring, .refill 1, .step,
    .notify 2 .written, .step, .answer 2 aliasing, .refill 1, .step,
    .notify 3 .written, .step, .answer 3 answering, .step, .step]

/-- What the script comes to: the second query goes to a server of the zone `a.`, an alias is chased,
and the call is over. -/
theorem play_referredScript :
    ((play (lone, .new (.host "a.") 1) (referredScript.take 8)).bind fun state =>
      (state.2.addressee? 2).map (·.asked.inquiry.zone)) = some (.top 97) ∧
    ((play (lone, .new (.host "a.") 1) (referredScript.take 13)).map fun state =>
      state.2.allowance.chased) = some true ∧
    ((play (lone, .new (.host "a.") 1) referredScript).map fun state =>
      (state.2.isOver, state.2.matters.isEmpty)) = some (true, true) := by
  decide +kernel

/-- A lookup is referred, chases an alias, and has its `budget` filled up again. It sends finitely
many queries and ends. -/
theorem never_loops_referred : ∃ history : History (.new (.host "a.") 1) 0, history.Fair ∧
    (∃ time, ((history.call time).addressee? 2).map (·.asked.inquiry.zone) = some (.top 97)) ∧
    (∃ time, (history.call time).allowance.chased = true) ∧
    (∃ time budget, history.deed time = .refill budget) ∧
    (∃ most, ∀ time, history.sent time ≤ most) ∧
    ∃ time, (history.call time).isOver = true := by
  obtain ⟨zone, chased, ends⟩ := play_referredScript
  obtain ⟨last, played, ending⟩ := Option.map_eq_some_iff.mp ends
  obtain ⟨done, attended⟩ := Prod.mk.inj ending
  obtain ⟨history, fair, follows⟩ := exists_fair_of_play played done attended 0
  obtain ⟨-, -, -, -, -, -, bounded, ended⟩ := history.never_loops
  refine ⟨history, fair, ?referred, ?chased, ?refilled, bounded, ended fair⟩
  case referred =>
    obtain ⟨middle, plays, call, -⟩ :=
      follows (referredScript.take 8) _ (referredScript.drop 9) rfl
    rw [plays] at zone
    refine ⟨(referredScript.take 8).length, ?_⟩
    rw [call]
    exact zone
  case chased =>
    obtain ⟨middle, plays, call, -⟩ :=
      follows (referredScript.take 13) _ (referredScript.drop 14) rfl
    rw [plays] at chased
    refine ⟨(referredScript.take 13).length, ?_⟩
    rw [call]
    exact Option.some.inj chased
  case refilled =>
    obtain ⟨middle, -, -, deed⟩ := follows (referredScript.take 6) _ (referredScript.drop 7) rfl
    exact ⟨_, _, deed⟩

end History

end Call

end NameResolution
