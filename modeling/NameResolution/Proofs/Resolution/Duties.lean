import Mathlib.Data.Multiset.DershowitzManna
import Mathlib.Data.Prod.Lex
import Mathlib.Order.WellFounded
import NameResolution.Proofs.Resolution.Referrals

/-!
# What is left for a call to do

A budget is not needed for a call to come to an end: what is left to do becomes less with every
query that is settled. A call has a multiset of duties. Each step discharges a duty and takes on any
number of smaller ones, so it goes down in the Dershowitz–Manna order, which is well-founded.

* `Duty`: how much may come of a part of a call, in lexicographic order.
* `Work`: the duties of a call. `Work.Less`: fewer or smaller duties.
* `Pass.Settled.less`, `Pass.resume_less`: a pass has less to do when its query is settled.
* `Pass.Endless`: a pass that would go on for ever. `Pass.isEmpty_endless`: there is none.
-/

namespace NameResolution

/-! ## Duties -/

/-- A `Duty`: its level, how many zones may lie below its zone, one more than the servers that are
left to be looked up, and the turns or record types that are left. -/
abbrev Duty := ℕ ×ₗ ℕ ×ₗ ℕ ×ₗ ℕ

namespace Duty

/-- The `Duty` with given parts. -/
def of (level zones servers turns : Nat) : Duty :=
  toLex (level, toLex (zones, toLex (servers, turns)))

theorem of_lt_of {level zones servers turns level' zones' servers' turns' : Nat} :
    of level zones servers turns < of level' zones' servers' turns' ↔
      level < level' ∨ level = level' ∧ (zones < zones' ∨ zones = zones' ∧
        (servers < servers' ∨ servers = servers' ∧ turns < turns')) := by
  simp only [of, Prod.Lex.toLex_lt_toLex]

end Duty

/-- The duties of a call, each of them a `Duty`. -/
abbrev Work := Multiset Duty

namespace Work

variable {less more work : Work}

/-- To have `less` to do is to have some duties of `more` discharged for smaller ones. -/
def Less (less more : Work) : Prop := Multiset.IsDershowitzMannaLT less more

/-- There is at most as much to do, `Less` or the same. -/
def AtMost (less more : Work) : Prop := less = more ∨ Less less more

theorem wellFounded_less : WellFounded Less := Multiset.wellFounded_isDershowitzMannaLT

theorem Less.of_discharge (rest : Work) {duty : Duty} (mem : duty ∈ more)
    (smaller : ∀ next ∈ less, next < duty) : Less (rest + less) (rest + more) :=
  ⟨rest, less, more, by rintro rfl; exact Multiset.notMem_zero _ mem, rfl, rfl,
    fun next left => ⟨duty, mem, smaller next left⟩⟩

theorem Less.of_smaller {duty : Duty} (mem : duty ∈ more) (smaller : ∀ next ∈ less, next < duty) :
    Less less more := by
  simpa only [zero_add] using of_discharge 0 mem smaller

theorem Less.trans (first : Less less work) (second : Less work more) : Less less more :=
  Multiset.IsDershowitzMannaLT.trans first second

theorem Less.add_left (below : Less less more) (rest : Work) :
    Less (rest + less) (rest + more) := by
  obtain ⟨kept, after, before, some, rfl, rfl, smaller⟩ := below
  exact ⟨rest + kept, after, before, some, (add_assoc ..).symm, (add_assoc ..).symm, smaller⟩

theorem Less.atMost (below : Less less more) : AtMost less more := .inr below

theorem AtMost.refl (work : Work) : AtMost work work := .inl rfl

theorem AtMost.trans_less (first : AtMost less work) (second : Less work more) :
    Less less more := by
  rcases first with rfl | first
  · exact second
  · exact first.trans second

theorem AtMost.trans (first : AtMost less work) (second : AtMost work more) :
    AtMost less more := by
  rcases second with rfl | second
  · exact first
  · exact (first.trans_less second).atMost

theorem AtMost.add_left (below : AtMost less more) (rest : Work) :
    AtMost (rest + less) (rest + more) := by
  rcases below with rfl | below
  · exact .refl _
  · exact (below.add_left rest).atMost

theorem Less.irrefl : ¬Less work work :=
  wellFounded_less.irrefl.irrefl work

/-- Work that only ever becomes less is the same from some time on. -/
theorem stationary {work : Nat → Work}
    (shrinks : ∀ time, (work (time + 1)).AtMost (work time)) :
    ∃ start, ∀ time, start ≤ time → work time = work start := by
  obtain ⟨_, ⟨start, rfl⟩, least⟩ := wellFounded_less.has_min (Set.range work) ⟨_, 0, rfl⟩
  refine ⟨start, fun time later => ?_⟩
  induction time, later using Nat.le_induction with
  | base => rfl
  | succ time later ih =>
    rcases shrinks time with same | less
    · exact same.trans ih
    · rw [ih] at less
      exact absurd less (least _ ⟨_, rfl⟩)

end Work

/-! ## Passes -/

/-- How many zones can lie below a `zone`, one inside the other. -/
def Name.room (zone : Name) : Nat := 127 - zone.labels.length

theorem Name.IsBelow.room_lt {name other : Name} (below : name.IsBelow other) :
    name.room < other.room := by
  have := below.length_lt
  have := name.length_labels_le
  unfold room
  omega

/-- The `Duty` that an inquiry is under: what may come of asking servers. -/
def Inquiry.duty (inquiry : Inquiry) : Duty :=
  .of (Pass.maxDepth - inquiry.depth) inquiry.zone.room 0 inquiry.rota.left

/-- What may come of a pass that waits for the address of a server. Its `Duty` is on a higher level
than that of the pass that it waits for. -/
def Gathering.duty (gathering : Gathering) : Duty :=
  .of (Pass.maxDepth - (gathering.inquiry.depth + 1) + 1) gathering.referral.zone.room
    (gathering.servers.length + 1) gathering.types.length

/-- The duties of a `Turn` that has ended or waits for a query. -/
def Turn.work : Turn → Work
  | .finished _ => 0
  | .asked next => {next.inquiry.duty}

namespace Pass

/-- The duties of nested passes: the `work` of the innermost one and the `duty` of each one around
it. -/
def workOf (parts : Turn × List Gathering) : Work :=
  parts.1.work + (parts.2.map Gathering.duty : List Duty)

theorem workOf_append (next : Turn × List Gathering) (outer : List Gathering) :
    workOf (next.1, next.2 ++ outer) = (outer.map Gathering.duty : List Duty) + workOf next := by
  rw [workOf, List.map_append, ← Multiset.coe_add, ← add_assoc, add_comm]
  rfl

theorem workOf_finished_cons (result : Except Failure Answer) (gathering : Gathering)
    (outer : List Gathering) : workOf (.finished result, gathering :: outer) =
      (outer.map Gathering.duty : List Duty) + {gathering.duty} := by
  rw [workOf, Turn.work, zero_add, List.map_cons, ← Multiset.cons_coe, ← Multiset.singleton_add,
    add_comm]

/-- What may come of a pass that has not been started. It is above all that starts at `maxDepth`. -/
def unstarted : Duty := .of (maxDepth + 1) 0 0 0

theorem duty_lt_unstarted (inquiry : Inquiry) : inquiry.duty < unstarted :=
  Duty.of_lt_of.mpr (.inl (by omega))

end Pass

theorem Inquiry.Follows.duty_lt {next inquiry : Inquiry} (follows : next.Follows inquiry) :
    next.duty < inquiry.duty := by
  unfold duty
  rw [follows.depth, follows.zone]
  exact Duty.of_lt_of.mpr (.inr ⟨rfl, .inr ⟨rfl, .inr ⟨rfl, follows.left⟩⟩⟩)

namespace Pass

/-- All duties of a pass that has been referred are smaller than one that is greater than those of
the `servers` of the `referral`, of a gathering, and of a pass one level deeper. -/
theorem Pursuit.smaller {inquiry : Inquiry} {referral : Referral} {duty : Duty}
    {P : List RecordType → List Name → Prop} {next : Turn × List Gathering}
    (pursuit : Pursuit inquiry referral P next)
    (redirects : ∀ asked : Asked, asked.inquiry.depth = inquiry.depth →
      asked.inquiry.zone = referral.zone → asked.inquiry.duty < duty)
    (gathers : ∀ glue server types servers, P types servers →
      Gathering.duty ⟨inquiry, referral, glue, server, types, servers⟩ < duty)
    (deeper : ∀ asked : Asked, asked.inquiry.depth = inquiry.depth + 1 →
      ∀ types servers, P types servers → asked.inquiry.duty < duty) :
    ∀ other ∈ workOf next, other < duty := by
  cases pursuit with
  | finished result => simp [workOf, Turn.work]
  | redirected depth zone => simpa [workOf, Turn.work] using redirects _ depth zone
  | gathering begun holds =>
    simpa [workOf, Turn.work] using
      ⟨deeper _ begun.depth _ _ holds, gathers _ _ _ _ holds⟩

/-- A pass that goes on gathering has smaller duties than the gathering was. -/
theorem smaller_regather {gathering : Gathering} {next : Turn × List Gathering}
    (pursuit : Pursuit gathering.inquiry gathering.referral gathering.Exceeds next) :
    ∀ duty ∈ workOf next, duty < gathering.duty := by
  refine pursuit.smaller (fun asked depth zone => ?_) (fun glue server types servers fewer => ?_)
    fun asked depth types servers _ => ?_
  · unfold Inquiry.duty Gathering.duty
    rw [depth, zone, Duty.of_lt_of]
    omega
  · unfold Gathering.duty
    unfold Gathering.Exceeds at fewer
    rw [Duty.of_lt_of]
    refine .inr ⟨rfl, .inr ⟨rfl, ?_⟩⟩
    rcases fewer with fewer | ⟨rfl, fewer⟩
    · exact .inl (Nat.succ_lt_succ fewer)
    · exact .inr ⟨rfl, fewer⟩
  · unfold Inquiry.duty Gathering.duty
    rw [depth, Duty.of_lt_of]
    omega

/-- A pass that is referred downwards (`LeadsDown`) has smaller duties than the `inquiry` was. -/
theorem smaller_refer {inquiry : Inquiry} {referral : Referral} {next : Turn × List Gathering}
    (down : LeadsDown inquiry.zone referral)
    (pursuit : Pursuit inquiry referral (fun _ _ => inquiry.depth < maxDepth) next) :
    ∀ duty ∈ workOf next, duty < inquiry.duty := by
  have room : referral.zone.room < inquiry.zone.room := Name.IsBelow.room_lt down
  refine pursuit.smaller (fun asked depth zone => ?_) (fun glue server types servers deep => ?_)
    fun asked depth types servers deep => ?_
  · unfold Inquiry.duty
    rw [depth, zone, Duty.of_lt_of]
    exact .inr ⟨rfl, .inl room⟩
  · unfold Inquiry.duty Gathering.duty
    rw [Duty.of_lt_of]
    dsimp only
    omega
  · unfold Inquiry.duty
    rw [depth, Duty.of_lt_of]
    omega

end Pass

/-! ## Settled queries -/

/-- The chance to chase an alias is a `Duty` that is greater than that of any query. -/
def Allowance.work (allowance : Allowance) : Work :=
  if allowance.chased then 0 else {Pass.unstarted}

theorem Allowance.atMost_work {less more : Allowance}
    (chased : more.chased = true → less.chased = true) : less.work.AtMost more.work := by
  unfold work
  cases before : more.chased with
  | true => exact .inl (by rw [chased before])
  | false =>
    cases after : less.chased with
    | true =>
      exact .inr (.of_smaller (Multiset.mem_singleton_self _) (by simp))
    | false => exact .refl _

theorem Session.SameChances.work_eq {before after : Session} (same : before.SameChances after) :
    after.allowance.work = before.allowance.work := by
  rw [Allowance.work, same.chased, Allowance.work]

namespace Pass

/-- A pass has less to do when its query is `Settled`. Chasing an alias may bring back servers that
have been asked before, but it uses up the only chance to do so. -/
theorem Settled.less {asked : Asked} {result : Settlement} {before after : Session}
    {next : Turn × List Gathering} (settled : Settled asked result before after next) :
    (after.allowance.work + workOf next).Less (before.allowance.work + {asked.inquiry.duty}) := by
  have discharge {work : Work} (smaller : ∀ duty ∈ work, duty < asked.inquiry.duty) :
      (before.allowance.work + work).Less (before.allowance.work + {asked.inquiry.duty}) :=
    .of_discharge _ (Multiset.mem_singleton_self _) smaller
  cases settled with
  | finished chased aliasAsked =>
    have ended : (before.allowance.work + 0).Less (before.allowance.work + {asked.inquiry.duty}) :=
      discharge (by simp)
    refine Work.AtMost.trans_less ?_ ended
    simpa [workOf, Turn.work] using Allowance.atMost_work chased
  | retried follows plain same =>
    rw [same.work_eq]
    exact discharge (by simpa [workOf, Turn.work] using follows.duty_lt)
  | chased answered aliased inquiry unused used aliasAsked =>
    -- To chase an alias gives up the one duty that is greater than any query that may come of it.
    rw [Allowance.work, Allowance.work, if_pos used, if_neg (by simp [unused])]
    rw [zero_add]
    refine .of_smaller (Multiset.mem_add.mpr (.inl (Multiset.mem_singleton_self _))) ?_
    simpa [workOf, Turn.work] using duty_lt_unstarted _
  | referred answered refers down pursuit same =>
    rw [same.work_eq]
    exact discharge (smaller_refer down pursuit)

/-- A pass hands its result to the pass around it by `unwind`, and there is no more to do then. -/
theorem atMost_unwind (turn : Turn) (outer : List Gathering) :
    Session.Yields (unwind turn outer) fun progress =>
      (workOf progress.parts).AtMost (workOf (turn, outer)) := by
  refine yields_unwind (R := fun parts => (workOf parts).AtMost (workOf (turn, outer)))
    (fun result gathering outer next before after atMost ran => ?_) turn outer (.refl _)
  have smaller := smaller_regather (yields_regather _ _ _ _ _ ran).2
  have less := Work.Less.of_discharge (outer.map Gathering.duty : List Duty)
    (Multiset.mem_singleton_self gathering.duty) smaller
  rw [← workOf_append, ← workOf_finished_cons result] at less
  exact less.atMost.trans atMost

/-- A `pass` has less to do when its `query` is settled, and so have all nested passes together. -/
theorem resume_less {pass : Pass} {event : Event} {before after : Session} {progress : Progress}
    (ran : pass.resume event before = (.ok progress, after))
    (settles : (pass.asked.query.happen event before.resolver.registry).1.1 ≠ none) :
    (after.allowance.work + workOf progress.parts).Less
      (before.allowance.work + workOf (.asked pass.asked, pass.outer)) := by
  rcases resume_cases ran with ⟨waits, -⟩ | ⟨result, next, session, -, concluded, unwound⟩
  · exact absurd waits settles
  · have less := (conclude_cases concluded).less
    obtain ⟨same, atMost⟩ := atMost_unwind _ _ _ _ _ unwound
    let around : Work := (pass.outer.map Gathering.duty : List Duty)
    have total : before.allowance.work + workOf (.asked pass.asked, pass.outer) =
        around + (before.allowance.work + {pass.asked.inquiry.duty}) := by
      show _ + ({pass.asked.inquiry.duty} + around) = _
      rw [← add_assoc, add_comm]
    have first := atMost.add_left session.allowance.work
    rw [workOf_append, add_left_comm] at first
    rw [same.work_eq, total]
    exact first.trans_less (less.add_left around)

/-- A pass that is started has smaller duties than `unstarted`. -/
theorem smaller_start (name : Name) (type : RecordType) : Session.Yields (start name type)
    fun progress => ∀ duty ∈ workOf progress.parts, duty < unstarted := by
  refine (yields_begin name type 0).bind fun turn _ => ?_
  refine yields_unwind (R := fun parts => ∀ duty ∈ workOf parts, duty < unstarted)
    (fun result gathering outer next before after smaller ran duty mem => ?_) turn [] ?_
  · rw [workOf_finished_cons] at smaller
    rw [workOf_append] at mem
    rcases Multiset.mem_add.mp mem with mem | mem
    · exact smaller duty (Multiset.mem_add.mpr (.inl mem))
    · exact (smaller_regather (yields_regather _ _ _ _ _ ran).2 duty mem).trans
        (smaller _ (Multiset.mem_add.mpr (.inr (Multiset.mem_singleton_self _))))
  · cases turn with
    | finished result => simp [workOf, Turn.work]
    | asked asked => simpa [workOf, Turn.work] using duty_lt_unstarted _

/-! ## Endless passes -/

/-- A pass that goes on for ever: again and again its query is settled, and it always waits for
another one. Between its steps anything can become of the resolver and of the budget, but the chance
to chase an alias does not come back. -/
structure Endless where
  pass : Nat → Pass
  event : Nat → Event
  before : Nat → Session
  after : Nat → Session
  goes : ∀ time, (pass time).resume (event time) (before time) =
    (.ok (.waiting (pass (time + 1))), after time)
  chased : ∀ time, (after time).allowance.chased = true →
    (before (time + 1)).allowance.chased = true
  settles : ∀ time, ∃ later, time ≤ later ∧
    ((pass later).asked.query.happen (event later) (before later).resolver.registry).1.1 ≠ none

namespace Endless

variable (endless : Endless)

/-- What is left to do before the step at this `time`. -/
def work (time : Nat) : Work :=
  (endless.before time).allowance.work +
    workOf (.asked (endless.pass time).asked, (endless.pass time).outer)

/-- The query of the pass is settled by the step at this `time`. -/
def SettlesAt (time : Nat) : Prop :=
  ((endless.pass time).asked.query.happen (endless.event time)
    (endless.before time).resolver.registry).1.1 ≠ none

theorem work_atMost (time : Nat) : (endless.work (time + 1)).AtMost
    ((endless.after time).allowance.work +
      workOf (.asked (endless.pass (time + 1)).asked, (endless.pass (time + 1)).outer)) := by
  unfold work
  rw [add_comm, add_comm (endless.after time).allowance.work]
  exact .add_left (Allowance.atMost_work (endless.chased time)) _

theorem work_less {time : Nat} (settles : endless.SettlesAt time) :
    (endless.work (time + 1)).Less (endless.work time) :=
  (endless.work_atMost time).trans_less (resume_less (endless.goes time) settles)

theorem shrinks (time : Nat) : (endless.work (time + 1)).AtMost (endless.work time) := by
  by_cases settles : endless.SettlesAt time
  · exact (endless.work_less settles).atMost
  refine (endless.work_atMost time).trans (.inl ?_)
  obtain ⟨-, after, waits⟩ | ⟨result, _, _, settled, -⟩ := resume_cases (endless.goes time)
  · rw [after, Progress.waiting.inj waits]
    rfl
  · cases (not_not.mp settles).symm.trans settled

end Endless

/-- There is no `Endless` pass, because each query that is settled leaves less to do and `Work` is
well-founded. -/
theorem isEmpty_endless : IsEmpty Endless := by
  refine ⟨fun endless => ?_⟩
  obtain ⟨start, same⟩ := Work.stationary endless.shrinks
  obtain ⟨time, later, settles⟩ := endless.settles start
  have less := endless.work_less settles
  rw [same _ (Nat.le_succ_of_le later), same _ later] at less
  exact Work.Less.irrefl less

end Pass

end NameResolution
