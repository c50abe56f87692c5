import NameResolution.Proofs.Resolution.Spending

/-!
# Runs of calls

A `Call` does not run alone. Between two of its moves other calls go on with the same resolver,
messages arrive, caches change, and new matters come up.

* `Call.Run`: a call in the course of any run. Each of its moves meets any resolver.
* `Call.spends_perform`: a move takes every query that it sends out of the budget of the call.
* `Call.Run.sent_le_used`: a call never sends more queries than it has counted, and never counts
  more than its budget.
-/

namespace NameResolution

namespace Call

/-- What a call does in one go: it attends to a `matter`, or takes the next `step` of its own. -/
inductive Move
  | attend (matter : Matter)
  | step

/-- Makes a `Move`. A `call` that has to wait stays as it is. -/
def perform (call : Call) : Move → Op Resolver Call
  | .attend matter => call.attend matter
  | .step => (·.getD call) <$> call.step

/-- A `call` in the course of a `run`, and how many queries it has sent. Anything can become of the
`resolver` between two moves, and any `matters` can come up. -/
inductive Run (request : Request) (budget : Nat) : Call → (sent : Nat) → Prop
  | new : Run request budget (.new request budget) 0
  | notice {call : Call} {sent : Nat} (matters : List Matter) (run : Run request budget call sent) :
    Run request budget { call with matters := matters } sent
  | move {call next : Call} {sent : Nat} {resolver after : Resolver} (move : Move)
    (run : Run request budget call sent) (moved : call.perform move resolver = (.ok next, after)) :
    Run request budget next (sent + (after.outbox.length - resolver.outbox.length))

/-! ## Moves -/

/-- The operation takes every query that it sends out of the budget of the `call`. -/
def Spends (call : Call) (op : Op Resolver Call) : Prop :=
  ∀ resolver, ∃ sent, (op resolver).2.outbox = resolver.outbox ++ sent ∧
    sent.length ≤ call.allowance.budget.remaining ∧
    ∀ next, (op resolver).1 = .ok next →
      next.allowance.budget.total = call.allowance.budget.total ∧
      sent.length + next.allowance.budget.remaining ≤ call.allowance.budget.remaining

theorem spends_pure {call next : Call} (same : next.allowance = call.allowance) :
    Spends call (pure next) := by
  refine fun resolver => ⟨[], (List.append_nil _).symm, Nat.zero_le _, fun other result => ?_⟩
  obtain rfl : next = other := by simpa using result
  rw [same]
  simp

theorem Spends.map {call : Call} {op : Op Resolver Call} {f : Call → Call}
    (spends : Spends call op) (same : ∀ next, (f next).allowance = next.allowance) :
    Spends call (f <$> op) := by
  intro resolver
  obtain ⟨sent, outbox, few, rest⟩ := spends resolver
  refine ⟨sent, by simpa using outbox, few, fun next result => ?_⟩
  rw [Op.map_apply] at result
  cases found : (op resolver).1 with
  | error misuse => simp [found, Except.map] at result
  | ok middle =>
    obtain rfl : f middle = next := by simpa [found, Except.map] using result
    rw [same]
    exact rest middle found

theorem spends_goOn (call : Call) {op : Op Session Activity} (pays : Session.Pays op) :
    Spends call (call.goOn op) := by
  intro resolver
  obtain ⟨total, sent, outbox, paid⟩ := pays ⟨resolver, call.allowance⟩
  refine ⟨sent, outbox, ?_, fun next result => ?_⟩
  · simp only at paid
    omega
  · rcases went : op ⟨resolver, call.allowance⟩ with ⟨misuse | activity, session⟩
    · simp [goOn, went, Except.map] at result
    · obtain rfl : { call with activity := activity, allowance := session.allowance } = next := by
        simpa [goOn, went, Except.map] using result
      rw [went] at total paid
      exact ⟨total, paid⟩

@[simp] theorem allowance_enterRace (call : Call) : call.enterRace.allowance = call.allowance := by
  unfold enterRace
  split <;> rfl

theorem spends_attend (call : Call) (matter : Matter) : Spends call (call.attend matter) := by
  unfold attend
  split
  · split
    · exact .map (spends_goOn _ (.map (HostLookup.pays_begin _))) allowance_enterRace
    · exact spends_goOn _ (pays_beginQuestion _ _)
  · exact spends_goOn _ (.bind (Race.pays_startRun _ _) fun _ => .pure _)
  · exact spends_goOn _ (.bind (Race.pays_resumeRun _ _ _) fun _ => .pure _)
  · split
    · exact spends_goOn _ (pays_resumeQuestion _ _)
    · exact spends_pure rfl
  · exact spends_pure rfl

theorem spends_closeRace (call : Call) : Spends call ((·.getD call) <$> call.closeRace) := by
  unfold closeRace
  split
  · rename_i lookup _
    split
    · rw [bind_pure_comp, Functor.map_map]
      exact .map (spends_goOn _ (.map (HostLookup.pays_conclude lookup))) allowance_enterRace
    · exact spends_pure rfl
  · exact spends_pure rfl

/-- A `move` takes every query that it sends out of the budget of the `call`. -/
theorem spends_perform (call : Call) (move : Move) : Spends call (call.perform move) := by
  cases move with
  | attend matter => exact spends_attend call matter
  | step =>
    show Spends call ((·.getD call) <$> call.step)
    unfold step
    split
    · rename_i matter matters _
      rw [bind_pure_comp, Functor.map_map]
      exact .map (spends_attend { call with matters := matters } matter) fun _ => rfl
    · exact spends_closeRace call

/-! ## Runs -/

/-- What a `call` has sent and what is left to it come out of the `budget` it was given. -/
theorem Run.sent_add_remaining_le {request : Request} {budget : Nat} {call : Call} {sent : Nat}
    (run : Run request budget call sent) :
    call.allowance.budget.total = budget ∧ sent + call.allowance.budget.remaining ≤ budget := by
  induction run with
  | new => exact ⟨rfl, by simp [Call.new, Allowance.full, Budget.full]⟩
  | notice matters run ih => exact ih
  | @move call next sent resolver after move run moved ih =>
    obtain ⟨datagrams, outbox, few, rest⟩ := spends_perform call move resolver
    rw [moved] at outbox rest
    obtain ⟨total, paid⟩ := rest next rfl
    refine ⟨total.trans ih.1, ?_⟩
    rw [outbox, List.length_append]
    omega

/-- The query budget is a hard ceiling. In every `run` of a call, what it has `sent` is at most what
it has counted as `used`, which is at most its `budget`. A failure reports this count and this
budget. No further `move`, even one that is refused, takes anything back that waits to be sent, or
sends more than the budget allows. -/
theorem Run.sent_le_used {request : Request} {budget : Nat} {call : Call} {sent : Nat}
    (run : Run request budget call sent) :
    sent ≤ call.allowance.budget.used ∧ call.allowance.budget.used ≤ budget ∧
      (∀ error, call.result? = some (.error error) →
        error.attempts = call.allowance.budget.used ∧ error.budget = budget) ∧
      ∀ move resolver, ∃ datagrams,
        (call.perform move resolver).2.outbox = resolver.outbox ++ datagrams ∧
        sent + datagrams.length ≤ budget := by
  obtain ⟨total, paid⟩ := run.sent_add_remaining_le
  refine ⟨?_, ?_, fun error reported => ?_, fun move resolver => ?_⟩
  · unfold Budget.used
    omega
  · unfold Budget.used
    omega
  · unfold result? at reported
    split at reported
    · rename_i result _
      cases result with
      | ok found => cases Option.some.inj reported
      | error failure =>
        obtain rfl : ResolveError.mk _ _ _ _ = error := Except.error.inj (Option.some.inj reported)
        exact ⟨rfl, total⟩
    · cases reported
  · obtain ⟨datagrams, outbox, few, -⟩ := spends_perform call move resolver
    exact ⟨datagrams, outbox, by omega⟩

/-- A `Resolver` that knows a single server. -/
def lone : Resolver :=
  .new (Settings.new.addServer (.ofAddress (.v4 (.ofOctets 192 0 2 1)) 53)) .empty .default .default

/-- The `call` sends its only query, the server keeps silent, and there is no second try. -/
theorem Run.sent_le_used_lone : ∃ call : Call,
    Run (.question .root .a) 1 call 1 ∧ 1 ≤ call.allowance.budget.used ∧
      call.allowance.budget.used ≤ 1 ∧ call.result? =
        some (.error ⟨call.hostname, call.allowance.budget.used, 1, .budgetExhausted⟩) := by
  obtain ⟨asking, busy, asked, sent, awaiting, quiet, written, unsent⟩ : ∃ asking busy,
      perform (.new (.question .root .a) 1) .step lone = (.ok asking, busy) ∧
        busy.outbox.length - lone.outbox.length = 1 ∧ ∃ awaiting quiet,
      asking.perform (.attend (.event 1 .written)) busy = (.ok awaiting, quiet) ∧
        quiet.outbox.length - busy.outbox.length = 0 ∧ ∃ ended idle,
      awaiting.perform (.attend (.event 1 .elapsed)) quiet = (.ok ended, idle) ∧
        idle.outbox.length - quiet.outbox.length = 0 ∧
        ended.result? = some (.error ⟨ended.hostname, 1, 1, .budgetExhausted⟩) :=
    ⟨_, _, rfl, rfl, _, _, rfl, rfl, _, _, rfl, rfl, rfl⟩
  obtain ⟨none, ended, idle, elapsed, none', result⟩ := unsent
  have run : Run (.question .root .a) 1 ended 1 := by
    have third := Run.move _ (.move _ (.move _ .new asked) written) elapsed
    rwa [sent, none, none'] at third
  obtain ⟨counted, within, reported, -⟩ := run.sent_le_used
  have attempts := (reported _ result).1
  refine ⟨ended, run, counted, within, ?_⟩
  rw [← attempts]
  exact result

end Call

end NameResolution
