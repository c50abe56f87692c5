import NameResolution.Proofs.Resolution.Courses
import NameResolution.Proofs.Resolution.ChainRecall

/-!
# Lookups that the cache answers

A lookup of a host whose response leads over aliases to addresses leaves the whole chain in the
cache. As long as the records live, further lookups of the host send nothing and find the same,
provided that the resolver does not learn anything else in between.

* `Resolver.Reads`: what happens to a resolver that only reads its cache.
* `Call.Recalling`: how far a lookup has come that the cache answers. `Call.Recalling.glides`: it
  goes on at once, and sends nothing.
* `Call.FindsAlone`: a call finds hosts without sending anything, whatever happens in the meantime.
* `Call.AnsweredBy`: the next step of a lookup takes a response as the answer to its question.
* `Call.recalled_of_answered`: a lookup that is answered by a chain of aliases, and further lookups
  of the host.
* `Call.asks_of_full_chain`: a further lookup asks for the last name of a chain that is as long as
  the aliases that are followed within a cache.
-/

namespace NameResolution

/-! ## Resolvers that read -/

/-- The `resolver` looks for addresses of one family, and its host table does not list the
`name`. -/
structure Resolver.LooksFor (resolver : Resolver) (name : Name) (type : RecordType) : Prop where
  types : resolver.settings.preference.types = [type]
  unlisted : resolver.hosts.addresses? name = none

/-- Time goes on, and the `Resolver` reads its cache at most. -/
structure Resolver.Reads (before after : Resolver) : Prop where
  clock : before.now ≤ after.now
  cache : after.cache = before.cache ∨ Cache.Shed after.now before.cache after.cache

/-- What is gone at `now` is not missed `later` on either. -/
theorem Cache.Shed.later {now later : Duration} {before after : Cache}
    (shed : Shed now before after) (le : now ≤ later) : Shed later before after where
  wellFormed := shed.wellFormed
  settings := shed.settings
  unknown := shed.unknown
  entry name type := by
    obtain same | ⟨gone, expired⟩ := shed.entry name type
    · exact .inl same
    refine .inr ⟨gone, ?_⟩
    cases current : before.current? name type later with
    | none => rfl
    | some entry =>
      obtain ⟨found, alive⟩ := current?_eq_some.mp current
      have early := current?_eq_some.mpr ⟨found, fun ended => alive (Nat.le_trans ended le)⟩
      cases expired.symm.trans early

namespace Resolver

theorem Reads.refl (resolver : Resolver) : resolver.Reads resolver := ⟨Nat.le_refl _, .inl rfl⟩

theorem Reads.trans {before middle after : Resolver} (first : before.Reads middle)
    (second : middle.Reads after) : before.Reads after where
  clock := Nat.le_trans first.clock second.clock
  cache := by
    obtain same | shed := first.cache
    · rw [← same]
      exact second.cache
    obtain same | shed' := second.cache
    · rw [same]
      exact .inr (shed.later second.clock)
    · exact .inr ((shed.later second.clock).trans shed')

/-- While its records live, a `cache` that is read goes on to recall a chain. -/
theorem Reads.recalls {before after : Resolver} (reads : before.Reads after)
    {Wanted : Duration → Prop} {links : List Record} {set : RecordSet}
    (recalls : before.cache.Recalls Wanted links set) (wanted : Wanted after.now) :
    after.cache.Recalls Wanted links set := by
  obtain same | shed := reads.cache
  · rwa [same]
  · exact recalls.of_shed shed wanted

end Resolver

/-! ## Lookups with an answer -/

/-- Such a lookup finds its pass in the `cache`. -/
theorem Session.consultCache_of_followed {name : Name} {type : RecordType} {resolver : Resolver}
    (allowance : Allowance) {known : Cached} {cache : Cache}
    (followed : followCached type resolver.now cachedAliases name resolver.cache =
      (.ok known, cache)) :
    consultCache name type ⟨resolver, allowance⟩ =
      (.ok known, ⟨{ resolver with cache := cache }, allowance⟩) := by
  simp [consultCache, onResolver, Resolver.onCache, followed]

/-- A `Pass` that the cache has a `result` for is over at once. -/
theorem Pass.start_of_hit {name : Name} {type : RecordType} {before after : Session}
    {result : Except Failure Answer}
    (consulted : Session.consultCache name type before = (.ok (.hit result), after)) :
    start name type before = (.ok (.finished result), after) :=
  Op.bind_eq_ok.mpr ⟨.finished result, after, Op.bind_eq_ok.mpr ⟨_, _, consulted, rfl⟩, rfl⟩

/-- The `answer` gives these hosts. -/
structure Answer.Tells (answer : Answer) (found : FoundHosts) : Prop where
  canonical : answer.canonical = found.canonical
  addresses : answer.addresses = found.addresses
  filled : found.addresses ≠ []

theorem RecordSet.Ends.tells {set : RecordSet} {question : Question} {last : Name}
    (ends : set.Ends question last) (ttl : UInt32) :
    Answer.Tells ⟨last, [{ set with ttl := ttl }]⟩ ⟨last, RecordSet.addresses [set]⟩ where
  canonical := rfl
  addresses := rfl
  filled := by
    obtain ⟨address, gives⟩ := Option.isSome_iff_exists.mp ends.gives
    exact List.ne_nil_of_mem (RecordSet.mem_addresses.mpr
      ⟨set, List.mem_cons_self, set.first, List.mem_cons_self, gives⟩)

namespace HostLookup

/-- An absolute `name` that is not listed is looked up by a race for its `addresses`. -/
theorem begin_of_absolute {host : String} {name : Name} {session : Session}
    (textual : Address.ofText? host = none) (named : Name.ofText? host = .ok name)
    (absolute : name.absolute = true)
    (unlisted : session.resolver.hosts.addresses? name = none) :
    begin host session = (.ok (.racing
      ⟨.forAddresses name session.resolver.settings.preference, .addresses, none⟩), session) := by
  have same : name.toAbsolute = name := by
    obtain ⟨labels, own, room⟩ := name
    obtain rfl : own = true := absolute
    rfl
  have tried : tryName name none session = (.ok (.racing
      ⟨.forAddresses name session.resolver.settings.preference, .addresses, none⟩), session) := by
    refine Op.bind_eq_ok.mpr ⟨session, session, rfl, ?_⟩
    simp only [unlisted]
    rfl
  unfold begin
  simp only [textual, named, absolute, true_or, if_true, same]
  exact Op.bind_eq_ok.mpr ⟨_, session, rfl, tried⟩

/-- A host `lookup` with the answer of its only pass. -/
structure Has (lookup : HostLookup) (type : RecordType) (found : FoundHosts) : Prop where
  plain : ¬lookup.AsksAlias
  runs : ∃ answer : Answer, lookup.race.runs = [(type, .ended (.ok answer))] ∧ answer.Tells found

section

variable {lookup : HostLookup} {type : RecordType} {found : FoundHosts}

theorem Has.addresses (has : lookup.Has type found) : lookup.race.addresses = .ok found := by
  obtain ⟨answer, runs, tells⟩ := has.runs
  obtain ⟨canonical, addresses⟩ := found
  have results : lookup.race.results = [.ok answer] := by
    rw [Race.results, runs]
    rfl
  have answers : lookup.race.answers = [answer] := by
    rw [Race.answers, results]
    rfl
  simp [Race.addresses, answers, tells.canonical, tells.addresses, tells.filled]

/-- Closing the race of such a `lookup` ends it. -/
theorem Has.conclude (has : lookup.Has type found) (session : Session) :
    lookup.conclude session = (.ok (.finished (.ok found)), session) := by
  obtain ⟨answer, runs, -⟩ := has.runs
  have drops : Session.withResolver lookup.race.drop session = (.ok (), session) := by
    rw [Session.withResolver_apply, Race.drop, runs]
    rfl
  refine Op.bind_eq_ok.mpr ⟨_, _, drops, ?_⟩
  cases purpose : lookup.purpose with
  | aliasQuestion failure => exact absurd ⟨failure, purpose⟩ has.plain
  | addresses => rw [has.addresses]; rfl
  | aliasAddresses => rw [has.addresses]; rfl

theorem Has.advanceRun (has : lookup.Has type found) (fits : RecordType → Run → Bool)
    {advance : RecordType → Run → Op Session Run} {session : Session}
    (same : ∀ result, advance type (.ended result) session = (.ok (.ended result), session)) :
    Race.advanceRun fits advance lookup.race.runs session = (.ok lookup.race.runs, session) := by
  obtain ⟨answer, runs, -⟩ := has.runs
  rw [runs]
  by_cases fit : fits type (.ended (.ok answer)) = true
  · exact Race.advanceRun_of_first (List.forall_mem_nil _) fit (same _)
  · rw [Race.advanceRun, if_neg fit]
    rfl

/-- Its pass is not started again by `startRun`. -/
theorem Has.startRun (has : lookup.Has type found) (other : RecordType) (session : Session) :
    lookup.race.startRun other session = (.ok lookup.race, session) :=
  Op.bind_eq_ok.mpr ⟨_, _, has.advanceRun _ fun _ => rfl, rfl⟩

/-- Its pass waits for nothing, so `resumeRun` changes nothing. -/
theorem Has.resumeRun (has : lookup.Has type found) (serial : Nat) (event : Event)
    (session : Session) : lookup.race.resumeRun serial event session = (.ok lookup.race, session) :=
  Op.bind_eq_ok.mpr ⟨_, _, has.advanceRun _ fun _ => rfl, rfl⟩

end

end HostLookup

namespace Call

variable {host : String} {name : Name} {type : RecordType} {found : FoundHosts} {call : Call}
  {resolver after : Resolver}

/-- How many steps a `call` that the cache answers has to take at most, if it hears of nothing. -/
def due (call : Call) : Nat :=
  match call.activity with
  | .requested => 3
  | .racing _ => call.matters.length + 1
  | _ => 0

theorem due_of_racing {lookup : HostLookup} (racing : call.activity = .racing lookup) :
    call.due = call.matters.length + 1 := by
  rw [due, racing]

/-- The `call` has found the hosts, or it takes a step that brings it closer to its end. -/
def Nears (call : Call) (resolver : Resolver) (found : FoundHosts) : Prop :=
  call.result? = some (.ok (.hosts found)) ∨
    ∃ next after, call.step resolver = (.ok (some next), after) ∧ next.due < call.due

/-- The next step of a `call` that is at a `Stage`: it leads to such a stage again, closer to the
end if the hosts have not been found yet. It sends nothing, and reads the cache at most. -/
structure Glides (Stage : Call → Prop) (found : FoundHosts) (call : Call) (resolver : Resolver)
    (result : Option Call) (after : Resolver) : Prop where
  step : call.step resolver = (.ok result, after)
  stays : ∀ next, result = some next → Stage next
  unsent : after.outbox = resolver.outbox
  reads : resolver.Reads after
  nears : call.result? = some (.ok (.hosts found)) ∨
    ∃ next, result = some next ∧ next.due < call.due

theorem Glides.nearing {Stage : Call → Prop} {result : Option Call}
    (glides : call.Glides Stage found resolver result after) : call.Nears resolver found := by
  obtain ended | ⟨next, same, closer⟩ := glides.nears
  · exact .inl ended
  · exact .inr ⟨next, after, same ▸ glides.step, closer⟩

/-! ### Closing a race -/

/-- The only pass of a `lookup` has found the `hosts`, or the lookup has. -/
inductive Holds (type : RecordType) (found : FoundHosts) (call : Call) : Prop
  | closing {lookup : HostLookup} (racing : call.activity = .racing lookup)
    (has : lookup.Has type found)
  | «over» (ended : call.activity = .over (.ok (.hosts found)))

theorem Holds.notify (holds : call.Holds type found) (serial : Nat) (event : Event) :
    (call.notify serial event).Holds type found := by
  cases holds with
  | closing racing has => exact .closing racing has
  | «over» ended => exact .over ended

/-- Going on with a `race` that stays what it is. -/
theorem goOn_of_race {request : Request} {allowance : Allowance} {lookup : HostLookup}
    {matters : List Matter} {advance : Op Session Race}
    (same : advance ⟨resolver, allowance⟩ = (.ok lookup.race, ⟨resolver, allowance⟩)) :
    goOn ⟨request, allowance, .racing lookup, matters⟩
      (do return .racing { lookup with race := ← advance }) resolver =
        (.ok ⟨request, allowance, .racing lookup, matters⟩, resolver) :=
  goOn_eq_ok.mpr ⟨.racing lookup, ⟨resolver, allowance⟩,
    Op.bind_eq_ok.mpr ⟨_, _, same, rfl⟩, rfl, rfl⟩

section

variable {request : Request} {allowance : Allowance} {lookup : HostLookup} {matters : List Matter}

/-- A lookup that is `over` leaves what comes up. -/
theorem attend_of_over (matter : Matter) : attend ⟨request, allowance, .over (.ok (.hosts found)),
    matters⟩ matter resolver =
      (.ok ⟨request, allowance, .over (.ok (.hosts found)), matters⟩, resolver) := by
  cases matter <;> rfl

/-- So does a `racing` lookup whose pass has found the hosts. -/
theorem attend_of_has (has : lookup.Has type found) (matter : Matter) :
    attend ⟨request, allowance, .racing lookup, matters⟩ matter resolver =
      (.ok ⟨request, allowance, .racing lookup, matters⟩, resolver) := by
  cases matter with
  | begin => rfl
  | start other => exact goOn_of_race (has.startRun other _)
  | event serial event => exact goOn_of_race (has.resumeRun serial event _)

/-- When nothing is left to attend to, `closeRace` ends its race. -/
theorem closeRace_of_has (has : lookup.Has type found) :
    closeRace ⟨request, allowance, .racing lookup, []⟩ resolver =
      (.ok (some ⟨request, allowance, .over (.ok (.hosts found)), []⟩), resolver) := by
  have ended : lookup.race.AllEnded := by
    obtain ⟨answer, runs, -⟩ := has.runs
    rw [Race.AllEnded, runs]
    simp [Run.result?]
  have went : goOn ⟨request, allowance, .racing lookup, []⟩ (ofHost <$> lookup.conclude)
      resolver = (.ok ⟨request, allowance, .over (.ok (.hosts found)), []⟩, resolver) :=
    goOn_eq_ok.mpr ⟨_, _, Op.map_eq_ok.mpr ⟨_, has.conclude _, rfl⟩, rfl, rfl⟩
  dsimp only [closeRace]
  rw [if_pos (.inl ended)]
  exact Op.bind_eq_ok.mpr ⟨_, _, went, rfl⟩

end

/-- A lookup that `Holds` its hosts leaves what comes up, and closes its race then. -/
theorem Holds.glides (holds : call.Holds type found) (resolver : Resolver) :
    ∃ result, call.Glides (·.Holds type found) found resolver result resolver := by
  obtain ⟨request, allowance, activity, matters⟩ := call
  cases holds with
  | @closing lookup racing has =>
    obtain rfl : activity = .racing lookup := racing
    cases matters with
    | nil =>
      refine ⟨_, closeRace_of_has has, ?_, rfl, .refl _, .inr ⟨_, rfl, Nat.zero_lt_one⟩⟩
      rintro next ⟨⟩
      exact .over rfl
    | cons matter matters =>
      refine ⟨some ⟨request, allowance, .racing lookup, matters⟩, ?_, ?_, rfl, .refl _, ?_⟩
      · exact Op.bind_eq_ok.mpr ⟨_, _, attend_of_has has matter, rfl⟩
      · rintro next ⟨⟩
        exact .closing rfl has
      · exact .inr ⟨_, rfl, Nat.lt_succ_self _⟩
  | «over» ended =>
    obtain rfl : activity = .over (.ok (.hosts found)) := ended
    cases matters with
    | nil => exact ⟨none, rfl, by rintro next ⟨⟩, rfl, .refl _, .inl rfl⟩
    | cons matter matters =>
      refine ⟨some ⟨request, allowance, .over (.ok (.hosts found)), matters⟩, ?_, ?_, rfl,
        .refl _, .inl rfl⟩
      · exact Op.bind_eq_ok.mpr ⟨_, _, attend_of_over matter, rfl⟩
      · rintro next ⟨⟩
        exact .over rfl

/-! ### Reading the cache -/

/-- How far a `lookup` of a `host` has come that the cache answers: it has not begun, its only pass
has not been started, or this pass has found the hosts. -/
inductive Recalling (host : String) (name : Name) (type : RecordType) (found : FoundHosts)
    (call : Call) : Prop
  | fresh {matters : List Matter} (asks : call.request = .host host)
    (idle : call.activity = .requested) (first : call.matters = .begin :: matters)
  | starting {lookup : HostLookup} {matters : List Matter} (racing : call.activity = .racing lookup)
    (first : call.matters = .start type :: matters) (plain : ¬lookup.AsksAlias)
    (own : lookup.race.name = name) (runs : lookup.race.runs = [(type, .unstarted)])
  | holds (holds : call.Holds type found)

theorem Recalling.notify (recalling : call.Recalling host name type found) (serial : Nat)
    (event : Event) : (call.notify serial event).Recalling host name type found := by
  cases recalling with
  | fresh asks idle first =>
    exact .fresh asks idle (by rw [Call.notify, first]; rfl)
  | starting racing first plain own runs =>
    exact .starting racing (by rw [Call.notify, first]; rfl) plain own runs
  | holds holds => exact .holds (holds.notify serial event)

/-- A lookup of a `host` that is not listed begins with a race for its addresses. -/
theorem glides_of_fresh {matters : List Matter} (textual : Address.ofText? host = none)
    (named : Name.ofText? host = .ok name) (absolute : name.absolute = true)
    (looks : resolver.LooksFor name type) (asks : call.request = .host host)
    (idle : call.activity = .requested) (first : call.matters = .begin :: matters) :
    ∃ result, call.Glides (·.Recalling host name type found) found resolver result resolver := by
  obtain ⟨request, allowance, activity, own⟩ := call
  obtain rfl : request = .host host := asks
  obtain rfl : activity = .requested := idle
  obtain rfl : own = .begin :: matters := first
  let lookup : HostLookup :=
    ⟨.forAddresses name resolver.settings.preference, .addresses, none⟩
  have runs : lookup.race.runs = [(type, .unstarted)] :=
    congrArg (List.map fun type => (type, Run.unstarted)) looks.types
  have began : HostLookup.begin host ⟨resolver, allowance⟩ =
      (.ok (.racing lookup), ⟨resolver, allowance⟩) :=
    HostLookup.begin_of_absolute textual named absolute looks.unlisted
  have went : goOn ⟨.host host, allowance, .requested, matters⟩ (ofHost <$> HostLookup.begin host)
      resolver = (.ok ⟨.host host, allowance, .racing lookup, matters⟩, resolver) :=
    goOn_eq_ok.mpr ⟨_, _, Op.map_eq_ok.mpr ⟨_, began, rfl⟩, rfl, rfl⟩
  have entered : enterRace ⟨.host host, allowance, .racing lookup, matters⟩ =
      ⟨.host host, allowance, .racing lookup, [.start type]⟩ := by
    show Call.mk _ _ _ ((lookup.race.runs.map Prod.fst).map .start) = _
    rw [runs]
    rfl
  have left : attend ⟨.host host, allowance, .requested, matters⟩ .begin resolver =
      (.ok ⟨.host host, allowance, .racing lookup, [.start type]⟩, resolver) :=
    Op.bind_eq_ok.mpr ⟨_, _, went, by rw [entered]; rfl⟩
  refine ⟨some ⟨.host host, allowance, .racing lookup, [.start type]⟩, ?_, ?_, rfl, .refl _, ?_⟩
  · exact Op.bind_eq_ok.mpr ⟨_, _, left, rfl⟩
  · rintro next ⟨⟩
    exact .starting rfl rfl (fun asks => by obtain ⟨failure, same⟩ := asks; cases same) rfl runs
  · exact .inr ⟨_, rfl, Nat.lt_succ_self 2⟩

section

variable {message : Message} {links : List Record} {last : Name} {set : RecordSet}
  {Wanted : Duration → Prop}

/-- A lookup whose `cache` recalls a chain goes on without asking anybody. -/
theorem Recalling.glides (chained : message.Chained (.internet name type) links last)
    (ends : set.Ends (.internet name type) last) (short : links.length < Session.cachedAliases)
    (textual : Address.ofText? host = none) (named : Name.ofText? host = .ok name)
    (recalls : resolver.cache.Recalls Wanted links set) (wanted : Wanted resolver.now)
    (looks : resolver.LooksFor name type)
    (recalling : call.Recalling host name type ⟨last, RecordSet.addresses [set]⟩) :
    ∃ result after, call.Glides (·.Recalling host name type ⟨last, RecordSet.addresses [set]⟩)
      ⟨last, RecordSet.addresses [set]⟩ resolver result after := by
  cases recalling with
  | fresh asks idle first =>
    obtain ⟨result, glides⟩ :=
      glides_of_fresh textual named chained.absolute_name looks asks idle first
    exact ⟨result, resolver, glides⟩
  | @starting lookup matters racing first plain own runs =>
    obtain ⟨ttl, next, shed, led⟩ := Session.followCached_of_recalls chained ends wanted
      chained.leads (List.Subset.refl _) short recalls
    have hit := Pass.start_of_hit (Session.consultCache_of_followed call.allowance led)
    rw [← own] at hit
    refine ⟨_, { resolver with cache := next }, call.step_of_start [] racing first runs
      (List.forall_mem_nil _) hit, ?_, rfl, ⟨Nat.le_refl _, .inr shed⟩, ?_⟩
    · rintro next ⟨⟩
      exact .holds (.closing rfl ⟨plain, _, rfl, ends.tells ttl⟩)
    · refine .inr ⟨_, rfl, ?_⟩
      rw [due_of_racing rfl, due_of_racing racing, goingOn, first]
      exact Nat.lt_succ_self _
  | holds holds =>
    obtain ⟨result, glides⟩ := holds.glides resolver
    exact ⟨result, resolver, { glides with
      stays := fun next same => .holds (glides.stays next same) }⟩

end

/-! ### Lookups that find hosts alone -/

/-- The `Call` sends nothing. It finds the hosts as long as its steps fit, whatever happens in the
meantime. To the `Resolver` it does nothing that does not happen in the meantime as well. -/
def FindsAlone (Meanwhile : Resolver → Resolver → Prop) (Fits : Call → Resolver → Prop)
    (found : FoundHosts) (first : Call) (begun : Resolver) : Prop :=
  ∀ call resolver sent, Course Meanwhile Fits first begun call resolver sent →
    sent = [] ∧ Meanwhile begun resolver ∧ (Fits call resolver → call.Nears resolver found)

/-- A lookup that `Holds` the hosts it has found gives them. -/
theorem Holds.findsAlone (holds : call.Holds type found) (resolver : Resolver) :
    call.FindsAlone (fun _ _ => True) Any found resolver := by
  intro final last sent course
  obtain ⟨holds, -, none⟩ := course.quiet (·.Holds type found) (fun _ => True)
    (fun _ serial event holds => holds.notify serial event) (fun _ _ _ _ => trivial)
    (fun call next resolver after holds _ _ ran => by
      obtain ⟨result, glides⟩ := holds.glides resolver
      obtain ⟨same, rfl⟩ := Prod.mk.inj (glides.step.symm.trans ran)
      exact ⟨glides.stays next (Except.ok.inj same), trivial, rfl⟩)
    holds trivial
  obtain ⟨result, glides⟩ := holds.glides last
  exact ⟨none, trivial, fun _ => glides.nearing⟩

/-- A step that comes in time for the records of a response, taken by a `Resolver` that looks for
the addresses of the `name`. -/
def InTime (name : Name) (type : RecordType) (message : Message) (since : Duration) :
    Call → Resolver → Prop :=
  fun _ resolver => resolver.LooksFor name type ∧ message.Lives since resolver.now

section

variable {message : Message} {links : List Record} {last : Name} {set : RecordSet}
  {since : Duration} {base : Resolver}

/-- A lookup finds the hosts alone if the `cache` once recalled the chain, and was only read
since. -/
theorem Recalling.findsAlone (chained : message.Chained (.internet name type) links last)
    (ends : set.Ends (.internet name type) last) (short : links.length < Session.cachedAliases)
    (textual : Address.ofText? host = none) (named : Name.ofText? host = .ok name)
    (recalls : base.cache.Recalls (message.Lives since) links set) (reads : base.Reads resolver)
    (recalling : call.Recalling host name type ⟨last, RecordSet.addresses [set]⟩) :
    call.FindsAlone Resolver.Reads (InTime name type message since)
      ⟨last, RecordSet.addresses [set]⟩ resolver := by
  have glides {call : Call} {resolver' : Resolver} (reads' : resolver.Reads resolver')
      (inTime : InTime name type message since call resolver')
      (recalling : call.Recalling host name type ⟨last, RecordSet.addresses [set]⟩) :=
    recalling.glides chained ends short textual named
      ((reads.trans reads').recalls recalls inTime.2) inTime.2 inTime.1
  intro final later sent course
  -- The stage is kept along the whole course, and with it that nothing is sent and the cache is
  -- only read.
  obtain ⟨recalling, reads', none⟩ := course.quiet
    (·.Recalling host name type ⟨last, RecordSet.addresses [set]⟩) resolver.Reads
    (fun _ serial event recalling => recalling.notify serial event)
    (fun _ _ before change => before.trans change)
    (fun call next resolver' after recalling reads' inTime ran => by
      obtain ⟨result, after', glides⟩ := glides reads' inTime recalling
      obtain ⟨same, rfl⟩ := Prod.mk.inj (glides.step.symm.trans ran)
      exact ⟨glides.stays next (Except.ok.inj same), reads'.trans glides.reads, glides.unsent⟩)
    recalling (.refl _)
  refine ⟨none, reads', fun inTime => ?_⟩
  obtain ⟨result, after, glides⟩ := glides reads' inTime recalling
  exact glides.nearing

end

/-! ### The first lookup -/

theorem request_enterRace (call : Call) : call.enterRace.request = call.request := by
  unfold enterRace
  split <;> rfl

/-- A `lookup` of a `host` that races for something is for the text of a name, and not for that of
an `Address`. -/
theorem textual_of_course {Meanwhile : Resolver → Resolver → Prop} {Fits : Call → Resolver → Prop}
    {budget : Nat} {begun : Resolver} {sent : List Datagram}
    (course : Course Meanwhile Fits (.new (.host host) budget) begun call resolver sent) :
    call.request = .host host ∧
      ∀ lookup, call.activity = .racing lookup → Address.ofText? host = none := by
  have single {activity : Activity} (single : activity.IsSingle) (lookup : HostLookup)
      (racing : activity = .racing lookup) : Address.ofText? host = none := by
    rw [racing] at single
    exact single.elim
  -- Only the beginning of a lookup starts a race, and it does so for no address.
  induction course with
  | starts => exact ⟨rfl, fun lookup same => by cases same⟩
  | hears course serial event ih => exact ih
  | meanwhile course change ih => exact ih
  | steps course fits ran sends ih =>
    obtain ⟨asks, textual⟩ := ih
    cases stride_of_step ran with
    | begins idle first began own =>
      obtain rfl := Request.host.inj (asks.symm.trans own)
      refine ⟨(request_enterRace _).trans asks, fun lookup racing => ?_⟩
      rw [activity_enterRace] at racing
      obtain rfl := ofHost_eq_racing.mp racing
      cases text : Address.ofText? host with
      | none => rfl
      | some address =>
        unfold HostLookup.begin at began
        rw [text] at began
        cases began
    | asks idle first began =>
      exact ⟨asks, single (yields_beginQuestion _ _ _ _ _ began).2.1⟩
    | starts racing first runs began => exact ⟨asks, fun _ _ => textual _ racing⟩
    | resumes racing first runs addressed went => exact ⟨asks, fun _ _ => textual _ racing⟩
    | answers asking first went =>
      obtain ⟨query, rfl, -⟩ | ⟨-, alone, -⟩ := resumeQuestion_cases went
      · exact ⟨asks, single trivial⟩
      · exact ⟨asks, single alone⟩
    | closes racing none concluded =>
      exact ⟨(request_enterRace _).trans asks, fun _ _ => textual _ racing⟩
    | passes first begun started strange => exact ⟨asks, textual⟩

/-- The next step of a `lookup` takes a `response` as the answer to its `question`: the only `pass`
of the `race` asks this question, and what comes up settles its `query` with the response. -/
inductive AnsweredBy (call : Call) (resolver : Resolver) (question : Question)
    (response : Message) : Prop
  | settles {lookup : HostLookup} {event : Event} {matters : List Matter} {pass : Pass}
    (racing : call.activity = .racing lookup) (purpose : lookup.purpose = .addresses)
    (runs : lookup.race.runs = [(question.type, .waiting pass)])
    (first : call.matters = .event pass.asked.query.serial event :: matters)
    (alone : pass.outer = []) (name : pass.asked.inquiry.name = question.name)
    (type : pass.asked.inquiry.type = question.type)
    (happened : (pass.asked.query.happen event resolver.registry).1.1 = some (.ok response))

section

variable {message : Message} {question : Question} {links : List Record} {last : Name}
  {set : RecordSet}

/-- A `step` that takes a chain as its `answer` ends the pass, and leaves the chain in the
`cache`. -/
theorem AnsweredBy.step (answered : call.AnsweredBy resolver question message)
    (chained : message.Chained question links last) (humble : message.Humble question.type links)
    (clock : resolver.now.nanos + CacheSettings.default.maxLife.nanos ≤ Duration.longest.nanos)
    (unaware : resolver.cache.Unaware (links.map Record.owner ++ [last]) question.type
      (message.answer.length + 1 + message.additional.length))
    (sets : message.sets .answer = links.map .ofRecord ++ [set]) (ends : set.Ends question last) :
    ∃ next after, call.step resolver = (.ok (some next), after) ∧
      next.Holds question.type ⟨last, RecordSet.addresses [set]⟩ ∧
      after.cache.Recalls (message.Lives resolver.now) links set ∧
      ∃ registry cache, after = { resolver with registry := registry, cache := cache } := by
  cases answered with
  | @settles lookup event matters pass racing purpose runs first alone name type settled =>
    obtain ⟨query, registry, happened⟩ : ∃ query registry,
        pass.asked.query.happen event resolver.registry =
          ((some (.ok message), query), registry) :=
      ⟨_, _, Prod.ext (Prod.ext settled rfl) rfl⟩
    obtain ⟨found, cache, stored, recalls⟩ :=
      chained.recalls_of_addMessage humble clock unaware sets ends
    -- The pass takes up the response, learns the chain, and ends with the addresses.
    have learned : Session.learn message ⟨{ resolver with registry := registry }, call.allowance⟩ =
        (.ok (), ⟨{ resolver with registry := registry, cache := cache }, call.allowance⟩) :=
      Session.learn_of_addMessage stored
    have meant : Outcome.classify message pass.asked.inquiry.name pass.asked.inquiry.type =
        .answer ⟨last, [set]⟩ := by
      rw [name, type]
      exact chained.classify_eq sets ends
    have resumed : pass.resume event (call.session resolver) =
        (.ok (.finished (.ok ⟨last, [set]⟩)), _) :=
      Pass.resume_of_answer alone happened (if_pos (.inl chained.fine)) meant learned
    refine ⟨_, _, call.step_of_event [] racing first runs rfl (List.forall_mem_nil _) resumed,
      .closing rfl ⟨fun asks => ?_, _, rfl, ends.tells set.ttl⟩, recalls, registry, cache, rfl⟩
    obtain ⟨failure, same⟩ := asks
    cases purpose.symm.trans same

/-- A lookup of a `host` that is `AnsweredBy` a chain of aliases, shorter than the `cachedAliases`
that are followed within a cache, finds the addresses at the end of the chain. So does every further
lookup of this host, as long as the records live (`InTime`). It asks nobody: what it does, it
`FindsAlone`. -/
theorem recalled_of_answered {Meanwhile : Resolver → Resolver → Prop}
    {Fits : Call → Resolver → Prop} {budget : Nat} {begun : Resolver} {sent : List Datagram}
    (named : Name.ofText? host = .ok name)
    (chained : message.Chained (.internet name type) links last)
    (short : links.length < Session.cachedAliases) (humble : message.Humble type links)
    (course : Course Meanwhile Fits (.new (.host host) budget) begun call resolver sent)
    (answered : call.AnsweredBy resolver (.internet name type) message)
    (unaware : resolver.cache.Unaware (links.map Record.owner ++ [last]) type
      (message.answer.length + 1 + message.additional.length))
    (clock : resolver.now.nanos + CacheSettings.default.maxLife.nanos ≤ Duration.longest.nanos) :
    ∃ answer next after, Outcome.classify message name type = .answer answer ∧
      answer.canonical = last ∧ call.step resolver = (.ok (some next), after) ∧
      next.FindsAlone (fun _ _ => True) Any ⟨last, answer.addresses⟩ after ∧
      ∀ later budget, after.Reads later → (new (.host host) budget).FindsAlone Resolver.Reads
        (InTime name type message resolver.now) ⟨last, answer.addresses⟩ later := by
  obtain ⟨set, sets, ends⟩ := chained.exists_sets
  have textual : Address.ofText? host = none := by
    cases answered with
    | settles racing => exact (textual_of_course course).2 _ racing
  obtain ⟨next, after, ran, holds, recalls, -⟩ :=
    answered.step chained humble clock unaware sets ends
  refine ⟨⟨last, [set]⟩, next, after, chained.classify_eq sets ends, rfl, ran,
    holds.findsAlone after, fun later budget reads => ?_⟩
  exact Recalling.findsAlone chained ends short textual named recalls reads (.fresh rfl rfl rfl)

end

/-! ### Lookups that a relay answers -/

/-- What comes up next is what becomes of the only query of a `call`. -/
def waitsFor (call : Call) (serial : Nat) (question : Question) : Bool :=
  match call.activity, call.matters with
  | .racing ⟨⟨_, _, [(type, .waiting ⟨⟨inquiry, query⟩, []⟩)]⟩, .addresses, _⟩, [] =>
    query.serial = serial ∧ query.state = .awaiting ∧ type = question.type ∧
      inquiry.name = question.name ∧ inquiry.type = question.type
  | _, _ => false

theorem answeredBy_of_waitsFor {serial : Nat} {question : Question} {response : Message}
    (waits : call.waitsFor serial question = true)
    (answered : resolver.registry.fate serial = .answered (.response response)) :
    (call.notify serial .roused).AnsweredBy resolver question response := by
  obtain ⟨request, allowance, activity, matters⟩ := call
  unfold waitsFor at waits
  split at waits
  · rename_i name preferred type inquiry query search racing none
    obtain rfl : activity = _ := racing
    obtain rfl : matters = [] := none
    obtain ⟨rfl, awaits, rfl, named, typed⟩ := of_decide_eq_true waits
    obtain ⟨server, id, serial, question, state, begun⟩ := query
    obtain rfl : state = .awaiting := awaits
    refine .settles rfl rfl rfl rfl rfl named typed ?_
    simp only [Query.happen, Query.check, stateM_bind_apply, stateM_get_apply, answered]
    rfl
  · cases waits

/-- A `Resolver` that knows a single server, and looks for addresses of one family. -/
def single : Resolver := { lone with settings := { lone.settings with preference := .ipv4Only } }

/-- A lookup that a relay is about to answer, with its `Resolver`. -/
def relayed (count : Nat) : Option (Call × Resolver) :=
  (play single (.new (.host "a.") 1) [none, none, some (1, .written), none]).map fun asked =>
    (asked.1.notify 1 .roused,
      { asked.2 with registry := .first [] [(1, .response (.relay count))] })

theorem exists_relayed (count : Nat) : ∃ call resolver sent,
    relayed count = some (call, resolver) ∧
    Course (fun _ _ => True) Any (.new (.host "a.") 1) single call resolver sent ∧
    call.AnsweredBy resolver (.internet (Message.relayName 0) .a) (.relay count) ∧
    resolver.cache = .empty .default ∧ resolver.now = .zero ∧
    resolver.LooksFor (Message.relayName 0) .a := by
  have plays : (play single (.new (.host "a.") 1) [none, none, some (1, .written), none]).any
      (fun asked => asked.1.waitsFor 1 (.internet (Message.relayName 0) .a) &&
        decide (asked.2.cache.names = []) && decide (asked.2.cache.settings = .default) &&
        decide (asked.2.now = .zero) && decide (asked.2.settings.preference.types = [.a]) &&
        decide (asked.2.hosts.addresses? (Message.relayName 0) = none)) = true := by
    decide +kernel
  obtain ⟨⟨call, waiting⟩, asked, checks⟩ := (Option.any_eq_true _ _).mp plays
  simp only [Bool.and_eq_true, decide_eq_true_eq] at checks
  obtain ⟨⟨⟨⟨⟨waits, names⟩, settings⟩, zero⟩, types⟩, unlisted⟩ := checks
  obtain ⟨sent, course⟩ := course_of_play (fun _ _ _ => trivial) .starts asked
  have empty : waiting.cache = .empty .default := by
    rw [Cache.empty, ← names, ← settings]
  refine ⟨call.notify 1 .roused,
    { waiting with registry := .first [] [(1, .response (.relay count))] }, sent, ?_,
    (course.meanwhile trivial).hears 1 .roused, answeredBy_of_waitsFor waits rfl, empty, zero,
    types, unlisted⟩
  rw [relayed, asked]
  rfl

/-- A lookup is answered by `Message.relay 15`, a chain that is as long as a cache can recall. -/
theorem recalled_of_answered_relay : ∃ call resolver sent answer next after,
    Course (fun _ _ => True) Any (.new (.host "a.") 1) single call resolver sent ∧
    call.AnsweredBy resolver (.internet (Message.relayName 0) .a) (.relay 15) ∧
    Outcome.classify (.relay 15) (Message.relayName 0) .a = .answer answer ∧
    answer.canonical = Message.relayName 15 ∧ call.step resolver = (.ok (some next), after) ∧
    next.FindsAlone (fun _ _ => True) Any ⟨Message.relayName 15, answer.addresses⟩ after ∧
    ∀ later budget, after.Reads later → (new (.host "a.") budget).FindsAlone Resolver.Reads
      (InTime (Message.relayName 0) .a (.relay 15) resolver.now)
        ⟨Message.relayName 15, answer.addresses⟩ later := by
  obtain ⟨call, resolver, sent, -, course, answered, empty, zero, -⟩ := exists_relayed 15
  obtain ⟨answer, next, after, found⟩ := recalled_of_answered (by decide +kernel)
    (Message.chained_relay (by decide)) (by decide) (.inl (by decide)) course answered
    (by rw [empty]; exact Cache.unaware_empty _ _ (by decide)) (by rw [zero]; decide)
  exact ⟨call, resolver, sent, answer, next, after, course, answered, found⟩

/-- A further lookup in time sends something, if its second `step` leaves more in the `outbox` than
was there before. -/
theorem exists_sending {budget : Nat} {message : Message} {since : Duration} {racing asking : Call}
    {same later : Resolver} (textual : Address.ofText? host = none)
    (named : Name.ofText? host = .ok name) (absolute : name.absolute = true)
    (looks : resolver.LooksFor name type) (lives : message.Lives since resolver.now)
    (begins : (new (.host host) budget).step resolver = (.ok (some racing), same))
    (starts : racing.step same = (.ok (some asking), later))
    (grows : later.outbox.length ≠ resolver.outbox.length) :
    ∃ sent, Course Resolver.Reads (InTime name type message since) (.new (.host host) budget)
      resolver asking later sent ∧ sent ≠ [] := by
  -- the first step only begins the lookup, so the second one is in time as well
  obtain ⟨result, glides⟩ := @glides_of_fresh _ _ _ ⟨name, []⟩ (.new (.host host) budget) _ _
    textual named absolute looks rfl rfl rfl
  obtain ⟨-, rfl⟩ := Prod.mk.inj (glides.step.symm.trans begins)
  obtain ⟨sends, outbox⟩ := exists_sends starts
  refine ⟨[] ++ [] ++ sends, (Course.starts.steps ⟨looks, lives⟩ begins
    (List.append_nil _).symm).steps ⟨looks, lives⟩ starts outbox, fun nothing => grows ?_⟩
  rw [show sends = [] from nothing, List.append_nil] at outbox
  exact congrArg List.length outbox

/-- A lookup is answered by a chain that is as long as the aliases that are followed within a
`cache`. A further lookup asks for the last name of this chain. -/
theorem asks_of_full_chain : ∃ call resolver sent next after asking later more,
    (Message.relay Session.cachedAliases).Chained (.internet (Message.relayName 0) .a)
      ((List.range' 0 Session.cachedAliases).map Message.relayLink)
      (Message.relayName Session.cachedAliases) ∧
    Course (fun _ _ => True) Any (.new (.host "a.") 1) single call resolver sent ∧
    call.AnsweredBy resolver (.internet (Message.relayName 0) .a)
      (.relay Session.cachedAliases) ∧
    resolver.cache = .empty .default ∧ call.step resolver = (.ok (some next), after) ∧
    Course Resolver.Reads
      (InTime (Message.relayName 0) .a (.relay Session.cachedAliases) resolver.now)
      (.new (.host "a.") 1) after asking later more ∧ more ≠ [] := by
  obtain ⟨call, resolver, sent, relays, course, answered, empty, zero, looks⟩ :=
    exists_relayed Session.cachedAliases
  have chained := Message.chained_relay (Nat.le_refl Session.cachedAliases)
  obtain ⟨set, sets, ends⟩ := chained.exists_sets
  obtain ⟨next, after, ran, -, -, registry, cache, rest⟩ := answered.step chained
    (.inl (by decide)) (by rw [zero]; decide)
    (by rw [empty]; exact Cache.unaware_empty _ _ (by decide)) sets ends
  have looks : after.LooksFor (Message.relayName 0) .a := by
    rw [rest]
    exact ⟨looks.types, looks.unlisted⟩
  have lives : (Message.relay Session.cachedAliases).Lives resolver.now after.now := by
    rw [rest, zero]
    unfold Message.Lives
    decide +kernel
  have asks : (relayed Session.cachedAliases).any (fun heard =>
      (play heard.2 heard.1 [none]).any fun told =>
        (play told.2 (.new (.host "a.") 1) [none]).any fun begun =>
          (play begun.2 begun.1 [none]).any fun asked =>
            decide (asked.2.outbox.length ≠ told.2.outbox.length)) = true := by
    decide +kernel
  rw [relays, Option.any_some] at asks
  obtain ⟨⟨told, same⟩, learns, asks⟩ := (Option.any_eq_true _ _).mp asks
  obtain ⟨-, learns⟩ := step_of_play learns
  obtain ⟨-, rfl⟩ := Prod.mk.inj (ran.symm.trans learns)
  obtain ⟨⟨racing, same⟩, begins, asks⟩ := (Option.any_eq_true _ _).mp asks
  obtain ⟨-, begins⟩ := step_of_play begins
  obtain ⟨⟨asking, later⟩, starts, more⟩ := (Option.any_eq_true _ _).mp asks
  obtain ⟨-, starts⟩ := step_of_play starts
  obtain ⟨more, course', some⟩ := exists_sending (by decide +kernel) (by decide +kernel)
    chained.absolute_name looks lives begins starts (of_decide_eq_true more)
  exact ⟨call, resolver, sent, next, after, asking, later, more, chained, course, answered, empty,
    ran, course', some⟩

end Call

end NameResolution
