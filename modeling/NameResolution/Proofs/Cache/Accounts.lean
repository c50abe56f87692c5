import NameResolution.Proofs.Cache.Glue

/-!
# What delegations were told

An `Account` lists what delegations were told since they were last cleared. Of each name and type
the latest record set stands, until its life ends; one that ends at once takes the place of the one
before as well. As long as no name is dropped for want of room, what counts is what stands.

* `Delegations.Account.run`: what was told in some steps. `Delegations.Account.view`: what stands.
* `Delegations.Reflects`: what counts in a cache is what stands. `Delegations.Reflects.tell`: it
  still does so after record sets have been added.
* `Delegations.Moment.follows_run`: so it is in every run that drops no name for want of room.
* `Delegations.Moment.Follows.map_view`: servers and addresses are seen as they stand.
-/

namespace NameResolution

namespace Delegations

open Cache (Evicts Shed Write WritesEvict expiry)

/-! ## Accounts -/

/-- A record set that was told, and the end of its life. -/
structure Told where
  set : RecordSet
  expireAt : Duration

namespace Told

/-- The record set is of this `type` and belongs to this `name`. -/
def IsFor (told : Told) (name : Name) (type : RecordType) : Prop :=
  told.set.owner.fold = name.fold ∧ told.set.type = type

instance (told : Told) (name : Name) (type : RecordType) : Decidable (told.IsFor name type) :=
  inferInstanceAs (Decidable (_ ∧ _))

/-- How the record `set` is kept. -/
def entry (told : Told) : Entry := ⟨.present told.set, least told.set.type, told.expireAt⟩

end Told

/-- What is told of a zone: its `servers`, and those of the address sets that belong to them. Of the
root nothing is told. -/
def tellings (servers : RecordSet) (glue : List RecordSet) : List RecordSet :=
  if servers.owner.isRoot ∨ servers.type ≠ .ns then []
  else servers :: glue.filter fun set =>
    set.type.IsAddress ∧ servers.additionalNames.contains set.owner

/-- Tells record `sets` one after the other, up to one that would live longer than the clock can
tell. -/
def tell (now most : Duration) : List RecordSet → List Told → List Told
  | [], told => told
  | set :: sets, told =>
    match now.add? (lifetime set.ttl most) with
    | some expireAt => tell now most sets (⟨set, expireAt⟩ :: told)
    | none => told

/-- What was `Told` since everything was last forgotten, the latest first, and the time. -/
structure Account where
  told : List Told
  now : Duration

namespace Account

/-- An `Account` of which nothing was told yet. -/
def start : Account := ⟨[], .zero⟩

/-- The `account` after a `Step`. -/
def after (settings : CacheSettings) (account : Account) : Step → Account
  | .add servers glue =>
    { account with told := tell account.now settings.maxLife (tellings servers glue) account.told }
  | .serversFor .. => account
  | .clear => { account with told := [] }
  | .advance span => { account with now := account.now.saturatingAdd span }

/-- The `account` after some `steps`. -/
def run (settings : CacheSettings) (account : Account) (steps : List Step) : Account :=
  steps.foldl (after settings) account

/-- The record `set` of a `type` that stands for a `name`: the latest one, if its life has not
ended. -/
def view (account : Account) : View := fun name type =>
  ((account.told.find? (·.IsFor name type)).filter (account.now < ·.expireAt)).map Told.set

end Account

/-! ## Where it comes from -/

theorem mem_tellings {servers : RecordSet} {glue : List RecordSet} {set : RecordSet}
    (member : set ∈ tellings servers glue) : servers.type = .ns ∧ (set = servers ∨
      set ∈ glue ∧ set.type.IsAddress ∧ servers.additionalNames.contains set.owner = true) := by
  unfold tellings at member
  split at member
  · cases member
  · rename_i proper
    refine ⟨Classical.not_not.mp fun other => proper (.inr other), ?_⟩
    obtain rfl | rest := List.mem_cons.mp member
    · exact .inl rfl
    · obtain ⟨given, useful⟩ := List.mem_filter.mp rest
      rw [decide_eq_true_eq] at useful
      exact .inr ⟨given, useful⟩

theorem mem_tell {now most : Duration} {sets : List RecordSet} {told : List Told} {new : Told}
    (member : new ∈ tell now most sets told) : new ∈ told ∨
      new.set ∈ sets ∧ now.add? (lifetime new.set.ttl most) = some new.expireAt := by
  induction sets generalizing told with
  | nil => exact .inl member
  | cons set sets ih =>
    unfold tell at member
    cases ends : now.add? (lifetime set.ttl most) with
    | none =>
      rw [ends] at member
      exact .inl member
    | some expireAt =>
      rw [ends] at member
      obtain known | ⟨among, lives⟩ := ih member
      · obtain rfl | before := List.mem_cons.mp known
        · exact .inr ⟨List.mem_cons_self, ends⟩
        · exact .inl before
      · exact .inr ⟨List.mem_cons_of_mem set among, lives⟩

/-- What was told was known before, or was told in some `Step`, in which its life has begun. -/
theorem Account.exists_step {settings : CacheSettings} {steps : List Step} {account : Account}
    {told : Told} (member : told ∈ (account.run settings steps).told) :
    told ∈ account.told ∨ ∃ before servers glue after,
      steps = before ++ .add servers glue :: after ∧ told.set ∈ tellings servers glue ∧
        (account.run settings before).now.add? (lifetime told.set.ttl settings.maxLife) =
          some told.expireAt := by
  induction steps generalizing account with
  | nil => exact .inl member
  | cons step steps ih =>
    obtain known | ⟨before, servers, glue, after, rfl, rest⟩ := ih member
    · cases step with
      | add servers glue =>
        obtain known | ⟨among, lives⟩ := mem_tell known
        · exact .inl known
        · exact .inr ⟨[], servers, glue, steps, rfl, among, lives⟩
      | serversFor name port => exact .inl known
      | clear => cases known
      | advance span => exact .inl known
    · exact .inr ⟨step :: before, servers, glue, after, rfl, rest⟩

/-- An `account` has the time of what is done. -/
theorem Account.now_run (settings : CacheSettings) (steps : List Step) {moment : Moment}
    {account : Account} (same : moment.now = account.now) :
    (moment.run steps).now = (account.run settings steps).now := by
  induction steps generalizing moment account with
  | nil => exact same
  | cons step steps ih =>
    refine ih ?_
    cases step with
    | advance span => exact congrArg (·.saturatingAdd span) same
    | _ => exact same

/-! ## What counts -/

/-- What counts `later` has counted `now`. -/
theorem current?_later (cache : Cache) (name : Name) (type : RecordType) {now later : Duration}
    (since : now ≤ later) : cache.current? name type later =
      (cache.current? name type now).filter (¬ ·.IsExpired later) := by
  unfold Cache.current?
  rw [Option.filter_filter]
  refine congrArg (Option.filter · _) (funext fun entry => ?_)
  by_cases expired : entry.IsExpired now
  · have ended : entry.IsExpired later := Nat.le_trans expired since
    simp [ended]
  · simp [expired]

/-- The record sets that count in the `cache` are those that stand by what was `told`. -/
def Reflects (told : List Told) (now : Duration) (cache : Cache) : Prop :=
  ∀ name type, cache.current? name type now =
    ((told.find? (·.IsFor name type)).filter (now < ·.expireAt)).map Told.entry

variable {told : List Told} {now : Duration} {cache : Cache}

/-- As time goes by, what has ended no longer counts, so a `cache` still `Reflects` what was
told. -/
theorem Reflects.advance (reflects : Reflects told now cache) {later : Duration}
    (since : now ≤ later) : Reflects told later cache := by
  intro name type
  rw [current?_later cache name type since, reflects name type, Option.filter_map,
    Option.filter_filter]
  refine congrArg (Option.map Told.entry <| Option.filter · _) (funext fun latest => ?_)
  have ends : latest.entry.IsExpired later ↔ ¬ later < latest.expireAt := Nat.not_lt.symm
  by_cases counts : later < latest.expireAt
  · have before : now < latest.expireAt := Nat.lt_of_le_of_lt since counts
    simp [ends, counts, before]
  · simp [ends, counts]

/-- What counts is of the `type` that it is kept for, and can be trusted as far as this type. -/
theorem Reflects.credibility (reflects : Reflects told now cache) {name : Name} {type : RecordType}
    {entry : Entry} (counts : cache.current? name type now = some entry) :
    entry.credibility = least type := by
  rw [reflects, Option.map_eq_some_iff] at counts
  obtain ⟨latest, found, rfl⟩ := counts
  have isFor := List.find?_some (Option.filter_eq_some_iff.mp found).1
  rw [decide_eq_true_eq] at isFor
  show least latest.set.type = _
  rw [isFor.2]

/-- A record `set` that is kept as far as its `type` can be trusted. -/
abbrev kept (set : RecordSet) : Write := .ofSet set (least set.type)

/-- Nothing that counts is trusted more than what is added for the same name and `type`. -/
theorem Reflects.verdict_eq (reflects : Reflects told now cache) (set : RecordSet) :
    (kept set).verdict (cache.current? set.owner set.type now) now cache.settings =
      if set.ttl = 0 then
        (.ok (), if (cache.current? set.owner set.type now).isSome then .remove else .keep)
      else match expiry now set.ttl cache.settings.maxLife with
        | .ok expireAt => (.ok (), .insert ⟨.present set, least set.type, expireAt⟩)
        | .error misuse => (.error misuse, .keep) := by
  have free : (cache.current? set.owner set.type now).any
      ((kept set).credibility < ·.credibility) = false := by
    cases counts : cache.current? set.owner set.type now with
    | none => rfl
    | some entry =>
      have same : (kept set).credibility = entry.credibility := (reflects.credibility counts).symm
      simp only [Option.any_some, same]
      exact decide_eq_false (Nat.lt_irrefl _)
  have whole : (kept set).IsWhole := trivial
  rw [Write.verdict_of_whole whole, Write.ownVerdict, free, if_neg Bool.false_ne_true]
  rfl

/-- A record set with the time to live zero ends `now`. -/
theorem add?_lifetime_zero (now most : Duration) : now.add? (lifetime 0 most) = some now := by
  have none : (lifetime 0 most).nanos = 0 := by
    unfold lifetime
    rw [Cache.nanos_min]
    exact Nat.zero_min _
  unfold Duration.add? Duration.ofNanos?
  rw [dif_pos (by rw [none]; exact now.bounded)]
  exact congrArg some (by simp [none])

section

variable {set : RecordSet} (ordinary : ¬ set.type.IsQueryOnly)

include ordinary

/-- A record `set` without time to live removes what counts at its place. -/
theorem Reflects.perform_of_fleeting (reflects : Reflects told now cache) (zero : set.ttl = 0) :
    ((kept set).perform now cache).1 = .ok () ∧
      ((kept set).perform now cache).2.current? set.owner set.type now = none := by
  have accepted : (kept set).refusal? = none := if_neg ordinary
  have verdict := reflects.verdict_eq set
  rw [if_pos zero] at verdict
  rw [(kept set).perform_apply, accepted]
  simp only [Write.name, Write.type, verdict, true_and]
  have swept := Cache.current?_sweep cache set.owner set.type now set.owner set.type
  cases counts : cache.current? set.owner set.type now with
  | none => exact swept.trans counts
  | some entry =>
    show Option.filter _ (((cache.sweep set.owner set.type now).remove set.owner set.type).find?
      set.owner set.type) = none
    rw [Cache.find?_remove, if_pos ⟨rfl, rfl⟩]
    rfl

/-- What counts at the place of a record `set` that was added is this set alone, until it ends. -/
theorem Reflects.perform_of_ends (reflects : Reflects told now cache) (shape : cache.WellFormed)
    {expireAt : Duration}
    (ends : now.add? (lifetime set.ttl cache.settings.maxLife) = some expireAt)
    (unevicted : ¬ Evicts ((kept set).perform now) cache set.owner) :
    ((kept set).perform now cache).1 = .ok () ∧
      ((kept set).perform now cache).2.current? set.owner set.type now =
        ((some (Told.mk set expireAt)).filter (now < ·.expireAt)).map Told.entry := by
  -- Without time to live nothing is put in: what counted goes, and the set has ended at once.
  by_cases zero : set.ttl = 0
  · rw [zero, add?_lifetime_zero] at ends
    obtain rfl := Option.some.inj ends
    have gone : (some (Told.mk set now)).filter (now < ·.expireAt) = none := by
      have ended : ¬ now < now := Nat.lt_irrefl now.nanos
      rw [Option.filter_some, if_neg (by simpa using ended)]
    rw [gone]
    exact reflects.perform_of_fleeting ordinary zero
  have accepted : (kept set).refusal? = none := if_neg ordinary
  have ended : expiry now set.ttl cache.settings.maxLife = .ok expireAt := by
    rw [expiry, ends]
    rfl
  have verdict := reflects.verdict_eq set
  rw [if_neg zero, ended] at verdict
  have inserts : ((kept set).verdict (cache.current? set.owner set.type now) now
      cache.settings).2 = .insert (Told.mk set expireAt).entry := congrArg Prod.snd verdict
  -- Nothing is dropped for want of room, so what is put in is found.
  have there : ((kept set).perform now cache).2.find? set.owner set.type =
      some (Told.mk set expireAt).entry := by
    refine Cache.find?_insert_of_find? shape accepted inserts ?_ unevicted
    exact (Cache.find?_place ..).trans (if_pos ⟨rfl, rfl⟩)
  refine ⟨?_, ?_⟩
  · rw [(kept set).perform_apply, accepted]
    simp only [Write.name, Write.type, verdict]
  · have alive : ¬ (Told.mk set expireAt).entry.IsExpired now ↔ now < expireAt := Nat.not_le
    rw [Cache.current?, there]
    simp only [Option.filter_some, alive]
    split <;> rfl

/-- A record `set` that would live too long for the clock is refused, and changes nothing. -/
theorem Reflects.perform_of_overflow (reflects : Reflects told now cache)
    (overflow : now.add? (lifetime set.ttl cache.settings.maxLife) = none) :
    (∃ misuse, ((kept set).perform now cache).1 = .error misuse) ∧
      Reflects told now ((kept set).perform now cache).2 := by
  have lasting : set.ttl ≠ 0 := by
    intro zero
    rw [zero, add?_lifetime_zero] at overflow
    cases overflow
  have ended : expiry now set.ttl cache.settings.maxLife = .error .clockOverflow := by
    rw [expiry, overflow]
    rfl
  have accepted : (kept set).refusal? = none := if_neg ordinary
  have verdict := reflects.verdict_eq set
  rw [if_neg lasting, ended] at verdict
  rw [(kept set).perform_apply, accepted]
  simp only [Write.name, Write.type, verdict]
  refine ⟨⟨_, rfl⟩, fun name type => ?_⟩
  exact (Cache.current?_sweep cache set.owner set.type now name type).trans (reflects name type)

/-- A record `set` that is added stands from then on. -/
theorem Reflects.perform (reflects : Reflects told now cache) (shape : cache.WellFormed)
    {expireAt : Duration}
    (ends : now.add? (lifetime set.ttl cache.settings.maxLife) = some expireAt)
    (unevicted : ∀ name, ¬ Evicts ((kept set).perform now) cache name) :
    ((kept set).perform now cache).1 = .ok () ∧
      Reflects (⟨set, expireAt⟩ :: told) now ((kept set).perform now cache).2 := by
  obtain ⟨succeeds, here⟩ := reflects.perform_of_ends ordinary shape ends (unevicted set.owner)
  refine ⟨succeeds, fun name type => ?_⟩
  rw [List.find?_cons]
  by_cases isFor : (Told.mk set expireAt).IsFor name type
  · obtain ⟨owner, rfl⟩ := isFor
    rw [decide_eq_true ⟨owner, rfl⟩, Cache.current?_congr _ owner.symm]
    exact here
  · rw [decide_eq_false isFor, ← reflects name type]
    have alone : ¬ WritesEvict now name [kept set] cache := not_or.mpr ⟨unevicted name, id⟩
    have other : ∀ write ∈ [kept set], ¬ write.IsFor name type :=
      List.forall_mem_singleton.mpr isFor
    have since : now ≤ now := Nat.le_refl now.nanos
    have untouched := Cache.current?_performAll_of_untouched since other shape alone
    rwa [Cache.performAll_singleton] at untouched

end

/-- Record `sets` that are added one after the other stand as they are told. -/
theorem Reflects.tell {sets : List RecordSet} (ordinary : ∀ set ∈ sets, ¬ set.type.IsQueryOnly)
    (reflects : Reflects told now cache) (shape : cache.WellFormed)
    (unevicted : ∀ name, ¬ WritesEvict now name (sets.map kept) cache) :
    Reflects (tell now cache.settings.maxLife sets told) now
      (Cache.performAll now (sets.map kept) cache).2 := by
  induction sets generalizing told cache with
  | nil => exact reflects
  | cons set sets ih =>
    rw [List.forall_mem_cons] at ordinary
    have first (name : Name) : ¬ Evicts ((kept set).perform now) cache name :=
      fun evicts => unevicted name (.inl evicts)
    have rest (name : Name) : ¬ WritesEvict now name (sets.map kept)
        ((kept set).perform now cache).2 := fun evicts => unevicted name (.inr evicts)
    have settings := (kept set).settings_perform now cache
    have shaped := (kept set).wellFormed_perform shape now
    rw [List.map_cons, Cache.performAll, Op.bind_apply, Delegations.tell]
    cases ends : now.add? (lifetime set.ttl cache.settings.maxLife) with
    | some expireAt =>
      obtain ⟨succeeds, stands⟩ := reflects.perform ordinary.1 shape ends first
      rcases ran : (kept set).perform now cache with ⟨misuse | _, middle⟩
      all_goals rw [ran] at succeeds stands rest settings shaped
      · cases succeeds
      · have later := ih ordinary.2 stands shaped rest
        rwa [settings] at later
    -- The set would live too long: it is refused, and the others are not told.
    | none =>
      obtain ⟨⟨misuse, refused⟩, stays⟩ := reflects.perform_of_overflow ordinary.1 ends
      rcases ran : (kept set).perform now cache with ⟨misuse | _, middle⟩
      all_goals rw [ran] at refused stays
      · exact stays
      · cases refused

/-! ## Runs -/

theorem writes_eq (servers : RecordSet) (glue : List RecordSet) :
    writes servers glue = (tellings servers glue).map kept := by
  unfold writes tellings
  split
  · rfl
  · rename_i proper
    have kind : servers.type = .ns := Classical.not_not.mp fun other => proper (.inr other)
    have level : least servers.type = .hint := by rw [kind]; rfl
    rw [List.map_cons, kept, level]
    refine congrArg (_ :: ·) (List.map_congr_left fun set member => ?_)
    have useful := (List.mem_filter.mp member).2
    rw [decide_eq_true_eq] at useful
    rw [kept, least, if_neg useful.1.ordinary.2.2]

/-- To find servers drops nothing but what no longer counts. -/
theorem shed_serversFor {delegations : Delegations} (settled : delegations.Settled) (name : Name)
    (port : UInt16) (now : Duration) :
    Shed now delegations.cache (serversFor name port now delegations).2.cache := by
  have lookups (asked : Name) (type : RecordType) (level : Credibility) :
      Op.Keeps
        (fun other => Shed now delegations.cache other ∧ other.size ≤ other.settings.maxNames)
        (Cache.lookup asked type level now) fun found =>
          ∀ set ∈ found.sets, set.Tells fun _ => True := by
    refine .of_run (fun other ⟨shed, room⟩ => ?_) fun _ _ _ _ _ _ _ _ _ _ => trivial
    obtain same | sheds := Cache.sheds_lookup asked type level now other
    · rw [same]
      exact ⟨shed, room⟩
    · rw [Cache.evict_of_room room] at sheds
      have further := sheds shed.wellFormed
      exact ⟨shed.trans further, further.room room⟩
  have same : Shed now delegations.cache delegations.cache :=
    Std.Refl.refl (r := Cache.Sheds now) delegations.cache settled.wellFormed
  exact ((keeps_serversFor_of lookups name port).after ⟨same, settled.room⟩).1

/-- The `Step` drops a `name` for want of room. -/
def Step.Evicts (moment : Moment) : Step → Prop
  | .add servers glue =>
    ∃ name, WritesEvict moment.now name (writes servers glue) moment.delegations.cache
  | _ => False

namespace Moment

/-- No `step` drops a name for want of room. -/
def Unevicting (moment : Moment) : List Step → Prop
  | [] => True
  | step :: steps => ¬ step.Evicts moment ∧ (moment.after step).Unevicting steps

/-- What counts is what stands by the `account`. -/
structure Follows (settings : CacheSettings) (moment : Moment) (account : Account) : Prop where
  settled : moment.delegations.Settled
  settings : moment.delegations.cache.settings = settings
  now : moment.now = account.now
  reflects : Reflects account.told account.now moment.delegations.cache

theorem follows_start (settings : CacheSettings) : (start settings).Follows settings .start :=
  ⟨settled_empty settings, rfl, rfl, fun _ _ => rfl⟩

variable {settings : CacheSettings} {moment : Moment} {account : Account}

theorem settings_add (servers : RecordSet) (glue : List RecordSet) (now : Duration)
    (delegations : Delegations) :
    (add servers glue now delegations).2.cache.settings = delegations.cache.settings := by
  rw [add_snd]
  exact Cache.performAll_keeps (fun cache => cache.settings = delegations.cache.settings)
    (fun write _ cache same => (write.settings_perform now cache).trans same) rfl

/-- After each `step` what counts is what stands. -/
theorem Follows.after (follows : moment.Follows settings account) {step : Step}
    (unevicting : ¬ step.Evicts moment) :
    (moment.after step).Follows settings (account.after settings step) := by
  obtain ⟨settled, same, clock, reflects⟩ := follows
  cases step with
  | add servers glue =>
    refine ⟨settled.after (.add servers glue), (settings_add ..).trans same, clock, ?_⟩
    -- The step writes what is told, and drops no name in doing so.
    have unevicted (name : Name) : ¬ WritesEvict account.now name
        ((tellings servers glue).map kept) moment.delegations.cache := by
      rw [← writes_eq, ← clock]
      exact fun evicts => unevicting ⟨name, evicts⟩
    have ordinary (set : RecordSet) (member : set ∈ tellings servers glue) :
        ¬ set.type.IsQueryOnly := by
      obtain ⟨kind, rfl | ⟨-, address, -⟩⟩ := mem_tellings member
      · rw [kind]
        decide
      · exact address.ordinary.1
    have stands := reflects.tell ordinary settled.wellFormed unevicted
    rw [same, ← writes_eq] at stands
    show Reflects _ account.now (add servers glue moment.now moment.delegations).2.cache
    rw [add_snd, clock]
    exact stands
  | serversFor name port =>
    have shed := shed_serversFor settled name port moment.now
    refine ⟨settled.after (.serversFor name port), shed.settings.trans same, clock, ?_⟩
    rw [clock] at shed
    intro other type
    show (serversFor name port moment.now moment.delegations).2.cache.current? other type _ = _
    rw [clock]
    exact (shed.current? other type).trans (reflects other type)
  | clear => exact ⟨settled.after .clear, same, clock, fun _ _ => rfl⟩
  | advance span =>
    refine ⟨settled.after (.advance span), same, congrArg (·.saturatingAdd span) clock, ?_⟩
    exact reflects.advance (account.now.le_saturatingAdd span)

/-- In a `run` that drops no name for want of room, what counts is what stands. -/
theorem Follows.run (follows : moment.Follows settings account) {steps : List Step}
    (unevicting : moment.Unevicting steps) :
    (moment.run steps).Follows settings (account.run settings steps) := by
  induction steps generalizing moment account with
  | nil => exact follows
  | cons step steps ih => exact ih (follows.after unevicting.1) unevicting.2

theorem follows_run (settings : CacheSettings) {steps : List Step}
    (unevicting : (start settings).Unevicting steps) :
    ((start settings).run steps).Follows settings (Account.start.run settings steps) :=
  (follows_start settings).run unevicting

/-- What stands by the `account` is seen in the `moment`, but for the time that is left to it. -/
theorem Follows.map_view (follows : moment.Follows settings account) {α : Type}
    (f : RecordSet → α) (plain : ∀ set ttl, f { set with ttl := ttl } = f set) (name : Name)
    (type : RecordType) : (moment.delegations.view moment.now name type).map f =
      (account.view name type).map f := by
  unfold Delegations.view Cache.given? Account.view
  rw [follows.now, follows.reflects name type]
  cases found : account.told.find? (·.IsFor name type) with
  | none => rfl
  | some latest =>
    have isFor := List.find?_some found
    rw [decide_eq_true_eq] at isFor
    rw [Option.filter_some]
    split
    · have trusted : least type ≤ latest.entry.credibility := by
        rw [← isFor.2]
        exact Nat.le_refl _
      simp only [Option.map_some, Option.filter_some, trusted, decide_true, if_true,
        Option.bind_some]
      exact congrArg some (plain latest.set _)
    · rfl

end Moment

end Delegations

end NameResolution
