import NameResolution.Proofs.Resolution.Duties

/-!
# How host lookups go on

A host lookup runs one race after the other. When a race is closed, there is less left to try: the
name may be asked for as a bare alias, the target of this alias may be looked up, or the next suffix
of the search list takes its turn.

* `HostLookup.Begins`: what is known about a new race.
* `HostLookup.conclude_cases`: all that can come of closing a race.
-/

namespace NameResolution

/-- How many `suffixes` are left to try. -/
def Search.left : Option Search → Nat
  | none => 0
  | some search => search.suffixes.length

/-- How much may follow a race for this `Purpose`, for the same name. -/
def Purpose.rank : Purpose → Nat
  | .addresses => 2
  | .aliasQuestion _ => 1
  | .aliasAddresses => 0

theorem Preference.nodup_types (preference : Preference) : preference.types.Nodup := by
  cases preference <;> decide

namespace HostLookup

/-- What may come of a host `lookup`. -/
def duty (lookup : HostLookup) : Duty :=
  .of (Pass.maxDepth + 2) (Search.left lookup.search) lookup.purpose.rank 0

theorem unstarted_lt_duty (lookup : HostLookup) : Pass.unstarted < lookup.duty :=
  Duty.of_lt_of.mpr (.inl (Nat.lt_succ_self _))

/-- The `lookup` asks whether the name is an alias. -/
def AsksAlias (lookup : HostLookup) : Prop := ∃ failure, lookup.purpose = .aliasQuestion failure

/-- The passes of the `lookup` are for different types, and none of them has been started. -/
def Begins (lookup : HostLookup) : Prop :=
  ∃ types : List RecordType,
    types.Nodup ∧ lookup.race.runs = types.map fun type => (type, .unstarted)

theorem begins_forAddresses (name : Name) (preference : Preference) (purpose : Purpose)
    (search : Option Search) : Begins ⟨.forAddresses name preference, purpose, search⟩ :=
  ⟨_, preference.nodup_types, rfl⟩

/-- If the lookup goes on, then with a new race for the addresses of a name, and fewer than `count`
suffixes are left to try. -/
def Tries (count : Nat) (progress : HostProgress) : Prop :=
  ∀ lookup, progress = .racing lookup →
    lookup.Begins ∧ lookup.purpose = .addresses ∧ Search.left lookup.search < count

theorem yields_tryName (name : Name) (search : Option Search) :
    Session.Yields (tryName name search) (Tries (Search.left search + 1)) := by
  refine Session.yields_get.bind fun session _ => ?_
  dsimp only
  split
  · exact .pure nofun
  · refine .pure fun lookup same => ?_
    obtain rfl := HostProgress.racing.inj same
    exact ⟨begins_forAddresses _ _ _ _, rfl, Nat.lt_succ_self _⟩

theorem yields_tryNext (relative : Name) (lastFailure : Option Failure) (suffixes : List Name) :
    Session.Yields (tryNext relative lastFailure suffixes) (Tries suffixes.length) := by
  induction suffixes generalizing lastFailure with
  | nil => exact .pure nofun
  | cons suffix suffixes ih =>
    unfold tryNext
    split
    · exact yields_tryName _ _
    · exact (ih _).imp fun progress tries lookup same =>
        (tries lookup same).imp_right fun ⟨purpose, fewer⟩ => ⟨purpose, Nat.lt_succ_of_lt fewer⟩

theorem yields_begin (host : String) : Session.Yields (begin host) fun progress =>
    ∀ lookup, progress = .racing lookup → lookup.Begins ∧ lookup.purpose = .addresses := by
  have any {count : Nat} {op : Op Session HostProgress} (yields : Session.Yields op (Tries count)) :
      Session.Yields op fun progress =>
        ∀ lookup, progress = .racing lookup → lookup.Begins ∧ lookup.purpose = .addresses :=
    yields.imp fun progress tries lookup same => (tries lookup same).imp_right And.left
  unfold begin
  split
  · exact .pure nofun
  split
  · exact .pure nofun
  refine Session.yields_settings.bind fun settings _ => ?_
  split
  · exact any (yields_tryName _ _)
  · exact any (yields_tryNext _ _ _)

theorem yields_settle (search : Option Search) (result : Except Failure FoundHosts) :
    Session.Yields (settle search result) (Tries (Search.left search)) := by
  unfold settle
  split
  · split
    · exact .pure nofun
    · exact yields_tryNext _ _ _
  · exact .pure nofun

/-- All that can come of closing the race of a `lookup`: an end, a new race with less left to try,
or the question whether the name is an alias, which a call asks only once. -/
inductive Concluded (lookup : HostLookup) (before after : Session) : HostProgress → Prop
  | finished {result : Except Failure FoundHosts} (same : before.SameChances after) :
    Concluded lookup before after (.finished result)
  | tries {next : HostLookup} (same : before.SameChances after) (begins : next.Begins)
    (smaller : next.duty < lookup.duty) (plain : ¬next.AsksAlias) :
    Concluded lookup before after (.racing next)
  | asks {next : HostLookup} (begins : next.Begins) (smaller : next.duty < lookup.duty)
    (asks : next.AsksAlias) (chased : after.allowance.chased = before.allowance.chased)
    (unused : before.allowance.aliasAsked = false) (used : after.allowance.aliasAsked = true) :
    Concluded lookup before after (.racing next)

theorem concluded_settle {lookup : HostLookup} {result : Except Failure FoundHosts}
    {before after : Session} {progress : HostProgress}
    (ran : settle lookup.search result before = (.ok progress, after)) :
    Concluded lookup before after progress := by
  obtain ⟨same, tries⟩ := yields_settle _ _ _ _ _ ran
  cases progress with
  | finished result => exact .finished same
  | racing next =>
    obtain ⟨begins, purpose, fewer⟩ := tries next rfl
    refine .tries same begins (Duty.of_lt_of.mpr (.inr ⟨rfl, .inl fewer⟩)) ?_
    rintro ⟨failure, asks⟩
    cases purpose.symm.trans asks

theorem concluded_askAlias {lookup : HostLookup} {failure : Failure} {before after : Session}
    {progress : HostProgress} (purpose : lookup.purpose = .addresses)
    (ran : lookup.askAlias failure before = (.ok progress, after)) :
    Concluded lookup before after progress := by
  obtain ⟨session, _, got, ran⟩ := Op.bind_eq_ok.mp ran
  cases got
  by_cases asks : leavesAliasOpen failure ∧ ¬before.allowance.aliasAsked
  · rw [if_pos asks] at ran
    cases ran
    refine .asks ⟨[.cname], by decide, rfl⟩ ?_ ⟨failure, rfl⟩ rfl (by simpa using asks.2) rfl
    refine Duty.of_lt_of.mpr (.inr ⟨rfl, .inr ⟨rfl, .inl ?_⟩⟩)
    rw [purpose]
    exact Nat.lt_succ_self 1
  · rw [if_neg asks] at ran
    exact concluded_settle ran

theorem concluded_followAlias {lookup : HostLookup} {failure : Failure} {before after : Session}
    {progress : HostProgress} (purpose : lookup.AsksAlias)
    (ran : lookup.followAlias failure before = (.ok progress, after)) :
    Concluded lookup before after progress := by
  cases aliased : lookup.race.aliasTarget? with
  | none =>
    rw [followAlias, aliased] at ran
    exact concluded_settle ran
  | some target =>
    rw [followAlias, aliased] at ran
    by_cases circle : (target == lookup.race.name) = true
    · exact concluded_settle (by simpa only [if_pos circle] using ran)
    simp only [if_neg circle] at ran
    obtain ⟨settings, _, got, ran⟩ := Op.bind_eq_ok.mp ran
    cases ran
    refine .tries (Session.yields_settings _ _ _ got).1 (begins_forAddresses _ _ _ _) ?_ ?_
    · obtain ⟨failure, purpose⟩ := purpose
      refine Duty.of_lt_of.mpr (.inr ⟨rfl, .inr ⟨rfl, .inl ?_⟩⟩)
      rw [purpose]
      exact Nat.lt_succ_self 0
    · rintro ⟨failure, asks⟩
      cases asks

theorem conclude_cases {lookup : HostLookup} {before after : Session} {progress : HostProgress}
    (ran : lookup.conclude before = (.ok progress, after)) :
    Concluded lookup before after progress := by
  obtain ⟨_, session, dropped, ran⟩ := Op.bind_eq_ok.mp ran
  have same := (Session.yields_withResolver _ _ _ _ dropped).1
  -- Giving up the passes changes no chance, so what counts is what comes after that.
  have concluded : Concluded lookup session after progress := by
    cases purpose : lookup.purpose with
    | addresses =>
      rw [purpose] at ran
      cases found : lookup.race.addresses with
      | ok hosts =>
        rw [found] at ran
        exact concluded_settle ran
      | error failure =>
        rw [found] at ran
        exact concluded_askAlias purpose ran
    | aliasQuestion failure =>
      rw [purpose] at ran
      exact concluded_followAlias ⟨_, purpose⟩ ran
    | aliasAddresses =>
      rw [purpose] at ran
      exact concluded_settle ran
  cases concluded with
  | finished same' => exact .finished (same.trans same')
  | tries same' begins smaller plain => exact .tries (same.trans same') begins smaller plain
  | asks begins smaller asks chased unused used =>
    exact .asks begins smaller asks (chased.trans same.chased) (same.aliasAsked.symm.trans unused)
      used

theorem Concluded.chased {lookup : HostLookup} {before after : Session} {progress : HostProgress}
    (concluded : Concluded lookup before after progress) :
    after.allowance.chased = before.allowance.chased := by
  cases concluded with
  | finished same => exact same.chased
  | tries same begins smaller plain => exact same.chased
  | asks begins smaller asks chased unused used => exact chased

/-- A `lookup` that goes on has a new race and less left to try. -/
theorem Concluded.begins {lookup next : HostLookup} {before after : Session}
    (concluded : Concluded lookup before after (.racing next)) :
    next.Begins ∧ next.duty < lookup.duty := by
  cases concluded with
  | tries same begins smaller plain => exact ⟨begins, smaller⟩
  | asks begins smaller asks chased unused used => exact ⟨begins, smaller⟩

end HostLookup

end NameResolution
