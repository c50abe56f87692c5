import NameResolution.Proofs.Resolution.Systems
import NameResolution.Proofs.Settings.Origins

/-!
# Names that hosts are looked up as

A relative name is looked up below one name of the search list after the other. These names are
absolute, as long as no document has given a relative one.

* `HostLookup.candidates`: the names that a host is looked up as. `HostLookup.triesFirst_begin`,
  `HostLookup.triesFirst_settle`: a lookup tries them in this order.
* `System.searches_absolutely`: whatever was done to the settings, they are absolute, and no lookup
  is refused for a relative name, unless a document has given a relative name.
-/

namespace NameResolution

namespace HostLookup

/-- A relative name below some `suffixes`, but for those that make it too long. -/
def namesBelow (relative : Name) (suffixes : List Name) : List Name :=
  suffixes.filterMap fun suffix => (relative.append? suffix).toOption

/-- The names that a `host` is looked up as, until one of them is found. -/
def candidates (settings : Settings) (host : String) : List Name :=
  match Address.ofText? host, Name.ofText? host with
  | none, .ok name =>
    if name.absolute ∨ settings.ndots ≤ dots name then [name.toAbsolute]
    else namesBelow name (searchList settings)
  | _, _ => []

/-- The names that a `Search` has left to be tried. -/
def namesLeft : Option Search → List Name
  | some search => namesBelow search.relative search.suffixes
  | none => []

/-- The operation tries the first of some names and leaves the others; without any `name` it
fails. -/
inductive TriesFirst : List Name → Op Session HostProgress → Prop
  | none (failure : Failure) : TriesFirst [] (pure (.finished (.error failure)))
  | name (name : Name) (search : Option Search) :
    TriesFirst (name :: namesLeft search) (tryName name search)

theorem triesFirst_tryNext (relative : Name) (lastFailure : Option Failure)
    (suffixes : List Name) :
    TriesFirst (namesBelow relative suffixes) (tryNext relative lastFailure suffixes) := by
  induction suffixes generalizing lastFailure with
  | nil => exact .none _
  | cons suffix suffixes ih =>
    unfold tryNext namesBelow
    cases appended : relative.append? suffix with
    | ok name =>
      rw [List.filterMap_cons_some (by rw [appended]; rfl)]
      exact .name name (some ⟨relative, suffixes, lastFailure⟩)
    | error error =>
      rw [List.filterMap_cons_none (by rw [appended]; rfl)]
      exact ih _

/-- A lookup of a `host` begins with the first of its `candidates`. -/
theorem triesFirst_begin {host : String} (unaddressed : Address.ofText? host = none)
    (session : Session) : ∃ op, begin host session = op session ∧
      TriesFirst (candidates session.resolver.settings host) op := by
  unfold begin candidates
  rw [unaddressed]
  cases Name.ofText? host with
  | error error => exact ⟨_, rfl, .none _⟩
  | ok name =>
    dsimp only
    have read : Session.settings session = (.ok session.resolver.settings, session) := rfl
    rw [Op.bind_apply, read]
    dsimp only
    split
    · exact ⟨_, rfl, .name name.toAbsolute none⟩
    · exact ⟨_, rfl, triesFirst_tryNext _ _ _⟩

/-- After a `failure` that is not final, a lookup goes on with the first of the names left. -/
theorem triesFirst_settle (search : Search) {failure : Failure}
    (goesOn : Race.isFinal failure = false) :
    TriesFirst (namesLeft (some search)) (settle (some search) (.error failure)) := by
  unfold settle
  dsimp only
  rw [goesOn]
  exact triesFirst_tryNext search.relative (some failure) search.suffixes

theorem absolute_namesBelow {relative : Name} {suffixes : List Name}
    (absolute : ∀ suffix ∈ suffixes, suffix.absolute = true) :
    ∀ name ∈ namesBelow relative suffixes, name.absolute = true := by
  intro name member
  obtain ⟨suffix, among, appended⟩ := List.mem_filterMap.mp member
  cases result : relative.append? suffix with
  | ok whole =>
    rw [result] at appended
    exact absolute_append? (absolute suffix among) (Option.some.inj appended ▸ result)
  | error error =>
    rw [result] at appended
    cases appended

/-- Below absolute names a `host` is looked up as absolute names only. -/
theorem absolute_candidates {settings : Settings} (absolute : settings.SearchesAbsolute)
    (host : String) : ∀ name ∈ candidates settings host, name.absolute = true := by
  have suffixes : ∀ suffix ∈ searchList settings, suffix.absolute = true := by
    intro suffix member
    unfold searchList at member
    split at member
    · exact List.mem_singleton.mp member ▸ rfl
    · exact absolute suffix member
  intro name member
  unfold candidates at member
  split at member
  · split at member
    · exact List.mem_singleton.mp member ▸ rfl
    · exact absolute_namesBelow suffixes name member
  · cases member

theorem Sound.namesLeft {lookup : HostLookup} (sound : lookup.Sound) :
    ∀ name ∈ namesLeft lookup.search, name.absolute = true := by
  unfold HostLookup.namesLeft
  split
  · rename_i search remains
    exact absolute_namesBelow (sound.search search remains)
  · exact fun _ member => nomatch member

end HostLookup

namespace System

/-- Whatever was done to settings by `changes`, and whatever they were made from: a relative name in
their search list was `given` by the document they were read from. If no relative name was given, the
`candidates` of a host are absolute names only; and then, whatever happens and wherever the searches
for IDs start, no operation is ever refused, and all names that lookups try and leave to be tried
are absolute. A document may also ask for so many attempts that `Rota.rounds` wraps around: turns
are missing then, but no name is a different one. -/
theorem searches_absolutely {start : Settings} {given : List Name}
    (origin : Settings.Origin start given) (changes : List Settings.Change) :
    (∀ name ∈ (changes.foldl Settings.changedBy start).search,
      name.absolute = true ∨ name ∈ given) ∧
    ((∀ name ∈ given, name.absolute = true) →
      (∀ host, ∀ name ∈ HostLookup.candidates (changes.foldl Settings.changedBy start) host,
        name.absolute = true) ∧
      ∀ hosts hook limits starts happenings,
        duration happenings + 0xFFFFFFFF * Duration.second ≤ Duration.longest.nanos →
        ∃ system, run happenings
            (System.start (changes.foldl Settings.changedBy start) hosts hook limits starts) =
          (.ok (), system) ∧
          ∀ call ∈ system.calls, ∀ lookup, call.activity = .racing lookup →
            lookup.race.name.absolute = true ∧
            ∀ name ∈ HostLookup.namesLeft lookup.search, name.absolute = true) := by
  have below := origin.searchesBelow changes
  refine ⟨below, fun absolutely => ?_⟩
  have absolute : (changes.foldl Settings.changedBy start).SearchesAbsolute :=
    fun name member => (below name member).elim id (absolutely name)
  refine ⟨HostLookup.absolute_candidates absolute, fun hosts hook limits starts happenings clock => ?_⟩
  obtain ⟨now, system, ran, kept⟩ := run_sound_start absolute hosts hook limits starts clock
  refine ⟨system, ran, fun call among lookup racing => ?_⟩
  have sound := kept.calls call among
  rw [Call.Sound, racing] at sound
  have sound : lookup.Sound := sound
  exact ⟨sound.race.name, sound.namesLeft⟩

/-- A `Document` with a search list of one `name`. -/
def searchDocument (name : String) : Document := .object [("search", .list [.text name])]

/-- The `Settings` that are read from it. -/
def searchSettings (name : String) : Settings :=
  (Settings.form.read? (searchDocument name)).getD .new

/-- The label `localhost`, as a name of its own. -/
def localDomain (absolute : Bool) : Name :=
  ⟨[⟨[108, 97, 110], by decide, by decide⟩], absolute, by decide⟩

/-- A `host` is requested, and the first pass for it begins. -/
def hostRun : List Happening := [.request (.host "host"), .step 0, .step 0]

theorem searches_absolutely_local :
    Settings.Origin (searchSettings "lan.") [localDomain true] ∧
    (∀ name ∈ [localDomain true], name.absolute = true) ∧
    duration hostRun + 0xFFFFFFFF * Duration.second ≤ Duration.longest.nanos ∧
    (HostLookup.candidates (searchSettings "lan.").finalize "host").map Name.toText =
      ["host.lan."] ∧
    ∃ system, run hostRun (System.start (searchSettings "lan.").finalize .empty .default .default) =
      (.ok (), system) := by
  have read : Settings.form.read? (searchDocument "lan.") = some (searchSettings "lan.") := by
    decide +kernel
  have origin : Settings.Origin (searchSettings "lan.") [localDomain true] := .document read
  have absolute : ∀ name ∈ [localDomain true], name.absolute = true := by decide
  have clock : duration hostRun + 0xFFFFFFFF * Duration.second ≤ Duration.longest.nanos := by decide
  obtain ⟨-, runs⟩ := (searches_absolutely origin [.finalize]).2 absolute
  obtain ⟨system, ran, -⟩ := runs .empty .default .default (fun _ => 0) hostRun clock
  exact ⟨origin, absolute, clock, by decide +kernel, system, ran⟩

/-- A document can give a relative `name`. Then the name that a `host` is looked up as is relative,
and the lookup is refused. -/
theorem relative_candidate_refused :
    Settings.Origin (searchSettings "lan") [localDomain false] ∧
    (searchSettings "lan").finalize.search = [localDomain false] ∧
    (HostLookup.candidates (searchSettings "lan").finalize "host").map Name.toText =
      ["host.lan"] ∧
    (run hostRun (System.start (searchSettings "lan").finalize .empty .default
      .default)).1.mapError Misuse.message = .error "relative name host.lan in cache" := by
  have read : Settings.form.read? (searchDocument "lan") = some (searchSettings "lan") := by
    decide +kernel
  exact ⟨.document read, by decide +kernel, by decide +kernel, by decide +kernel⟩

end System

end NameResolution
