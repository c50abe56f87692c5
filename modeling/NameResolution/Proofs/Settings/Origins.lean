import NameResolution.Document.Forms
import NameResolution.Proofs.Settings

/-!
# Settings from documents

Settings can also be read from a document, which gives the names of the search list as they are.

* `Settings.Change`: whatever can be done to settings.
* `Settings.Origin`: what settings are made from, with the names that a document gives for the
  search list. `Settings.Origin.search_eq`: the search list consists of these names at first.
* `Settings.Origin.searchesBelow`: names that are added later are absolute.
-/

namespace NameResolution

/-! ## Members of objects -/

namespace Form

variable {α β γ : Type}

/-- The `member` leaves a part of the value as it is. -/
def Member.Spares (part : α → β) (member : Member α) : Prop :=
  ∀ value document after, member.update? value document = some after → part after = part value

theorem spares_member {part : α → β} (name : String) (form : Form γ) (get : α → γ)
    {set : α → γ → α} (same : ∀ value given, part (set value given) = part value) :
    (member name form get set).Spares part := by
  intro value document after updated
  obtain ⟨given, -, rfl⟩ := Option.map_eq_some_iff.mp updated
  exact same value given

/-- Takes over a `member` of an object if it is there. -/
def takeMember (given : List (String × Document)) (value : α) (member : Member α) : Option α :=
  match Document.member? given member.name with
  | some document => member.update? value document
  | none => some value

theorem Member.Spares.takeMember {part : α → β} {member : Member α} (spares : member.Spares part)
    {given : List (String × Document)} {value after : α}
    (taken : takeMember given value member = some after) : part after = part value := by
  unfold Form.takeMember at taken
  split at taken
  · exact spares _ _ _ taken
  · exact congrArg part (Option.some.inj taken).symm

theorem part_takeMembers {part : α → β} {members : List (Member α)}
    (spare : ∀ member ∈ members, member.Spares part) {given : List (String × Document)}
    {value after : α} (taken : members.foldlM (takeMember given) value = some after) :
    part after = part value := by
  induction members generalizing value with
  | nil => exact congrArg part (Option.some.inj taken).symm
  | cons member members ih =>
    rw [List.forall_mem_cons] at spare
    rw [List.foldlM_cons] at taken
    obtain ⟨middle, first, rest⟩ := Option.bind_eq_some_iff.mp taken
    rw [ih spare.2 rest, spare.1.takeMember first]

theorem part_updateInOrder? {part : α → β} {members : List (Member α)}
    (spare : ∀ member ∈ members, member.Spares part) {items : List Document} {value after : α}
    (taken : updateInOrder? members value items = some after) : part after = part value := by
  induction members generalizing value items with
  | nil =>
    cases items with
    | nil => exact congrArg part (Option.some.inj taken).symm
    | cons item items => cases taken
  | cons member members ih =>
    rw [List.forall_mem_cons] at spare
    cases items with
    | nil => exact congrArg part (Option.some.inj taken).symm
    | cons item items =>
      obtain ⟨middle, first, rest⟩ := Option.bind_eq_some_iff.mp taken
      rw [ih spare.2 rest, spare.1 _ _ _ first]

end Form

namespace Settings

/-! ## Documents -/

/-- The names in a list of a `Document`. -/
def namesIn : Option Document → List Name
  | some (.list items) => items.filterMap Name.form.read?
  | _ => []

/-- The names that a `Document` gives for the search list. -/
def searchGiven : Document → List Name
  | .object members => namesIn (Document.member? members "search")
  | .list items => namesIn items[1]?
  | _ => []

theorem namesIn_of_read? {document : Document} {names : List Name}
    (read : (Form.list Name.form).read? document = some names) :
    namesIn (some document) = names := by
  cases document with
  | list items =>
    replace read : items.mapM Name.form.read? = some names := read
    show items.filterMap Name.form.read? = names
    induction items generalizing names with
    | nil => exact Option.some.inj read
    | cons item items ih =>
      rw [List.mapM_cons] at read
      obtain ⟨name, first, rest⟩ := Option.bind_eq_some_iff.mp read
      obtain ⟨others, all, ends⟩ := Option.bind_eq_some_iff.mp rest
      obtain rfl := Option.some.inj ends
      rw [List.filterMap_cons_some first, ih all]
  | _ => cases read

/-- The `Member` for the search list. -/
def searchMember : Form.Member Settings :=
  Form.member "search" (.list Name.form) search fun settings value =>
    { settings with search := value }

theorem search_of_update? {settings after : Settings} {document : Document}
    (updated : searchMember.update? settings document = some after) :
    after.search = namesIn (some document) := by
  obtain ⟨names, read, rfl⟩ := Option.map_eq_some_iff.mp updated
  exact (namesIn_of_read? read).symm

/-- Of the members of an `object`, only the one for the search list gives a search list. -/
theorem search_of_takeMembers {first : Form.Member Settings} {others : List (Form.Member Settings)}
    (firstSpares : first.Spares search) (otherSpare : ∀ member ∈ others, member.Spares search)
    {given : List (String × Document)} {settings : Settings}
    (read : (first :: searchMember :: others).foldlM (Form.takeMember given) new =
      some settings) : settings.search = searchGiven (.object given) := by
  rw [List.foldlM_cons] at read
  obtain ⟨begun, one, read⟩ := Option.bind_eq_some_iff.mp read
  rw [List.foldlM_cons] at read
  obtain ⟨middle, two, rest⟩ := Option.bind_eq_some_iff.mp read
  rw [Form.part_takeMembers otherSpare rest]
  unfold Form.takeMember at two
  show middle.search = namesIn (Document.member? given searchMember.name)
  split at two
  · rename_i document found
    rw [search_of_update? two, found]
  · rename_i missing
    obtain rfl := Option.some.inj two
    rw [missing, firstSpares.takeMember one]
    rfl

/-- Of the `items` of a list, only the second one gives a search list. -/
theorem search_of_updateInOrder? {first : Form.Member Settings}
    {others : List (Form.Member Settings)} (firstSpares : first.Spares search)
    (otherSpare : ∀ member ∈ others, member.Spares search) {items : List Document}
    {settings : Settings} (read : Form.updateInOrder? (first :: searchMember :: others) new items =
      some settings) : settings.search = searchGiven (.list items) := by
  match items with
  | [] => exact Option.some.inj read ▸ rfl
  | [item] =>
    obtain ⟨begun, one, read⟩ := Option.bind_eq_some_iff.mp read
    obtain rfl := Option.some.inj read
    exact firstSpares _ _ _ one
  | item :: second :: rest =>
    obtain ⟨begun, one, read⟩ := Option.bind_eq_some_iff.mp read
    obtain ⟨middle, two, rest⟩ := Option.bind_eq_some_iff.mp read
    rw [Form.part_updateInOrder? otherSpare rest, search_of_update? two]
    rfl

/-- What a `document` gives is taken as the search list as it is. -/
theorem search_of_read? {document : Document} {settings : Settings}
    (read : form.read? document = some settings) : settings.search = searchGiven document := by
  obtain ⟨first, others, members, firstSpares, otherSpare⟩ : ∃ first others,
      form = .object new (first :: searchMember :: others) ∧ first.Spares search ∧
        ∀ member ∈ others, member.Spares search := by
    refine ⟨_, _, rfl, Form.spares_member _ _ _ fun _ _ => rfl, ?_⟩
    simp only [List.forall_mem_cons, List.not_mem_nil, false_implies, implies_true, and_true]
    exact ⟨Form.spares_member _ _ _ fun _ _ => rfl, Form.spares_member _ _ _ fun _ _ => rfl,
      Form.spares_member _ _ _ fun _ _ => rfl, Form.spares_member _ _ _ fun _ _ => rfl,
      Form.spares_member _ _ _ fun _ _ => rfl, Form.spares_member _ _ _ fun _ _ => rfl,
      Form.spares_member _ _ _ fun _ _ => rfl⟩
  rw [members] at read
  cases document with
  | object given => exact search_of_takeMembers firstSpares otherSpare read
  | list items => exact search_of_updateInOrder? firstSpares otherSpare read
  | _ => cases read

/-! ## Changes -/

/-- What can be done to `Settings`: files are read into them, they are completed, and values are set
one by one. -/
inductive Change
  | readConf (octets : List UInt8)
  | finalize
  | addServer (server : Endpoint)
  | pushSearch (name : Name)
  | setNdots (value : Nat)
  | setTimeout (value : Duration)
  | setAttempts (value : Nat)
  | setBudget (value : Nat)
  | setRotate (value : Bool)
  | setPreference (value : Preference)
  | setPort (value : UInt16)

/-- The `settings` after a `Change`. -/
def changedBy (settings : Settings) : Change → Settings
  | .readConf octets => (settings.readConf octets).2
  | .finalize => settings.finalize
  | .addServer server => settings.addServer server
  | .pushSearch name => settings.pushSearch name
  | .setNdots value => settings.setNdots value
  | .setTimeout value => settings.setTimeout value
  | .setAttempts value => settings.setAttempts value
  | .setBudget value => settings.setBudget value
  | .setRotate value => { settings with rotate := value }
  | .setPreference value => { settings with preference := value }
  | .setPort value => { settings with port := value }

/-- What `settings` are made from: from nothing, or from a `document`. The names are those that it
gives for the search list. -/
inductive Origin : Settings → List Name → Prop
  | new : Origin new []
  | document {document : Document} {settings : Settings}
    (read : form.read? document = some settings) : Origin settings (searchGiven document)

/-- At first the search list consists of the names that are given. -/
theorem Origin.search_eq {settings : Settings} {given : List Name}
    (origin : Origin settings given) : settings.search = given := by
  cases origin with
  | new => rfl
  | document read => exact search_of_read? read

/-- All names of the search list are absolute or among the names that were `given`. -/
def SearchesBelow (given : List Name) (settings : Settings) : Prop :=
  ∀ name ∈ settings.search, name.absolute = true ∨ name ∈ given

theorem keptByLines_searchesBelow (given : List Name) : KeptByLines (SearchesBelow given) where
  addServer := fun _ below => below
  clearSearch := fun _ _ member => nomatch member
  pushSearch := fun _ below => List.forall_mem_append.mpr
    ⟨below, List.forall_mem_singleton.mpr (.inl rfl)⟩
  applyOption := fun option below => by rwa [SearchesBelow, search_applyOption]

theorem SearchesBelow.changedBy {given : List Name} {settings : Settings}
    (below : settings.SearchesBelow given) (change : Change) :
    (settings.changedBy change).SearchesBelow given := by
  cases change with
  | readConf octets => exact Keeps.readLines (keptByLines_searchesBelow given) _ _ below
  | pushSearch name => exact (keptByLines_searchesBelow given).pushSearch name below
  | finalize =>
    intro name member
    unfold Settings.changedBy Settings.finalize at member
    dsimp only at member
    split at member
    · exact .inl (List.mem_singleton.mp member ▸ rfl)
    · exact below name member
  | _ => exact below

/-- Whatever is done to `Settings`, the names of the search list are absolute or among those that
were given. -/
theorem Origin.searchesBelow {start : Settings} {given : List Name} (origin : Origin start given)
    (changes : List Change) : (changes.foldl changedBy start).SearchesBelow given := by
  have begun : start.SearchesBelow given := fun name member => .inr (origin.search_eq ▸ member)
  clear origin
  induction changes generalizing start with
  | nil => exact begun
  | cons change changes ih => exact ih (begun.changedBy change)

end Settings

end NameResolution
