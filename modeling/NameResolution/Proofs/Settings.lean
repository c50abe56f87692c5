import NameResolution.Settings.ResolvConf

/-!
# How settings come about

Settings are read from files, completed, and set one by one.

* `Preference.isAddress_of_mem`: the types that are looked up along with a preference.
* `Settings.Keeps.readLines`: what is true of settings stays true while a file is read, if whatever
  a line changes keeps it so.
* `Settings.Built`: all the ways in which settings come about.
* `Settings.Built.searchesAbsolute`: relative names are then searched for below absolute ones only.
-/

namespace NameResolution

/-- Whatever is preferred, the `types` that are looked up are types of addresses. -/
theorem Preference.isAddress_of_mem {preference : Preference} {type : RecordType}
    (member : type ∈ preference.types) : type.IsAddress := by
  revert type
  cases preference <;> decide

namespace Settings

/-- Settings that are made by reading files and by setting values one after the other. -/
inductive Built : Settings → Prop
  | new : Built new
  | readConf {settings : Settings} (built : Built settings) (octets : List UInt8) :
    Built (settings.readConf octets).2
  | finalize {settings : Settings} (built : Built settings) : Built settings.finalize
  | addServer {settings : Settings} (built : Built settings) (server : Endpoint) :
    Built (settings.addServer server)
  | pushSearch {settings : Settings} (built : Built settings) (name : Name) :
    Built (settings.pushSearch name)
  | setNdots {settings : Settings} (built : Built settings) (value : Nat) :
    Built (settings.setNdots value)
  | setTimeout {settings : Settings} (built : Built settings) (value : Duration) :
    Built (settings.setTimeout value)
  | setAttempts {settings : Settings} (built : Built settings) (value : Nat) :
    Built (settings.setAttempts value)
  | setBudget {settings : Settings} (built : Built settings) (value : Nat) :
    Built (settings.setBudget value)
  | rotate {settings : Settings} (built : Built settings) (value : Bool) :
    Built { settings with rotate := value }
  | preference {settings : Settings} (built : Built settings) (value : Preference) :
    Built { settings with preference := value }
  | port {settings : Settings} (built : Built settings) (value : UInt16) :
    Built { settings with port := value }

/-- All names of the search list of the `settings` are absolute. -/
def SearchesAbsolute (settings : Settings) : Prop :=
  ∀ name ∈ settings.search, name.absolute = true

theorem SearchesAbsolute.pushSearch {settings : Settings} (absolute : settings.SearchesAbsolute)
    (name : Name) : (settings.pushSearch name).SearchesAbsolute :=
  List.forall_mem_append.mpr ⟨absolute, List.forall_mem_singleton.mpr rfl⟩

theorem searchesAbsolute_nil (settings : Settings) :
    SearchesAbsolute { settings with search := [] } := fun _ member => nomatch member

theorem search_applyOption (settings : Settings) (option : String × Option Nat) :
    (settings.applyOption option).search = settings.search := by
  unfold applyOption
  split <;> rfl

/-- What is true of settings stays true while `reader` reads. -/
abbrev Keeps (holds : Settings → Prop) {α : Type} (reader : ConfReader α) : Prop :=
  ∀ settings : Settings, holds settings → holds (reader settings).2

/-- What is true of `Settings` stays true whatever a line changes. -/
structure KeptByLines (holds : Settings → Prop) : Prop where
  addServer : ∀ {settings : Settings} (server : Endpoint),
    holds settings → holds (settings.addServer server)
  clearSearch : ∀ {settings : Settings}, holds settings → holds { settings with search := [] }
  pushSearch : ∀ {settings : Settings} (name : Name),
    holds settings → holds (settings.pushSearch name)
  applyOption : ∀ {settings : Settings} (option : String × Option Nat),
    holds settings → holds (settings.applyOption option)

namespace Keeps

variable {holds : Settings → Prop} {α β : Type}

theorem bind {reader : ConfReader α} {next : α → ConfReader β} (first : Keeps holds reader)
    (rest : ∀ value, Keeps holds (next value)) : Keeps holds (reader >>= next) := by
  intro settings true
  have kept := first settings true
  show holds (ExceptT.bindCont next (reader settings).1 (reader settings).2).2
  rcases read : reader settings with ⟨_ | value, middle⟩
  · rwa [read] at kept
  · rw [read] at kept
    exact rest value middle kept

theorem pure (value : α) : Keeps holds (Pure.pure value) := fun _ true => true

theorem throw (error : FileError) : Keeps holds (MonadExcept.throw error : ConfReader α) :=
  fun _ true => true

theorem modify {change : Settings → Settings}
    (keeps : ∀ settings : Settings, holds settings → holds (change settings)) :
    Keeps holds (modify change : ConfReader Unit) := keeps

theorem readName (word : String) : Keeps holds (readName word) := by
  unfold Settings.readName
  split
  · exact pure _
  · exact throw _

theorem onlyWord {change : String → ConfReader Unit} (each : ∀ word, Keeps holds (change word))
    (words : List String) : Keeps holds (onlyWord change words) := by
  cases words with
  | nil => exact throw _
  | cons word rest =>
    refine bind (each word) fun _ => ?_
    split
    · exact throw _
    · exact pure _

theorem readArgument (word : String) : Keeps holds (readArgument word) := by
  unfold Settings.readArgument
  dsimp only
  split
  · exact pure _
  · split
    · exact pure _
    · exact throw _

variable (kept : KeptByLines holds)
include kept

theorem readServer (word : String) : Keeps holds (readServer word) := by
  unfold Settings.readServer
  split
  · exact modify fun _ => kept.addServer _
  · exact throw _

theorem readDomain (word : String) : Keeps holds (readDomain word) :=
  bind (readName word) fun name => modify fun _ true => kept.pushSearch name (kept.clearSearch true)

theorem readSearch (words : List String) : Keeps holds (readSearch words) := by
  induction words with
  | nil => exact pure _
  | cons word rest ih =>
    exact bind (readName word) fun name => bind (modify fun _ => kept.pushSearch name) fun _ => ih

theorem readOptions (words : List String) : Keeps holds (readOptions words) := by
  induction words with
  | nil => exact pure _
  | cons word rest ih =>
    exact bind (readArgument word) fun option =>
      bind (modify fun _ => kept.applyOption option) fun _ => ih

theorem readLine (line : String) : Keeps holds (readLine line) := by
  unfold Settings.readLine
  split
  · exact pure _
  · exact pure _
  · split
    · exact pure _
    · exact onlyWord (readServer kept) _
    · exact onlyWord (readDomain kept) _
    · exact bind (modify fun _ => kept.clearSearch) fun _ => readSearch kept _
    · exact pure _
    · exact readOptions kept _
    · exact throw _

theorem readLines (lines : List (Option String)) : Keeps holds (readLines lines) := by
  induction lines with
  | nil => exact pure _
  | cons line lines ih =>
    cases line with
    | some line => exact bind (readLine kept line) fun _ => ih
    | none => exact throw _

end Keeps

theorem keptByLines_searchesAbsolute : KeptByLines SearchesAbsolute where
  addServer := fun _ absolute => absolute
  clearSearch := fun {settings} _ => searchesAbsolute_nil settings
  pushSearch := fun name absolute => absolute.pushSearch name
  applyOption := fun option absolute => by rwa [SearchesAbsolute, search_applyOption]

/-- However `settings` come about, names are searched for below absolute names only. -/
theorem Built.searchesAbsolute {settings : Settings} (built : Built settings) :
    settings.SearchesAbsolute := by
  induction built with
  | new => exact fun _ member => nomatch member
  | readConf built octets ih => exact Keeps.readLines keptByLines_searchesAbsolute _ _ ih
  | @finalize settings built ih =>
    intro name member
    unfold Settings.finalize at member
    dsimp only at member
    split at member
    · exact List.mem_singleton.mp member ▸ rfl
    · exact ih name member
  | pushSearch built name ih => exact ih.pushSearch name
  | addServer | setNdots | setTimeout | setAttempts | setBudget | rotate | preference | port =>
    assumption

end Settings

end NameResolution
