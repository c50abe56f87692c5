import NameResolution.Proofs.Addresses
import NameResolution.Proofs.Codec.Presentation
import NameResolution.Proofs.Settings

/-!
# Settings written as files

What was read from files can be written as one file, and that file is read without a fault.

* `Settings.FromFiles`: settings that come from files and are completed.
* `Settings.FromFiles.sayable`: a file can say the options of such settings.
* `Settings.toConf_eq`: settings are written in lines of words.
* `Settings.readConf_toConf`: these lines are read as the settings again, but for the scopes of
  servers at the usual port, which are not written.
-/

namespace NameResolution

namespace Endpoint

/-- The `scope` that an `Endpoint` is bound to. -/
def scope : Endpoint → UInt32
  | v4 _ _ => 0
  | v6 _ _ scope => scope

/-- An `Endpoint` as it is written for a `server`: without a scope at the usual port. -/
def asWritten (server : Endpoint) : Endpoint :=
  if server.port = Settings.serverPort then .ofAddress server.address Settings.serverPort
  else server

theorem asWritten_eq_iff {server : Endpoint} :
    server.asWritten = server ↔ (server.port = Settings.serverPort → server.scope = 0) := by
  unfold asWritten
  split
  · rename_i usual
    cases server with
    | v4 address port =>
      obtain rfl : port = Settings.serverPort := usual
      exact iff_of_true rfl fun _ => rfl
    | v6 address port scope =>
      obtain rfl : port = Settings.serverPort := usual
      have same : v6 address Settings.serverPort 0 = v6 address Settings.serverPort scope ↔
          scope = 0 := by simp [eq_comm]
      exact same.trans ⟨fun none _ => none, fun none => none rfl⟩
  · rename_i other
    exact iff_of_true rfl fun usual => absurd usual other

end Endpoint

/-! ## Limits -/

/-- A `value` within the `limits` stays as it is. -/
theorem Limits.clamp_clamp (limits : Limits Nat) (value : Nat) :
    limits.clamp (limits.clamp value) = limits.clamp value := by
  simp only [clamp]
  omega

namespace Settings

/-- A time to wait that is given in `seconds` is the same when its whole seconds are given; in place
of no time at all stands the least one, which has no whole second. -/
theorem clamp_seconds (seconds : Nat) :
    timeoutLimits.clamp (.ofSeconds (timeoutLimits.clamp (.ofSeconds seconds)).seconds) =
      timeoutLimits.clamp (.ofSeconds seconds) := by
  -- Up to the greatest value each number of seconds is tried; all others become this value.
  have all : ∀ seconds < 61, timeoutLimits.clamp (.ofSeconds
      (timeoutLimits.clamp (.ofSeconds seconds)).seconds) =
        timeoutLimits.clamp (.ofSeconds seconds) := by decide
  by_cases few : seconds < 61
  · exact all seconds few
  · have longer : timeoutLimits.greatest ≤ .ofSeconds seconds := by
      show (Duration.ofSeconds 60).nanos ≤ (Duration.ofSeconds seconds).nanos
      have most : (Duration.ofSeconds 60).nanos = 60000000000 := by decide
      rw [most, Duration.ofSeconds, Duration.ofNanos]
      split
      · simp only [Duration.second]
        omega
      · exact Nat.le_of_ble_eq_true rfl
    have cut : min timeoutLimits.greatest (.ofSeconds seconds) = timeoutLimits.greatest :=
      if_pos longer
    have long : timeoutLimits.clamp (.ofSeconds seconds) = .ofSeconds 60 := by
      rw [Limits.clamp, cut]
      decide
    rw [long]
    decide

/-! ## Options -/

/-- A file can say the options of the `settings`. -/
structure Sayable (settings : Settings) : Prop where
  ndots : ndotsLimits.clamp settings.ndots = settings.ndots
  timeout : timeoutLimits.clamp (.ofSeconds settings.timeout.seconds) = settings.timeout
  attempts : attemptsLimits.clamp settings.attempts = settings.attempts
  budget : budgetLimits.clamp settings.budget = settings.budget
  preference : settings.preference = .ipv4Preferred ∨ settings.preference = .ipv6Preferred
  port : settings.port = serverPort

theorem sayable_new : Sayable new where
  ndots := rfl
  timeout := by decide
  attempts := rfl
  budget := rfl
  preference := .inl rfl
  port := rfl

theorem Sayable.applyOption {settings : Settings} (sayable : settings.Sayable)
    (option : String × Option Nat) : (settings.applyOption option).Sayable := by
  unfold Settings.applyOption
  split
  · exact { sayable with ndots := Limits.clamp_clamp _ _ }
  · exact { sayable with timeout := clamp_seconds _ }
  · exact { sayable with attempts := Limits.clamp_clamp _ _ }
  · exact { sayable with }
  · exact { sayable with budget := Limits.clamp_clamp _ _ }
  · exact { sayable with preference := .inr rfl }
  · exact sayable

theorem keptByLines_sayable : KeptByLines Sayable where
  addServer := fun _ sayable => { sayable with }
  clearSearch := fun sayable => { sayable with }
  pushSearch := fun _ sayable => { sayable with }
  applyOption := fun option sayable => sayable.applyOption option

/-- Settings that are read from files, one after the other, and completed. -/
inductive FromFiles : Settings → Prop
  | new : FromFiles new
  | readConf {settings : Settings} (made : FromFiles settings) (octets : List UInt8) :
    FromFiles (settings.readConf octets).2
  | finalize {settings : Settings} (made : FromFiles settings) : FromFiles settings.finalize

theorem FromFiles.built {settings : Settings} (made : FromFiles settings) : Built settings := by
  induction made with
  | new => exact .new
  | readConf made octets ih => exact ih.readConf octets
  | finalize made ih => exact ih.finalize

theorem FromFiles.sayable {settings : Settings} (made : FromFiles settings) :
    settings.Sayable := by
  induction made with
  | new => exact sayable_new
  | readConf made octets ih => exact Keeps.readLines keptByLines_sayable _ _ ih
  | finalize made ih => exact { ih with }

/-! ## Lines and words -/

/-- The words of the lines for the search list. -/
def searchWords : List Name → List (List String)
  | [] => []
  | [name] => [["domain", name.toText]]
  | names => ["search" :: names.map Name.toText]

/-- An option with a number, which is its `value`. -/
def numberWord (name : String) (value : Nat) : String := name ++ ":" ++ toString value

/-- An option with a `number`, if that is not the `default` one. -/
def numberWords {α : Type} [DecidableEq α] (name : String) (value default : α)
    (number : α → Nat) : List String :=
  if value = default then [] else [numberWord name (number value)]

theorem optionWords_eq (settings : Settings) : settings.optionWords =
    numberWords "ndots" settings.ndots ndotsLimits.default id ++
      numberWords "timeout" settings.timeout timeoutLimits.default Duration.seconds ++
      numberWords "attempts" settings.attempts attemptsLimits.default id ++
      (if settings.rotate then ["rotate"] else []) ++
      numberWords "budget" settings.budget budgetLimits.default id ++
      (if settings.preference = .ipv6Preferred then ["inet6"] else []) := by
  have timeout : "timeout" ++ ":" = "timeout:" := by decide
  simp only [numberWords, numberWord, timeout]
  rfl

/-- The words of the line for the options of the `settings`. -/
def optionsWords (settings : Settings) : List (List String) :=
  if settings.optionWords.isEmpty then [] else ["options" :: settings.optionWords]

/-- The words of the lines that `settings` are written in. -/
def confWords (settings : Settings) : List (List String) :=
  settings.servers.map (fun server => ["nameserver", serverText server]) ++
    (searchWords settings.search ++ settings.optionsWords)

/-- The `words` as a line. -/
def lineOf (words : List String) : String := " ".intercalate words

/-- The `lines` of words as a text. -/
def textOf (lines : List (List String)) : String :=
  String.join (lines.map fun words => lineOf words ++ "\n")

theorem textOf_append (lines more : List (List String)) :
    textOf (lines ++ more) = textOf lines ++ textOf more := by
  rw [textOf, List.map_append, String.join_append, textOf, textOf]

theorem textOf_cons (words : List String) (lines : List (List String)) :
    textOf (words :: lines) = lineOf words ++ "\n" ++ textOf lines := by
  rw [textOf, List.map_cons, String.join_cons, textOf]

theorem textOf_singleton (words : List String) : textOf [words] = lineOf words ++ "\n" := by
  simp [textOf]

theorem lineOf_pair (first second : String) : lineOf [first, second] = first ++ " " ++ second := by
  simp [lineOf]

theorem foldl_words (first : String) (words : List String) :
    words.foldl (fun text word => text ++ " " ++ word) first = lineOf (first :: words) := by
  induction words generalizing first with
  | nil => exact String.intercalate_singleton.symm
  | cons word words ih =>
    rw [List.foldl_cons, ih]
    cases words with
    | nil => simp [lineOf, String.append_assoc]
    | cons next words => simp [lineOf, String.intercalate_cons_cons, String.append_assoc]

theorem serverLines_eq (start : String) (servers : List Endpoint) :
    servers.foldl (fun text server => text ++ s!"nameserver {serverText server}\n") start =
      start ++ textOf (servers.map fun server => ["nameserver", serverText server]) := by
  have keyword : "nameserver" ++ " " = "nameserver " := by decide
  induction servers generalizing start with
  | nil => exact String.append_empty.symm
  | cons server servers ih =>
    rw [List.foldl_cons, ih, List.map_cons, textOf_cons, lineOf_pair, keyword, String.append_assoc]
    rfl

theorem searchLines_eq (names : List Name) : searchLines names = textOf (searchWords names) := by
  match names with
  | [] => rfl
  | [name] =>
    have keyword : "domain" ++ " " = "domain " := by decide
    rw [searchWords, textOf_singleton, lineOf_pair, keyword]
    rfl
  | first :: second :: names =>
    have texts : (first :: second :: names).foldl (fun text name => text ++ s!" {name}") "search" =
        ((first :: second :: names).map Name.toText).foldl (fun text word => text ++ " " ++ word)
          "search" := by
      rw [List.foldl_map]
      congr 1
      funext text name
      exact (String.append_assoc ..).symm
    rw [searchLines, texts, foldl_words, searchWords, textOf_singleton]
    all_goals simp

theorem optionsLine_eq (settings : Settings) :
    optionsLine settings.optionWords = textOf settings.optionsWords := by
  rw [optionsLine, optionsWords]
  split
  · rfl
  · rw [foldl_words, textOf_singleton]

/-- Settings are written in lines of words. -/
theorem toConf_eq (settings : Settings) : settings.toConf = textOf settings.confWords := by
  rw [toConf, serverLines_eq, searchLines_eq, optionsLine_eq, confWords, textOf_append,
    textOf_append, String.empty_append, String.append_assoc]

/-! ## All words are words -/

theorem isWord_toText (name : Name) : Text.IsWord name.toText where
  filled := fun empty => by
    have read := Name.ofText?_toText name
    rw [empty] at read
    cases read
  solid := fun c member => Text.isBlank_of_visible (name.visible_toText c member)

theorem isWord_serverText (server : Endpoint) : Text.IsWord (serverText server) := by
  unfold serverText
  split
  · exact server.address.isWord_toText
  · exact server.isWord_toText

theorem toList_numberWord (name : String) (value : Nat) :
    (numberWord name value).toList = name.toList ++ ':' :: Nat.toDigits 10 value := by
  have colon : ":".toList = [':'] := rfl
  have digits : (toString value).toList = Nat.toDigits 10 value := String.toList_ofList
  rw [numberWord, String.toList_append, String.toList_append, digits, colon, List.append_assoc,
    List.singleton_append]

theorem isWord_numberWord {name : String} (solid : Text.Solid name.toList) (value : Nat) :
    Text.IsWord (numberWord name value) := by
  have text := toList_numberWord name value
  refine ⟨fun empty => ?_, ?_⟩
  · rw [empty] at text
    simp at text
  · have colon : Text.isBlank ':' = false := rfl
    rw [text]
    simp [solid, colon, Text.solid_toDigits]

theorem isWord_optionWords (settings : Settings) :
    ∀ word ∈ settings.optionWords, Text.IsWord word := by
  intro word member
  simp only [optionWords_eq, numberWords, List.mem_append, List.mem_ite_nil_left,
    List.mem_ite_nil_right, List.mem_singleton] at member
  rcases member with ((((⟨-, rfl⟩ | ⟨-, rfl⟩) | ⟨-, rfl⟩) | ⟨-, rfl⟩) | ⟨-, rfl⟩) | ⟨-, rfl⟩
  · exact isWord_numberWord (by decide) _
  · exact isWord_numberWord (by decide) _
  · exact isWord_numberWord (by decide) _
  · exact ⟨by decide, by decide⟩
  · exact isWord_numberWord (by decide) _
  · exact ⟨by decide, by decide⟩

theorem isWord_server (server : Endpoint) :
    ∀ word ∈ ["nameserver", serverText server], Text.IsWord word :=
  List.forall_mem_cons.mpr
    ⟨⟨by decide, by decide⟩, List.forall_mem_singleton.mpr (isWord_serverText server)⟩

theorem isWord_names {keyword : String} (word : Text.IsWord keyword) (names : List Name) :
    ∀ word ∈ keyword :: names.map Name.toText, Text.IsWord word :=
  List.forall_mem_cons.mpr ⟨word, List.forall_mem_map.mpr fun name _ => isWord_toText name⟩

theorem isWord_options (settings : Settings) :
    ∀ word ∈ "options" :: settings.optionWords, Text.IsWord word :=
  List.forall_mem_cons.mpr ⟨⟨by decide, by decide⟩, settings.isWord_optionWords⟩

theorem isWord_confWords (settings : Settings) :
    ∀ words ∈ settings.confWords, ∀ word ∈ words, Text.IsWord word := by
  intro words member
  rcases List.mem_append.mp member with first | other
  · obtain ⟨server, -, rfl⟩ := List.mem_map.mp first
    exact isWord_server server
  rcases List.mem_append.mp other with search | options
  · unfold searchWords at search
    split at search
    · cases search
    · obtain rfl := List.mem_singleton.mp search
      exact isWord_names ⟨by decide, by decide⟩ [_]
    · obtain rfl := List.mem_singleton.mp search
      exact isWord_names ⟨by decide, by decide⟩ _
  · unfold optionsWords at options
    split at options
    · cases options
    · obtain rfl := List.mem_singleton.mp options
      exact settings.isWord_options

/-! ## Reading -/

/-- What a line of some words changes in the settings, as a `ConfReader`. -/
def readWords : List String → ConfReader Unit
  | [] => return
  | "nameserver" :: rest => onlyWord readServer rest
  | "domain" :: rest => onlyWord readDomain rest
  | "search" :: rest => do
    modify fun settings => { settings with search := [] }
    readSearch rest
  | "sortlist" :: _ => return
  | "options" :: rest => readOptions rest
  | _ => throw .malformed

/-- A line is read word by word if its first word, the `keyword`, does not make it a comment. -/
theorem readLine_lineOf {keyword : String} {words : List String}
    (each : ∀ word ∈ keyword :: words, Text.IsWord word)
    (plain : keyword.toList.head? ≠ some ';' ∧ keyword.toList.head? ≠ some '#') :
    readLine (lineOf (keyword :: words)) = readWords (keyword :: words) := by
  have first : (lineOf (keyword :: words)).toList.head? = keyword.toList.head? := by
    obtain ⟨c, letters, text⟩ := List.exists_cons_of_ne_nil
      (mt String.toList_eq_nil_iff.mp (each keyword List.mem_cons_self).filled)
    cases words with
    | nil => rw [lineOf, String.intercalate_singleton]
    | cons word words => simp [lineOf, String.intercalate_cons_cons, text]
  rw [← first] at plain
  unfold readLine
  split
  · rename_i text
    rw [text] at plain
    exact absurd rfl plain.1
  · rename_i text
    rw [text] at plain
    exact absurd rfl plain.2
  · rw [lineOf, Text.words_intercalate each]
    rfl

theorem bind_of_ok {α β : Type} {reader : ConfReader α} {next : α → ConfReader β} {value : α}
    {before after : Settings} (read : reader before = (.ok value, after)) :
    (reader >>= next) before = next value after := by
  show ExceptT.bindCont next (reader before).1 (reader before).2 = _
  rw [read]
  rfl

theorem readLines_append (lines more : List (Option String)) :
    readLines (lines ++ more) = (do readLines lines; readLines more) := by
  induction lines with
  | nil => rfl
  | cons line lines ih =>
    cases line with
    | some line => simp only [List.cons_append, readLines, ih, bind_assoc]
    | none => rfl

theorem readOptions_append (words more : List String) :
    readOptions (words ++ more) = (do readOptions words; readOptions more) := by
  induction words with
  | nil => rfl
  | cons word words ih => simp only [List.cons_append, readOptions, ih, bind_assoc]

/-- Takes over `lines` of words. -/
def readTexts (lines : List (List String)) : ConfReader Unit :=
  readLines (lines.map fun words => some (lineOf words))

theorem readTexts_append (lines more : List (List String)) :
    readTexts (lines ++ more) = (do readTexts lines; readTexts more) := by
  rw [readTexts, List.map_append, readLines_append]
  rfl

theorem readTexts_cons {keyword : String} {words : List String} (lines : List (List String))
    (each : ∀ word ∈ keyword :: words, Text.IsWord word)
    (plain : keyword.toList.head? ≠ some ';' ∧ keyword.toList.head? ≠ some '#') :
    readTexts ((keyword :: words) :: lines) =
      (do readWords (keyword :: words); readTexts lines) := by
  rw [← readLine_lineOf each plain]
  rfl

/-! ### Servers -/

theorem serverOfText?_serverText (server : Endpoint) :
    serverOfText? (serverText server) = some server.asWritten := by
  unfold serverText Endpoint.asWritten
  split
  · rw [serverOfText?, Address.ofText?_toText]
  · rw [serverOfText?, Endpoint.address_ofText?_toText, Endpoint.ofText?_toText]

theorem readTexts_servers (servers : List Endpoint) (before : Settings) :
    readTexts (servers.map fun server => ["nameserver", serverText server]) before =
      (.ok (), { before with servers := before.servers ++ servers.map Endpoint.asWritten }) := by
  induction servers generalizing before with
  | nil =>
    rw [List.map_nil, List.map_nil, List.append_nil]
    rfl
  | cons server servers ih =>
    have first : readWords ["nameserver", serverText server] before =
        (.ok (), before.addServer server.asWritten) := by
      simp only [readWords, onlyWord, readServer, serverOfText?_serverText]
      rfl
    rw [List.map_cons, readTexts_cons _ (isWord_server server) (by decide), bind_of_ok first, ih]
    simp [addServer]

/-! ### Names -/

theorem readName_toText (name : Name) (before : Settings) :
    readName name.toText before = (.ok name, before) := by
  rw [readName, Name.ofText?_toText]
  rfl

theorem pushSearch_of_absolute (settings : Settings) {name : Name}
    (absolute : name.absolute = true) :
    settings.pushSearch name = { settings with search := settings.search ++ [name] } := by
  have same : name.toAbsolute = name := by
    rw [Name.toAbsolute, ← absolute]
  rw [pushSearch, same]

theorem readSearch_toText {names : List Name} (absolute : ∀ name ∈ names, name.absolute = true)
    (before : Settings) : readSearch (names.map Name.toText) before =
      (.ok (), { before with search := before.search ++ names }) := by
  induction names generalizing before with
  | nil =>
    rw [List.append_nil]
    rfl
  | cons name names ih =>
    rw [List.forall_mem_cons] at absolute
    have push : (modify (·.pushSearch name) : ConfReader Unit) before =
        (.ok (), { before with search := before.search ++ [name] }) := by
      rw [← pushSearch_of_absolute before absolute.1]
      rfl
    rw [List.map_cons, readSearch, bind_of_ok (readName_toText name before), bind_of_ok push,
      ih absolute.2, List.append_assoc, List.singleton_append]

theorem readTexts_search {names : List Name} (absolute : ∀ name ∈ names, name.absolute = true)
    {before : Settings} (none : before.search = []) :
    readTexts (searchWords names) before = (.ok (), { before with search := names }) := by
  -- There is one line at most, so what is read of the line is read of the file.
  have alone {keyword : String} {words : List String}
      (each : ∀ word ∈ keyword :: words, Text.IsWord word)
      (plain : keyword.toList.head? ≠ some ';' ∧ keyword.toList.head? ≠ some '#') {after : Settings}
      (read : readWords (keyword :: words) before = (.ok (), after)) :
      readTexts [keyword :: words] before = (.ok (), after) := by
    rw [readTexts_cons [] each plain, bind_of_ok read]
    rfl
  -- No line, a line for a domain, or one for a search list, by the number of names.
  match names with
  | [] =>
    exact congrArg (fun search => (Except.ok (), { before with search := search })) none
  | [name] =>
    refine alone (isWord_names ⟨by decide, by decide⟩ [name]) (by decide) ?_
    have push := pushSearch_of_absolute { before with search := [] }
      (absolute name (List.mem_singleton_self name))
    have read : readDomain name.toText before = (.ok (), { before with search := [name] }) := by
      rw [readDomain, bind_of_ok (readName_toText name before)]
      exact congrArg (Except.ok (), ·) push
    rw [readWords, List.map_singleton, onlyWord, bind_of_ok read]
    rfl
  | first :: second :: names =>
    refine alone (isWord_names ⟨by decide, by decide⟩ _) (by decide) ?_
    have clear : (modify fun settings : Settings => { settings with search := [] } :
        ConfReader Unit) before = (.ok (), { before with search := [] }) := rfl
    rw [readWords, bind_of_ok clear, readSearch_toText absolute]
    rfl

/-! ### Options -/

theorem readArgument_numberWord {name : String} (plain : ':' ∉ name.toList) {value : Nat}
    (fits : value ≤ greatestArgument) (before : Settings) :
    readArgument (numberWord name value) before = (.ok (name, some value), before) := by
  have front : (name.toList ++ ':' :: Nat.toDigits 10 value).takeWhile (· ≠ ':') = name.toList := by
    rw [List.takeWhile_append_of_pos fun c member =>
      decide_eq_true (ne_of_mem_of_not_mem member plain)]
    simp
  have rest : (name.toList ++ ':' :: Nat.toDigits 10 value).drop name.toList.length =
      ':' :: Nat.toDigits 10 value := List.drop_left
  unfold readArgument
  rw [toList_numberWord, front, rest]
  dsimp only
  rw [Text.unsigned?_toDigits fits, String.ofList_toList]
  rfl

/-- An option with a `number` is read where it has its `default` `value`. -/
theorem readOptions_numberWords {α : Type} [DecidableEq α] {name : String} {value default : α}
    {number : α → Nat} {before after : Settings} (plain : ':' ∉ name.toList)
    (fits : number value ≤ greatestArgument)
    (applies : before.applyOption (name, some (number value)) = after)
    (usual : value = default → before = after) :
    readOptions (numberWords name value default number) before = (.ok (), after) := by
  unfold numberWords
  split
  · rename_i same
    rw [← usual same]
    rfl
  · rw [readOptions, bind_of_ok (readArgument_numberWord plain fits before), ← applies]
    rfl

/-- An option without a number is read where `on` is not set. -/
theorem readOptions_flag {word : String} {on : Prop} [Decidable on] {before after : Settings}
    (plain : readArgument word before = (.ok (word, none), before))
    (applies : on → before.applyOption (word, none) = after) (same : ¬on → before = after) :
    readOptions (if on then [word] else []) before = (.ok (), after) := by
  split
  · rename_i set
    rw [readOptions, bind_of_ok plain, ← applies set]
    rfl
  · rename_i unset
    rw [← same unset]
    rfl

theorem le_greatestArgument {limits : Limits Nat} {value : Nat}
    (within : limits.clamp value = value)
    (small : max limits.least limits.greatest ≤ greatestArgument) : value ≤ greatestArgument := by
  simp only [Limits.clamp] at within
  omega

theorem readOptions_ndots {before : Settings} (unset : before.ndots = ndotsLimits.default)
    {value : Nat} (within : ndotsLimits.clamp value = value) :
    readOptions (numberWords "ndots" value ndotsLimits.default id) before =
      (.ok (), { before with ndots := value }) :=
  readOptions_numberWords (by decide) (le_greatestArgument within (by decide))
    (congrArg (fun ndots => { before with ndots }) within) fun usual => by rw [usual, ← unset]

theorem readOptions_timeout {before : Settings} (unset : before.timeout = timeoutLimits.default)
    {value : Duration} (within : timeoutLimits.clamp (.ofSeconds value.seconds) = value) :
    readOptions (numberWords "timeout" value timeoutLimits.default Duration.seconds) before =
      (.ok (), { before with timeout := value }) :=
  have seconds : value.seconds ≤ greatestArgument :=
    Nat.le_of_lt_succ (Nat.div_lt_of_lt_mul (Nat.mul_comm .. ▸ value.bounded))
  readOptions_numberWords (by decide) seconds
    (congrArg (fun timeout => { before with timeout }) within) fun usual => by rw [usual, ← unset]

theorem readOptions_attempts {before : Settings}
    (unset : before.attempts = attemptsLimits.default) {value : Nat}
    (within : attemptsLimits.clamp value = value) :
    readOptions (numberWords "attempts" value attemptsLimits.default id) before =
      (.ok (), { before with attempts := value }) :=
  readOptions_numberWords (by decide) (le_greatestArgument within (by decide))
    (congrArg (fun attempts => { before with attempts }) within) fun usual => by
      rw [usual, ← unset]

theorem readOptions_budget {before : Settings} (unset : before.budget = budgetLimits.default)
    {value : Nat} (within : budgetLimits.clamp value = value) :
    readOptions (numberWords "budget" value budgetLimits.default id) before =
      (.ok (), { before with budget := value }) :=
  readOptions_numberWords (by decide) (le_greatestArgument within (by decide))
    (congrArg (fun budget => { before with budget }) within) fun usual => by rw [usual, ← unset]

theorem readOptions_rotate {before : Settings} (unset : before.rotate = false) (value : Bool) :
    readOptions (if value then ["rotate"] else []) before =
      (.ok (), { before with rotate := value }) :=
  readOptions_flag rfl (fun on => by rw [on]; rfl)
    fun off => by rw [Bool.not_eq_true] at off; rw [off, ← unset]

theorem readOptions_inet6 {before : Settings} (unset : before.preference = .ipv4Preferred)
    {value : Preference} (known : value = .ipv4Preferred ∨ value = .ipv6Preferred) :
    readOptions (if value = .ipv6Preferred then ["inet6"] else []) before =
      (.ok (), { before with preference := value }) :=
  readOptions_flag rfl (fun on => by rw [on]; rfl)
    fun off => by rw [known.resolve_right off, ← unset]

/-- The options of `settings` are read as these options where nothing was set before. -/
theorem readOptions_optionWords {settings : Settings} (sayable : settings.Sayable)
    (servers : List Endpoint) (search : List Name) :
    readOptions settings.optionWords { new with servers := servers, search := search } =
      (.ok (), { settings with servers := servers, search := search }) := by
  simp only [optionWords_eq, readOptions_append, bind_assoc]
  rw [bind_of_ok (readOptions_ndots rfl sayable.ndots),
    bind_of_ok (readOptions_timeout rfl sayable.timeout),
    bind_of_ok (readOptions_attempts rfl sayable.attempts),
    bind_of_ok (readOptions_rotate rfl settings.rotate),
    bind_of_ok (readOptions_budget rfl sayable.budget), readOptions_inet6 rfl sayable.preference]
  exact congrArg (fun port => (Except.ok (), { settings with servers, search, port }))
    sayable.port.symm

theorem readTexts_options {settings : Settings} (sayable : settings.Sayable)
    (servers : List Endpoint) (search : List Name) :
    readTexts settings.optionsWords { new with servers := servers, search := search } =
      (.ok (), { settings with servers := servers, search := search }) := by
  have read := readOptions_optionWords sayable servers search
  unfold optionsWords
  split
  · rename_i none
    rw [List.isEmpty_iff.mp none] at read
    exact read
  · rw [readTexts_cons [] settings.isWord_options (by decide)]
    exact bind_of_ok read

/-! ## The whole file -/

/-- What `settings` are written as is read without a fault, and gives the settings again, but for
the scopes of `servers` at the usual port. -/
theorem readConf_of_sayable {settings : Settings} (sayable : settings.Sayable)
    (absolute : settings.SearchesAbsolute) :
    new.readConf (Text.octets settings.toConf) =
      (.ok (), { settings with servers := settings.servers.map Endpoint.asWritten }) := by
  have lines : Text.linesOf settings.toConf = settings.confWords.map lineOf := by
    have ended : (settings.confWords.map fun words => lineOf words ++ "\n") =
        (settings.confWords.map lineOf).map (· ++ "\n") := by
      rw [List.map_map]
      rfl
    rw [toConf_eq, textOf, ended, Text.linesOf_join]
    intro line member
    obtain ⟨words, listed, rfl⟩ := List.mem_map.mp member
    exact Text.isLine_intercalate (settings.isWord_confWords words listed)
  have texts : new.readConf (Text.octets settings.toConf) = readTexts settings.confWords new := by
    rw [readConf, Text.lines_octets, lines, List.map_map]
    rfl
  rw [texts, confWords, readTexts_append, readTexts_append,
    bind_of_ok (readTexts_servers settings.servers new),
    bind_of_ok (readTexts_search absolute rfl)]
  exact readTexts_options sayable _ _

/-- Settings that come from files are written by `toConf` as a file that `readConf` reads without a
fault. What is read are the settings again, but for the scopes of servers at the usual port,
`serverPort`: so they are the same if and only if no such server has a `scope`. -/
theorem readConf_toConf {settings : Settings} (made : FromFiles settings) :
    new.readConf (Text.octets settings.toConf) =
      (.ok (), { settings with servers := settings.servers.map Endpoint.asWritten }) ∧
    (new.readConf (Text.octets settings.toConf) = (.ok (), settings) ↔
      ∀ server ∈ settings.servers, server.port = serverPort → server.scope = 0) := by
  have read := readConf_of_sayable made.sayable made.built.searchesAbsolute
  have kept : settings.servers.map Endpoint.asWritten = settings.servers ↔
      ∀ server ∈ settings.servers, server.port = serverPort → server.scope = 0 := by
    have each := List.map_inj_left (l := settings.servers) (f := Endpoint.asWritten) (g := id)
    rw [List.map_id] at each
    exact each.trans (forall₂_congr fun server _ => Endpoint.asWritten_eq_iff)
  refine ⟨read, ?_⟩
  rw [read, ← kept]
  constructor
  · intro same
    exact congrArg Settings.servers (Prod.mk.inj same).2
  · intro same
    rw [same]

/-- Settings with one server of each kind, names that need to be escaped, and options. -/
def varied : Settings where
  servers := [.v4 .loopback 53, .v4 (.ofOctets 192 0 2 1) 5353,
    .v6 ⟨#v[0x2001, 0xDB8, 0, 0, 0, 0, 0, 1]⟩ 53 0, .v6 ⟨#v[0xFE80, 0, 0, 0, 0, 0, 0, 1]⟩ 54 3]
  search := [⟨[⟨[46, 97], by decide, by decide⟩], true, by decide⟩, .root]
  ndots := 15
  timeout := .ofMillis 1
  attempts := 2
  rotate := true
  budget := 64
  preference := .ipv6Preferred
  port := 53

theorem readConf_octets (settings : Settings) (text : String) :
    settings.readConf (Text.octets text) = readLines ((Text.linesOf text).map some) settings := by
  rw [readConf, Text.lines_octets]

theorem readConf_toConf_varied : varied.FromFiles ∧
    new.readConf (Text.octets varied.toConf) = (.ok (), varied) := by
  have read : (new.readConf (Text.octets ("nameserver 127.0.0.1\nnameserver 192.0.2.1:5353\n" ++
      "nameserver 2001:db8::1\nnameserver [fe80::1%3]:54\nsearch \\.a .\n" ++
      "options ndots:99 timeout:0 rotate budget:100 inet6\n"))).2 = varied := by
    rw [readConf_octets]
    decide +kernel
  have made : varied.FromFiles := read ▸ FromFiles.new.readConf _
  exact ⟨made, (readConf_toConf made).2.mpr (by decide)⟩

/-- A server at the usual port that is bound to a scope. -/
def bound : Settings :=
  { new with servers := [.v6 ⟨#v[0xFE80, 0, 0, 0, 0, 0, 0, 1]⟩ serverPort 3] }

/-- A scope can be read with the usual port, but is lost when `toConf` writes the server. -/
theorem scope_lost : bound.FromFiles ∧
    bound.toConf = "nameserver fe80::1\n" ∧
    new.readConf (Text.octets bound.toConf) ≠ (.ok (), bound) := by
  have read : (new.readConf (Text.octets "nameserver [fe80::1%3]:53\n")).2 = bound := by
    rw [readConf_octets]
    decide +kernel
  refine ⟨read ▸ FromFiles.new.readConf _, by decide +kernel, ?_⟩
  rw [readConf_octets]
  decide +kernel

end Settings

end NameResolution
