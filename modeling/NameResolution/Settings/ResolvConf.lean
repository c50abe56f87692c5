import NameResolution.Settings.Basic
import NameResolution.Text.Line

/-!
# The resolv.conf format

Each line of a `resolv.conf` file begins with a keyword. Empty lines and lines that begin with `;`
or `#` are left out. Everything before a faulty line, and what is right at its beginning, is taken
over; nothing after it is.

* `Settings.readConf`: takes over the lines of a file.
* `Settings.toConf`: writes settings as a file. Options that have their default values are not
  written, and neither are fractions of a second.
-/

namespace NameResolution

/-- Changes `Settings` until something is wrong. -/
abbrev ConfReader := ExceptT FileError (StateM Settings)

namespace Settings

/-! ## Reading -/

/-- The only word of a line, which is handed to `change`. -/
def onlyWord (change : String → ConfReader Unit) : List String → ConfReader Unit
  | [] => throw .malformed
  | word :: rest => do
    change word
    if !rest.isEmpty then throw .malformed

/-- The server that `word` stands for. -/
def serverOfText? (word : String) : Option Endpoint :=
  match Address.ofText? word with
  | some address => some (.ofAddress address serverPort)
  | none => Endpoint.ofText? word

/-- Takes over a `server`. -/
def readServer (word : String) : ConfReader Unit := do
  match serverOfText? word with
  | some server => modify (·.addServer server)
  | none => throw .malformed

/-- A name in a line, as `word` spells it. -/
def readName (word : String) : ConfReader Name :=
  match Name.ofText? word with
  | .ok name => return name
  | .error _ => throw .malformed

/-- Takes over a domain, which is then the whole search list. -/
def readDomain (word : String) : ConfReader Unit := do
  let name ← readName word
  modify fun settings => { settings with search := [] }.pushSearch name

/-- Takes over names into the search list, by `pushSearch`. -/
def readSearch : List String → ConfReader Unit
  | [] => return
  | word :: rest => do
    let name ← readName word
    modify (·.pushSearch name)
    readSearch rest

/-- The greatest number that can stand in an option. -/
def greatestArgument : Nat := 0xFFFFFFFFFFFFFFFF

/-- An option as its name and the number behind its first colon, both out of `word`. -/
def readArgument (word : String) : ConfReader (String × Option Nat) :=
  let letters := word.toList
  let name := letters.takeWhile (· ≠ ':')
  match letters.drop name.length with
  | [] => return (word, none)
  | _ :: digits =>
    match Text.unsigned? greatestArgument digits with
    | some value => return (String.ofList name, some value)
    | none => throw .malformed

/-- What an option changes; unknown options change nothing. -/
def applyOption (settings : Settings) : String × Option Nat → Settings
  | ("ndots", some value) => settings.setNdots value
  | ("timeout", some value) => settings.setTimeout (.ofSeconds value)
  | ("attempts", some value) => settings.setAttempts value
  | ("rotate", none) => { settings with rotate := true }
  | ("budget", some value) => settings.setBudget value
  | ("inet6", none) => { settings with preference := .ipv6Preferred }
  | _ => settings

/-- Takes over options by `applyOption`. -/
def readOptions : List String → ConfReader Unit
  | [] => return
  | word :: rest => do
    let option ← readArgument word
    modify (·.applyOption option)
    readOptions rest

/-- Takes over a `line`. -/
def readLine (line : String) : ConfReader Unit :=
  match line.toList with
  | ';' :: _ | '#' :: _ => return
  | _ =>
    match Text.words line with
    | [] => return
    | "nameserver" :: rest => onlyWord readServer rest
    | "domain" :: rest => onlyWord readDomain rest
    | "search" :: rest => do
      modify fun settings => { settings with search := [] }
      readSearch rest
    | "sortlist" :: _ => return
    | "options" :: rest => readOptions rest
    | _ => throw .malformed

/-- Takes over `lines`. -/
def readLines : List (Option String) → ConfReader Unit
  | [] => return
  | some line :: lines => do
    readLine line
    readLines lines
  | none :: _ => throw .invalidText

/-- Takes over the lines of a file, and says what was wrong with it. -/
def readConf (settings : Settings) (octets : List UInt8) : Except FileError Unit × Settings :=
  readLines (Text.lines octets) settings

/-- The text of a `FileError`. -/
def faultMessage : FileError → String
  | .malformed => "error parsing configuration"
  | .invalidText => Text.invalidText

/-! ## Writing -/

/-- A `server` as a word: without its port if that is the usual one. -/
def serverText (server : Endpoint) : String :=
  if server.port = serverPort then server.address.toText else server.toText

/-- The lines for the search list. -/
def searchLines : List Name → String
  | [] => ""
  | [name] => s!"domain {name}\n"
  | names => names.foldl (fun text name => text ++ s!" {name}") "search" ++ "\n"

/-- The options whose values in the `settings` are not their defaults. -/
def optionWords (settings : Settings) : List String :=
  let number (name : String) (value default : Nat) : List String :=
    if value = default then [] else [s!"{name}:{value}"]
  number "ndots" settings.ndots ndotsLimits.default ++
  (if settings.timeout = timeoutLimits.default then []
    else [s!"timeout:{settings.timeout.seconds}"]) ++
  number "attempts" settings.attempts attemptsLimits.default ++
  (if settings.rotate then ["rotate"] else []) ++
  number "budget" settings.budget budgetLimits.default ++
  (if settings.preference = .ipv6Preferred then ["inet6"] else [])

/-- The line for the options in `words`. -/
def optionsLine (words : List String) : String :=
  if words.isEmpty then ""
  else words.foldl (fun text word => text ++ " " ++ word) "options" ++ "\n"

/-- Settings as a file. -/
def toConf (settings : Settings) : String :=
  settings.servers.foldl (fun text server => text ++ s!"nameserver {serverText server}\n") "" ++
    searchLines settings.search ++ optionsLine settings.optionWords

end Settings

end NameResolution
