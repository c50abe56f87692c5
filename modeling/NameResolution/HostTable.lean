import NameResolution.Address
import NameResolution.Name.Text
import NameResolution.Text.Line

/-!
# Host tables

A `HostTable` maps names of hosts to addresses and addresses to names. All names in it are
absolute. It can be filled from a `hosts` file, whose lines have an address and names each; what
follows `#` is left out.

* `HostTable.addForward`, `HostTable.addReverse`: adding to the table.
* `HostTable.readHosts`: takes over a file. A line is read up to its first faulty name.
* `HostTable.addresses?`, `HostTable.name?`: asking the table.
-/

namespace NameResolution

/-- Addresses of hosts and names of addresses. Host names are kept folded, each once. -/
structure HostTable where
  forward : List (Name × List Address)
  reverse : List (Address × Name)

namespace HostTable

/-- The table without hosts. -/
def empty : HostTable := ⟨[], []⟩

/-- Whether there are no hosts. -/
def isEmpty (table : HostTable) : Bool := table.forward.isEmpty

/-- The addresses of the host with the name `name`. -/
def addresses? (table : HostTable) (name : Name) : Option (List Address) :=
  let key := name.fold
  (table.forward.find? (·.1 = key)).map Prod.snd

/-- The name of an `address`. -/
def name? (table : HostTable) (address : Address) : Option Name := table.reverse.lookup address

/-- Adds an `address` to those of a host, unless it is there. -/
def addForward (table : HostTable) (name : Name) (address : Address) : HostTable :=
  let key := name.toAbsolute.fold
  match table.addresses? name.toAbsolute with
  | some addresses =>
    if address ∈ addresses then table
    else { table with
      forward := table.forward.map fun item =>
        if item.1 = key then (key, addresses ++ [address]) else item }
  | none => { table with forward := table.forward ++ [(key, [address])] }

/-- Gives an `address` a `name`, unless it has one. -/
def addReverse (table : HostTable) (address : Address) (name : Name) : HostTable :=
  if (table.name? address).isSome then table
  else { table with reverse := table.reverse ++ [(address, name.toAbsolute)] }

/-- Adds further names of an `address`, up to the first faulty one. -/
def addNames (table : HostTable) (address : Address) : List String → HostTable
  | [] => table
  | word :: words =>
    match Name.ofText? word with
    | .ok name => addNames (table.addForward name address) address words
    | .error _ => table

/-- Takes over the words of a line: an address, and the names of its host. -/
def readWords (table : HostTable) : List String → HostTable
  | first :: word :: words =>
    match Address.ofText? first, Name.ofText? word with
    | some address, .ok name =>
      ((table.addForward name address).addReverse address name).addNames address words
    | _, _ => table
  | _ => table

/-- Takes over a `line`. -/
def readLine (table : HostTable) (line : String) : HostTable :=
  table.readWords (Text.words (String.ofList (line.toList.takeWhile (· ≠ '#'))))

/-- Takes over `lines`, up to the first one that is no text. -/
def readLines (table : HostTable) : List (Option String) → Except FileError Unit × HostTable
  | [] => (.ok (), table)
  | some line :: lines => (table.readLine line).readLines lines
  | none :: _ => (.error .invalidText, table)

/-- Takes over the lines of a file by `readWords`, and says what was wrong with it. -/
def readHosts (table : HostTable) (octets : List UInt8) : Except FileError Unit × HostTable :=
  table.readLines (Text.lines octets)

/-- The text of a fault in a `file`. -/
def faultMessage : FileError → String
  | .malformed => "error parsing hosts file"
  | .invalidText => Text.invalidText

end HostTable

end NameResolution
