import NameResolution.Proofs.Cache.Store
import NameResolution.Proofs.HostTables
import NameResolution.Proofs.Text.Lines

/-!
# The lines of hosts files

A line of a hosts file is an address with names of one host. A line that is not is left out, unless
only a later one of its names is malformed: then the names in front of that one are entered.

* `HostLine.whole?`, `HostLine.taken?`: what a line says, and what is taken over of it.
* `HostLine.Torn`: lines for which the two differ.
* `HostLine.Entered`: what it means that a line is entered into a table.
* `HostTable.readHosts_octets`: a text is taken over line by line.
-/

namespace NameResolution

/-- What a line of a hosts file says: an `Address`, the name of the host there, and further
names. -/
structure HostLine where
  address : Address
  name : Name
  aliases : List Name
  deriving DecidableEq

namespace HostLine

/-! ## Lines -/

/-- All names of the host. -/
def names (entry : HostLine) : List Name := entry.name :: entry.aliases

/-- The words of a `line` in front of a comment. -/
def wordsOf (line : String) : List String :=
  Text.words (String.ofList (line.toList.takeWhile (· ≠ '#')))

/-- The name that a `word` stands for. -/
def name? (word : String) : Option Name := (Name.ofText? word).toOption

/-- The names that `words` stand for, if each of them stands for one. -/
def namesOf? (words : List String) : Option (List Name) := words.mapM name?

/-- The names that `words` stand for, up to the first word that does not stand for one. -/
def namesBefore : List String → List Name
  | [] => []
  | word :: words =>
    match name? word with
    | some name => name :: namesBefore words
    | none => []

/-- What a `line` says as a whole. -/
def whole? (line : String) : Option HostLine := do
  let first :: word :: words := wordsOf line | none
  return ⟨← Address.ofText? first, ← name? word, ← namesOf? words⟩

/-- What is taken over of a `line`. -/
def taken? (line : String) : Option HostLine := do
  let first :: word :: words := wordsOf line | none
  return ⟨← Address.ofText? first, ← name? word, namesBefore words⟩

/-- The `line` begins with an address and a name, and only then comes a word that is no name. -/
def Torn (line : String) : Prop :=
  ∃ first word front bad rest, wordsOf line = first :: word :: (front ++ bad :: rest) ∧
    (Address.ofText? first).isSome ∧ (name? word).isSome ∧ (namesOf? front).isSome ∧
    name? bad = none

/-- All `words` stand for names, or there is a first one, `bad`, that does not. -/
theorem namesOf?_or (words : List String) : namesOf? words = some (namesBefore words) ∨
    ∃ front bad rest, words = front ++ bad :: rest ∧ (namesOf? front).isSome ∧
      name? bad = none := by
  induction words with
  | nil => exact .inl rfl
  | cons word words ih =>
    cases read : name? word with
    | none => exact .inr ⟨[], word, words, rfl, rfl, read⟩
    | some name =>
      rcases ih with all | ⟨front, bad, rest, rfl, good, fault⟩
      · refine .inl ?_
        rw [namesOf?] at all
        simp [namesOf?, namesBefore, read, all]
      · refine .inr ⟨word :: front, bad, rest, rfl, ?_, fault⟩
        obtain ⟨names, good⟩ := Option.isSome_iff_exists.mp good
        rw [namesOf?] at good
        simp [namesOf?, read, good]

/-- A `line` that is not `Torn` is taken over as a whole or not at all. -/
theorem taken?_eq_whole? {line : String} (whole : ¬Torn line) : taken? line = whole? line := by
  unfold taken? whole?
  split
  · rename_i first word words split
    cases address : Address.ofText? first with
    | none => rfl
    | some address =>
      cases name : name? word with
      | none => rfl
      | some name =>
        rcases namesOf?_or words with all | ⟨front, bad, rest, rfl, good, fault⟩
        · simp [all]
        · exact absurd ⟨first, word, front, bad, rest, split, by simp [address], by simp [name],
            good, fault⟩ whole
  · rfl

theorem namesBefore_append {front rest : List String} {bad : String} {names : List Name}
    (good : namesOf? front = some names) (fault : name? bad = none) :
    namesBefore (front ++ bad :: rest) = names := by
  induction front generalizing names with
  | nil =>
    obtain rfl : [] = names := Option.some.inj good
    simp [namesBefore, fault]
  | cons word front ih =>
    simp only [namesOf?, List.mapM_cons, Option.pure_def, Option.bind_eq_bind,
      Option.bind_eq_some_iff, Option.some.injEq] at good
    obtain ⟨name, read, others, all, rfl⟩ := good
    simp [namesBefore, read, ih all]

/-- A torn `line` says nothing as a whole, but the `names` in front of the first malformed one are
taken over. -/
theorem taken?_of_torn {line first word bad : String} {front rest : List String}
    {address : Address} {name : Name} {names : List Name}
    (split : wordsOf line = first :: word :: (front ++ bad :: rest))
    (start : Address.ofText? first = some address) (host : name? word = some name)
    (good : namesOf? front = some names) (fault : name? bad = none) :
    whole? line = none ∧ taken? line = some ⟨address, name, names⟩ := by
  have before : namesBefore (front ++ bad :: rest) = names := namesBefore_append good fault
  have none : namesOf? (front ++ bad :: rest) = none := by simp [namesOf?, fault]
  simp [whole?, taken?, split, start, host, before, none]

theorem torn_iff {line : String} : Torn line ↔ whole? line = none ∧ taken? line ≠ none := by
  constructor
  · rintro ⟨first, word, front, bad, rest, split, start, host, good, fault⟩
    obtain ⟨address, start⟩ := Option.isSome_iff_exists.mp start
    obtain ⟨name, host⟩ := Option.isSome_iff_exists.mp host
    obtain ⟨names, good⟩ := Option.isSome_iff_exists.mp good
    obtain ⟨nothing, taken⟩ := taken?_of_torn split start host good fault
    exact ⟨nothing, by simp [taken]⟩
  · rintro ⟨nothing, taken⟩
    exact Classical.byContradiction fun whole => taken (taken?_eq_whole? whole ▸ nothing)

instance (line : String) : Decidable (Torn line) := decidable_of_iff _ torn_iff.symm

/-! ## Entering -/

/-- An `address` at the end of `addresses`, if it is not among them. -/
def including (address : Address) (addresses : List Address) : List Address :=
  if address ∈ addresses then addresses else addresses ++ [address]

theorem including_including (address : Address) (addresses : List Address) :
    including address (including address addresses) = including address addresses := by
  unfold including
  split <;> simp_all

/-- The line is `Entered` into a table: its address is an address of each of its names, and its
first name is the name of the address unless that had one. -/
structure Entered (entry : HostLine) (before after : HostTable) : Prop where
  addresses : ∀ host, after.addresses? host =
    if entry.names.any (·.toAbsolute == host) then
      some (including entry.address ((before.addresses? host).getD []))
    else before.addresses? host
  name : ∀ address, after.name? address =
    if address = entry.address then
      some ((before.name? address).getD entry.name.toAbsolute)
    else before.name? address

end HostLine

namespace HostTable

open HostLine

theorem addresses?_congr (table : HostTable) {name host : Name} (same : name.fold = host.fold) :
    table.addresses? name = table.addresses? host := by
  rw [addresses?, addresses?, same]

/-- Other `addresses` for a `host` that is known are those of this host, and all else stays. -/
theorem addresses?_map {table : HostTable} {name : Name} {known : List Address}
    (found : table.addresses? name = some known) (addresses : List Address) (host : Name) :
    HostTable.addresses? { table with
      forward := table.forward.map fun item =>
        if item.1 = name.fold then (name.fold, addresses) else item } host =
      if name.fold = host.fold then some addresses else table.addresses? host := by
  obtain ⟨item, first, -⟩ := Option.map_eq_some_iff.mp found
  have next := find?_map_key Prod.fst table.forward (name.fold, addresses) host.fold
  dsimp only at next
  show Option.map Prod.snd (List.find? (·.1 = host.fold) (List.map _ table.forward)) = _
  rw [next]
  split
  · rename_i same
    rw [first, if_pos same.symm]
    rfl
  · rename_i other
    rw [if_neg (Ne.symm other)]
    rfl

/-- The `addresses` of a `host` that comes to be known are those of this host, and all else
stays. -/
theorem addresses?_append {table : HostTable} {name : Name}
    (unknown : table.addresses? name = none) (addresses : List Address) (host : Name) :
    HostTable.addresses? { table with
      forward := table.forward ++ [(name.fold, addresses)] } host =
      if name.fold = host.fold then some addresses else table.addresses? host := by
  show Option.map Prod.snd (List.find? (·.1 = host.fold) (table.forward ++ [_])) = _
  rw [List.find?_append, Option.map_or]
  split
  · rename_i same
    rw [addresses?_congr table same] at unknown
    have first : List.find? (·.1 = host.fold) table.forward = none :=
      Option.map_eq_none_iff.mp unknown
    simp [first, same]
  · rename_i other
    simp [other, addresses?]

theorem addresses?_addForward (table : HostTable) (name host : Name) (address : Address) :
    (table.addForward name address).addresses? host =
      if name.toAbsolute == host then
        some (including address ((table.addresses? host).getD []))
      else table.addresses? host := by
  -- The table looks for the folded absolute name, so hosts are compared by it.
  have own (same : name.toAbsolute.fold = host.fold) :
      table.addresses? name.toAbsolute = table.addresses? host := table.addresses?_congr same
  simp only [Name.beq_iff]
  unfold addForward
  cases found : table.addresses? name.toAbsolute with
  | some addresses =>
    dsimp only
    split
    · rename_i among
      split
      · rename_i same
        rw [← own same, found, Option.getD_some, including, if_pos among]
      · rfl
    · rename_i fresh
      rw [addresses?_map found]
      refine ite_congr rfl (fun same => ?_) fun _ => rfl
      rw [← own same, found, Option.getD_some, including, if_neg fresh]
  | none =>
    dsimp only
    rw [addresses?_append found]
    refine ite_congr rfl (fun same => ?_) fun _ => rfl
    rw [← own same, found]
    rfl

theorem name?_addReverse (table : HostTable) (name : Name) (address other : Address) :
    (table.addReverse address name).name? other =
      if other = address then some ((table.name? other).getD name.toAbsolute)
      else table.name? other := by
  unfold addReverse
  split
  · rename_i known
    obtain ⟨old, known⟩ := Option.isSome_iff_exists.mp known
    split
    · rename_i same
      rw [same, known]
      rfl
    · rfl
  · rename_i fresh
    rw [Option.not_isSome_iff_eq_none] at fresh
    unfold name? at fresh ⊢
    dsimp only
    rw [List.lookup_append]
    split
    · rename_i same
      rw [same, fresh]
      simp
    · rename_i different
      have other : (other == address) = false := beq_eq_false_iff_ne.mpr different
      rw [List.lookup_cons, other]
      simp

theorem name?_addForward (table : HostTable) (name : Name) (address other : Address) :
    (table.addForward name address).name? other = table.name? other := by
  unfold addForward
  dsimp only
  split
  · split <;> rfl
  · rfl

theorem addresses?_addReverse (table : HostTable) (name host : Name) (address : Address) :
    (table.addReverse address name).addresses? host = table.addresses? host := by
  unfold addReverse
  split <;> rfl

/-- Further names are entered by `addNames` up to the first malformed one. -/
theorem addresses?_addNames (table : HostTable) (address : Address) (words : List String)
    (host : Name) : (table.addNames address words).addresses? host =
      if (namesBefore words).any (·.toAbsolute == host) then
        some (including address ((table.addresses? host).getD []))
      else table.addresses? host := by
  induction words generalizing table with
  | nil => rfl
  | cons word words ih =>
    unfold addNames
    split
    · rename_i name read
      have first : namesBefore (word :: words) = name :: namesBefore words := by
        simp [namesBefore, HostLine.name?, read, Except.toOption]
      rw [ih, addresses?_addForward, first, List.any_cons]
      cases name.toAbsolute == host with
      | false => simp
      | true => simp [including_including]
    · rename_i read
      have none : namesBefore (word :: words) = [] := by
        simp [namesBefore, HostLine.name?, read, Except.toOption]
      rw [none]
      rfl

theorem name?_addNames (table : HostTable) (address other : Address) (words : List String) :
    (table.addNames address words).name? other = table.name? other := by
  induction words generalizing table with
  | nil => rfl
  | cons word words ih =>
    unfold addNames
    split
    · rw [ih, name?_addForward]
    · rfl

/-- A line with an `address` and a `name` enters these and the names in front of a malformed one. -/
theorem entered_addNames (table : HostTable) (address : Address) (name : Name)
    (words : List String) : Entered ⟨address, name, namesBefore words⟩ table
      (((table.addForward name address).addReverse address name).addNames address words) where
  addresses := fun host => by
    rw [addresses?_addNames, addresses?_addReverse, addresses?_addForward, names, List.any_cons]
    cases name.toAbsolute == host with
    | false => simp
    | true => simp [including_including]
  name := fun other => by rw [name?_addNames, name?_addReverse, name?_addForward]

/-- What is taken over of a `line` is `Entered`; other lines leave the `table` as it is. -/
theorem readLine_taken (table : HostTable) (line : String) :
    (∀ entry, taken? line = some entry → entry.Entered table (table.readLine line)) ∧
      (taken? line = none → table.readLine line = table) := by
  have words : table.readLine line = table.readWords (wordsOf line) := rfl
  have nothing : (∀ entry : HostLine, none = some entry → entry.Entered table table) ∧
      ((none : Option HostLine) = none → table = table) :=
    ⟨fun _ taken => (Option.some_ne_none _ taken.symm).elim, fun _ => rfl⟩
  rw [words, taken?]
  rcases wordsOf line with _ | ⟨first, _ | ⟨word, words⟩⟩
  · exact nothing
  · exact nothing
  · dsimp only [readWords, HostLine.name?]
    cases Address.ofText? first with
    | none => exact nothing
    | some address =>
      cases Name.ofText? word with
      | error fault => exact nothing
      | ok name =>
        refine ⟨fun entry taken => ?_, fun none => (Option.some_ne_none _ none).elim⟩
        obtain rfl := Option.some.inj taken
        exact table.entered_addNames address name words

/-- Lines are applied to a table one after the other: where `said?` finds something in a line that
is entered, and other lines leave the table as it is. -/
inductive Applies (said? : String → Option HostLine) : List String → HostTable → HostTable → Prop
  | done (table : HostTable) : Applies said? [] table table
  | skip {line : String} {lines : List String} {before after : HostTable}
    (none : said? line = none) (rest : Applies said? lines before after) :
    Applies said? (line :: lines) before after
  | enter {line : String} {lines : List String} {before middle after : HostTable}
    {entry : HostLine} (found : said? line = some entry) (entered : entry.Entered before middle)
    (rest : Applies said? lines middle after) : Applies said? (line :: lines) before after

theorem applies_readLines (table : HostTable) (lines : List String) :
    ∃ after, table.readLines (lines.map some) = (.ok (), after) ∧
      Applies taken? lines table after := by
  induction lines generalizing table with
  | nil => exact ⟨table, rfl, .done table⟩
  | cons line lines ih =>
    obtain ⟨after, read, rest⟩ := ih (table.readLine line)
    refine ⟨after, read, ?_⟩
    cases taken : taken? line with
    | none => exact .skip taken ((table.readLine_taken line).2 taken ▸ rest)
    | some entry => exact .enter taken ((table.readLine_taken line).1 entry taken) rest

theorem Applies.congr {said? other? : String → Option HostLine} {lines : List String}
    {before after : HostTable} (applies : Applies said? lines before after)
    (same : ∀ line ∈ lines, said? line = other? line) : Applies other? lines before after := by
  induction applies with
  | done table => exact .done table
  | skip none rest ih =>
    rw [List.forall_mem_cons] at same
    exact .skip (same.1 ▸ none) (ih same.2)
  | enter found entered rest ih =>
    rw [List.forall_mem_cons] at same
    exact .enter (same.1 ▸ found) entered (ih same.2)

/-- To read a `text` by `readHosts` takes it over line by line. Of each line the part in front of
its first malformed name counts (`taken?`); so if no line is `Torn`, lines are entered as a whole or
not at all (`whole?`). -/
theorem readHosts_octets (table : HostTable) (text : String) :
    ∃ after, table.readHosts (Text.octets text) = (.ok (), after) ∧
      Applies taken? (Text.linesOf text) table after ∧
      ((∀ line ∈ Text.linesOf text, ¬Torn line) →
        Applies whole? (Text.linesOf text) table after) := by
  obtain ⟨after, read, applies⟩ := table.applies_readLines (Text.linesOf text)
  refine ⟨after, ?_, applies, fun whole => ?_⟩
  · rw [readHosts, Text.lines_octets, read]
  · exact applies.congr fun line member => taken?_eq_whole? (whole line member)

theorem readHosts_octets_whole :
    ∃ after, empty.readHosts
        (Text.octets "127.0.0.1 host # a..b\n::1 host other HOST\nhost\n192.0.2.1 a..b\n") =
      (.ok (), after) ∧ Applies whole? ["127.0.0.1 host # a..b", "::1 host other HOST", "host",
        "192.0.2.1 a..b"] empty after := by
  obtain ⟨after, read, -, whole⟩ := readHosts_octets empty
    "127.0.0.1 host # a..b\n::1 host other HOST\nhost\n192.0.2.1 a..b\n"
  have lines : Text.linesOf
      "127.0.0.1 host # a..b\n::1 host other HOST\nhost\n192.0.2.1 a..b\n" =
      ["127.0.0.1 host # a..b", "::1 host other HOST", "host", "192.0.2.1 a..b"] := by
    decide +kernel
  rw [lines] at whole
  exact ⟨after, read, whole (by decide +kernel)⟩

/-- A host with the name `host`, of one label. -/
def someHost : Name := ⟨[⟨[104, 111, 115, 116], by decide, by decide⟩], true, by decide⟩

/-- The name in front of a malformed one is entered by `readHosts`, although the line is not right
as a whole. -/
theorem half_line_entered :
    Text.linesOf "192.0.2.1 host a..b\n" = ["192.0.2.1 host a..b"] ∧
    whole? "192.0.2.1 host a..b" = none ∧
    (empty.readHosts (Text.octets "192.0.2.1 host a..b\n")).2.addresses? someHost =
      some [.v4 (.ofOctets 192 0 2 1)] ∧
    ¬Applies whole? ["192.0.2.1 host a..b"] empty
      (empty.readHosts (Text.octets "192.0.2.1 host a..b\n")).2 := by
  have one : Text.linesOf "192.0.2.1 host a..b\n" = ["192.0.2.1 host a..b"] := by decide +kernel
  have nothing : whole? "192.0.2.1 host a..b" = none := by decide +kernel
  have found : (empty.readHosts (Text.octets "192.0.2.1 host a..b\n")).2.addresses? someHost =
      some [.v4 (.ofOctets 192 0 2 1)] := by
    rw [readHosts, Text.lines_octets, one]
    decide +kernel
  refine ⟨one, nothing, found, fun applies => ?_⟩
  generalize (empty.readHosts (Text.octets "192.0.2.1 host a..b\n")).2 = after at found applies
  cases applies with
  | skip none rest =>
    cases rest
    cases found
  | enter entry entered rest =>
    rw [nothing] at entry
    cases entry

end HostTable

end NameResolution
