import NameResolution.HostTable

/-!
# How host tables come about

* `HostTable.Built`: all the ways in which a host table comes about.
* `HostTable.Built.filled`: every host in it has an address.
-/

namespace NameResolution

namespace HostTable

/-- A host `table` that is made by reading files and by adding hosts one after the other. -/
inductive Built : HostTable → Prop
  | empty : Built empty
  | addForward {table : HostTable} (built : Built table) (name : Name) (address : Address) :
    Built (table.addForward name address)
  | addReverse {table : HostTable} (built : Built table) (address : Address) (name : Name) :
    Built (table.addReverse address name)
  | readHosts {table : HostTable} (built : Built table) (octets : List UInt8) :
    Built (table.readHosts octets).2

/-- Every host in the `table` has an address. -/
def Filled (table : HostTable) : Prop := ∀ item ∈ table.forward, item.2 ≠ []

variable {table : HostTable}

theorem Filled.addForward (filled : table.Filled) (name : Name) (address : Address) :
    (table.addForward name address).Filled := by
  unfold HostTable.addForward
  dsimp only
  split
  · split
    · exact filled
    · intro item member
      obtain ⟨before, among, rfl⟩ := List.mem_map.mp member
      split
      · exact List.append_ne_nil_of_right_ne_nil _ (List.cons_ne_nil _ _)
      · exact filled before among
  · exact List.forall_mem_append.mpr
      ⟨filled, List.forall_mem_singleton.mpr (List.cons_ne_nil _ _)⟩

theorem Filled.addReverse (filled : table.Filled) (address : Address) (name : Name) :
    (table.addReverse address name).Filled := by
  unfold HostTable.addReverse
  split
  · exact filled
  · exact filled

theorem Filled.addNames (filled : table.Filled) (address : Address) (words : List String) :
    (table.addNames address words).Filled := by
  induction words generalizing table with
  | nil => exact filled
  | cons word words ih =>
    unfold HostTable.addNames
    split
    · exact ih (filled.addForward _ _)
    · exact filled

theorem Filled.readWords (filled : table.Filled) (words : List String) :
    (table.readWords words).Filled := by
  unfold HostTable.readWords
  split
  · split
    · exact ((filled.addForward _ _).addReverse _ _).addNames _ _
    · exact filled
  · exact filled

theorem Filled.readLines (filled : table.Filled) (lines : List (Option String)) :
    (table.readLines lines).2.Filled := by
  induction lines generalizing table with
  | nil => exact filled
  | cons line lines ih =>
    cases line with
    | none => exact filled
    | some line => exact ih (filled.readWords _)

/-- However a host `table` came about, every host in it has an address. -/
theorem Built.filled (built : table.Built) : table.Filled := by
  induction built with
  | empty => exact List.forall_mem_nil _
  | addForward built name address ih => exact ih.addForward name address
  | addReverse built address name ih => exact ih.addReverse address name
  | readHosts built octets ih => exact ih.readLines _

theorem Filled.ne_nil (filled : table.Filled) {name : Name} {addresses : List Address}
    (found : table.addresses? name = some addresses) : addresses ≠ [] := by
  obtain ⟨item, among, rfl⟩ := Option.map_eq_some_iff.mp found
  exact filled item (List.mem_of_find?_eq_some among)

end HostTable

end NameResolution
