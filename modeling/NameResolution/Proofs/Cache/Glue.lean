import NameResolution.Proofs.Cache.Tidy
import NameResolution.Proofs.Cache.Zones

/-!
# Addresses that delegations remember

The addresses of servers that delegations give are among those that they were told.

* `RecordSet.Tells`: all addresses of a record set have some property.
* `Cache.Stores`: all addresses in a cache have it.
* `Delegations.keeps_serversFor_of`: to find servers keeps what lookups keep.
* `Delegations.stores_add`, `Delegations.keeps_serversFor`: delegations that are told such addresses
  alone give no others.
-/

namespace NameResolution

variable {Known : Address → Prop}

/-- All addresses of the record `set` are known. -/
def RecordSet.Tells (Known : Address → Prop) (set : RecordSet) : Prop :=
  ∀ datum ∈ set.data, ∀ address, datum.address? = some address → Known address

/-- Name servers have no addresses. -/
theorem RecordSet.Uniform.tells {set : RecordSet} (uniform : set.Uniform) (servers : set.type = .ns) :
    set.Tells Known := by
  intro datum member address gives
  have kind := uniform.family member gives
  rw [servers] at kind
  cases address <;> cases kind

namespace Cache

/-- A well formed `cache` in which all addresses are known. -/
structure Stores (Known : Address → Prop) (cache : Cache) : Prop where
  wellFormed : cache.WellFormed
  tells : ∀ name type entry set, cache.find? name type = some entry →
    entry.finding = .present set → set.Tells Known

theorem stores_empty (settings : CacheSettings) : (empty settings).Stores Known :=
  ⟨wellFormed_empty settings, fun _ _ _ _ found => nomatch found⟩

theorem stores_clear (cache : Cache) : cache.clear.Stores Known :=
  ⟨.clear cache, fun _ _ _ _ found => nomatch found⟩

/-- A record `set` that counts tells known addresses alone. -/
theorem Stores.tells_of_serves {cache : Cache} (stores : cache.Stores Known) {request : Request}
    {set : RecordSet} (serves : cache.Serves request set) : set.Tells Known := by
  obtain ⟨name, type, entry, counts, -, here⟩ := serves
  obtain ⟨kept, -⟩ := current?_eq_some.mp counts
  cases said : entry.finding with
  | absent type => simp [Entry.setAt?, said] at here
  | present stored =>
    obtain rfl : { stored with ttl := entry.ttlAt request.now } = set := by
      simpa [Entry.setAt?, said] using here
    exact stores.tells name type entry stored kept said

/-- A `lookup` finds addresses alone that are `Known`. -/
theorem keeps_lookup (name : Name) (type : RecordType) (least : Credibility) (now : Duration) :
    Op.Keeps (Stores Known) (lookup name type least now) fun found =>
      ∀ set ∈ found.sets, set.Tells Known := by
  refine .of_run (fun cache stores => ?_) fun cache stores found result set member =>
    stores.tells_of_serves (serves_lookup stores.wellFormed result set member)
  obtain same | sheds := sheds_lookup name type least now cache
  · rwa [same]
  · have shed := sheds stores.wellFormed.evict
    exact ⟨shed.wellFormed, fun name type entry set found =>
      stores.tells name type entry set (find?_evict_eq_some cache (shed.find?_eq_some found))⟩

/-- Whole `writes` of known addresses leave known addresses. -/
theorem Stores.performAll {cache : Cache} (stores : cache.Stores Known) (now : Duration)
    {writes : List Write} (whole : ∀ write ∈ writes, write.IsWhole)
    (brings : ∀ write ∈ writes, ∀ set, write.finding = .present set → set.Tells Known) :
    (performAll now writes cache).2.Stores Known := by
  refine ⟨?_, fun name type entry set found said => ?_⟩
  · exact performAll_keeps WellFormed
      (fun write _ _ shape => write.wellFormed_perform shape now) stores.wellFormed
  · obtain before | ⟨write, member, -, made, -⟩ := find?_performAll whole found
    · exact stores.tells name type entry set before said
    · exact brings write member set (made ▸ said)

end Cache

namespace Delegations

open Cache (Stores)

/-- Addresses of `glue` are remembered when they are added, and no others. -/
theorem stores_add {delegations : Delegations} (stores : delegations.cache.Stores Known)
    {servers : RecordSet} (plain : servers.Tells Known) {glue : List RecordSet}
    (known : ∀ set ∈ glue, set.Tells Known) (now : Duration) :
    (add servers glue now delegations).2.cache.Stores Known := by
  rw [add_snd]
  refine stores.performAll now (fun write member => ?_) fun write member set brings => ?_
  · obtain ⟨-, rfl | ⟨set, -, -, -, rfl⟩⟩ := mem_writes member <;> trivial
  · obtain ⟨-, rfl | ⟨set, among, -, -, rfl⟩⟩ := mem_writes member
    · exact Finding.present.inj brings ▸ plain
    · exact Finding.present.inj brings ▸ known _ among

/-! ## Servers of a zone -/

/-- All `addresses` are known. -/
abbrev AllKnown (Known : Address → Prop) (addresses : List Address) : Prop :=
  ∀ address ∈ addresses, Known address

/-- If there are servers, then all their addresses are `Known`. -/
def Gives (Known : Address → Prop) (found : Option (Name × List Endpoint)) : Prop :=
  ∀ zone servers, found = some (zone, servers) → ∀ server ∈ servers, Known server.address

section

variable {inv : Cache → Prop} {now : Duration} (lookups : ∀ name type least,
  Op.Keeps inv (Cache.lookup name type least now) fun found => ∀ set ∈ found.sets, set.Tells Known)

include lookups

theorem keeps_serverAddresses (server : Name) (types : List RecordType) :
    Op.Keeps inv (serverAddresses server now types) (AllKnown Known) := by
  induction types with
  | nil => exact .pure (List.forall_mem_nil _)
  | cons type types ih =>
    refine (lookups server type .glue).bind fun found tells => ?_
    refine ih.bind fun more others => .pure (List.forall_mem_append.mpr ⟨fun address among => ?_,
      others⟩)
    obtain ⟨set, member, datum, own, gives⟩ := RecordSet.mem_addresses.mp among
    refine tells set ?_ datum own address gives
    cases found with
    | successful sets => exact member
    | _ => cases member

theorem keeps_allAddresses (servers : List Name) :
    Op.Keeps inv (allAddresses now servers) (AllKnown Known) := by
  induction servers with
  | nil => exact .pure (List.forall_mem_nil _)
  | cons server servers ih =>
    refine (keeps_serverAddresses lookups server _).bind fun here own => ?_
    exact ih.bind fun more others => .pure (List.forall_mem_append.mpr ⟨own, others⟩)

theorem keeps_zoneAddresses (zone : Name) :
    Op.Keeps inv (zoneAddresses zone now) (AllKnown Known) := by
  refine (lookups zone .ns .hint).bind fun found _ => ?_
  split
  · exact keeps_allAddresses lookups _
  · exact .pure (List.forall_mem_nil _)

theorem keeps_deepest (port : UInt16) {found : Option (Name × List Endpoint)}
    (gives : Gives Known found) (zones : List Name) :
    Op.Keeps inv (deepest port now found zones) (Gives Known) := by
  induction zones generalizing found with
  | nil => exact .pure gives
  | cons zone zones ih =>
    refine (keeps_zoneAddresses lookups zone).bind fun addresses known => ?_
    split
    · exact ih gives
    · refine ih fun _ servers same server member => ?_
      obtain ⟨-, rfl⟩ := Prod.mk.inj (Option.some.inj same)
      obtain ⟨address, among, rfl⟩ := List.mem_map.mp member
      rw [Endpoint.address_ofAddress]
      exact known address among

/-- To find servers keeps what lookups keep, and gives such addresses as they find. -/
theorem keeps_serversFor_of (name : Name) (port : UInt16) :
    Op.Keeps (fun delegations : Delegations => inv delegations.cache)
      (serversFor name port now) (Gives Known) := by
  have unknown : Gives Known none := fun _ _ same => nomatch same
  have deepest := keeps_deepest lookups port unknown (name.suffixes.filter (!·.isRoot)).reverse
  exact .of_run (fun _ => deepest.after) fun _ => deepest.whenOk

end

/-- The servers that `delegations` give have known addresses. -/
theorem keeps_serversFor (name : Name) (port : UInt16) (now : Duration) :
    Op.Keeps (fun delegations : Delegations => delegations.cache.Stores Known)
      (serversFor name port now) (Gives Known) :=
  keeps_serversFor_of (fun name type least => Cache.keeps_lookup name type least now) name port

end Delegations

end NameResolution
