import NameResolution.Cache.Delegations
import NameResolution.Proofs.Cache.Entitlement
import NameResolution.Proofs.Cache.Persistence
import NameResolution.Proofs.Codec.RoundTrip
import NameResolution.Proofs.Names.Rewriting

/-!
# Caches whose records can be sent

All records of a message that was read are encodable: their names are absolute, and their data is no
longer than a message allows. A cache that learns from such messages only holds encodable records.
This is enough for its operations never to be refused, as long as the clock is timely.

* `Message.Encodable.sets`: the record sets of an encodable message are encodable.
* `Cache.Sound`: all that a cache holds is encodable.
* `Cache.succeeds_lookup`, `Cache.succeeds_addMessage`: lookups of absolute names and the adding of
  encodable messages succeed, and keep a cache sound.
* `Delegations.succeeds_add`, `Delegations.succeeds_serversFor`: so do the operations on
  delegations.
-/

namespace NameResolution

/-! ## Record sets -/

/-- The owner of the `set` and the names in its data are absolute, and no data is too long for a
message. -/
structure RecordSet.Encodable (set : RecordSet) : Prop where
  owner : set.owner.absolute = true
  data : ∀ datum ∈ set.data, datum.Encodable

/-- All of some record `sets` are `Encodable`. -/
def RecordSet.AllEncodable (sets : List RecordSet) : Prop := ∀ set ∈ sets, set.Encodable

namespace RecordData

theorem Encodable.aliasTarget {data : RecordData} (encodable : data.Encodable) {target : Name}
    (leads : data.aliasTarget? = some target) : target.absolute = true := by
  cases data with
  | cname name =>
    obtain rfl := Option.some.inj leads
    exact encodable
  | dname name =>
    obtain rfl := Option.some.inj leads
    exact encodable
  | _ => cases leads

theorem Encodable.additionalName {data : RecordData} (encodable : data.Encodable) {host : Name}
    (mentions : data.additionalName? = some host) : host.absolute = true := by
  cases data with
  | ns name =>
    obtain rfl := Option.some.inj mentions
    exact encodable
  | mx preference name =>
    obtain rfl := Option.some.inj mentions
    exact encodable
  | _ => cases mentions

end RecordData

namespace RecordSet

theorem Encodable.first {set : RecordSet} (encodable : set.Encodable) : set.first.Encodable :=
  encodable.data _ List.mem_cons_self

theorem Encodable.withTtl {set : RecordSet} (encodable : set.Encodable) (ttl : UInt32) :
    Encodable { set with ttl := ttl } := ⟨encodable.owner, encodable.data⟩

theorem Encodable.withOwner {set : RecordSet} (encodable : set.Encodable) {owner : Name}
    (absolute : owner.absolute = true) : Encodable { set with owner := owner } :=
  ⟨absolute, encodable.data⟩

theorem Encodable.additionalNames {set : RecordSet} (encodable : set.Encodable) :
    ∀ host ∈ set.additionalNames, host.absolute = true := by
  intro host member
  obtain ⟨datum, among, mentions⟩ := List.mem_filterMap.mp member
  exact (encodable.data datum among).additionalName mentions

theorem encodable_push? {set next : RecordSet} {record : Record}
    (pushed : set.push? record = some next) (own : record.Encodable) (encodable : set.Encodable) :
    next.Encodable := by
  obtain ⟨-, rfl⟩ := push?_eq_some_iff.mp pushed
  refine ⟨by rw [owner_addDatum]; exact encodable.owner, fun datum member => ?_⟩
  obtain before | rfl := mem_data_addDatum member
  · exact encodable.data datum before
  · exact own.data

theorem encodable_group {records : List Record} (each : ∀ record ∈ records, record.Encodable) :
    AllEncodable (group records) := by
  refine forall_mem_group (fun record member => ?_) fun record member set next pushed =>
    encodable_push? pushed (each record member)
  exact ⟨(each record member).owner, fun datum only => List.mem_singleton.mp only ▸
    (each record member).data⟩

end RecordSet

/-- The record `sets` of an `Encodable` `message` are encodable. -/
theorem Message.Encodable.sets {message : Message} (encodable : message.Encodable)
    (place : Section) : RecordSet.AllEncodable (message.sets place) := by
  cases place with
  | answer => exact RecordSet.encodable_group encodable.answer.each
  | authority => exact RecordSet.encodable_group encodable.authority.each
  | additional => exact RecordSet.encodable_group encodable.additional.each

namespace Cache

/-! ## Sound caches -/

/-- A well formed `cache` all of whose records are encodable. -/
structure Sound (cache : Cache) : Prop where
  wellFormed : cache.WellFormed
  sets : ∀ name type entry set, cache.find? name type = some entry →
    entry.finding = .present set → set.Encodable

theorem sound_empty (settings : CacheSettings) : (empty settings).Sound :=
  ⟨wellFormed_empty settings, fun _ _ _ _ found => nomatch found⟩

theorem sound_clear (cache : Cache) : cache.clear.Sound :=
  ⟨.clear cache, fun _ _ _ _ found => nomatch found⟩

/-- A `Cache` is `Sound` if all that it holds was in a sound one. -/
theorem Sound.of_kept {before after : Cache} (sound : before.Sound) (shape : after.WellFormed)
    (kept : ∀ name type entry, after.find? name type = some entry →
      before.find? name type = some entry) : after.Sound :=
  ⟨shape, fun name type entry set found => sound.sets name type entry set (kept _ _ _ found)⟩

/-! ## Lookups -/

/-- A `lookup` of an absolute `name` succeeds, and finds encodable record `sets`. -/
theorem succeeds_lookup {name : Name} (absolute : name.absolute = true) (type : RecordType)
    (least : Credibility) (now : Duration) :
    Op.Succeeds Sound (lookup name type least now) fun found =>
      RecordSet.AllEncodable found.sets := by
  intro before sound
  have result := congrArg Prod.fst (lookup_apply absolute type least now before)
  refine ⟨_, _, lookup_apply absolute type least now before, ?_, fun set member => ?_⟩
  · have shed := sheds_lookupSuffixes ⟨type, least, now⟩ name.suffixes before.evict
      sound.wellFormed.evict
    exact sound.of_kept shed.wellFormed fun _ _ _ found =>
      find?_evict_eq_some before (shed.find?_eq_some found)
  · -- What is found is what an entry holds, with another time to live.
    obtain ⟨owner, kind, entry, counts, -, here⟩ :=
      serves_lookup sound.wellFormed result set member
    obtain ⟨kept, -⟩ := current?_eq_some.mp counts
    unfold Entry.setAt? at here
    cases finding : entry.finding with
    | absent type =>
      rw [finding] at here
      cases here
    | present stored =>
      rw [finding] at here
      obtain rfl := Option.some.inj here
      exact (sound.sets _ _ _ _ kept finding).withTtl _

/-! ## Writes -/

/-- There is time left for the longest time to live before the clock ends, `now`. -/
def Timely (now : Duration) : Prop :=
  now.nanos + 0xFFFFFFFF * Duration.second ≤ Duration.longest.nanos

/-- A timely clock can tell the end of every life. -/
theorem Timely.ends {now : Duration} (timely : Timely now) (write : Write)
    (settings : CacheSettings) : write.Ends now settings := by
  have life : (write.life settings).nanos ≤ write.ttl.toNat * Duration.second :=
    nanos_lifetime_le write.ttl (write.most settings)
  have most : write.ttl.toNat * Duration.second ≤ 0xFFFFFFFF * Duration.second :=
    Nat.mul_le_mul_right _ (Nat.le_of_lt_succ write.ttl.toNat_lt)
  exact Nat.le_trans (Nat.add_le_add_left (Nat.le_trans life most) _) timely

/-- A `write` that stands for itself, is accepted, and brings encodable records. -/
structure Write.Sound (write : Write) : Prop where
  whole : write.IsWhole
  accepted : write.refusal? = none
  brings : ∀ set, write.finding = .present set → set.Encodable

theorem Write.sound_ofSet {set : RecordSet} (encodable : set.Encodable)
    (ordinary : ¬ set.type.IsQueryOnly) (credibility : Credibility) :
    (ofSet set credibility).Sound where
  whole := trivial
  accepted := if_neg ordinary
  brings _ same := Finding.present.inj same ▸ encodable

theorem Write.sound_ofAbsence {name : Name} (absolute : name.absolute = true) (type : RecordType)
    (ttl : UInt32) (credibility : Credibility) : (ofAbsence name type ttl credibility).Sound where
  whole := trivial
  accepted := if_pos absolute
  brings _ same := nomatch same

theorem Write.Sound.succeeds {write : Write} (sound : write.Sound) {now : Duration}
    (timely : Timely now) : Op.Succeeds Cache.Sound (write.perform now) fun _ => True := by
  intro before good
  have accepted :=
    write.perform_eq_ok sound.whole sound.accepted (timely.ends write before.settings)
  refine ⟨(), (write.perform now before).2, Prod.ext accepted rfl, ?_, trivial⟩
  refine ⟨write.wellFormed_perform good.wellFormed now, fun name type entry set found said => ?_⟩
  obtain kept | ⟨-, made, -⟩ := Write.find?_perform_of_whole sound.whole found
  · exact good.sets name type entry set kept said
  · exact sound.brings set (made ▸ said)

theorem succeeds_performAll {writes : List Write} (sound : ∀ write ∈ writes, write.Sound)
    {now : Duration} (timely : Timely now) :
    Op.Succeeds Sound (performAll now writes) fun _ => True := by
  induction writes with
  | nil => exact .pure trivial
  | cons write writes ih =>
    rw [List.forall_mem_cons] at sound
    exact (sound.1.succeeds timely).bind fun _ _ => ih sound.2

/-! ## Messages -/

/-- The names on the `trail` of an encodable answer section are absolute. -/
theorem absolute_of_mem_trail {question : Question} {sets : List RecordSet}
    (encodable : RecordSet.AllEncodable sets) {name : Name} (absolute : name.absolute = true) :
    ∀ stop ∈ trail question sets name, stop.absolute = true := by
  have alone {name : Name} (absolute : name.absolute = true) :
      ∀ stop ∈ [name], stop.absolute = true := List.forall_mem_singleton.mpr absolute
  induction sets generalizing name with
  | nil => exact alone absolute
  | cons set sets ih =>
    rw [RecordSet.AllEncodable, List.forall_mem_cons] at encodable
    unfold trail
    split
    · exact ih encodable.2 absolute
    split
    · rename_i next leads
      refine List.forall_mem_cons.mpr ⟨absolute, ih encodable.2 ?_⟩
      unfold aliasTo at leads
      have first := encodable.1.first
      cases data : set.first with
      | cname target =>
        rw [data] at leads first
        dsimp only at leads
        split at leads
        · obtain rfl := Option.some.inj (Except.ok.inj leads)
          exact first
        · cases leads
      | dname target =>
        rw [data] at leads first
        exact (Name.rewrite?_eq_some_iff.mp leads).2.2.trans first
      | _ =>
        rw [data] at leads
        cases leads
    · exact ih encodable.2 absolute
    · exact alone absolute

/-- All that an `Encodable` `message` writes is `Sound`. -/
theorem sound_of_mem_writesOf {message : Message} (encodable : message.Encodable) {write : Write}
    (member : write ∈ writesOf message) : write.Sound := by
  obtain ⟨set, credibility, rfl, ordinary, place, among⟩ |
    ⟨question, first, type, ttl, credibility, rfl, -⟩ := mem_writesOf_cases member
  · exact Write.sound_ofSet (encodable.sets place set among) ordinary credibility
  · have absolute := encodable.questions.each question (List.mem_of_mem_head? first)
    exact Write.sound_ofAbsence (absolute_of_mem_trail (encodable.sets .answer) absolute _
      (List.getLast_mem _)) type ttl credibility

/-- Adding an `Encodable` `message` succeeds. -/
theorem succeeds_addMessage {message : Message} (encodable : message.Encodable) {now : Duration}
    (timely : Timely now) : Op.Succeeds Sound (addMessage message now) fun _ => True := by
  rw [addMessage_eq]
  exact (succeeds_performAll (fun _ => sound_of_mem_writesOf encodable) timely).bind
    fun _ _ => .pure trivial

end Cache

/-! ## Delegations -/

namespace Delegations

open Cache (Timely)

/-- All records that the `delegations` remember are encodable. -/
def Sound (delegations : Delegations) : Prop := delegations.cache.Sound

theorem succeeds_onCache {α : Type} {op : Op Cache α} {P : α → Prop}
    (succeeds : Op.Succeeds Cache.Sound op P) : Op.Succeeds Sound (onCache op) P :=
  .onPart (fun _ sound => sound) (fun _ _ _ sound => sound) succeeds

theorem succeeds_addGlue (servers : RecordSet) {now : Duration} (timely : Timely now)
    {glue : List RecordSet} (encodable : RecordSet.AllEncodable glue) :
    Op.Succeeds Cache.Sound (addGlue servers now glue) fun _ => True := by
  induction glue with
  | nil => exact .pure trivial
  | cons set sets ih =>
    rw [RecordSet.AllEncodable, List.forall_mem_cons] at encodable
    unfold addGlue
    by_cases useful : set.type.IsAddress ∧ servers.additionalNames.contains set.owner = true
    · rw [if_pos useful]
      exact ((Cache.Write.sound_ofSet encodable.1 useful.1.ordinary.1 .glue).succeeds timely).bind
        fun _ _ => ih encodable.2
    · rw [if_neg useful]
      exact ih encodable.2

/-- Remembering name servers succeeds. -/
theorem succeeds_add {servers : RecordSet} (encodable : servers.Encodable)
    (kind : servers.type = .ns) {glue : List RecordSet}
    (addresses : RecordSet.AllEncodable glue) {now : Duration} (timely : Timely now) :
    Op.Succeeds Sound (add servers glue now) fun _ => True := by
  have ordinary : ¬ servers.type.IsQueryOnly := by rw [kind]; decide
  refine succeeds_onCache ?_
  rw [if_pos kind]
  split
  · exact .pure trivial
  · refine ((Cache.Write.sound_ofSet encodable ordinary .hint).succeeds timely).bind fun _ _ => ?_
    exact (succeeds_addGlue servers timely addresses).bind fun _ _ => .pure trivial

theorem succeeds_serverAddresses {server : Name} (absolute : server.absolute = true)
    (now : Duration) (types : List RecordType) :
    Op.Succeeds Cache.Sound (serverAddresses server now types) fun _ => True := by
  induction types with
  | nil => exact .pure trivial
  | cons type types ih =>
    exact (Cache.succeeds_lookup absolute type .glue now).bind fun _ _ => ih.bind fun _ _ =>
      .pure trivial

theorem succeeds_allAddresses (now : Duration) {servers : List Name}
    (absolute : ∀ server ∈ servers, server.absolute = true) :
    Op.Succeeds Cache.Sound (allAddresses now servers) fun _ => True := by
  induction servers with
  | nil => exact .pure trivial
  | cons server servers ih =>
    rw [List.forall_mem_cons] at absolute
    exact (succeeds_serverAddresses absolute.1 now _).bind fun _ _ =>
      (ih absolute.2).bind fun _ _ => .pure trivial

theorem succeeds_zoneAddresses {zone : Name} (absolute : zone.absolute = true) (now : Duration) :
    Op.Succeeds Cache.Sound (zoneAddresses zone now) fun _ => True := by
  refine (Cache.succeeds_lookup absolute .ns .hint now).bind fun found encodable => ?_
  cases found with
  | successful sets =>
    refine succeeds_allAddresses now fun server member => ?_
    obtain ⟨set, among, mentions⟩ := List.mem_flatMap.mp member
    exact (encodable set among).additionalNames server mentions
  | _ => exact .pure trivial

theorem succeeds_deepest (port : UInt16) (now : Duration) (found : Option (Name × List Endpoint))
    {zones : List Name} (absolute : ∀ zone ∈ zones, zone.absolute = true) :
    Op.Succeeds Cache.Sound (deepest port now found zones) fun _ => True := by
  induction zones generalizing found with
  | nil => exact .pure trivial
  | cons zone zones ih =>
    rw [List.forall_mem_cons] at absolute
    refine (succeeds_zoneAddresses absolute.1 now).bind fun addresses _ => ?_
    split
    · exact ih _ absolute.2
    · exact ih _ absolute.2

/-- Looking for the servers around an absolute `name` succeeds. -/
theorem succeeds_serversFor {name : Name} (absolute : name.absolute = true) (port : UInt16)
    (now : Duration) : Op.Succeeds Sound (serversFor name port now) fun _ => True := by
  refine succeeds_onCache (succeeds_deepest port now none fun zone member => ?_)
  have among := (List.mem_filter.mp (List.mem_reverse.mp member)).1
  rw [(Name.mem_suffixes.mp among).1, absolute]

end Delegations

end NameResolution
