import Mathlib.Data.List.Perm.Subperm
import NameResolution.Proofs.Cache.Filling

/-!
# What lookups read

A lookup for a single type reads a fixed list of places one after the other, and finds what the
first of them shows.

* `Cache.Reading`: a place that is read, and what it is read for.
* `Cache.readings`: the places that are read for a name and a type, in order.
* `Cache.lookup_or`, `Cache.lookup_eq`: a lookup finds what the first of these places shows.
* `Cache.Mirrors.lookup`: so do lookups one after the other, as long as the cache has room.
-/

namespace NameResolution

/-- What an `entry` says at a time. -/
def Entry.findingAt (entry : Entry) (now : Duration) : Finding :=
  match entry.finding with
  | .present set => .present { set with ttl := entry.ttlAt now }
  | .absent type => .absent type

namespace Cache

/-- What a place is read for: the data that is asked for, an alias of the name or of a subtree, the
`servers` of a zone, or that there is no such name. -/
inductive Aspect
  | answer
  | cname
  | dname
  | servers
  | missing

/-- What is found where a finding is met. -/
def Aspect.shows : Aspect → Finding → Option Lookup
  | answer, .present set => some (.successful [set])
  | answer, .absent _ => some .nxRrset
  | cname, .present set => some (.cname set)
  | dname, .present set => some (.dname set)
  | servers, .present set => some (.delegation set)
  | missing, _ => some .nxDomain
  | _, .absent _ => none

/-- A place that a `lookup` reads: a name and type, and the `Aspect` it is read for. -/
structure Reading where
  name : Name
  type : RecordType
  aspect : Aspect

/-- What a place shows to a `request`. -/
def Reading.view (reading : Reading) (cache : Cache) (request : Request) : Option Lookup :=
  ((cache.current? reading.name reading.type request.now).filter
    (request.least ≤ ·.credibility)).bind (reading.aspect.shows <| ·.findingAt request.now)

/-- The places that are read at the `name` itself. -/
def readingsAt (type : RecordType) (name : Name) : List Reading :=
  [⟨name, type, .answer⟩, ⟨name, .cname, .cname⟩, ⟨name, .ns, .servers⟩,
    ⟨name, .nothing, .missing⟩]

/-- The places that are read at an `ancestor` of the name. -/
def readingsAbove (ancestor : Name) : List Reading :=
  [⟨ancestor, .dname, .dname⟩, ⟨ancestor, .ns, .servers⟩]

/-- The places that are read for a `type` at a `name` with its `ancestors`. -/
def readings (type : RecordType) : List Name → List Reading
  | [] => []
  | name :: ancestors => readingsAt type name ++ ancestors.flatMap readingsAbove

/-- The places that are read at the `name` itself besides the data asked for and an alias. -/
def readingsBeside (name : Name) : List Reading :=
  [⟨name, .ns, .servers⟩, ⟨name, .nothing, .missing⟩]

/-- The places that are read besides the data asked for and an alias of the `name`. -/
def readingsPast : List Name → List Reading
  | [] => []
  | name :: ancestors => readingsBeside name ++ ancestors.flatMap readingsAbove

theorem exists_readings_eq (type : RecordType) (name : Name) :
    ∃ later, readings type name.suffixes =
      ⟨name, type, .answer⟩ :: ⟨name, .cname, .cname⟩ :: later := by
  obtain ⟨ancestors, suffixes⟩ := suffixes_eq_cons name
  exact ⟨_, congrArg (readings type) suffixes⟩

/-! ## Reading places -/

theorem view_congr {cache other : Cache} {request : Request}
    (same : ∀ name type, other.current? name type request.now =
      cache.current? name type request.now) (reading : Reading) :
    reading.view other request = reading.view cache request := by
  unfold Reading.view
  rw [same]

theorem setAt?_eq (entry : Entry) (now : Duration) : entry.setAt? now =
    match entry.findingAt now with
    | .present set => some set
    | .absent _ => none := by
  unfold Entry.setAt? Entry.findingAt
  cases entry.finding <;> rfl

section

variable (request : Request) (name : Name) (cache : Cache)

theorem trustedSet_apply (type : RecordType) :
    trustedSet request name type cache =
      (((cache.current? name type request.now).filter (request.least ≤ ·.credibility)).bind
        (·.setAt? request.now), cache.sweep name type request.now) := by
  unfold trustedSet
  rw [stateM_bind_apply, trusted_apply]
  rfl

/-- What a place is read for whose `aspect` only shows records. -/
theorem trustedSet_map (type : RecordType) (aspect : Aspect) (found : RecordSet → Lookup)
    (shows : ∀ finding, aspect.shows finding = match finding with
      | .present set => some (found set)
      | .absent _ => none) :
    (trustedSet request name type cache).1.map found =
      Reading.view ⟨name, type, aspect⟩ cache request := by
  rw [trustedSet_apply, Reading.view]
  cases (cache.current? name type request.now).filter (request.least ≤ ·.credibility) with
  | none => rfl
  | some entry =>
    simp only [Option.bind_some, shows, setAt?_eq]
    cases entry.findingAt request.now <;> rfl

end

/-! ## Lookups -/

theorem lookupExact_fst (request : Request) (name : Name) (cache : Cache)
    (single : request.type ≠ .any) :
    (lookupExact request name cache).1 =
      (Reading.view ⟨name, request.type, .answer⟩ cache request).or
        (Reading.view ⟨name, .cname, .cname⟩ cache request) := by
  unfold lookupExact
  rw [if_neg single, stateM_bind_apply, trusted_apply,
    Reading.view.eq_1 ⟨name, request.type, .answer⟩]
  dsimp only
  cases (cache.current? name request.type request.now).filter
    (request.least ≤ ·.credibility) with
  | none =>
    have swept := view_congr (current?_sweep cache name request.type request.now)
      ⟨name, .cname, .cname⟩
    have shown := trustedSet_map request name (cache.sweep name request.type request.now) .cname
      .cname .cname fun finding => by cases finding <;> rfl
    rw [Option.bind_none, Option.none_or, ← swept, ← shown]
    rfl
  | some entry =>
    simp only [Option.bind_some, stateM_pure_apply, setAt?_eq]
    cases entry.findingAt request.now <;> rfl

/-- A `name` that does not exist is told by any entry that says so. -/
theorem trusted_map_missing (request : Request) (name : Name) (cache : Cache) :
    ((trusted request name .nothing cache).1.map fun _ => Lookup.nxDomain) =
      Reading.view ⟨name, .nothing, .missing⟩ cache request := by
  rw [trusted_apply, Reading.view]
  cases (cache.current? name .nothing request.now).filter (request.least ≤ ·.credibility) <;> rfl

/-- What is found at the `name` itself besides the data asked for and an alias of the name is what
the first of the other places shows. -/
theorem lookupAtName_or (request : Request) (name : Name) {cache : Cache}
    (shape : cache.WellFormed) :
    (lookupAtName request name cache).1 = (lookupExact request name cache).1.or
      ((readingsBeside name).findSome? (·.view cache request)) := by
  have shed := sheds_lookupExact request name cache shape
  unfold lookupAtName
  rw [stateM_bind_apply]
  generalize lookupExact request name cache = exact at shed
  obtain ⟨found, middle⟩ := exact
  dsimp only at shed
  simp only [readingsBeside, List.findSome?_cons]
  cases found with
  | some found => rfl
  | none =>
    -- What is read for the data has dropped nothing that counts, so the later places show what they
    -- did.
    have shown := trustedSet_map request name middle .ns .servers .delegation
      fun finding => by cases finding <;> rfl
    have further := sheds_trustedSet request name .ns middle shed.wellFormed
    rw [view_congr shed.current?] at shown
    simp only [stateM_bind_apply]
    generalize trustedSet request name .ns middle = servers at shown further
    obtain ⟨set, last⟩ := servers
    dsimp only at shown further
    rw [← shown]
    cases set with
    | some set => rfl
    | none =>
      have missing := trusted_map_missing request name last
      rw [view_congr fun name type => (further.current? name type).trans
        (shed.current? name type)] at missing
      simp only [← missing, Option.map_none, stateM_bind_apply, stateM_pure_apply]
      cases (trusted request name .nothing last).1 <;> rfl

/-- What is found at an `ancestor` of the name is what the first of its places shows. -/
theorem lookupAtAncestor_fst (request : Request) (ancestor : Name) {cache : Cache}
    (shape : cache.WellFormed) :
    (lookupAtAncestor request ancestor cache).1 =
      (readingsAbove ancestor).findSome? (·.view cache request) := by
  have shown := trustedSet_map request ancestor cache .dname .dname .dname
    fun finding => by cases finding <;> rfl
  have shed := sheds_trustedSet request ancestor .dname cache shape
  unfold lookupAtAncestor
  rw [stateM_bind_apply]
  generalize trustedSet request ancestor .dname cache = subtree at shown shed
  obtain ⟨set, middle⟩ := subtree
  dsimp only at shown shed
  simp only [readingsAbove, List.findSome?_cons, List.findSome?_nil]
  rw [← shown]
  cases set with
  | some set => rfl
  | none =>
    have servers := trustedSet_map request ancestor middle .ns .servers .delegation
      fun finding => by cases finding <;> rfl
    rw [view_congr shed.current?] at servers
    simp only [← servers, Option.map_none, stateM_bind_apply, stateM_pure_apply]
    cases (trustedSet request ancestor .ns middle).1 <;> rfl

theorem lookupAbove_fst (request : Request) (ancestors : List Name) {cache : Cache}
    (shape : cache.WellFormed) :
    (lookupAbove request ancestors cache).1 =
      ((ancestors.flatMap readingsAbove).findSome? (·.view cache request)).getD .unknown := by
  induction ancestors generalizing cache with
  | nil => rfl
  | cons ancestor ancestors ih =>
    have here := lookupAtAncestor_fst request ancestor shape
    have shed := sheds_lookupAtAncestor request ancestor cache shape
    unfold lookupAbove
    rw [stateM_bind_apply, List.flatMap_cons, List.findSome?_append, ← here]
    generalize lookupAtAncestor request ancestor cache = atAncestor at shed
    obtain ⟨found, middle⟩ := atAncestor
    cases found with
    | some found => rfl
    | none =>
      have above := ih shed.wellFormed
      rw [funext (view_congr shed.current?)] at above
      exact above

/-- A `lookup` finds the data asked for or an alias of the `name`, or else what the first of the
other places shows. -/
theorem lookup_or {name : Name} (absolute : name.absolute = true) (type : RecordType)
    (least : Credibility) (now : Duration) {cache : Cache} (shape : cache.WellFormed) :
    (lookup name type least now cache).1 =
      .ok (((lookupExact ⟨type, least, now⟩ name cache.evict).1.or
        ((readingsPast name.suffixes).findSome? (·.view cache.evict ⟨type, least, now⟩))).getD
          .unknown) := by
  obtain ⟨ancestors, suffixes⟩ := suffixes_eq_cons name
  have here := lookupAtName_or ⟨type, least, now⟩ name shape.evict
  have shed := sheds_lookupAtName ⟨type, least, now⟩ name cache.evict shape.evict
  rw [lookup_apply absolute, suffixes, lookupSuffixes, stateM_bind_apply, readingsPast,
    List.findSome?_append, ← Option.or_assoc, ← here]
  generalize lookupAtName ⟨type, least, now⟩ name cache.evict = atName at shed
  obtain ⟨found, middle⟩ := atName
  cases found with
  | some found => rfl
  | none =>
    have above := lookupAbove_fst ⟨type, least, now⟩ ancestors shed.wellFormed
    rw [funext (view_congr shed.current?)] at above
    exact congrArg Except.ok above

/-- A `lookup` for a single `type` finds what the first place shows that it reads. -/
theorem lookup_eq {name : Name} (absolute : name.absolute = true) {type : RecordType}
    (single : type ≠ .any) (least : Credibility) (now : Duration) {cache : Cache}
    (shape : cache.WellFormed) :
    (lookup name type least now cache).1 = .ok (((readings type name.suffixes).findSome?
      (·.view cache.evict ⟨type, least, now⟩)).getD .unknown) := by
  obtain ⟨ancestors, suffixes⟩ := suffixes_eq_cons name
  have split : readings type name.suffixes =
      [⟨name, type, .answer⟩, ⟨name, .cname, .cname⟩] ++ readingsPast name.suffixes := by
    rw [suffixes]
    rfl
  rw [lookup_or absolute type least now shape, lookupExact_fst _ name _ single, split,
    List.findSome?_append]
  simp only [List.findSome?_cons, List.findSome?_nil]
  cases Reading.view ⟨name, type, .answer⟩ cache.evict ⟨type, least, now⟩ with
  | some found => rfl
  | none => cases Reading.view ⟨name, .cname, .cname⟩ cache.evict ⟨type, least, now⟩ <;> rfl

/-! ## Lookups one after the other -/

/-- Reading a `Cache` makes it no larger. -/
theorem Shed.size_le {now : Duration} {before after : Cache} (shed : Shed now before after) :
    after.size ≤ before.size := by
  have subset : after.names.map Prod.fst ⊆ before.names.map Prod.fst := by
    intro key member
    obtain ⟨item, among, rfl⟩ := List.mem_map.mp member
    have folded := shed.wellFormed.folded item among
    cases kept : before.entries? item.1 with
    | none =>
      have gone := shed.unknown item.1 kept
      rw [entries?_eq, folded, Option.map_eq_none_iff, List.find?_eq_none] at gone
      exact absurd (decide_eq_true rfl) (gone item among)
    | some entries =>
      have known := List.mem_map_of_mem (f := Prod.fst) (mem_of_entries? kept)
      rwa [folded] at known
  have fewer := (List.subperm_of_subset shed.wellFormed.distinct subset).length_le
  rwa [List.length_map, List.length_map] at fewer

/-- In a `cache` with `room`, a `lookup` finds what the first place shows that it reads. Nothing
goes but what no longer counts. -/
theorem lookup_of_room {cache : Cache} (shape : cache.WellFormed)
    (room : cache.size ≤ cache.settings.maxNames) {name : Name} (absolute : name.absolute = true)
    {type : RecordType} (single : type ≠ .any) (least : Credibility) (now : Duration) :
    ∃ next, Shed now cache next ∧ Cache.lookup name type least now cache =
      (.ok (((readings type name.suffixes).findSome?
        (·.view cache ⟨type, least, now⟩)).getD .unknown), next) := by
  have found := lookup_eq absolute single least now shape
  have shed := sheds_lookupSuffixes ⟨type, least, now⟩ name.suffixes cache shape
  rw [lookup_apply absolute, evict_of_room room] at found ⊢
  exact ⟨_, shed, Prod.ext found rfl⟩

theorem Shed.room {now : Duration} {before after : Cache} (shed : Shed now before after)
    (room : before.size ≤ before.settings.maxNames) : after.size ≤ after.settings.maxNames := by
  rw [shed.settings]
  exact Nat.le_trans shed.size_le room

/-- A `cache` with room in which the same counts as in another one. -/
structure Mirrors (now : Duration) (cache other : Cache) : Prop where
  wellFormed : other.WellFormed
  room : other.size ≤ other.settings.maxNames
  current? : ∀ name type, other.current? name type now = cache.current? name type now

/-- Where there is room, a lookup finds the same in caches that are `Mirrors` of each other, and
leaves such caches. -/
theorem Mirrors.lookup {now : Duration} {cache other : Cache} (mirrors : Mirrors now cache other)
    {name : Name} (absolute : name.absolute = true) {type : RecordType} (single : type ≠ .any)
    (least : Credibility) : ∃ next, Mirrors now cache next ∧
      Cache.lookup name type least now other = (.ok (((readings type name.suffixes).findSome?
        (·.view cache ⟨type, least, now⟩)).getD .unknown), next) := by
  obtain ⟨next, shed, found⟩ :=
    lookup_of_room mirrors.wellFormed mirrors.room absolute single least now
  refine ⟨next, ⟨shed.wellFormed, shed.room mirrors.room, fun name type => ?_⟩, ?_⟩
  · rw [shed.current?, mirrors.current?]
  · rw [found, funext (view_congr mirrors.current?)]

end Cache

end NameResolution
