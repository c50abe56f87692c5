import NameResolution.Proofs.Cache.Persistence
import NameResolution.Proofs.Cache.Views

/-!
# The accesses to a cache

Whatever happens to a cache comes down to a few kinds of accesses to its store, one after the other.
Most of them are about one name. Looking for an entry of a name and putting one in use the name;
removing or replacing an entry does not.

* `Cache.Access`: an access. `Cache.Access.perform`: what it does. `Cache.Access.used?`: the name
  that it uses.
* `Cache.Action.accesses`: the accesses that an action comes down to.
  `Cache.Action.operate_accesses`: they do all that the action does.
* `Cache.Scene.accesses`, `Cache.Scene.cache_run`: the same for a run.
-/

namespace NameResolution

namespace Cache

/-- An `Access` to the store of a cache. -/
inductive Access
  | find (name : Name) (type : RecordType) (now : Duration)
  | collect (name : Name) (request : Request)
  | insert (name : Name) (entry : Entry)
  | replace (name : Name) (entry : Entry)
  | remove (name : Name) (type : RecordType)
  | removeName (name : Name)
  | evict
  | clear
  | configure (settings : CacheSettings)

namespace Access

/-- What an `Access` does to a `cache`. -/
def perform (cache : Cache) : Access → Cache
  | find name type now => (live name type now cache).2
  | collect name request => (Cache.collect request name cache).2
  | insert name entry => cache.insert name entry
  | replace name entry => cache.replace name entry
  | remove name type => cache.remove name type
  | removeName name => cache.removeName name
  | evict => cache.evict
  | clear => cache.clear
  | configure settings => { cache with settings := settings }

/-- The `name` that an `Access` uses: one for which an entry is put in, or one that is found when
its entries are looked for. -/
def used? (cache : Cache) : Access → Option Name
  | find name _ _ | collect name _ => if (cache.entries? name).isSome then some name.fold else none
  | insert name _ => some name.fold
  | _ => none

/-- What accesses do one after the other. -/
def performAll (cache : Cache) (accesses : List Access) : Cache := accesses.foldl perform cache

theorem performAll_append (cache : Cache) (accesses more : List Access) :
    performAll cache (accesses ++ more) = performAll (performAll cache accesses) more :=
  List.foldl_append

end Access

/-! ## Reading -/

/-- What `first` finds, or else what `next` finds. -/
def orElse (first next : StateM Cache (Option Lookup)) : StateM Cache (Option Lookup) := do
  match ← first with
  | some found => return some found
  | none => next

theorem orElse_assoc (first next last : StateM Cache (Option Lookup)) :
    orElse (orElse first next) last = orElse first (orElse next last) := by
  unfold orElse
  rw [bind_assoc]
  refine congrArg _ (funext fun found => ?_)
  cases found <;> rfl

/-- What the place of a `reading` shows to a `request`. -/
def Reading.read (reading : Reading) (request : Request) : StateM Cache (Option Lookup) :=
  return (← trusted request reading.name reading.type).bind
    (reading.aspect.shows <| ·.findingAt request.now)

/-- Reads the places of `readings` one after the other, up to the first one that shows something. -/
def readFirst (request : Request) : List Reading → StateM Cache (Option Lookup)
  | [] => return none
  | reading :: readings => orElse (reading.read request) (readFirst request readings)

/-- The accesses of reading places one after the other. -/
def readAccesses (request : Request) (cache : Cache) : List Reading → List Access
  | [] => []
  | reading :: readings => .find reading.name reading.type request.now ::
    if (reading.view cache request).isSome then []
    else readAccesses request (cache.sweep reading.name reading.type request.now) readings

theorem Reading.read_apply (reading : Reading) (request : Request) (cache : Cache) :
    reading.read request cache = (reading.view cache request,
      cache.sweep reading.name reading.type request.now) := by
  unfold Reading.read
  rw [stateM_bind_apply, trusted_apply]
  rfl

theorem readFirst_snd (request : Request) (readings : List Reading) (cache : Cache) :
    (readFirst request readings cache).2 =
      Access.performAll cache (readAccesses request cache readings) := by
  induction readings generalizing cache with
  | nil => rfl
  | cons reading readings ih =>
    unfold readFirst readAccesses orElse
    rw [stateM_bind_apply, reading.read_apply]
    cases reading.view cache request with
    | some found => rfl
    | none => exact ih _

theorem readFirst_append (request : Request) (readings more : List Reading) :
    readFirst request (readings ++ more) =
      orElse (readFirst request readings) (readFirst request more) := by
  induction readings with
  | nil => rfl
  | cons reading readings ih => rw [List.cons_append, readFirst, ih, ← orElse_assoc, readFirst]

/-- The last place is read like the others, so `readFirst` needs no case for it. -/
theorem readFirst_singleton (request : Request) (reading : Reading) :
    readFirst request [reading] = reading.read request := by
  refine (bind_congr fun found => ?_).trans (bind_pure (reading.read request))
  cases found <;> rfl

/-- To look for records (`trustedSet`) is to read a place that shows nothing else. -/
theorem trustedSet_eq_read (request : Request) (name : Name) (type : RecordType) (aspect : Aspect)
    (found : RecordSet → Lookup) (present : ∀ set, aspect.shows (.present set) = some (found set))
    (absent : ∀ type, aspect.shows (.absent type) = none) :
    (do return (← trustedSet request name type).map found) =
      Reading.read ⟨name, type, aspect⟩ request := by
  unfold trustedSet Reading.read
  simp only [bind_assoc, pure_bind]
  refine congrArg _ (funext fun entry => ?_)
  cases entry with
  | none => rfl
  | some entry =>
    simp only [Option.bind_some, setAt?_eq]
    cases entry.findingAt request.now with
    | present set => simp [present]
    | absent type => simp [absent]

section

variable (request : Request) (name : Name)

theorem read_cname : Reading.read ⟨name, .cname, .cname⟩ request =
    do return (← trustedSet request name .cname).map .cname :=
  (trustedSet_eq_read request name .cname .cname .cname (fun _ => rfl) fun _ => rfl).symm

theorem read_dname : Reading.read ⟨name, .dname, .dname⟩ request =
    do return (← trustedSet request name .dname).map .dname :=
  (trustedSet_eq_read request name .dname .dname .dname (fun _ => rfl) fun _ => rfl).symm

theorem read_servers : Reading.read ⟨name, .ns, .servers⟩ request =
    do return (← trustedSet request name .ns).map .delegation :=
  (trustedSet_eq_read request name .ns .servers .delegation (fun _ => rfl) fun _ => rfl).symm

theorem read_missing : Reading.read ⟨name, .nothing, .missing⟩ request =
    do return (← trusted request name .nothing).map fun _ => .nxDomain := by
  refine bind_congr fun entry => ?_
  cases entry <;> rfl

theorem lookupAtAncestor_eq :
    lookupAtAncestor request name = readFirst request (readingsAbove name) := by
  unfold lookupAtAncestor readingsAbove
  rw [readFirst, readFirst_singleton, read_dname, read_servers, orElse, bind_assoc]
  refine bind_congr fun set => ?_
  cases set <;> rfl

theorem lookupAtName_eq : lookupAtName request name =
    orElse (lookupExact request name) (readFirst request (readingsBeside name)) := by
  unfold lookupAtName readingsBeside
  rw [readFirst, readFirst_singleton, read_servers, read_missing, orElse]
  refine bind_congr fun found => ?_
  cases found with
  | some found => rfl
  | none =>
    refine Eq.trans ?_ (bind_assoc ..).symm
    refine bind_congr fun set => ?_
    cases set <;> rfl

theorem lookupExact_eq (single : request.type ≠ .any) : lookupExact request name =
    readFirst request [⟨name, request.type, .answer⟩, ⟨name, .cname, .cname⟩] := by
  unfold lookupExact
  rw [if_neg single, readFirst, readFirst_singleton, read_cname, orElse, Reading.read, bind_assoc]
  refine bind_congr fun entry => ?_
  cases entry with
  | none => rfl
  | some entry =>
    rw [pure_bind, Option.bind_some]
    simp only [setAt?_eq]
    cases entry.findingAt request.now <;> rfl

theorem lookupAbove_eq (ancestors : List Name) : lookupAbove request ancestors =
    (·.getD .unknown) <$> readFirst request (ancestors.flatMap readingsAbove) := by
  induction ancestors with
  | nil => rfl
  | cons ancestor ancestors ih =>
    rw [lookupAbove, List.flatMap_cons, readFirst_append, ← lookupAtAncestor_eq, ih, orElse,
      map_bind]
    refine bind_congr fun found => ?_
    cases found <;> rfl

/-- A lookup looks for the data asked for or an alias of the `name`, and then reads the other places
one after the other. -/
theorem lookupSuffixes_eq : lookupSuffixes request name.suffixes =
    (·.getD .unknown) <$> orElse (lookupExact request name)
      (readFirst request (readingsPast name.suffixes)) := by
  obtain ⟨ancestors, suffixes⟩ := suffixes_eq_cons name
  rw [suffixes, lookupSuffixes, readingsPast, readFirst_append, ← orElse_assoc, ← lookupAtName_eq,
    orElse, map_bind]
  refine bind_congr fun found => ?_
  cases found with
  | some found => rfl
  | none => exact lookupAbove_eq request ancestors

end

/-- The accesses of looking for the data asked for or an alias of the `name`. -/
def exactAccesses (request : Request) (name : Name) (cache : Cache) : List Access :=
  if request.type = .any then [.collect name request]
  else readAccesses request cache [⟨name, request.type, .answer⟩, ⟨name, .cname, .cname⟩]

theorem lookupExact_snd (request : Request) (name : Name) (cache : Cache) :
    (lookupExact request name cache).2 =
      Access.performAll cache (exactAccesses request name cache) := by
  unfold exactAccesses
  split
  · rename_i everything
    unfold lookupExact
    rw [if_pos everything]
    rfl
  · rename_i single
    rw [lookupExact_eq request name single, readFirst_snd]

/-- The accesses of a `lookup`: names beyond the limit go (`evict`), and then places are read until
something is found. -/
def lookupAccesses (request : Request) (name : Name) (cache : Cache) : List Access :=
  if name.absolute then
    .evict :: (exactAccesses request name cache.evict ++
      if (lookupExact request name cache.evict).1.isSome then []
      else
        readAccesses request (lookupExact request name cache.evict).2 (readingsPast name.suffixes))
  else []

theorem lookup_snd (name : Name) (type : RecordType) (least : Credibility) (now : Duration)
    (cache : Cache) : (lookup name type least now cache).2 =
      Access.performAll cache (lookupAccesses ⟨type, least, now⟩ name cache) := by
  unfold lookupAccesses
  cases absolute : name.absolute with
  | false => rw [lookup_relative absolute]; rfl
  | true =>
    have exact := lookupExact_snd ⟨type, least, now⟩ name cache.evict
    rw [lookup_apply absolute, lookupSuffixes_eq, stateM_map_apply, if_pos rfl]
    show _ = Access.performAll cache.evict _
    rw [Access.performAll_append, ← exact, orElse, stateM_bind_apply]
    rcases lookupExact ⟨type, least, now⟩ name cache.evict with ⟨found | _, middle⟩
    · exact readFirst_snd _ _ middle
    · rfl

/-! ## Writing -/

/-- The `Access` that makes a `Change` to the `entry` for a `name` and `type`. -/
def Change.accesses (name : Name) (type : RecordType) : Change → List Access
  | keep => []
  | remove => [.remove name type]
  | replace entry => [.replace name entry]
  | insert entry => [.insert name entry]

/-- The `accesses` of a `write`, unless it is refused: it looks for the entry for its name and type,
and makes its change. -/
def Write.accesses (write : Write) (now : Duration) (cache : Cache) : List Access :=
  if write.refusal?.isSome then []
  -- Some writes look for their entry twice, which leaves the same cache as looking for it once.
  else .find write.name write.type now ::
    (write.verdict (cache.current? write.name write.type now) now cache.settings).2.accesses
      write.name write.type

theorem Change.apply_eq (name : Name) (type : RecordType) (change : Change) (cache : Cache) :
    change.apply name type cache = Access.performAll cache (change.accesses name type) := by
  cases change <;> rfl

theorem Write.perform_snd (write : Write) (now : Duration) (cache : Cache) :
    (write.perform now cache).2 = Access.performAll cache (write.accesses now cache) := by
  rw [write.perform_apply, Write.accesses]
  cases write.refusal? with
  | some misuse => rfl
  | none => exact Change.apply_eq _ _ _ _

/-- The `accesses` of writes one after the other, until one is refused. -/
def writesAccesses (now : Duration) : List Write → Cache → List Access
  | [], _ => []
  | write :: writes, cache => write.accesses now cache ++
    match (write.perform now cache).1 with
    | .ok _ => writesAccesses now writes (write.perform now cache).2
    | .error _ => []

theorem performAll_snd (now : Duration) (writes : List Write) (cache : Cache) :
    (performAll now writes cache).2 =
      Access.performAll cache (writesAccesses now writes cache) := by
  induction writes generalizing cache with
  | nil => rfl
  | cons write writes ih =>
    rw [performAll, writesAccesses, Access.performAll_append, ← write.perform_snd, Op.bind_apply]
    rcases write.perform now cache with ⟨misuse | _, middle⟩
    · rfl
    · exact ih middle

/-! ## Actions and runs -/

/-- The `accesses` that an `action` comes down to. -/
def Action.accesses (now : Duration) (cache : Cache) : Action → List Access
  | .lookup name type least => lookupAccesses ⟨type, least, now⟩ name cache
  | .findRecords name type => lookupAccesses ⟨type, .normal, now⟩ name cache
  | .flushName name => [.removeName name]
  | .flushSet name type => [.remove name type]
  | .clear => [.clear]
  | .setMaxNames value => [.configure (cache.settings.setMaxNames value)]
  | .setMaxLife value => [.configure (cache.settings.setMaxLife value)]
  | .setMaxNegativeLife value => [.configure (cache.settings.setMaxNegativeLife value)]
  | action => writesAccesses now action.writes cache

/-- An `action` does what its `accesses` do. -/
theorem Action.operate_accesses (action : Action) (now : Duration) (cache : Cache) :
    (action.operate now cache).2 = Access.performAll cache (action.accesses now cache) := by
  -- Three of the actions are a single write each, a response is several, and the lookups read.
  have wrote (write : Write) : (write.perform now cache).2 =
      Access.performAll cache (writesAccesses now [write] cache) := by
    rw [← performAll_snd, performAll_singleton]
  cases action with
  | addRecord record credibility => exact wrote (.ofRecord record credibility)
  | addSet set credibility => exact wrote (.ofSet set credibility)
  | addNegative name type soa credibility =>
    simp only [operate, Cache.addNegative, Op.bind_apply, Op.ofExcept_apply, accesses, writes]
    cases absenceTtl soa with
    | ok ttl => exact wrote (.ofAbsence name type ttl credibility)
    | error misuse => rfl
  | addMessage message =>
    simp only [operate, addMessage_eq, bind_assoc, pure_bind, bind_pure_unit]
    exact performAll_snd now (writesOf message) cache
  | lookup name type least =>
    simp only [operate, bind_pure_comp, Op.map_apply]
    exact lookup_snd name type least now cache
  | findRecords name type =>
    simp only [operate, Cache.findRecords, bind_pure_comp, Op.map_apply]
    exact lookup_snd name type .normal now cache
  | _ => rfl

/-- The `accesses` that some `actions` come down to. -/
def Scene.accesses (scene : Scene) : List Action → List Access
  | [] => []
  | action :: actions =>
    action.accesses scene.now scene.cache ++ (scene.after action).accesses actions

/-- A `run` does what its `accesses` do. -/
theorem Scene.cache_run (scene : Scene) (actions : List Action) :
    (scene.run actions).cache = Access.performAll scene.cache (scene.accesses actions) := by
  induction actions generalizing scene with
  | nil => rfl
  | cons action actions ih =>
    rw [run_cons, ih, Scene.accesses, Access.performAll_append, ← action.operate_accesses]
    rfl

end Cache

end NameResolution
