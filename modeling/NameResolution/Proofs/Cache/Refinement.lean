import Mathlib.Data.List.Nodup
import NameResolution.Proofs.Cache.Table

/-!
# Bookkeeping cannot be observed

A cache drops entries that have expired whenever it meets them, and keeps account of which names
were used. As long as no names are evicted, all that is seen of it is the table of the entries that
are alive.

* `Cache.table`: the table that a cache shows at a time.
* `Cache.perform_table`, `Cache.consult_table`, `Cache.ask_table`: writing, reading, and all other
  actions come to the same for a cache and its table. `Cache.Scene.outcomes_eq`: so do runs.
* `Cache.Table.Agrees`: tables that differ at most in the order of the entries of a name.
* `Cache.Scene.lazy_expiry_unobservable`: caches that hold the same entries that are alive cannot
  be told apart.
-/

namespace NameResolution

namespace Cache

/-! ## The table of a cache -/

/-- The entries that are alive, and the `settings`. -/
def table (cache : Cache) (now : Duration) : Table := ⟨cache.alive now, cache.settings⟩

theorem table_eq {cache : Cache} {now : Duration} {table : Table}
    (entries : ∀ name, cache.alive now name = table.entries name)
    (settings : cache.settings = table.settings) : cache.table now = table := by
  cases table
  exact congr (congrArg Table.mk (funext entries)) settings

section

variable {cache : Cache} {now : Duration}

@[simp] theorem settings_table (cache : Cache) (now : Duration) :
    (cache.table now).settings = cache.settings := rfl

theorem get?_table (shape : cache.WellFormed) (now : Duration) (name : Name) (type : RecordType) :
    (cache.table now).get? name type = cache.current? name type now :=
  find?_alive shape now name type

/-- What has ended `now` has also ended `later`. -/
theorem expire_table (cache : Cache) {now later : Duration} (order : now ≤ later) :
    (cache.table now).expire later = cache.table later := by
  refine (table_eq (fun name => ?_) rfl).symm
  show _ = List.filter _ (List.filter _ _)
  rw [alive, List.filter_filter]
  refine List.filter_congr fun entry _ => ?_
  by_cases expired : entry.IsExpired now
  · have ended : entry.IsExpired later := Nat.le_trans expired order
    simp [ended]
  · simp [expired]

/-! ## Writing -/

/-- The change that a `write` makes is to the entry for its own `type`. -/
theorem Write.isFor_verdict (write : Write) (cache : Cache) (now : Duration) :
    (write.verdict (cache.current? write.name write.type now) now cache.settings).2.IsFor
      write.type := by
  obtain keep | remove | ⟨expireAt, -, insert⟩ |
    ⟨record, old, set, expireAt, rfl, existing, said, replace, -⟩ :=
    write.verdict_cases (cache.current? write.name write.type now) now cache.settings
  · rw [keep]
    trivial
  · rw [remove]
    trivial
  · rw [insert]
    exact write.type_finding _ _
  · rw [replace]
    exact type_joined said (type_of_find? (current?_eq_some.1 existing).1)

/-- A `write` that evicts nothing does to the `table` what it does to the `cache`. -/
theorem perform_table (shape : cache.WellFormed) {write : Write}
    (kept : ∀ name, ¬ Evicts (write.perform now) cache name) :
    Table.perform now write (cache.table now) =
      ((write.perform now cache).1, (write.perform now cache).2.table now) := by
  have performed := write.perform_apply now cache
  unfold Table.perform
  cases accepted : write.refusal? with
  | some misuse =>
    rw [accepted] at performed
    rw [performed]
    rfl
  | none =>
    rw [accepted] at performed
    simp only [Op.bind_apply, Op.get_apply, Op.set_apply, Op.ofExcept_apply, get?_table shape,
      settings_table]
    refine Prod.ext (congrArg Prod.fst performed).symm (table_eq (fun other => ?_) ?_).symm
    · rw [performed]
      refine alive_apply_sweep shape write.name write.type (write.isFor_verdict cache now)
        (fun entry inserts other => ?_) other |>.trans ?_
      · exact not_mem_excess_of_inserts shape accepted inserts (kept other)
      · -- Outside the names of the write nothing that is alive has expired, so dropping it again
        -- changes nothing.
        show _ = List.filter _ (ite _ _ _)
        split
        · rfl
        · exact (List.filter_eq_self.2 fun entry member =>
            decide_eq_true (not_expired_of_mem_alive member)).symm
    · exact write.settings_perform now cache

theorem performAll_table (shape : cache.WellFormed) {writes : List Write}
    (kept : ∀ name, ¬ WritesEvict now name writes cache) :
    Table.performAll now writes (cache.table now) =
      ((performAll now writes cache).1, (performAll now writes cache).2.table now) := by
  induction writes generalizing cache with
  | nil => rfl
  | cons write writes ih =>
    have first := perform_table shape fun name evicts => kept name (.inl evicts)
    have shape' := write.wellFormed_perform shape now
    have rest := ih shape' fun name evicts => kept name (.inr evicts)
    rw [Table.performAll, performAll, Op.bind_apply, Op.bind_apply, first]
    generalize write.perform now cache = performed at rest
    obtain ⟨misuse | _, middle⟩ := performed
    · rfl
    · exact rest

/-! ## Reading -/

theorem view_table (shape : cache.WellFormed) (request : Request) (reading : Reading) :
    (cache.table request.now).view request reading = reading.view cache request := by
  rw [Table.view, get?_table shape, Reading.view]

/-- What is found at the `name` itself, of all types or of one. -/
theorem exact_table (shape : cache.WellFormed) (request : Request) (name : Name) :
    (cache.table request.now).exact request name = (lookupExact request name cache).1 := by
  by_cases any : request.type = .any
  · unfold Table.exact lookupExact
    rw [if_pos any, if_pos any]
    rfl
  · unfold Table.exact
    rw [lookupExact_fst request name cache any, if_neg any, view_table shape, view_table shape]

/-- A `lookup` that evicts nothing finds what the `table` shows, and leaves the table as it is. -/
theorem consult_table (shape : cache.WellFormed) {asked : Name} {type : RecordType}
    {least : Credibility} {op : Op Cache Unit}
    (is : ∀ cache, (op cache).2 = (lookup asked type least now cache).2)
    (kept : ∀ name, ¬ Evicts op cache name) :
    Table.consult asked type least now (cache.table now) =
      ((lookup asked type least now cache).1, (lookup asked type least now cache).2.table now) := by
  unfold Table.consult
  cases absolute : asked.absolute with
  | false =>
    rw [lookup_relative absolute]
    rfl
  | true =>
    -- A name with an entry that is alive is not among those that the limit drops.
    have within : ∀ name, cache.alive now name ≠ [] → name.fold ∉ cache.excess := by
      intro name some
      obtain ⟨entry, member⟩ := List.exists_mem_of_ne_nil _ some
      have counts : cache.current? name entry.type now = entry := by
        rw [← find?_alive shape]
        exact find?_eq_some_of_mem Entry.type (nodup_alive shape now name) member
      exact not_mem_excess_of_lookup absolute is shape counts (kept name)
    have evicted : cache.evict.table now = cache.table now :=
      table_eq (fun name => alive_evict shape within name) rfl
    have found := lookup_or absolute type least now shape
    have ⟨shape', spared⟩ := (spares_reading ⟨type, least, now⟩).lookupSuffixes asked.suffixes
      cache.evict shape.evict
    have shed := sheds_lookupSuffixes ⟨type, least, now⟩ asked.suffixes cache.evict shape.evict
    have left : (lookup asked type least now cache).2.table now = cache.evict.table now := by
      rw [lookup_apply absolute]
      exact table_eq spared shed.settings
    have views : ∀ reading : Reading, reading.view cache.evict ⟨type, least, now⟩ =
        (cache.evict.table now).view ⟨type, least, now⟩ reading := fun reading =>
      (view_table shape.evict ⟨type, least, now⟩ reading).symm
    rw [found, left, ← exact_table shape.evict ⟨type, least, now⟩ asked, funext views, evicted]
    rfl

/-! ## Actions and runs -/

/-- A `write` that evicts nothing comes to the same for a `cache` and its `table`. -/
theorem done_perform_table (shape : cache.WellFormed) {write : Write}
    (kept : ∀ name, ¬ Evicts (write.perform now) cache name) :
    (Table.ask.done <$> Table.perform now write) (cache.table now) =
      (((fun _ => Report.done) <$> write.perform now) cache).map id (·.table now) := by
  rw [Op.map_apply, Op.map_apply, perform_table shape kept]
  rfl

/-- So does a negative answer (`addNegative`). -/
theorem ask_table_addNegative (shape : cache.WellFormed) {name : Name} {type : RecordType}
    {soa : Option Record} {credibility : Credibility}
    (kept : ∀ other, ¬ WritesEvict now other
      (Action.addNegative name type soa credibility).writes cache) :
    Table.ask now (.addNegative name type soa credibility) (cache.table now) =
      ((Action.addNegative name type soa credibility).ask now cache).map id (·.table now) := by
  simp only [Table.ask, Action.ask, Action.operate, Cache.addNegative, Op.bind_apply,
    Op.map_apply, Op.ofExcept_apply]
  cases given : absenceTtl soa with
  | error misuse => rfl
  | ok ttl =>
    have kept : ∀ other, ¬ Evicts (Write.perform now (.ofAbsence name type ttl credibility)) cache
        other := fun other evicts => by
      refine kept other ?_
      simp only [Action.writes, given]
      exact .inl evicts
    have wrote := done_perform_table shape kept
    simp only [Op.map_apply] at wrote
    exact wrote

/-- So does a `message`. -/
theorem ask_table_addMessage (shape : cache.WellFormed) {message : Message}
    (kept : ∀ name, ¬ WritesEvict now name (writesOf message) cache) :
    Table.ask now (.addMessage message) (cache.table now) =
      ((Action.addMessage message).ask now cache).map id (·.table now) := by
  have same : addMessage message now =
      (fun _ => meaningOf message) <$> performAll now (writesOf message) := by
    rw [addMessage_eq, bind_pure_comp]
  simp only [Table.ask, Action.ask, same, Op.map_apply, performAll_table shape kept]
  cases performAll now (writesOf message) cache with
  | mk result after => cases result <;> rfl

/-- So does a `lookup`. -/
theorem ask_table_lookup (shape : cache.WellFormed) {name : Name} {type : RecordType}
    {least : Credibility}
    (kept : ∀ other, ¬ Evicts ((Action.lookup name type least).operate now) cache other) :
    Table.ask now (.lookup name type least) (cache.table now) =
      ((Action.lookup name type least).ask now cache).map id (·.table now) := by
  have is (cache : Cache) : ((Action.lookup name type least).operate now cache).2 =
      (lookup name type least now cache).2 := by
    simp only [Action.operate, bind_pure_comp, Op.map_apply]
  simp only [Table.ask, Action.ask, Op.map_apply, consult_table shape is kept]
  rfl

/-- So does a search for records (`findRecords`). -/
theorem ask_table_findRecords (shape : cache.WellFormed) {name : Name} {type : RecordType}
    (kept : ∀ other, ¬ Evicts ((Action.findRecords name type).operate now) cache other) :
    Table.ask now (.findRecords name type) (cache.table now) =
      ((Action.findRecords name type).ask now cache).map id (·.table now) := by
  have is (cache : Cache) : ((Action.findRecords name type).operate now cache).2 =
      (lookup name type .normal now cache).2 := by
    simp only [Action.operate, findRecords, bind_pure_comp, Op.map_apply]
  simp only [Table.ask, Action.ask, findRecords, Op.map_apply, consult_table shape is kept]
  cases lookup name type .normal now cache with
  | mk result after => cases result <;> rfl

/-- An `action` that evicts nothing comes to the same for a `cache` and its `table`. -/
theorem ask_table (shape : cache.WellFormed) {action : Action}
    (kept : ∀ name, ¬ action.Evicts now cache name) :
    Table.ask now action (cache.table now) =
      (action.ask now cache).map id (·.table (now.saturatingAdd action.span)) := by
  have still : now.saturatingAdd .zero = now := by
    simp [Duration.saturatingAdd, Duration.ofNanos, Duration.zero, now.bounded]
  have whole : ∀ name, ¬ Evicts (action.operate now) cache name := fun name evicts =>
    kept name (.inl evicts)
  have parts : ∀ name, ¬ WritesEvict now name action.writes cache := fun name evicts =>
    kept name (.inr evicts)
  cases action
  case advance span => exact Prod.ext rfl (expire_table cache (now.le_saturatingAdd span))
  -- all the others take no time
  all_goals simp only [Action.span, still]
  case addRecord => exact done_perform_table shape whole
  case addSet => exact done_perform_table shape whole
  case addNegative => exact ask_table_addNegative shape parts
  case addMessage => exact ask_table_addMessage shape parts
  case lookup => exact ask_table_lookup shape whole
  case findRecords => exact ask_table_findRecords shape whole
  case flushName name =>
    exact Prod.ext rfl (table_eq (fun other => alive_removeName cache now name other) rfl).symm
  case flushSet name type =>
    exact Prod.ext rfl (table_eq (fun other => alive_remove cache now name type other)
      (settings_remove cache name type)).symm
  all_goals rfl

end

/-- None of the `actions` evicts a name on the way. -/
def Scene.Unevicting (scene : Scene) (actions : List Action) : Prop :=
  scene.Along (fun scene action => ∀ name, ¬ action.Evicts scene.now scene.cache name) actions

/-- The `table` that is seen in a `scene`. -/
def Scene.table (scene : Scene) : Table := scene.cache.table scene.now

/-- As long as no name is evicted, a `cache` is a `table` that drops each entry when its life
ends. -/
theorem Scene.outcomes_eq {scene : Scene} (shape : scene.cache.WellFormed) {actions : List Action}
    (kept : scene.Unevicting actions) :
    scene.outcomes actions = scene.table.outcomes scene.now actions ∧
      (scene.run actions).table = scene.table.run scene.now actions := by
  induction actions generalizing scene with
  | nil => exact ⟨rfl, rfl⟩
  | cons action actions ih =>
    obtain ⟨here, later⟩ := kept
    have asked := ask_table shape here
    have ⟨outcomes, table⟩ :=
      ih ((action.effect_operate scene.now scene.cache).wellFormed shape) later
    rw [run_cons, table, Scene.outcomes, outcomes, Table.outcomes, Table.run]
    unfold Scene.table
    rw [asked, Prod.map_fst, Prod.map_snd, Action.ask_snd]
    exact ⟨rfl, rfl⟩

/-! ## The order of the entries of a name -/

/-- The same is found, up to the order of record `sets`. -/
inductive Lookup.Similar : Lookup → Lookup → Prop
  | same (found : Lookup) : Similar found found
  | successful {sets others : List RecordSet} (order : sets.Perm others) :
    Similar (.successful sets) (.successful others)

/-- The results are the same, up to the order of record sets (`Lookup.Similar`). -/
inductive Report.Similar : Report → Report → Prop
  | done : Similar .done .done
  | found {lookup other : Lookup} (similar : Lookup.Similar lookup other) :
    Similar (.found lookup) (.found other)
  | records {lookup other : Lookup} (similar : Lookup.Similar lookup other) :
    Similar (.records lookup.answers?) (.records other.answers?)

/-- Both are refused with the same `Misuse`, or both succeed with results that `rel` relates. -/
inductive Alike {α : Type} (rel : α → α → Prop) : Except Misuse α → Except Misuse α → Prop
  | refused (misuse : Misuse) : Alike rel (.error misuse) (.error misuse)
  | succeeded {value other : α} (similar : rel value other) : Alike rel (.ok value) (.ok other)

namespace Table

/-- The `table` and the `other` one hold the same, at most in another order, and at most one entry
of a type. -/
structure Agrees (table other : Table) : Prop where
  entries : ∀ name, (table.entries name).Perm (other.entries name)
  types : ∀ name, ((table.entries name).map Entry.type).Nodup
  settings : table.settings = other.settings

variable {table other : Table} {now : Duration}

theorem find?_perm {entries others : List Entry} (order : entries.Perm others)
    (types : (entries.map Entry.type).Nodup) (type : RecordType) :
    entries.find? (·.type = type) = others.find? (·.type = type) := by
  have types' : (others.map Entry.type).Nodup := (order.map _).nodup_iff.1 types
  cases found : entries.find? (·.type = type) with
  | none =>
    refine (List.find?_eq_none.2 fun entry member => ?_).symm
    exact List.find?_eq_none.1 found entry (order.mem_iff.2 member)
  | some entry =>
    obtain rfl : entry.type = type := by simpa using List.find?_some found
    exact (find?_eq_some_of_mem Entry.type types'
      (order.mem_iff.1 (List.mem_of_find?_eq_some found))).symm

theorem Agrees.get? (agrees : table.Agrees other) (name : Name) (type : RecordType) :
    table.get? name type = other.get? name type :=
  find?_perm (agrees.entries name) (agrees.types name) type

theorem Agrees.view (agrees : table.Agrees other) (request : Request) :
    table.view request = other.view request := by
  funext reading
  rw [Table.view, agrees.get?, Table.view]

theorem Agrees.expire (agrees : table.Agrees other) (now : Duration) :
    (table.expire now).Agrees (other.expire now) where
  entries name := (agrees.entries name).filter _
  types name := (agrees.types name).sublist (List.filter_sublist.map _)
  settings := agrees.settings

theorem Agrees.revise (agrees : table.Agrees other) (name : Name)
    {change : List Entry → List Entry}
    (order : ∀ {entries others : List Entry}, entries.Perm others →
      (change entries).Perm (change others))
    (types : ∀ {entries : List Entry}, (entries.map Entry.type).Nodup →
      ((change entries).map Entry.type).Nodup) :
    (table.revise name change).Agrees (other.revise name change) where
  entries asked := by
    show (ite _ _ _ : List Entry).Perm (ite _ _ _)
    split
    · exact order (agrees.entries name)
    · exact agrees.entries asked
  types asked := by
    show ((ite _ _ _ : List Entry).map Entry.type).Nodup
    split
    · exact types (agrees.types name)
    · exact agrees.types asked
  settings := agrees.settings

theorem perm_revise (type : RecordType) (change : Change) {entries others : List Entry}
    (order : entries.Perm others) :
    (change.revise type entries).Perm (change.revise type others) := by
  cases change with
  | keep => exact order
  | remove => exact order.filter _
  | replace entry => exact order.map _
  | insert entry =>
    have known : entries.any (·.type = entry.type) = others.any (·.type = entry.type) := by
      rw [Bool.eq_iff_iff, List.any_eq_true, List.any_eq_true]
      simp only [order.mem_iff]
    simp only [Change.revise, putEntry, known]
    split
    · exact order.map _
    · exact order.append_right _

theorem nodup_revise (type : RecordType) (change : Change) {entries : List Entry}
    (types : (entries.map Entry.type).Nodup) :
    ((change.revise type entries).map Entry.type).Nodup := by
  cases change with
  | keep => exact types
  | remove => exact types.sublist (List.filter_sublist.map _)
  | replace entry =>
    rw [Change.revise, WellFormed.map_type_replaced]
    exact types
  | insert entry => exact WellFormed.nodup_putEntry types entry

theorem Agrees.perform (agrees : table.Agrees other) (now : Duration) (write : Write) :
    (perform now write table).1 = (perform now write other).1 ∧
      (perform now write table).2.Agrees (perform now write other).2 := by
  unfold Table.perform
  cases write.refusal? with
  | some misuse => exact ⟨rfl, agrees⟩
  | none =>
    simp only [Op.bind_apply, Op.get_apply, Op.set_apply, Op.ofExcept_apply, agrees.get?,
      agrees.settings]
    exact ⟨trivial, (agrees.revise write.name (perm_revise write.type _)
      (nodup_revise write.type _)).expire now⟩

theorem Agrees.performAll (agrees : table.Agrees other) (now : Duration) (writes : List Write) :
    (performAll now writes table).1 = (performAll now writes other).1 ∧
      (performAll now writes table).2.Agrees (performAll now writes other).2 := by
  induction writes generalizing table other with
  | nil => exact ⟨rfl, agrees⟩
  | cons write writes ih =>
    have ⟨same, left⟩ := agrees.perform now write
    rw [Table.performAll, Op.bind_apply, Op.bind_apply]
    generalize Table.perform now write table = first at same left
    generalize Table.perform now write other = second at same left
    obtain ⟨misuse | _, middle⟩ := first <;> obtain ⟨misuse' | _, middle'⟩ := second
    · exact ⟨same, left⟩
    · cases same
    · cases same
    · exact ih left

/-- All records of a `name` may come in another order. -/
theorem Agrees.exact (agrees : table.Agrees other) (request : Request) (name : Name) :
    table.exact request name = other.exact request name ∨ ∃ sets others, sets.Perm others ∧
      table.exact request name = some (.successful sets) ∧
        other.exact request name = some (.successful others) := by
  unfold Table.exact
  split
  · have order := ((agrees.entries name).filter (request.least ≤ ·.credibility)).filterMap
      (·.setAt? request.now)
    dsimp only
    generalize (((table.entries name).filter _).filterMap _) = sets at order
    generalize (((other.entries name).filter _).filterMap _) = others at order
    have empty : sets.isEmpty = others.isEmpty := by
      rw [Bool.eq_iff_iff, List.isEmpty_iff, List.isEmpty_iff]
      exact ⟨fun none => (none ▸ order).nil_eq.symm, fun none => (none ▸ order).eq_nil⟩
    cases none : others.isEmpty with
    | true => exact .inl (by rw [empty, none, if_pos rfl, if_pos rfl])
    | false =>
      refine .inr ⟨sets, others, order, ?_, ?_⟩
      · rw [empty, none, if_neg Bool.false_ne_true]
      · rw [if_neg Bool.false_ne_true]
  · rw [agrees.view]
    exact .inl rfl

theorem Agrees.consult (agrees : table.Agrees other) (name : Name) (type : RecordType)
    (least : Credibility) (now : Duration) :
    Alike Lookup.Similar (consult name type least now table).1
        (consult name type least now other).1 ∧
      (consult name type least now table).2.Agrees (consult name type least now other).2 := by
  unfold Table.consult
  split
  · simp only [Op.bind_apply, Op.get_apply, Op.pure_apply, agrees.view]
    refine ⟨.succeeded ?_, agrees⟩
    obtain same | ⟨sets, others, order, here, there⟩ := agrees.exact ⟨type, least, now⟩ name
    · rw [same]
      exact .same _
    · rw [here, there]
      exact .successful order
  · exact ⟨.refused _, agrees⟩

theorem alike_of_eq {α β : Type} {rel : β → β → Prop} (f : α → β)
    (refl : ∀ value, rel (f value) (f value)) {result other : Except Misuse α}
    (same : result = other) :
    Alike rel (result.map f) (other.map f) := by
  subst same
  cases result with
  | error misuse => exact .refused misuse
  | ok value => exact .succeeded (refl value)

/-- Actions do the same to tables that agree, with similar results. -/
theorem Agrees.ask (agrees : table.Agrees other) (now : Duration) (action : Action) :
    Alike Report.Similar (ask now action table).1 (ask now action other).1 ∧
      (ask now action table).2.Agrees (ask now action other).2 := by
  -- Writes give the same result in both tables, and lookups a similar one.
  have writes (write : Write) :
      Alike Report.Similar ((Table.ask.done <$> Table.perform now write) table).1
          ((Table.ask.done <$> Table.perform now write) other).1 ∧
        ((Table.ask.done <$> Table.perform now write) table).2.Agrees
          ((Table.ask.done <$> Table.perform now write) other).2 := by
    have ⟨same, left⟩ := agrees.perform now write
    rw [Op.map_apply, Op.map_apply]
    exact ⟨alike_of_eq _ (fun _ => .done) same, left⟩
  have reads (name : Name) (type : RecordType) (least : Credibility) (tell : Lookup → Report)
      (similar : ∀ {found other}, Lookup.Similar found other →
        Report.Similar (tell found) (tell other)) :
      Alike Report.Similar ((tell <$> Table.consult name type least now) table).1
          ((tell <$> Table.consult name type least now) other).1 ∧
        ((tell <$> Table.consult name type least now) table).2.Agrees
          ((tell <$> Table.consult name type least now) other).2 := by
    have ⟨alike, left⟩ := agrees.consult name type least now
    rw [Op.map_apply, Op.map_apply]
    refine ⟨?_, left⟩
    generalize (Table.consult name type least now table).1 = first at alike
    generalize (Table.consult name type least now other).1 = second at alike
    cases alike with
    | refused misuse => exact .refused misuse
    | succeeded alike => exact .succeeded (similar alike)
  have told : Alike Report.Similar (.ok .done) (.ok .done) := .succeeded .done
  cases action with
  | addRecord record credibility => exact writes (.ofRecord record credibility)
  | addSet set credibility => exact writes (.ofSet set credibility)
  | addNegative name type soa credibility =>
    simp only [Table.ask, Op.bind_apply, Op.ofExcept_apply]
    cases absenceTtl soa with
    | error misuse => exact ⟨.refused misuse, agrees⟩
    | ok ttl => exact writes (.ofAbsence name type ttl credibility)
  | addMessage message =>
    have ⟨same, left⟩ := agrees.performAll now (writesOf message)
    rw [Table.ask, Op.map_apply, Op.map_apply]
    exact ⟨alike_of_eq _ (fun _ => .found (.same _)) same, left⟩
  | lookup name type least => exact reads name type least .found .found
  | findRecords name type => exact reads name type .normal _ .records
  | flushName name =>
    have left : (table.revise name fun _ => []).Agrees (other.revise name fun _ => []) :=
      agrees.revise name (fun _ => .refl []) fun _ => List.nodup_nil
    exact ⟨told, left⟩
  | flushSet name type =>
    exact ⟨told, agrees.revise name (·.filter _) (·.sublist (List.filter_sublist.map _))⟩
  | clear => exact ⟨told, fun _ => .refl _, fun _ => List.nodup_nil, agrees.settings⟩
  | setMaxNames value =>
    exact ⟨told, agrees.entries, agrees.types, congrArg (·.setMaxNames value) agrees.settings⟩
  | setMaxLife value =>
    exact ⟨told, agrees.entries, agrees.types, congrArg (·.setMaxLife value) agrees.settings⟩
  | setMaxNegativeLife value =>
    exact ⟨told, agrees.entries, agrees.types,
      congrArg (·.setMaxNegativeLife value) agrees.settings⟩
  | advance span => exact ⟨told, agrees.expire _⟩

/-- So do runs of the same `actions`. -/
theorem Agrees.run (agrees : table.Agrees other) (now : Duration) (actions : List Action) :
    List.Forall₂ (Alike Report.Similar) (table.outcomes now actions) (other.outcomes now actions) ∧
      (table.run now actions).Agrees (other.run now actions) := by
  induction actions generalizing table other now with
  | nil => exact ⟨.nil, agrees⟩
  | cons action actions ih =>
    have ⟨alike, left⟩ := agrees.ask now action
    have ⟨outcomes, last⟩ := ih left (now.saturatingAdd action.span)
    exact ⟨.cons alike outcomes, last⟩

end Table

/-! ## Caches with the same entries that are alive -/

/-- Caches in which the same counts (`current?`) show tables that agree. -/
theorem agrees_table {cache other : Cache} (shape : cache.WellFormed) (shape' : other.WellFormed)
    {now : Duration} (settings : cache.settings = other.settings)
    (same : ∀ name type, cache.current? name type now = other.current? name type now) :
    (cache.table now).Agrees (other.table now) where
  entries name := by
    have nodup := List.Nodup.of_map Entry.type (nodup_alive shape now name)
    have nodup' := List.Nodup.of_map Entry.type (nodup_alive shape' now name)
    refine (List.perm_ext_iff_of_nodup nodup nodup').2 fun entry => ?_
    exact (mem_alive shape).trans (same name entry.type ▸ (mem_alive shape').symm)
  types := nodup_alive shape now
  settings := settings

/-- Lazy expiry and the account of use cannot be observed. As long as no name is evicted, a cache
gives the same `outcomes` as the `Table` of its entries that are alive, which drops each entry at
the very instant its life ends, and it goes on to show what this table becomes. So two caches with
the same `settings` that hold the same entries that are alive, whatever else they hold and in
whatever order their names were used, give the same results and go on to hold the same. If only the
order of the entries of a name differs, so does at most the order of the record sets in a result
(`Lookup.Similar`). -/
theorem Scene.lazy_expiry_unobservable {settings settings' : CacheSettings}
    {history history' actions : List Action} {scene other : Scene}
    (reached : (start settings).run history = scene)
    (reached' : (start settings').run history' = other) (time : scene.now = other.now)
    (configured : scene.cache.settings = other.cache.settings)
    (kept : scene.Unevicting actions) (kept' : other.Unevicting actions) :
    (scene.outcomes actions = scene.table.outcomes scene.now actions ∧
      (scene.run actions).table = scene.table.run scene.now actions) ∧
    ((∀ name, scene.cache.alive scene.now name = other.cache.alive other.now name) →
      scene.outcomes actions = other.outcomes actions ∧
        (scene.run actions).table = (other.run actions).table) ∧
    ((∀ name type, scene.cache.current? name type scene.now =
        other.cache.current? name type other.now) →
      List.Forall₂ (Alike Report.Similar) (scene.outcomes actions) (other.outcomes actions) ∧
        (scene.run actions).cache.settings = (other.run actions).cache.settings ∧
        ∀ name type, (scene.run actions).cache.current? name type (scene.run actions).now =
          (other.run actions).cache.current? name type (other.run actions).now) := by
  have shape : scene.cache.WellFormed := reached ▸ wellFormed_run (wellFormed_empty _) history
  have shape' : other.cache.WellFormed := reached' ▸ wellFormed_run (wellFormed_empty _) history'
  -- Both caches do what their tables do, so the tables are all that is to be compared.
  obtain ⟨outcomes, last⟩ := outcomes_eq shape kept
  obtain ⟨outcomes', last'⟩ := outcomes_eq shape' kept'
  refine ⟨⟨outcomes, last⟩, fun same => ?_, fun same => ?_⟩
  · have tables : scene.table = other.table := table_eq same configured
    rw [outcomes, outcomes', last, last', tables, time]
    exact ⟨rfl, rfl⟩
  · have agrees : scene.table.Agrees other.table := by
      unfold Scene.table
      rw [← time] at same ⊢
      exact agrees_table shape shape' configured same
    have ⟨alike, left⟩ := agrees.run scene.now actions
    rw [outcomes, outcomes', ← time]
    rw [← last, time, ← last'] at left
    refine ⟨alike, left.settings, fun name type => ?_⟩
    have found := left.get? name type
    unfold Scene.table at found
    rwa [get?_table (wellFormed_run shape actions),
      get?_table (wellFormed_run shape' actions)] at found

/-- An `action` that adds nothing for a `name` that is not kept does not evict it. -/
theorem Action.not_evicts_of_unknown {action : Action} (reads : action.writes = [])
    {cache : Cache} (shape : cache.WellFormed) {name : Name}
    (unknown : cache.entries? name = none) (now : Duration) : ¬ action.Evicts now cache name := by
  rw [Action.Evicts, reads]
  rintro (⟨-, limit, kept⟩ | evicts)
  · have shape' : (cache.withLimit limit).WellFormed :=
      ⟨shape.folded, shape.distinct, shape.filled, shape.types⟩
    have effect := action.effect_operate now (cache.withLimit limit)
    obtain ⟨entries, kept⟩ := Option.isSome_iff_exists.1 kept
    obtain ⟨entry, member⟩ :=
      List.exists_mem_of_ne_nil _ ((effect.wellFormed shape').filled _ (mem_of_entries? kept))
    have found : (action.operate now (cache.withLimit limit)).2.find? name entry.type =
        some entry := by
      rw [find?_eq, kept]
      exact find?_eq_some_of_mem Entry.type ((effect.wellFormed shape').nodup_types kept) member
    have before := effect.find?_of_untouched shape' (by simp [reads]) found
    rw [find?_eq] at before
    have gone : (cache.withLimit limit).entries? name = none := unknown
    simp [gone] at before
  · exact evicts

/-- A `cache` with one `name` keeps entries for this name only. -/
theorem isSome_entries?_iff {cache : Cache} {owner : Name}
    (keys : cache.names.map Prod.fst = [owner]) (name : Name) :
    (cache.entries? name).isSome ↔ name.fold = owner := by
  rw [entries?_eq, Option.isSome_map, List.find?_isSome, ← List.mem_singleton, ← keys,
    List.mem_map]
  simp

/-- A search for records does not evict a `name` that is kept afterwards as well. -/
theorem Scene.not_evicts_findRecords {scene : Scene} (shape : scene.cache.WellFormed)
    {asked owner : Name} {type : RecordType}
    (keys : scene.cache.names.map Prod.fst = [owner])
    (keys' : (scene.after (.findRecords asked type)).cache.names.map Prod.fst = [owner])
    (name : Name) : ¬ (Action.findRecords asked type).Evicts scene.now scene.cache name := by
  cases known : scene.cache.entries? name with
  | none => exact Action.not_evicts_of_unknown rfl shape known scene.now
  | some entries =>
    have same := (isSome_entries?_iff keys name).1 (known ▸ rfl)
    rintro (⟨gone, -⟩ | evicts)
    · have still := (isSome_entries?_iff keys' name).2 same
      rw [Scene.after, gone] at still
      cases still
    · exact evicts

/-- Name servers expire before an address is added, or have never been added: these are the two
`histories`. -/
def histories : List Action × List Action :=
  ([.addSet { address 1 with ttl := 1, first := .ns .root } .authAnswer,
      .advance (.ofSeconds 100), .addSet (address 1) .authAnswer],
    [.advance (.ofSeconds 100), .addSet (address 1) .authAnswer])

/-- The servers that have expired are kept in the first `Scene`, and the second one never had
any. -/
def Scene.stale : Scene × Scene :=
  ((start .default).run histories.1, (start .default).run histories.2)

/-- Both `histories` are looked into in the same way. -/
def inspection : List Action :=
  [.findRecords (address 1).owner .ns, .findRecords (address 1).owner .a]

/-- Both give the same outcomes of the `inspection`, though one of them still keeps what has
expired. -/
theorem Scene.lazy_expiry_unobservable_stale :
    (stale.1.cache.entries? (address 1).owner).map List.length = some 2 ∧
      (stale.2.cache.entries? (address 1).owner).map List.length = some 1 ∧
      stale.1.outcomes inspection = stale.2.outcomes inspection := by
  have alive : ∀ name, stale.1.cache.alive stale.1.now name =
      stale.2.cache.alive stale.2.now name := by
    intro name
    by_cases here : name.fold = (address 1).owner
    · have same : name.fold = (address 1).owner.fold := here
      rw [alive_congr _ _ same, alive_congr _ _ same]
      rfl
    · have none (cache : Cache) (keys : cache.names.map Prod.fst = [(address 1).owner]) :
          cache.entries? name = none := by
        simpa using mt (isSome_entries?_iff keys name).1 here
      rw [alive, none _ rfl, alive, none _ rfl]
      rfl
  have unevicting (history : List Action)
      (keys : (((start .default).run history).cache.names.map Prod.fst) = [(address 1).owner])
      (keys' : (((start .default).run history).run (inspection.take 1)).cache.names.map Prod.fst =
        [(address 1).owner])
      (keys'' : (((start .default).run history).run inspection).cache.names.map Prod.fst =
        [(address 1).owner]) : ((start .default).run history).Unevicting inspection := by
    have shape : ((start .default).run history).cache.WellFormed :=
      wellFormed_run (wellFormed_empty .default) history
    exact ⟨not_evicts_findRecords shape keys keys',
      not_evicts_findRecords (wellFormed_run shape (inspection.take 1)) keys' keys'', trivial⟩
  have reached : (start .default).run histories.1 = stale.1 := rfl
  have reached' : (start .default).run histories.2 = stale.2 := rfl
  have told := lazy_expiry_unobservable reached reached' rfl rfl
    (unevicting histories.1 rfl rfl rfl) (unevicting histories.2 rfl rfl rfl)
  exact ⟨rfl, rfl, (told.2.1 alive).1⟩

end Cache

end NameResolution
