import NameResolution.Proofs.Query.Correlation

/-!
# Free IDs and stale releases

The search for an ID has no bound of its own: it goes on with the next ID until it finds a free one
or comes back to where it started. IDs are used again, so a query that is given up late must not
take away the registration of another one that has its ID by now; the serial number prevents this.

* `Registry.Probing`: the search as a loop without a bound.
* `Registry.probing_iff`: the loop ends, with what `probe` finds.
* `Registry.Full`: a server has no ID left.
* `Registry.add_spec`: a query is registered unless the server has no ID left.
* `Registry.Live`: what a release takes away.
* `Registry.Ledger.run_allocates`: IDs are never shared, and queries undo their own registrations.
-/

namespace NameResolution

namespace Registry

/-! ## The search for an ID -/

/-- The search from `start` on goes on at an ID and ends with a result. -/
inductive Probing (taken : UInt16 → Bool) (start : UInt16) : UInt16 → Option UInt16 → Prop
  | free {id : UInt16} (free : taken id = false) : Probing taken start id (some id)
  | full {id : UInt16} (used : taken id = true) (round : id + 1 = start) :
    Probing taken start id none
  | next {id : UInt16} {result : Option UInt16} (used : taken id = true) (ahead : id + 1 ≠ start)
    (rest : Probing taken start (id + 1) result) : Probing taken start id result

variable {taken : UInt16 → Bool} {start id : UInt16}

/-- Nothing is left open about how the search goes on, so its `result` is the only one. -/
theorem Probing.unique {result other : Option UInt16} (probing : Probing taken start id result)
    (also : Probing taken start id other) : result = other := by
  induction probing with
  | free free => cases also <;> simp_all
  | full used round => cases also <;> simp_all
  | next used ahead rest ih =>
    cases also with
    | free free => simp_all
    | full used round => exact absurd round ahead
    | next used ahead rest => exact ih rest

/-- With `count` IDs to go until the start is reached, the bounded search is the unbounded one. -/
theorem probing_probe {count : Nat} (few : count < idCount)
    (left : id + .ofNat (count + 1) = start) :
    Probing taken start id (probe taken (count + 1) id) := by
  induction count generalizing id with
  | zero =>
    rw [probe]
    cases used : taken id with
    | false => exact .free used
    | true => exact .full used left
  | succ count ih =>
    rw [probe]
    cases used : taken id with
    | false => exact .free used
    | true =>
      have later : id + 1 + .ofNat (count + 1) = start := by
        rw [← left, UInt16.add_assoc, UInt16.add_comm 1]
        simp [UInt16.ofNat_add, UInt16.add_assoc]
      refine .next used (fun back => ?_) (ih (by omega) later)
      -- The IDs to go are fewer than there are, so the start is not reached yet.
      have none : UInt16.ofNat (count + 1) = 0 := by
        rw [back] at later
        simpa using later
      have := congrArg UInt16.toNat none
      rw [UInt16.toNat_ofNat', UInt16.toNat_zero, Nat.mod_eq_of_lt] at this <;>
        simp only [idCount] at * <;> omega

/-- The search ends wherever it starts, and only with what `probe` finds. -/
theorem probing_iff {result : Option UInt16} :
    Probing taken start start result ↔ result = probe taken idCount start := by
  have ends : Probing taken start start (probe taken idCount start) :=
    probing_probe (by decide) (by simp)
  exact ⟨fun probing => probing.unique ends, fun same => same ▸ ends⟩

theorem probe_eq_none_iff {count : Nat} :
    probe taken count id = none ↔ ∀ step < count, taken (id + .ofNat step) = true := by
  induction count generalizing id with
  | zero => simp [probe]
  | succ count ih =>
    have shift : ∀ step, id + 1 + .ofNat step = id + UInt16.ofNat (step + 1) := by
      intro step
      rw [UInt16.ofNat_add, UInt16.add_assoc, UInt16.add_comm 1]
      rfl
    rw [probe, Nat.forall_lt_succ_left]
    cases used : taken id with
    | false => simp [used]
    | true => simp [used, ih, shift]

/-- Going through all IDs from `start` on, the search misses none. -/
theorem probe_idCount_eq_none_iff :
    probe taken idCount start = none ↔ ∀ id, taken id = true := by
  rw [probe_eq_none_iff]
  refine ⟨fun used id => ?_, fun used step _ => used _⟩
  have taken := used (id - start).toNat (id - start).toNat_lt
  rwa [UInt16.ofNat_toNat, UInt16.add_comm, UInt16.sub_add_cancel] at taken

/-! ## Registering -/

/-- All IDs are in use for a `server`. -/
def Full (registry : Registry) (server : Endpoint) : Prop :=
  ∀ id, (registry.find? server id).isSome = true

variable {registry : Registry} {server : Endpoint} {question : Question}

/-- A query gets the ID at which the `search` ends, which no other query of the `server` has, unless
the server has no ID left. The other registrations stay. -/
theorem add_spec (start : UInt16) (server : Endpoint) (question : Question) (registry : Registry) :
    let search := Probing (fun id => (registry.find? server id).isSome) start start
    registry.Full server ∧ search none ∧
        add start server question registry = (.error .tooManyOutstanding, registry) ∨
      ∃ id, search (some id) ∧ registry.find? server id = none ∧
        add start server question registry =
          (.ok ⟨server, id, registry.lastSerial + 1, question⟩,
            { registry with
              outstanding := ⟨server, id, registry.lastSerial + 1, question⟩ :: registry.outstanding
              lastSerial := registry.lastSerial + 1 }) := by
  intro search
  cases probed : probe (fun id => (registry.find? server id).isSome) idCount start with
  | none =>
    refine .inl ⟨?_, probing_iff.mpr probed.symm, by simp [add, probed]⟩
    exact fun id => probe_idCount_eq_none_iff.mp probed id
  | some id =>
    exact .inr ⟨id, probing_iff.mpr probed.symm, by simpa using probe_free probed,
      by simp [add, probed]⟩

/-- Only a `server` that has no ID left refuses a query. -/
theorem add_refuses_iff :
    add start server question registry = (.error .tooManyOutstanding, registry) ↔
      registry.Full server := by
  rcases add_spec start server question registry with ⟨full, -, refused⟩ | ⟨id, -, free, added⟩
  · exact iff_of_true refused full
  · refine iff_of_false (fun refused => ?_) fun full => ?_
    · rw [added] at refused
      nomatch (Prod.mk.inj refused).1
    · simpa [free] using full id

/-! ## Giving up -/

/-- The registration that a `server`, an ID and a `serial` number name waits. -/
def Live (registry : Registry) (server : Endpoint) (id : UInt16) (serial : Nat) : Prop :=
  ∃ entry, registry.find? server id = some entry ∧ entry.serial = serial

theorem live_of_mem {entry : Registration} (distinct : registry.Distinct)
    (mem : entry ∈ registry.outstanding) : registry.Live entry.server entry.id entry.serial :=
  ⟨entry, find?_of_mem distinct mem, rfl⟩

/-- A query whose ID was used again, or that does not wait any more, takes nothing away by
`release`. -/
theorem outstanding_release_of_not_live {serial : Nat} (distinct : registry.Distinct)
    (stale : ¬registry.Live server id serial) :
    (registry.release server id serial).outstanding = registry.outstanding := by
  refine List.filter_eq_self.mpr fun entry mem => decide_eq_true ?_
  rintro ⟨rfl, rfl, rfl⟩
  exact stale (live_of_mem distinct mem)

/-- The other queries do not notice a `release`. -/
theorem fate_release {serial other : Nat} (apart : other ≠ serial) :
    (registry.release server id serial).fate other = registry.fate other := by
  have replies : (registry.replies.filter (·.1 ≠ serial)).lookup other =
      registry.replies.lookup other := by
    induction registry.replies with
    | nil => rfl
    | cons reply replies ih =>
      by_cases own : reply.1 = serial
      · have miss : (other == reply.1) = false := by simpa [own] using apart
        rw [List.filter_cons_of_neg (by simpa using own), ih, List.lookup_cons, miss]
      · rw [List.filter_cons_of_pos (by simpa using own), List.lookup_cons, List.lookup_cons, ih]
  have waits : (registry.release server id serial).outstanding.any (·.serial = other) =
      registry.outstanding.any (·.serial = other) := by
    rw [release, List.any_filter]
    congr 1
    funext entry
    by_cases hit : entry.serial = other <;> simp [hit, apart]
  rw [fate, fate, waits]
  simp only [release, replies]

/-! ## Runs -/

namespace Ledger

variable {ledger : Ledger}

theorem lastSerial_deliver (hook : Hook) (source : Endpoint) (octets : Octets)
    (registry : Registry) :
    (Registry.deliver hook source octets registry).2.lastSerial = registry.lastSerial := by
  cases read : readResponse octets with
  | error failure => simp [Registry.deliver, read]
  | ok message =>
    cases found : registry.find? source message.header.id with
    | none => simp [Registry.deliver, read, found]
    | some entry =>
      by_cases answer : message.IsAnswerTo entry.question <;>
        simp [Registry.deliver, read, found, answer, Registry.remove]

/-- The `ledger` gives out serial numbers one by one. -/
theorem length_registered_after (counts : ledger.registered.length = ledger.registry.lastSerial)
    (action : Action) :
    (ledger.after action).registered.length = (ledger.after action).registry.lastSerial := by
  cases action with
  | register start server question =>
    rcases add_cases start server question ledger.registry with refused | ⟨id, free, added⟩
    · simpa [Ledger.after, refused] using counts
    · simpa [Ledger.after, added] using counts
  | deliver hook source octets =>
    simpa only [Ledger.after, lastSerial_deliver] using counts
  | remove server id => exact counts
  | release server id serial => exact counts
  | clear => exact counts

theorem length_registered_run (actions : List Action) :
    (run actions).registered.length = (run actions).registry.lastSerial := by
  induction actions using List.reverseRecOn with
  | nil => rfl
  | append_singleton actions action ih =>
    rw [run, List.foldl_concat]
    exact length_registered_after ih action

/-- Machine words (`UInt64`) tell the queries apart as long as there are no more queries than
words. -/
theorem Kept.serials_word (kept : ledger.Kept) (few : ledger.registry.lastSerial < UInt64.size) :
    (ledger.registered.map fun entry => UInt64.ofNat entry.serial).Nodup := by
  have words : (ledger.registered.map fun entry => UInt64.ofNat entry.serial) =
      (ledger.registered.map (·.serial)).map UInt64.ofNat := by
    rw [List.map_map]
    rfl
  rw [words]
  have small : ∀ serial ∈ ledger.registered.map (·.serial), serial < UInt64.size := by
    intro serial mem
    obtain ⟨entry, registered, rfl⟩ := List.mem_map.mp mem
    exact Nat.lt_of_le_of_lt (kept.counted entry registered) few
  refine kept.serials.map_on fun first mem second mem' same => ?_
  have same := congrArg UInt64.toNat same
  rwa [UInt64.toNat_ofNat', UInt64.toNat_ofNat', Nat.mod_eq_of_lt (small first mem),
    Nat.mod_eq_of_lt (small second mem')] at same

/-- A `release` of the query's own takes away the `Registration` with its `serial` number. -/
theorem Kept.outstanding_release (kept : ledger.Kept) {entry : Registration}
    (mem : entry ∈ ledger.registered) :
    (ledger.registry.release entry.server entry.id entry.serial).outstanding =
      ledger.registry.outstanding.filter (·.serial ≠ entry.serial) := by
  refine List.filter_congr fun other waits => decide_eq_decide.mpr (not_congr ?_)
  refine ⟨fun same => same.2.2, fun same => ?_⟩
  obtain rfl : other = entry :=
    List.inj_on_of_nodup_map kept.serials (kept.registered other waits) mem same
  exact ⟨rfl, rfl, rfl⟩

/-- IDs are never shared, and queries undo only their own registrations. In every `run` no two
queries wait for the same ID from the same server (`Distinct`), and all `registered` queries have
serial numbers of their own, also as words of 64 bits while there are fewer queries than words.
Wherever the `search` for an ID starts, it ends. A server that has no ID left (`Full`), and no
other, refuses a query, and this changes nothing; otherwise the query gets an ID at which the search
ends and which was free, a new serial number, and the other registrations stay. What a query
releases is the registration with its own serial number if this still waits, and otherwise nothing,
whoever has its ID by now. -/
theorem run_allocates (actions : List Action) :
    let ledger := run actions
    let registry := ledger.registry
    registry.Distinct ∧
    (∀ entry ∈ registry.outstanding, entry ∈ ledger.registered) ∧
    (ledger.registered.map (·.serial)).Nodup ∧
    (ledger.registered.length < UInt64.size →
      (ledger.registered.map fun entry => UInt64.ofNat entry.serial).Nodup) ∧
    (∀ start server question,
      let search := Probing (fun id => (registry.find? server id).isSome) start start
      (∃! result, search result) ∧
      (registry.Full server ↔
        add start server question registry = (.error .tooManyOutstanding, registry)) ∧
      (¬registry.Full server → ∃ id, search (some id) ∧ registry.find? server id = none ∧
        add start server question registry =
          (.ok ⟨server, id, registry.lastSerial + 1, question⟩,
            { registry with
              outstanding := ⟨server, id, registry.lastSerial + 1, question⟩ :: registry.outstanding
              lastSerial := registry.lastSerial + 1 }))) ∧
    (∀ server id serial,
      let left := registry.release server id serial
      (¬registry.Live server id serial → left.outstanding = registry.outstanding) ∧
        left.lastSerial = registry.lastSerial ∧
        ∀ other ≠ serial, left.fate other = registry.fate other) ∧
    ∀ entry ∈ ledger.registered,
      let left := registry.release entry.server entry.id entry.serial
      (registry.Live entry.server entry.id entry.serial ↔ entry ∈ registry.outstanding) ∧
        left.outstanding = registry.outstanding.filter (·.serial ≠ entry.serial) := by
  intro ledger registry
  have kept : ledger.Kept := kept_run actions
  refine ⟨kept.distinct, kept.registered, kept.serials, fun few => ?words,
    fun start server question => ?adds, fun server id serial => ?releases, fun entry mem => ?own⟩
  case words => exact kept.serials_word (length_registered_run actions ▸ few)
  case adds =>
    refine ⟨⟨_, probing_iff.mpr rfl, fun _ => probing_iff.mp⟩, add_refuses_iff.symm, fun free => ?_⟩
    exact (add_spec start server question registry).resolve_left fun full => free full.1
  case releases =>
    exact ⟨outstanding_release_of_not_live kept.distinct, rfl, fun _ => fate_release⟩
  case own =>
    refine ⟨⟨?_, live_of_mem kept.distinct⟩, kept.outstanding_release mem⟩
    rintro ⟨other, found, same⟩
    have waits := (mem_of_find? found).1
    exact List.inj_on_of_nodup_map kept.serials (kept.registered other waits) mem same ▸ waits

/-- A query is cancelled by `remove`, and another one gets its ID before it is given up. -/
def reusedId : List Action :=
  [.register 7 sampleServers.1 (.internet .root .a), .remove sampleServers.1 7,
    .register 7 sampleServers.1 (.internet .root .ns)]

/-- The first query of `reusedId` leaves the second one alone, and the second one goes when it is
given up. -/
theorem run_allocates_reused :
    let ledger := run reusedId
    let left := fun serial => ledger.registry.release sampleServers.1 7 serial
    (ledger.registered.map fun entry => UInt64.ofNat entry.serial).Nodup ∧
      ledger.registry.outstanding.map (·.serial) = [2] ∧
      (left 1).outstanding = ledger.registry.outstanding ∧ (left 2).outstanding = [] := by
  let first : Registration := ⟨sampleServers.1, 7, 1, .internet .root .a⟩
  let second : Registration := ⟨sampleServers.1, 7, 2, .internet .root .ns⟩
  have ran : run reusedId = ⟨{ Registry.empty with outstanding := [second], lastSerial := 2 },
    [second, first], []⟩ := rfl
  obtain ⟨-, -, -, words, -, stale, own⟩ := run_allocates reusedId
  rw [ran] at words stale own ⊢
  refine ⟨words (by decide), rfl, (stale sampleServers.1 7 1).1 ?_, ?_⟩
  · rintro ⟨entry, found, serial⟩
    obtain ⟨waits, -⟩ := mem_of_find? found
    obtain rfl := List.mem_singleton.mp waits
    exact absurd serial (by decide)
  · exact (own second List.mem_cons_self).2

end Ledger

end Registry

end NameResolution
