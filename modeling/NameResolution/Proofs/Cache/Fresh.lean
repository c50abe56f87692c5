import NameResolution.Proofs.Cache.Entitlement
import NameResolution.Proofs.Cache.Persistence
import NameResolution.Proofs.Cache.Views

/-!
# A response in an empty cache

What a cache that knows nothing makes of a response is decided by the writes of the response. For
each name and type, a write prevails that no other one for them is more credible than.

* `Cache.Prevails`: the writes that can decide what counts for a name and type.
* `Cache.Fits`: a response that all of an empty cache with the default settings has room and time
  for.
* `Cache.Fits.current?_cases`: what counts after such a response has been added is what a prevailing
  write says.
* `Cache.Fits.lookup_eq`: a lookup then reads these entries.
-/

namespace NameResolution

namespace Cache

/-- No other one of some `writes` for the `name` and `type` is more credible than this one. -/
structure Prevails (writes : List Write) (name : Name) (type : RecordType) (write : Write) :
    Prop where
  mem : write ∈ writes
  isFor : write.IsFor name type
  most : ∀ other ∈ writes, other.IsFor name type → other.credibility ≤ write.credibility

/-- An empty cache with the `default` settings has room for all that a `message` writes. All of it
has a life, whose end the clock can tell `now`, and the names that are passed are absolute. -/
structure Fits (message : Message) (now : Duration) : Prop where
  room : (writesOf message).length ≤ CacheSettings.default.maxNames
  clock : now.nanos + CacheSettings.default.maxLife.nanos ≤ Duration.longest.nanos
  lasting : ∀ write ∈ writesOf message, write.ttl ≠ 0
  absolute : ∀ question, message.questions.head? = some question →
    ∀ name ∈ passed question message, name.absolute = true

/-- The empty `Cache` with the default settings after a response has been added. -/
def filled (message : Message) (now : Duration) : Cache :=
  (addMessage message now (.empty .default)).2

namespace Fits

variable {message : Message} {now : Duration}

theorem lasts (fits : Fits message now) :
    ∀ write ∈ writesOf message, write.Lasts now .default := by
  intro write member
  have clock := fits.clock
  have lasting := fits.lasting write member
  obtain ⟨set, credibility, rfl, ordinary, -⟩ | ⟨question, first, type, ttl, credibility, rfl, -⟩ :=
    mem_writesOf_cases member
  · have most : 0 < CacheSettings.default.maxLife.nanos := by decide
    exact ⟨trivial, if_neg ordinary, Write.ends_of_most clock, Write.life_pos lasting most⟩
  · have last : finalName question message ∈ passed question message := List.getLast_mem _
    have most : 0 < CacheSettings.default.maxNegativeLife.nanos := by decide
    have shorter : CacheSettings.default.maxNegativeLife.nanos ≤
        CacheSettings.default.maxLife.nanos := by decide
    refine ⟨trivial, if_pos (fits.absolute question first _ last), Write.ends_of_most ?_,
      Write.life_pos lasting most⟩
    exact Nat.le_trans (Nat.add_le_add_left shorter _) clock

theorem succeeds (fits : Fits message now) :
    (addMessage message now (.empty .default)).1 = .ok (meaningOf message) := by
  have performed : (performAll now (writesOf message) (.empty .default)).1 = .ok () :=
    performAll_eq_ok (fun write member => (fits.lasts write member).whole)
      (fun write member => (fits.lasts write member).accepted)
      (fun write member => (fits.lasts write member).ends)
  rw [addMessage_apply, performed]
  rfl

theorem filled_eq (message : Message) (now : Duration) :
    filled message now = (performAll now (writesOf message) (.empty .default)).2 := by
  rw [filled, addMessage_apply]

theorem wellFormed (message : Message) (now : Duration) : (filled message now).WellFormed := by
  rw [filled_eq]
  exact performAll_keeps WellFormed (fun write _ _ shape => write.wellFormed_perform shape now)
    (wellFormed_empty _)

theorem settings (message : Message) (now : Duration) :
    (filled message now).settings = .default := by
  rw [filled_eq]
  exact performAll_keeps (fun cache => cache.settings = .default)
    (fun write _ cache same => (write.settings_perform now cache).trans same) rfl

theorem size_le (fits : Fits message now) :
    (filled message now).size ≤ (filled message now).settings.maxNames := by
  have grown := @size_performAll_le _ _ (.empty .default) fits.lasts
  rw [← filled_eq] at grown
  rw [settings]
  exact Nat.le_trans grown (Nat.le_trans (Nat.le_of_eq (Nat.zero_add _)) fits.room)

/-- What counts for a `name` and `type` is what a prevailing `write` says, if there is any for
them. -/
theorem current?_cases (fits : Fits message now) (name : Name) (type : RecordType) :
    (∀ write ∈ writesOf message, ¬ write.IsFor name type) ∧
      (filled message now).current? name type now = none ∨
    ∃ write, Prevails (writesOf message) name type write ∧
      (filled message now).current? name type now = some (write.entryAt now .default) := by
  -- There is room and time for all writes, so what counts is what the last prevailing one has left.
  have counts := @current?_performAll _ _ (.empty .default) fits.lasts
    (Nat.le_trans (Nat.le_of_eq (Nat.zero_add _)) fits.room) name type
  rw [← filled_eq] at counts
  rw [counts]
  have known : (Cache.empty .default).current? name type now = none := rfl
  rw [known]
  have among {write : Write} (member : write ∈ writesOf message) (isFor : write.IsFor name type) :
      write ∈ (writesOf message).filter (·.IsFor name type) :=
    List.mem_filter.mpr ⟨member, decide_eq_true isFor⟩
  cases settled : settleAll now (Cache.empty .default).settings none
    ((writesOf message).filter (·.IsFor name type)) with
  | none =>
    refine .inl ⟨fun write member isFor => ?_, rfl⟩
    obtain ⟨entry, some, -⟩ := exists_settleAll (among member isFor)
    rw [settled] at some
    cases some
  | some entry =>
    obtain before | ⟨write, member, rfl⟩ := exists_of_settleAll settled
    · cases before
    · obtain ⟨member, isFor⟩ := List.mem_filter.mp member
      refine .inr ⟨write, ⟨member, of_decide_eq_true isFor, fun other written same => ?_⟩, rfl⟩
      obtain ⟨entry, is, most⟩ := exists_settleAll (among written same)
      rw [settled] at is
      obtain rfl := Option.some.inj is
      exact most

/-- What a place shows is what a prevailing `write` says, if it can be trusted. -/
theorem view_cases (fits : Fits message now) (request : Request) (same : request.now = now)
    (reading : Reading) :
    (∀ write ∈ writesOf message, ¬ write.IsFor reading.name reading.type) ∧
      reading.view (filled message now) request = none ∨
    ∃ write, Prevails (writesOf message) reading.name reading.type write ∧
      reading.view (filled message now) request =
        if request.least ≤ write.credibility then
          reading.aspect.shows ((write.entryAt now .default).findingAt now)
        else none := by
  subst same
  obtain ⟨unwritten, none⟩ | ⟨write, prevails, counts⟩ :=
    fits.current?_cases reading.name reading.type
  · exact .inl ⟨unwritten, by rw [Reading.view, none]; rfl⟩
  · refine .inr ⟨write, prevails, ?_⟩
    have level : (write.entryAt request.now .default).credibility = write.credibility := rfl
    rw [Reading.view, counts, Option.filter_some, level]
    by_cases trusted : request.least ≤ write.credibility <;> simp [trusted]

/-- Nothing is shown to a `reading` where nothing is written that the `request` can trust. -/
theorem view_of_hidden (fits : Fits message now) (request : Request) (same : request.now = now)
    (reading : Reading) (hidden : ∀ write ∈ writesOf message,
      write.IsFor reading.name reading.type → ¬ request.least ≤ write.credibility) :
    reading.view (filled message now) request = none := by
  obtain ⟨-, none⟩ | ⟨write, prevails, view⟩ := fits.view_cases request same reading
  · exact none
  · rw [view, if_neg (hidden write prevails.mem prevails.isFor)]

/-- A `lookup` after such a response has been added. -/
theorem lookup_eq (fits : Fits message now) {name : Name} (absolute : name.absolute = true)
    {type : RecordType} (single : type ≠ .any) (least : Credibility) :
    (lookup name type least now (filled message now)).1 =
      .ok (((readings type name.suffixes).findSome?
        (·.view (filled message now) ⟨type, least, now⟩)).getD .unknown) := by
  rw [Cache.lookup_eq absolute single least now (wellFormed message now),
    evict_of_room fits.size_le]

end Fits

theorem nanos_ofSeconds (ttl : UInt32) :
    (Duration.ofSeconds ttl.toNat).nanos = ttl.toNat * Duration.second := by
  have bounded := ttl.toNat_lt
  unfold Duration.ofSeconds Duration.ofNanos
  rw [dif_pos]
  · exact Nat.mul_comm _ _
  · simp only [Duration.second]
    omega

/-- A record `set` whose time to live is within the limit is found as it was written. -/
theorem findingAt_ofSet {set : RecordSet} {credibility : Credibility} {now : Duration}
    {settings : CacheSettings}
    (ends : Write.Ends (.ofSet set credibility) now settings)
    (short : Duration.ofSeconds set.ttl.toNat ≤ settings.maxLife) :
    (Write.entryAt (.ofSet set credibility) now settings).findingAt now = .present set := by
  have life : (Write.life (.ofSet set credibility) settings).nanos =
      set.ttl.toNat * Duration.second := by
    rw [Write.life, lifetime, nanos_min, ← nanos_ofSeconds]
    exact Nat.min_eq_left short
  have expires := Write.nanos_expireAt_entryAt ends
  have left : (Write.entryAt (.ofSet set credibility) now settings).expireAt.nanos - now.nanos =
      set.ttl.toNat * Duration.second := by omega
  have ttl : (Write.entryAt (.ofSet set credibility) now settings).ttlAt now = set.ttl := by
    refine UInt32.toNat_inj.mp ?_
    rw [toNat_ttlAt set.ttl (Nat.le_of_eq left), left]
    exact Nat.mul_div_cancel _ (by decide)
  rw [Entry.findingAt, ttl]
  rfl

end Cache

end NameResolution
