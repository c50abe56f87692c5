import Mathlib.Logic.Relation
import NameResolution.Proofs.Cache.Tidy
import NameResolution.Proofs.Names.Rewriting
import NameResolution.Proofs.Operations
import NameResolution.Proofs.Resolution.Outcomes
import NameResolution.Resolution.Session

/-!
# What answers rest on

An answer rests on record sets: those that it consists of, and those of the aliases that led to
them. They are shown by a cache, or by the answer section of a response.

* `RecordSet.Aliases`: a record set makes a name an alias of another one.
* `Leads`: aliases in record sets that are shown lead from one name to another.
* `Answer.RestsOn`: an answer consists of record sets that are shown, for the name that aliases lead
  to.
* `Outcome.restsOn_classify`: what a response means rests on its answer section.
* `Session.restsOn_followCached`: what is found in a cache rests on what the cache shows.
-/

namespace NameResolution

/-- The record `set` makes a `name` an alias of another one: it holds an alias of this very name, or
its `owner` is strictly above the name and is replaced by the `target`. -/
inductive RecordSet.Aliases (set : RecordSet) (name : Name) : Name → Prop
  | cname {target : Name} (here : (set.owner == name) = true) (data : .cname target ∈ set.data) :
    Aliases set name target
  | dname {target next : Name} (below : name.IsBelow set.owner)
    (data : .dname target ∈ set.data)
    (rewritten : name.rewrite? set.owner target = .ok (some next)) : Aliases set name next

variable {Shown Other : RecordSet → Prop}

/-- Some steps of aliases in record sets that are `Shown` lead from one name to another. -/
def Leads (Shown : RecordSet → Prop) : Name → Name → Prop :=
  Relation.ReflTransGen fun name next => ∃ set, Shown set ∧ set.Aliases name next

theorem Leads.mono {name reached : Name} (leads : Leads Shown name reached)
    (more : ∀ set, Shown set → Other set) : Leads Other name reached :=
  Relation.ReflTransGen.mono (fun _ _ step =>
    let ⟨set, shown, aliased⟩ := step
    ⟨set, more set shown, aliased⟩) _ _ leads

/-- The `answer` consists of record sets of the `type` that are shown, at least one, and their owner
is a `name` that aliases lead to. -/
structure Answer.RestsOn (Shown : RecordSet → Prop) (name : Name) (type : RecordType)
    (answer : Answer) : Prop where
  filled : answer.sets ≠ []
  sets : ∀ set ∈ answer.sets,
    Shown set ∧ set.type = type ∧ (set.owner == answer.canonical) = true
  leads : Leads Shown name answer.canonical

namespace Answer.RestsOn

variable {name middle : Name} {type : RecordType} {answer : Answer}

theorem mono (rests : answer.RestsOn Shown name type) (more : ∀ set, Shown set → Other set) :
    answer.RestsOn Other name type where
  filled := rests.filled
  sets := fun set member => (rests.sets set member).imp_left (more set)
  leads := rests.leads.mono more

/-- An `answer` for a `name` that aliases lead to is an answer for where they come from. -/
theorem after (rests : answer.RestsOn Shown middle type) (leads : Leads Shown name middle) :
    answer.RestsOn Shown name type where
  filled := rests.filled
  sets := rests.sets
  leads := leads.trans rests.leads

end Answer.RestsOn

/-! ## Responses -/

namespace Outcome

theorem aliases_of_aliasBy? {set : RecordSet} {name next : Name}
    (leads : aliasBy? name set = some next) : set.Aliases name next := by
  unfold aliasBy? at leads
  split at leads
  · rename_i target is
    split at leads
    · rename_i here
      obtain rfl := Option.some.inj leads
      exact .cname here (is ▸ List.mem_cons_self)
    · cases leads
  · rename_i target is
    split at leads
    · rename_i rewritten
      rw [leads] at rewritten
      exact .dname (Name.rewrite?_eq_some_iff.mp rewritten).1 (is ▸ List.mem_cons_self) rewritten
    · cases leads
  · cases leads

/-- Where aliases lead rests on record sets that are `Shown`. -/
def Trail.RestsOn (Shown : RecordSet → Prop) (name : Name) (type : RecordType) : Trail → Prop
  | .found result => result.RestsOn Shown name type
  | .ends reached => Leads Shown name reached

theorem Trail.RestsOn.after {trail : Trail} {name middle : Name} {type : RecordType}
    (rests : trail.RestsOn Shown middle type) (leads : Leads Shown name middle) :
    trail.RestsOn Shown name type := by
  cases trail with
  | found result => exact Answer.RestsOn.after rests leads
  | ends reached => exact Relation.ReflTransGen.trans leads rests

theorem restsOn_setsAt {sets : List RecordSet} {name : Name} {type : RecordType}
    (filled : ¬ (setsAt sets name type).isEmpty) :
    Answer.RestsOn (· ∈ sets) name type ⟨name, setsAt sets name type⟩ where
  filled := fun empty => filled (List.isEmpty_iff.mpr empty)
  sets := fun set member => by simpa [setsAt] using member
  leads := .refl

/-- What `follow` makes of the aliases of an answer section rests on its `sets`. -/
theorem restsOn_follow (sets : List RecordSet) (type : RecordType) (steps : Nat) (name : Name) :
    (follow sets type steps name).RestsOn (· ∈ sets) name type := by
  induction steps generalizing name with
  | zero => exact Relation.ReflTransGen.refl
  | succ steps ih =>
    unfold follow
    dsimp only
    split
    · split
      · rename_i next leads
        obtain ⟨set, member, leads⟩ := List.exists_of_findSome?_eq_some leads
        exact (ih next).after (.single ⟨set, member, aliases_of_aliasBy? leads⟩)
      · exact Relation.ReflTransGen.refl
    · rename_i filled
      exact restsOn_setsAt filled

/-- An `answer`, or the `target` of an `alias`, rests on record sets that are shown. -/
def RestsOn (Shown : RecordSet → Prop) (name : Name) (type : RecordType) : Outcome → Prop
  | .answer found => found.RestsOn Shown name type
  | .alias target => Leads Shown name target
  | _ => True

/-- What a `response` means for a `name` rests on its `answer` section. -/
theorem restsOn_classify (response : Message) (name : Name) (type : RecordType) :
    (classify response name type).RestsOn (· ∈ response.sets .answer) name type := by
  have follows := restsOn_follow (response.sets .answer) type
    ((response.sets .answer).length + 1) name
  have means := means_classify response name type
  generalize classify response name type = outcome at means
  cases means with
  | answer leads =>
    rw [leads] at follows
    exact follows
  | «alias» leads away =>
    rw [leads] at follows
    exact follows
  | referral | nxDomain | noData => trivial

end Outcome

/-! ## Caches -/

/-- What is found in a cache for a `name` rests on record sets that are shown. -/
def Cached.RestsOn (Shown : RecordSet → Prop) (name : Name) (type : RecordType) : Cached → Prop
  | .hit result => WhenOk (Answer.RestsOn Shown name type) result
  | .miss reached => Leads Shown name reached

namespace Cached.RestsOn

variable {known : Cached} {name middle : Name} {type : RecordType}

theorem mono (rests : known.RestsOn Shown name type) (more : ∀ set, Shown set → Other set) :
    known.RestsOn Other name type := by
  cases known with
  | hit result => exact fun answer same => Answer.RestsOn.mono (rests answer same) more
  | miss reached => exact Leads.mono rests more

theorem after (rests : known.RestsOn Shown middle type) (leads : Leads Shown name middle) :
    known.RestsOn Shown name type := by
  cases known with
  | hit result => exact fun answer same => Answer.RestsOn.after (rests answer same) leads
  | miss reached => exact Relation.ReflTransGen.trans leads rests

end Cached.RestsOn

namespace Session

variable {cache : Cache} {now : Duration} {name : Name} {type : RecordType}

/-- A finding that makes a `name` an alias is a record set that the `cache` shows. -/
theorem leads_of_aliasFound? {found : Lookup} (gives : cache.Gives now name type found)
    {next : Name} (leads : aliasFound? name found = some next) :
    Leads (cache.Shows now) name next := by
  -- Of what the cache gives only two kinds of sets make the name an alias.
  cases gives with
  | @cname set kind here uniform shows =>
    obtain ⟨datum, member, is⟩ := List.exists_of_findSome?_eq_some leads
    have type : datum.type = .cname := (uniform datum member).trans kind
    cases datum with
    | cname target =>
      obtain rfl := Option.some.inj is
      exact .single ⟨set, shows, .cname here member⟩
    | dname target => cases type
    | _ => cases is
  | @dname set shows =>
    unfold aliasFound? at leads
    dsimp only at leads
    split at leads
    · rename_i target is
      split at leads
      · rename_i rewritten
        rw [leads] at rewritten
        exact .single ⟨set, shows, .dname (Name.rewrite?_eq_some_iff.mp rewritten).1
          (is ▸ List.mem_cons_self) rewritten⟩
      · cases leads
    · cases leads
  | _ => cases leads

theorem restsOn_resultFound? {found : Lookup} (gives : cache.Gives now name type found)
    {result : Except Failure Answer} (is : resultFound? name found = some result) :
    WhenOk (Answer.RestsOn (cache.Shows now) name type) result := by
  cases gives with
  | @answer set kind here shows =>
    obtain rfl := Option.some.inj is
    refine whenOk_ok.mpr ⟨List.cons_ne_nil _ _, fun other member => ?_, .refl⟩
    obtain rfl := List.mem_singleton.mp member
    exact ⟨shows, kind, here⟩
  | nxDomain | nxRrset =>
    obtain rfl := Option.some.inj is
    exact whenOk_error
  | _ => cases is

/-- Following aliases leaves a `Cache` `Tidy`, even where it is refused. -/
theorem keeps_followCached (type : RecordType) (now : Duration) (steps : Nat) (name : Name) :
    Op.Keeps Cache.Tidy (followCached type now steps name) fun _ => True := by
  induction steps generalizing name with
  | zero => exact .pure trivial
  | succ steps ih =>
    refine Op.Keeps.bind (P := fun _ => True)
      (.of_state fun cache tidy => (tidy.lookup name type .normal now).tidy) fun found _ => ?_
    split
    · exact .pure trivial
    · exact ih _
    · exact .pure trivial

/-- What is found by following aliases in a `Tidy` `cache` rests on what the cache shows. -/
theorem restsOn_followCached (single : type ≠ .any) (steps : Nat) {known : Cached} {after : Cache}
    (tidy : cache.Tidy) (ran : followCached type now steps name cache = (.ok known, after)) :
    known.RestsOn (cache.Shows now) name type := by
  induction steps generalizing name cache with
  | zero =>
    cases ran
    exact Relation.ReflTransGen.refl
  | succ steps ih =>
    obtain ⟨found, next, looked, ran⟩ := Op.bind_eq_ok.mp ran
    -- What is found first rests on the cache as it is, and the rest on the cache that this lookup
    -- leaves.
    have gives := tidy.gives_lookup single (congrArg Prod.fst looked)
    cases is : resultFound? name found with
    | some result =>
      rw [is] at ran
      cases ran
      exact restsOn_resultFound? gives is
    | none =>
      cases leads : aliasFound? name found with
      | none =>
        rw [is, leads] at ran
        cases ran
        exact Relation.ReflTransGen.refl
      | some target =>
        rw [is, leads] at ran
        have shed := tidy.lookup name type .normal now
        rw [looked] at shed
        exact ((ih shed.tidy ran).mono shed.shows).after (leads_of_aliasFound? gives leads)

end Session

end NameResolution
