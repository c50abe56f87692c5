import NameResolution.Proofs.Resolution.Backing
import NameResolution.Proofs.Resolution.Contacts
import NameResolution.Proofs.Resolution.Exhaustion
import NameResolution.Proofs.Resolution.PassRefusals

/-!
# The search for servers after a referral

A pass that follows a referral looks up the addresses of those servers for which the referral gives
none, one pass for each type of addresses in turn. It moves on to the addresses that it has then.

* `Pass.Trial`: a pass for an address of a server, with its result.
* `Pass.Looks`: trials that are done without waiting, from one session to another.
* `Pass.Searches`: a search in the course of any run, with all of its trials.
* `Pass.searches_of_refer`, `Pass.Searches.resume`: this is how referrals are followed.
* `Pass.Searches.exhaustive`: a search leaves out no server without an address set of its own, and
  gives up only if no address of a wanted family is known.
-/

namespace NameResolution

namespace Pass

/-- A pass for an address of a server, which has ended: an entry of what `Searches` tells. -/
structure Trial where
  server : Name
  type : RecordType
  result : Except Failure Answer

/-- The address sets that a `trial` has given, for the name of the server. -/
def Trial.gives (trial : Trial) : List RecordSet :=
  match trial.result with
  | .ok answer => gluesOf trial.server answer
  | .error _ => []

/-- The `trial` was refused a query. -/
def Trial.Refused (trial : Trial) : Prop := trial.result = .error .budgetExhausted

/-- Servers whose addresses are to be looked up, and the types for each of them: what a `Trial`
comes from. -/
abbrev Plan := List (Name × List RecordType)

/-- Trials by which one `plan` becomes another. They go through the servers and their `types` in
order; after one that was refused the other types of its `server` are left out. -/
inductive Works : Plan → List Trial → Plan → Prop
  | rest (plan : Plan) : Works plan [] plan
  | next {server : Name} {plan left : Plan} {trials : List Trial} (works : Works plan trials left) :
    Works ((server, []) :: plan) trials left
  | tried {server : Name} {type : RecordType} {types : List RecordType} {plan left : Plan}
    {result : Except Failure Answer} {trials : List Trial}
    (taken : result ≠ .error .budgetExhausted)
    (works : Works ((server, types) :: plan) trials left) :
    Works ((server, type :: types) :: plan) (⟨server, type, result⟩ :: trials) left
  | refused {server : Name} {type : RecordType} {types : List RecordType} {plan left : Plan}
    {trials : List Trial} (works : Works plan trials left) :
    Works ((server, type :: types) :: plan) (⟨server, type, .error .budgetExhausted⟩ :: trials)
      left

/-- Trials that are done one after the other, from one `session` to another, beginning with some
address sets. They end with the `plan`, or with a pass that has to wait. -/
inductive Looks (depth : Nat) : List RecordSet → Plan → Session → List Trial →
    Gathered → Plan → Session → Prop
  | done (glue : List RecordSet) (session : Session) :
    Looks depth glue [] session [] (.complete glue) [] session
  | next {server : Name} {glue : List RecordSet} {plan left : Plan} {before after : Session}
    {trials : List Trial} {gathered : Gathered}
    (looks : Looks depth glue plan before trials gathered left after) :
    Looks depth glue ((server, []) :: plan) before trials gathered left after
  | waits {server : Name} {type : RecordType} {types : List RecordType} {glue : List RecordSet}
    {plan : Plan} {before after : Session} {asked : Asked}
    (ran : begin server type depth before = (.ok (.asked asked), after)) :
    Looks depth glue ((server, type :: types) :: plan) before []
      (.waiting asked glue server types) plan after
  | tried {server : Name} {type : RecordType} {types : List RecordType}
    {glue grown : List RecordSet} {plan left : Plan} {before middle after : Session}
    {result : Except Failure Answer} {trials : List Trial} {gathered : Gathered}
    (ran : begin server type depth before = (.ok (.finished result), middle))
    (taken : takeIn? server glue result = some grown)
    (looks : Looks depth grown ((server, types) :: plan) middle trials gathered left after) :
    Looks depth glue ((server, type :: types) :: plan) before (⟨server, type, result⟩ :: trials)
      gathered left after
  | refused {server : Name} {type : RecordType} {types : List RecordType} {glue : List RecordSet}
    {plan left : Plan} {before middle after : Session} {result : Except Failure Answer}
    {trials : List Trial} {gathered : Gathered}
    (ran : begin server type depth before = (.ok (.finished result), middle))
    (refused : takeIn? server glue result = none)
    (looks : Looks depth glue plan middle trials gathered left after) :
    Looks depth glue ((server, type :: types) :: plan) before (⟨server, type, result⟩ :: trials)
      gathered left after

variable {settings : Settings} {depth : Nat}

/-! ## Trials -/

theorem takeIn?_eq_none {server : Name} {glue : List RecordSet}
    {result : Except Failure Answer} :
    takeIn? server glue result = none ↔ result = .error .budgetExhausted := by
  unfold takeIn?
  split <;> simp_all

theorem takeIn?_eq_some {server : Name} {glue grown : List RecordSet}
    {result : Except Failure Answer} (taken : takeIn? server glue result = some grown)
    (type : RecordType) :
    result ≠ .error .budgetExhausted ∧ grown = glue ++ Trial.gives ⟨server, type, result⟩ := by
  refine ⟨fun refused => ?_, ?_⟩
  · rw [takeIn?_eq_none.mpr refused] at taken
    cases taken
  · unfold takeIn? at taken
    split at taken
    · exact (Option.some.inj taken).symm
    · cases taken
    · obtain rfl := Option.some.inj taken
      exact (List.append_nil _).symm

theorem Works.trans {first second third : Plan} {trials more : List Trial}
    (works : Works first trials second) (further : Works second more third) :
    Works first (trials ++ more) third := by
  induction works with
  | rest => exact further
  | next works ih => exact .next (ih further)
  | tried taken works ih => exact .tried taken (ih further)
  | refused works ih => exact .refused (ih further)

/-- The `server` was tried for the `type`, or a `Trial` of it was refused. -/
def Covers (trials : List Trial) (server : Name) (type : RecordType) : Prop :=
  ∃ trial ∈ trials, trial.server = server ∧ (trial.type = type ∨ trial.Refused)

theorem Covers.cons {trials : List Trial} {server : Name} {type : RecordType}
    (covers : Covers trials server type) (first : Trial) : Covers (first :: trials) server type := by
  obtain ⟨trial, member, fits⟩ := covers
  exact ⟨trial, List.mem_cons_of_mem _ member, fits⟩

/-- When a `plan` is done, each `server` was tried for each `type`, up to a `Trial` that was
refused. -/
theorem Works.covers {plan : Plan} {trials : List Trial} (works : Works plan trials [])
    {server : Name} {types : List RecordType} (planned : (server, types) ∈ plan)
    {type : RecordType} (wanted : type ∈ types) : Covers trials server type := by
  generalize none : ([] : Plan) = left at works
  induction works generalizing types with
  | rest => simp [← none] at planned
  | next works ih =>
    obtain same | later := List.mem_cons.mp planned
    · obtain ⟨rfl, rfl⟩ := Prod.mk.inj same
      simp at wanted
    · exact ih later wanted none
  | tried taken works ih =>
    obtain same | elsewhere := List.mem_cons.mp planned
    · obtain ⟨rfl, rfl⟩ := Prod.mk.inj same
      -- The type has just been tried for the server, or it is among those that are left for it.
      obtain rfl | among := List.mem_cons.mp wanted
      · exact ⟨_, List.mem_cons_self, rfl, .inl rfl⟩
      · exact (ih List.mem_cons_self among none).cons _
    · exact (ih (List.mem_cons_of_mem _ elsewhere) wanted none).cons _
  | refused works ih =>
    obtain same | elsewhere := List.mem_cons.mp planned
    · obtain ⟨rfl, rfl⟩ := Prod.mk.inj same
      exact ⟨_, List.mem_cons_self, rfl, .inr rfl⟩
    · exact (ih elsewhere wanted none).cons _

/-- Only servers of the `plan` are tried. -/
theorem Works.server_mem {plan left : Plan} {trials : List Trial} (works : Works plan trials left) :
    ∀ trial ∈ trials, trial.server ∈ plan.map Prod.fst := by
  induction works with
  | rest => exact List.forall_mem_nil _
  | next works ih => exact fun trial member => List.mem_cons_of_mem _ (ih trial member)
  | tried taken works ih => exact List.forall_mem_cons.mpr ⟨List.mem_cons_self, ih⟩
  | refused works ih =>
    exact List.forall_mem_cons.mpr ⟨List.mem_cons_self,
      fun trial member => List.mem_cons_of_mem _ (ih trial member)⟩

/-! ## Looking up without waiting -/

/-- No query has been given back from `before` to `after`. -/
def Spends (before after : Session) : Prop :=
  after.allowance.budget.remaining ≤ before.allowance.budget.remaining

theorem spends_of_pays {α : Type} {op : Op Session α} (pays : Session.Pays op)
    {before after : Session} {value : α} (ran : op before = (.ok value, after)) :
    Spends before after := by
  obtain ⟨-, sent, -, paid⟩ := pays before
  rw [ran] at paid
  exact Nat.le_trans (Nat.le_add_left _ _) paid

theorem Spends.bears {α : Type} {before after : Session} (spends : Spends before after)
    {result : Except Failure α} (bears : before.Bears result) : after.Bears result := fun refused =>
  Nat.eq_zero_of_le_zero (Nat.le_trans spends (Nat.le_of_eq (bears refused)))

theorem Spends.trans {before middle after : Session} (first : Spends before middle)
    (second : Spends middle after) : Spends before after := Nat.le_trans second first

/-- What `trials` for a `plan` have come to, in addition to the address sets that there were. -/
def Gathered.Reached (depth : Nat) (glue : List RecordSet) (plan : Plan) (trials : List Trial)
    (left : Plan) : Gathered → Prop
  | .complete later => later = glue ++ trials.flatMap Trial.gives ∧ Works plan trials []
  | .waiting asked later server types => later = glue ++ trials.flatMap Trial.gives ∧
      ∃ type, asked.inquiry.Seeks type depth ∧ Works plan trials ((server, type :: types) :: left)

theorem Gathered.Reached.after {glue : List RecordSet} {plan between left : Plan}
    {trials more : List Trial} {gathered : Gathered} (works : Works plan trials between)
    (reached : gathered.Reached depth (glue ++ trials.flatMap Trial.gives) between more left) :
    gathered.Reached depth glue plan (trials ++ more) left := by
  cases gathered with
  | complete later =>
    obtain ⟨rfl, rest⟩ := reached
    exact ⟨by simp, works.trans rest⟩
  | waiting asked later server types =>
    obtain ⟨rfl, type, seeks, rest⟩ := reached
    exact ⟨by simp, type, seeks, works.trans rest⟩

/-- A trial that ends at once keeps the `settings`, and the `Session` bears its `result` out. -/
theorem finished_of_begin {server : Name} {type : RecordType} {before after : Session}
    {result : Except Failure Answer} (same : before.resolver.settings = settings)
    (ran : begin server type depth before = (.ok (.finished result), after)) :
    after.resolver.settings = settings ∧ after.Bears result := by
  have fair := (fair_begin server type depth : Session.Gives settings _ _) before same
  rwa [ran] at fair

/-- Trials without waiting follow the `plan`, and sets are added as they give them. What they tell
of the budget is true. -/
theorem Looks.reached {glue : List RecordSet} {plan left : Plan} {before after : Session}
    {trials : List Trial} {gathered : Gathered}
    (looks : Looks depth glue plan before trials gathered left after)
    (same : before.resolver.settings = settings) :
    gathered.Reached depth glue plan trials left ∧ after.resolver.settings = settings ∧
      Spends before after ∧ ∀ trial ∈ trials, after.Bears trial.result := by
  -- The trials are followed one by one; each takes a step of the plan and gives its sets.
  induction looks with
  | done glue session =>
    exact ⟨⟨(List.append_nil glue).symm, .rest _⟩, same, Nat.le_refl _, List.forall_mem_nil _⟩
  | next looks ih =>
    obtain ⟨reached, rest⟩ := ih same
    exact ⟨.after (.next (.rest _)) (by simpa using reached), rest⟩
  | @waits server type types glue plan before after asked ran =>
    have fair := (fair_begin server type depth : Session.Gives settings _ _) before same
    rw [ran] at fair
    exact ⟨⟨(List.append_nil glue).symm, type, fair.2, .rest _⟩, fair.1,
      spends_of_pays (pays_begin _ _ _) ran, List.forall_mem_nil _⟩
  | @tried server type types glue grown plan left before middle after result trials gathered ran
      taken looks ih =>
    obtain ⟨kept, bears⟩ := finished_of_begin same ran
    obtain ⟨reached, settled, spends, rest⟩ := ih kept
    obtain ⟨other, rfl⟩ := takeIn?_eq_some taken type
    have first : Works ((server, type :: types) :: plan) [⟨server, type, result⟩]
        ((server, types) :: plan) := .tried other (.rest _)
    refine ⟨.after first (by simpa using reached), settled,
      (spends_of_pays (pays_begin _ _ _) ran).trans spends, ?_⟩
    exact List.forall_mem_cons.mpr ⟨spends.bears bears, rest⟩
  | @refused server type types glue plan left before middle after result trials gathered ran
      refused looks ih =>
    obtain ⟨kept, bears⟩ := finished_of_begin same ran
    obtain ⟨reached, settled, spends, rest⟩ := ih kept
    obtain rfl := takeIn?_eq_none.mp refused
    have first : Works ((server, type :: types) :: plan) [⟨server, type, .error .budgetExhausted⟩]
        plan := .refused (.rest _)
    refine ⟨.after first (by simpa [Trial.gives] using reached), settled,
      (spends_of_pays (pays_begin _ _ _) ran).trans spends, ?_⟩
    exact List.forall_mem_cons.mpr ⟨spends.bears bears, rest⟩

/-! ### The code -/

/-- The `Plan` to look `servers` up for the same `types`. -/
def planFor (types : List RecordType) (servers : List Name) : Plan := servers.map (·, types)

/-- Trials for one `server`, after which those for a `plan` may follow. -/
theorem looks_of_gatherTypes {server : Name} {glue : List RecordSet} {types : List RecordType}
    {before after : Session} {gathered : Gathered}
    (ran : gatherTypes server depth glue types before = (.ok gathered, after)) :
    ∃ trials, (∀ later, gathered = .complete later → ∀ plan more final left last,
        Looks depth later plan after more final left last →
          Looks depth glue ((server, types) :: plan) before (trials ++ more) final left last) ∧
      ∀ asked later own rest, gathered = .waiting asked later own rest → ∀ plan,
        Looks depth glue ((server, types) :: plan) before trials gathered plan after := by
  induction types generalizing glue before with
  | nil =>
    cases ran
    refine ⟨[], ?_, fun _ _ _ _ same => nomatch same⟩
    rintro _ ⟨⟩ plan more final left last looks
    exact .next looks
  | cons type types ih =>
    obtain ⟨turn, middle, began, ran⟩ := Op.bind_eq_ok.mp ran
    cases turn with
    | asked asked =>
      cases ran
      exact ⟨[], (fun _ same => nomatch same), fun _ _ _ _ _ plan => .waits began⟩
    | finished result =>
      dsimp only at ran
      -- A trial that was refused leaves out the other types; the others go on with what it gives.
      cases taken : takeIn? server glue result with
      | none =>
        rw [taken] at ran
        cases ran
        refine ⟨[⟨server, type, result⟩], ?_, fun _ _ _ _ same => nomatch same⟩
        rintro _ ⟨⟩ plan more final left last looks
        exact .refused began taken looks
      | some grown =>
        rw [taken] at ran
        obtain ⟨trials, completes, waits⟩ := ih ran
        exact ⟨⟨server, type, result⟩ :: trials,
          fun later same plan more final left last looks =>
            .tried began taken (completes later same plan more final left last looks),
          fun asked later own rest same plan =>
            .tried began taken (waits asked later own rest same plan)⟩

theorem looks_of_gatherServers {types : List RecordType} {glue : List RecordSet}
    {servers left : List Name} {before after : Session} {gathered : Gathered}
    (ran : gatherServers types depth glue servers before = (.ok (gathered, left), after)) :
    ∃ trials, Looks depth glue (planFor types servers) before trials gathered
      (planFor types left) after := by
  induction servers generalizing glue before with
  | nil =>
    cases ran
    exact ⟨[], .done _ _⟩
  | cons server servers ih =>
    obtain ⟨found, middle, looked, ran⟩ := Op.bind_eq_ok.mp ran
    obtain ⟨trials, completes, waits⟩ := looks_of_gatherTypes looked
    cases found with
    | complete later =>
      obtain ⟨more, looks⟩ := ih ran
      exact ⟨trials ++ more, completes later rfl _ _ _ _ _ looks⟩
    | waiting asked later own rest =>
      cases ran
      exact ⟨trials, waits asked later own rest rfl _⟩

/-! ## Searches -/

/-- What is left to be looked up when the first pass of a gathering has ended, and the address sets
that are known then. -/
def remaining (types : List RecordType) (gathering : Gathering)
    (result : Except Failure Answer) : List RecordSet × Plan :=
  match takeIn? gathering.server gathering.glue result with
  | some glue => (glue, (gathering.server, gathering.types) :: planFor types gathering.servers)
  | none => (gathering.glue, planFor types gathering.servers)

theorem looks_of_regather {gathering : Gathering} {result : Except Failure Answer}
    {before after : Session} {gathered : Gathered} {left : List Name}
    (same : before.resolver.settings = settings)
    (ran : regather gathering result before = (.ok (gathered, left), after)) :
    ∃ trials, Looks (gathering.inquiry.depth + 1)
      (remaining settings.preference.types gathering result).1
      (remaining settings.preference.types gathering result).2 before trials gathered
      (planFor settings.preference.types left) after := by
  rw [regather_eq] at ran
  obtain ⟨found, middle, looked, ran⟩ := Op.bind_eq_ok.mp ran
  -- After the server at hand come the other ones, each with all types.
  have servers (later : List RecordSet) (kept : middle.resolver.settings = settings)
      (ran : lookOn gathering (.complete later) middle = (.ok (gathered, left), after)) :
      ∃ trials, Looks (gathering.inquiry.depth + 1) later
        (planFor settings.preference.types gathering.servers) middle trials gathered
        (planFor settings.preference.types left) after := by
    obtain ⟨own, _, got, ran⟩ := Op.bind_eq_ok.mp ran
    cases got
    exact kept ▸ looks_of_gatherServers ran
  unfold remaining
  unfold lookFurther at looked
  cases taken : takeIn? gathering.server gathering.glue result with
  | none =>
    rw [taken] at looked
    cases looked
    exact servers _ same ran
  | some grown =>
    rw [taken] at looked
    obtain ⟨trials, completes, waits⟩ := looks_of_gatherTypes looked
    cases found with
    | complete later =>
      have kept := ((completes later rfl [] [] _ _ _ (.done later middle)).reached same).2.1
      obtain ⟨more, looks⟩ := servers later kept ran
      exact ⟨trials ++ more, completes later rfl _ _ _ _ _ looks⟩
    | waiting asked later own rest =>
      cases ran
      exact ⟨trials, waits asked later own rest rfl _⟩

/-- What other passes of the call leave of a `Session`: the `settings` are the same, and no query
has been given back. -/
structure Meanwhile (settings : Settings) (before after : Session) : Prop where
  settings : after.resolver.settings = settings
  spends : Spends before after

/-- What is to be looked up after a `referral`. -/
def planOf (settings : Settings) (inquiry : Inquiry) (referral : Referral) : Plan :=
  planFor settings.preference.types (if inquiry.depth < maxDepth then bareServers referral else [])

/-- The search for servers after a `referral`, in the course of any run: its `trials` so far, and
how the pass stands. It waits for a pass for the address of a server, or it has moved on. In between
other passes of the call go on, and responses are heard in any way. -/
inductive Searches (settings : Settings) (inquiry : Inquiry) (referral : Referral) :
    List Trial → Turn × List Gathering → Session → Prop
  | referred {trials : List Trial} {gathered : Gathered} {left : List Name}
    {next : Turn × List Gathering} {before middle after : Session}
    (same : before.resolver.settings = settings)
    (looks : Looks (inquiry.depth + 1) referral.glue (planOf settings inquiry referral) before
      trials gathered (planFor settings.preference.types left) middle)
    (takes : takeUp inquiry referral (gathered, left) middle = (.ok next, after)) :
    Searches settings inquiry referral trials next after
  | waited {trials : List Trial} {inner : Asked} {gathering : Gathering} {before after : Session}
    (searches : Searches settings inquiry referral trials (.asked inner, [gathering]) before)
    (meanwhile : Meanwhile settings before after) (query : Query) :
    Searches settings inquiry referral trials
      (.asked { inner with query := query }, [gathering]) after
  | went {trials : List Trial} {inner next : Asked} {gathering : Gathering} {event : Event}
    {result : Settlement} {before middle after : Session}
    (searches : Searches settings inquiry referral trials (.asked inner, [gathering]) before)
    (meanwhile : Meanwhile settings before middle)
    (happened : ∃ registry, (inner.query.happen event registry).1.1 = some result)
    (ran : conclude inner result middle = (.ok (.asked next, []), after)) :
    Searches settings inquiry referral trials (.asked next, [gathering]) after
  | ended {trials more : List Trial} {inner : Asked} {gathering : Gathering} {event : Event}
    {result : Settlement} {found : Except Failure Answer} {gathered : Gathered} {left : List Name}
    {next : Turn × List Gathering} {before middle known looked after : Session}
    (searches : Searches settings inquiry referral trials (.asked inner, [gathering]) before)
    (meanwhile : Meanwhile settings before middle)
    (happened : ∃ registry, (inner.query.happen event registry).1.1 = some result)
    (ran : conclude inner result middle = (.ok (.finished found, []), known))
    (looks : Looks (inquiry.depth + 1) (remaining settings.preference.types gathering found).1
      (remaining settings.preference.types gathering found).2 known more gathered
      (planFor settings.preference.types left) looked)
    (takes : takeUp inquiry referral (gathered, left) looked = (.ok next, after)) :
    Searches settings inquiry referral
      (trials ++ ⟨gathering.server, inner.inquiry.type, found⟩ :: more) next after

/-! ## How searches stand -/

variable {inquiry : Inquiry} {referral : Referral} {trials : List Trial}
  {next : Turn × List Gathering} {before after session : Session}

/-- A pass that has looked up what it could moves on to the servers with these `addresses`. Without
any it gives up. -/
inductive MovesOn (settings : Settings) (inquiry : Inquiry) (referral : Referral) :
    List Address → Turn → Prop
  | givesUp : MovesOn settings inquiry referral []
    (.finished (.error (inquiry.lastFailure.getD .noServers)))
  | asks {addresses : List Address} {result : Except Failure Asked} {before after : Session}
    (known : addresses ≠ [])
    (ran : Inquiry.askNext { inquiry with
      rota := .once (addresses.map (Endpoint.ofAddress · settings.port)), zone := referral.zone }
      before = (.ok result, after)) :
    MovesOn settings inquiry referral addresses (.ofInquiry result)

/-- A search that waits has done some `trials` of its plan, and one that has moved on has done all
of them. It knows the address sets of the `referral` and of its trials. -/
inductive Searched (settings : Settings) (inquiry : Inquiry) (referral : Referral)
    (trials : List Trial) : Turn × List Gathering → Prop
  | waits {inner : Asked} {server : Name} {type : RecordType} {types : List RecordType}
    {servers : List Name} (seeks : inner.inquiry.Seeks type (inquiry.depth + 1))
    (works : Works (planOf settings inquiry referral) trials
      ((server, type :: types) :: planFor settings.preference.types servers)) :
    Searched settings inquiry referral trials (.asked inner,
      [⟨inquiry, referral, referral.glue ++ trials.flatMap Trial.gives, server, types, servers⟩])
  | moved {turn : Turn} (works : Works (planOf settings inquiry referral) trials [])
    (moves : MovesOn settings inquiry referral (usableAddresses settings.preference.types
      (referral.glue ++ trials.flatMap Trial.gives)) turn) :
    Searched settings inquiry referral trials (turn, [])

theorem movesOn_of_redirect {glue : List RecordSet} {turn : Turn}
    (same : before.resolver.settings = settings)
    (ran : redirect inquiry referral glue before = (.ok turn, after)) :
    MovesOn settings inquiry referral (usableAddresses settings.preference.types glue) turn := by
  obtain ⟨own, _, got, ran⟩ := Op.bind_eq_ok.mp ran
  cases got
  obtain ⟨_, _, -, ran⟩ := Op.bind_eq_ok.mp ran
  rw [same] at ran
  dsimp only at ran
  split at ran
  · rename_i none
    cases ran
    rw [List.isEmpty_iff.mp none]
    exact .givesUp
  · rename_i some
    obtain ⟨result, _, asks, rest⟩ := Op.bind_eq_ok.mp ran
    cases rest
    exact .asks (mt List.isEmpty_iff.mpr some) asks

/-- A search goes on as far as its `trials` have come to. -/
theorem searched_of_takeUp {gathered : Gathered} {left : List Name}
    (same : before.resolver.settings = settings)
    (reached : gathered.Reached (inquiry.depth + 1) referral.glue (planOf settings inquiry referral)
      trials (planFor settings.preference.types left))
    (takes : takeUp inquiry referral (gathered, left) before = (.ok next, after)) :
    Searched settings inquiry referral trials next ∧ Spends before after := by
  refine ⟨?_, spends_of_pays (pays_takeUp _ _ _) takes⟩
  cases gathered with
  | complete later =>
    obtain ⟨rfl, works⟩ := reached
    obtain ⟨turn, _, redirects, rest⟩ := Op.bind_eq_ok.mp takes
    cases rest
    exact .moved works (movesOn_of_redirect same redirects)
  | waiting asked later server types =>
    obtain ⟨rfl, type, seeks, works⟩ := reached
    cases takes
    exact .waits seeks works

/-- What is remaining after a `Trial`, when the `plan` has been done up to it. -/
theorem Works.ended {types left : List RecordType} {glue : List RecordSet} {server : Name}
    {type : RecordType} {servers : List Name} {plan : Plan}
    (works : Works plan trials ((server, type :: left) :: planFor types servers))
    (inquiry : Inquiry) (referral : Referral) (result : Except Failure Answer) :
    ∃ done, Works plan (trials ++ [⟨server, type, result⟩]) done ∧
      remaining types ⟨inquiry, referral, glue, server, left, servers⟩ result =
        (glue ++ Trial.gives ⟨server, type, result⟩, done) := by
  unfold remaining
  dsimp only
  cases taken : takeIn? server glue result with
  | none =>
    obtain rfl := takeIn?_eq_none.mp taken
    exact ⟨_, works.trans (.refused (.rest _)), by simp [Trial.gives]⟩
  | some grown =>
    obtain ⟨other, rfl⟩ := takeIn?_eq_some taken type
    exact ⟨_, works.trans (.tried other (.rest _)), rfl⟩

/-- No pass inside another one looks up servers, since it is as deep as `maxDepth` allows. -/
theorem not_shallow : ¬ inquiry.depth + 1 < maxDepth := by
  unfold maxDepth
  omega

/-- When the `query` of a pass inside another one comes to an end, the pass goes on as one that
looks up no servers. -/
theorem concluded_inside {type : RecordType} {inner : Asked} {event : Event} {result : Settlement}
    {middle : Session} (seeks : inner.inquiry.Seeks type (inquiry.depth + 1))
    (meanwhile : Meanwhile settings before middle)
    (happened : ∃ registry, (inner.query.happen event registry).1.1 = some result)
    (ran : conclude inner result middle = (.ok next, after)) :
    Meanwhile settings before after ∧ FairAlone type (inquiry.depth + 1) next after := by
  obtain ⟨registry, happened⟩ := happened
  have direct := inner.query.direct_happen event registry result happened
  have fair := fair_conclude seeks not_shallow direct middle meanwhile.settings
  rw [ran] at fair
  have spends := spends_of_pays (pays_conclude inner result) ran
  exact ⟨⟨fair.1, meanwhile.spends.trans spends⟩, fair.2⟩

/-- In every run a search stands as its `trials` say, and what they tell of the budget is true. -/
theorem Searches.searched (searches : Searches settings inquiry referral trials next session) :
    Searched settings inquiry referral trials next ∧
      ∀ trial ∈ trials, session.Bears trial.result := by
  -- The invariant is `Searched`. In between only the session changes, which bears out what was told
  -- before.
  induction searches with
  | referred same looks takes =>
    obtain ⟨reached, kept, -, bears⟩ := looks.reached same
    obtain ⟨stands, spends⟩ := searched_of_takeUp kept reached takes
    exact ⟨stands, fun trial member => spends.bears (bears trial member)⟩
  | @waited trials inner gathering before after searches meanwhile query ih =>
    obtain ⟨stands, bears⟩ := ih
    refine ⟨?_, fun trial member => meanwhile.spends.bears (bears trial member)⟩
    cases stands with
    | waits seeks works => exact .waits seeks works
  | @went trials inner next gathering event result before middle after searches meanwhile happened
      ran ih =>
    obtain ⟨stands, bears⟩ := ih
    cases stands with
    | waits seeks works =>
      obtain ⟨since, -, fair⟩ := concluded_inside seeks meanwhile happened ran
      exact ⟨.waits fair works, fun trial member => since.spends.bears (bears trial member)⟩
  | @ended trials more inner gathering event result found gathered left next before middle known
      looked after searches meanwhile happened ran looks takes ih =>
    obtain ⟨stands, bears⟩ := ih
    cases stands with
    | @waits _ server type types servers seeks works =>
      obtain ⟨concluded, -, own⟩ := concluded_inside seeks meanwhile happened ran
      obtain ⟨done, ended, same⟩ := works.ended inquiry referral found
      rw [same] at looks
      obtain ⟨reached, kept, spends, later⟩ := looks.reached concluded.settings
      have whole : gathered.Reached (inquiry.depth + 1) referral.glue
          (planOf settings inquiry referral) (trials ++ [⟨server, type, found⟩] ++ more)
          (planFor settings.preference.types left) := .after ended (by simpa using reached)
      obtain ⟨stands, last⟩ := searched_of_takeUp kept whole takes
      have since := concluded.spends.trans (spends.trans last)
      rw [seeks.type, ← List.singleton_append, ← List.append_assoc]
      refine ⟨stands, List.forall_mem_append.mpr ⟨List.forall_mem_append.mpr ⟨?_, ?_⟩, ?_⟩⟩
      · exact fun trial member => since.bears (bears trial member)
      · exact List.forall_mem_singleton.mpr ((spends.trans last).bears own)
      · exact fun trial member => last.bears (later trial member)

/-! ## All that is found -/

/-- A `referral` that is accepted starts a search. -/
theorem searches_of_refer (same : before.resolver.settings = settings)
    (ran : refer inquiry referral before = (.ok next, after)) :
    ∃ trials, Searches settings inquiry referral trials next after := by
  obtain ⟨own, _, got, ran⟩ := Op.bind_eq_ok.mp ran
  cases got
  obtain ⟨⟨gathered, left⟩, middle, looked, takes⟩ := Op.bind_eq_ok.mp ran
  obtain ⟨trials, looks⟩ := looks_of_gatherServers looked
  rw [same] at looks
  exact ⟨trials, .referred same looks takes⟩

/-- Whatever happens, a search goes on as a search, or the `Pass` has moved on. -/
theorem Searches.resume {inner : Asked} {gathering : Gathering} {event : Event}
    {progress : Progress}
    (searches : Searches settings inquiry referral trials (.asked inner, [gathering]) session)
    (meanwhile : Meanwhile settings session before)
    (ran : Pass.resume ⟨inner, [gathering]⟩ event before = (.ok progress, after)) :
    ∃ more, Searches settings inquiry referral (trials ++ more) progress.parts after := by
  obtain ⟨waits, rfl, rfl⟩ | ⟨result, ⟨turn, inside⟩, middle, settles, concluded, unwound⟩ :=
    resume_cases ran
  · refine ⟨[], ?_⟩
    rw [List.append_nil]
    refine searches.waited ?_ _
    exact ⟨meanwhile.settings, meanwhile.spends⟩
  have later : Meanwhile settings session { before with resolver := { before.resolver with
      registry := (inner.query.happen event before.resolver.registry).2 } } :=
    ⟨meanwhile.settings, meanwhile.spends⟩
  cases searches.searched.1 with | @waits _ server type types servers seeks works => ?_
  obtain ⟨kept, alone, -⟩ := concluded_inside seeks later ⟨_, settles⟩ concluded
  -- The pass inside is at the deepest level, so it waits for none itself.
  obtain rfl : inside = [] := alone
  cases turn with
  | asked next =>
    rw [unwind_asked] at unwound
    cases unwound
    refine ⟨[], ?_⟩
    rw [List.append_nil]
    exact searches.went later ⟨_, settles⟩ concluded
  | finished found =>
    obtain ⟨⟨gathered, left⟩, looked, regathered, unwound⟩ := Op.bind_eq_ok.mp unwound
    obtain ⟨⟨turn, inside⟩, last, takes, unwound⟩ := Op.bind_eq_ok.mp unwound
    obtain ⟨more, looks⟩ := looks_of_regather kept.settings regathered
    refine ⟨⟨server, inner.inquiry.type, found⟩ :: more, ?_⟩
    have ended := searches.ended later ⟨_, settles⟩ concluded looks takes
    cases turn with
    | asked next =>
      cases unwound
      rw [Progress.parts, List.append_nil]
      exact ended
    | finished result =>
      cases unwound
      cases ended.searched.1
      exact ended

/-! ## All that is found -/

/-- The address `set` belongs to a listed server. -/
def Lists (servers : RecordSet) (set : RecordSet) : Prop :=
  ∃ server ∈ servers.additionalNames, (set.owner == server) = true

/-- The `referral` and the `trials` give the `address`, in a set of a type that is wanted and for a
server that the referral lists. -/
def Finds (settings : Settings) (referral : Referral) (trials : List Trial) (address : Address) :
    Prop :=
  ∃ set ∈ referral.glue ++ trials.flatMap Trial.gives, set.type ∈ settings.preference.types ∧
    address ∈ RecordSet.addresses [set] ∧ Lists referral.servers set

theorem lists_of_classify {response : Message} {name : Name} {type : RecordType}
    (refers : Outcome.classify response name type = .referral referral) :
    ∀ set ∈ referral.glue, Lists referral.servers set := by
  have means := Outcome.means_classify response name type
  rw [refers] at means
  cases means with | referral leads exist same delegated unanswered => ?_
  intro set member
  obtain ⟨-, useful⟩ := List.mem_filter.mp member
  rw [decide_eq_true_eq] at useful
  exact List.contains_iff_exists_mem_beq.mp useful.2

/-- What a `trial` gives is for the `server` that was tried. -/
theorem Trial.owner_of_gives {trial : Trial} {set : RecordSet} (gives : set ∈ trial.gives) :
    set.owner = trial.server := by
  unfold Trial.gives at gives
  split at gives
  · obtain ⟨own, -, rfl⟩ := List.mem_map.mp gives
    rfl
  · simp at gives

/-- Only servers for which the `referral` gives no address set are tried. -/
theorem Works.bare (works : Works (planOf settings inquiry referral) trials []) :
    ∀ trial ∈ trials, trial.server ∈ bareServers referral := by
  intro trial member
  have tried := works.server_mem trial member
  rw [planOf, planFor, List.map_map, List.mem_map] at tried
  obtain ⟨server, bare, same⟩ := tried
  rw [← same]
  split at bare
  · exact bare
  · simp at bare

theorem Works.lists (works : Works (planOf settings inquiry referral) trials [])
    {set : RecordSet} (member : set ∈ trials.flatMap Trial.gives) :
    Lists referral.servers set := by
  obtain ⟨trial, among, gives⟩ := List.mem_flatMap.mp member
  refine ⟨trial.server, List.mem_of_mem_filter (works.bare trial among), ?_⟩
  rw [Trial.owner_of_gives gives]
  exact Name.beq_self _

theorem mem_usableAddresses {types : List RecordType} {glue : List RecordSet} {address : Address} :
    address ∈ usableAddresses types glue ↔
      ∃ set ∈ glue, set.type ∈ types ∧ address ∈ RecordSet.addresses [set] := by
  simp [usableAddresses, RecordSet.addresses, and_assoc]

/-- A search after a `referral` that a pass at the outermost level has accepted tries the listed
servers for which the referral gives no address set. Each of them is tried for each type of
addresses, up to a `Trial` that was refused because the budget is used up; no other server is tried.
The pass then `MovesOn` to exactly the addresses of wanted types that the referral and the `trials`
have given for listed servers, and gives up if there are none. -/
theorem Searches.exhaustive {response : Message} {turn : Turn}
    (refers : Outcome.classify response inquiry.name inquiry.type = .referral referral)
    (outermost : inquiry.depth = 0)
    (searches : Searches settings inquiry referral trials (turn, []) session) :
    (∀ server ∈ referral.servers.additionalNames,
      (∀ set ∈ referral.glue, ¬ (set.owner == server) = true) →
        ∀ type ∈ settings.preference.types, ∃ trial ∈ trials, trial.server = server ∧
          (trial.type = type ∨ trial.Refused ∧ session.Dry)) ∧
    (∀ trial ∈ trials, trial.server ∈ bareServers referral) ∧
    ∃ addresses, MovesOn settings inquiry referral addresses turn ∧
      (∀ address, address ∈ addresses ↔ Finds settings referral trials address) ∧
      (addresses = [] ↔ ∀ address, ¬ Finds settings referral trials address) := by
  obtain ⟨stands, bears⟩ := searches.searched
  cases stands with | moved works moves => ?_
  -- Every set that the referral or a trial gives belongs to a listed server.
  have found (address : Address) : address ∈ usableAddresses settings.preference.types
      (referral.glue ++ trials.flatMap Trial.gives) ↔ Finds settings referral trials address := by
    rw [mem_usableAddresses]
    refine exists_congr fun set => and_congr_right fun member => and_congr_right fun _ => ?_
    have lists : Lists referral.servers set := (List.mem_append.mp member).elim
      (lists_of_classify refers set) works.lists
    exact (and_iff_left lists).symm
  refine ⟨fun server listed bare type wanted => ?_, works.bare, _, moves, found, ?_⟩
  · have planned : (server, settings.preference.types) ∈ planOf settings inquiry referral := by
      rw [planOf, planFor, outermost, if_pos (by decide)]
      refine List.mem_map_of_mem (List.mem_filter.mpr ⟨listed, ?_⟩)
      simpa using bare
    obtain ⟨trial, member, own, fits⟩ := works.covers planned wanted
    exact ⟨trial, member, own, fits.imp_right fun refused => ⟨refused, bears trial member refused⟩⟩
  · rw [List.eq_nil_iff_forall_not_mem]
    exact forall_congr' fun address => not_congr (found address)

/-- A response that refers to the name server of a zone, and gives the records in `additional` for
it. -/
def referring (additional : List Record) : Message where
  header := Header.empty.setResponse true
  questions := [.internet (.top 97) .a]
  answer := []
  authority := [⟨.top 97, .internet, 3600, .ns (.top 118)⟩]
  additional := additional

/-- The `Referral` in this response. -/
def referralTo (glue : List RecordSet) : Referral :=
  ⟨⟨.top 97, .internet, 3600, .ns (.top 118), []⟩, glue⟩

/-- A pass at the outermost level asks for an address in the zone that `referring` leads to. -/
def zoneInquiry : Inquiry := ⟨.a, 0, .top 97, .once [], .root, none⟩

/-- The name server has an address of the family that `strictSettings` leave out. -/
def otherAddressRecord : Record := ⟨.top 118, .internet, 3600, .aaaa System.otherAddress⟩

/-- A `Session` whose `cache` knows the address of the server. -/
def knowingSession : Session := { System.strictSession with
  resolver := { System.strictSession.resolver with
    cache := ((Cache.Scene.start .default).run [.addRecord hostAddress .authAnswer]).cache } }

/-- The address of a `server` without any glue is looked up, and the pass goes on there. -/
theorem Searches.exhaustive_bare :
    Outcome.classify (referring []) zoneInquiry.name zoneInquiry.type = .referral (referralTo []) ∧
    zoneInquiry.depth = 0 ∧ ∃ trials next session,
      Searches System.strictSettings zoneInquiry (referralTo []) trials (.asked next, []) session ∧
      (∃ trial ∈ trials, trial.server = .top 118 ∧
        (trial.type = .a ∨ trial.Refused ∧ session.Dry)) ∧
      ∃ addresses, MovesOn System.strictSettings zoneInquiry (referralTo []) addresses
        (.asked next) := by
  have refers : Outcome.classify (referring []) zoneInquiry.name zoneInquiry.type =
      .referral (referralTo []) := by decide
  obtain ⟨next, last, ran⟩ : ∃ next last,
      refer zoneInquiry (referralTo []) knowingSession = (.ok (.asked next, []), last) :=
    ⟨_, _, rfl⟩
  have same : knowingSession.resolver.settings = System.strictSettings := rfl
  obtain ⟨trials, searches⟩ := searches_of_refer same ran
  obtain ⟨tried, -, addresses, moves, -⟩ := searches.exhaustive refers rfl
  have listed : (referralTo []).servers.additionalNames = [.top 118] := rfl
  have asks := tried (.top 118) (listed ▸ List.mem_singleton_self _) (by decide) .a (by decide)
  exact ⟨refers, rfl, trials, next, last, searches, asks, addresses, moves⟩

/-- A server with glue of the other family only is not tried. The pass gives up although it could
still send all of its queries, which `Searches` shows to be none. -/
theorem Searches.gives_up_early :
    Outcome.classify (referring [otherAddressRecord]) zoneInquiry.name zoneInquiry.type =
      .referral (referralTo [.ofRecord otherAddressRecord]) ∧
    (∀ set ∈ [RecordSet.ofRecord otherAddressRecord],
      set.type ∉ System.strictSettings.preference.types) ∧
    ∃ session, Searches System.strictSettings zoneInquiry
      (referralTo [.ofRecord otherAddressRecord]) [] (.finished (.error .noServers), []) session ∧
      session.allowance.budget.remaining = 8 := by
  obtain ⟨last, takes, left⟩ : ∃ last,
      takeUp zoneInquiry (referralTo [.ofRecord otherAddressRecord])
        (.complete [.ofRecord otherAddressRecord], []) System.strictSession =
          (.ok (.finished (.error .noServers), []), last) ∧
      last.allowance.budget.remaining = 8 := ⟨_, rfl, rfl⟩
  have nothing : planOf System.strictSettings zoneInquiry
      (referralTo [.ofRecord otherAddressRecord]) = [] := by decide
  have looks : Looks (zoneInquiry.depth + 1) (referralTo [.ofRecord otherAddressRecord]).glue
      (planOf System.strictSettings zoneInquiry (referralTo [.ofRecord otherAddressRecord]))
      System.strictSession [] (.complete [.ofRecord otherAddressRecord])
      (planFor System.strictSettings.preference.types []) System.strictSession := by
    rw [nothing]
    exact .done _ _
  exact ⟨by decide, by decide, last, .referred rfl looks takes, left⟩

end Pass

end NameResolution
