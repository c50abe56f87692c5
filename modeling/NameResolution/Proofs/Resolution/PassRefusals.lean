import NameResolution.Proofs.Resolution.Refusals

/-!
# Passes that are refused a query

A pass that is refused a query because the budget is used up ends with this failure. Only while it
looks for addresses of servers can the failure be lost: the refused search counts as one without a
result, and if no address has been found, there are no servers to ask.

* `Pass.parallel_start`, `Pass.parallel_resume`: a pass compared with itself when one more query is
  left.
* `Pass.Stocked`: a pass that has an address to go on with wherever it looks for more.
-/

namespace NameResolution

open Session (Pays)

section

variable {types : List RecordType}

/-! ## Passes -/

/-- The `pass` goes on, or it ends, and nothing tells of a query that was cancelled. -/
def Progress.Clean : Progress → Prop
  | .finished result => Unbroken result
  | .waiting pass => pass.asked.inquiry.Clean ∧ ∀ gathering ∈ pass.outer, gathering.inquiry.Clean

/-- The `Pass` is to go on, and nothing tells of a query that was cancelled. -/
structure Pass.CleanlyGoing (taken : Turn × List Gathering) : Prop where
  turn : taken.1.Clean
  inner : ∀ gathering ∈ taken.2, gathering.inquiry.Clean
  ends : ∀ result, taken.1 = .finished result → taken.2 = []

theorem Pass.cleanlyGoing_alone {turn : Turn} (clean : turn.Clean) : CleanlyGoing (turn, []) :=
  ⟨clean, List.forall_mem_nil _, fun _ _ => rfl⟩

/-- The `Pass` has been refused a query, and ends. -/
def Pass.Fails (condition : Prop) (taken : Turn × List Gathering) : Prop :=
  ∃ result, taken = (.finished result, []) ∧ Tells condition result

/-- Addresses have been gathered, in addition to those that there were. -/
def Pass.Gathered.Grows (glue : List RecordSet) : Gathered → Prop
  | .complete later => glue <+: later
  | .waiting next _ _ _ => next.inquiry.Clean

/-- No more addresses can be gathered. -/
def Pass.Gathered.Stops (glue : List RecordSet) (gathered : Gathered) : Prop :=
  ∃ later, gathered = .complete later ∧ glue <+: later

theorem Rota.isSome_once {servers : List Endpoint} (some : servers ≠ []) :
    (once servers).turn?.isSome = true :=
  (proper_once servers).isSome_turn? (List.length_pos_iff.mpr some)

namespace Pass

theorem prefix_takeIn? {server : Name} {glue taken : List RecordSet}
    {result : Except Failure Answer} (takes : takeIn? server glue result = some taken) :
    glue <+: taken := by
  unfold takeIn? at takes
  split at takes
  · obtain rfl := Option.some.inj takes
    exact List.prefix_append _ _
  · cases takes
  · obtain rfl := Option.some.inj takes
    exact List.prefix_rfl

theorem usableAddresses_ne_nil {types : List RecordType} {glue later : List RecordSet}
    (grows : glue <+: later) (usable : usableAddresses types glue ≠ []) :
    usableAddresses types later ≠ [] := by
  obtain ⟨more, rfl⟩ := grows
  simp only [usableAddresses, RecordSet.addresses, List.filter_append, List.flatMap_append]
    at usable ⊢
  exact fun none => usable (List.append_eq_nil_iff.mp none).1

theorem parallel_ofInquiry {op : Op Session (Except Failure Asked)}
    (parallel : Session.Parallel types op (fun result => (Turn.ofInquiry result).Clean)
      (· = .error .budgetExhausted)) :
    Session.Parallel types (do return Turn.ofInquiry (← op)) Turn.Clean
      (· = .finished (.error .budgetExhausted)) :=
  parallel.map (fun _ clean => clean) (by rintro _ rfl; rfl)

theorem parallel_begin (name : Name) (type : RecordType) (depth : Nat) :
    Session.Parallel types (begin name type depth) Turn.Clean
      (· = .finished (.error .budgetExhausted)) := by
  unfold begin
  refine (Session.constant_consultCache name type).follow fun known remembered => ?_
  cases known with
  | hit result => exact .pure (remembered result rfl)
  | miss name =>
    refine (Session.constant_serversAround name).follow fun around _ => ?_
    exact parallel_ofInquiry (Inquiry.parallel_askNext fun same => nomatch same)

/-- A pass that begins when the `Session` cannot ask any more ends. -/
theorem spent_begin (name : Name) (type : RecordType) (depth : Nat) :
    Op.Keeps (Session.Spent types) (begin name type depth) fun turn =>
      ∃ result, turn = .finished result := by
  unfold begin
  refine (Session.spent_onResolver (Session.serves_followCached name type)).bind fun known _ => ?_
  cases known with
  | hit result => exact .pure ⟨result, rfl⟩
  | miss name =>
    refine (Session.spent_serversAround name).bind fun around _ => ?_
    have fresh : Inquiry.Clean ⟨type, depth, name, around.2, around.1, none⟩ :=
      fun same => nomatch same
    refine (Inquiry.spent_askNext fresh).bind fun _ tells => .pure ?_
    obtain ⟨failure, rfl, -⟩ := tells
    exact ⟨_, rfl⟩

/-! ### Gathering addresses of servers -/

theorem Gathered.Grows.mono {glue grown : List RecordSet} {gathered : Gathered}
    (rest : gathered.Grows grown) (grows : glue <+: grown) : gathered.Grows glue := by
  cases gathered with
  | complete later => exact grows.trans rest
  | waiting next later server left => exact rest

theorem Gathered.Stops.mono {glue grown : List RecordSet} {gathered : Gathered}
    (rest : gathered.Stops grown) (grows : glue <+: grown) : gathered.Stops glue := by
  obtain ⟨later, rfl, rest⟩ := rest
  exact ⟨later, rfl, grows.trans rest⟩

theorem parallel_gatherTypes (server : Name) (depth : Nat) (glue : List RecordSet)
    (looked : List RecordType) :
    Session.Parallel types (gatherTypes server depth glue looked) (Gathered.Grows glue)
      (Gathered.Stops glue) := by
  induction looked generalizing glue with
  | nil => exact .pure List.prefix_rfl
  | cons type looked ih =>
    unfold gatherTypes
    refine (parallel_begin server type depth).bind ?_ ?_ ?_
    · rintro (result | next) clean
      · dsimp only
        cases taken : takeIn? server glue result with
        | none => exact .pure List.prefix_rfl
        | some grown =>
          have grows := prefix_takeIn? taken
          exact (ih grown).imp (fun _ rest => rest.mono grows) fun _ rest => rest.mono grows
      · exact .pure clean
    · rintro _ rfl
      exact .pure ⟨glue, rfl, List.prefix_rfl⟩
    · rintro (result | next)
      · dsimp only
        cases takeIn? server glue result with
        | none => exact .pure _
        | some grown => exact pays_gatherTypes _ _ _ _
      · exact .pure _

theorem spent_gatherTypes (server : Name) (depth : Nat) (glue : List RecordSet)
    (looked : List RecordType) :
    Op.Keeps (Session.Spent types) (gatherTypes server depth glue looked)
      (Gathered.Stops glue) := by
  induction looked generalizing glue with
  | nil => exact .pure ⟨glue, rfl, List.prefix_rfl⟩
  | cons type looked ih =>
    unfold gatherTypes
    refine (spent_begin server type depth).bind ?_
    rintro _ ⟨result, rfl⟩
    dsimp only
    cases taken : takeIn? server glue result with
    | none => exact .pure ⟨glue, rfl, List.prefix_rfl⟩
    | some grown => exact (ih grown).imp fun _ rest => rest.mono (prefix_takeIn? taken)

theorem spent_gatherServers (looked : List RecordType) (depth : Nat) (glue : List RecordSet)
    (servers : List Name) :
    Op.Keeps (Session.Spent types) (gatherServers looked depth glue servers)
      (·.1.Stops glue) := by
  induction servers generalizing glue with
  | nil => exact .pure ⟨glue, rfl, List.prefix_rfl⟩
  | cons server servers ih =>
    unfold gatherServers
    refine (spent_gatherTypes server depth glue looked).bind ?_
    rintro _ ⟨grown, rfl, grows⟩
    exact (ih grown).imp fun _ rest => rest.mono grows

/-- Without a server to look up, `gatherServers` is refused no query. -/
theorem parallel_gatherServers (looked : List RecordType) (depth : Nat) (glue : List RecordSet)
    (servers : List Name) :
    Session.Parallel types (gatherServers looked depth glue servers) (·.1.Grows glue)
      fun gathered => servers ≠ [] ∧ gathered.1.Stops glue := by
  induction servers generalizing glue with
  | nil => exact .pure List.prefix_rfl
  | cons server servers ih =>
    unfold gatherServers
    refine (parallel_gatherTypes server depth glue looked).bind ?_ ?_ ?_
    · rintro (grown | ⟨next, later, server, left⟩) grows
      · exact (ih grown).imp (fun _ rest => rest.mono grows) fun _ rest =>
          ⟨List.cons_ne_nil _ _, rest.2.mono grows⟩
      · exact .pure grows
    · rintro _ ⟨grown, rfl, grows⟩
      exact (spent_gatherServers looked depth grown servers).imp fun _ rest =>
        ⟨List.cons_ne_nil _ _, rest.mono grows⟩
    · rintro (grown | ⟨next, later, server, left⟩)
      · exact pays_gatherServers _ _ _ _
      · exact .pure _

/-! ### Moving on to the servers of a referral -/

theorem parallel_redirect {inquiry : Inquiry} (clean : inquiry.Clean) (referral : Referral)
    (glue : List RecordSet) :
    Session.Parallel types (redirect inquiry referral glue) Turn.Clean
      (· = .finished (.error .budgetExhausted)) := by
  unfold redirect
  refine Session.constant_settings.follow fun settings _ => ?_
  refine (Session.constant_onResolver (Resolver.serves_onDelegations _)).follow fun _ _ => ?_
  dsimp only
  split
  · exact .pure (unbroken_error clean.failure_ne)
  · exact parallel_ofInquiry (Inquiry.parallel_askNext clean)

/-- A pass that has been referred and cannot ask any more ends. If it has come to know an address of
a server, then because the budget is used up. -/
theorem spent_redirect {inquiry : Inquiry} (clean : inquiry.Clean) (referral : Referral)
    (glue : List RecordSet) :
    Op.Keeps (Session.Spent types) (redirect inquiry referral glue) fun turn =>
      ∃ result, turn = .finished result ∧ Tells (usableAddresses types glue ≠ []) result := by
  unfold redirect
  refine Session.spent_settings.bind fun settings same => ?_
  refine (Session.spent_onResolver (Resolver.serves_onDelegations _)).bind fun _ _ => ?_
  dsimp only
  rw [same]
  split
  · rename_i none
    exact .pure ⟨_, rfl, _, rfl, clean.failure_ne, fun some =>
      absurd (List.isEmpty_iff.mp none) some⟩
  · have same : Inquiry.Clean { inquiry with
        rota := .once ((usableAddresses types glue).map (Endpoint.ofAddress · settings.port))
        zone := referral.zone } := clean
    refine (Inquiry.spent_askNext same).bind fun _ tells => .pure ?_
    obtain ⟨failure, rfl, other, exhausted⟩ := tells
    refine ⟨_, rfl, failure, rfl, other, fun some => exhausted (Rota.isSome_once ?_)⟩
    exact fun none => some (List.map_eq_nil_iff.mp none)

theorem parallel_takeUp {inquiry : Inquiry} (clean : inquiry.Clean) (referral : Referral)
    {gathered : Gathered × List Name} {glue : List RecordSet} (grows : gathered.1.Grows glue)
    (condition : Prop) :
    Session.Parallel types (takeUp inquiry referral gathered) CleanlyGoing (Fails condition) := by
  obtain ⟨later | ⟨next, later, server, left⟩, servers⟩ := gathered
  · refine (parallel_redirect clean referral later).map ?_ ?_
    · exact fun turn kept => cleanlyGoing_alone kept
    · rintro _ rfl
      exact ⟨_, rfl, tells_budgetExhausted condition⟩
  · exact .pure ⟨grows, List.forall_mem_singleton.mpr clean, fun _ same => nomatch same⟩

theorem spent_takeUp {inquiry : Inquiry} (clean : inquiry.Clean) (referral : Referral)
    {gathered : Gathered × List Name} {glue : List RecordSet} (stops : gathered.1.Stops glue) :
    Op.Keeps (Session.Spent types) (takeUp inquiry referral gathered)
      (Fails (usableAddresses types glue ≠ [])) := by
  obtain ⟨gathered, servers⟩ := gathered
  obtain ⟨later, rfl, grows⟩ := stops
  refine (spent_redirect clean referral later).bind fun _ ended => .pure ?_
  obtain ⟨result, rfl, failure, rfl, other, exhausted⟩ := ended
  exact ⟨_, rfl, failure, rfl, other, fun some => exhausted (usableAddresses_ne_nil grows some)⟩

/-! ### Going on -/

/-- Goes on with the types that are left to be looked up for a server. -/
def lookFurther (gathering : Gathering) (result : Except Failure Answer) : Op Session Gathered :=
  match takeIn? gathering.server gathering.glue result with
  | some glue => gatherTypes gathering.server (gathering.inquiry.depth + 1) glue gathering.types
  | none => pure (.complete gathering.glue)

/-- Goes on with the `servers` that are left. -/
def lookOn (gathering : Gathering) : Gathered → Op Session (Gathered × List Name)
  | .complete glue => do
    gatherServers (← Session.settings).preference.types (gathering.inquiry.depth + 1) glue
      gathering.servers
  | waiting => return (waiting, gathering.servers)

theorem regather_eq (gathering : Gathering) (result : Except Failure Answer) :
    regather gathering result = lookFurther gathering result >>= lookOn gathering := by
  unfold regather lookFurther
  cases takeIn? gathering.server gathering.glue result <;> rfl

theorem parallel_lookFurther (gathering : Gathering) (result : Except Failure Answer) :
    Session.Parallel types (lookFurther gathering result) (Gathered.Grows gathering.glue)
      (Gathered.Stops gathering.glue) := by
  unfold lookFurther
  cases taken : takeIn? gathering.server gathering.glue result with
  | none => exact .pure List.prefix_rfl
  | some grown =>
    have grows := prefix_takeIn? taken
    exact (parallel_gatherTypes _ _ _ _).imp (fun _ rest => rest.mono grows)
      fun _ rest => rest.mono grows

theorem spent_lookFurther (gathering : Gathering) (result : Except Failure Answer) :
    Op.Keeps (Session.Spent types) (lookFurther gathering result)
      (Gathered.Stops gathering.glue) := by
  unfold lookFurther
  cases taken : takeIn? gathering.server gathering.glue result with
  | none => exact .pure ⟨_, rfl, List.prefix_rfl⟩
  | some grown =>
    exact (spent_gatherTypes _ _ _ _).imp fun _ rest => rest.mono (prefix_takeIn? taken)

theorem spent_lookOn (gathering : Gathering) {glue : List RecordSet} {gathered : Gathered}
    (stops : gathered.Stops glue) :
    Op.Keeps (Session.Spent types) (lookOn gathering gathered) (·.1.Stops glue) := by
  obtain ⟨grown, rfl, grows⟩ := stops
  refine Session.spent_settings.bind fun settings _ => ?_
  exact (spent_gatherServers _ _ _ _).imp fun _ rest => rest.mono grows

theorem parallel_lookOn (gathering : Gathering) {glue : List RecordSet} {gathered : Gathered}
    (grows : gathered.Grows glue) :
    Session.Parallel types (lookOn gathering gathered) (·.1.Grows glue) (·.1.Stops glue) := by
  cases gathered with
  | complete grown =>
    refine Session.constant_settings.follow fun settings _ => ?_
    exact (parallel_gatherServers _ _ _ _).imp (fun _ rest => rest.mono grows)
      fun _ rest => rest.2.mono grows
  | waiting next later server left => exact .pure grows

theorem pays_lookOn (gathering : Gathering) (gathered : Gathered) :
    Session.Pays (lookOn gathering gathered) := by
  cases gathered with
  | complete grown => exact .bind Session.pays_settings fun _ => pays_gatherServers _ _ _ _
  | waiting next later server left => exact .pure _

theorem parallel_regather (gathering : Gathering) (result : Except Failure Answer) :
    Session.Parallel types (regather gathering result) (·.1.Grows gathering.glue)
      (·.1.Stops gathering.glue) := by
  rw [regather_eq]
  exact (parallel_lookFurther gathering result).bind (fun _ => parallel_lookOn gathering)
    (fun _ => spent_lookOn gathering) (pays_lookOn gathering)

theorem spent_regather (gathering : Gathering) (result : Except Failure Answer) :
    Op.Keeps (Session.Spent types) (regather gathering result) (·.1.Stops gathering.glue) := by
  rw [regather_eq]
  exact (spent_lookFurther gathering result).bind fun _ => spent_lookOn gathering

/-- Each of the `outer` passes, which wait for addresses of servers, has come to know one
already. -/
def Supplied (types : List RecordType) (outer : List Gathering) : Prop :=
  ∀ gathering ∈ outer, usableAddresses types gathering.glue ≠ []

/-- When the `Session` cannot ask any more, a pass that has failed fails outwards. -/
theorem spent_unwind {outer : List Gathering}
    (clean : ∀ gathering ∈ outer, gathering.inquiry.Clean) {condition : Prop}
    {result : Except Failure Answer} (tells : Tells condition result) :
    Op.Keeps (Session.Spent types) (unwind (.finished result) outer) fun progress =>
      ∃ result, progress = .finished result ∧ Tells (condition ∧ Supplied types outer) result := by
  induction outer generalizing result condition with
  | nil => exact .pure ⟨_, rfl, tells.mono And.left⟩
  | cons gathering outer ih =>
    obtain ⟨own, rest⟩ := List.forall_mem_cons.mp clean
    unfold unwind
    refine (spent_regather gathering result).bind fun gathered stops => ?_
    refine (spent_takeUp own gathering.referral stops).bind ?_
    rintro _ ⟨later, rfl, tells⟩
    refine (ih rest tells).imp ?_
    rintro _ ⟨final, rfl, tells⟩
    exact ⟨final, rfl, tells.mono fun both => List.forall_mem_cons.mp both.2⟩

theorem unwind_asked (next : Asked) (outer : List Gathering) :
    unwind (.asked next) outer = pure (.waiting ⟨next, outer⟩) := by cases outer <;> rfl

theorem parallel_unwind {turn : Turn} (going : turn.Clean) {outer : List Gathering}
    (clean : ∀ gathering ∈ outer, gathering.inquiry.Clean) :
    Session.Parallel types (unwind turn outer) Progress.Clean fun progress =>
      ∃ result, progress = .finished result ∧ Tells (Supplied types outer) result := by
  induction outer generalizing turn with
  | nil =>
    cases turn with
    | finished result => exact .pure going
    | asked next => exact .pure ⟨going, clean⟩
  | cons gathering outer ih =>
    cases turn with
    | asked next => exact .pure ⟨going, clean⟩
    | finished result =>
      obtain ⟨own, rest⟩ := List.forall_mem_cons.mp clean
      -- A refusal that is met inside is handed outwards from pass to pass.
      have outwards {result : Except Failure Answer}
          (tells : Tells (usableAddresses types gathering.glue ≠ []) result) :
          Op.Keeps (Session.Spent types) (unwind (.finished result) outer) fun progress =>
            ∃ result, progress = .finished result ∧
              Tells (Supplied types (gathering :: outer)) result := by
        refine (spent_unwind rest tells).imp ?_
        rintro _ ⟨final, rfl, tells⟩
        exact ⟨final, rfl, tells.mono List.forall_mem_cons.mp⟩
      -- Three cases each time: no refusal, one that is met first, and what is paid for in between.
      unfold unwind
      refine (parallel_regather gathering result).bind ?_ ?_ ?_
      · intro gathered grows
        refine (parallel_takeUp own gathering.referral grows
          (usableAddresses types gathering.glue ≠ [])).bind ?_ ?_ ?_
        · rintro ⟨result | next, inner⟩ ⟨kept, within, -⟩
          · refine (ih kept rest).imp (fun _ => id) ?_
            rintro _ ⟨final, rfl, tells⟩
            exact ⟨final, rfl, tells.mono fun all => (List.forall_mem_cons.mp all).2⟩
          · exact .pure ⟨kept, List.forall_mem_append.mpr ⟨within, rest⟩⟩
        · rintro _ ⟨later, rfl, tells⟩
          exact outwards tells
        · rintro ⟨result | next, inner⟩
          · exact pays_unwind _ _
          · exact .pure _
      · intro gathered stops
        refine (spent_takeUp own gathering.referral stops).bind ?_
        rintro _ ⟨later, rfl, tells⟩
        exact outwards tells
      · intro gathered
        refine .bind (pays_takeUp _ _ _) ?_
        rintro ⟨result | next, inner⟩
        · exact pays_unwind _ _
        · exact .pure _

/-- A pass that is refused its first query ends with `budgetExhausted`. -/
theorem parallel_start (name : Name) (type : RecordType) :
    Session.Parallel types (start name type) Progress.Clean
      (· = .finished (.error .budgetExhausted)) := by
  refine (parallel_begin name type 0).bind (fun turn clean => ?_) ?_ fun _ => pays_unwind _ _
  · refine (parallel_unwind clean (List.forall_mem_nil _)).imp (fun _ => id) ?_
    rintro _ ⟨result, rfl, failure, rfl, -, exhausted⟩
    rw [exhausted (List.forall_mem_nil _)]
  · rintro _ rfl
    exact .pure rfl

/-- A `referral`, in so far as addresses of its servers have to be looked up, gives an address. -/
def Backs (types : List RecordType) (inquiry : Inquiry) (referral : Referral) : Prop :=
  inquiry.depth < maxDepth → bareServers referral ≠ [] → usableAddresses types referral.glue ≠ []

theorem parallel_refer {inquiry : Inquiry} (clean : inquiry.Clean) (referral : Referral) :
    Session.Parallel types (refer inquiry referral) CleanlyGoing
      (Fails (Backs types inquiry referral)) := by
  unfold refer
  refine Session.constant_settings.follow fun settings _ => ?_
  refine (parallel_gatherServers _ _ _ _).bind
    (fun gathered grows => parallel_takeUp clean referral grows _) ?_ fun _ => pays_takeUp _ _ _
  rintro gathered ⟨bare, stops⟩
  refine (spent_takeUp clean referral stops).imp ?_
  rintro _ ⟨result, rfl, tells⟩
  refine ⟨result, rfl, tells.mono fun backs => ?_⟩
  split at bare
  · rename_i shallow
    exact backs shallow bare
  · exact absurd rfl bare

theorem parallel_chase {asked : Asked} (clean : asked.inquiry.Clean) (target : Name) :
    Session.Parallel types (chase asked target) Turn.Clean
      (· = .finished (.error .budgetExhausted)) := by
  unfold chase
  refine .read (fun _ => rfl) fun session _ => ?_
  split
  · exact .pure (unbroken_error fun same => nomatch same)
  have marks : Session.Constant types (modify fun session => { session with
      allowance := { session.allowance with chased := true } }) fun _ => True :=
    fun session serves => ⟨_, _, rfl, rfl, serves, whenOk_ok.mpr trivial⟩
  refine marks.follow fun _ _ => ?_
  refine (Session.constant_consultCache target asked.inquiry.type).follow fun known remembered => ?_
  cases known with
  | hit result => exact .pure (remembered result rfl)
  | miss target =>
    have same : { asked.inquiry with name := target : Inquiry }.Clean := clean
    exact parallel_ofInquiry (Inquiry.parallel_askServer same asked.query.server)

/-- If a `response` refers to servers whose addresses have to be looked up, it gives an address. -/
def Supplies (types : List RecordType) (inquiry : Inquiry) (response : Message) : Prop :=
  ∀ referral, Outcome.classify response inquiry.name inquiry.type = .referral referral →
    Backs types inquiry referral

theorem parallel_react {asked : Asked} (clean : asked.inquiry.Clean) (response : Message) :
    Session.Parallel types (react asked response) CleanlyGoing
      (Fails (Supplies types asked.inquiry response)) := by
  -- Most outcomes lead to a turn of this pass alone, without passes inside it.
  have alone (op : Op Session Turn) (parallel : Session.Parallel types op Turn.Clean
      (· = .finished (.error .budgetExhausted))) :
      Session.Parallel types (do return (← op, [])) CleanlyGoing
        (Fails (Supplies types asked.inquiry response)) := by
    refine parallel.map (fun turn kept => cleanlyGoing_alone kept) ?_
    rintro _ rfl
    exact ⟨_, rfl, tells_budgetExhausted _⟩
  unfold react
  dsimp only
  cases means : Outcome.classify response asked.inquiry.name asked.inquiry.type with
  | answer answer => exact .pure (cleanlyGoing_alone (unbroken_ok _))
  | nxDomain => exact .pure (cleanlyGoing_alone (unbroken_error fun same => nomatch same))
  | noData => exact .pure (cleanlyGoing_alone (unbroken_error fun same => nomatch same))
  | «alias» target => exact alone _ (parallel_chase clean target)
  | referral referral =>
    dsimp only
    split
    · refine (parallel_refer clean referral).imp (fun _ => id) ?_
      rintro _ ⟨result, rfl, tells⟩
      exact ⟨result, rfl, tells.mono fun supplies => supplies referral means⟩
    · have other : Failure.serverFailure response.rcode ≠ .cancelled := fun same => nomatch same
      refine (Inquiry.parallel_retry asked.inquiry other).map ?_ ?_
      · exact fun retried kept => cleanlyGoing_alone kept
      · rintro _ rfl
        exact ⟨_, rfl, tells_budgetExhausted _⟩

theorem parallel_conclude {asked : Asked} (clean : asked.inquiry.Clean) {result : Settlement}
    (unbroken : Unbroken result) :
    Session.Parallel types (conclude asked result) CleanlyGoing
      (Fails (∀ response, Inquiry.usable result = .ok response →
        Supplies types asked.inquiry response)) := by
  unfold conclude
  refine (Inquiry.parallel_evaluate asked.inquiry unbroken).bind ?_ ?_ ?_
  · rintro (response | next | failure) ⟨kept, used⟩
    · refine (parallel_react clean response).imp (fun _ => id) ?_
      rintro _ ⟨later, rfl, tells⟩
      exact ⟨later, rfl, tells.mono fun all => all response (used response rfl)⟩
    · exact .pure (cleanlyGoing_alone kept)
    · exact .pure (cleanlyGoing_alone (unbroken_error kept))
  · rintro _ rfl
    exact .pure ⟨_, rfl, tells_budgetExhausted _⟩
  · rintro (response | next | failure)
    · exact pays_react _ _
    · exact .pure _
    · exact .pure _

/-- The addresses that a `pass` may come to look for after an `event` are none of the only ones that
it could go on with. -/
def Stocked (types : List RecordType) (pass : Pass) (registry : Registry) (event : Event) : Prop :=
  Supplied types pass.outer ∧ ∀ result response,
    (pass.asked.query.happen event registry).1.1 = some result →
      Inquiry.usable result = .ok response → Supplies types pass.asked.inquiry response

/-- A `pass` that goes on and is refused a `query` ends. If it is `Stocked`, it ends with this
failure. -/
theorem parallel_resume {pass : Pass} (clean : (Progress.waiting pass).Clean) (event : Event)
    {session : Session} (serves : session.resolver.Serves types)
    (held : session.resolver.registry.fate pass.asked.query.serial ≠ .gone) :
    Session.ParallelAt types session (pass.resume event) Progress.Clean fun progress =>
      ∃ result, progress = .finished result ∧
        Tells (pass.Stocked types session.resolver.registry event) result := by
  have first : Session.Alike types session
      (Session.withResolver (Resolver.onRegistry (pass.asked.query.happen event)))
      (· = (pass.asked.query.happen event session.resolver.registry).1) :=
    ⟨_, _, rfl, rfl, ⟨serves.opened, serves.types⟩, whenOk_ok.mpr rfl⟩
  unfold resume
  refine first.follow ?_
  rintro ⟨settled, query⟩ same
  cases settled with
  | none => exact .pure clean
  | some result =>
    have ends := (congrArg Prod.fst same).symm
    -- A stocked pass knows an address to go on with, so its refusal is told as it is.
    have stocked (holds : pass.Stocked types session.resolver.registry event)
        (response : Message) (used : Inquiry.usable result = .ok response) :
        Supplies types pass.asked.inquiry response := holds.2 result response ends used
    have unbroken := pass.asked.query.persists_happen event _ _ held ends
    refine (parallel_conclude clean.1 unbroken).bind ?_ ?_ fun _ => pays_unwind _ _
    · rintro ⟨turn, inner⟩ ⟨kept, within, alone⟩
      cases turn with
      | asked next =>
        dsimp only
        rw [unwind_asked]
        exact .pure ⟨kept, List.forall_mem_append.mpr ⟨within, clean.2⟩⟩
      | finished result =>
        obtain rfl : inner = [] := alone result rfl
        refine (parallel_unwind kept clean.2).imp (fun _ => id) ?_
        rintro _ ⟨final, rfl, tells⟩
        exact ⟨final, rfl, tells.mono And.left⟩
    · rintro _ ⟨later, rfl, tells⟩
      refine (spent_unwind clean.2 tells).imp ?_
      rintro _ ⟨final, rfl, tells⟩
      exact ⟨final, rfl, tells.mono fun holds => ⟨stocked holds, holds.1⟩⟩

end Pass

end

end NameResolution
