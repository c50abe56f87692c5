import NameResolution.Proofs.Resolution.Spending

/-!
# What the steps of a resolution can do

The environment of a call is arbitrary: any query can be settled in any way, and the caches and the
settings can be any at each step. So the laws here speak of the results of operations, whatever
resolver they meet.

* `Session.Yields`: an operation uses up neither of the two single chances of a call, and what it
  gives has some property.
* `Inquiry.Follows`: an inquiry goes on with a later server of the same rota.
* `Pass.Pursuit`: a pass that has been referred asks the servers of the referral, or looks up the
  address of one of them.
* `Pass.conclude_cases`: all that a pass can do when its query is settled.
-/

namespace NameResolution

namespace Session

/-! ## Operations that leave the chances of a call -/

/-- The call has not used up any further chance between `before` and `after`. -/
structure SameChances (before after : Session) : Prop where
  chased : after.allowance.chased = before.allowance.chased
  aliasAsked : after.allowance.aliasAsked = before.allowance.aliasAsked

theorem SameChances.refl (session : Session) : SameChances session session := ⟨rfl, rfl⟩

theorem SameChances.trans {before middle after : Session} (first : SameChances before middle)
    (second : SameChances middle after) : SameChances before after :=
  ⟨second.chased.trans first.chased, second.aliasAsked.trans first.aliasAsked⟩

/-- The operation `op` uses up no chance of the call, and what it gives has the property `P`. -/
def Yields {α : Type} (op : Op Session α) (P : α → Prop) : Prop :=
  ∀ before value after, op before = (.ok value, after) → SameChances before after ∧ P value

namespace Yields

variable {α β : Type} {op : Op Session α} {P : α → Prop} {Q : β → Prop}

theorem pure {value : α} (holds : P value) : Yields (Pure.pure value) P := by
  intro before value after ran
  cases ran
  exact ⟨.refl _, holds⟩

theorem bind {next : α → Op Session β} (first : Yields op P)
    (rest : ∀ value, P value → Yields (next value) Q) : Yields (op >>= next) Q := by
  intro before value after ran
  obtain ⟨middle, session, ran, ran'⟩ := Op.bind_eq_ok.mp ran
  obtain ⟨same, holds⟩ := first _ _ _ ran
  obtain ⟨same', holds'⟩ := rest middle holds _ _ _ ran'
  exact ⟨same.trans same', holds'⟩

theorem imp {P' : α → Prop} (yields : Yields op P) (weaker : ∀ value, P value → P' value) :
    Yields op P' := fun before value after ran =>
  (yields before value after ran).imp_right (weaker value)

theorem map {f : α → β} (yields : Yields op P) (image : ∀ value, P value → Q (f value)) :
    Yields (f <$> op) Q := by
  rw [← bind_pure_comp]
  exact yields.bind fun value holds => .pure (image value holds)

theorem and_ran (yields : Yields op P) : Yields op fun value =>
    P value ∧ ∃ before after, op before = (.ok value, after) := fun before value after ran =>
  (yields before value after ran).imp_right fun holds => ⟨holds, before, after, ran⟩

end Yields

theorem yields_onResolver {α : Type} (op : Op Resolver α) :
    Yields (onResolver op) fun _ => True := by
  intro before value after ran
  obtain ⟨-, rfl⟩ := Prod.mk.inj ran
  exact ⟨⟨rfl, rfl⟩, trivial⟩

theorem yields_withResolver {α : Type} (op : StateM Resolver α) :
    Yields (withResolver op) fun _ => True :=
  yields_onResolver _

theorem yields_get : Yields (get : Op Session Session) fun _ => True := by
  intro before value after ran
  obtain ⟨-, rfl⟩ := Prod.mk.inj ran
  exact ⟨.refl _, trivial⟩

theorem yields_settings : Yields settings fun _ => True :=
  yields_get.bind fun _ _ => .pure trivial

theorem yields_takeQuery : Yields takeQuery fun _ => True := by
  intro before value after ran
  rcases takeQuery_spec before with refused | ⟨budget, taken, -⟩
  · cases refused.symm.trans ran
    exact ⟨.refl _, trivial⟩
  · cases taken.symm.trans ran
    exact ⟨⟨rfl, rfl⟩, trivial⟩

theorem yields_send (query : Query) : Yields (send query) fun _ => True := by
  intro before value after ran
  have kept := (send_spec query before).1
  rw [ran] at kept
  exact ⟨⟨congrArg Allowance.chased kept, congrArg Allowance.aliasAsked kept⟩, trivial⟩

theorem yields_ask (server : Endpoint) (name : Name) (type : RecordType) :
    Yields (ask server name type) fun _ => True := by
  unfold ask
  refine yields_get.bind fun session _ => ?_
  by_cases closed : session.resolver.closed = true
  · rw [if_pos closed]
    exact .pure trivial
  rw [if_neg closed]
  refine yields_takeQuery.bind fun taken _ => ?_
  cases taken with
  | false => exact .pure trivial
  | true =>
    refine (yields_withResolver _).bind fun registered _ => ?_
    cases registered with
    | ok query => exact (yields_send _).bind fun _ _ => .pure trivial
    | error failure => exact .pure trivial

theorem yields_consultCache (name : Name) (type : RecordType) :
    Yields (consultCache name type) fun _ => True :=
  yields_onResolver _

theorem yields_serversAround (name : Name) : Yields (serversAround name) fun _ => True := by
  refine yields_settings.bind fun settings _ => (yields_onResolver _).bind fun known _ => ?_
  split
  · exact .pure trivial
  · exact (yields_withResolver _).bind fun _ _ => .pure trivial

theorem yields_learn (response : Message) : Yields (learn response) fun _ => True :=
  (yields_onResolver _).bind fun _ _ => .pure trivial

end Session

open Session (Yields)

/-! ## Inquiries -/

/-- How many turns are left of a `rota`. -/
def Rota.left (rota : Rota) : Nat := rota.stop - rota.next

theorem Rota.turn?_eq_some {rota next : Rota} {server : Endpoint}
    (turn : rota.turn? = some (server, next)) :
    server ∈ rota.servers ∧ next.servers = rota.servers ∧ next.left < rota.left := by
  unfold turn? at turn
  split at turn
  · obtain ⟨other, here, same⟩ := Option.map_eq_some_iff.mp turn
    obtain ⟨rfl, rfl⟩ := Prod.mk.inj same
    refine ⟨List.mem_of_getElem? here, rfl, ?_⟩
    unfold left
    dsimp only
    omega
  · cases turn

namespace Inquiry

/-- The `inquiry` goes on with a later server of the same rota. -/
structure Follows (next inquiry : Inquiry) : Prop where
  depth : next.depth = inquiry.depth
  zone : next.zone = inquiry.zone
  servers : next.rota.servers = inquiry.rota.servers
  left : next.rota.left < inquiry.rota.left

theorem yields_askServer (inquiry : Inquiry) (server : Endpoint) :
    Yields (inquiry.askServer server) fun result =>
      ∀ asked, result = .ok asked → asked.inquiry = inquiry := by
  refine (Session.yields_ask _ _ _).bind fun asking _ => .pure fun asked result => ?_
  cases asking with
  | error failure => cases result
  | ok query =>
    obtain rfl := Except.ok.inj result
    rfl

theorem yields_askNext (inquiry : Inquiry) : Yields inquiry.askNext fun result =>
    ∀ asked, result = .ok asked → asked.inquiry.Follows inquiry := by
  unfold askNext
  split
  · rename_i server rota turn
    obtain ⟨-, servers, left⟩ := Rota.turn?_eq_some turn
    refine (yields_askServer _ server).imp fun result same asked given => ?_
    rw [same asked given]
    exact ⟨rfl, rfl, servers, left⟩
  · exact .pure fun asked given => by cases given

theorem yields_retry (inquiry : Inquiry) (failure : Failure) :
    Yields (inquiry.retry failure) fun result =>
      ∀ asked, result = .ok asked → asked.inquiry.Follows inquiry :=
  (yields_askNext _).imp fun _ follows asked given =>
    let ⟨depth, zone, servers, left⟩ := follows asked given
    ⟨depth, zone, servers, left⟩

theorem yields_evaluate (inquiry : Inquiry) (result : Settlement) :
    Yields (inquiry.evaluate result) fun evaluation =>
      (∀ response, evaluation = .response response ↔ usable result = .ok response) ∧
        ∀ asked, evaluation = .again asked → asked.inquiry.Follows inquiry := by
  unfold evaluate
  cases used : usable result with
  | ok response =>
    refine (Session.yields_learn _).bind fun _ _ => .pure
      ⟨fun other => ?_, fun _ same => nomatch same⟩
    rw [Evaluation.response.injEq, Except.ok.injEq]
  | error failure =>
    by_cases retryable : failure.isRetryable = true
    · simp only [if_pos retryable]
      refine (yields_retry _ _).bind fun retried follows => ?_
      cases retried with
      | error failure => exact .pure ⟨fun _ => ⟨nofun, nofun⟩, fun _ same => nomatch same⟩
      | ok asked =>
        refine .pure ⟨fun _ => ⟨nofun, nofun⟩, fun other same => ?_⟩
        obtain rfl := Evaluation.again.inj same
        exact follows _ rfl
    · simp only [if_neg retryable]
      exact .pure ⟨fun _ => ⟨nofun, nofun⟩, fun _ same => nomatch same⟩

end Inquiry

/-! ## Passes -/

/-- Less is left to be looked up than a gathering has before. -/
def Gathering.Exceeds (gathering : Gathering) (types : List RecordType)
    (servers : List Name) : Prop :=
  servers.length < gathering.servers.length ∨
    servers = gathering.servers ∧ types.length < gathering.types.length

/-- How the innermost one of nested passes goes on, and the passes around it, which are its `outer`
ones. -/
def Progress.parts : Progress → Turn × List Gathering
  | .finished result => (.finished result, [])
  | .waiting pass => (.asked pass.asked, pass.outer)

namespace Query

/-- The operation keeps the serial number of a `query`. -/
def KeepsSerial (query : Query) (op : StateM Registry (Option Settlement × Query)) : Prop :=
  ∀ registry, (op registry).1.2.serial = query.serial

theorem keepsSerial_check (query : Query) : query.KeepsSerial query.check := by
  intro registry
  simp only [check, stateM_bind_apply, stateM_get_apply]
  cases registry.fate query.serial with
  | answered reply => cases reply <;> rfl
  | _ => rfl

theorem keepsSerial_happen (query : Query) (event : Event) :
    query.KeepsSerial (query.happen event) := by
  unfold happen
  split
  · exact keepsSerial_check _
  · exact fun _ => rfl
  · exact keepsSerial_check _
  · intro registry
    have kept := keepsSerial_check query registry
    rw [stateM_bind_apply]
    rcases found : query.check registry with ⟨⟨_ | result, next⟩, after⟩
    all_goals rwa [found] at kept
  · exact fun _ => rfl

end Query

namespace Pass

/-- The query is the first one of some pass at a `depth`. -/
def Begun (depth : Nat) (asked : Asked) : Prop :=
  ∃ name type before after, begin name type depth before = (.ok (.asked asked), after)

theorem yields_ofInquiry {op : Op Session (Except Failure Asked)} {P : Asked → Prop}
    (yields : Yields op fun result => ∀ asked, result = .ok asked → P asked) :
    Yields (Turn.ofInquiry <$> op) fun turn => ∀ asked, turn = .asked asked → P asked :=
  yields.map fun result holds asked same => by
    cases result with
    | error failure => cases same
    | ok next =>
      obtain rfl := Turn.asked.inj same
      exact holds _ rfl

theorem yields_begin (name : Name) (type : RecordType) (depth : Nat) :
    Yields (begin name type depth) fun turn =>
      ∀ asked, turn = .asked asked → asked.inquiry.depth = depth := by
  refine (Session.yields_consultCache _ _).bind fun known _ => ?_
  cases known with
  | hit result => exact .pure fun _ same => nomatch same
  | miss name =>
    refine (Session.yields_serversAround _).bind fun ⟨zone, rota⟩ _ => ?_
    refine yields_ofInquiry ((Inquiry.yields_askNext _).imp fun result follows asked given => ?_)
    exact (follows asked given).depth

theorem Begun.depth {depth : Nat} {asked : Asked} (begun : Begun depth asked) :
    asked.inquiry.depth = depth := by
  obtain ⟨name, type, before, after, ran⟩ := begun
  exact (yields_begin _ _ _ _ _ _ ran).2 asked rfl

/-! ### Gathering addresses of servers -/

/-- If gathering has to wait, then for a pass that has just been begun at a `depth`, and the types
that are left have the property. -/
def Gathered.Awaits (depth : Nat) (P : List RecordType → Prop) (gathered : Gathered) : Prop :=
  ∀ asked glue server types, gathered = .waiting asked glue server types →
    Begun depth asked ∧ P types

theorem Gathered.Awaits.imp {depth : Nat} {P Q : List RecordType → Prop} {gathered : Gathered}
    (awaits : gathered.Awaits depth P) (weaker : ∀ types, P types → Q types) :
    gathered.Awaits depth Q := fun asked glue server types same =>
  (awaits asked glue server types same).imp_right (weaker types)

theorem Gathered.awaits_complete {depth : Nat} {P : List RecordType → Prop}
    {glue : List RecordSet} : Gathered.Awaits depth P (.complete glue) :=
  fun _ _ _ _ same => nomatch same

theorem Gathered.awaits_waiting {depth : Nat} {P : List RecordType → Prop} {asked : Asked}
    {glue : List RecordSet} {server : Name} {types : List RecordType} :
    Gathered.Awaits depth P (.waiting asked glue server types) ↔ Begun depth asked ∧ P types := by
  refine ⟨fun awaits => awaits _ _ _ _ rfl, fun holds other _ _ _ same => ?_⟩
  obtain ⟨rfl, -, -, rfl⟩ := Gathered.waiting.inj same
  exact holds

theorem yields_gatherTypes (server : Name) (depth : Nat) (glue : List RecordSet)
    (types : List RecordType) : Yields (gatherTypes server depth glue types)
      (·.Awaits depth fun left => left.length < types.length) := by
  induction types generalizing glue with
  | nil => exact .pure Gathered.awaits_complete
  | cons type types ih =>
    unfold gatherTypes
    refine (yields_begin server type depth).and_ran.bind fun turn began => ?_
    obtain ⟨-, before, after, ran⟩ := began
    cases turn with
    | asked asked =>
      exact .pure (Gathered.awaits_waiting.mpr ⟨⟨_, _, _, _, ran⟩, Nat.lt_succ_self _⟩)
    | finished result =>
      dsimp only
      cases takeIn? server glue result with
      | none => exact .pure Gathered.awaits_complete
      | some glue =>
        exact (ih glue).imp fun gathered awaits => awaits.imp fun _ => Nat.lt_succ_of_lt

theorem yields_gatherServers (types : List RecordType) (depth : Nat) (glue : List RecordSet)
    (servers : List Name) : Yields (gatherServers types depth glue servers) fun gathered =>
      gathered.1.Awaits depth fun _ => gathered.2.length < servers.length := by
  induction servers generalizing glue with
  | nil => exact .pure Gathered.awaits_complete
  | cons server servers ih =>
    unfold gatherServers
    refine (yields_gatherTypes server depth glue types).bind fun gathered awaits => ?_
    cases gathered with
    | complete glue =>
      exact (ih glue).imp fun gathered awaits => awaits.imp fun _ => Nat.lt_succ_of_lt
    | waiting asked glue server left => exact .pure (awaits.imp fun _ _ => Nat.lt_succ_self _)

/-- What a pass does that has been referred: it ends, or it asks the `servers` of the `referral`, or
it waits for a pass one level deeper to look up the address of one. The `types` and the servers that
are then left to be looked up have the property. -/
inductive Pursuit (inquiry : Inquiry) (referral : Referral)
    (P : List RecordType → List Name → Prop) : Turn × List Gathering → Prop
  | finished (result : Except Failure Answer) : Pursuit inquiry referral P (.finished result, [])
  | redirected {asked : Asked} (depth : asked.inquiry.depth = inquiry.depth)
    (zone : asked.inquiry.zone = referral.zone) : Pursuit inquiry referral P (.asked asked, [])
  | gathering {asked : Asked} {glue : List RecordSet} {server : Name} {types : List RecordType}
    {servers : List Name} (begun : Begun (inquiry.depth + 1) asked) (holds : P types servers) :
    Pursuit inquiry referral P
      (.asked asked, [⟨inquiry, referral, glue, server, types, servers⟩])

theorem yields_redirect (inquiry : Inquiry) (referral : Referral) (glue : List RecordSet) :
    Yields (redirect inquiry referral glue) fun turn =>
      ∀ asked, turn = .asked asked →
        asked.inquiry.depth = inquiry.depth ∧ asked.inquiry.zone = referral.zone := by
  refine Session.yields_settings.bind fun settings _ => ?_
  refine (Session.yields_onResolver _).bind fun _ _ => ?_
  dsimp only
  split
  · exact .pure fun _ same => nomatch same
  · refine yields_ofInquiry ((Inquiry.yields_askNext _).imp fun result follows asked given => ?_)
    exact ⟨(follows asked given).depth, (follows asked given).zone⟩

theorem yields_takeUp {inquiry : Inquiry} {referral : Referral} {gathered : Gathered × List Name}
    {P : List RecordType → List Name → Prop}
    (awaits : gathered.1.Awaits (inquiry.depth + 1) (P · gathered.2)) :
    Yields (takeUp inquiry referral gathered) (Pursuit inquiry referral P) := by
  obtain ⟨glue | ⟨asked, glue, server, types⟩, servers⟩ := gathered
  · refine (yields_redirect inquiry referral glue).bind fun turn redirects => .pure ?_
    cases turn with
    | finished result => exact .finished result
    | asked asked => exact .redirected (redirects asked rfl).1 (redirects asked rfl).2
  · obtain ⟨begun, holds⟩ := Gathered.awaits_waiting.mp awaits
    exact .pure (.gathering begun holds)

theorem yields_regather (gathering : Gathering) (result : Except Failure Answer) :
    Yields (regather gathering result >>= takeUp gathering.inquiry gathering.referral)
      (Pursuit gathering.inquiry gathering.referral gathering.Exceeds) := by
  suffices awaits : Yields (regather gathering result) fun gathered =>
      gathered.1.Awaits (gathering.inquiry.depth + 1) (gathering.Exceeds · gathered.2) from
    awaits.bind fun gathered awaits => yields_takeUp awaits
  have others (glue : List RecordSet) : Yields (do
      gatherServers (← Session.settings).preference.types (gathering.inquiry.depth + 1) glue
        gathering.servers) fun gathered =>
          gathered.1.Awaits (gathering.inquiry.depth + 1) (gathering.Exceeds · gathered.2) :=
    Session.yields_settings.bind fun settings _ =>
      (yields_gatherServers _ _ _ _).imp fun gathered awaits => awaits.imp fun _ => .inl
  unfold regather
  cases takeIn? gathering.server gathering.glue result with
  | none => exact others gathering.glue
  | some glue =>
    refine (yields_gatherTypes _ _ _ _).bind fun gathered awaits => ?_
    cases gathered with
    | complete glue => exact others glue
    | waiting asked glue server types => exact .pure (awaits.imp fun _ fewer => .inr ⟨rfl, fewer⟩)

theorem yields_refer (inquiry : Inquiry) (referral : Referral) :
    Yields (refer inquiry referral)
      (Pursuit inquiry referral fun _ _ => inquiry.depth < maxDepth) := by
  refine Session.yields_settings.bind fun settings _ => ?_
  refine (yields_gatherServers _ _ _ _).bind fun gathered awaits => yields_takeUp ?_
  refine awaits.imp fun types fewer => ?_
  -- a pass at the deepest level looks up no servers
  by_cases deep : inquiry.depth < maxDepth
  · exact deep
  · rw [if_neg deep] at fewer
    exact absurd fewer (Nat.not_lt_zero _)

/-! ### Settled queries -/

/-- To `chase` an alias uses up the chance to do so, if there is still one. It leads to a query only
then. -/
theorem chase_cases {asked : Asked} {target : Name} {before after : Session} {turn : Turn}
    (ran : chase asked target before = (.ok turn, after)) :
    after.allowance.aliasAsked = before.allowance.aliasAsked ∧ after.allowance.chased = true ∧
      ∀ next, turn = .asked next → before.allowance.chased = false ∧
        ∃ target, next.inquiry = { asked.inquiry with name := target } := by
  obtain ⟨session, _, got, ran⟩ := Op.bind_eq_ok.mp ran
  cases got
  by_cases chased : before.allowance.chased = true
  · rw [if_pos chased] at ran
    cases ran
    exact ⟨rfl, chased, fun _ same => nomatch same⟩
  rw [if_neg chased] at ran
  obtain ⟨_, _, modified, ran⟩ := Op.bind_eq_ok.mp ran
  cases modified
  obtain ⟨known, _, consulted, ran⟩ := Op.bind_eq_ok.mp ran
  have same := (Session.yields_consultCache _ _ _ _ _ consulted).1
  cases known with
  | hit result =>
    cases ran
    exact ⟨same.aliasAsked, same.chased, fun _ given => nomatch given⟩
  | miss name =>
    obtain ⟨asking, _, ran, rest⟩ := Op.bind_eq_ok.mp ran
    cases rest
    obtain ⟨same', holds⟩ := Inquiry.yields_askServer _ _ _ _ _ ran
    refine ⟨(same.trans same').aliasAsked, (same.trans same').chased, fun next given => ?_⟩
    cases asking with
    | error failure => cases given
    | ok asked =>
      obtain rfl := Turn.asked.inj given
      exact ⟨by simpa using chased, name, holds _ rfl⟩

/-- All that a pass can do when its query is settled with `result`: it ends, goes on with the next
server, chases an alias, or follows a referral. -/
inductive Settled (asked : Asked) (result : Settlement) (before after : Session) :
    Turn × List Gathering → Prop
  | finished {outcome : Except Failure Answer}
    (chased : before.allowance.chased = true → after.allowance.chased = true)
    (aliasAsked : after.allowance.aliasAsked = before.allowance.aliasAsked) :
    Settled asked result before after (.finished outcome, [])
  | retried {next : Asked} (follows : next.inquiry.Follows asked.inquiry)
    (plain : ∀ response target, Inquiry.usable result = .ok response →
      Outcome.classify response asked.inquiry.name asked.inquiry.type ≠ .alias target)
    (same : before.SameChances after) : Settled asked result before after (.asked next, [])
  | chased {response : Message} {target name : Name} {next : Asked}
    (answered : Inquiry.usable result = .ok response)
    (aliased : Outcome.classify response asked.inquiry.name asked.inquiry.type = .alias target)
    (inquiry : next.inquiry = { asked.inquiry with name := name })
    (unused : before.allowance.chased = false) (used : after.allowance.chased = true)
    (aliasAsked : after.allowance.aliasAsked = before.allowance.aliasAsked) :
    Settled asked result before after (.asked next, [])
  | referred {response : Message} {referral : Referral} {next : Turn × List Gathering}
    (answered : Inquiry.usable result = .ok response)
    (refers : Outcome.classify response asked.inquiry.name asked.inquiry.type = .referral referral)
    (down : LeadsDown asked.inquiry.zone referral)
    (pursuit : Pursuit asked.inquiry referral (fun _ _ => asked.inquiry.depth < maxDepth) next)
    (same : before.SameChances after) : Settled asked result before after next

/-- A `turn` of a pass that goes on with the next server, or ends if there is none. -/
theorem Settled.of_turn {asked : Asked} {result : Settlement} {before after : Session} {turn : Turn}
    (follows : ∀ next, turn = .asked next → next.inquiry.Follows asked.inquiry)
    (plain : ∀ response target, Inquiry.usable result = .ok response →
      Outcome.classify response asked.inquiry.name asked.inquiry.type ≠ .alias target)
    (same : before.SameChances after) : Settled asked result before after (turn, []) := by
  cases turn with
  | finished outcome => exact .finished (fun chased => same.chased.trans chased) same.aliasAsked
  | asked next => exact .retried (follows next rfl) plain same

theorem react_cases {asked : Asked} {result : Settlement} {response : Message}
    {before after : Session} {next : Turn × List Gathering}
    (answered : Inquiry.usable result = .ok response)
    (ran : react asked response before = (.ok next, after)) :
    Settled asked result before after next := by
  have ends (outcome : Except Failure Answer) : Settled asked result before before
      (.finished outcome, []) := .finished id rfl
  unfold react at ran
  cases meant : Outcome.classify response asked.inquiry.name asked.inquiry.type <;>
    simp only [meant] at ran
  case answer answer =>
    cases ran
    exact ends _
  case nxDomain =>
    cases ran
    exact ends _
  case noData =>
    cases ran
    exact ends _
  case «alias» target =>
    obtain ⟨turn, _, ran, rest⟩ := Op.bind_eq_ok.mp ran
    cases rest
    obtain ⟨aliasAsked, used, holds⟩ := chase_cases ran
    cases turn with
    | finished outcome => exact .finished (fun _ => used) aliasAsked
    | asked next =>
      obtain ⟨unused, name, inquiry⟩ := holds next rfl
      exact .chased answered meant inquiry unused used aliasAsked
  case referral referral =>
    -- A referral that leads down is followed; any other one counts as a failure of the server.
    by_cases down : LeadsDown asked.inquiry.zone referral
    · rw [if_pos down] at ran
      obtain ⟨same, pursuit⟩ := yields_refer _ _ _ _ _ ran
      exact .referred answered meant down pursuit same
    · rw [if_neg down] at ran
      obtain ⟨turn, _, ran, rest⟩ := Op.bind_eq_ok.mp ran
      cases rest
      obtain ⟨same, follows⟩ := Inquiry.yields_retry _ _ _ _ _ ran
      refine .of_turn (fun next given => ?_) (fun other target given aliased => ?_) same
      · cases turn with
        | error failure => cases given
        | ok retried =>
          obtain rfl := Turn.asked.inj given
          exact follows _ rfl
      · obtain rfl := Except.ok.inj (answered.symm.trans given)
        cases meant.symm.trans aliased

theorem conclude_cases {asked : Asked} {result : Settlement} {before after : Session}
    {next : Turn × List Gathering} (ran : conclude asked result before = (.ok next, after)) :
    Settled asked result before after next := by
  obtain ⟨evaluation, session, evaluated, ran⟩ := Op.bind_eq_ok.mp ran
  obtain ⟨same, answers, retries⟩ := Inquiry.yields_evaluate _ _ _ _ _ evaluated
  cases evaluation with
  | failed failure =>
    cases ran
    exact .of_turn (fun _ given => nomatch given)
      (fun response _ given => nomatch (answers response).mpr given) same
  | again retried =>
    cases ran
    refine .of_turn (fun next given => ?_)
      (fun response _ given => nomatch (answers response).mpr given) same
    obtain rfl := Turn.asked.inj given
    exact retries _ rfl
  | response response =>
    -- reading the response into the cache uses up no chance
    have settled := react_cases ((answers response).mp rfl) ran
    obtain ⟨chased, aliasAsked⟩ := same
    cases settled with
    | finished kept kept' => exact .finished (by rwa [← chased]) (kept'.trans aliasAsked)
    | retried follows plain same =>
      exact .retried follows plain (.trans ⟨chased, aliasAsked⟩ same)
    | chased answered aliased inquiry unused used kept =>
      exact .chased answered aliased inquiry (chased.symm.trans unused) used (kept.trans aliasAsked)
    | referred answered refers down pursuit same =>
      exact .referred answered refers down pursuit (.trans ⟨chased, aliasAsked⟩ same)

/-! ### Nested passes -/

/-- What holds when the innermost pass has gone on, and is kept whenever a pass goes on with the
`result` of the one inside it, holds when all passes have gone on. -/
theorem yields_unwind {R : Turn × List Gathering → Prop}
    (keeps : ∀ result gathering outer next before after, R (.finished result, gathering :: outer) →
      (regather gathering result >>= takeUp gathering.inquiry gathering.referral) before =
        (.ok next, after) → R (next.1, next.2 ++ outer))
    (turn : Turn) (outer : List Gathering) (holds : R (turn, outer)) :
    Yields (unwind turn outer) fun progress => R progress.parts := by
  induction outer generalizing turn with
  | nil =>
    cases turn with
    | finished result => exact .pure holds
    | asked asked => exact .pure holds
  | cons gathering outer ih =>
    cases turn with
    | asked asked => exact .pure holds
    | finished result =>
      unfold unwind
      rw [← bind_assoc]
      refine (yields_regather gathering result).and_ran.bind fun next regathered => ?_
      obtain ⟨pursuit, before, after, ran⟩ := regathered
      -- The pass around takes in the result, which ends it, moves it on, or makes it look further.
      have kept := keeps _ _ _ _ _ _ holds ran
      cases pursuit with
      | finished result => exact ih _ kept
      | redirected depth zone => exact .pure kept
      | gathering begun fewer => exact .pure kept

/-- An `event` may leave a `query` waiting; if it settles the query, the `pass` goes on. -/
theorem resume_cases {pass : Pass} {event : Event} {before after : Session} {progress : Progress}
    (ran : pass.resume event before = (.ok progress, after)) :
    let happened := pass.asked.query.happen event before.resolver.registry
    let middle : Session :=
      { before with resolver := { before.resolver with registry := happened.2 } }
    (happened.1.1 = none ∧ after = middle ∧
        progress = .waiting { pass with asked := { pass.asked with query := happened.1.2 } }) ∨
      ∃ result next session, happened.1.1 = some result ∧
        conclude pass.asked result middle = (.ok next, session) ∧
        unwind next.1 (next.2 ++ pass.outer) session = (.ok progress, after) := by
  intro happened middle
  obtain ⟨⟨settled, query⟩, _, happens, ran⟩ := Op.bind_eq_ok.mp ran
  obtain ⟨same, rfl⟩ := Prod.mk.inj happens
  have same : happened.1 = (settled, query) := Except.ok.inj same
  rw [same]
  cases settled with
  | none =>
    cases ran
    exact .inl ⟨rfl, rfl, rfl⟩
  | some result =>
    obtain ⟨next, session, concluded, ran⟩ := Op.bind_eq_ok.mp ran
    exact .inr ⟨result, next, session, rfl, concluded, ran⟩

/-- The chance to chase an alias does not come back when a query is `Settled`, and a pass does not
ask for a bare alias. -/
theorem Settled.chances {asked : Asked} {result : Settlement} {before after : Session}
    {next : Turn × List Gathering} (settled : Settled asked result before after next) :
    (before.allowance.chased = true → after.allowance.chased = true) ∧
      after.allowance.aliasAsked = before.allowance.aliasAsked := by
  cases settled with
  | finished chased aliasAsked => exact ⟨chased, aliasAsked⟩
  | retried follows plain same => exact ⟨same.chased.trans, same.aliasAsked⟩
  | chased answered aliased inquiry unused used aliasAsked => exact ⟨fun _ => used, aliasAsked⟩
  | referred answered refers down pursuit same => exact ⟨same.chased.trans, same.aliasAsked⟩

theorem yields_unwind_trivial (turn : Turn) (outer : List Gathering) :
    Yields (unwind turn outer) fun _ => True :=
  yields_unwind (R := fun _ => True) (fun _ _ _ _ _ _ _ _ => trivial) turn outer trivial

theorem resume_chances {pass : Pass} {event : Event} {before after : Session} {progress : Progress}
    (ran : pass.resume event before = (.ok progress, after)) :
    (before.allowance.chased = true → after.allowance.chased = true) ∧
      after.allowance.aliasAsked = before.allowance.aliasAsked := by
  obtain ⟨-, rfl, -⟩ | ⟨result, next, session, -, concluded, unwound⟩ := resume_cases ran
  · exact ⟨id, rfl⟩
  · obtain ⟨chased, aliasAsked⟩ := (conclude_cases concluded).chances
    have same := (yields_unwind_trivial _ _ _ _ _ unwound).1
    exact ⟨fun used => same.chased.trans (chased used), same.aliasAsked.trans aliasAsked⟩

end Pass

end NameResolution
