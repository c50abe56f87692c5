import Mathlib.Data.List.Chain
import NameResolution.Proofs.Resolution.Outcomes
import NameResolution.Proofs.Resolution.Steps

/-!
# Referrals

One pass, apart from the passes inside it, goes from query to query, or waits for the address of a
server. It can be referred to the servers of other zones, and these zones only ever lead downwards.

* `Pass.Stage`: how far one pass has come. `Pass.Stage.Goes`: how it goes on, whatever resolver it
  meets.
* `Pass.Course`: a pass in the course of any run, with the zones it was led through.
* `Pass.Stage.Goes.keeps_or_descends`: a pass stays with its servers, or accepts a referral to a
  zone around the name, strictly below the zone of the servers that gave it.
* `Pass.Course.descends`: the zones lead strictly downwards, so there are at most 127 redirects.
* `Pass.OnCourse`: this is how all nested passes run.
-/

namespace NameResolution

/-! ## The course of one pass -/

namespace Pass

/-- How far a pass has come: it waits for a query (`asks`), or for the address of a server
(`gathers`). -/
inductive Stage
  | asks (asked : Asked)
  | gathers (gathering : Gathering)

namespace Stage

/-- The `zone` of the servers that are asked, or that are looked up. -/
def zone : Stage → Name
  | .asks asked => asked.inquiry.zone
  | .gathers gathering => gathering.referral.zone

/-- The `servers` that are asked. -/
def servers? : Stage → Option (List Endpoint)
  | .asks asked => some asked.inquiry.rota.servers
  | .gathers _ => none

/-- The `Stage` that a pass has come to when it goes on like this. -/
def of? : Turn × List Gathering → Option Stage
  | (.finished _, _) => none
  | (.asked asked, []) => some (.asks asked)
  | (.asked _, gathering :: _) => some (.gathers gathering)

/-- How a pass goes on, in any `Session`. A query is settled in any way, with the response that is
gone by, if there is one; or the pass that looks up the address of a server ends in any way. -/
inductive Goes : Stage → Option Message → Stage → Prop
  | settled {asked : Asked} {result : Settlement} {next : Turn × List Gathering} {stage : Stage}
    {before after : Session} (ran : conclude asked result before = (.ok next, after))
    (is : of? next = some stage) :
    Goes (.asks asked) (Inquiry.usable result).toOption stage
  | gathered {gathering : Gathering} {result : Except Failure Answer}
    {next : Turn × List Gathering} {stage : Stage} {before after : Session}
    (ran : (regather gathering result >>= takeUp gathering.inquiry gathering.referral) before =
      (.ok next, after))
    (is : of? next = some stage) : Goes (.gathers gathering) none stage

/-- What a pass does that has been referred stays within the `zone` of the `referral`. -/
theorem zone_of_pursuit {inquiry : Inquiry} {referral : Referral}
    {P : List RecordType → List Name → Prop} {next : Turn × List Gathering} {stage : Stage}
    (pursuit : Pursuit inquiry referral P next) (is : of? next = some stage) :
    stage.zone = referral.zone := by
  cases pursuit with
  | finished result => cases is
  | redirected depth zone =>
    obtain rfl := Option.some.inj is
    exact zone
  | gathering begun holds =>
    obtain rfl := Option.some.inj is
    rfl

/-- The pass keeps its servers and their zone, or it comes to the servers that it has been looking
up. -/
def Keeps (stage next : Stage) : Prop :=
  next.zone = stage.zone ∧
    ∀ servers ∈ stage.servers?, ∀ others ∈ next.servers?, others = servers

/-- The pass at `stage` accepts a referral, which leads to a zone around the name that it asks for,
strictly below the zone of the servers that gave it. -/
def Descends (stage : Stage) (response : Option Message) (next : Stage) : Prop :=
  ∃ asked message referral, stage = .asks asked ∧ response = some message ∧
    Outcome.classify message asked.inquiry.name asked.inquiry.type = .referral referral ∧
    asked.inquiry.name.IsSubdomainOf referral.zone ∧
    referral.zone.IsBelow asked.inquiry.zone ∧ next.zone = referral.zone

/-- A pass that goes on keeps its servers, or it accepts a referral that leads downwards. -/
theorem Goes.keeps_or_descends {stage next : Stage} {response : Option Message}
    (goes : stage.Goes response next) : stage.Keeps next ∨ stage.Descends response next := by
  cases goes with
  | gathered ran is =>
    exact .inl ⟨zone_of_pursuit (yields_regather _ _ _ _ _ ran).2 is, nofun⟩
  | @settled asked result next' stage before after ran is =>
    cases conclude_cases ran with
    | finished chased aliasAsked => cases is
    | retried follows plain same =>
      obtain rfl := Option.some.inj is
      refine .inl ⟨follows.zone, ?_⟩
      rintro _ ⟨⟩ _ ⟨⟩
      exact follows.servers
    | chased answered aliased inquiry unused used aliasAsked =>
      obtain rfl := Option.some.inj is
      refine .inl ⟨by rw [zone, inquiry]; rfl, ?_⟩
      rintro _ ⟨⟩ _ ⟨⟩
      rw [inquiry]
    | @referred response referral _ answered refers down pursuit same =>
      refine .inr ⟨asked, response, referral, rfl, by rw [answered]; rfl, refers,
        Outcome.isSubdomainOf_of_classify refers, down, zone_of_pursuit pursuit is⟩

end Stage

/-- A pass in the course of any run: the `zones` it has been led through, the latest first, and its
`stage`. Every step meets any session, and every `query` and every pass inside it ends in any
way. -/
inductive Course : List Name → Stage → Prop
  | begun {depth : Nat} {asked : Asked} (begun : Begun depth asked) :
    Course [asked.inquiry.zone] (.asks asked)
  | happened {zones : List Name} {asked : Asked} (query : Query)
    (course : Course zones (.asks asked)) : Course zones (.asks { asked with query := query })
  | goes {zones : List Name} {stage next : Stage} {response : Option Message}
    (course : Course zones stage) (goes : stage.Goes response next) :
    Course (if next.zone = stage.zone then zones else next.zone :: zones) next

/-- The `zones` of the servers of a pass lead strictly downwards. As names have at most 127 labels,
a pass can be redirected at most 127 times. -/
theorem Course.descends {zones : List Name} {stage : Stage} (course : Course zones stage) :
    zones.head? = some stage.zone ∧ zones.IsChain Name.IsBelow ∧ zones.length ≤ 128 := by
  -- Each zone has a label more than the one before, so the zones are counted by labels.
  suffices measured : zones.head? = some stage.zone ∧ zones.IsChain Name.IsBelow ∧
      zones.length ≤ stage.zone.labels.length + 1 by
    obtain ⟨head, chain, short⟩ := measured
    have := stage.zone.length_labels_le
    exact ⟨head, chain, by omega⟩
  induction course with
  | begun begun => exact ⟨rfl, .singleton _, Nat.le_add_left _ _⟩
  | happened query course ih => exact ih
  | goes course goes ih =>
    obtain ⟨head, chain, short⟩ := ih
    split
    · rename_i kept
      exact kept ▸ ⟨head, chain, short⟩
    · rename_i moved
      obtain ⟨kept, -⟩ | ⟨asked, message, referral, rfl, -, -, -, below, zone⟩ :=
        goes.keeps_or_descends
      · exact absurd kept moved
      rw [← zone] at below
      refine ⟨rfl, chain.cons fun other mem => ?_, ?_⟩
      · obtain rfl := Option.some.inj (head.symm.trans mem)
        exact below
      · have longer := below.length_lt
        rw [List.length_cons]
        exact Nat.succ_le_succ (Nat.le_trans short longer)

/-! ## Nested passes -/

/-- The pass that goes on is in the course of a run, and so are all passes around it. -/
structure OnCourse (parts : Turn × List Gathering) : Prop where
  asks : ∀ asked, parts.1 = .asked asked → ∃ zones, Course zones (.asks asked)
  gathers : ∀ gathering ∈ parts.2, ∃ zones, Course zones (.gathers gathering)

/-- A pass that goes on waits for a query of its own, or for a pass that has just been begun: what
`next` stands for. -/
def Opens (next : Turn × List Gathering) : Prop :=
  next.2 = [] ∨ ∃ depth asked gathering, next = (.asked asked, [gathering]) ∧ Begun depth asked

theorem Pursuit.opens {inquiry : Inquiry} {referral : Referral}
    {P : List RecordType → List Name → Prop} {next : Turn × List Gathering}
    (pursuit : Pursuit inquiry referral P next) : Opens next := by
  cases pursuit with
  | finished result => exact .inl rfl
  | redirected depth zone => exact .inl rfl
  | gathering begun holds => exact .inr ⟨_, _, _, rfl, begun⟩

theorem Settled.opens {asked : Asked} {result : Settlement} {before after : Session}
    {next : Turn × List Gathering} (settled : Settled asked result before after next) :
    Opens next := by
  cases settled with
  | finished chased aliasAsked => exact .inl rfl
  | retried follows plain same => exact .inl rfl
  | chased answered aliased inquiry unused used aliasAsked => exact .inl rfl
  | referred answered refers down pursuit same => exact pursuit.opens

/-- A pass on course that goes on stays on course, and so does the pass that it waits for. -/
theorem Course.onCourse {zones : List Name} {stage : Stage} {next : Turn × List Gathering}
    {response : Option Message} (course : Course zones stage) (opens : Opens next)
    (goes : ∀ later, Stage.of? next = some later → stage.Goes response later) : OnCourse next := by
  obtain ⟨turn, inner⟩ := next
  rcases opens with rfl | ⟨depth, asked, gathering, same, begun⟩
  · refine ⟨fun asked same => ?_, by simp⟩
    obtain rfl : turn = .asked asked := same
    exact ⟨_, course.goes (goes _ rfl)⟩
  · obtain ⟨rfl, rfl⟩ := Prod.mk.inj same
    refine ⟨fun other same => ?_, fun other mem => ?_⟩
    · obtain rfl := Turn.asked.inj same
      exact ⟨_, .begun begun⟩
    · obtain rfl := List.mem_singleton.mp mem
      exact ⟨_, course.goes (goes _ rfl)⟩

theorem OnCourse.append {next : Turn × List Gathering} {outer : List Gathering}
    (onCourse : OnCourse next)
    (around : ∀ gathering ∈ outer, ∃ zones, Course zones (.gathers gathering)) :
    OnCourse (next.1, next.2 ++ outer) :=
  ⟨onCourse.asks, fun gathering mem =>
    (List.mem_append.mp mem).elim (onCourse.gathers gathering) (around gathering)⟩

theorem onCourse_unwind (turn : Turn) (outer : List Gathering) (onCourse : OnCourse (turn, outer)) :
    Session.Yields (unwind turn outer) fun progress => OnCourse progress.parts := by
  refine yields_unwind (fun result gathering outer next before after onCourse ran => ?_) turn outer
    onCourse
  obtain ⟨zones, course⟩ := onCourse.gathers gathering List.mem_cons_self
  have opens := (yields_regather _ _ _ _ _ ran).2.opens
  exact (course.onCourse opens fun later is => .gathered ran is).append fun other mem =>
    onCourse.gathers other (List.mem_cons_of_mem _ mem)

/-- A pass that is started is `OnCourse`. -/
theorem onCourse_start (name : Name) (type : RecordType) :
    Session.Yields (start name type) fun progress => OnCourse progress.parts := by
  refine (yields_begin name type 0).and_ran.bind fun turn ⟨_, before, after, ran⟩ => ?_
  refine onCourse_unwind turn [] ⟨fun asked same => ?_, by simp⟩
  obtain rfl : turn = .asked asked := same
  exact ⟨_, .begun ⟨_, _, _, _, ran⟩⟩

/-- A `pass` on course stays on course. -/
theorem OnCourse.resume {pass : Pass} {event : Event} {before after : Session}
    {progress : Progress} (onCourse : OnCourse (.asked pass.asked, pass.outer))
    (ran : pass.resume event before = (.ok progress, after)) : OnCourse progress.parts := by
  obtain ⟨zones, course⟩ := onCourse.asks _ rfl
  rcases resume_cases ran with ⟨-, -, rfl⟩ | ⟨result, next, session, -, concluded, unwound⟩
  · refine ⟨fun asked same => ?_, onCourse.gathers⟩
    obtain rfl := Turn.asked.inj same
    exact ⟨_, course.happened _⟩
  · have settled := conclude_cases concluded
    have inner := course.onCourse settled.opens fun later is => .settled concluded is
    exact (onCourse_unwind _ _ (inner.append onCourse.gathers) _ _ _ unwound).2

end Pass

end NameResolution
