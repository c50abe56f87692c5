import Mathlib.Data.Nat.ModEq
import NameResolution.Proofs.Resolution.Rotation

/-!
# Lookups in turn

A lookup of a host starts with the configured server whose turn it is, and moves on by one server for
each family of addresses that it looks up. So of lookups one after the other, each of which is
answered directly, the first queries go to servers at this distance.

* `Resolver.Series`: such lookups, and the servers that their first queries went to.
* `Resolver.Series.firsts_rotate`: where these servers are in the list. All of them have their turn if
  the distance has no divisor in common with their number.
-/

namespace NameResolution

/-- Lookups of hosts one after the other, each of which is answered directly, and the servers that
their first queries went to. In between, the resolver may do anything that `Idles` with the
configured servers. -/
inductive Resolver.Series (begun : Resolver) : Resolver → List Endpoint → Prop
  | starts : Series begun begun []
  | meanwhile {resolver after : Resolver} {firsts : List Endpoint}
    (series : Series begun resolver firsts) (idles : resolver.Idles after) :
    Series begun after firsts
  | looksUp {resolver after : Resolver} {firsts : List Endpoint} {host : String} {budget : Nat}
    {call : Call} {sent : List Datagram} {datagram : Datagram}
    (series : Series begun resolver firsts)
    (course : Call.Course Idles Call.Plain (.new (.host host) budget) resolver call after sent)
    (ended : call.isOver = true) (first : sent.head? = some datagram) :
    Series begun after (firsts ++ [datagram.server])

namespace Resolver.Series

variable {begun resolver : Resolver} {firsts : List Endpoint}

/-- Each lookup asks the `server` whose turn it is first, and uses the configured `servers` once for
each family of addresses. -/
theorem turned (series : begun.Series resolver firsts) (rotates : begun.settings.rotate = true) :
    resolver.Turned begun.settings
        (begun.rotation + begun.settings.preference.types.length * firsts.length) ∧
      ∀ i server, firsts[i]? = some server →
        begun.settings.servers[(begun.rotation + begun.settings.preference.types.length * i) %
          begun.settings.servers.length]? = some server := by
  -- The induction is on the lookups so far: the servers were used once for each type in each of
  -- them.
  induction series with
  | starts => exact ⟨⟨rfl, rfl⟩, nofun⟩
  | meanwhile series idles ih =>
    obtain ⟨⟨own, times⟩, turns⟩ := ih
    exact ⟨⟨idles.settings.trans own, idles.rotation.trans times⟩, turns⟩
  | @looksUp resolver after firsts host budget call sent datagram series course ended first ih =>
    obtain ⟨⟨own, times⟩, turns⟩ := ih
    cases Call.stage_of_course (own ▸ rotates) course with
    | idle asks idle => simp [Call.isOver, idle] at ended
    | racing underway => simp [Call.isOver, underway.racing] at ended
    | «over» _ turned begins =>
      obtain rfl | ⟨rfl, other, head, addressed⟩ := begins
      · cases first
      obtain rfl : other = datagram := Option.some.inj (head.symm.trans first)
      rw [own, times] at turned
      rw [own, times] at addressed
      refine ⟨?_, fun i server here => ?_⟩
      · rw [List.length_append, List.length_singleton, Nat.mul_succ, ← Nat.add_assoc]
        exact turned
      · rw [List.getElem?_append] at here
        split at here
        · exact turns i server here
        · rename_i beyond
          obtain ⟨last, same⟩ := List.getElem?_eq_some_iff.mp here
          obtain rfl : i = firsts.length := by
            rw [List.length_singleton] at last
            omega
          simp only [Nat.sub_self, List.getElem_singleton] at same
          exact same ▸ addressed

end Resolver.Series

/-- Steps of a length `step` that has no divisor in common with that of a circle, `count`, come to
each of its places once. -/
theorem Nat.perm_range_steps {count step : Nat} (coprime : step.Coprime count) (start : Nat) :
    ((List.range count).map fun i => (start + step * i) % count).Perm (List.range count) := by
  refine List.Subperm.perm_of_length_le (List.subperm_of_subset ?_ ?_) (by simp)
  · refine List.Nodup.map_on (fun i below j below' same => ?_) List.nodup_range
    have steps : step * i ≡ step * j [MOD count] := Nat.ModEq.add_left_cancel' start same
    exact (steps.cancel_left_of_coprime coprime.symm).eq_of_lt_of_lt (List.mem_range.mp below)
      (List.mem_range.mp below')
  · intro place member
    obtain ⟨i, below, rfl⟩ := List.mem_map.mp member
    exact List.mem_range.mpr (Nat.mod_lt _ (Nat.zero_lt_of_lt (List.mem_range.mp below)))

namespace Resolver.Series

variable {begun resolver : Resolver} {firsts : List Endpoint}

/-- If the configured servers `rotate`, then in a `Series` of lookups each lookup of a host asks the
server first that follows, around the list, by as many places as there are `types` of addresses to
look up. With one family that is the next server. If the number of types is `Coprime` to the number
of servers, then as many lookups as there are servers ask each of them first once. The uses are
counted in `Resolver.rotation`, for which a word of 64 bits would do up to `2 ^ 64` of them. -/
theorem firsts_rotate (series : begun.Series resolver firsts)
    (rotates : begun.settings.rotate = true) :
    (∀ i server, firsts[i]? = some server →
      begun.settings.servers[(begun.rotation + begun.settings.preference.types.length * i) %
        begun.settings.servers.length]? = some server) ∧
    (begun.settings.preference.types.length.Coprime begun.settings.servers.length →
      ∀ i, i + begun.settings.servers.length ≤ firsts.length →
        ((firsts.drop i).take begun.settings.servers.length).Perm begun.settings.servers) := by
  have turns := (series.turned rotates).2
  refine ⟨turns, fun coprime i enough => ?_⟩
  generalize begun.settings.servers = servers at turns coprime enough
  generalize begun.settings.preference.types.length = families at turns coprime
  -- the places of the servers that are asked first
  let places := (List.range servers.length).map fun j =>
    (begun.rotation + families * i + families * j) % servers.length
  have asked : ((firsts.drop i).take servers.length).map some = places.map (servers[·]?) := by
    refine List.ext_getElem (by simp [places]; omega) fun j here there => ?_
    have below : i + j < firsts.length := by
      simp only [List.length_map, List.length_take, List.length_drop] at here
      omega
    have turn := turns (i + j) _ (List.getElem?_eq_getElem below)
    simpa [places, Nat.mul_add, Nat.add_assoc] using turn.symm
  have all : servers.map some = (List.range servers.length).map (servers[·]?) :=
    List.ext_getElem (by simp) fun j here there => by simp_all
  refine (List.map_perm_map_iff (Option.some_injective _)).mp ?_
  rw [asked, all]
  exact (Nat.perm_range_steps coprime _).map _

end Resolver.Series

/-! ### Lookups of the root -/

namespace Call

variable {call : Call} {resolver : Resolver}

theorem plain_of_start {lookup : HostLookup} {type : RecordType} {matters : List Matter}
    {next : Call} {after : Resolver}
    (racing : call.activity = .racing lookup) (first : call.matters = .start type :: matters)
    (unversed : resolver.Unversed lookup.race.name type)
    (ran : call.step resolver = (.ok (some next), after))
    (waits : ∀ result, (type, .ended result) ∉ next.activity.runs) : call.Plain resolver where
  unversed other own := by
    obtain rfl := Activity.racing.inj (racing.symm.trans other)
    obtain ⟨same, -⟩ := List.cons.inj (first.symm.trans own)
    exact Matter.start.inj same ▸ unversed
  asks other own went result := by
    obtain ⟨same, -⟩ := List.cons.inj (first.symm.trans own)
    cases ran.symm.trans went
    exact Matter.start.inj same ▸ waits result
  answered other own := by cases first.symm.trans own
  stays own := by cases first.symm.trans own

theorem plain_of_answer {serial : Nat} {event : Event} {matters : List Matter} {pass : Pass}
    (first : call.matters = .event serial event :: matters)
    (addressed : call.addressee? serial = some pass)
    (answered : ∀ result, (pass.asked.query.happen event resolver.registry).1.1 = some result →
      pass.asked.inquiry.IsAnsweredBy result) : call.Plain resolver where
  unversed other own := by cases first.symm.trans own
  asks other own := by cases first.symm.trans own
  answered other own among here settled := by
    obtain ⟨same, -⟩ := List.cons.inj (first.symm.trans own)
    obtain ⟨rfl, rfl⟩ := Matter.event.inj same
    obtain rfl := Option.some.inj (addressed.symm.trans here)
    exact answered _ settled
  stays own here settled := by
    obtain ⟨same, -⟩ := List.cons.inj (first.symm.trans own)
    obtain ⟨rfl, rfl⟩ := Matter.event.inj same
    obtain rfl := Option.some.inj (addressed.symm.trans here)
    exact (answered _ settled).stays

theorem plain_of_quiet (quiet : ∀ matter ∈ call.matters.head?, matter = .begin) :
    call.Plain resolver where
  unversed _ own := by cases quiet _ (congrArg List.head? own)
  asks _ own := by cases quiet _ (congrArg List.head? own)
  answered _ own := by cases quiet _ (congrArg List.head? own)
  stays own := by cases quiet _ (congrArg List.head? own)

end Call

namespace Resolver.Series

def rotatingServers : Endpoint × Endpoint :=
  (.ofAddress (.v4 (.ofOctets 192 0 2 1)) 53, .ofAddress (.v4 (.ofOctets 192 0 2 2)) 53)

/-- A `Resolver` that rotates two servers, and that has used them so many times. -/
def rotating (preference : Preference) (rotation : Nat) (registry : Registry) : Resolver :=
  { Resolver.new { Settings.new with
      servers := [rotatingServers.1, rotatingServers.2]
      rotate := true
      preference := preference } .empty .default .default with
    rotation := rotation
    registry := registry }

def rootAnswer : Message where
  header := Header.empty.setResponse true
  questions := [.internet .root .a]
  answer := [⟨.root, .internet, 60, .a (.ofOctets 192 0 2 7)⟩]
  authority := []
  additional := []

/-- The query with a `serial` number, for addresses of the root. -/
def rootEntry (server : Endpoint) (serial : Nat) (type : RecordType) : Registration :=
  ⟨server, 0, serial, .internet .root type⟩

/-- A `Pass` that waits for this query, when so many places of its rota have been passed. -/
def rootPass (server : Endpoint) (serial : Nat) (type : RecordType) (passed : Nat) : Pass :=
  ⟨⟨⟨type, 0, .root, ⟨[rotatingServers.1, rotatingServers.2], passed, passed + 3⟩, .root, none⟩,
    { Query.ofRegistration (rootEntry server serial type) with
      state := .writing
      begun := true }⟩, []⟩

/-- A lookup of the root under way, with these `runs`. -/
def rootCall (preference : Preference) (runs : Runs) (matters : List Matter)
    (allowance : Allowance) : Call :=
  ⟨.host ".", allowance, .racing ⟨⟨.root, preference.preferred, runs⟩, .addresses, none⟩, matters⟩

def rootFound : Answer :=
  ⟨.root, [.ofRecord ⟨.root, .internet, 60, .a (.ofOctets 192 0 2 7)⟩]⟩

/-- A resolver that knows nothing learns `rootAnswer`. -/
theorem learns_rootAnswer (preference : Preference) (times : Nat) (allowance : Allowance) :
    ∃ cache, Session.learn rootAnswer ⟨rotating preference times (.first [] []), allowance⟩ =
      (.ok (), ⟨{ rotating preference times (.first [] []) with cache := cache }, allowance⟩) := by
  have fine : (Cache.addMessage rootAnswer .zero (.empty .default)).1.isOk = true := by
    decide +kernel
  cases stored : Cache.addMessage rootAnswer .zero (.empty .default) with
  | mk result cache =>
    rw [stored] at fine
    cases result with
    | error misuse => cases fine
    | ok found => exact ⟨cache, Session.learn_of_addMessage stored⟩

section

variable {preference : Preference} {server : Endpoint} {passed times : Nat} {allowance : Allowance}
  {back : Runs}

/-- A lookup of the root that hears of `rootAnswer` to its first query. -/
def hearing (preference : Preference) (server : Endpoint) (passed : Nat) (back : Runs)
    (allowance : Allowance) : Call :=
  rootCall preference ((.a, .waiting (rootPass server 1 .a passed)) :: back) [.event 1 .written]
    allowance

/-- A `Resolver` with the answer to the first query. -/
def replied (preference : Preference) (times : Nat) : Resolver :=
  rotating preference times (.first [] [(1, .response rootAnswer)])

theorem happens_rootAnswer (server : Endpoint) (passed : Nat) :
    ∃ query, (rootPass server 1 .a passed).asked.query.happen .written
      (.first [] [(1, .response rootAnswer)]) = ((some (.ok rootAnswer), query), (.first [] [])) :=
  ⟨_, rfl⟩

theorem classify_rootAnswer : Outcome.classify rootAnswer .root .a = .answer rootFound := by decide

/-- In a step of `hearing` the pass whose query is answered ends. -/
theorem step_hearing : ∃ cache, (hearing preference server passed back allowance).step
    (replied preference times) = (.ok (some (rootCall preference
      ((.a, .ended (.ok rootFound)) :: back) [] allowance)),
        { rotating preference times (.first [] []) with cache := cache }) := by
  obtain ⟨query, happened⟩ := happens_rootAnswer server passed
  obtain ⟨cache, learned⟩ := learns_rootAnswer preference times allowance
  have answered : (rootPass server 1 .a passed).resume .written
      ⟨replied preference times, allowance⟩ = (.ok (.finished (.ok rootFound)),
        ⟨{ rotating preference times (.first [] []) with cache := cache }, allowance⟩) :=
    Pass.resume_of_answer rfl happened rfl classify_rootAnswer learned
  exact ⟨cache, Call.step_of_event (hearing preference server passed back allowance) [] rfl rfl rfl
    rfl (List.forall_mem_nil _) answered⟩

theorem plain_hearing :
    (hearing preference server passed back allowance).Plain (replied preference times) := by
  obtain ⟨query, happened⟩ := happens_rootAnswer server passed
  refine Call.plain_of_answer rfl rfl fun result settled => ?_
  obtain rfl : .ok rootAnswer = result := by
    have same := congrArg (·.1.1) happened
    exact Option.some.inj (same.symm.trans settled)
  exact ⟨rootAnswer, rootFound, rfl, classify_rootAnswer, by decide⟩

/-- The race of a lookup whose preferred pass has ended is closed, whether or not it looks for
addresses of the other family too. -/
theorem closes_root (prefers : preference.preferred = .a) {other : Endpoint} {later : Nat}
    (alone : back = [] ∨ back = [(.aaaa, .waiting (rootPass other 2 .aaaa later))]) :
    ∃ next : Call, next.isOver = true ∧
      ∃ after : Resolver, after.Turned (rotating preference 0 .empty).settings times ∧
        after.outbox = [] ∧
        (rootCall preference ((.a, .ended (.ok rootFound)) :: back) [] allowance).step
          (rotating preference times .empty) = (.ok (some next), after) := by
  refine ⟨⟨.host ".", allowance, .over (.ok (.hosts ⟨.root, [.v4 (.ofOctets 192 0 2 7)]⟩)), []⟩,
    rfl, ?_⟩
  obtain rfl | rfl := alone <;> cases preference <;> cases prefers <;>
    exact ⟨_, by exact ⟨rfl, rfl⟩, by rfl, rfl⟩

/-- Once its first query is answered with `rootAnswer`, the lookup is over. -/
theorem ends_root (other : Endpoint) (later : Nat) (prefers : preference.preferred = .a)
    {first : Call} {begun resolver : Resolver} {sent : List Datagram}
    (course : Call.Course Idles Call.Plain first begun
      (rootCall preference ((.a, .waiting (rootPass server 1 .a passed)) :: back) [] allowance)
      resolver sent)
    (alone : back = [] ∨ back = [(.aaaa, .waiting (rootPass other 2 .aaaa later))])
    (turned : resolver.Turned (rotating preference 0 .empty).settings times) :
    ∃ call, call.isOver = true ∧
      Call.Course Idles Call.Plain first begun call (rotating preference times .empty) sent := by
  have idles : resolver.Idles (replied preference times) :=
    ⟨turned.settings.symm, turned.rotation.symm⟩
  have heard : Call.Course Idles Call.Plain first begun
      (hearing preference server passed back allowance) (replied preference times) sent :=
    (course.hears 1 .written).meanwhile idles
  obtain ⟨cache, resumes⟩ := @step_hearing preference server passed times allowance back
  have rested : Call.Course Idles Call.Plain first begun (rootCall preference
      ((.a, .ended (.ok rootFound)) :: back) [] allowance)
      (rotating preference times .empty) (sent ++ []) :=
    (heard.steps plain_hearing resumes rfl).meanwhile ⟨rfl, rfl⟩
  obtain ⟨next, isOver, after, steady, quiet, closes⟩ :=
    @closes_root preference times allowance back prefers other later alone
  have closed : Call.Course Idles Call.Plain first begun next after (sent ++ [] ++ []) :=
    rested.steps (Call.plain_of_quiet (by simp [rootCall])) closes quiet
  have idles : after.Idles (rotating preference times .empty) :=
    ⟨steady.settings.symm, steady.rotation.symm⟩
  refine ⟨next, isOver, ?_⟩
  simpa using closed.meanwhile idles

end

/-- A lookup of the root starts its pass for a `type` with the `server` whose turn it is, after some
queries. So many places of the rota have been passed then. -/
def Turns (rotation : Nat) (type : RecordType) (earlier : List Registration) (server : Endpoint)
    (passed : Nat) : Prop :=
  rotation % 2 = 0 ∧ type = .a ∧ earlier = [] ∧ server = rotatingServers.1 ∧ passed = 1 ∨
    rotation % 2 = 1 ∧ (type = .a ∧ earlier = [] ∨
      type = .aaaa ∧ earlier = [rootEntry rotatingServers.1 1 .a]) ∧ server = rotatingServers.2 ∧
        passed = 2

/-- What a lookup of the root may still do after `count` queries. -/
def spent (count : Nat) : Allowance := ⟨⟨2, 2 - count, by omega⟩, false, false⟩

/-- A `Registry` after the registrations that are still there. -/
def registered (earlier : List Registration) : Registry :=
  { Registry.empty with outstanding := earlier, lastSerial := earlier.length }

/-- The `Pass` puts its question to the `server` whose `turn` it is. -/
theorem start_root {preference : Preference} {rotation next : Nat} {server : Endpoint}
    {type : RecordType} {earlier : List Registration}
    (turn : Turns rotation type earlier server next) :
    (rotating preference rotation (registered earlier)).Unversed .root type ∧ ∃ session,
      Pass.start .root type
          ⟨rotating preference rotation (registered earlier), spent earlier.length⟩ =
        (.ok (.waiting (rootPass server (earlier.length + 1) type next)), session) ∧
      session.resolver.outbox.map Datagram.server = [server] ∧
      session.resolver.Turned (rotating preference 0 .empty).settings (rotation + 1) ∧
      session.allowance = spent (earlier.length + 1) := by
  have unversed :
      (rotating preference rotation (registered earlier)).Unversed .root type := by
    obtain ⟨-, rfl, rfl, -⟩ | ⟨-, ⟨rfl, rfl⟩ | ⟨rfl, rfl⟩, -⟩ := turn <;> exact ⟨by rfl, by rfl⟩
  obtain ⟨cache, delegations, begins⟩ : ∃ cache delegations,
      Pass.start .root type
          ⟨rotating preference rotation (registered earlier), spent earlier.length⟩ = (do
        Pass.unwind (.ofInquiry (← Inquiry.askNext ⟨type, 0, .root,
          ⟨[rotatingServers.1, rotatingServers.2], rotation % 2,
            (rotation % 2 + 4) % Rota.wordCount⟩, .root, none⟩)) [])
        ⟨{ rotating preference (rotation + 1) (registered earlier) with
          cache := cache
          delegations := delegations }, spent earlier.length⟩ :=
    Pass.start_of_unversed rfl unversed
  refine ⟨unversed, ?_⟩
  rw [begins]
  obtain ⟨even, rfl, rfl, rfl, rfl⟩ | ⟨odd, ⟨rfl, rfl⟩ | ⟨rfl, rfl⟩, rfl, rfl⟩ := turn
  · rw [even]
    exact ⟨_, rfl, rfl, by exact ⟨rfl, rfl⟩, rfl⟩
  · rw [odd]
    exact ⟨_, rfl, rfl, by exact ⟨rfl, rfl⟩, rfl⟩
  · rw [odd]
    exact ⟨_, rfl, rfl, by exact ⟨rfl, rfl⟩, rfl⟩

/-- The lookup starts its pass for a `type`. -/
theorem starts_root (front : Runs) {preference : Preference} {first : Call} {begun : Resolver}
    {sent : List Datagram} {rotation passed : Nat} {server : Endpoint} {type : RecordType}
    {earlier : List Registration} {back : Runs} {matters : List Matter}
    (others : ∀ run ∈ front ++ back, run.1 ≠ type)
    (turn : Turns rotation type earlier server passed)
    (course : Call.Course Idles Call.Plain first begun
      (rootCall preference (front ++ (type, .unstarted) :: back) (.start type :: matters)
        (spent earlier.length))
      (rotating preference rotation (registered earlier)) sent) :
    ∃ datagram : Datagram, datagram.server = server ∧ ∀ registry,
      Call.Course Idles Call.Plain first begun
        (rootCall preference
          (front ++ (type, .waiting (rootPass server (earlier.length + 1) type passed)) :: back)
          matters (spent (earlier.length + 1)))
        (rotating preference (rotation + 1) registry) (sent ++ [datagram]) := by
  obtain ⟨unversed, session, started, sends, turned, allowance⟩ := start_root turn
  obtain ⟨datagram, outbox, addressed⟩ := List.map_eq_singleton_iff.mp sends
  have ran := Call.step_of_start (rootCall preference (front ++ (type, .unstarted) :: back)
    (.start type :: matters) (spent earlier.length)) front rfl rfl rfl
    (fun run member => others run (List.mem_append_left _ member)) started
  refine ⟨datagram, addressed, fun registry => ?_⟩
  have plain : Call.Plain (rootCall preference (front ++ (type, .unstarted) :: back)
      (.start type :: matters) (spent earlier.length))
      (rotating preference rotation (registered earlier)) := by
    refine Call.plain_of_start rfl rfl unversed ran fun result member => ?_
    obtain same | among := List.mem_cons.mp (List.perm_middle.subset member)
    · cases same
    · exact others _ among rfl
  have idles : session.resolver.Idles (rotating preference (rotation + 1) registry) :=
    ⟨turned.settings.symm, turned.rotation.symm⟩
  rw [← allowance]
  exact (course.steps plain ran outbox).meanwhile idles

/-- A lookup that looks for addresses of one family moves on to the next `server`. -/
theorem looksUp_root {begun : Resolver} {firsts : List Endpoint} {rotation passed : Nat}
    {server : Endpoint} (turn : Turns rotation .a [] server passed)
    (series : begun.Series (rotating .ipv4Only rotation .empty) firsts) :
    begun.Series (rotating .ipv4Only (rotation + 1) .empty) (firsts ++ [server]) := by
  have course : Call.Course Idles Call.Plain (.new (.host ".") 2)
      (rotating .ipv4Only rotation .empty)
      (rootCall .ipv4Only [(.a, .unstarted)] [.start .a] (spent 0))
      (rotating .ipv4Only rotation .empty) [] :=
    Call.Course.starts.steps (Call.plain_of_quiet (by simp [Call.new])) rfl rfl
  obtain ⟨datagram, rfl, course⟩ := starts_root [] (by simp) turn course
  obtain ⟨call, isOver, course⟩ :=
    ends_root rotatingServers.1 0 rfl (course .empty) (.inl rfl) ⟨rfl, rfl⟩
  exact series.looksUp course isOver rfl

/-- A lookup that looks for addresses of both families moves `rotation` on by two servers. -/
theorem looksUp_root_dual {begun : Resolver} {firsts : List Endpoint} {rotation : Nat}
    (even : rotation % 2 = 0)
    (series : begun.Series (rotating .ipv4Preferred rotation .empty) firsts) :
    begun.Series (rotating .ipv4Preferred (rotation + 2) .empty) (firsts ++ [rotatingServers.1]) := by
  have course : Call.Course Idles Call.Plain (.new (.host ".") 2)
      (rotating .ipv4Preferred rotation .empty)
      (rootCall .ipv4Preferred [(.a, .unstarted), (.aaaa, .unstarted)] [.start .a, .start .aaaa]
        (spent 0))
      (rotating .ipv4Preferred rotation .empty) [] :=
    Call.Course.starts.steps (Call.plain_of_quiet (by simp [Call.new])) rfl rfl
  obtain ⟨datagram, own, course⟩ :=
    starts_root [] (by simp +decide) (.inl ⟨even, rfl, rfl, rfl, rfl⟩) course
  obtain ⟨later, -, course⟩ := starts_root
    [(.a, .waiting (rootPass rotatingServers.1 1 .a 1))] (by simp +decide)
    (.inr ⟨by omega, .inr ⟨rfl, rfl⟩, rfl, rfl⟩) (course _)
  obtain ⟨call, isOver, course⟩ :=
    ends_root rotatingServers.2 2 rfl (course .empty) (.inr rfl) ⟨rfl, rfl⟩
  rw [← own]
  exact series.looksUp course isOver rfl

/-- With `ipv4Only`, both servers have their turn. -/
theorem firsts_rotate_single :
    (rotating .ipv4Only 0 .empty).Series (rotating .ipv4Only 2 .empty)
        [rotatingServers.1, rotatingServers.2] ∧
      (rotating .ipv4Only 0 .empty).settings.rotate = true ∧
      (∀ i server, [rotatingServers.1, rotatingServers.2][i]? = some server →
        [rotatingServers.1, rotatingServers.2][(0 + 1 * i) % 2]? = some server) ∧
      ([rotatingServers.1, rotatingServers.2].drop 0 |>.take 2).Perm
        [rotatingServers.1, rotatingServers.2] := by
  have series : (rotating .ipv4Only 0 .empty).Series (rotating .ipv4Only 2 .empty)
      [rotatingServers.1, rotatingServers.2] :=
    looksUp_root (.inr ⟨rfl, .inl ⟨rfl, rfl⟩, rfl, rfl⟩)
      (looksUp_root (.inl ⟨rfl, rfl, rfl, rfl, rfl⟩) .starts)
  obtain ⟨turns, all⟩ := firsts_rotate series rfl
  exact ⟨series, rfl, turns, all (by decide) 0 (by decide)⟩

/-- With both families and two `servers`, every lookup asks the same server first. -/
theorem firsts_rotate_dual :
    (rotating .ipv4Preferred 0 .empty).settings.servers = [rotatingServers.1, rotatingServers.2] ∧
      rotatingServers.1 ≠ rotatingServers.2 ∧
      (rotating .ipv4Preferred 0 .empty).Series (rotating .ipv4Preferred 4 .empty)
        [rotatingServers.1, rotatingServers.1] :=
  ⟨rfl, by decide, looksUp_root_dual rfl (looksUp_root_dual rfl .starts)⟩

end Resolver.Series

end NameResolution
