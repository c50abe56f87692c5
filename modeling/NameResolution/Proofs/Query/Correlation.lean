import Mathlib.Data.List.Nodup
import Mathlib.Data.List.Induction
import NameResolution.Proofs.Codec.RoundTrip
import NameResolution.Proofs.Operations
import NameResolution.Query.Registry

/-!
# Responses and the queries they are handed to

Queries are registered, messages arrive from anywhere, and queries are cancelled and given up, in
any order. IDs are used again, so replies are told apart by the serial numbers of the queries.

* `Registry.Answers`: octets that came from a server answer a query.
* `Registry.deliver_of_answers`, `Registry.deliver_of_no_answer`: all that a delivery can do.
* `Registry.Ledger`: a registry with what was ever registered in it and handed over by it.
* `Registry.Ledger.Kept`: what every action keeps.
* `Registry.Ledger.run_correlates`: a query is handed at most one reply, and only its own.
-/

namespace NameResolution

theorem Question.beq_iff {question other : Question} : (question == other) = true ↔
    (question.name == other.name) = true ∧ question.type = other.type ∧
      question.recordClass = other.recordClass := by
  have folds : (question == other) = true ↔ question.fold = other.fold := by
    simp [BEq.beq]
  rw [folds, Question.fold, Question.fold, Question.mk.injEq, Name.beq_iff]

namespace Registry

/-! ## What answers a query -/

/-- The `octets` stand for a response to the question of a query, and they came from its server. -/
structure Answers (source : Endpoint) (octets : Octets) (message : Message)
    (entry : Registration) : Prop where
  decodes : Message.decode octets = .ok message
  response : message.header.isResponse = true
  server : entry.server = source
  id : message.header.id = entry.id
  question : ∃ own, message.questions = [own] ∧ (own.name == entry.question.name) = true ∧
    own.type = entry.question.type ∧ own.recordClass = entry.question.recordClass

/-- What a query is handed for a `message` that answers it: the message, if the `hook` accepts
it. -/
def verdict (hook : Hook) (source : Endpoint) (octets : Octets) (message : Message) : Reply :=
  if hook.verify source message octets then .response message else .rejected

theorem readResponse_eq_ok_iff {octets : Octets} {message : Message} :
    readResponse octets = .ok message ↔
      Message.decode octets = .ok message ∧ message.header.isResponse = true := by
  unfold readResponse Message.checkResponse
  cases decoded : Message.decode octets with
  | error error => simp
  | ok other =>
    by_cases response : other.header.isResponse = true
    · simp [response]
      rintro rfl
      exact response
    · simp [response]
      rintro rfl
      simpa using response

theorem answers_iff {source : Endpoint} {octets : Octets} {message : Message}
    {entry : Registration} : Answers source octets message entry ↔
      readResponse octets = .ok message ∧ (entry.server = source ∧ entry.id = message.header.id) ∧
        message.IsAnswerTo entry.question := by
  rw [readResponse_eq_ok_iff]
  constructor
  · rintro ⟨decodes, response, server, id, own, questions, same⟩
    exact ⟨⟨decodes, response⟩, ⟨server, id.symm⟩, response, own, questions,
      Question.beq_iff.mpr same⟩
  · rintro ⟨⟨decodes, response⟩, ⟨server, id⟩, -, own, questions, same⟩
    exact ⟨decodes, response, server, id.symm, own, questions, Question.beq_iff.mp same⟩

/-! ## Registrations -/

/-- No two queries of the `registry` wait for the same ID from the same server. -/
def Distinct (registry : Registry) : Prop :=
  (registry.outstanding.map fun entry => (entry.server, entry.id)).Nodup

variable {registry : Registry}

theorem mem_of_find? {server : Endpoint} {id : UInt16} {entry : Registration}
    (found : registry.find? server id = some entry) :
    entry ∈ registry.outstanding ∧ entry.server = server ∧ entry.id = id :=
  ⟨List.mem_of_find?_eq_some found, by simpa using List.find?_some found⟩

theorem find?_of_mem {entry : Registration} (distinct : registry.Distinct)
    (mem : entry ∈ registry.outstanding) :
    registry.find? entry.server entry.id = some entry := by
  cases found : registry.find? entry.server entry.id with
  | none =>
    have none := List.find?_eq_none.mp found entry mem
    simp at none
  | some other =>
    obtain ⟨mem', server, id⟩ := mem_of_find? found
    rw [List.inj_on_of_nodup_map distinct mem' mem (by rw [server, id])]

/-- An `id` that `probe` has found is free. -/
theorem probe_free {taken : UInt16 → Bool} {count : Nat} {start id : UInt16}
    (found : probe taken count start = some id) : taken id = false := by
  induction count generalizing start with
  | zero => cases found
  | succ count ih =>
    rw [probe] at found
    split at found
    · exact ih found
    · rename_i free
      obtain rfl := Option.some.inj found
      simpa using free

/-- A query is registered under a new serial number and under an ID that is free for its `server`,
or not at all. -/
theorem add_cases (start : UInt16) (server : Endpoint) (question : Question)
    (registry : Registry) :
    add start server question registry = (.error .tooManyOutstanding, registry) ∨
      ∃ id, registry.find? server id = none ∧
        add start server question registry =
          (.ok ⟨server, id, registry.lastSerial + 1, question⟩,
            { registry with
              outstanding := ⟨server, id, registry.lastSerial + 1, question⟩ :: registry.outstanding
              lastSerial := registry.lastSerial + 1 }) := by
  cases probed : probe (fun id => (registry.find? server id).isSome) idCount start with
  | none => exact .inl (by simp [add, probed])
  | some id => exact .inr ⟨id, by simpa using probe_free probed, by simp [add, probed]⟩

theorem Distinct.cons {entry : Registration} (distinct : registry.Distinct)
    (free : registry.find? entry.server entry.id = none) :
    Distinct { registry with outstanding := entry :: registry.outstanding } := by
  refine List.nodup_cons.mpr ⟨fun taken => ?_, distinct⟩
  obtain ⟨other, mem, same⟩ := List.mem_map.mp taken
  obtain ⟨server, id⟩ := Prod.mk.inj same
  simpa [server, id] using List.find?_eq_none.mp free other mem

theorem Distinct.of_sublist (distinct : registry.Distinct) {next : Registry}
    (fewer : next.outstanding.Sublist registry.outstanding) : next.Distinct :=
  distinct.sublist (fewer.map _)

/-! ## Deliveries -/

/-- A delivery that `answers` a query settles this query and takes its `Registration` away. -/
theorem deliver_of_answers (hook : Hook) {source : Endpoint} {octets : Octets} {message : Message}
    {entry : Registration} (distinct : registry.Distinct) (mem : entry ∈ registry.outstanding)
    (answers : Answers source octets message entry) :
    deliver hook source octets registry =
      (.ok (.settled entry.serial (hook.verify source message octets)),
        { registry.remove entry.server entry.id with
          replies := (entry.serial, verdict hook source octets message) :: registry.replies }) := by
  obtain ⟨read, ⟨rfl, id⟩, answer⟩ := answers_iff.mp answers
  have found := find?_of_mem distinct mem
  rw [id] at found
  simp [deliver, read, found, answer, verdict, id]

/-- A delivery that answers no query changes nothing. -/
theorem deliver_of_no_answer {hook : Hook} {source : Endpoint} {octets : Octets}
    (none : ¬ ∃ message, ∃ entry ∈ registry.outstanding, Answers source octets message entry) :
    (deliver hook source octets registry).2 = registry := by
  cases read : readResponse octets with
  | error failure => simp [deliver, read]
  | ok message =>
    cases found : registry.find? source message.header.id with
    | none => simp [deliver, read, found]
    | some entry =>
      obtain ⟨mem, key⟩ := mem_of_find? found
      have other : ¬message.IsAnswerTo entry.question := fun answer =>
        none ⟨message, entry, mem, answers_iff.mpr ⟨read, key, answer⟩⟩
      simp [deliver, read, found, other]

/-- What a `registry` makes of a response that has come in `octets`. -/
def take (registry : Registry) (hook : Hook) (source : Endpoint) (octets : Octets)
    (message : Message) : Registry :=
  (registry.find? source message.header.id).elim registry fun entry =>
    if message.IsAnswerTo entry.question then
      { registry.remove source message.header.id with
        replies := (entry.serial, verdict hook source octets message) :: registry.replies }
    else registry

theorem deliver_of_read {hook : Hook} {source : Endpoint} {octets : Octets} {message : Message}
    (read : readResponse octets = .ok message) :
    (deliver hook source octets registry).2 = registry.take hook source octets message := by
  cases found : registry.find? source message.header.id with
  | none => simp [deliver, take, read, found]
  | some entry =>
    by_cases answer : message.IsAnswerTo entry.question <;>
      simp [deliver, take, read, found, answer, verdict]

/-- A `Registry` after its first `Registration`, with what is left of this. -/
def first (outstanding : List Registration) (replies : List (Nat × Reply)) : Registry :=
  { empty with outstanding := outstanding, replies := replies, lastSerial := 1 }

@[simp] theorem outstanding_first (outstanding : List Registration)
    (replies : List (Nat × Reply)) : (first outstanding replies).outstanding = outstanding := rfl

@[simp] theorem replies_first (outstanding : List Registration) (replies : List (Nat × Reply)) :
    (first outstanding replies).replies = replies := rfl

/-! ## Ledgers -/

/-- What can happen to a `Registry`. -/
inductive Action
  | register (start : UInt16) (server : Endpoint) (question : Question)
  | deliver (hook : Hook) (source : Endpoint) (octets : Octets)
  | remove (server : Endpoint) (id : UInt16)
  | release (server : Endpoint) (id : UInt16) (serial : Nat)
  | clear

/-- A `Reply` that was handed to a query, and the delivery that did this. -/
structure Handing where
  serial : Nat
  reply : Reply
  hook : Hook
  source : Endpoint
  octets : Octets

/-- The delivery of the `handing` answers the query, and the reply is what the query is handed for
this. -/
def Handing.Suits (handing : Handing) (entry : Registration) : Prop :=
  entry.serial = handing.serial ∧ ∃ message,
    Answers handing.source handing.octets message entry ∧
      handing.reply = verdict handing.hook handing.source handing.octets message

/-- The replies that have come into the `registry` since an earlier state, `before`. -/
def repliesSince (registry before : Registry) : List (Nat × Reply) :=
  registry.replies.take (registry.replies.length - before.replies.length)

@[simp] theorem repliesSince_self (registry : Registry) : registry.repliesSince registry = [] := by
  simp [repliesSince]

/-- A `Registry` with all queries that were registered and all replies that were handed over. -/
structure Ledger where
  registry : Registry
  registered : List Registration
  handed : List Handing

namespace Ledger

/-- A `Ledger` of which nothing has happened. -/
def empty : Ledger := ⟨.empty, [], []⟩

/-- The `ledger` after an `Action`. -/
def after (ledger : Ledger) : Action → Ledger
  | .register start server question =>
    match add start server question ledger.registry with
    | (.ok entry, registry) => ⟨registry, entry :: ledger.registered, ledger.handed⟩
    | (.error _, registry) => { ledger with registry := registry }
  | .deliver hook source octets =>
    let registry := (Registry.deliver hook source octets ledger.registry).2
    let handed := (registry.repliesSince ledger.registry).map fun (serial, reply) =>
      Handing.mk serial reply hook source octets
    ⟨registry, ledger.registered, handed ++ ledger.handed⟩
  | .remove server id => { ledger with registry := ledger.registry.remove server id }
  | .release server id serial =>
    { ledger with registry := ledger.registry.release server id serial }
  | .clear => { ledger with registry := ledger.registry.clear }

/-- The `Ledger` after some `actions`, from nothing on. -/
def run (actions : List Action) : Ledger := actions.foldl after empty

/-- What every `Action` on a `ledger` keeps. -/
structure Kept (ledger : Ledger) : Prop where
  distinct : ledger.registry.Distinct
  registered : ∀ entry ∈ ledger.registry.outstanding, entry ∈ ledger.registered
  serials : (ledger.registered.map (·.serial)).Nodup
  counted : ∀ entry ∈ ledger.registered, entry.serial ≤ ledger.registry.lastSerial
  once : (ledger.handed.map (·.serial)).Nodup
  settled : ∀ handing ∈ ledger.handed, ∀ entry ∈ ledger.registry.outstanding,
    entry.serial ≠ handing.serial
  suits : ∀ handing ∈ ledger.handed, ∃ entry ∈ ledger.registered, handing.Suits entry
  mailbox : ∀ reply ∈ ledger.registry.replies, ∃ handing ∈ ledger.handed,
    (handing.serial, handing.reply) = reply

variable {ledger : Ledger}

theorem kept_empty : Kept empty := by
  constructor <;> simp [empty, Registry.empty, Distinct]

/-- Queries can go, and `replies` be dropped, at any time. -/
theorem Kept.filter (kept : ledger.Kept) (keep : Registration → Bool)
    (hold : Nat × Reply → Bool) :
    Kept { ledger with registry := { ledger.registry with
      outstanding := ledger.registry.outstanding.filter keep
      replies := ledger.registry.replies.filter hold } } where
  distinct := kept.distinct.of_sublist List.filter_sublist
  registered entry mem := kept.registered entry (List.mem_of_mem_filter mem)
  serials := kept.serials
  counted := kept.counted
  once := kept.once
  settled handing mem entry left := kept.settled handing mem entry (List.mem_of_mem_filter left)
  suits := kept.suits
  mailbox reply mem := kept.mailbox reply (List.mem_of_mem_filter mem)

theorem Kept.register (kept : ledger.Kept) {server : Endpoint} {id : UInt16}
    (free : ledger.registry.find? server id = none) (question : Question) :
    let entry : Registration := ⟨server, id, ledger.registry.lastSerial + 1, question⟩
    Kept ⟨{ ledger.registry with
        outstanding := entry :: ledger.registry.outstanding
        lastSerial := entry.serial },
      entry :: ledger.registered, ledger.handed⟩ := by
  intro entry
  -- Serial numbers are counted upwards, so the new one is above all that were given before.
  have later : ∀ other ∈ ledger.registered, other.serial < entry.serial := fun other mem =>
    Nat.lt_succ_of_le (kept.counted other mem)
  constructor
  case distinct => exact kept.distinct.cons free
  case registered =>
    exact List.forall_mem_cons.mpr ⟨List.mem_cons_self, fun other mem =>
      List.mem_cons_of_mem _ (kept.registered other mem)⟩
  case serials =>
    refine List.nodup_cons.mpr ⟨fun taken => ?_, kept.serials⟩
    obtain ⟨other, mem, same⟩ := List.mem_map.mp taken
    exact Nat.ne_of_lt (later other mem) same
  case counted =>
    exact List.forall_mem_cons.mpr ⟨Nat.le_refl _, fun other mem =>
      Nat.le_of_lt (later other mem)⟩
  case once => exact kept.once
  case settled =>
    intro handing mem
    refine List.forall_mem_cons.mpr ⟨?_, kept.settled handing mem⟩
    obtain ⟨other, mem', same, -⟩ := kept.suits handing mem
    rw [← same]
    exact Nat.ne_of_gt (later other mem')
  case suits =>
    intro handing mem
    obtain ⟨other, mem', suits⟩ := kept.suits handing mem
    exact ⟨other, List.mem_cons_of_mem _ mem', suits⟩
  case mailbox => exact kept.mailbox

theorem Kept.hand (kept : ledger.Kept) {entry : Registration} {handing : Handing}
    (waits : entry ∈ ledger.registry.outstanding) (suits : handing.Suits entry) :
    Kept ⟨{ ledger.registry.remove entry.server entry.id with
        replies := (handing.serial, handing.reply) :: ledger.registry.replies },
      ledger.registered, handing :: ledger.handed⟩ := by
  have own := suits.1
  -- The registration that is taken away is the only one with its serial number.
  have gone : ∀ other ∈ (ledger.registry.remove entry.server entry.id).outstanding,
      other ∈ ledger.registry.outstanding ∧ other.serial ≠ handing.serial := by
    intro other left
    obtain ⟨mem, key⟩ := List.mem_filter.mp left
    refine ⟨mem, fun same => ?_⟩
    have eq : other = entry := List.inj_on_of_nodup_map kept.serials (kept.registered other mem)
      (kept.registered entry waits) (same.trans own.symm)
    simp [eq] at key
  constructor
  case distinct => exact kept.distinct.of_sublist List.filter_sublist
  case registered => exact fun other left => kept.registered other (gone other left).1
  case serials => exact kept.serials
  case counted => exact kept.counted
  case once =>
    refine List.nodup_cons.mpr ⟨fun taken => ?_, kept.once⟩
    obtain ⟨other, mem, same⟩ := List.mem_map.mp taken
    exact kept.settled other mem entry waits (own.trans same.symm)
  case settled =>
    exact List.forall_mem_cons.mpr ⟨fun other left => (gone other left).2,
      fun other mem left mem' => kept.settled other mem left (gone left mem').1⟩
  case suits =>
    exact List.forall_mem_cons.mpr ⟨⟨entry, kept.registered entry waits, suits⟩, kept.suits⟩
  case mailbox =>
    refine List.forall_mem_cons.mpr ⟨⟨handing, List.mem_cons_self, rfl⟩, fun reply mem => ?_⟩
    obtain ⟨other, mem', same⟩ := kept.mailbox reply mem
    exact ⟨other, List.mem_cons_of_mem _ mem', same⟩

theorem Kept.after (kept : ledger.Kept) (action : Action) : (ledger.after action).Kept := by
  -- One case for each action: a registration and a delivery add to what is known, the others take
  -- away.
  cases action with
  | register start server question =>
    rcases add_cases start server question ledger.registry with refused | ⟨id, free, added⟩
    · simpa [Ledger.after, refused] using kept
    · simpa [Ledger.after, added] using kept.register free question
  | deliver hook source octets =>
    by_cases answered : ∃ message, ∃ entry ∈ ledger.registry.outstanding,
        Answers source octets message entry
    · obtain ⟨message, entry, waits, answers⟩ := answered
      have suits : Handing.Suits ⟨entry.serial, verdict hook source octets message, hook, source,
        octets⟩ entry := ⟨rfl, message, answers, rfl⟩
      have handed := deliver_of_answers hook kept.distinct waits answers
      simpa [Ledger.after, handed, repliesSince] using kept.hand waits suits
    · simpa [Ledger.after, deliver_of_no_answer answered] using kept
  | remove server id =>
    have left := kept.filter (fun entry => ¬(entry.server = server ∧ entry.id = id)) fun _ => true
    rwa [List.filter_true] at left
  | release server id serial => exact kept.filter _ _
  | clear =>
    have left := kept.filter (fun _ => false) fun _ => true
    rwa [List.filter_true, List.filter_false] at left

theorem kept_run (actions : List Action) : (run actions).Kept := by
  induction actions using List.reverseRecOn with
  | nil => exact kept_empty
  | append_singleton actions action ih =>
    rw [run, List.foldl_concat]
    exact ih.after action

/-- Responses are handed over exactly once and only to the right query. In every `run` all
`registered` queries are told apart by their serial numbers, and no two replies are `handed` to the
same query. A query is handed a `message` only if this `Answers` it, which means that it came from
its server, carries its ID and answers its question, and if the `hook` has accepted it. A query
finds no reply but the one it was handed. A delivery that answers no query that waits leaves the
`registry` as it is. -/
theorem run_correlates (actions : List Action) :
    let ledger := run actions
    (ledger.registered.map (·.serial)).Nodup ∧ (ledger.handed.map (·.serial)).Nodup ∧
      (∀ handing ∈ ledger.handed, ∀ message, handing.reply = .response message →
        ∃ entry ∈ ledger.registered, entry.serial = handing.serial ∧
          Answers handing.source handing.octets message entry ∧
          handing.hook.verify handing.source message handing.octets = true) ∧
      (∀ serial reply, ledger.registry.fate serial = .answered reply →
        ∃ handing ∈ ledger.handed, handing.serial = serial ∧ handing.reply = reply) ∧
      ∀ hook source octets, (¬ ∃ message, ∃ entry ∈ ledger.registry.outstanding,
        Answers source octets message entry) →
          (Registry.deliver hook source octets ledger.registry).2 = ledger.registry := by
  intro ledger
  have kept : ledger.Kept := kept_run actions
  refine ⟨kept.serials, kept.once, fun handing mem message response => ?_,
    fun serial reply answered => ?_, fun hook source octets none => deliver_of_no_answer none⟩
  · -- The reply is the verdict of the hook, which is a response only if it was accepted.
    obtain ⟨entry, mem', own, other, answers, reply⟩ := kept.suits handing mem
    rw [response, verdict] at reply
    split at reply
    · rename_i accepted
      obtain rfl := Reply.response.inj reply
      exact ⟨entry, mem', own, answers, accepted⟩
    · cases reply
  · have found : ledger.registry.replies.lookup serial = some reply := by
      unfold fate at answered
      split at answered
      · rename_i found
        rw [found, Fate.answered.inj answered]
      · split at answered <;> cases answered
    obtain ⟨front, back, replies, -⟩ := List.lookup_eq_some_iff.mp found
    obtain ⟨handing, mem, same⟩ := kept.mailbox (serial, reply) (by simp [replies])
    obtain ⟨own, same⟩ := Prod.mk.inj same
    exact ⟨handing, mem, own, same⟩

/-- The `Endpoint` of the server of a query, and that of a stranger. -/
def sampleServers : Endpoint × Endpoint :=
  (.v4 (.ofOctets 192 0 2 1) 53, .v4 (.ofOctets 192 0 2 2) 53)

/-- A query is registered; a message in `octets` comes from a stranger, from the server, and once
more. -/
def sampleRun (octets : Octets) : List Action :=
  [.register 7 sampleServers.1 (.internet .root .a), .deliver .default sampleServers.2 octets,
    .deliver .default sampleServers.1 octets, .deliver .default sampleServers.1 octets]

/-- A `response` that has been encoded is handed over once, although it comes three times. -/
theorem run_correlates_sample : ∃ octets handing, (run (sampleRun octets)).handed = [handing] ∧
    ∃ message, handing.reply = .response message ∧
      ∃ entry ∈ (run (sampleRun octets)).registered, entry.serial = handing.serial ∧
        Answers handing.source handing.octets message entry ∧
        handing.hook.verify handing.source message handing.octets = true := by
  let entry : Registration := ⟨sampleServers.1, 7, 1, .internet .root .a⟩
  have encodable : (Message.query entry.question 7 true).answerFor.Encodable := by
    refine ⟨⟨by decide, ?_⟩, ⟨by decide, ?_⟩, ⟨by decide, ?_⟩, ⟨by decide, ?_⟩⟩ <;>
      simp [Message.answerFor, Message.query, Message.ofHeader, entry, Question.internet, Name.root]
  obtain ⟨octets, message, -, decoded, same⟩ := Message.encode_spec encodable
  have folds := of_decide_eq_true same
  have header := congrArg Message.header folds
  have id : message.header.id = 7 := congrArg Header.id header
  have response : message.header.isResponse = true :=
    (congrArg Header.isResponse header).trans (by decide)
  have read : readResponse octets = .ok message := readResponse_eq_ok_iff.mpr ⟨decoded, response⟩
  have answer : message.IsAnswerTo entry.question := by
    obtain ⟨own, questions, same⟩ := List.map_eq_singleton_iff.mp (congrArg Message.questions folds)
    exact ⟨response, own, questions, decide_eq_true same⟩
  have registers : add 7 sampleServers.1 (.internet .root .a) .empty =
      (.ok entry, first [entry] []) := rfl
  have strange : deliver .default sampleServers.2 octets (first [entry] []) =
      (.error .unknownQuery, first [entry] []) := by
    simp [deliver, read, find?, first, entry, sampleServers, Ipv4.ofOctets]
  have hands : deliver .default sampleServers.1 octets (first [entry] []) =
      (.ok (.settled 1 true), first [] [(1, .response message)]) := by
    simp [deliver, read, find?, first, id, answer, entry, remove, Hook.default]
  have late : deliver .default sampleServers.1 octets (first [] [(1, .response message)]) =
      (.error .unknownQuery, first [] [(1, .response message)]) := by
    simp [deliver, read, find?, first]
  have handed : (run (sampleRun octets)).handed =
      [⟨1, .response message, .default, sampleServers.1, octets⟩] := by
    simp [sampleRun, run, after, empty, registers, strange, hands, late, repliesSince]
  exact ⟨octets, _, handed, message, rfl,
    (run_correlates (sampleRun octets)).2.2.1 _ (handed ▸ List.mem_cons_self) message rfl⟩

end Ledger

end Registry

end NameResolution
