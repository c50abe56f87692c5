import NameResolution.Proofs.Cache.Classes
import NameResolution.Proofs.Resolution.Outcomes
import NameResolution.Resolution.Pass

/-!
# Responses with records of other classes

* `Outcome.classify_ofClass`: records of other classes do not change what a response means, if they
  stand where they are not read and the answer section has none.
* `Pass.conclude_ofClass`: then a pass goes on as if they were not there.
* `Pass.ignores_foreign_records`: what becomes of such records altogether.
-/

namespace NameResolution

variable {recordClass : RecordClass} {message : Message}

namespace Outcome

variable {sets : List RecordSet} {keep : RecordSet → Bool}

/-- Sets that `keep` leaves out refer to no servers if they are neither about zones nor servers. -/
theorem delegated?_filter
    (others : ∀ set ∈ sets, keep set = true ∨ set.type ≠ .soa ∧ set.type ≠ .ns) (name : Name) :
    delegated? (sets.filter keep) name = delegated? sets name := by
  have opposed : (sets.filter keep).any (·.type = .soa) = sets.any (·.type = .soa) := by
    rw [Bool.eq_iff_iff]
    simp only [List.any_eq_true, List.mem_filter, decide_eq_true_eq]
    exact exists_congr fun set => ⟨fun ⟨⟨member, _⟩, soa⟩ => ⟨member, soa⟩, fun ⟨member, soa⟩ =>
      ⟨⟨member, (others set member).resolve_right fun other => other.1 soa⟩, soa⟩⟩
  have around : (sets.filter keep).filter
        (fun set => set.type = .ns ∧ name.IsSubdomainOf set.owner) =
      sets.filter fun set => set.type = .ns ∧ name.IsSubdomainOf set.owner :=
    Cache.filter_kept fun set member =>
      (others set member).imp_right fun other servers => other.2 servers.1
  unfold delegated?
  rw [opposed, around]

/-- Sets that `keep` leaves out are no glue if they hold no addresses. -/
theorem glueFor_filter (others : ∀ set ∈ sets, keep set = true ∨ ¬set.type.IsAddress)
    (servers : RecordSet) : glueFor servers (sets.filter keep) = glueFor servers sets := by
  exact Cache.filter_kept fun set member =>
    (others set member).imp_right fun other gives => other gives.1

/-- If the records of other classes stand where they are not read, and none of them is in the
`answer` section, then a response means the same without them. -/
theorem classify_ofClass (isolated : message.Isolated recordClass)
    (pure : ∀ record ∈ message.answer, record.recordClass = recordClass) (name : Name)
    (type : RecordType) :
    classify (message.ofClass recordClass) name type = classify message name type := by
  -- What is read of the message: the answer section, the servers referred to, and their glue.
  have answer : (message.ofClass recordClass).sets .answer = message.sets .answer := by
    have own : ∀ set ∈ message.sets .answer, set.recordClass = recordClass :=
      RecordSet.forall_class_group (P := (· = recordClass)) pure
    rw [Message.sets_ofClass]
    exact List.filter_eq_self.mpr fun set member => decide_eq_true (own set member)
  have referred (reached : Name) :
      delegated? ((message.ofClass recordClass).sets .authority) reached =
        delegated? (message.sets .authority) reached := by
    rw [Message.sets_ofClass]
    exact delegated?_filter (fun set member =>
      (isolated.authority_sets set member).imp_left decide_eq_true) reached
  have glue (servers : RecordSet) :
      glueFor servers ((message.ofClass recordClass).sets .additional) =
        glueFor servers (message.sets .additional) := by
    rw [Message.sets_ofClass]
    exact glueFor_filter (fun set member =>
      (isolated.additional_sets set member).imp_left decide_eq_true) servers
  unfold classify
  simp only [answer, referred, glue]
  rfl

end Outcome

namespace Pass

/-- A pass goes on in the same way, and leaves the same session behind, whether or not a response
has records of other classes, if these stand where they are not read and none of them is in the
`answer` section. -/
theorem conclude_ofClass (isolated : message.Isolated recordClass)
    (asked : ∀ question ∈ message.questions.head?, question.recordClass = recordClass)
    (pure : ∀ record ∈ message.answer, record.recordClass = recordClass) (waiting : Asked) :
    conclude waiting (.ok (message.ofClass recordClass)) = conclude waiting (.ok message) := by
  have learns : Session.learn (message.ofClass recordClass) = Session.learn message := by
    unfold Session.learn
    rw [show Cache.addMessage (message.ofClass recordClass) = Cache.addMessage message from
      funext (Cache.addMessage_ofClass isolated asked)]
  have reacts : react waiting (message.ofClass recordClass) = react waiting message := by
    unfold react
    simp only [Outcome.classify_ofClass isolated pure]
    rfl
  have same : (message.ofClass recordClass).rcode = message.rcode := rfl
  unfold conclude Inquiry.evaluate Inquiry.usable
  by_cases fine : message.rcode = .noError ∨ message.rcode = .nxDomain
  · simp [same, fine, learns, reacts]
  · simp [same, fine]

/-- Records of other classes are ignored where classes are told apart.

In the answer section of a response to a question of a class, such records make no difference to
`addMessage` in any cache. Neither do they in the other sections, unless they are SOA or NS records
of the authority section or addresses of the additional section. So no run of a cache changes if the
responses lose them (`ofClass`), and all record sets that lookups find in it are of the class. What
a response means to `classify` and how a pass goes on with it by `conclude` is the same without them
if there are none in the answer section either. -/
theorem ignores_foreign_records (recordClass : RecordClass) :
    (∀ message : Message, message.Isolated recordClass →
      (∀ question ∈ message.questions.head?, question.recordClass = recordClass) →
      (∀ now, Cache.addMessage (message.ofClass recordClass) now = Cache.addMessage message now) ∧
      ((∀ record ∈ message.answer, record.recordClass = recordClass) →
        (∀ name type, Outcome.classify (message.ofClass recordClass) name type =
          Outcome.classify message name type) ∧
        ∀ waiting, conclude waiting (.ok (message.ofClass recordClass)) =
          conclude waiting (.ok message))) ∧
    ∀ settings actions, (∀ action ∈ actions, Cache.Action.IsOfClass recordClass action) →
      let scene := (Cache.Scene.start settings).run actions
      scene = (Cache.Scene.start settings).run (actions.map (·.ofClass recordClass)) ∧
      ∀ name type least found, (Cache.lookup name type least scene.now scene.cache).1 = .ok found →
        ∀ set ∈ found.sets, set.recordClass = recordClass := by
  refine ⟨fun message isolated asked => ⟨Cache.addMessage_ofClass isolated asked, fun pure =>
    ⟨Outcome.classify_ofClass isolated pure, conclude_ofClass isolated asked pure⟩⟩,
    fun settings actions each => ?_⟩
  have shape : (Cache.Scene.start settings).cache.WellFormed := Cache.wellFormed_empty settings
  have own : (Cache.Scene.start settings).cache.OfClass recordClass :=
    fun _ _ _ _ found => nomatch found
  have kept := Cache.Scene.ofClass_run shape own each
  exact ⟨Cache.Scene.run_ofClass each, fun name type least found result =>
    kept.lookup (Cache.Scene.wellFormed_run shape actions) result⟩

/-- The `RecordClass` that most often stands beside the Internet class. -/
def chaos : RecordClass := ⟨3⟩

/-- A response with an address, an alias of the class `chaos` in front of it, and some text. -/
def mixed : Message where
  header := Header.empty.setResponse true
  questions := [.internet (.top 119) .a]
  answer := [⟨.top 119, chaos, 60, .cname (.top 118)⟩,
    ⟨.top 119, .internet, 60, .a (.ofOctets 192 0 2 1)⟩]
  authority := []
  additional := [⟨.top 118, chaos, 60, .raw ⟨16⟩ #[0]⟩]

/-- The `cache` ignores what is of another class. -/
theorem ignores_foreign_records_mixed : mixed.ofClass .internet ≠ mixed ∧
    Cache.addMessage (mixed.ofClass .internet) .zero = Cache.addMessage mixed .zero ∧
    let scene := (Cache.Scene.start .default).run [.addMessage mixed]
    ∃ set, (Cache.lookup (.top 119) .a .normal scene.now scene.cache).1 = .ok (.successful [set]) ∧
      set.recordClass = .internet := by
  have isolated : mixed.Isolated .internet := ⟨by simp [mixed], by decide⟩
  have asked : ∀ question ∈ mixed.questions.head?, question.recordClass = .internet := by
    simp [mixed, Question.internet]
  obtain ⟨responses, runs⟩ := ignores_foreign_records .internet
  obtain ⟨-, finds⟩ := runs .default [.addMessage mixed]
    (List.forall_mem_singleton.mpr ⟨isolated, asked⟩)
  exact ⟨by decide, (responses mixed isolated asked).1 .zero, _, rfl,
    finds (.top 119) .a .normal _ rfl _ List.mem_cons_self⟩

/-- A response that refers to name servers of the class `chaos`. -/
def strangeReferral : Message where
  header := Header.empty.setResponse true
  questions := [.internet (.top 119) .a]
  answer := []
  authority := [⟨.top 119, chaos, 60, .ns (.top 110)⟩]
  additional := []

/-- The `cache` and the pass follow such a `referral`. -/
theorem ignores_foreign_records_referral :
    let servers : RecordSet := ⟨.top 119, chaos, 60, .ns (.top 110), []⟩
    let scene := (Cache.Scene.start .default).run [.addMessage strangeReferral]
    (Cache.lookup (.top 119) .a .normal scene.now scene.cache).1 = .ok (.delegation servers) ∧
      servers.recordClass ≠ .internet ∧
      Outcome.classify strangeReferral (.top 119) .a = .referral ⟨servers, []⟩ ∧
      Outcome.classify (strangeReferral.ofClass .internet) (.top 119) .a = .noData :=
  ⟨rfl, by decide, by decide, by decide⟩

end Pass

end NameResolution
