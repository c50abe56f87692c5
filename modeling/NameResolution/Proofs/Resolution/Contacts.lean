import NameResolution.Proofs.Resolution.Finality
import NameResolution.Proofs.Resolution.Horizons

/-!
# Whom a resolver asks

A resolver asks the servers that are configured, and servers that referrals tell about. Right after
a referral, only addresses of the families are used that are looked up. The delegations remember all
addresses that came with the referral, and they are used later on whatever their family.

* `Horizon.withstands`: a resolver stays within its horizon as long as this has all that it hears.
* `Pass.redirect_prefers`: a pass that follows a referral asks addresses of the families that are
  looked up.
* `System.Within`: a system with resolver and passes within a horizon. `System.within_start`: every
  system begins like this. `System.Within.later`: it stays like this.
* `System.asks_within_reach`: a query goes to a configured server, to an address of such a family, or
  to one that a message has given for a name server.
-/

namespace NameResolution

/-- A reply that is handed over was there before, or the `message` that is delivered is read. -/
theorem Registry.mem_replies_deliver {hook : Hook} {source : Endpoint} {octets : Octets}
    {registry : Registry} {serial : Nat} {message : Message}
    (member : (serial, Reply.response message) ∈ (deliver hook source octets registry).2.replies) :
    (serial, Reply.response message) ∈ registry.replies ∨ Message.decode octets = .ok message := by
  cases read : readResponse octets with
  | error failure => exact .inl (by simpa [deliver, read] using member)
  | ok given =>
    rw [deliver_of_read read, take] at member
    cases found : registry.find? source given.header.id with
    | none => exact .inl (by simpa [found] using member)
    | some entry =>
      rw [found, Option.elim_some] at member
      split at member
      · obtain same | before := List.mem_cons.mp member
        · have same : Reply.response message = verdict hook source octets given :=
            (Prod.mk.inj same).2
          unfold verdict at same
          split at same
          · obtain rfl := Reply.response.inj same
            exact .inr (readResponse_eq_ok_iff.mp read).1
          · cases same
        · exact .inl before
      · exact .inl member

/-- A resolver stays within a `horizon` that has the messages that arrive. -/
theorem Horizon.withstands {horizon : Horizon} {happening : Happening}
    (hears : ∀ source octets message, happening = .arrival source octets →
      Message.decode octets = .ok message → horizon.Heard message) :
    horizon.conduct.Withstands happening := by
  rintro passes resolver ⟨bounds, confines⟩
  refine ⟨?_, confines⟩
  cases happening with
  | arrival source octets =>
    refine { bounds with replies := fun serial message member => ?_ }
    obtain before | decoded := Registry.mem_replies_deliver member
    · exact bounds.replies serial message before
    · exact hears source octets message rfl decoded
  | sending => exact { bounds with outbox := List.forall_mem_nil _ }
  | passing span => exact { bounds with }
  | hooking hook => exact { bounds with }
  | closing =>
    show horizon.Bounds resolver.close
    unfold Resolver.close
    split
    · exact bounds
    · exact { bounds with
        cache := Cache.tidy_clear _
        delegations := Cache.stores_clear _ }
  | request | step | event | abandon => exact bounds

/-- A `Pass` that follows a `referral` asks addresses of the families that are looked up. -/
theorem Pass.redirect_prefers {inquiry : Inquiry} {referral : Referral} {glue : List RecordSet}
    (uniform : ∀ set ∈ glue, set.Uniform) {before after : Session} {next : Asked}
    (ran : redirect inquiry referral glue before = (.ok (.asked next), after)) :
    ∀ server ∈ next.query.server :: next.inquiry.rota.servers,
      server.address.family ∈ before.resolver.settings.preference.types := by
  obtain ⟨settings, _, got, ran⟩ := Op.bind_eq_ok.mp ran
  cases got
  obtain ⟨_, _, -, ran⟩ := Op.bind_eq_ok.mp ran
  dsimp only at ran
  split at ran
  · cases ran
  obtain ⟨result, _, asks, rest⟩ := Op.bind_eq_ok.mp ran
  cases result with
  | error failure => cases rest
  | ok asked =>
    cases rest
    obtain ⟨now, later⟩ := Inquiry.server_of_askNext asks
    rw [later]
    refine fun server asked => ?_
    have member := List.cons_subset.mpr ⟨now, List.Subset.refl _⟩ asked
    -- An address of the rota is one of a glue set, which was kept for its type.
    obtain ⟨address, among, rfl⟩ := List.mem_map.mp member
    obtain ⟨set, own, datum, part, gives⟩ := RecordSet.mem_addresses.mp among
    obtain ⟨given, looked⟩ := List.mem_filter.mp own
    rw [Endpoint.address_ofAddress, (uniform set given).family part gives]
    simpa using looked

namespace System

/-- The resolver of the `system` and all passes of its calls are within the `horizon`. -/
def Within (horizon : Horizon) (system : System) : Prop :=
  horizon.conduct.Holds system.passes system.resolver

/-- The `message` is read from octets that arrive. -/
def Arrived (happenings : List Happening) (message : Message) : Prop :=
  ∃ source octets, Happening.arrival source octets ∈ happenings ∧
    Message.decode octets = .ok message

/-- The `horizon` has every message that arrives. -/
def HeardBy (horizon : Horizon) (happenings : List Happening) : Prop :=
  ∀ message, Arrived happenings message → horizon.Heard message

/-- A system begins within the horizon of its `settings` and `hosts`, whatever is `Heard` later. -/
theorem within_start (settings : Settings) (hosts : HostTable) (hook : Hook)
    (limits : CacheSettings) (starts : Nat → UInt16) (Heard : Message → Prop) :
    (start settings hosts hook limits starts).Within ⟨settings, hosts, Heard⟩ :=
  ⟨Horizon.bounds_new settings hosts hook limits starts Heard, List.forall_mem_nil _⟩

variable {horizon : Horizon} {system : System} {happenings : List Happening}

theorem HeardBy.withstands (heard : HeardBy horizon happenings) :
    ∀ happening ∈ happenings, horizon.conduct.Withstands happening :=
  fun _ member => Horizon.withstands fun source octets message is decoded =>
    heard message ⟨source, octets, is ▸ member, decoded⟩

/-- A `system` stays within a `horizon` that has all that is `heard`. -/
theorem Within.later (within : system.Within horizon) (heard : HeardBy horizon happenings) :
    (later happenings system).Within horizon :=
  holds_afterwards heard.withstands within

/-- Whom a resolver asks.

Whatever happens to a `system` within a `horizon` that has what arrives, each query in its outbox
goes to a configured server, to an address of the families that are looked up, or to an address that
a message has given for a name server (`Message.RefersTo`). The latter are remembered whatever their
family; but a pass that follows a referral with some `glue` goes on with addresses of the families
that are looked up alone. Every system is at its `start` within the horizon of its `settings` and
`hosts`, wherever the searches for IDs start. -/
theorem asks_within_reach (within : system.Within horizon) (heard : HeardBy horizon happenings) :
    (∀ datagram ∈ (later happenings system).resolver.outbox,
      datagram.server ∈ horizon.settings.servers ∨
        datagram.server.address.family ∈ horizon.settings.preference.types ∨
        ∃ message, horizon.Heard message ∧ message.RefersTo datagram.server.address) ∧
    (∀ (inquiry : Inquiry) (referral : Referral) (glue : List RecordSet) (before after : Session)
      (next : Asked), (∀ set ∈ glue, set.Uniform) →
      Pass.redirect inquiry referral glue before = (.ok (.asked next), after) →
      ∀ server ∈ next.query.server :: next.inquiry.rota.servers,
        server.address.family ∈ before.resolver.settings.preference.types) ∧
    ∀ settings hosts hook limits starts Heard,
      (start settings hosts hook limits starts).Within ⟨settings, hosts, Heard⟩ :=
  ⟨(within.later heard).1.outbox, fun _ _ _ _ _ _ uniform ran => Pass.redirect_prefers uniform ran,
    within_start⟩

/-! ### An address of the other family -/

/-- An address of the family that `strictSettings` leave out. -/
def otherAddress : Ipv6 := ⟨#v[0x2001, 0xDB8, 0, 0, 0, 0, 0, 0x53]⟩

/-- The response to the query for addresses of `a.`, which says that `b.` serves the zone `a.`, and
gives such an address for it. -/
def gluedReferral : Message :=
  { referral with additional := [⟨.top 98, .internet, 3600, .aaaa otherAddress⟩] }

def gluedOctets : Octets :=
  #[0, 0, 129, 128, 0, 1, 0, 0, 0, 1, 0, 1, 1, 97, 0, 0, 1, 0, 1,
    192, 12, 0, 2, 0, 1, 0, 0, 14, 16, 0, 3, 1, 98, 0,
    192, 31, 0, 28, 0, 1, 0, 0, 14, 16, 0, 16, 32, 1, 13, 184, 0, 0, 0, 0, 0, 0, 0, 0, 0, 0, 0, 83]

theorem decode_gluedReferral : Message.decode gluedOctets = .ok gluedReferral := by
  have zone : Spells gluedOctets 12 (Name.top 97).labels 15 := .label (by decide) (.root (by decide))
  have server : Spells gluedOctets 31 (Name.top 98).labels 34 :=
    .label (by decide) (.root (by decide))
  have again : Spells gluedOctets 19 (Name.top 97).labels 21 :=
    .pointer (by decide) (by decide) (by decide) zone
  have owner : Spells gluedOctets 34 (Name.top 98).labels 36 :=
    .pointer (by decide) (by decide) (by decide) server
  have question : Question.decoder.Reads (· = .internet (.top 97) .a) gluedOctets 12 19 :=
    (Name.reads_of_spells zone (by decide)).bind fun _ own => ⟨_, rfl, by rw [own]; rfl⟩
  have names : (RecordData.decoder .ns 3).Reads (· = .ns (.top 98)) gluedOctets 31 34 :=
    (Name.reads_of_spells server (by decide)).map fun _ own => congrArg RecordData.ns own
  have delegation : Record.decoder.Reads (· = ⟨.top 97, .internet, 3600, .ns (.top 98)⟩)
      gluedOctets 19 34 :=
    Record.reads (Name.reads_of_spells again (by decide)) ⟨_, rfl, rfl⟩ ⟨_, rfl, rfl⟩
      ⟨_, rfl, rfl⟩ ⟨3, rfl, rfl⟩ names (by decide) rfl
  have glue : Record.decoder.Reads (· = ⟨.top 98, .internet, 3600, .aaaa otherAddress⟩)
      gluedOctets 34 62 :=
    Record.reads (Name.reads_of_spells owner (by decide)) ⟨_, rfl, rfl⟩ ⟨_, rfl, rfl⟩
      ⟨_, rfl, rfl⟩ ⟨16, rfl, rfl⟩ ⟨_, rfl, rfl⟩ (by decide) rfl
  exact Message.decode_of_reads ⟨_, rfl, rfl⟩ ⟨1, rfl, rfl⟩ ⟨0, rfl, rfl⟩ ⟨1, rfl, rfl⟩
    ⟨1, rfl, rfl⟩ question.single .none delegation.single glue.single

/-- Settings by which one family only is looked up. -/
def strictSettings : Settings := { Settings.new.addServer sampleServer with preference := .ipv4Only }

/-- A lookup is referred to the server. It has only `otherAddress` to go on with, and asks for an
alias. -/
def strictLookup : List Happening :=
  sampleLookup ++ [.arrival sampleServer gluedOctets, .event 0 1 .roused, .step 0, .step 0, .step 0]

def strictStart : System := start strictSettings .empty .default .default

def strictSystem : System := later strictLookup strictStart

/-- What the lookup in `strictLookup` has to go by. -/
def strictHorizon : Horizon := ⟨strictSettings, .empty, Arrived strictLookup⟩

theorem outbox_strictSystem : strictSystem.resolver.outbox.map Datagram.server =
    [.ofAddress (.v6 otherAddress) 53] := by
  have waits : strictSystem =
      later [.event 0 1 .roused, .step 0, .step 0, .step 0]
        ((later sampleLookup strictStart).take sampleServer gluedOctets gluedReferral) := by
    unfold strictSystem strictLookup
    rw [later_append, later_arrival decode_gluedReferral rfl]
  rw [waits]
  decide +kernel

/-- Glue with an address of either family, one of them `otherAddress`. -/
def mixedGlue : List RecordSet :=
  [⟨.top 98, .internet, 3600, .a (.ofOctets 192 0 2 2), []⟩,
    ⟨.top 98, .internet, 3600, .aaaa otherAddress, []⟩]

/-- A pass follows a referral with `mixedGlue`. -/
def mixedRedirect : Op Session Turn :=
  Pass.redirect ⟨.a, 0, .top 97, .once [], .root, none⟩
    ⟨⟨.top 97, .internet, 3600, .ns (.top 98), []⟩, mixedGlue⟩ mixedGlue

def strictSession : Session := ⟨.new strictSettings .empty .default .default, .full 8⟩

/-- The question goes to the `address` that the referral has given. A pass that follows a referral
with addresses of both families asks one of them. -/
theorem asks_within_reach_referred :
    strictStart.Within strictHorizon ∧ HeardBy strictHorizon strictLookup ∧
      (∃ datagram ∈ strictSystem.resolver.outbox, ∃ message,
        Arrived strictLookup message ∧ message.RefersTo datagram.server.address) ∧
      ∃ next after, mixedRedirect strictSession = (.ok (.asked next), after) ∧
        ∀ server ∈ next.query.server :: next.inquiry.rota.servers,
          server.address.family ∈ strictSession.resolver.settings.preference.types := by
  have within : strictStart.Within strictHorizon :=
    within_start strictSettings .empty .default .default (fun _ => 0) (Arrived strictLookup)
  have heard : HeardBy strictHorizon strictLookup := fun _ => id
  obtain ⟨reach, prefers, -⟩ := asks_within_reach within heard
  obtain ⟨datagram, _, outbox, server, -⟩ := List.map_eq_cons_iff.mp outbox_strictSystem
  have asks : datagram ∈ strictSystem.resolver.outbox := outbox ▸ List.mem_cons_self
  have sent := asks
  unfold strictSystem at sent
  have allowed := reach datagram sent
  obtain ⟨next, after, ran⟩ : ∃ next after,
      mixedRedirect strictSession = (.ok (.asked next), after) := ⟨_, _, rfl⟩
  refine ⟨within, heard, ⟨datagram, asks, ?_⟩, next, after, ran, prefers _ _ _ _ _ _ ?_ ran⟩
  · obtain configured | family | told := allowed
    · exact absurd (server ▸ configured) (by decide)
    · exact absurd (server ▸ family) (by decide)
    · exact told
  · unfold RecordSet.Uniform
    decide

/-- A `resolver` that looks up one family only asks a `server` of the other one, which is not
configured. -/
theorem asks_other_family : strictSettings.preference = .ipv4Only ∧
    ∃ datagram ∈ strictSystem.resolver.outbox,
      datagram.server ∉ strictSettings.servers ∧ datagram.server.address.family = .aaaa := by
  obtain ⟨datagram, _, outbox, server, -⟩ := List.map_eq_cons_iff.mp outbox_strictSystem
  refine ⟨rfl, datagram, outbox ▸ List.mem_cons_self, ?_, ?_⟩ <;> rw [server]
  · decide
  · rfl

end System

end NameResolution
