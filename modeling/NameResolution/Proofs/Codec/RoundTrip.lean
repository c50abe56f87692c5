import NameResolution.Message
import NameResolution.Proofs.Codec.Records

/-!
# Encoding and decoding messages

* `Message.Encodable`: what can be put into octets. All names are absolute, each section has a
  number of entries that fits into two octets, and so has all data that is kept as octets.
* `Message.decode_encode`: an encodable message can be encoded and decoded again to the same message
  but for ASCII case; every message that is decoded is encodable.
-/

namespace NameResolution

namespace Question

/-- A `question` reads back as the same question but for ASCII case. -/
theorem writes {question : Question} (absolute : question.name.absolute = true) :
    Writes (fun draft => question.write draft)
      (decoder.Reads fun read => read.fold = question.fold) := by
  have codes := (Writes.pushWord question.type.code).bind
    (Writes.pushWord question.recordClass.code)
  refine Writes.imp ((Name.writes absolute).bind codes) fun message start stop read => ?_
  obtain ⟨_, ⟨name, _⟩, _, ⟨type, _⟩, recordClass, _⟩ := read
  refine name.bind fun _ n => (RecordType.reads type).bind fun _ t =>
    (RecordClass.reads recordClass).bind fun _ c => .pure ?_
  simp only [fold, n, t, c]

/-- Every `question` that is read asks for an absolute `name`. -/
theorem yields : Decoder.Yields decoder fun question => question.name.absolute = true :=
  .bind Name.yields fun _ absolute => .bind (.trivial _) fun _ _ => .bind (.trivial _) fun _ _ =>
    .pure absolute

end Question

theorem Header.writes (header : Header) :
    Writes (fun draft => .ok (draft.push header.octets)) (Header.decoder.Reads (· = header)) := by
  refine (Writes.push _).imp fun message start stop ⟨same, _, stands⟩ => ?_
  have flags : header.octets.toList = wordOctets header.id ++ [header.upper, header.lower] := by
    simp [octets, Octets.pushWord]
  rw [flags] at stands
  subst same
  exact (Decoder.word_of_standAt stands.left).bind fun _ i =>
    (Decoder.octet_of_standAt stands.right).bind fun _ u =>
    (Decoder.octet_of_standAt stands.right.tail).bind fun _ l => .pure (by rw [i, u, l])

namespace Message

/-- A section whose `entries` are all encodable, and whose number of entries can be written in two
octets. -/
structure EncodableSection {α : Type} (entries : List α) (encodable : α → Prop) : Prop where
  count : entries.length ≤ 0xFFFF
  each : ∀ entry ∈ entries, encodable entry

theorem EncodableSection.empty {α : Type} {encodable : α → Prop} :
    EncodableSection [] encodable := ⟨Nat.zero_le _, fun _ member => nomatch member⟩

/-- All sections can be put into a `message`. -/
structure Encodable (message : Message) : Prop where
  questions : EncodableSection message.questions fun question => question.name.absolute = true
  answer : EncodableSection message.answer Record.Encodable
  authority : EncodableSection message.authority Record.Encodable
  additional : EncodableSection message.additional Record.Encodable

/-- The `count` of the entries of a section is read back. -/
theorem writes_count {count : Nat} (small : count ≤ 0xFFFF) :
    Writes (fun draft => writeCount draft count)
      (Decoder.word.Reads fun read => read.toNat = count) := by
  have exact : (UInt16.ofNat count).toNat = count := by simp; omega
  have writer : (fun draft => writeCount draft count) =
      fun draft => .ok (draft.pushWord (UInt16.ofNat count)) := by
    funext draft
    exact if_pos small
  rw [writer]
  refine (Writes.pushWord _).imp fun message start stop ⟨read, _⟩ => read.imp fun value same => ?_
  rw [same, exact]

/-- Lists whose `entries` are pairwise equal but for ASCII case. -/
theorem map_eq_of_forall₂ {α : Type} {fold : α → α} {entries read : List α}
    (same : List.Forall₂ (fun entry read => fold read = fold entry) entries read) :
    read.map fold = entries.map fold := by
  induction same with
  | nil => rfl
  | cons head _ ih => rw [List.map_cons, List.map_cons, head, ih]

/-- A `message` reads back as the same message but for ASCII case. -/
theorem writes {message : Message} (encodable : message.Encodable) :
    Writes (fun draft => message.write draft)
      (decoder.Reads fun read => read.fold = message.fold) := by
  obtain ⟨questions, answer, authority, additional⟩ := encodable
  have records {entries : List Record} (encodable : EncodableSection entries Record.Encodable) :=
    Writes.foldlM entries fun record mem => Record.writes (encodable.each record mem)
  have sections := (Writes.foldlM message.questions fun question mem =>
    Question.writes (questions.each question mem)).bind <| (records answer).bind <|
      (records authority).bind (records additional)
  have all := (Header.writes message.header).bind <| (writes_count questions.count).bind <|
    (writes_count answer.count).bind <| (writes_count authority.count).bind <|
      (writes_count additional.count).bind sections
  refine Writes.imp all fun message start stop read => ?_
  obtain ⟨_, header, _, qd, _, an, _, ns, _, ar, _, questions, _, answer, _, authority,
    additional⟩ := read
  refine header.bind fun _ h => qd.bind fun _ q => an.bind fun _ a => ns.bind fun _ n =>
    ar.bind fun _ r => ?_
  rw [q, a, n, r]
  refine questions.bind fun _ q => answer.bind fun _ a => authority.bind fun _ n =>
    additional.bind fun _ r => .pure ?_
  simp only [fold, h, map_eq_of_forall₂ q, map_eq_of_forall₂ a, map_eq_of_forall₂ n,
    map_eq_of_forall₂ r]

/-- A `message` is decoded by reading its `header`, the numbers of entries, and its sections. -/
theorem decode_of_reads {message : Message} {octets : Octets} {qd an ns ar : UInt16}
    {first second third last : Nat}
    (header : Header.decoder.Reads (· = message.header) octets 0 4)
    (questionCount : Decoder.word.Reads (· = qd) octets 4 6)
    (answerCount : Decoder.word.Reads (· = an) octets 6 8)
    (authorityCount : Decoder.word.Reads (· = ns) octets 8 10)
    (additionalCount : Decoder.word.Reads (· = ar) octets 10 12)
    (questions : (Decoder.times Question.decoder qd.toNat).Reads (· = message.questions) octets
      12 first)
    (answer : (Decoder.times Record.decoder an.toNat).Reads (· = message.answer) octets first second)
    (authority : (Decoder.times Record.decoder ns.toNat).Reads (· = message.authority) octets
      second third)
    (additional : (Decoder.times Record.decoder ar.toNat).Reads (· = message.additional) octets
      third last) : decode octets = .ok message := by
  have whole : decoder.Reads (· = message) octets 0 last := by
    refine header.bind fun _ h => questionCount.bind fun _ q => answerCount.bind fun _ a =>
      authorityCount.bind fun _ n => additionalCount.bind fun _ r => ?_
    subst h q a n r
    refine questions.bind fun _ q => answer.bind fun _ a => authority.bind fun _ n =>
      additional.bind fun _ r => .pure ?_
    rw [q, a, n, r]
  obtain ⟨_, read, rfl⟩ := whole
  rw [decode, Decoder.decodePrefix, read]
  rfl

/-- Every message that is read can be written, so it is `Encodable`. -/
theorem yields : Decoder.Yields decoder Encodable := by
  have times {α : Type} {decoder : Decoder α} {P : α → Prop} (each : Decoder.Yields decoder P)
      (count : UInt16) : Decoder.Yields (decoder.times count.toNat) (EncodableSection · P) := by
    intro message pos values next read
    have known := each.times count.toNat message pos values next read
    exact ⟨known.1 ▸ Nat.le_of_lt_succ count.toNat_lt, known.2⟩
  refine .bind (.trivial _) fun _ _ => .bind (.trivial _) fun qd _ => .bind (.trivial _)
    fun an _ => .bind (.trivial _) fun ns _ => .bind (.trivial _) fun ar _ => ?_
  refine .bind (times Question.yields qd) fun _ questions => ?_
  refine .bind (times Record.yields an) fun _ answer => ?_
  refine .bind (times Record.yields ns) fun _ authority => ?_
  refine .bind (times Record.yields ar) fun _ additional => ?_
  exact .pure ⟨questions, answer, authority, additional⟩

/-- A `message` that is `Encodable` is encoded to `octets` that are read to their end, and stand for
the same message but for ASCII case. -/
theorem encode_reads {message : Message} (encodable : message.Encodable) :
    ∃ octets, message.encode = .ok octets ∧
      decoder.Reads (fun read => read.fold = message.fold) octets 0 octets.size := by
  obtain ⟨tail, after, appends, -, reads⟩ := writes encodable #[] .empty
    (Compression.sound_empty _)
  refine ⟨tail, ?_, ?_⟩
  · have written : message.write ⟨#[], .empty⟩ = .ok ⟨#[] ++ tail, after⟩ := appends #[] rfl
    rw [Array.empty_append] at written
    show Draft.octets <$> message.write ⟨#[], .empty⟩ = _
    rw [written]
    rfl
  · have whole := reads #[]
    simp only [Array.empty_append, Array.append_empty] at whole
    simpa using whole

/-- A `message` that is `Encodable` is encoded to `octets` that are decoded to the same message but
for ASCII case. -/
theorem encode_spec {message : Message} (encodable : message.Encodable) :
    ∃ octets decoded, message.encode = .ok octets ∧ decode octets = .ok decoded ∧
      (decoded == message) = true := by
  obtain ⟨octets, written, decoded, read, same⟩ := encode_reads encodable
  refine ⟨octets, decoded, written, ?_, decide_eq_true same⟩
  rw [decode, Decoder.decodePrefix, read]
  rfl

/-- Encoding and decoding are inverse: what is `Encodable` comes out again but for ASCII case, and
whatever is decoded is `Encodable`. -/
theorem decode_encode :
    (∀ message : Message, message.Encodable → ∃ octets decoded, message.encode = .ok octets ∧
      decode octets = .ok decoded ∧ (decoded == message) = true) ∧
    ∀ (octets : Octets) (message : Message), decode octets = .ok message → message.Encodable ∧
      ∃ again decoded, message.encode = .ok again ∧ decode again = .ok decoded ∧
        (decoded == message) = true := by
  refine ⟨fun message => encode_spec, fun octets message read => ?_⟩
  have encodable : message.Encodable := by
    unfold decode Decoder.decodePrefix at read
    cases found : decoder octets 0 with
    | error error => simp [found, Except.map] at read
    | ok pair =>
      simp only [found, Except.map, Except.ok.injEq] at read
      exact read ▸ yields octets 0 pair.1 pair.2 found
  exact ⟨encodable, encode_spec encodable⟩

/-- A response whose names share suffixes that differ in case, with data of several shapes: a
`sample` of what can be encoded. -/
def sample : Message :=
  let zone : Name := ⟨[⟨[101, 120], by decide, by decide⟩], true, by decide⟩
  let host : Name := ⟨[⟨[119], by decide, by decide⟩, ⟨[69, 88], by decide, by decide⟩], true,
    by decide⟩
  { query (.internet host .a) 7 true with
    answer := [⟨host, .internet, 60, .cname zone⟩, ⟨zone, .internet, 60, .dname host⟩]
    authority := [⟨zone, .internet, 60, .mx 10 host⟩]
    additional := [⟨host, .internet, 60, .raw ⟨16⟩ #[3, 1, 2, 3]⟩] }

theorem decode_encode_sample : sample.Encodable ∧
    ∃ octets decoded, sample.encode = .ok octets ∧ decode octets = .ok decoded ∧
      (decoded == sample) = true ∧ decoded.Encodable := by
  have encodable : sample.Encodable := by
    refine ⟨⟨by decide, ?_⟩, ⟨by decide, ?_⟩, ⟨by decide, ?_⟩, ⟨by decide, ?_⟩⟩
    all_goals
      simp only [sample, query, ofHeader, List.forall_mem_cons, List.not_mem_nil, false_implies,
        implies_true, and_true]
    · rfl
    · exact ⟨⟨rfl, rfl⟩, rfl, rfl⟩
    · exact ⟨rfl, rfl⟩
    · exact ⟨rfl, by decide, by decide⟩
  obtain ⟨octets, decoded, written, read, same⟩ := decode_encode.1 sample encodable
  exact ⟨encodable, octets, decoded, written, read, same, (decode_encode.2 octets decoded read).1⟩

end Message

end NameResolution
