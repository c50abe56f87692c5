import NameResolution.Proofs.Codec.Grammar
import NameResolution.Proofs.Codec.RoundTrip
import NameResolution.Proofs.Names

/-!
# Truncated messages and trailing octets

What a reader finds in a message does not depend on octets that it has not seen. So more octets
behind a message can only mend that it was too short, and a message that is cut off anywhere is too
short.

* `Decoder.Steady`: a reader ends within the message, and octets behind the message do not change
  its result, unless there were too few octets. `Steady.bind` puts two readers one behind the other.
* `readLabels_append`: so it is for names, although pointers make them jump about in the message.
* `Record.steady`: so it is for records. They look how many octets are left, but only to see whether
  there are enough.
* `Message.truncation_detected`: what follows for messages.
-/

namespace NameResolution

/-! ## Readers that do not look ahead -/

/-- What is appended to a `message` changes nothing that is cut out in front of it. -/
theorem Octets.extract_append {message : Octets} {start stop : Nat} (inside : stop ≤ message.size)
    (tail : Octets) : (message ++ tail).extract start stop = message.extract start stop := by
  rw [Array.extract_append]
  simp
  omega

namespace Decoder

variable {α β : Type} {decoder : Decoder α}

/-- The `decoder` ends within the message, and what it finds does not change if octets are appended,
unless it ran out of octets (`shortInput`). -/
structure Steady (decoder : Decoder α) : Prop where
  within : ∀ {message : Octets} {pos : Nat} {value : α} {next : Nat},
    decoder message pos = .ok (value, next) → pos ≤ message.size → next ≤ message.size
  settled : ∀ {message : Octets} {pos : Nat}, decoder message pos ≠ .error .shortInput →
    ∀ tail, decoder (message ++ tail) pos = decoder message pos

namespace Steady

theorem pure (value : α) : Steady (Pure.pure value) := by
  constructor
  · intro message pos result next read inside
    simp only [pure_apply, Except.ok.injEq, Prod.mk.injEq] at read
    omega
  · intro message pos _ tail
    rfl

theorem bind {next : α → Decoder β} (first : Steady decoder)
    (rest : ∀ value, Steady (next value)) : Steady (decoder >>= next) := by
  constructor
  · intro message pos result stop read inside
    rw [bind_apply] at read
    cases found : decoder message pos with
    | error error => simp [found] at read
    | ok pair =>
      rw [found] at read
      exact (rest pair.1).within read (first.within found inside)
  · intro message pos settled tail
    rw [bind_apply] at settled
    simp only [bind_apply]
    cases found : decoder message pos with
    | error error =>
      have long : decoder message pos ≠ .error .shortInput := by simpa [found] using settled
      rw [first.settled long, found]
    | ok pair =>
      rw [found] at settled
      rw [first.settled (by simp [found]), found]
      exact (rest pair.1).settled settled tail

theorem map (f : α → β) (first : Steady decoder) : Steady (f <$> decoder) :=
  first.bind fun value => .pure (f value)

theorem malformed (fault : FormFault) : Steady (Decoder.malformed fault : Decoder α) := by
  constructor
  · intro message pos value next read
    simp [Decoder.malformed] at read
  · intro message pos _ tail
    rfl

theorem octet : Steady Decoder.octet := by
  constructor
  · intro message pos value next read inside
    unfold Decoder.octet at read
    cases found : message[pos]? with
    | none => simp [found] at read
    | some first =>
      obtain ⟨small, -⟩ := Array.getElem?_eq_some_iff.mp found
      simp only [found, Except.ok.injEq, Prod.mk.injEq] at read
      omega
  · intro message pos settled tail
    unfold Decoder.octet at settled ⊢
    cases found : message[pos]? with
    | none => simp [found] at settled
    | some first =>
      obtain ⟨small, -⟩ := Array.getElem?_eq_some_iff.mp found
      rw [Array.getElem?_append_left small, found]

theorem word : Steady Decoder.word := octet.bind fun _ => octet.bind fun _ => .pure _

theorem long : Steady Decoder.long := word.bind fun _ => word.bind fun _ => .pure _

theorem position : Steady Decoder.position := by
  constructor
  · intro message pos value next read inside
    simp only [Decoder.position, Except.ok.injEq, Prod.mk.injEq] at read
    omega
  · intro message pos _ tail
    rfl

theorem take (count : Nat) : Steady (Decoder.take count) := by
  constructor
  · intro message pos value next read _
    unfold Decoder.take at read
    split at read
    · simp only [Except.ok.injEq, Prod.mk.injEq] at read
      omega
    · cases read
  · intro message pos settled tail
    unfold Decoder.take at settled ⊢
    by_cases inside : pos + count ≤ message.size
    · have more : pos + count ≤ (message ++ tail).size := by simp; omega
      rw [if_pos inside, if_pos more, Octets.extract_append inside]
    · simp [inside] at settled

/-- How much is `left` of a message depends on what is appended to it, but not whether `count`
octets are missing in what was read without running out of octets. -/
theorem guarded (count : Nat) (rest : Steady decoder) :
    Steady (Decoder.remaining >>= fun left =>
      if left < count then fun _ _ => .error .shortInput else decoder) := by
  constructor
  · intro message pos value next read inside
    simp only [bind_apply, Decoder.remaining] at read
    split at read
    · cases read
    · exact rest.within read inside
  · intro message pos settled tail
    simp only [bind_apply, Decoder.remaining] at settled ⊢
    by_cases missing : message.size - pos < count
    · simp [missing] at settled
    · have more : ¬(message ++ tail).size - pos < count := by
        rw [Array.size_append]
        omega
      rw [if_neg missing] at settled ⊢
      rw [if_neg more]
      exact rest.settled settled tail

theorem times (each : Steady decoder) (count : Nat) : Steady (decoder.times count) := by
  induction count with
  | zero => exact .pure []
  | succ count ih => exact each.bind fun _ => ih.bind fun _ => .pure _

end Steady

end Decoder

/-! ## Names -/

/-- A name ends within the `message`. -/
theorem Spells.next_le_size {message : Octets} {pos next : Nat} {labels : List Label}
    (spells : Spells message pos labels next) : next ≤ message.size := by
  induction spells with
  | root octet =>
    obtain ⟨small, -⟩ := Array.getElem?_eq_some_iff.mp octet
    omega
  | label _ _ ih => exact ih
  | pointer _ stands _ _ _ => exact stands.le_size (by simp [wordOctets])

/-- Labels are read as before if octets are appended to the `message`, unless it was too short. A
pointer leads backwards, but the labels there may run on to the end of the message. -/
theorem readLabels_append (message tail : Octets) (pos room : Nat)
    (settled : readLabels message pos room ≠ .error .shortInput) :
    readLabels (message ++ tail) pos room = readLabels message pos room := by
  -- An octet that is there is still there with the tail behind it.
  have kept {place : Nat} {octet : UInt8} (found : message[place]? = some octet) :
      (message ++ tail)[place]? = some octet := by
    obtain ⟨small, -⟩ := Array.getElem?_eq_some_iff.mp found
    rw [Array.getElem?_append_left small, found]
  -- Only the reading of what follows can be short of input where the whole is not.
  have long {α β : Type} {read : Except DecodeError α} {more : α → Except DecodeError β}
      (settled : (read >>= more) ≠ .error .shortInput) : read ≠ .error .shortInput := by
    rintro rfl
    exact settled rfl
  fun_induction readLabels message pos room with
  -- Three cases are short of input themselves. In the others the same branch is taken.
  | case1 => contradiction
  | case2 pos room first octet length ends =>
    rw [readLabels]
    simp only [kept octet, length] at ends ⊢
    rw [dif_pos ends]
  | case3 pos room first octet length ends normal fits inside octets size label _ ih =>
    have more : pos + 1 + length ≤ (message ++ tail).size := by simp; omega
    rw [readLabels]
    simp only [kept octet, length] at ends normal fits inside more ih ⊢
    rw [dif_neg ends, dif_pos normal, dif_pos fits, dif_pos more, ih (long settled)]
    simp only [Octets.extract_append inside, label, octets, length]
  | case4 => contradiction
  | case5 pos room first octet length ends normal full =>
    rw [readLabels]
    simp only [kept octet, length] at ends normal full ⊢
    rw [dif_neg ends, dif_pos normal, dif_neg full]
  | case6 => contradiction
  | case7 pos room first octet length ends normal pointer second low target before ih =>
    rw [readLabels]
    simp only [kept octet, kept low, length, target] at ends normal pointer before ih ⊢
    rw [dif_neg ends, dif_neg normal, if_pos pointer, if_pos before, ih (long settled)]
  | case8 pos room first octet length ends normal pointer second low target onward =>
    rw [readLabels]
    simp only [kept octet, kept low, length, target] at ends normal pointer onward ⊢
    rw [dif_neg ends, dif_neg normal, if_pos pointer, if_neg onward]
  | case9 pos room first octet length ends normal other =>
    rw [readLabels]
    simp only [kept octet, length] at ends normal other ⊢
    rw [dif_neg ends, dif_neg normal, if_neg other]

/-- Reading a name does not look ahead, so `Name.decoder` is steady. -/
theorem Name.steady : Name.decoder.Steady := by
  constructor
  · intro message pos name next read _
    exact (Name.decoder_eq_ok_iff.mp read).2.next_le_size
  · intro message pos settled tail
    unfold Name.decoder at settled ⊢
    have long : readLabels message pos 254 ≠ .error .shortInput := by
      intro short
      simp [short, bind, Except.bind] at settled
    rw [readLabels_append message tail pos 254 long]

/-! ## Records and messages -/

theorem RecordType.steady : RecordType.decoder.Steady := Decoder.Steady.word.bind fun _ => .pure _

theorem RecordClass.steady : RecordClass.decoder.Steady := Decoder.Steady.word.bind fun _ => .pure _

theorem RecordData.steady (type : RecordType) (length : Nat) :
    (RecordData.decoder type length).Steady := by
  have ipv4 : RecordData.ipv4Decoder.Steady :=
    .bind .octet fun _ => .bind .octet fun _ => .bind .octet fun _ => .bind .octet fun _ => .pure _
  have ipv6 : RecordData.ipv6Decoder.Steady :=
    .bind .word fun _ => .bind .word fun _ => .bind .word fun _ => .bind .word fun _ =>
    .bind .word fun _ => .bind .word fun _ => .bind .word fun _ => .bind .word fun _ => .pure _
  have soa : Soa.decoder.Steady :=
    Name.steady.bind fun _ => Name.steady.bind fun _ => .bind .long fun _ => .bind .long fun _ =>
    .bind .long fun _ => .bind .long fun _ => .bind .long fun _ => .pure _
  unfold RecordData.decoder
  split
  · exact ipv4.map _
  split
  · exact ipv6.map _
  split
  · exact Name.steady.map _
  split
  · exact Name.steady.map _
  split
  · exact Name.steady.map _
  split
  · exact Name.steady.map _
  split
  · exact .bind .word fun _ => Name.steady.bind fun _ => .pure _
  split
  · exact soa.map _
  · exact .map _ (.take length)

/-- Reading a `Record` does not look ahead of the octets that it announces. -/
theorem Record.steady : Record.decoder.Steady := by
  refine Name.steady.bind fun owner => RecordType.steady.bind fun type =>
    RecordClass.steady.bind fun recordClass => .bind .long fun ttl => .bind .word fun length =>
    .guarded length.toNat ?_
  refine .bind .position fun start => (RecordData.steady type length.toNat).bind fun data =>
    .bind .position fun stop => ?_
  split
  · exact .pure _
  · exact .malformed _

theorem Question.steady : Question.decoder.Steady :=
  Name.steady.bind fun _ => RecordType.steady.bind fun _ => RecordClass.steady.bind fun _ => .pure _

theorem Header.steady : Header.decoder.Steady :=
  .bind .word fun _ => .bind .octet fun _ => .bind .octet fun _ => .pure _

namespace Message

theorem steady : decoder.Steady :=
  Header.steady.bind fun _ => .bind .word fun _ => .bind .word fun _ => .bind .word fun _ =>
  .bind .word fun _ => (Question.steady.times _).bind fun _ => (Record.steady.times _).bind fun _ =>
  (Record.steady.times _).bind fun _ => (Record.steady.times _).bind fun _ => .pure _

/-- The `tail` behind the octets of a message changes nothing, unless the message was too short. -/
theorem decode_append {octets : Octets} (settled : decode octets ≠ .error .shortInput)
    (tail : Octets) : decode (octets ++ tail) = decode octets := by
  unfold decode Decoder.decodePrefix at settled ⊢
  have long : decoder octets 0 ≠ .error .shortInput := by
    intro short
    simp [short, Except.map] at settled
  rw [steady.settled long tail]

/-- A `message` that is cut off anywhere is too short. -/
theorem decode_truncated {message : Message} (encodable : message.Encodable) :
    ∃ octets, message.encode = .ok octets ∧
      ∀ part rest, part ++ rest = octets → rest ≠ #[] → decode part = .error .shortInput := by
  obtain ⟨octets, written, _, read, -⟩ := encode_reads encodable
  refine ⟨octets, written, fun part rest whole more => ?_⟩
  subst whole
  have left : 0 < rest.size := Array.size_pos_iff.mpr more
  have short : decoder part 0 = .error .shortInput := by
    by_contra settled
    have same := steady.settled settled rest
    rw [read] at same
    have within := steady.within same.symm (Nat.zero_le _)
    rw [Array.size_append] at within
    omega
  rw [decode, Decoder.decodePrefix, short]
  rfl

/-- Truncation is always detected, and trailing octets never matter. Whatever is `Encodable`, a
proper part of its octets from the start on is too short (`shortInput`). A `tail` behind a message
changes neither the message nor the `fault` that is found, so it matters only where there were too
few octets. -/
theorem truncation_detected :
    (∀ message : Message, message.Encodable → ∃ octets, message.encode = .ok octets ∧
      ∀ part rest, part ++ rest = octets → rest ≠ #[] → decode part = .error .shortInput) ∧
    (∀ octets tail message, decode octets = .ok message → decode (octets ++ tail) = .ok message) ∧
    (∀ octets tail fault, decode octets = .error (.form fault) →
      decode (octets ++ tail) = .error (.form fault)) ∧
    ∀ octets tail, decode (octets ++ tail) ≠ decode octets → decode octets = .error .shortInput := by
  refine ⟨fun message => decode_truncated, fun octets tail message read => ?_,
    fun octets tail fault failed => ?_, fun octets tail other => ?_⟩
  · rw [decode_append (by simp [read]), read]
  · rw [decode_append (by simp [failed]), failed]
  · by_contra settled
    exact other (decode_append settled tail)

/-- The answer that a name is an alias of a name below it, which ends in a pointer: a `cname` of
this kind. -/
def aliased : Message :=
  let name := Name.spelled [97]
  { query (.internet name .a) 7 true with
    answer := [⟨name, .internet, 60, .cname (Name.spelled [98, 97])⟩] }

/-- The pointer at the end of a message is cut through, `octets` are put behind the message and
behind a label of an unknown kind, and a message is put where there was nothing. -/
theorem truncation_detected_aliased :
    aliased.Encodable ∧
      (∃ octets decoded, aliased.encode = .ok octets ∧ octets.size = 35 ∧
        decode (octets.extract 0 34) = .error .shortInput ∧ decode octets = .ok decoded ∧
        decode (octets ++ #[0, 1]) = .ok decoded) ∧
      decode (#[0, 7, 1, 0, 0, 1, 0, 0, 0, 0, 0, 0, 65] ++ #[0]) =
        .error (.form .invalidLabelType) ∧
      decode #[] = .error .shortInput := by
  have encodable : aliased.Encodable := by
    constructor
    · exact ⟨by decide, by simp [aliased, query, Question.internet, Name.spelled]⟩
    · exact ⟨by decide, by simp only [aliased, List.forall_mem_singleton]; exact ⟨rfl, rfl⟩⟩
    · exact .empty
    · exact .empty
  have octets : aliased.encode = .ok #[0, 7, 1, 0, 0, 1, 0, 1, 0, 0, 0, 0, 1, 97, 0, 0, 1, 0, 1,
      192, 12, 0, 5, 0, 1, 0, 0, 0, 60, 0, 4, 1, 98, 192, 12] := rfl
  -- A label that is neither short nor a pointer is a fault, which no tail can mend.
  have label : Name.decoder #[0, 7, 1, 0, 0, 1, 0, 0, 0, 0, 0, 0, 65] 12 =
      .error (.form .invalidLabelType) := by
    rw [Name.decoder, readLabels]
    rfl
  obtain ⟨_, decoded, written, read, -⟩ := encode_spec encodable
  obtain ⟨_, again, cut⟩ := truncation_detected.1 aliased encodable
  obtain rfl := Except.ok.inj (octets.symm.trans written)
  obtain rfl := Except.ok.inj (octets.symm.trans again)
  refine ⟨encodable, ⟨_, decoded, written, rfl, cut _ #[12] rfl (by decide), read,
    truncation_detected.2.1 _ #[0, 1] decoded read⟩, ?_, ?_⟩
  · apply truncation_detected.2.2.1
    simp [decode, Decoder.decodePrefix, decoder, Decoder.bind_apply, Decoder.map_apply,
      Decoder.word, Decoder.octet, Header.decoder, Decoder.times, Question.decoder, label,
      Except.map]
  · refine truncation_detected.2.2.2 #[] #[0, 7, 1, 0, 0, 0, 0, 0, 0, 0, 0, 0] ?_
    have whole : decode #[0, 7, 1, 0, 0, 0, 0, 0, 0, 0, 0, 0] = .ok (.ofHeader ⟨7, 1, 0⟩) := rfl
    have nothing : decode #[] = .error .shortInput := rfl
    rw [Array.empty_append, whole, nothing]
    simp

end Message

end NameResolution
