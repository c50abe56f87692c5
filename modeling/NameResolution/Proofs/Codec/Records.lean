import NameResolution.Proofs.Codec.Names
import NameResolution.Record

/-!
# Records written and read

* `RecordData.Encodable`, `Record.Encodable`: what can be put into a message. The names are
  absolute, and data that is kept as octets is short enough and of no type that is understood.
* `Record.writes_prefixed`: octets behind their length, which is filled in after they are written.
* `RecordData.writes`, `Record.writes`: records read back as the same records but for ASCII case.
* `Record.yields`: every record that is read can be written.
-/

namespace NameResolution

/-- The `type` is one of those whose data is understood. -/
def RecordType.IsUnderstood (type : RecordType) : Prop :=
  type ∈ [RecordType.a, .ns, .cname, .soa, .ptr, .mx, .aaaa, .dname]

instance (type : RecordType) : Decidable type.IsUnderstood := inferInstanceAs (Decidable (_ ∈ _))

theorem RecordType.reads {type : RecordType} {message : Octets} {start stop : Nat}
    (read : Decoder.word.Reads (· = type.code) message start stop) :
    RecordType.decoder.Reads (· = type) message start stop :=
  read.bind fun _ same => .pure (congrArg mk same)

theorem RecordClass.reads {recordClass : RecordClass} {message : Octets} {start stop : Nat}
    (read : Decoder.word.Reads (· = recordClass.code) message start stop) :
    RecordClass.decoder.Reads (· = recordClass) message start stop :=
  read.bind fun _ same => .pure (congrArg mk same)

/-- The names in the `data` are absolute. Data that is kept as `octets` is of no `type` that is
understood, and its length can be written in two octets; all other data is shorter anyway. -/
def RecordData.Encodable : RecordData → Prop
  | .a _ | .aaaa _ => True
  | .ns name | .cname name | .dname name | .ptr name | .mx _ name => name.absolute = true
  | .soa data => data.primary.absolute = true ∧ data.mailbox.absolute = true
  | .raw type octets => ¬type.IsUnderstood ∧ octets.size ≤ 0xFFFF

/-- The owner of the `record` and the names in the data are absolute, and data kept as octets can be
told from data that is understood. -/
structure Record.Encodable (record : Record) : Prop where
  owner : record.owner.absolute = true
  data : record.data.Encodable

/-! ## Lengths in front -/

/-- A number in the middle of octets can be replaced by `setIfInBounds` on its two octets. -/
theorem setIfInBounds_word (before tail : Octets) (value : UInt16) :
    ((before ++ (wordOctets 0).toArray ++ tail).setIfInBounds before.size
        (UInt8.ofNat (value.toNat / 256))).setIfInBounds (before.size + 1)
        (UInt8.ofNat (value.toNat % 256)) =
      before ++ (wordOctets value).toArray ++ tail := by
  apply Array.toList_inj.mp
  simp only [Array.toList_setIfInBounds, Array.toList_append, wordOctets, List.append_assoc]
  rw [← Array.length_toList, List.set_append_right _ _ (Nat.le_refl _),
    List.set_append_right _ _ (Nat.le_add_right _ _), Nat.sub_self, Nat.add_sub_cancel_left]
  rfl

/-- The length of what is written behind it stands in front. -/
theorem Record.writePrefixed_eq {content : Draft → Except Misuse Draft} {before tail : Octets}
    {known after : Compression}
    (behind : content ⟨before ++ (wordOctets 0).toArray, known⟩ =
      .ok ⟨before ++ (wordOctets 0).toArray ++ tail, after⟩) (small : tail.size ≤ 0xFFFF) :
    writePrefixed ⟨before, known⟩ content =
      .ok ⟨before ++ (wordOctets (UInt16.ofNat tail.size)).toArray ++ tail, after⟩ := by
  have exact : (UInt16.ofNat tail.size).toNat = tail.size := by simp; omega
  have patched := setIfInBounds_word before tail (UInt16.ofNat tail.size)
  have length :
      (before ++ (wordOctets 0).toArray ++ tail).size - (before.size + 2) = tail.size := by
    simp [wordOctets]
    omega
  rw [exact] at patched
  simp only [writePrefixed, Draft.pushWord, Octets.pushWord, behind]
  show (if _ then _ else _) = _
  rw [length, if_pos small, Nat.add_sub_cancel, Nat.add_sub_assoc (by decide), patched]
  rfl

/-- Content that reads as `span` reads so behind its length, which is filled in afterwards. -/
theorem Record.writes_prefixed {content : Draft → Except Misuse Draft} {span : Span}
    (writes : Writes content span)
    (short : ∀ message start stop, span message start stop → stop ≤ start + 0xFFFF) :
    Writes (fun draft => writePrefixed draft content) fun message start stop =>
      ∃ length : UInt16, Decoder.word.Reads (· = length) message start (start + 2) ∧
        stop = start + 2 + length.toNat ∧ stop ≤ message.size ∧ span message (start + 2) stop := by
  intro octets known sound
  -- The content is written behind zeros. It reads well behind its length, because writing it there
  -- appends the same octets.
  obtain ⟨tail, after, appends, -, reads⟩ := writes (octets ++ (wordOctets 0).toArray) known
    (sound.append _)
  have small : tail.size ≤ 0xFFFF := by
    have bound := short _ _ _ (reads #[])
    omega
  generalize same : UInt16.ofNat tail.size = length
  have exact : length.toNat = tail.size := by
    rw [← same]
    simp
    omega
  obtain ⟨tail', after', appends', kept, reads'⟩ := writes
    (octets ++ (wordOctets length).toArray) known (sound.append _)
  have both := (appends' _ (by simp [wordOctets])).symm.trans (appends _ rfl)
  simp only [Except.ok.injEq, Draft.mk.injEq, Array.append_right_inj] at both
  obtain ⟨rfl, rfl⟩ := both
  refine ⟨(wordOctets length).toArray ++ tail', after', fun before size => ?_, ?_, fun more => ?_⟩
  · show writePrefixed _ _ = _
    rw [writePrefixed_eq (appends _ (by simp [size])) small, same, Array.append_assoc]
  · rwa [← Array.append_assoc]
  · have read := reads' more
    have stands := Octets.StandAt.of_append octets (wordOctets length).toArray
    simp only [Array.size_append, List.size_toArray, ← Array.append_assoc] at read ⊢
    refine ⟨length, ?_, ?_, ?_, ?_⟩
    · exact Decoder.word_of_standAt ((stands.append_right tail').append_right more)
    · rw [exact, Nat.add_assoc]
      rfl
    · omega
    · rwa [Nat.add_assoc] at read

/-! ## Data -/

namespace RecordData

/-- The `data` of a `type` reads as the same data but for ASCII case, and its length can be written
in two octets. -/
def Returns (data : RecordData) : Span := fun message start stop =>
  stop ≤ start + 0xFFFF ∧ (decoder data.type (stop - start)).Reads
    (fun read => read.fold = data.fold) message start stop

/-- Data that consists of one compressed `name`. -/
theorem writes_name {name : Name} {wrap : Name → RecordData} (absolute : name.absolute = true)
    (reads : ∀ length, decoder (wrap name).type length = wrap <$> Name.decoder)
    (folds : ∀ other, (wrap other).fold = wrap other.fold) :
    Writes (fun draft => name.write draft) (wrap name).Returns := by
  refine (Name.writes absolute).imp fun message start stop ⟨read, short⟩ => ⟨by omega, ?_⟩
  rw [reads]
  exact read.map fun value same => by rw [folds, folds, same]

theorem writes_a (address : Ipv4) :
    Writes (fun draft => (a address).write draft) (a address).Returns := by
  obtain ⟨⟨⟨octets⟩, size⟩⟩ := address
  match octets, size with
  | [p, q, r, s], _ =>
    refine (Writes.push _).imp fun message start stop ⟨same, _, stands⟩ => ?_
    subst same
    refine ⟨Nat.add_le_add_left (by simp) _, ?_⟩
    show (a <$> ipv4Decoder).Reads _ _ _ _
    refine .map (P := (· = Ipv4.ofOctets p q r s)) ?_ fun value same => same ▸ rfl
    exact (Decoder.octet_of_standAt stands).bind fun _ first =>
      (Decoder.octet_of_standAt stands.tail).bind fun _ second =>
      (Decoder.octet_of_standAt stands.tail.tail).bind fun _ third =>
      (Decoder.octet_of_standAt stands.tail.tail.tail).bind fun _ fourth =>
      .pure (by subst first second third fourth; rfl)

theorem writes_aaaa (address : Ipv6) :
    Writes (fun draft => (aaaa address).write draft) (aaaa address).Returns := by
  obtain ⟨⟨⟨groups⟩, size⟩⟩ := address
  match groups, size with
  | [p, q, r, s, t, u, v, w], _ =>
    have appends : ∀ draft : Draft, (aaaa ⟨⟨#[p, q, r, s, t, u, v, w], rfl⟩⟩).write draft =
        .ok { draft with octets := draft.octets ++ (wordOctets p ++ (wordOctets q ++
          (wordOctets r ++ (wordOctets s ++ (wordOctets t ++ (wordOctets u ++ (wordOctets v ++
          wordOctets w))))))).toArray } := by
      intro draft
      simp [RecordData.write, Draft.pushWord, Octets.pushWord]
    refine (Writes.ofOctets appends).imp fun message start stop ⟨same, _, stands⟩ => ?_
    subst same
    refine ⟨Nat.add_le_add_left (by simp [wordOctets]) _, ?_⟩
    show (aaaa <$> ipv6Decoder).Reads _ _ _ _
    refine .map (P := (· = ⟨#v[p, q, r, s, t, u, v, w]⟩)) ?_ fun value same => same ▸ rfl
    -- The groups stand one behind the other, two octets each.
    have second := stands.right
    have third := second.right
    have fourth := third.right
    have fifth := fourth.right
    have sixth := fifth.right
    have seventh := sixth.right
    exact (Decoder.word_of_standAt stands.left).bind fun _ p =>
      (Decoder.word_of_standAt second.left).bind fun _ q =>
      (Decoder.word_of_standAt third.left).bind fun _ r =>
      (Decoder.word_of_standAt fourth.left).bind fun _ s =>
      (Decoder.word_of_standAt fifth.left).bind fun _ t =>
      (Decoder.word_of_standAt sixth.left).bind fun _ u =>
      (Decoder.word_of_standAt seventh.left).bind fun _ v =>
      (Decoder.word_of_standAt seventh.right).bind fun _ w =>
      .pure (by subst p q r s t u v w; rfl)

theorem writes_mx (preference : UInt16) {exchange : Name} (absolute : exchange.absolute = true) :
    Writes (fun draft => (mx preference exchange).write draft)
      (mx preference exchange).Returns := by
  refine ((Writes.pushWord preference).bind (Name.writes absolute)).imp
    fun message start stop ⟨middle, ⟨number, behind⟩, name, short⟩ => ⟨by omega, ?_⟩
  refine number.bind fun _ same => name.bind fun read folded => .pure ?_
  rw [fold, fold, same, folded]

theorem writes_soa {data : Soa} (primary : data.primary.absolute = true)
    (mailbox : data.mailbox.absolute = true) :
    Writes (fun draft => (soa data).write draft) (soa data).Returns := by
  have numbers := (Writes.pushLong data.serial).bind <| (Writes.pushLong data.refresh).bind <|
    (Writes.pushLong data.retry).bind <| (Writes.pushLong data.expire).bind
      (Writes.pushLong data.minimum)
  refine Writes.imp ((Name.writes primary).bind <| (Name.writes mailbox).bind numbers)
    fun message start stop read => ?_
  obtain ⟨_, ⟨primary, _⟩, _, ⟨mailbox, _⟩, _, ⟨serial, _⟩, _, ⟨refresh, _⟩, _, ⟨retry, _⟩, _,
    ⟨expire, _⟩, minimum, _⟩ := read
  refine ⟨by omega, Decoder.Reads.map (P := fun read => read.fold = data.fold) ?_
    fun read same => congrArg soa same⟩
  refine primary.bind fun _ p => mailbox.bind fun _ m => serial.bind fun _ s =>
    refresh.bind fun _ r => retry.bind fun _ t => expire.bind fun _ e => minimum.bind fun _ n =>
    .pure ?_
  simp only [Soa.fold, p, m, s, r, t, e, n]

/-- Octets of a `type` that is not understood are read as they are. -/
theorem writes_raw {type : RecordType} {octets : Octets} (unknown : ¬type.IsUnderstood)
    (short : octets.size ≤ 0xFFFF) :
    Writes (fun draft => (raw type octets).write draft) (raw type octets).Returns := by
  refine (Writes.push octets).imp fun message start stop ⟨same, inside, stands⟩ => ⟨by omega, ?_⟩
  have reader : decoder type octets.size = raw type <$> Decoder.take octets.size := by
    simp only [RecordType.IsUnderstood, List.mem_cons, List.not_mem_nil, or_false, not_or]
      at unknown
    obtain ⟨a, ns, cname, soa, ptr, mx, aaaa, dname⟩ := unknown
    rw [decoder, if_neg a, if_neg aaaa, if_neg ns, if_neg cname, if_neg dname, if_neg ptr,
      if_neg mx, if_neg soa]
  subst same
  rw [Nat.add_sub_cancel_left]
  show (decoder type octets.size).Reads _ _ _ _
  rw [reader]
  exact (Decoder.take_of_standAt stands inside).map fun value same => by rw [same]

/-- Data reads back as the same `data` but for ASCII case. -/
theorem writes {data : RecordData} (encodable : data.Encodable) :
    Writes (fun draft => data.write draft) data.Returns := by
  cases data with
  | a address => exact writes_a address
  | aaaa address => exact writes_aaaa address
  | ns name => exact writes_name encodable (fun _ => rfl) fun _ => rfl
  | cname name => exact writes_name encodable (fun _ => rfl) fun _ => rfl
  | ptr name => exact writes_name encodable (fun _ => rfl) fun _ => rfl
  | dname name =>
    refine (Name.writes_plain encodable).imp fun message start stop ⟨read, short⟩ => ⟨by omega, ?_⟩
    exact Decoder.Reads.map read fun value same => by rw [same]
  | mx preference exchange => exact writes_mx preference encodable
  | soa data => exact writes_soa encodable.1 encodable.2
  | raw type octets => exact writes_raw encodable.1 encodable.2

/-- All data of a `type` that is read can be written. -/
theorem yields (type : RecordType) {length : Nat} (short : length ≤ 0xFFFF) :
    Decoder.Yields (decoder type length) Encodable := by
  unfold decoder
  split
  · exact .map (.trivial _) fun _ _ => ⟨⟩
  split
  · exact .map (.trivial _) fun _ _ => ⟨⟩
  split
  · exact .map Name.yields fun _ absolute => absolute
  split
  · exact .map Name.yields fun _ absolute => absolute
  split
  · exact .map Name.yields fun _ absolute => absolute
  split
  · exact .map Name.yields fun _ absolute => absolute
  split
  · exact .bind (.trivial _) fun _ _ => .bind Name.yields fun _ absolute => .pure absolute
  split
  · refine .map (P := fun data => (soa data).Encodable) ?_ fun _ both => both
    exact .bind Name.yields fun _ primary => .bind Name.yields fun _ mailbox =>
      .bind (.trivial _) fun _ _ => .bind (.trivial _) fun _ _ => .bind (.trivial _) fun _ _ =>
      .bind (.trivial _) fun _ _ => .bind (.trivial _) fun _ _ => .pure ⟨primary, mailbox⟩
  · refine .map (Decoder.Yields.take length) fun octets size => ⟨?_, size ▸ short⟩
    simp only [RecordType.IsUnderstood, List.mem_cons, List.not_mem_nil, or_false, not_or]
    exact ⟨‹_›, ‹_›, ‹_›, ‹_›, ‹_›, ‹_›, ‹_›, ‹_›⟩

end RecordData

/-! ## Records -/

namespace Record

/-- A `record` is read by reading its parts, provided that the `data` takes the announced
`length`. -/
theorem reads {record : Record} {message : Octets} {start middle stop : Nat} {length : UInt16}
    (owner : Name.decoder.Reads (· = record.owner) message start middle)
    (type : RecordType.decoder.Reads (· = record.type) message middle (middle + 2))
    (kind : RecordClass.decoder.Reads (· = record.recordClass) message (middle + 2) (middle + 4))
    (ttl : Decoder.long.Reads (· = record.ttl) message (middle + 4) (middle + 8))
    (number : Decoder.word.Reads (· = length) message (middle + 8) (middle + 10))
    (data : (RecordData.decoder record.type length.toNat).Reads (· = record.data) message
      (middle + 10) stop)
    (inside : length.toNat ≤ message.size - (middle + 10))
    (whole : stop - (middle + 10) = length.toNat) :
    decoder.Reads (· = record) message start stop := by
  refine owner.bind fun _ o => type.bind fun _ t => kind.bind fun _ c => ttl.bind fun _ l =>
    number.bind fun _ n => Decoder.remaining_reads.bind fun _ left => ?_
  subst o t c l n left
  rw [if_neg (Nat.not_lt.mpr inside)]
  refine Decoder.position_reads.bind fun _ first => data.bind fun _ d =>
    Decoder.position_reads.bind fun _ last => ?_
  subst first last d
  rw [if_pos whole]
  exact .pure rfl

/-- A `record` reads back as the same record but for ASCII case. -/
theorem writes {record : Record} (encodable : record.Encodable) :
    Writes (fun draft => record.write draft)
      (decoder.Reads fun read => read.fold = record.fold) := by
  have head := (Writes.pushWord record.type.code).bind <|
    (Writes.pushWord record.recordClass.code).bind (Writes.pushLong record.ttl)
  have data := writes_prefixed (RecordData.writes encodable.data) fun _ _ _ read => read.1
  refine Writes.imp ((Name.writes encodable.owner).bind (head.bind data))
    fun message start stop read => ?_
  obtain ⟨_, ⟨owner, _⟩, before, ⟨_, ⟨type, _⟩, _, ⟨recordClass, _⟩, ttl, _⟩, length, number, same,
    inside, _, data⟩ := read
  subst same
  rw [Nat.add_sub_cancel_left] at data
  refine owner.bind fun _ o => (RecordType.reads type).bind fun _ t =>
    (RecordClass.reads recordClass).bind fun _ c => ttl.bind fun _ l => number.bind fun _ n =>
    Decoder.remaining_reads.bind fun _ left => ?_
  subst t n left
  rw [if_neg (by omega)]
  refine Decoder.position_reads.bind fun _ first => data.bind fun _ d =>
    Decoder.position_reads.bind fun _ last => ?_
  subst first last
  rw [if_pos (Nat.add_sub_cancel_left ..)]
  exact .pure (by simp only [fold, o, c, l, d])

/-- Every record that is read can be written, so it is `Encodable`. -/
theorem yields : Decoder.Yields decoder Encodable := by
  refine .bind Name.yields fun owner absolute => .bind (.trivial _) fun type _ =>
    .bind (.trivial _) fun recordClass _ => .bind (.trivial _) fun ttl _ =>
    .bind (.trivial _) fun length _ => .bind (.trivial _) fun left _ => ?_
  split
  · exact fun _ _ _ _ read => by simp at read
  refine .bind (.trivial _) fun start _ =>
    .bind (RecordData.yields type (Nat.le_of_lt_succ length.toNat_lt)) fun data encodable =>
    .bind (.trivial _) fun stop _ => ?_
  split
  · exact .pure ⟨absolute, encodable⟩
  · exact .malformed _

end Record

end NameResolution
