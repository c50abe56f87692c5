import NameResolution.Proofs.Codec.FlatNames
import NameResolution.Proofs.Codec.Presentation

/-!
# Making names

Names are made from labels, from texts, from messages, and from other names. The functions that do
so keep to the limits of names in ways of their own: labels are pushed to a row with room left for
the root, a text is pushed label by label while it is scanned, a message is read without counting
labels, and names that are cut or put together are not checked label by label. `Making` is any
composition of them.

* `RowBuilder`, `FlatName.ofLabels?`, `FlatName.parse?`, `FlatName.read`: making rows.
* `Name.flat_ofLabels?`, `Name.flat_parse?`, `Name.flat_read`: they make the rows of names.
* `Making.name`, `Making.row`: the name that is made, and the row that is made from rows.
* `Making.row_eq`: the row that is made is that of the name that is made.
* `Making.row_wellFormed`: so every row that can be made consists of labels within the limits, and
  no operation leaves it.
-/

namespace NameResolution

/-! ## Rows from labels -/

/-- A row that labels are pushed to as `content`, and how many there are. -/
structure RowBuilder where
  content : List UInt8
  count : Nat
  deriving DecidableEq

namespace RowBuilder

/-- A `RowBuilder` without labels. -/
def empty : RowBuilder := ⟨[], 0⟩

/-- Appends a `label`, leaving room for the root. -/
def push (builder : RowBuilder) (label : List UInt8) : Except NameError RowBuilder :=
  if label.length = 0 then .error .emptyLabel
  else if Label.maxLength < label.length then .error .longLabel
  else if FlatName.maxSize < builder.content.length + label.length + 2 ∨
      FlatName.maxLabels < builder.count + 2 then .error .longName
  else .ok ⟨builder.content ++ UInt8.ofNat label.length :: label, builder.count + 1⟩

/-- Every label that has been pushed to the `builder` takes at least two octets. -/
def Sound (builder : RowBuilder) : Prop := 2 * builder.count ≤ builder.content.length

theorem sound_empty : Sound empty := Nat.le_refl _

/-- There are never too many labels in a `RowBuilder` that has room for one more. -/
theorem Sound.few {builder : RowBuilder} (sound : builder.Sound) {label : List UInt8}
    (many : FlatName.maxLabels < builder.count + 2) :
    FlatName.maxSize < builder.content.length + label.length + 2 := by
  unfold Sound at sound
  unfold FlatName.maxLabels at many
  unfold FlatName.maxSize
  omega

/-- A `label` is pushed if it is one and there is room for it. -/
theorem Sound.push_eq {builder : RowBuilder} (sound : builder.Sound) (part : List UInt8) :
    builder.push part = (do
      let label ← Label.ofOctets? part
      if builder.content.length + (label.length + 1) ≤ 254 then
        return ⟨builder.content ++ label.wireOctets, builder.count + 1⟩
      else throw .longName) := by
  unfold push Label.ofOctets?
  by_cases empty : part.length = 0
  · rw [if_pos empty, dif_pos empty]
    rfl
  by_cases long : Label.maxLength < part.length
  · have large : ¬part.length ≤ 63 := Nat.not_le.mpr long
    rw [if_neg empty, if_pos long, dif_neg empty, dif_neg large]
    rfl
  · have short : part.length ≤ 63 := Nat.not_lt.mp long
    rw [if_neg empty, if_neg long, dif_neg empty, dif_pos short]
    show _ = if builder.content.length + (part.length + 1) ≤ 254 then _ else _
    by_cases room : builder.content.length + (part.length + 1) ≤ 254
    · have small : ¬FlatName.maxSize < builder.content.length + part.length + 2 := by
        unfold FlatName.maxSize
        omega
      -- The row counts labels as well as octets, but the octets decide.
      have fits : ¬(FlatName.maxSize < builder.content.length + part.length + 2 ∨
          FlatName.maxLabels < builder.count + 2) := by
        rintro (large | many)
        · exact small large
        · exact small (sound.few many)
      rw [if_neg fits, if_pos room]
      rfl
    · have large : FlatName.maxSize < builder.content.length + part.length + 2 := by
        unfold FlatName.maxSize
        omega
      rw [if_pos (.inl large), if_neg room]
      rfl

/-- There are still at least two octets for every `label` once a label has been pushed. -/
theorem Sound.snoc {builder : RowBuilder} (sound : builder.Sound) (label : Label) :
    Sound ⟨builder.content ++ label.wireOctets, builder.count + 1⟩ := by
  have positive : 1 ≤ label.length := label.nonempty
  simp only [Sound, List.length_append, Label.length_wireOctets] at sound ⊢
  omega

/-- Pushing a `part` keeps at least two octets for every label. -/
theorem Sound.push {builder pushed : RowBuilder} {part : List UInt8} (sound : builder.Sound)
    (done : builder.push part = .ok pushed) : pushed.Sound := by
  rw [sound.push_eq] at done
  cases made : Label.ofOctets? part with
  | error error =>
    rw [made] at done
    cases done
  | ok label =>
    rw [made] at done
    simp only [bind, Except.bind] at done
    by_cases room : builder.content.length + (label.length + 1) ≤ 254
    · rw [if_pos room] at done
      cases done
      exact sound.snoc label
    · rw [if_neg room] at done
      cases done

theorem Sound.foldlM {parts : List (List UInt8)} {builder pushed : RowBuilder}
    (sound : builder.Sound) (done : parts.foldlM RowBuilder.push builder = .ok pushed) :
    pushed.Sound := by
  induction parts generalizing builder with
  | nil =>
    cases done
    exact sound
  | cons part parts ih =>
    rw [List.foldlM_cons] at done
    cases first : builder.push part with
    | error error =>
      rw [first] at done
      cases done
    | ok next =>
      rw [first] at done
      exact ih (sound.push first) done

/-- Labels are pushed one after the other if they are `labels` and fit into the `room` that is
left. -/
theorem Sound.foldlM_push {builder : RowBuilder} (sound : builder.Sound)
    (parts : List (List UInt8)) {room : Nat} (left : builder.content.length + room = 254) :
    parts.foldlM RowBuilder.push builder = (Name.labelsOf? room parts).map fun labels =>
      ⟨builder.content ++ FlatName.row labels.1, builder.count + labels.1.length⟩ := by
  induction parts generalizing builder room with
  | nil =>
    show Except.ok builder = Except.ok _
    simp
  | cons part parts ih =>
    rw [List.foldlM_cons, sound.push_eq, Name.labelsOf?]
    cases made : Label.ofOctets? part with
    | error error => rfl
    | ok label =>
      simp only [bind, Except.bind]
      by_cases fits : label.length + 1 ≤ room
      · have next := sound.snoc label
        have rest : (builder.content ++ label.wireOctets).length + (room - (label.length + 1)) =
            254 := by
          rw [List.length_append, Label.length_wireOctets]
          omega
        rw [if_pos (by omega), dif_pos fits]
        show parts.foldlM RowBuilder.push
          ⟨builder.content ++ label.wireOctets, builder.count + 1⟩ = _
        rw [ih next rest]
        cases Name.labelsOf? (room - (label.length + 1)) parts with
        | error error => rfl
        | ok labels =>
          show Except.ok _ = Except.ok _
          simp [FlatName.row, Nat.add_comm, Nat.add_left_comm]
      · rw [if_neg (by omega), dif_neg fits]
        rfl

/-- The row of the labels that have been pushed, if no `fault` ended their text. -/
def finish (builder : RowBuilder) : Name.Ending → Except NameError FlatName
  | .relative => .ok ⟨builder.content, false⟩
  | .absolute => .ok ⟨builder.content, true⟩
  | .fault error => .error error

end RowBuilder

namespace FlatName

/-- The row of the labels `parts`. -/
def ofLabels? (parts : List (List UInt8)) (absolute : Bool) : Except NameError FlatName := do
  let builder ← parts.foldlM RowBuilder.push .empty
  return ⟨builder.content, absolute⟩

end FlatName

theorem Name.flat_ofLabels? (parts : List (List UInt8)) (absolute : Bool) :
    FlatName.ofLabels? parts absolute = (ofLabels? parts absolute).map flat := by
  have room : RowBuilder.empty.content.length + 254 = 254 := rfl
  rw [FlatName.ofLabels?, RowBuilder.sound_empty.foldlM_push parts room, ofLabels?]
  cases labelsOf? 254 parts <;> rfl

/-! ## Rows from texts -/

namespace FlatName

/-- Pushes the labels of a text as they are read; `label` is what has been read of the label in
progress. -/
def scan (builder : RowBuilder) (label : List UInt8) : List Char → Except NameError FlatName
  | [] => do
    let builder ← builder.push label
    return ⟨builder.content, false⟩
  | '.' :: rest => do
    let builder ← builder.push label
    if rest.isEmpty then return ⟨builder.content, true⟩ else scan builder [] rest
  | '\\' :: escaped =>
    match escaped with
    | [] => .error .badEscape
    | c :: rest =>
      if c.isDigit then
        match rest with
        | d :: e :: rest =>
          match Name.octetOfDigits? c d e with
          | some octet =>
            let label := label ++ [octet]
            if Label.maxLength < label.length then .error .longLabel
            else scan builder label rest
          | none => .error .badEscape
        | _ => .error .badEscape
      else
        let label := label ++ String.utf8EncodeChar c
        if Label.maxLength < label.length then .error .longLabel else scan builder label rest
  | c :: rest =>
    let label := label ++ String.utf8EncodeChar c
    if Label.maxLength < label.length then .error .longLabel else scan builder label rest

/-- The row that a text stands for: a relative name is taken below `origin`, and `@` is the origin
itself or the empty name. -/
def parse? (text : String) (origin : Option FlatName) : Except FlatFault FlatName :=
  if text = "@" then .ok (origin.getD empty)
  else if text = "." then .ok root
  else if text = "" then .error (.refused (.name .emptyLabel))
  else do
    let name ← (scan .empty [] text.toList).mapError fun error => .refused (.name error)
    match origin with
    | none => return name
    | some origin => if name.absolute then return name else name.append origin

/-- A text other than `@` stands for a row with the origin behind it: only an absolute row stays as
it is, and appending leaves it so. -/
theorem parse?_some {text : String} {origin : FlatName} (named : text ≠ "@") :
    parse? text (some origin) = (do
      let name ← parse? text none
      name.append origin) := by
  have closed {name : FlatName} :
      (if name.absolute then .ok name else name.append origin) = name.append origin := by
    by_cases absolute : name.absolute = true
    · rw [if_pos absolute, append, if_pos absolute]
    · rw [if_neg absolute]
  unfold parse?
  rw [if_neg named, if_neg named]
  by_cases top : text = "."
  · rw [if_pos top, if_pos top]
    rfl
  by_cases blank : text = ""
  · rw [if_neg top, if_pos blank, if_neg top, if_pos blank]
    rfl
  · rw [if_neg top, if_neg blank, if_neg top, if_neg blank]
    cases scan .empty [] text.toList with
    | error error => rfl
    | ok name => exact closed

/-- A character `c` behind a backslash is read as it is unless it is a digit. -/
theorem scan_escaped {builder : RowBuilder} {label : List UInt8} {c : Char} {rest : List Char}
    (other : ¬c.isDigit = true) :
    scan builder label ('\\' :: c :: rest) =
      if Label.maxLength < (label ++ String.utf8EncodeChar c).length then .error .longLabel
      else scan builder (label ++ String.utf8EncodeChar c) rest := by
  -- Only the next three characters decide which equation of the scanner applies.
  rcases rest with _ | ⟨d, _ | ⟨e, rest⟩⟩
  all_goals simp only [scan, other, Bool.false_eq_true, if_false]

/-- To push labels while scanning a `text` is to push the labels that `Name.scan` finds in it. -/
theorem scan_eq (builder : RowBuilder) (label : List UInt8) (text : List Char) :
    scan builder label text = (do
      let builder ← (Name.scan label text).1.foldlM RowBuilder.push builder
      builder.finish (Name.scan label text).2) := by
  fun_induction Name.scan label text generalizing builder with
  | case1 label =>
    rw [scan, List.foldlM_cons]
    cases builder.push label <;> rfl
  | case2 label rest ends =>
    rw [scan, List.foldlM_cons]
    cases builder.push label with
    | error error => rfl
    | ok pushed =>
      simp only [ends]
      rfl
  | case3 label rest more labels ending behind ih =>
    rw [scan, List.foldlM_cons]
    cases builder.push label with
    | error error => rfl
    | ok pushed =>
      have rest := ih pushed
      rw [behind] at rest
      simp only [bind, Except.bind, if_neg more]
      exact rest
  | case4 label => rfl
  | case5 label c digit d e rest octet value _ long =>
    simp only [scan, digit, value, if_true]
    rw [if_pos long]
    rfl
  | case6 label c digit d e rest octet value _ short =>
    rename_i ih
    simp only [scan, digit, value, if_true]
    rw [if_neg short]
    exact ih builder
  | case7 label c digit d e rest value =>
    simp only [scan, digit, value, if_true]
    rfl
  | case8 label c rest digit few =>
    rcases rest with _ | ⟨d, _ | ⟨e, rest⟩⟩
    · simp only [scan, digit, if_true]
      rfl
    · simp only [scan, digit, if_true]
      rfl
    · exact (few d e rest rfl).elim
  | case9 label c rest other _ long =>
    rw [scan_escaped other, if_pos long]
    rfl
  | case10 label c rest other _ short =>
    rename_i ih
    rw [scan_escaped other, if_neg short]
    exact ih builder
  | case11 label c rest dot backslash _ long =>
    rw [scan]
    · rw [if_pos long]
      rfl
    · exact dot
    · exact backslash
  | case12 label c rest dot backslash _ short =>
    rename_i ih
    rw [scan]
    · rw [if_neg short]
      exact ih builder
    · exact dot
    · exact backslash

end FlatName

namespace Name

/-- The `labels` that are scanned make the row of the name that they make. -/
theorem flat_ofScan? (labels : List (List UInt8)) (ending : Ending) :
    (do
      let builder ← labels.foldlM RowBuilder.push .empty
      builder.finish ending) = (ofScan? labels ending).map flat := by
  cases ending with
  | relative => exact flat_ofLabels? labels false
  | absolute => exact flat_ofLabels? labels true
  | fault error =>
    have room : RowBuilder.empty.content.length + 254 = 254 := rfl
    rw [RowBuilder.sound_empty.foldlM_push labels room, ofScan?, ofLabels?]
    cases labelsOf? 254 labels <;> rfl

theorem flat_ofText? (text : String) :
    FlatName.parse? text none = flattened flat ((ofText? text).mapError .name) := by
  by_cases nameless : text = "@"
  · subst nameless
    rfl
  by_cases top : text = "."
  · subst top
    rfl
  by_cases blank : text = ""
  · subst blank
    rfl
  · have scanned : ofText? text = ofScan? (scan [] text.toList).1 (scan [] text.toList).2 := by
      rw [ofText?, if_neg nameless, if_neg top]
    rw [FlatName.parse?, if_neg nameless, if_neg top, if_neg blank, FlatName.scan_eq, flat_ofScan?,
      scanned]
    cases ofScan? (scan [] text.toList).1 (scan [] text.toList).2 <;> rfl

theorem flat_parse? (text : String) (origin : Option Name) :
    FlatName.parse? text (origin.map flat) =
      flattened flat ((parse? text origin).mapError .name) := by
  cases origin with
  | none => exact flat_ofText? text
  | some origin =>
    by_cases nameless : text = "@"
    · subst nameless
      rfl
    · show FlatName.parse? text (some origin.flat) = _
      rw [FlatName.parse?_some nameless, flat_ofText?, parse?, if_neg nameless]
      cases ofText? text with
      | error error => rfl
      | ok name => exact flat_append name origin

end Name

/-! ## Rows from messages -/

namespace FlatName

/-- Appends the labels that are read from position `pos` to `content`, leaving room for the root;
gives the position behind them as well. -/
def readRow (message : Octets) (pos : Nat) (content : List UInt8) :
    Except DecodeError (List UInt8 × Nat) :=
  match message[pos]? with
  | none => .error .shortInput
  | some first =>
    let length := first.toNat
    if length = 0 then .ok (content, pos + 1)
    else if length < 64 then
      if maxSize < content.length + length + 2 then .error (.form .longName)
      else if pos + 1 + length ≤ message.size then
        readRow message (pos + 1 + length)
          (content ++ first :: (message.extract (pos + 1) (pos + 1 + length)).toList)
      else .error .shortInput
    else if 192 ≤ length then
      match message[pos + 1]? with
      | none => .error .shortInput
      | some second =>
        let target := (length - 192) * 256 + second.toNat
        if target < pos then do
          let (content, _) ← readRow message target content
          return (content, pos + 2)
        else .error (.form .invalidPointer)
    else .error (.form .invalidLabelType)
  termination_by (maxSize - content.length, pos)
  decreasing_by
    · apply Prod.Lex.left
      simp only [maxSize, List.length_append, List.length_cons] at *
      omega
    · exact Prod.Lex.right _ ‹_›

/-- Reads the row of a name from the place `pos` of a `message`. -/
def read (message : Octets) (pos : Nat) : Except DecodeError (FlatName × Nat) := do
  let (content, next) ← readRow message pos []
  return (⟨content, true⟩, next)

/-- A label is too long for a row exactly if it does not fit into the `room` that is left. -/
theorem maxSize_lt_iff {content : List UInt8} {room length : Nat}
    (left : content.length + room = 254) :
    maxSize < content.length + length + 2 ↔ room < length + 1 := by
  unfold maxSize
  omega

/-- Reading a `row` is reading the `labels` of the row, if the `room` that is left is the same. -/
theorem readRow_eq (message : Octets) {pos room : Nat} {content : List UInt8}
    (left : content.length + room = 254) :
    readRow message pos content =
      (readLabels message pos room).map fun run => (content ++ row run.labels, run.next) := by
  -- Both make the same tests in the same order; only what is left is counted in different ways.
  fun_induction readLabels message pos room generalizing content with
  | case1 pos room missing =>
    rw [readRow]
    simp only [missing]
    rfl
  | case2 pos room first octet length =>
    rename_i ends
    rw [readRow]
    simp only [octet, length] at ends ⊢
    rw [if_pos ends]
    simp [Except.map]
  | case3 pos room first octet length =>
    rename_i ends normal fits inside octets size label _ ih
    rw [readRow]
    simp only [octet, length] at ends normal fits inside ih ⊢
    have small := mt (maxSize_lt_iff left).mp (Nat.not_lt.mpr fits)
    have whole : (content ++ first :: octets).length + (room - (first.toNat + 1)) = 254 := by
      rw [List.length_append, List.length_cons, size]
      omega
    rw [if_neg ends, if_pos normal, if_neg small, if_pos inside, ih whole]
    cases readLabels message (pos + 1 + first.toNat) (room - (first.toNat + 1)) with
    | error error => rfl
    | ok run =>
      have front : UInt8.ofNat label.length :: label.octets = first :: octets := by
        show UInt8.ofNat octets.length :: octets = _
        rw [size, UInt8.ofNat_toNat]
      have rows : content ++ first :: octets ++ row run.labels =
          content ++ row (label :: run.labels) := by
        rw [row_cons, ← List.cons_append, front, List.append_assoc]
      exact congrArg (fun content => Except.ok (content, run.next)) rows
  | case4 pos room first octet length =>
    rename_i ends normal fits outside
    rw [readRow]
    simp only [octet, length] at ends normal fits outside ⊢
    have small := mt (maxSize_lt_iff left).mp (Nat.not_lt.mpr fits)
    rw [if_neg ends, if_pos normal, if_neg small, if_neg outside]
    rfl
  | case5 pos room first octet length =>
    rename_i ends normal full
    rw [readRow]
    simp only [octet, length] at ends normal full ⊢
    have large := (maxSize_lt_iff left).mpr (Nat.not_le.mp full)
    rw [if_neg ends, if_pos normal, if_pos large]
    rfl
  | case6 pos room first octet length =>
    rename_i ends normal pointer missing
    rw [readRow]
    simp only [octet, missing, length] at ends normal pointer ⊢
    rw [if_neg ends, if_neg normal, if_pos pointer]
    rfl
  | case7 pos room first octet length =>
    rename_i ends normal pointer second low target before ih
    rw [readRow]
    simp only [octet, low, length, target] at ends normal pointer before ih ⊢
    rw [if_neg ends, if_neg normal, if_pos pointer, if_pos before, ih left]
    cases readLabels message ((first.toNat - 192) * 256 + second.toNat) room <;> rfl
  | case8 pos room first octet length =>
    rename_i ends normal pointer second low target onward
    rw [readRow]
    simp only [octet, low, length, target] at ends normal pointer onward ⊢
    rw [if_neg ends, if_neg normal, if_pos pointer, if_neg onward]
    rfl
  | case9 pos room first octet length =>
    rename_i ends normal other
    rw [readRow]
    simp only [octet, length] at ends normal other ⊢
    rw [if_neg ends, if_neg normal, if_neg other]
    rfl

end FlatName

theorem Name.flat_read (message : Octets) (pos : Nat) :
    FlatName.read message pos =
      (Name.decoder message pos).map fun (name, next) => (name.flat, next) := by
  have room : ([] : List UInt8).length + 254 = 254 := rfl
  rw [FlatName.read, FlatName.readRow_eq message room, Name.decoder]
  cases readLabels message pos 254 <;> rfl

/-! ## Compositions -/

/-- The `value`, or else the `fault` that there is none. -/
def required {ε α : Type} (fault : ε) : Option α → Except ε α
  | none => .error fault
  | some value => .ok value

/-- A composition of the functions that make names. `suffix` takes a name or one of its ancestors by
its place, `relative` cuts off an origin, `joined` appends, and `rewritten` replaces an ancestor. -/
inductive Making
  | root
  | empty
  | labels (parts : List (List UInt8)) (absolute : Bool)
  | parsed (text : String)
  | parsedBelow (text : String) (origin : Making)
  | decoded (message : Octets) (pos : Nat)
  | parent (making : Making)
  | suffix (making : Making) (index : Nat)
  | relative (making origin : Making)
  | joined (front back : Making)
  | rewritten (making owner target : Making)

namespace Making

/-- The `name` that is made. -/
def name : Making → Except Refusal Name
  | root => .ok .root
  | empty => .ok .empty
  | labels parts absolute => (Name.ofLabels? parts absolute).mapError .name
  | parsed text => (Name.parse? text none).mapError .name
  | parsedBelow text origin => do
    let origin ← origin.name
    (Name.parse? text (some origin)).mapError .name
  | decoded message pos => ((Name.decoder message pos).map Prod.fst).mapError .octets
  | parent making => do
    let name ← making.name
    required .nothing name.parent?
  | suffix making index => do
    let name ← making.name
    required .nothing name.suffixes[index]?
  | relative making origin => do
    let name ← making.name
    let origin ← origin.name
    return name.relativize origin
  | joined front back => do
    let front ← front.name
    let back ← back.name
    (front.append? back).mapError .name
  | rewritten making owner target => do
    let name ← making.name
    let owner ← owner.name
    let target ← target.name
    required .nothing (← (name.rewrite? owner target).mapError .name)

/-- The `row` that is made, with rows all the way. -/
def row : Making → Except FlatFault FlatName
  | root => .ok .root
  | empty => .ok .empty
  | labels parts absolute =>
    (FlatName.ofLabels? parts absolute).mapError fun error => .refused (.name error)
  | parsed text => FlatName.parse? text none
  | parsedBelow text origin => do
    let origin ← origin.row
    FlatName.parse? text (some origin)
  | decoded message pos =>
    ((FlatName.read message pos).map Prod.fst).mapError fun error => .refused (.octets error)
  | parent making => do
    let name ← making.row
    required (.refused .nothing) (← name.parent?)
  | suffix making index => do
    let name ← making.row
    let suffixes ← name.suffixes
    required (.refused .nothing) suffixes[index]?
  | relative making origin => do
    let name ← making.row
    let origin ← origin.row
    name.relativize origin
  | joined front back => do
    let front ← front.row
    let back ← back.row
    front.append back
  | rewritten making owner target => do
    let name ← making.row
    let owner ← owner.row
    let target ← target.row
    required (.refused .nothing) (← name.rewrite? owner target)

end Making

namespace Name

/-- What follows by `next` on a name that was `made` may follow by `nextRow` on its row. -/
theorem flattened_bind {α β γ δ : Type} {toRow : α → β} {toNext : γ → δ} (made : Except Refusal α)
    {next : α → Except Refusal γ} {nextRow : β → Except FlatFault δ}
    (agree : ∀ value, nextRow (toRow value) = flattened toNext (next value)) :
    (flattened toRow made >>= nextRow) = flattened toNext (made >>= next) := by
  cases made with
  | error refusal => rfl
  | ok value => exact agree value

theorem required_map {α β : Type} (toRow : α → β) (value : Option α) :
    required (.refused .nothing) (value.map toRow) = flattened toRow (required .nothing value) := by
  cases value <;> rfl

end Name

namespace Making

open Name

/-- The `row` that is made is that of the `name` that is made. -/
theorem row_eq (making : Making) : making.row = flattened flat making.name := by
  induction making with
  | root => rfl
  | empty => rfl
  | labels parts absolute =>
    rw [row, flat_ofLabels?, name]
    cases Name.ofLabels? parts absolute <;> rfl
  | parsed text => exact flat_parse? text none
  | parsedBelow text origin ih =>
    rw [row, ih, name]
    exact flattened_bind _ fun origin => flat_parse? text (some origin)
  | decoded message pos =>
    rw [row, flat_read, name]
    cases Name.decoder message pos <;> rfl
  | parent making ih =>
    rw [row, ih, name]
    refine flattened_bind _ fun own => ?_
    rw [flat_parent?]
    exact required_map flat own.parent?
  | suffix making index ih =>
    rw [row, ih, name]
    refine flattened_bind _ fun own => ?_
    rw [flat_suffixes]
    show required _ (own.suffixes.map flat)[index]? = _
    rw [List.getElem?_map]
    exact required_map flat own.suffixes[index]?
  | relative making origin ih above =>
    rw [row, ih, above, name]
    refine flattened_bind _ fun own => flattened_bind _ fun origin => ?_
    exact flat_relativize own origin
  | joined front back ih behind =>
    rw [row, ih, behind, name]
    refine flattened_bind _ fun front => flattened_bind _ fun back => ?_
    exact flat_append front back
  | rewritten making owner target ih above instead =>
    rw [row, ih, above, instead, name]
    refine flattened_bind _ fun own => flattened_bind _ fun owner => ?_
    refine flattened_bind _ fun target => ?_
    rw [flat_rewrite?]
    exact flattened_bind _ fun value => required_map flat value

end Making

/-! ## Well-formed rows -/

namespace FlatName

/-- The `content` of the row consists of labels within the limits of names, its length octets lead
from label to label until the row ends, and there is room for the root. -/
structure WellFormed (name : FlatName) : Prop where
  tiled : ∃ labels, cut name.content = .ok labels ∧
    (labels.flatMap fun label => UInt8.ofNat label.length :: label) = name.content ∧
    (∀ label ∈ labels, 1 ≤ label.length ∧ label.length ≤ 63) ∧ labels.length ≤ 127
  size : name.content.length ≤ 254
  wire : name.wireLength ≤ 255
  starts : ∀ index ≤ name.content.length, ∃ found, startsAt name.content index 0 = .ok found
  ancestors : ∃ below, name.suffixes = .ok (below ++ [if name.absolute then root else empty])
  rooted : name.append root = .ok ⟨name.content, true⟩

end FlatName

namespace Name

theorem suffixes_ends (name : Name) :
    ∃ below, name.suffixes = below ++ [if name.absolute then root else empty] := by
  obtain ⟨labels, absolute, fits⟩ := name
  induction labels with
  | nil =>
    refine ⟨[], ?_⟩
    cases absolute <;> rfl
  | cons label labels ih =>
    obtain ⟨below, ends⟩ := ih (fits_tail fits)
    exact ⟨⟨label :: labels, absolute, fits⟩ :: below, congrArg (List.cons _) ends⟩

/-- The row of a `name` is well formed. -/
theorem wellFormed_flat (name : Name) : name.flat.WellFormed where
  tiled := by
    refine ⟨name.labels.map Label.octets, FlatName.cut_row name.labels, List.flatMap_map .., ?_, ?_⟩
    · intro part mem
      obtain ⟨label, -, rfl⟩ := List.mem_map.mp mem
      exact ⟨label.nonempty, label.short⟩
    · rw [List.length_map]
      exact name.length_labels_le
  size := by
    rw [flat, FlatName.length_row]
    exact name.fits
  wire := by
    have fits := name.fits
    rw [FlatName.wireLength, flat, FlatName.length_row]
    split <;> omega
  starts := by
    intro index inside
    rw [flat, FlatName.length_row] at inside
    have inside : index ≤ ([] : List UInt8).length + wireSize name.labels := by
      rw [List.length_nil]
      omega
    obtain ⟨found, starts, -⟩ := FlatName.startsAt_append [] name.labels inside
    exact ⟨found, starts⟩
  ancestors := by
    obtain ⟨below, ends⟩ := name.suffixes_ends
    refine ⟨below.map flat, ?_⟩
    rw [flat_suffixes, ends, List.map_append]
    show _ = Except.ok (_ ++ [if name.absolute then FlatName.root else FlatName.empty])
    cases name.absolute <;> rfl
  rooted := by
    show name.flat.append Name.root.flat = _
    rw [flat_append, append?]
    by_cases absolute : name.absolute = true
    · rw [if_pos absolute, flat, ← absolute]
      rfl
    · have fits : wireSize (name.labels ++ Name.root.labels) ≤ 254 := by
        rw [root, List.append_nil]
        exact name.fits
      rw [if_neg absolute, dif_pos fits]
      show Except.ok (FlatName.mk (FlatName.row (name.labels ++ [])) true) = _
      rw [List.append_nil]
      rfl

end Name

/-- Every name that can be `made` is well formed. However names are made from labels, texts,
messages and each other by a `Making`, no operation leaves a row, and the row that is made is the
`flat` form of the name, whose labels keep to the limits; the chain of its parents ends in the root
or in the empty name. The limits on the number of labels never decide: where there are too many
labels to `push` one more, or to append a name, there are too many octets. -/
theorem Making.row_wellFormed :
    (∀ making : Making,
      making.row = Name.flattened Name.flat making.name ∧ making.row ≠ .error .outOfRange ∧
      ∀ made, making.row = .ok made → made.WellFormed) ∧
    (∀ (parts : List (List UInt8)) (builder : RowBuilder) (label : List UInt8),
      parts.foldlM RowBuilder.push .empty = .ok builder →
      FlatName.maxLabels < builder.count + 2 →
      FlatName.maxSize < builder.content.length + label.length + 2) ∧
    ∀ (front back : Making) (name suffix : FlatName) (labels more : List (List UInt8)),
      front.row = .ok name → back.row = .ok suffix →
      FlatName.cut name.content = .ok labels → FlatName.cut suffix.content = .ok more →
      FlatName.maxLabels < labels.length + more.length + 1 →
      FlatName.maxSize < name.content.length + suffix.content.length + 1 := by
  -- Every row that is made is that of a name, by `row_eq`; what is to be shown of it is shown of
  -- names.
  have made {making : Making} {flat : FlatName} (done : making.row = .ok flat) :
      ∃ name, making.name = .ok name ∧ name.flat = flat := by
    rw [making.row_eq] at done
    cases known : making.name with
    | error refusal =>
      rw [known] at done
      cases done
    | ok name =>
      rw [known] at done
      exact ⟨name, rfl, Except.ok.inj done⟩
  refine ⟨fun making => ⟨making.row_eq, ?_, ?_⟩, ?_, ?_⟩
  · rw [making.row_eq]
    cases making.name <;> simp [Name.flattened]
  · intro flat done
    obtain ⟨name, -, rfl⟩ := made done
    exact name.wellFormed_flat
  · intro parts builder label pushed many
    exact (RowBuilder.sound_empty.foldlM pushed).few many
  · intro front back name suffix labels more first second cut behind many
    obtain ⟨name, -, rfl⟩ := made first
    obtain ⟨suffix, -, rfl⟩ := made second
    obtain rfl := Except.ok.inj ((FlatName.cut_row name.labels).symm.trans cut)
    obtain rfl := Except.ok.inj ((FlatName.cut_row suffix.labels).symm.trans behind)
    -- The labels are too many only where their octets are.
    have size := Name.two_mul_length_le name.labels
    have other := Name.two_mul_length_le suffix.labels
    rw [List.length_map, List.length_map, FlatName.maxLabels] at many
    rw [Name.flat, Name.flat, FlatName.length_row, FlatName.length_row, FlatName.maxSize]
    omega

/-- The row of `count` labels of one octet. -/
def FlatName.ones (count : Nat) : List UInt8 := (List.replicate count [1, 97]).flatten

/-- What `a.b.c.` has above `c.`, below the parent of a name in a message. -/
def Making.moved : Making :=
  .joined (.relative (.parsed "a.b.c.") (.parsed "c.")) (.parent (.decoded #[1, 100, 1, 101, 0] 0))

/-- There is no room behind 127 labels of one octet, nor behind 64 of them for as many again,
although the `moved` row is well formed. -/
theorem Making.row_wellFormed_moved :
    moved.row = .ok ⟨[1, 97, 1, 98, 1, 101], true⟩ ∧
    FlatName.WellFormed ⟨[1, 97, 1, 98, 1, 101], true⟩ ∧
    FlatName.maxSize < (FlatName.ones 127).length + ([98] : List UInt8).length + 2 ∧
    FlatName.maxSize < (FlatName.ones 64).length + (FlatName.ones 64).length + 1 := by
  have row : moved.row = .ok ⟨[1, 97, 1, 98, 1, 101], true⟩ := by
    have read : Name.decoder #[1, 100, 1, 101, 0] 0 =
        .ok (⟨[Name.single 100, Name.single 101], true, by decide⟩, 5) := by
      simp [Name.decoder, readLabels, bind, Except.bind, pure, Except.pure, Name.single]
    rw [row_eq]
    simp only [moved, name, read]
    rfl
  obtain ⟨builder, pushed, content, count⟩ : ∃ builder : RowBuilder,
      (List.replicate 127 [97]).foldlM RowBuilder.push .empty = .ok builder ∧
      builder.content = FlatName.ones 127 ∧ builder.count = 127 :=
    ⟨⟨FlatName.ones 127, 127⟩, by decide +kernel, rfl, rfl⟩
  obtain ⟨half, made, same⟩ : ∃ half : FlatName,
      (labels (List.replicate 64 [97]) false).row = .ok half ∧ half.content = FlatName.ones 64 :=
    ⟨⟨FlatName.ones 64, false⟩, by decide +kernel, rfl⟩
  have cut : FlatName.cut (FlatName.ones 64) = .ok (List.replicate 64 [97]) := by
    have ones : FlatName.ones 64 = FlatName.row (List.replicate 64 (Name.single 97)) := by
      decide +kernel
    rw [ones, FlatName.cut_row, List.map_replicate]
    rfl
  have full := row_wellFormed.2.1 _ _ [98] pushed (by rw [count]; decide)
  rw [← same] at cut ⊢
  have joined := row_wellFormed.2.2 _ _ _ _ _ _ made made cut cut (by simp [FlatName.maxLabels])
  rw [content] at full
  exact ⟨row, (row_wellFormed.1 moved).2.2 _ row, full, joined⟩

end NameResolution
