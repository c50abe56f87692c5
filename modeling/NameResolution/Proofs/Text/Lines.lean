import NameResolution.Text.Line

/-!
# Lines and words of texts

Lines are found in octets, before these are read as text. A line feed is never part of another
character, so they are the lines of the text.

* `Text.linesOf`: the lines of a text in characters. `Text.lines_octets`: the lines of its octets
  are these.
* `Text.linesOf_join`: lines that are written one after the other are read as these lines.
* `Text.words_intercalate`: so are words with a blank between any two of them.
-/

namespace NameResolution

namespace Text

/-- A `text` in UTF-8. -/
def octets (text : String) : List UInt8 := text.toUTF8.data.toList

/-! ## Lines in characters -/

/-- The pieces of a text between line feeds, behind the characters `piece` of a piece that has
begun, each with whether a line feed ends it. -/
def splitFeeds (piece : List Char) : List Char → List (List Char × Bool)
  | [] => if piece.isEmpty then [] else [(piece.reverse, false)]
  | c :: rest =>
    if c = '\n' then (piece.reverse, true) :: splitFeeds [] rest else splitFeeds (c :: piece) rest

/-- A `piece` without the carriage return that belongs to its line feed. -/
def withoutReturn : List Char × Bool → List Char
  | (piece, true) => if piece.getLast? = some '\r' then piece.dropLast else piece
  | (piece, false) => piece

/-- The lines of a `text`. -/
def linesOf (text : String) : List String :=
  (splitFeeds [] text.toList).map fun piece => String.ofList (withoutReturn piece)

/-! ## Lines in octets -/

/-- The octets of `chars` in UTF-8. -/
def encode (chars : List Char) : List UInt8 := chars.flatMap String.utf8EncodeChar

theorem octets_eq (text : String) : octets text = encode text.toList := by
  rw [octets, String.toUTF8_eq_toByteArray, ← String.utf8Encode_toList, List.utf8Encode,
    List.toList_data_toByteArray, encode]

@[simp] theorem encode_nil : encode [] = [] := rfl

@[simp] theorem encode_cons (c : Char) (chars : List Char) :
    encode (c :: chars) = String.utf8EncodeChar c ++ encode chars := List.flatMap_cons

@[simp] theorem encode_append (chars more : List Char) :
    encode (chars ++ more) = encode chars ++ encode more := List.flatMap_append

theorem encode_eq_nil_iff {chars : List Char} : encode chars = [] ↔ chars = [] := by
  cases chars with
  | nil => exact iff_of_true rfl rfl
  | cons c chars => simp [String.utf8EncodeChar_ne_nil]

/-- The `octet` of an ASCII character stands for this character alone. -/
theorem encodeChar_of_mem {c : Char} {octet : UInt8} (ascii : octet.toNat < 128)
    (member : octet ∈ String.utf8EncodeChar c) :
    String.utf8EncodeChar c = [octet] ∧ c.toNat = octet.toNat := by
  have bound := c.val.toNat_lt
  unfold String.utf8EncodeChar at member ⊢
  dsimp only at member ⊢
  split at member
  · rename_i small
    obtain rfl := List.mem_singleton.mp member
    rw [if_pos small]
    refine ⟨rfl, ?_⟩
    rw [UInt8.toNat_ofNat_of_lt' (Nat.lt_of_le_of_lt small (by decide))]
    rfl
  -- In all longer forms every octet is at least 128.
  all_goals
    exfalso
    repeat' split at member
    all_goals
      simp only [List.mem_cons, List.not_mem_nil, or_false] at member
      rcases member with rfl | rfl | rfl | rfl
      all_goals
        simp only [UInt8.toNat_ofNat'] at ascii
        omega

/-- The octet of a line feed occurs in no character `c` but this. -/
theorem feed_not_mem_encodeChar {c : Char} (other : c ≠ '\n') :
    ∀ octet ∈ String.utf8EncodeChar c, octet ≠ 10 := by
  rintro octet member rfl
  exact other (Char.toNat_inj.mp (encodeChar_of_mem (Nat.lt_of_sub_eq_succ rfl) member).2)

/-- No character `c` but a carriage return ends like one. -/
theorem getLast?_encodeChar_ne {c : Char} (other : c ≠ '\r') :
    (String.utf8EncodeChar c).getLast? ≠ some 13 := by
  intro last
  have member := List.mem_of_getLast? last
  exact other (Char.toNat_inj.mp (encodeChar_of_mem (Nat.lt_of_sub_eq_succ rfl) member).2)

theorem splitLines_append (piece : List UInt8) {octets : List UInt8}
    (none : ∀ octet ∈ octets, octet ≠ 10) (rest : List UInt8) :
    splitLines piece (octets ++ rest) = splitLines (octets.reverse ++ piece) rest := by
  induction octets generalizing piece with
  | nil => rfl
  | cons octet octets ih =>
    rw [List.forall_mem_cons] at none
    rw [List.cons_append, splitLines, if_neg none.1, ih _ none.2, List.reverse_cons,
      List.append_assoc, List.singleton_append]

/-- The octets of a text have the same pieces as its characters. The octets of the `piece` that has
begun are kept in reverse, as its characters are. -/
theorem splitLines_encode (piece chars : List Char) :
    splitLines (encode piece.reverse).reverse (encode chars) =
      (splitFeeds piece chars).map fun part => (encode part.1, part.2) := by
  induction chars generalizing piece with
  | nil =>
    cases piece with
    | nil => rfl
    | cons c piece =>
      have filled : (encode (c :: piece).reverse).reverse.isEmpty = false := by
        rw [List.isEmpty_eq_false_iff, ne_eq, List.reverse_eq_nil_iff, encode_eq_nil_iff]
        simp
      rw [encode_nil, splitLines, filled]
      simp [splitFeeds]
  | cons c rest ih =>
    rw [splitFeeds]
    split
    · -- A line feed ends the piece: a fresh one begins with the rest.
      rename_i feed
      subst feed
      have fresh := ih []
      rw [List.reverse_nil, encode_nil, List.reverse_nil] at fresh
      have feed : encode ('\n' :: rest) = 10 :: encode rest := rfl
      rw [List.map_cons, ← fresh, feed, splitLines, if_pos rfl, List.reverse_reverse]
    · -- No octet of another character is a line feed, so all of them join the piece.
      rename_i other
      have longer := ih (c :: piece)
      rw [List.reverse_cons, encode_append, List.reverse_append, encode_cons, encode_nil,
        List.append_nil] at longer
      rw [encode_cons, splitLines_append _ (feed_not_mem_encodeChar other), longer]

theorem dropReturn_encode (part : List Char × Bool) :
    dropReturn (encode part.1, part.2) = encode (withoutReturn part) := by
  obtain ⟨chars, _ | _⟩ := part
  · rfl
  obtain rfl | ⟨front, c, rfl⟩ := List.eq_nil_or_concat chars
  · rfl
  have octets : encode (front ++ [c]) = encode front ++ String.utf8EncodeChar c := by simp
  have last : (encode front ++ String.utf8EncodeChar c).getLast? =
      (String.utf8EncodeChar c).getLast? := by
    rw [List.getLast?_append, List.getLast?_eq_some_getLast String.utf8EncodeChar_ne_nil,
      Option.some_or]
  rw [List.concat_eq_append, octets]
  by_cases ends : c = '\r'
  · subst ends
    have single : String.utf8EncodeChar '\r' = [13] := rfl
    simp [dropReturn, withoutReturn, single]
  · simp [dropReturn, withoutReturn, last, ends, getLast?_encodeChar_ne ends]

theorem fromUTF8?_encode (chars : List Char) :
    String.fromUTF8? ⟨(encode chars).toArray⟩ = some (String.ofList chars) := by
  have same : (⟨(encode chars).toArray⟩ : ByteArray) = chars.utf8Encode := by
    rw [ByteArray.ext_iff, List.utf8Encode, List.data_toByteArray, encode]
  rw [same, String.fromUTF8?, dif_pos ByteArray.isValidUTF8_utf8Encode]
  rfl

/-- The `lines` of the `octets` of a `text` are the lines of the text. -/
theorem lines_octets (text : String) : lines (octets text) = (linesOf text).map some := by
  have pieces := splitLines_encode [] text.toList
  rw [List.reverse_nil, encode_nil, List.reverse_nil] at pieces
  rw [octets_eq, lines, pieces, linesOf, List.map_map, List.map_map]
  refine List.map_congr_left fun part _ => ?_
  show String.fromUTF8? ⟨(dropReturn (encode part.1, part.2)).toArray⟩ = _
  rw [dropReturn_encode, fromUTF8?_encode]
  rfl

/-! ## Lines that are written -/

theorem splitFeeds_append (piece : List Char) {line : List Char} (none : ∀ c ∈ line, c ≠ '\n')
    (rest : List Char) :
    splitFeeds piece (line ++ '\n' :: rest) =
      (piece.reverse ++ line, true) :: splitFeeds [] rest := by
  induction line generalizing piece with
  | nil => simp [splitFeeds]
  | cons c line ih =>
    rw [List.forall_mem_cons] at none
    rw [List.cons_append, splitFeeds, if_neg none.1, ih _ none.2]
    simp

/-- A text that is written as one `line`: there is no character in it that ends a line. -/
def IsLine (line : String) : Prop := ∀ c ∈ line.toList, c ≠ '\n' ∧ c ≠ '\r'

/-- Lines that are written one after the other are read as these `lines`. -/
theorem linesOf_join {lines : List String} (single : ∀ line ∈ lines, IsLine line) :
    linesOf (String.join (lines.map (· ++ "\n"))) = lines := by
  have feed : "\n".toList = ['\n'] := rfl
  unfold linesOf
  induction lines with
  | nil => rfl
  | cons line lines ih =>
    rw [List.forall_mem_cons] at single
    have plain : withoutReturn (line.toList, true) = line.toList :=
      if_neg fun last => (single.1 '\r' (List.mem_of_getLast? last)).2 rfl
    rw [List.map_cons, String.join_cons, String.toList_append, String.toList_append, feed,
      List.append_assoc, List.singleton_append,
      splitFeeds_append [] fun c member => (single.1 c member).1, List.map_cons, ih single.2,
      List.reverse_nil, List.nil_append, plain, String.ofList_toList]

/-! ## Words -/

/-- There is no blank among the `chars`. -/
def Solid (chars : List Char) : Prop := ∀ c ∈ chars, isBlank c = false

instance (chars : List Char) : Decidable (Solid chars) :=
  decidable_of_iff (chars.all fun c => !isBlank c) (by simp [Solid])

@[simp] theorem solid_nil : Solid [] := fun _ member => nomatch member

@[simp] theorem solid_cons {c : Char} {chars : List Char} :
    Solid (c :: chars) ↔ isBlank c = false ∧ Solid chars := List.forall_mem_cons

@[simp] theorem solid_append {chars more : List Char} :
    Solid (chars ++ more) ↔ Solid chars ∧ Solid more := List.forall_mem_append

/-- The text `word` is written as one word: it is not empty, and there is no blank in it. -/
structure IsWord (word : String) : Prop where
  filled : word ≠ ""
  solid : Solid word.toList

theorem wordsFrom_append (word : List Char) {letters : List Char} (solid : Solid letters)
    (rest : List Char) :
    wordsFrom word (letters ++ rest) = wordsFrom (letters.reverse ++ word) rest := by
  induction letters generalizing word with
  | nil => rfl
  | cons c letters ih =>
    rw [solid_cons] at solid
    rw [List.cons_append, wordsFrom, solid.1, if_neg Bool.false_ne_true, ih _ solid.2,
      List.reverse_cons, List.append_assoc, List.singleton_append]

/-- Words with a blank between any two of them (`intercalate`) are read as these words. -/
theorem words_intercalate {texts : List String} (each : ∀ text ∈ texts, IsWord text) :
    words (" ".intercalate texts) = texts := by
  unfold words
  induction texts with
  | nil => rfl
  | cons text texts ih =>
    rw [List.forall_mem_cons] at each
    have filled : text.toList.reverse.isEmpty = false := by
      rw [List.isEmpty_eq_false_iff, ne_eq, List.reverse_eq_nil_iff, String.toList_eq_nil_iff]
      exact each.1.filled
    have whole : String.ofList text.toList.reverse.reverse = text := by
      rw [List.reverse_reverse, String.ofList_toList]
    cases texts with
    | nil =>
      have alone := wordsFrom_append [] each.1.solid []
      rw [List.append_nil, List.append_nil] at alone
      rw [String.intercalate_singleton, alone, wordsFrom, filled, if_neg Bool.false_ne_true, whole]
    | cons next texts =>
      have blank : isBlank ' ' = true := rfl
      have between : " ".toList = [' '] := rfl
      rw [String.intercalate_cons_cons, String.toList_append, String.toList_append, between,
        List.append_assoc, List.singleton_append, wordsFrom_append [] each.1.solid,
        List.append_nil, wordsFrom, if_pos blank, filled, if_neg Bool.false_ne_true, whole,
        ih each.2]

/-- Words with blanks between them (`intercalate`) are on one line. -/
theorem isLine_intercalate {texts : List String} (each : ∀ text ∈ texts, IsWord text) :
    IsLine (" ".intercalate texts) := by
  have solid {c : Char} (visible : isBlank c = false) : c ≠ '\n' ∧ c ≠ '\r' := by
    constructor <;> rintro rfl <;> cases visible
  have blank : " ".toList = [' '] := rfl
  induction texts with
  | nil => exact fun c member => nomatch member
  | cons text texts ih =>
    rw [List.forall_mem_cons] at each
    cases texts with
    | nil =>
      rw [String.intercalate_singleton]
      exact fun c member => solid (each.1.solid c member)
    | cons next texts =>
      intro c member
      rw [String.intercalate_cons_cons, String.toList_append, String.toList_append, blank,
        List.append_assoc, List.mem_append, List.singleton_append, List.mem_cons] at member
      rcases member with first | rfl | other
      · exact solid (each.1.solid c first)
      · exact ⟨by decide, by decide⟩
      · exact ih each.2 c other

/-- A character `c` that can be seen is no blank. -/
theorem isBlank_of_visible {c : Char} (visible : 0x21 ≤ c.toNat ∧ c.toNat ≤ 0x7E) :
    isBlank c = false := by
  simp only [isBlank, decide_eq_false_iff_not]
  omega

end Text

end NameResolution
