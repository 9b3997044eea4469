import FilterQuery.Proofs.Lexing
import FilterQuery.Proofs.Literals

/-!
# Words in the text of a predicate

The text of a predicate is cut into **words** by spaces, commas, parentheses and quotes. A word is
unbroken and ends at the first of them, so equal texts start with equal words
(`IsUnbroken.append_inj`).

* **Paths.** The text of a **plain** path, whatever its names spell, is a word, and different plain
  paths have different words.
* **Values.** A value that does not stand in quotes is a word. Two values are **alike** if they have
  the same text and both stand in quotes, or neither does. A quoted value ends at a quote that no
  other follows, so what comes behind a value must not start with a quote (`EndsValue`).
* **Lists.** The values of a list are cut off one by one at the commas between them, up to the
  parenthesis at the end.

Where a value or a list of values stands in a text, it is determined up to likeness
(`Value.alike_of_write_append`, `Predicate.alike_of_writeValues_append`), and so is what follows.
-/

namespace FilterQuery

/-!
### Words

Texts are told apart by their first words: if two texts start with a word and go on with a break or
not at all, the words are the same and so are the rests. All later statements about reading are of
this form.
-/

/-- The characters that end a word in the text of a predicate. -/
def breaks : List Char := [' ', ',', '(', ')', '\'']

/-- Whether the character ends a word in the text of a predicate. -/
def isBreak (c : Char) : Bool := breaks.contains c

/-- The characters are one or more, and none of them ends a word. -/
def IsUnbroken (cs : List Char) : Prop := cs ≠ [] ∧ ∀ c ∈ cs, isBreak c = false

/-- The characters are none, or the first of them ends a word. -/
def EndsWord (cs : List Char) : Prop := ∀ c ∈ cs.head?, isBreak c = true

section

variable {word word' rest rest' : List Char}

theorem isUnbroken_of_all (hne : word ≠ []) (h : (word.all fun c => !isBreak c) = true) :
    IsUnbroken word :=
  ⟨hne, fun c hc => by simpa using List.all_eq_true.mp h c hc⟩

theorem endsWord_cons {c : Char} (h : isBreak c = true) : EndsWord (c :: rest) := by
  intro d hd
  cases hd
  exact h

/-- A word ends at the first character that ends words. -/
theorem IsUnbroken.append_inj (h : IsUnbroken word) (h' : IsUnbroken word') (hrest : EndsWord rest)
    (hrest' : EndsWord rest') (heq : word ++ rest = word' ++ rest') :
    word = word' ∧ rest = rest' := by
  have hall : ∀ {cs}, IsUnbroken cs → ∀ c ∈ cs, (!isBreak c) = true := by
    intro cs hcs c hc
    rw [hcs.2 c hc]
    rfl
  have hends : ∀ {cs}, EndsWord cs → ∀ c ∈ cs.head?, (!isBreak c) = false := by
    intro cs hcs c hc
    rw [hcs c hc]
    rfl
  obtain ⟨htake, hdrop⟩ := Query.takeWhile_append_of_ends (hall h) (hends hrest)
  obtain ⟨htake', hdrop'⟩ := Query.takeWhile_append_of_ends (hall h') (hends hrest')
  rw [heq] at htake hdrop
  exact ⟨htake.symm.trans htake', hdrop.symm.trans hdrop'⟩

/-- No text starts both with a word and with a break. -/
theorem IsUnbroken.append_ne_cons (h : IsUnbroken word) {c : Char} (hc : isBreak c = true) :
    word ++ rest ≠ c :: rest' := by
  obtain ⟨d, cs, rfl⟩ := List.exists_cons_of_ne_nil h.1
  intro heq
  obtain ⟨rfl, -⟩ := List.cons.inj heq
  rw [h.2 d List.mem_cons_self] at hc
  cases hc

end

/-! ### Paths -/

/-- Whether the names on a plain path may have the character. -/
def isNameChar (c : Char) : Bool := c.isAlphanum || c = '_'

/-- The path has a name, and its names consist of letters, digits and underscores. -/
def Path.IsPlain (path : Path) : Prop :=
  path.segments ≠ [] ∧
  ∀ segment ∈ path.segments, segment ≠ "" ∧ ∀ c ∈ segment.toList, isNameChar c = true

/-- A character of a kind that no break is of is no break. -/
theorem isBreak_eq_false {p : Char → Bool} (hp : ∀ c ∈ breaks, p c = false) {c : Char}
    (hc : p c = true) : isBreak c = false := by
  rw [Bool.eq_false_iff]
  intro hbreak
  rw [hp c (List.contains_iff_mem.mp hbreak)] at hc
  cases hc

theorem isBreak_of_isNameChar {c : Char} (h : isNameChar c = true) : isBreak c = false :=
  isBreak_eq_false (by simp [breaks, isNameChar]) h

theorem isBreak_of_isPlain {c : Char} (h : isPlain c = true) : isBreak c = false :=
  isBreak_eq_false (by simp [breaks, isPlain]) h

namespace Path.IsPlain

variable {path other : Path}

theorem not_mem_segment (h : path.IsPlain) : ∀ segment ∈ path.segments, '.' ∉ segment.toList :=
  fun segment hsegment hdot => absurd ((h.2 segment hsegment).2 '.' hdot) (by decide)

/-- The text of a plain path starts with a character of names. -/
theorem exists_text_eq_cons (h : path.IsPlain) :
    ∃ c cs, path.text.toList = c :: cs ∧ isNameChar c = true := by
  obtain ⟨segments⟩ := path
  obtain ⟨hne, hsegments⟩ := h
  obtain ⟨segment, rest, rfl⟩ := List.exists_cons_of_ne_nil hne
  obtain ⟨hsegment, hchars⟩ := hsegments segment List.mem_cons_self
  have hnil : segment.toList ≠ [] := fun hnil => hsegment (String.toList_injective hnil)
  obtain ⟨c, cs, hcs⟩ := List.exists_cons_of_ne_nil hnil
  have hc : isNameChar c = true := hchars c (hcs ▸ List.mem_cons_self)
  cases rest with
  | nil => exact ⟨c, cs, hcs, hc⟩
  | cons next rest =>
    refine ⟨c, cs ++ ".".toList ++ (Text.join "." (next :: rest)).toList, ?_, hc⟩
    rw [text, Text.toList_join_cons _ _ (List.cons_ne_nil _ _), hcs]
    rfl

/-- The text of a plain path is a word. -/
theorem isUnbroken_text (h : path.IsPlain) : IsUnbroken path.text.toList := by
  have hpoint : ∀ c ∈ ".".toList, isBreak c = false := List.forall_mem_singleton.mpr rfl
  have hsegments : ∀ segment ∈ path.segments, ∀ c ∈ segment.toList, isBreak c = false :=
    fun segment hsegment c hc => isBreak_of_isNameChar ((h.2 segment hsegment).2 c hc)
  obtain ⟨c, cs, htext, -⟩ := h.exists_text_eq_cons
  exact ⟨htext ▸ List.cons_ne_nil _ _, Text.forall_mem_join hpoint hsegments⟩

/-- A plain path is the only one with its text. -/
theorem eq_of_text_eq (h : path.IsPlain) (h' : other.IsPlain)
    (heq : path.text.toList = other.text.toList) : path = other := by
  have hsplit : ∀ {path : Path}, path.IsPlain → Text.split '.' path.text = path.segments :=
    fun h => Text.split_join h.1 h.not_mem_segment
  have hsegments : path.segments = other.segments := by
    rw [← hsplit h, ← hsplit h', String.toList_injective heq]
  obtain ⟨segments⟩ := path
  obtain ⟨segments'⟩ := other
  exact congrArg Path.mk hsegments

/-- A plain path with a break behind it is told from the text that it starts. -/
theorem eq_of_text_append_eq (h : path.IsPlain) (h' : other.IsPlain) {c : Char}
    (hbreak : isBreak c = true)
    (heq : path.text.toList ++ c :: rest = other.text.toList ++ c :: rest') :
    path = other ∧ rest = rest' := by
  obtain ⟨htext, hrests⟩ := h.isUnbroken_text.append_inj h'.isUnbroken_text
    (endsWord_cons hbreak) (endsWord_cons hbreak) heq
  exact ⟨h.eq_of_text_eq h' htext, (List.cons.inj hrests).2⟩

end Path.IsPlain

/-!
### Values

A value in quotes ends at the first quote that stands alone, and any other value is a word. Neither
needs the type of the value, and the text does not show it.
-/

namespace Value

/-- Whether the value stands in quotes. -/
def isQuoted : Value → Bool
  | string _ => true
  | constant _ => true
  | _ => false

/-- The values have the same text and both stand in quotes, or neither does. -/
def Alike (v w : Value) : Prop := v.isQuoted = w.isQuoted ∧ v.text = w.text

end Value

/-- The characters with every quote doubled. -/
def doubleQuotes (cs : List Char) : List Char :=
  cs.flatMap fun c => c :: if c = '\'' then ['\''] else []

/-- A literal is a text between quotes, with its quotes doubled. -/
theorem writeLiteral_eq (s : String) :
    writeLiteral s = '\'' :: (doubleQuotes s.toList ++ ['\'']) := by
  have hwritten : (fun c : Char => if c = '\'' then ['\'', '\''] else [c]) =
      fun c => c :: if c = '\'' then ['\''] else [] := by
    funext c
    split
    · next hc => rw [hc]
    · rfl
  rw [writeLiteral, hwritten, doubleQuotes]

/-- The quote that ends the characters is the first one without a quote behind it. -/
theorem doubleQuotes_append_inj {cs ds rest rest' : List Char} (hrest : rest.head? ≠ some '\'')
    (hrest' : rest'.head? ≠ some '\'')
    (h : doubleQuotes cs ++ '\'' :: rest = doubleQuotes ds ++ '\'' :: rest') :
    cs = ds ∧ rest = rest' := by
  -- behind the quote that ends the characters comes none, so neither text can end before the other
  have hnot : ∀ {rest cs : List Char}, rest.head? ≠ some '\'' → rest ≠ '\'' :: cs := by
    rintro rest cs hhead rfl
    exact hhead rfl
  induction cs generalizing ds with
  | nil =>
    cases ds with
    | nil => exact ⟨rfl, (List.cons.inj h).2⟩
    | cons d ds =>
      obtain ⟨rfl, h⟩ := List.cons.inj h
      exact absurd h (hnot hrest)
  | cons c cs ih =>
    cases ds with
    | nil =>
      obtain ⟨rfl, h⟩ := List.cons.inj h
      exact absurd h.symm (hnot hrest')
    | cons d ds =>
      simp only [doubleQuotes, List.flatMap_cons, List.cons_append, List.append_assoc] at h
      obtain ⟨rfl, h⟩ := List.cons.inj h
      obtain ⟨rfl, hrests⟩ := ih (List.append_cancel_left h)
      exact ⟨rfl, hrests⟩

/-- A literal ends at the first quote that stands alone. -/
theorem writeLiteral_append_inj {s t : String} {rest rest' : List Char}
    (hrest : rest.head? ≠ some '\'') (hrest' : rest'.head? ≠ some '\'')
    (h : writeLiteral s ++ rest = writeLiteral t ++ rest') : s = t ∧ rest = rest' := by
  simp only [writeLiteral_eq, List.cons_append, List.append_assoc, List.cons.injEq,
    true_and] at h
  obtain ⟨hst, hrests⟩ := doubleQuotes_append_inj hrest hrest' h
  exact ⟨String.toList_injective hst, hrests⟩

/-- A decimal has a character at least. -/
theorem Decimal.positional_ne_nil (wholeMark : List Char) (d : Decimal) :
    d.positional wholeMark ≠ [] := by
  have hdigits := digitsOf_ne_nil d.digits
  simp only [positional]
  split
  · simp [hdigits]
  · split <;> simp

/-- So has a double. -/
theorem Double.toList_text_ne_nil (x : Double) : x.text.toList ≠ [] := by
  unfold text
  split
  · decide
  · split
    · split <;> decide
    · rw [String.toList_ofList]
      exact List.append_ne_nil_of_right_ne_nil _ (Decimal.positional_ne_nil _ _)

/-- The characters are none, or what may stand behind a value in the text of a predicate. -/
structure EndsValue (cs : List Char) : Prop where
  endsWord : EndsWord cs
  head_ne : cs.head? ≠ some '\''

theorem endsValue_cons {c : Char} {rest : List Char} (hbreak : isBreak c = true)
    (hc : c ≠ '\'') : EndsValue (c :: rest) :=
  ⟨endsWord_cons hbreak, fun h => hc (Option.some.inj h)⟩

namespace Value

theorem write_of_isQuoted {v : Value} (h : v.isQuoted = true) : v.write = writeLiteral v.text := by
  cases v <;> first | rfl | cases h

/-- A value that does not stand in quotes is a word. -/
theorem write_of_not_isQuoted {v : Value} (h : v.isQuoted = false) :
    v.write = v.text.toList ∧ IsUnbroken v.write := by
  have hint : ∀ n, IsUnbroken (writeInt n) := by
    intro n
    refine ⟨?_, fun c hc => isBreak_of_isPlain (isPlain_of_mem_writeInt hc)⟩
    unfold writeInt
    split
    · exact List.cons_ne_nil _ _
    · exact digitsOf_ne_nil _
  cases v with
  | boolean b => cases b <;> exact ⟨rfl, isUnbroken_of_all (by decide) (by decide)⟩
  | int32 n => exact ⟨rfl, by simpa [write, text] using hint n⟩
  | int64 n => exact ⟨rfl, by simpa [write, text] using hint n⟩
  | float64 x =>
    have hplain : ∀ c ∈ x.text.toList, isBreak c = false :=
      fun c hc => isBreak_of_isPlain (Double.isPlain_of_mem_text hc)
    exact ⟨rfl, x.toList_text_ne_nil, hplain⟩
  | string s => cases h
  | constant s => cases h

/-- A value ends where it ends, and the text of a value tells it from those that are not alike. -/
theorem alike_of_write_append {v w : Value} {rest rest' : List Char} (hrest : EndsValue rest)
    (hrest' : EndsValue rest') (h : v.write ++ rest = w.write ++ rest') :
    v.Alike w ∧ rest = rest' := by
  cases hv : v.isQuoted <;> cases hw : w.isQuoted
  · obtain ⟨hvtext, hvword⟩ := write_of_not_isQuoted hv
    obtain ⟨hwtext, hwword⟩ := write_of_not_isQuoted hw
    obtain ⟨heq, hrests⟩ := hvword.append_inj hwword hrest.endsWord hrest'.endsWord h
    rw [hvtext, hwtext] at heq
    exact ⟨⟨hv.trans hw.symm, String.toList_injective heq⟩, hrests⟩
  · rw [write_of_isQuoted hw] at h
    exact absurd h ((write_of_not_isQuoted hv).2.append_ne_cons rfl)
  · rw [write_of_isQuoted hv] at h
    exact absurd h.symm ((write_of_not_isQuoted hw).2.append_ne_cons rfl)
  · rw [write_of_isQuoted hv, write_of_isQuoted hw] at h
    obtain ⟨heq, hrests⟩ := writeLiteral_append_inj hrest.head_ne hrest'.head_ne h
    exact ⟨⟨hv.trans hw.symm, heq⟩, hrests⟩

theorem write_eq_of_alike {v w : Value} (h : v.Alike w) : v.write = w.write := by
  obtain ⟨hquoted, htext⟩ := h
  cases hv : v.isQuoted
  · rw [(write_of_not_isQuoted hv).1, (write_of_not_isQuoted (hquoted ▸ hv)).1, htext]
  · rw [write_of_isQuoted hv, write_of_isQuoted (hquoted ▸ hv), htext]

end Value

namespace Predicate

/-! ### Lists of values -/

/-- The values after the first, each behind a comma. -/
def writeRestValues (values : List Value) : List Char :=
  values.flatMap fun value => ',' :: ' ' :: value.write

/-- The first of several values stands in front of the others. -/
theorem writeValues_cons (value : Value) (values : List Value) :
    writeValues (value :: values) = value.write ++ writeRestValues values := by
  induction values generalizing value with
  | nil => simp [writeValues, writeRestValues]
  | cons next values ih =>
    have hwrite : writeValues (value :: next :: values) =
        value.write ++ [',', ' '] ++ writeValues (next :: values) := rfl
    rw [hwrite, ih]
    simp [writeRestValues]

theorem exists_writeRestValues_eq_cons (values : List Value) (rest : List Char) :
    ∃ c cs, writeRestValues values ++ ')' :: rest = c :: cs ∧ (c = ',' ∨ c = ')') := by
  cases values with
  | nil => exact ⟨_, _, rfl, .inr rfl⟩
  | cons value values => exact ⟨_, _, rfl, .inl rfl⟩

theorem endsValue_writeRestValues (values : List Value) (rest : List Char) :
    EndsValue (writeRestValues values ++ ')' :: rest) := by
  obtain ⟨c, cs, heq, rfl | rfl⟩ := exists_writeRestValues_eq_cons values rest <;>
    exact heq ▸ endsValue_cons rfl (by decide)

variable {values values' : List Value} {rest rest' : List Char}

/-- The values that are left are determined up to likeness, and so is what follows the list. -/
theorem alike_of_writeRestValues_append
    (h : writeRestValues values ++ ')' :: rest = writeRestValues values' ++ ')' :: rest') :
    List.Forall₂ Value.Alike values values' ∧ rest = rest' := by
  induction values generalizing values' with
  | nil =>
    cases values' with
    | nil => exact ⟨.nil, (List.cons.inj h).2⟩
    | cons value' values' => exact absurd (List.cons.inj h).1 (by decide)
  | cons value values ih =>
    cases values' with
    | nil => exact absurd (List.cons.inj h).1 (by decide)
    | cons value' values' =>
      simp only [writeRestValues, List.flatMap_cons, List.cons_append, List.append_assoc,
        List.cons.injEq, true_and] at h
      obtain ⟨halike, hrests⟩ := Value.alike_of_write_append (endsValue_writeRestValues _ _)
        (endsValue_writeRestValues _ _) h
      obtain ⟨hvalues, hrest⟩ := ih hrests
      exact ⟨.cons halike hvalues, hrest⟩

/-- A value does not start with a closing parenthesis. -/
theorem write_ne_rightParen {value : Value} : value.write ++ rest ≠ ')' :: rest' := by
  cases hquoted : value.isQuoted
  · exact (Value.write_of_not_isQuoted hquoted).2.append_ne_cons rfl
  · rw [Value.write_of_isQuoted hquoted]
    exact fun h => absurd (List.cons.inj h).1 (by decide)

/-- A list of values ends at its parenthesis. -/
theorem alike_of_writeValues_append
    (h : writeValues values ++ ')' :: rest = writeValues values' ++ ')' :: rest') :
    List.Forall₂ Value.Alike values values' ∧ rest = rest' := by
  cases values with
  | nil =>
    cases values' with
    | nil => exact ⟨.nil, (List.cons.inj h).2⟩
    | cons value' values' =>
      rw [writeValues_cons, List.append_assoc] at h
      exact absurd h.symm write_ne_rightParen
  | cons value values =>
    cases values' with
    | nil =>
      rw [writeValues_cons, List.append_assoc] at h
      exact absurd h write_ne_rightParen
    | cons value' values' =>
      rw [writeValues_cons, writeValues_cons, List.append_assoc, List.append_assoc] at h
      obtain ⟨halike, hrests⟩ := Value.alike_of_write_append (endsValue_writeRestValues _ _)
        (endsValue_writeRestValues _ _) h
      obtain ⟨hvalues, hrest⟩ := alike_of_writeRestValues_append hrests
      exact ⟨.cons halike hvalues, hrest⟩

/-- Lists of alike values have the same text. -/
theorem writeValues_eq_of_alike {values values' : List Value}
    (h : List.Forall₂ Value.Alike values values') : writeValues values = writeValues values' := by
  induction h with
  | nil => rfl
  | @cons value value' values values' hvalue hvalues ih =>
    have hrest : writeRestValues values = writeRestValues values' := by
      clear ih
      induction hvalues with
      | nil => rfl
      | cons hvalue _ ih =>
        rw [writeRestValues, writeRestValues, List.flatMap_cons, List.flatMap_cons,
          Value.write_eq_of_alike hvalue]
        exact congrArg _ ih
    rw [writeValues_cons, writeValues_cons, Value.write_eq_of_alike hvalue, hrest]

end Predicate

end FilterQuery
