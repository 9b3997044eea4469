import FilterQuery.Proofs.SingleComparison
import Mathlib.Data.List.DropRight
import Mathlib.Tactic.Ring

/-!
# Whole numbers as arguments

An argument **spells** a whole number if it is a numeral with blanks around it at most: digits
behind one sign or none, where leading zeros count for nothing. What the digits are worth is said by
the weights of their places (`placeValue`), whatever their number, so no size of a machine word has
a part in it.

A field of a whole-number type takes just the arguments that spell a number in the range of its
type, and their values are these numbers (`Selection.coerce_whole_iff`).

* **Numerals.** The reader adds up digits from the left, and the place value is a sum of weights
  from the right; both give the same for any digits (`ofDigits_eq_placeValue`). The sign is cut off
  before the digits, at most one, and there has to be a digit behind it.
* **Blanks.** A numeral has no blanks, so what is left of an argument without the blanks at its ends
  is the numeral, and the blanks around it are all that was taken away (`exists_trimBlanks`).
* **Printing.** The text of a value spells it, so it is read back, by both ways of coercion.
-/

namespace FilterQuery

open Text

/-! ### Numerals -/

/-- The number that digits stand for by the weights of their places. -/
def placeValue : List Char → Nat
  | [] => 0
  | c :: cs => (c.toNat - '0'.toNat) * 10 ^ cs.length + placeValue cs

/-- Digits, with a sign or without one, are a numeral of a whole number. -/
inductive IsNumeral : List Char → Int → Prop where
  | plain {digits : List Char} (hne : digits ≠ []) (hdigits : ∀ c ∈ digits, c.isDigit = true) :
      IsNumeral digits (placeValue digits)
  | plus {digits : List Char} (hne : digits ≠ []) (hdigits : ∀ c ∈ digits, c.isDigit = true) :
      IsNumeral ('+' :: digits) (placeValue digits)
  | minus {digits : List Char} (hne : digits ≠ []) (hdigits : ∀ c ∈ digits, c.isDigit = true) :
      IsNumeral ('-' :: digits) (-placeValue digits)

section

variable {cs digits : List Char} {n : Int}

/-- What is read so far is shifted by the places that are left. -/
theorem ofDigitChars_eq (cs : List Char) (start : Nat) :
    Nat.ofDigitChars 10 cs start = start * 10 ^ cs.length + placeValue cs := by
  induction cs generalizing start with
  | nil => simp [placeValue]
  | cons c cs ih =>
    rw [Nat.ofDigitChars_cons, ih, placeValue, List.length_cons]
    ring

theorem ofDigits_eq_placeValue (cs : List Char) : ofDigits cs = placeValue cs := by
  rw [ofDigits, ofDigitChars_eq, Nat.zero_mul, Nat.zero_add]

/-- A sign is cut off if there is one. -/
theorem splitSign_cases (cs : List Char) :
    (∃ rest, cs = '-' :: rest ∧ splitSign cs = (true, rest)) ∨
      (∃ rest, cs = '+' :: rest ∧ splitSign cs = (false, rest)) ∨ splitSign cs = (false, cs) := by
  unfold splitSign
  split
  · next rest => exact .inl ⟨rest, rfl, rfl⟩
  · next rest => exact .inr (.inl ⟨rest, rfl, rfl⟩)
  · exact .inr (.inr rfl)

theorem readInt_eq_some_iff_of_splitSign {negative : Bool}
    (hsign : splitSign cs = (negative, digits)) :
    readInt cs = some n ↔ digits ≠ [] ∧ (∀ c ∈ digits, c.isDigit = true) ∧
      signed negative (placeValue digits) = n := by
  simp [readInt, hsign, ofDigits_eq_placeValue, and_assoc]

/-- Reading takes the numerals and gives the numbers that they stand for. -/
theorem readInt_eq_some_iff : readInt cs = some n ↔ IsNumeral cs n := by
  constructor
  · intro h
    rcases splitSign_cases cs with ⟨rest, rfl, hsign⟩ | ⟨rest, rfl, hsign⟩ | hsign <;>
      obtain ⟨hne, hdigits, rfl⟩ := (readInt_eq_some_iff_of_splitSign hsign).mp h
    · exact .minus hne hdigits
    · exact .plus hne hdigits
    · exact .plain hne hdigits
  · intro h
    cases h with
    | plain hne hdigits =>
      exact (readInt_eq_some_iff_of_splitSign (splitSign_digits hdigits)).mpr ⟨hne, hdigits, rfl⟩
    | plus hne hdigits => exact (readInt_eq_some_iff_of_splitSign rfl).mpr ⟨hne, hdigits, rfl⟩
    | minus hne hdigits => exact (readInt_eq_some_iff_of_splitSign rfl).mpr ⟨hne, hdigits, rfl⟩

end

/-! ### Blanks around a numeral -/

namespace Text

variable {before core after : List Char}

/-- Trimming takes nothing but blanks away, and only at the ends. -/
theorem exists_trimBlanks (cs : List Char) : ∃ before after,
    cs = before ++ trimBlanks cs ++ after ∧ (∀ c ∈ before, isBlank c = true) ∧
      ∀ c ∈ after, isBlank c = true := by
  refine ⟨cs.takeWhile isBlank, (cs.dropWhile isBlank).rtakeWhile isBlank, ?_,
    fun c hc => List.mem_takeWhile_imp hc, fun c hc => List.mem_rtakeWhile_imp hc⟩
  calc cs = cs.takeWhile isBlank ++ cs.dropWhile isBlank := List.takeWhile_append_dropWhile.symm
    _ = cs.takeWhile isBlank ++ (trimBlanks cs ++ (cs.dropWhile isBlank).rtakeWhile isBlank) :=
      congrArg _ List.rdropWhile_append_rtakeWhile.symm
    _ = _ := (List.append_assoc _ _ _).symm

theorem dropWhile_isBlank_append (hbefore : ∀ c ∈ before, isBlank c = true) (hne : core ≠ [])
    (hcore : ∀ c ∈ core, isBlank c = false) :
    (before ++ (core ++ after)).dropWhile isBlank = core ++ after := by
  obtain ⟨c, rest, rfl⟩ := List.exists_cons_of_ne_nil hne
  rw [List.dropWhile_append_of_pos hbefore, List.cons_append,
    List.dropWhile_cons_of_neg (by simp [hcore c List.mem_cons_self])]

/-- Blanks at the ends are all that is taken away if there are none between them. -/
theorem trimBlanks_append (hbefore : ∀ c ∈ before, isBlank c = true)
    (hafter : ∀ c ∈ after, isBlank c = true) (hne : core ≠ [])
    (hcore : ∀ c ∈ core, isBlank c = false) : trimBlanks (before ++ core ++ after) = core := by
  have hend : (after.reverse ++ (core.reverse ++ [])).dropWhile isBlank = core.reverse ++ [] :=
    dropWhile_isBlank_append (by simpa using hafter) (by simpa using hne) (by simpa using hcore)
  rw [List.append_nil] at hend
  rw [trimBlanks, List.append_assoc, dropWhile_isBlank_append hbefore hne hcore,
    List.reverse_append, hend, List.reverse_reverse]

/-- A digit is not blank. -/
theorem isBlank_of_isDigit {c : Char} (hc : c.isDigit = true) : isBlank c = false := by
  have hbounds : 0x30 ≤ c.toNat ∧ c.toNat ≤ 0x39 := Char.isDigit_iff_toNat.mp hc
  simp only [isBlank, Bool.or_eq_false_iff, Bool.and_eq_false_iff, decide_eq_false_iff_not,
    beq_eq_false_iff_ne]
  omega

end Text

theorem IsNumeral.ne_nil {cs : List Char} {n : Int} (h : IsNumeral cs n) : cs ≠ [] := by
  cases h with
  | plain hne _ => exact hne
  | plus | minus => exact List.cons_ne_nil _ _

/-- A numeral has no blanks. -/
theorem IsNumeral.isBlank_eq_false {cs : List Char} {n : Int} (h : IsNumeral cs n) :
    ∀ c ∈ cs, isBlank c = false := by
  cases h with
  | plain _ hdigits => exact fun c hc => isBlank_of_isDigit (hdigits c hc)
  | plus _ hdigits | minus _ hdigits =>
    exact List.forall_mem_cons.mpr ⟨by decide, fun c hc => isBlank_of_isDigit (hdigits c hc)⟩

/-! ### Arguments -/

namespace Value

/-- The text is a numeral of the whole number, blanks around it aside. -/
def SpellsWhole (text : String) (n : Int) : Prop :=
  ∃ before numeral after, text.toList = before ++ numeral ++ after ∧
    (∀ c ∈ before, isBlank c = true) ∧ (∀ c ∈ after, isBlank c = true) ∧ IsNumeral numeral n

/-- A text is read as the number that it spells. -/
theorem readInt_trimBlanks_eq_some_iff {text : String} {n : Int} :
    readInt (trimBlanks text.toList) = some n ↔ SpellsWhole text n := by
  rw [readInt_eq_some_iff]
  constructor
  · intro h
    obtain ⟨before, after, htext, hbefore, hafter⟩ := exists_trimBlanks text.toList
    exact ⟨before, _, after, htext, hbefore, hafter, h⟩
  · rintro ⟨before, numeral, after, htext, hbefore, hafter, h⟩
    rwa [htext, trimBlanks_append hbefore hafter h.ne_nil h.isBlank_eq_false]

end Value

/-- The values of the whole-number types, each with the number that it is. -/
inductive ValueType.Holds : ValueType → Int → Value → Prop where
  | int32 {n : Int} (hlow : -2 ^ 31 ≤ n) (hhigh : n ≤ 2 ^ 31 - 1) : Holds .int32 n (.int32 n)
  | int64 {n : Int} (hlow : -2 ^ 63 ≤ n) (hhigh : n ≤ 2 ^ 63 - 1) : Holds .int64 n (.int64 n)

namespace Value

variable {type : ValueType} {text : String} {value : Value} {n : Int}

/-- The number has to be in the range as well. -/
theorem wholeBetween?_eq_some_iff {low high : Int} :
    wholeBetween? low high text = some n ↔ SpellsWhole text n ∧ low ≤ n ∧ n ≤ high := by
  rw [wholeBetween?, Option.filter_eq_some_iff, readInt_trimBlanks_eq_some_iff]
  simp

/-- The texts of a whole-number type are those that spell a number in its range. -/
theorem ofText?_eq_some_iff_spellsWhole (htype : type = .int32 ∨ type = .int64) :
    ofText? type text = some value ↔ ∃ n, SpellsWhole text n ∧ type.Holds n value := by
  rcases htype with rfl | rfl
  all_goals
    simp only [ofText?, Option.map_eq_some_iff, wholeBetween?_eq_some_iff]
    refine exists_congr fun n => ?_
    constructor
    · rintro ⟨⟨hspells, hlow, hhigh⟩, rfl⟩
      exact ⟨hspells, by constructor <;> omega⟩
    · rintro ⟨hspells, ⟨hlow, hhigh⟩⟩
      exact ⟨⟨hspells, by omega, by omega⟩, rfl⟩

/-- What is written of a value spells the number that it is. -/
theorem spellsWhole_text (h : type.Holds n value) : SpellsWhole value.text n := by
  have hwrite : value.text = String.ofList (writeInt n) := by cases h <;> rfl
  refine ⟨[], writeInt n, [], ?_, by simp, by simp, readInt_eq_some_iff.mp (readInt_writeInt n)⟩
  rw [hwrite, String.toList_ofList, List.nil_append, List.append_nil]

end Value

/-- **Whole numbers as arguments.** A field of a whole-number type takes an argument if it spells a
number in the range of the type, for a value of that number; any other argument is rejected by a
message that names the argument, the selector and the type. Orderings take the same arguments for
the same values, and what is written of a value is taken for the value. -/
theorem Selection.coerce_whole_iff {selection : Selection}
    (htype : selection.type = .int32 ∨ selection.type = .int64)
    (hconverter : selection.field.converter = none) (selector : String) :
    (∀ argument value, selection.coerce selector argument = .ok value ↔
        ∃ n, Value.SpellsWhole argument n ∧ selection.type.Holds n value) ∧
      (∀ argument, (¬ ∃ n value, Value.SpellsWhole argument n ∧ selection.type.Holds n value) →
        ∃ e, selection.coerce selector argument = .error e ∧
          e = .invalidArgument argument selector selection.type ∧
          e.message = "The given search parameter is not valid: " ++ ("value " ++ argument ++
            " of field " ++ selector ++ " is not a valid " ++ selection.type.text)) ∧
      (∀ argument, selection.coerceOrdered selector argument =
        selection.coerce selector argument) ∧
      ∀ n value, selection.type.Holds n value →
        selection.coerce selector value.text = .ok value := by
  obtain ⟨hcoerce, hordered⟩ := coerce_eq_readAs (type_ne_enumeration htype) hconverter
  have hok : ∀ argument value, selection.coerce selector argument = .ok value ↔
      ∃ n, Value.SpellsWhole argument n ∧ selection.type.Holds n value := fun argument value => by
    rw [hcoerce, readAs_eq_ok_iff, Value.ofText?_eq_some_iff_spellsWhole htype]
  refine ⟨hok, fun argument hnone => ⟨_, ?_, rfl, rfl⟩, fun argument => ?_,
    fun n value hvalue => ?_⟩
  · have htext : Value.ofText? selection.type argument = none :=
      Option.eq_none_iff_forall_ne_some.mpr fun value hvalue => by
        obtain ⟨n, hspells⟩ := (Value.ofText?_eq_some_iff_spellsWhole htype).mp hvalue
        exact hnone ⟨n, value, hspells⟩
    rw [hcoerce, readAs, htext]
  · rw [hcoerce, hordered]
  · exact (hok _ value).mpr ⟨n, Value.spellsWhole_text hvalue, hvalue⟩

/-- Blanks, a sign and leading zeros do no harm, but the number next to the greatest one does. -/
theorem Selection.coerce_whole_iff_createdat :
    Schema.target.select "createdat" =
        .ok ⟨.scalar "CREATEDAT" "createdAt" .int64, ⟨["createdAt"]⟩, .int64, none⟩ ∧
      Selection.coerce ⟨.scalar "CREATEDAT" "createdAt" .int64, ⟨["createdAt"]⟩, .int64, none⟩
        "createdat" "\t+0009223372036854775807\u00a0" = .ok (.int64 9223372036854775807) ∧
      ∃ e, Selection.coerce ⟨.scalar "CREATEDAT" "createdAt" .int64, ⟨["createdAt"]⟩, .int64, none⟩
          "createdat" "9223372036854775808" = .error e ∧
        e.message =
          "The given search parameter is not valid: value 9223372036854775808 of field " ++
            "createdat is not a valid int64" := by
  obtain ⟨htaken, hrejected, -⟩ := @coerce_whole_iff
    ⟨.scalar "CREATEDAT" "createdAt" .int64, ⟨["createdAt"]⟩, .int64, none⟩
    (.inr rfl) rfl "createdat"
  refine ⟨select_target_createdat, (htaken _ _).mpr ?_, ?_⟩
  · have hspells : Value.SpellsWhole "\t+0009223372036854775807\u00a0" 9223372036854775807 :=
      ⟨['\t'], "+0009223372036854775807".toList, ['\u00a0'], by decide,
        List.all_eq_true.mp (by decide), List.all_eq_true.mp (by decide),
        .plus (by decide) (List.all_eq_true.mp (by decide))⟩
    exact ⟨_, hspells, .int64 (by decide) (by decide)⟩
  · have hnone : ¬ ∃ n value, Value.SpellsWhole "9223372036854775808" n ∧
        ValueType.int64.Holds n value := by
      rintro ⟨n, value, h⟩
      cases (htaken "9223372036854775808" value).mpr ⟨n, h⟩
    obtain ⟨e, herror, rfl, -⟩ := hrejected _ hnone
    exact ⟨_, herror, rfl⟩

end FilterQuery
