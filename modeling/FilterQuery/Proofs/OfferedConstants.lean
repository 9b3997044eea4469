import FilterQuery.Proofs.AsciiCase
import FilterQuery.Proofs.CaseTables
import FilterQuery.Schema.Builtin

/-!
# The constants that a rejection offers

An argument that names no constant of an enumeration is rejected, and the rejection **offers** the
constants in lower case. Names are compared up to the case of ASCII letters only, but lower case
goes beyond ASCII, so an offer is not always accepted: the enumeration of `É` alone offers `é`, and
rejects it.

* **Acceptance.** An argument is accepted if it agrees with a constant up to ASCII case
  (`exists_coerce_eq_ok_iff`). What is accepted is a constant of the enumeration, the first one that
  agrees.
* **Offers.** The offers are accepted if and only if each constant agrees in lower case with some
  constant up to ASCII case, not necessarily with itself (`Selection.keepsOffers_iff`).
* **ASCII.** This is so if no character of a constant has a lower case of its own beyond ASCII,
  since the two kinds of lower case are the same then (`lower_eq_asciiLower`). The enumerations of
  the built-in entities are of this kind.
-/

namespace FilterQuery

namespace Text

/-- Without letters that have a lower case of their own beyond ASCII, lower case is that of
ASCII. -/
theorem lowerChars_eq_map {cs : List Char} (h : ∀ c ∈ cs, lowerChar c = [c.toLower])
    (inWord : Bool) : lowerChars inWord cs = cs.map Char.toLower := by
  induction cs generalizing inWord with
  | nil => rfl
  | cons c cs ih =>
    obtain ⟨hc, hcs⟩ := List.forall_mem_cons.mp h
    have hsigma : c ≠ 'Σ' := by
      rintro rfl
      exact absurd hc (by decide)
    rw [lowerChars, if_neg hsigma, hc, ih hcs]
    rfl

theorem lower_eq_asciiLower {s : String} (h : ∀ c ∈ s.toList, lowerChar c = [c.toLower]) :
    lower s = asciiLower s := by
  rw [lower, asciiLower, lowerChars_eq_map h]

end Text

namespace EnumType

variable {type : EnumType} {text : String}

/-- A text names a constant if it agrees with one up to the case of ASCII letters. -/
theorem exists_constant?_eq_some_iff :
    (∃ constant, type.constant? text = some constant) ↔
      ∃ other ∈ type.constants, Text.asciiLower other = Text.asciiLower text := by
  rw [← Option.isSome_iff_exists, constant?, List.find?_isSome]
  exact exists_congr fun other => and_congr_right fun _ => Text.equalsIgnoringCase_iff

end EnumType

namespace Selection

/-- Everything that a rejection offers is accepted in place of the argument. -/
def KeepsOffers (selection : Selection) : Prop :=
  ∀ selector argument allowed,
    selection.coerce selector argument = .error (.unsupportedValue selector allowed) →
      ∀ offered ∈ allowed, ∃ constant,
        selection.coerce selector offered = .ok (.constant constant)

variable {selection : Selection} {type : EnumType} {selector argument : String}

section Enumeration

variable (htype : selection.type = .enumeration type)
include htype

theorem coerce_of_constant {constant : String} (h : type.constant? argument = some constant) :
    selection.coerce selector argument = .ok (.constant constant) := by
  simp only [coerce, htype, h]

theorem coerce_of_no_constant (h : type.constant? argument = none) :
    selection.coerce selector argument =
      .error (.unsupportedValue selector (type.constants.map Text.lower)) := by
  simp only [coerce, htype, h]

/-- An argument is accepted if it agrees with a constant up to ASCII case. -/
theorem exists_coerce_eq_ok_iff :
    (∃ constant, selection.coerce selector argument = .ok (.constant constant)) ↔
      ∃ other ∈ type.constants, Text.asciiLower other = Text.asciiLower argument := by
  rw [← EnumType.exists_constant?_eq_some_iff]
  cases h : type.constant? argument with
  | some constant => simp [coerce_of_constant htype h]
  | none => simp [coerce_of_no_constant htype h]

/-- An argument that names no constant is rejected, with all constants in lower case on offer. -/
theorem coerce_eq_error_iff {e : Rejection} :
    selection.coerce selector argument = .error e ↔
      (∀ other ∈ type.constants, Text.asciiLower other ≠ Text.asciiLower argument) ∧
        e = .unsupportedValue selector (type.constants.map Text.lower) := by
  have hnames : (∀ other ∈ type.constants, Text.asciiLower other ≠ Text.asciiLower argument) ↔
      ¬ ∃ constant, type.constant? argument = some constant := by
    rw [EnumType.exists_constant?_eq_some_iff]
    simp
  rw [hnames]
  cases h : type.constant? argument with
  | some constant => simp [coerce_of_constant htype h]
  | none => simp [coerce_of_no_constant htype h, eq_comm]

/-- The offers are the constants in lower case, so it is these that have to be accepted. -/
theorem keepsOffers_iff_constants :
    selection.KeepsOffers ↔ ∀ c ∈ type.constants, ∃ other ∈ type.constants,
      Text.asciiLower other = Text.asciiLower (Text.lower c) := by
  constructor
  · intro h c hc
    -- the lower case of the constant is tried: if it is rejected, it is on offer itself
    refine by_contra fun hnone => ?_
    have hrejected : selection.coerce "" (Text.lower c) =
        .error (.unsupportedValue "" (type.constants.map Text.lower)) :=
      (coerce_eq_error_iff htype).mpr ⟨fun other hother hsame => hnone ⟨other, hother, hsame⟩, rfl⟩
    have haccepted := h _ _ _ hrejected (Text.lower c) (List.mem_map_of_mem hc)
    exact hnone ((exists_coerce_eq_ok_iff htype).mp haccepted)
  · intro h selector argument allowed hrejected offered hoffered
    obtain ⟨-, heq⟩ := (coerce_eq_error_iff htype).mp hrejected
    cases heq
    obtain ⟨c, hc, rfl⟩ := List.mem_map.mp hoffered
    exact (exists_coerce_eq_ok_iff htype).mpr (h c hc)

/-- **Offered constants.** Under an enumeration a rejection offers the lower case of each constant.
All offers are accepted if and only if the lower case of each constant agrees with some constant up
to ASCII case, as it does without letters that have a lower case of their own beyond ASCII. -/
theorem keepsOffers_iff :
    (∀ selector argument e, selection.coerce selector argument = .error e ↔
        (∀ other ∈ type.constants, Text.asciiLower other ≠ Text.asciiLower argument) ∧
          e = .unsupportedValue selector (type.constants.map Text.lower)) ∧
      (selection.KeepsOffers ↔ ∀ c ∈ type.constants, ∃ other ∈ type.constants,
        Text.asciiLower other = Text.asciiLower (Text.lower c)) ∧
      ((∀ c ∈ type.constants, ∀ char ∈ c.toList, Text.lowerChar char = [char.toLower]) →
        selection.KeepsOffers) := by
  refine ⟨fun _ _ _ => coerce_eq_error_iff htype, keepsOffers_iff_constants htype, fun h => ?_⟩
  refine (keepsOffers_iff_constants htype).mpr fun c hc => ⟨c, hc, ?_⟩
  rw [Text.lower_eq_asciiLower (h c hc), Text.asciiLower_asciiLower]

end Enumeration

/-- Whatever is offered as the update status of a target is accepted. -/
theorem keepsOffers_iff_updatestatus : ∃ selection,
    Schema.target.select "updatestatus" = .ok selection ∧
      selection.type = .enumeration Schema.updateStatus ∧ selection.KeepsOffers := by
  refine ⟨⟨.scalar "UPDATESTATUS" "updateStatus" (.enumeration Schema.updateStatus),
    ⟨["updateStatus"]⟩, .enumeration Schema.updateStatus, none⟩, by rfl, rfl, ?_⟩
  have hascii : ∀ c ∈ Schema.updateStatus.constants, ∀ char ∈ c.toList, char.toNat < 0x80 := by
    simp [Schema.updateStatus]
  exact (keepsOffers_iff rfl).2.2 fun c hc char hchar =>
    Text.lowerChar_of_ascii (hascii c hc char hchar)

/-- An accented constant is offered by a name that it is not accepted by. -/
theorem accented_offer_rejected : ∃ selection,
    Schema.build "e" [.scalar "season" "season" (.enumeration ⟨"Season", ["Été"]⟩)] =
        .ok (.ofFields "e" [.scalar "season" "season" (.enumeration ⟨"Season", ["Été"]⟩)]) ∧
      (Schema.ofFields "e" [.scalar "season" "season" (.enumeration ⟨"Season", ["Été"]⟩)]).select
        "season" = .ok selection ∧
      selection.type = .enumeration ⟨"Season", ["Été"]⟩ ∧
      selection.coerce "season" "winter" = .error (.unsupportedValue "season" ["été"]) ∧
      selection.coerce "season" "été" = .error (.unsupportedValue "season" ["été"]) ∧
      ¬ selection.KeepsOffers := by
  have hoffered : Text.lower "Été" = "été" := by decide +kernel
  refine ⟨⟨.scalar "season" "season" (.enumeration ⟨"Season", ["Été"]⟩), ⟨["season"]⟩,
    .enumeration ⟨"Season", ["Été"]⟩, none⟩, by rfl, by rfl, rfl, ?_, ?_, ?_⟩
  · exact (coerce_eq_error_iff rfl).mpr ⟨by decide, by simp [hoffered]⟩
  · exact (coerce_eq_error_iff rfl).mpr ⟨by decide, by simp [hoffered]⟩
  · rw [keepsOffers_iff_constants rfl]
    decide

end Selection

end FilterQuery
