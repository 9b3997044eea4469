import FilterQuery.Compilation.Basic
import FilterQuery.Predicate.Meaning
import FilterQuery.Proofs.Pattern
import FilterQuery.Proofs.Reaching
import FilterQuery.Proofs.Selection
import FilterQuery.Proofs.UpperCase
import FilterQuery.Schema.Builtin

/-!
# The wildcards of an argument

An argument that is compared with text is turned into a pattern by putting `%` for `*`. A `%` that
the argument has of its own is not told apart from those, so both signs stand for any run of
characters (`pattern_fills_iff`). Hence `*` is the only wildcard just in the arguments without `%`
(`selects_argument_iff`).

* **Patterns.** Replacing is done before letters are put into upper case. Neither sign is a letter
  or comes from one, so the pattern is filled by what fills the argument with both signs for marks.
* **Text fields.** A field of text without a key compares by pattern in both operators, and the
  document that stores a text there is selected if its upper case fills the pattern.
* **Exactness.** If the argument has a `%`, the text in which all marks are left out is selected: it
  fills the pattern with nothing in the place of each mark, and as the argument has a `%` of its
  own, it does not fill the argument with `*` alone.
-/

namespace FilterQuery

namespace Pattern

/-! ### From arguments to patterns -/

/-- Whether a character is the wildcard of queries. -/
def isStar (c : Char) : Bool := c = queryWildcard

/-- Whether a character of an argument becomes a wildcard of its pattern. -/
def isMark (c : Char) : Bool := isStar c || isWildcard c

/-- The sign of a pattern for a sign of an argument. -/
def ofSign (c : Char) : Char := if c = queryWildcard then wildcard else c

/-- Upper case keeps the signs that are marks and makes no others. -/
theorem map_ofSign_upperChar (c : Char) :
    (Text.upperChar c).map ofSign =
      (if c = queryWildcard then [wildcard] else [c]).flatMap Text.upperChar := by
  by_cases hc : c = queryWildcard
  · subst hc
    decide
  · have hkeep : (Text.upperChar c).map ofSign = (Text.upperChar c).map id := by
      refine List.map_congr_left fun d hd => if_neg ?_
      rintro rfl
      exact hc (Text.eq_of_mem_upperChar (by decide) hd)
    rw [hkeep, List.map_id, if_neg hc, List.flatMap_singleton]

/-- The pattern of an argument is its upper case with `%` for `*`. -/
theorem toList_pattern (argument : String) : (Backend.standard.pattern argument).toList =
    (Text.upper argument).toList.map ofSign := by
  calc (Backend.standard.pattern argument).toList
      = (argument.toList.flatMap fun c => if c = queryWildcard then [wildcard] else [c]).flatMap
          Text.upperChar := by
        rw [Backend.pattern, Text.toList_upper, Text.replace, String.toList_ofList]
        rfl
    _ = argument.toList.flatMap fun c => (Text.upperChar c).map ofSign := by
        rw [List.flatMap_assoc]
        simp only [map_ofSign_upperChar]
    _ = (Text.upper argument).toList.map ofSign := by rw [Text.toList_upper, List.map_flatMap]

/-- A text fills the pattern of an argument if it fills the argument in upper case, where `*` and
`%` alike are the marks. -/
theorem pattern_fills_iff {argument : String} {text : List Char} :
    Fills isWildcard (Backend.standard.pattern argument).toList text ↔
      Fills isMark (Text.upper argument).toList text := by
  rw [toList_pattern]
  refine fills_map_iff (fun c => ?_) fun c hc => ?_
  · by_cases hc : c = queryWildcard <;> simp [ofSign, isMark, isStar, isWildcard, hc]
  · -- a character that is no mark is not `*`, which alone is exchanged
    refine if_neg ?_
    rintro rfl
    simp [isMark, isStar] at hc

/-- Both marks are below `A`. -/
theorem toNat_lt_of_isMark {c : Char} (hc : isMark c = true) : c.toNat < 0x41 := by
  rcases Bool.or_eq_true _ _ ▸ hc with hc | hc
  all_goals
    rw [of_decide_eq_true hc]
    decide

/-- Upper case neither makes nor loses a mark. -/
theorem isMark_of_mem_upperChar {c d : Char} (h : d ∈ Text.upperChar c) : isMark d = isMark c := by
  rw [Bool.eq_iff_iff]
  constructor <;> intro hmark
  · rw [Text.eq_of_mem_upperChar (toNat_lt_of_isMark hmark) h]
    exact hmark
  · rw [Text.upperChar_of_lt (toNat_lt_of_isMark hmark), List.mem_singleton] at h
    rw [h]
    exact hmark

end Pattern

open Pattern Text

/-- A JSON value has a text that comes from the argument, both in upper case, by putting runs of
characters for its marks. -/
def Json.MatchesText (json : Json) (argument : String) : Prop :=
  ∃ text, json.plainText? = some text ∧
    Fills isMark (Text.upper argument).toList (Text.upper text).toList

/-- A JSON value is matched if its text fills the argument with both signs for marks. -/
theorem Predicate.likeJson_iff {json : Json} {argument : String} :
    likeJson json (Backend.standard.pattern argument) = true ↔ json.MatchesText argument := by
  rw [likeJson, Option.any_eq_true]
  refine exists_congr fun text => and_congr_right fun _ => ?_
  rw [isMatch_iff, pattern_fills_iff]

/-! ### Text fields -/

variable {schema : Schema} {selector : String} {selection : Selection} {op : Operator}
  {argument : String}

theorem Backend.bindEntry_of_key?_eq_none {π : Type} {b : Backend π} {condition : π}
    (hkey : selection.key? = none) : b.bindEntry selection condition = condition := by
  rw [Backend.bindEntry, hkey]

/-- A text is compared by pattern under both operators. -/
theorem compile_text (hop : op = .equal ∨ op = .like)
    (hselect : schema.select selector = .ok selection) (hkey : selection.key? = none)
    (htype : selection.type = .string) (hconverter : selection.field.converter = none) :
    Query.compile .standard schema (.comparison ⟨selector, op, [argument]⟩) =
      .ok (.like selection.path (Backend.standard.pattern argument)) := by
  have hpath := Schema.valuePath_of_key?_eq_none hselect hkey
  have hcoerce : selection.coerce selector argument = .ok (.string argument) := by
    simp [Selection.coerce, htype, hconverter, Selection.readAs, Value.ofText?]
  have hcondition : Comparison.condition .standard selection ⟨selector, op, [argument]⟩ argument =
      .ok (some (.like selection.path (Backend.standard.pattern argument))) := by
    rcases hop with rfl | rfl <;> simp only [Comparison.condition, hcoerce, hpath] <;> rfl
  have hcompile : Comparison.compile .standard schema ⟨selector, op, [argument]⟩ =
      .ok (some (.like selection.path (Backend.standard.pattern argument))) := by
    simp only [Comparison.compile, hselect, hcondition, bind, Except.bind, Option.map_some,
      Backend.bindEntry_of_key?_eq_none hkey]
    rfl
  simp only [Query.compile, Query.conditions, hcompile, bind, Except.bind]
  rfl

/-- A document that stores a text is selected if the text fills the pattern. -/
theorem Predicate.selects_like_iff {path : Path} {document : Json} {text : String}
    (hreach : document.reach path.segments = [.string text]) :
    (Predicate.like path (Backend.standard.pattern argument)).selects document = true ↔
      Fills isMark (Text.upper argument).toList (Text.upper text).toList := by
  have hmatches : Json.MatchesText (.string text) argument ↔
      Fills isMark (Text.upper argument).toList (Text.upper text).toList := by
    simp [Json.MatchesText, Json.plainText?]
  rw [← hmatches, ← likeJson_iff]
  simp [Predicate.selects, Predicate.holds, Scope.reach, hreach]

/-- The text of an argument without its marks. -/
def withoutMarks (argument : String) : String :=
  String.ofList (argument.toList.filter (!isMark ·))

/-- The marks may be left out before or behind the upper case. -/
theorem toList_upper_withoutMarks (argument : String) :
    (Text.upper (withoutMarks argument)).toList =
      (Text.upper argument).toList.filter (!isMark ·) := by
  rw [Text.toList_upper, Text.toList_upper, withoutMarks, String.toList_ofList, List.filter_flatMap]
  induction argument.toList with
  | nil => rfl
  | cons c cs ih =>
    have hsame : ∀ d ∈ Text.upperChar c, (!isMark d) = !isMark c := fun d hd => by
      rw [isMark_of_mem_upperChar hd]
    rw [List.flatMap_cons, ← ih, List.filter_congr hsame]
    cases hc : isMark c with
    | true => simp [hc]
    | false =>
      have hkeep : (Text.upperChar c).filter (fun _ => !false) = Text.upperChar c :=
        List.filter_eq_self.mpr fun _ _ => rfl
      rw [hkeep, List.filter_cons_of_pos (by simp [hc]), List.flatMap_cons]

/-- **Wildcards.** A query for a text is compiled, and selects the documents whose text comes from
the argument, both in upper case, by putting runs of characters for `*` and for `%`. It treats `*`
as the only wildcard if and only if the argument has no `%`; and an argument without either sign
selects the texts with its upper case. -/
theorem selects_argument_iff (hop : op = .equal ∨ op = .like)
    (hselect : schema.select selector = .ok selection) (hkey : selection.key? = none)
    (htype : selection.type = .string) (hconverter : selection.field.converter = none) :
    ∃ predicate : Predicate,
      Query.compile .standard schema (.comparison ⟨selector, op, [argument]⟩) = .ok predicate ∧
      (∀ document text, document.reach selection.path.segments = [.string text] →
        (predicate.selects document = true ↔
          Fills isMark (Text.upper argument).toList (Text.upper text).toList)) ∧
      ((∀ document text, document.reach selection.path.segments = [.string text] →
          (predicate.selects document = true ↔
            Fills isStar (Text.upper argument).toList (Text.upper text).toList)) ↔
        wildcard ∉ argument.toList) ∧
      (queryWildcard ∉ argument.toList → wildcard ∉ argument.toList →
        ∀ document text, document.reach selection.path.segments = [.string text] →
          (predicate.selects document = true ↔ Text.upper text = Text.upper argument)) := by
  have hmarks : ∀ document text, document.reach selection.path.segments = [.string text] →
      ((Predicate.like selection.path (Backend.standard.pattern argument)).selects document = true ↔
        Fills isMark (Text.upper argument).toList (Text.upper text).toList) :=
    fun document text hreach => Predicate.selects_like_iff hreach
  refine ⟨_, compile_text hop hselect hkey htype hconverter, hmarks, ⟨fun hstar hmem => ?_, ?_⟩, ?_⟩
  · -- the text without any marks fills the argument, but has no `%` for the one in the argument
    have hreach : (Json.nest selection.path.segments (.string (withoutMarks argument))).reach
        selection.path.segments = [.string (withoutMarks argument)] := Json.reach_nest _ _
    have hfills : Fills isMark (Text.upper argument).toList
        (Text.upper (withoutMarks argument)).toList := by
      rw [toList_upper_withoutMarks]
      exact fills_filter _
    have hcount := count_le_of_fills (c := wildcard)
      ((hstar _ _ hreach).mp ((hmarks _ _ hreach).mpr hfills)) rfl
    have hpos : 0 < (Text.upper argument).toList.count wildcard :=
      List.count_pos_iff.mpr ((mem_upper_iff (by decide)).mpr hmem)
    have hzero : (Text.upper (withoutMarks argument)).toList.count wildcard = 0 := by
      rw [toList_upper_withoutMarks, List.count_eq_zero]
      exact fun h => by simpa [isMark, isWildcard] using (List.mem_filter.mp h).2
    omega
  · -- no character of the argument tells the two sets of wildcards apart
    intro hpercent document text hreach
    refine (hmarks document text hreach).trans (fills_congr fun c hc => ?_)
    have hne : c ≠ wildcard := by
      rintro rfl
      exact hpercent ((mem_upper_iff (by decide)).mp hc)
    simp [isMark, isWildcard, hne]
  · -- no character is a wildcard, so a text fills the argument by being the same
    intro hstar hpercent document text hreach
    refine (hmarks document text hreach).trans ?_
    rw [fills_iff_eq, String.toList_inj]
    intro c hc
    refine Bool.eq_false_iff.mpr fun hmark => ?_
    have hmem : c ∈ argument.toList := (mem_upper_iff (toNat_lt_of_isMark hmark)).mp hc
    rcases Bool.or_eq_true _ _ ▸ hmark with hmark | hmark
    · exact hstar (of_decide_eq_true hmark ▸ hmem)
    · exact hpercent (of_decide_eq_true hmark ▸ hmem)

theorem selects_argument_iff_name :
    (Operator.equal = .equal ∨ Operator.equal = .like) ∧
      Schema.target.select "name" = .ok ⟨.scalar "NAME" "name" .string, ⟨["name"]⟩, .string, none⟩ ∧
      ∃ predicate : Predicate,
        Query.compile .standard Schema.target (.comparison ⟨"name", .equal, ["ab*cd"]⟩) =
          .ok predicate ∧
        (predicate.selects (.object [("name", .string "abxcd")]) = true ↔
          Fills isMark (Text.upper "ab*cd").toList (Text.upper "abxcd").toList) := by
  obtain ⟨predicate, hcompile, hmarks, -⟩ := @selects_argument_iff Schema.target "name" _ .equal
    "ab*cd" (.inl rfl) select_target_name rfl rfl rfl
  exact ⟨.inl rfl, select_target_name, predicate, hcompile, hmarks _ _ rfl⟩

/-- A `%` in an argument stands for other characters than itself. -/
theorem percent_selects_other_text : ∃ predicate : Predicate,
    Query.compile .standard Schema.target (.comparison ⟨"name", .equal, ["a%b"]⟩) =
      .ok predicate ∧
    (Json.object [("name", .string "axb")]).reach ["name"] = [.string "axb"] ∧
    predicate.selects (.object [("name", .string "axb")]) = true ∧
    ¬ Fills isStar (Text.upper "a%b").toList (Text.upper "axb").toList := by
  have hfills : Fills isMark (Text.upper "a%b").toList (Text.upper "axb").toList :=
    .keep rfl (.run ['X'] rfl (.keep rfl .nil))
  refine ⟨_, compile_text (.inl rfl) select_target_name rfl rfl rfl, rfl,
    (Predicate.selects_like_iff rfl).mpr hfills, ?_⟩
  have hkeep : ∀ c ∈ (Text.upper "a%b").toList, isStar c = false := by
    simp [isStar, queryWildcard, Text.upper, Text.upperChar]
  rw [fills_iff_eq hkeep]
  decide

end FilterQuery
