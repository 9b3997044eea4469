import FilterQuery.Proofs.Integers
import FilterQuery.Proofs.Literals
import FilterQuery.Proofs.ShortestDecimal
import FilterQuery.Proofs.StoredValues

/-!
# Patterns of numbers

The pattern operator compares a number by its text. The pattern is made from the **plain text** of
the number that the argument stands for, and a document is matched by the text of its number in
**JSON**. Both have the same characters for whole numbers of the types for them. For doubles they
differ: JSON marks a whole number by `.0`, writes very small and very great ones with an exponent,
and has a rule for ties of its own. So a double is found by the pattern of its own text only if it
is **written alike** (`Double.IsWrittenAlike`), although it is equal to itself
(`Query.selects_like_number_iff`).

* **Layouts.** Whether a text has a point or a letter tells the layouts apart, and within one layout
  the text determines the decimal. So two texts are the same if the decimals are and both are laid
  out with a point in the middle of their digits.
* **Decimals.** The decimals differ only by the rule for ties, where the double is half-way between
  two of the shortest decimals that read back as it.
* **Patterns.** The plain text of a number is made of digits, a minus and a point. None of these is
  a mark or has another upper case, so as a pattern the text is matched by itself alone.
* **Queries.** A number in a document is matched by its text alone, so the document is selected if
  that is the text of the argument.
-/

namespace FilterQuery

open Json Pattern Text

/-! ### The texts of a decimal -/

namespace Decimal

variable {d d' : Decimal} {mark : List Char}

/-- Without a mark behind it, a whole number is written without a point. -/
theorem point_not_mem_positional (h : 0 ≤ d.exponent) : '.' ∉ d.positional [] := by
  have hplaces : (-d.exponent).toNat = 0 := by omega
  rw [positional, hplaces, if_pos rfl]
  simp only [List.append_nil, List.mem_append, not_or]
  refine ⟨fun hmem => absurd (isDigit_of_mem_digitsOf hmem) (by decide), fun hmem => ?_⟩
  exact absurd (List.eq_of_mem_replicate hmem) (by decide)

/-- With the mark of JSON there is a point in any number. -/
theorem point_mem_positional : '.' ∈ d.positional ['.', '0'] := by
  simp only [positional]
  split
  · simp
  · split <;> simp

theorem letter_not_mem_positional : 'e' ∉ d.positional [] := by
  intro h
  rcases isDigit_or_eq_of_mem_positional h with h | h <;> exact absurd h (by decide)

theorem letter_mem_scientific : 'e' ∈ d.scientific := by
  simp [scientific]

/-- With places behind the point, a whole number is not marked. -/
theorem positional_eq (h : d.exponent < 0) : d.positional mark = d.positional [] := by
  have hplaces : (-d.exponent).toNat ≠ 0 := by omega
  rw [positional, positional, if_neg hplaces, if_neg hplaces]

/-- Zeros in front do not count. -/
theorem ofDigits_replicate_append (k : Nat) (cs : List Char) :
    ofDigits (List.replicate k '0' ++ cs) = ofDigits cs := by
  induction k with
  | zero => rfl
  | succ k ih =>
    rw [← ih]
    rfl

/-- Without the point, what is written is the digits behind some zeros. -/
theorem ofDigits_filter_positional (h : d.exponent < 0) :
    ofDigits ((d.positional []).filter (· ≠ '.')) = d.digits := by
  have hdigits : ∀ c ∈ digitsOf d.digits, (decide (c ≠ '.')) = true := by
    intro c hc
    rw [decide_eq_true_iff]
    rintro rfl
    exact absurd (isDigit_of_mem_digitsOf hc) (by decide)
  have hplaces : (-d.exponent).toNat ≠ 0 := by omega
  simp only [positional, if_neg hplaces]
  split
  · rw [List.filter_append, List.filter_cons_of_neg (by decide), ← List.filter_append,
      List.take_append_drop, List.filter_eq_self.mpr hdigits, ofDigits_digitsOf]
  · have hzeros : ∀ k, (List.replicate k '0').filter (· ≠ '.') = List.replicate k '0' :=
      fun k => List.filter_eq_self.mpr fun c hc => by rw [List.eq_of_mem_replicate hc]; decide
    rw [List.filter_append, List.filter_cons_of_pos (by decide),
      List.filter_cons_of_neg (by decide), hzeros, List.filter_eq_self.mpr hdigits,
      ← List.replicate_succ, ofDigits_replicate_append, ofDigits_digitsOf]

/-- With the same places behind the point, different digits are written differently. -/
theorem digits_eq_of_positional_eq (hexponent : d.exponent = d'.exponent) (hneg : d.exponent < 0)
    (h : d.positional [] = d'.positional []) : d.digits = d'.digits := by
  rw [← ofDigits_filter_positional hneg, h, ofDigits_filter_positional (hexponent ▸ hneg)]

end Decimal

/-! ### The two texts of a double -/

namespace Double

variable {x : Double}

/-- A finite double is written in JSON as in plain text. -/
structure IsWrittenAlike (x : Double) : Prop where
  /-- JSON marks whole numbers. -/
  fraction : ¬x.IsWhole
  /-- JSON writes smaller numbers with an exponent. -/
  large : (10 : ℚ) ^ (-5 : Int) ≤ x.size
  /-- Half-way between two shortest decimals of which the smaller one has an even last digit, JSON
  takes that one. -/
  untied : ∀ d, x.IsShortest d → d.digits % 2 = 0 → x.size ≠ (d.digits + 1 / 2) * 10 ^ d.exponent

/-- Each layout of JSON has a point or a letter. -/
theorem point_or_letter_mem_render_json {d : Decimal} :
    '.' ∈ d.render .json ∨ 'e' ∈ d.render .json := by
  unfold Decimal.render
  split
  · exact .inl Decimal.point_mem_positional
  · exact .inr Decimal.letter_mem_scientific

/-- The two layouts agree on the doubles that are written alike. -/
theorem render_plain_eq_json_iff :
    (x.shortest .up).render .plain = (x.shortest .toEven).render .json ↔ x.IsWrittenAlike := by
  have hplain : (x.shortest .up).render .plain = (x.shortest .up).positional [] := if_pos rfl
  rw [hplain]
  by_cases hwhole : x.IsWhole
  · -- JSON marks whole numbers by a point, or else writes them with an exponent
    refine iff_of_false (fun h => ?_) fun h => h.fraction hwhole
    rcases point_or_letter_mem_render_json (d := x.shortest .toEven) with hmem | hmem <;>
      rw [← h] at hmem
    · exact Decimal.point_not_mem_positional (exponent_shortest_nonneg_iff.mpr hwhole) hmem
    · exact Decimal.letter_not_mem_positional hmem
  · -- a fraction has as many places in both layouts, so the digits decide
    have hx : 0 < x.significand := Nat.pos_of_ne_zero (mt isWhole_of_zero hwhole)
    have hexponent : (x.shortest .up).exponent = (x.shortest .toEven).exponent :=
      (isShortest_shortest hx).exponent_eq (isShortest_shortest hx)
    have hneg : (x.shortest .up).exponent < 0 :=
      not_le.mp (exponent_shortest_nonneg_iff.not.mpr hwhole)
    have hplace : -5 ≤ (x.shortest .toEven).leadingPlace ↔ (10 : ℚ) ^ (-5 : Int) ≤ x.size :=
      neg_five_le_leadingPlace_iff hx
    have hlarge : Layout.json.positional (x.shortest .toEven).leadingPlace = true ↔
        (10 : ℚ) ^ (-5 : Int) ≤ x.size := by
      rw [← hplace]
      simp [Layout.json, leadingPlace_shortest_le hx hwhole]
    unfold Decimal.render
    split
    · next hpositional =>
      rw [Decimal.positional_eq (d := x.shortest .toEven) (hexponent ▸ hneg)]
      constructor
      · intro h
        have hdigits := Decimal.digits_eq_of_positional_eq hexponent hneg h
        have hsame : x.shortest .up = x.shortest .toEven := congrArg₂ Decimal.mk hdigits hexponent
        exact ⟨hwhole, hlarge.mp hpositional, (shortest_up_eq_iff hx).mp hsame⟩
      · intro h
        rw [(shortest_up_eq_iff hx).mpr h.untied]
    · -- a number that JSON writes with an exponent is less than the fifth decimal place
      next hscientific =>
      refine iff_of_false (fun h => ?_) fun h => hscientific (hlarge.mpr h.large)
      exact Decimal.letter_not_mem_positional (h ▸ Decimal.letter_mem_scientific)

theorem text_of_isFinite (hfinite : x.isFinite = true) :
    x.text = String.ofList (x.renderFinite .plain) := by
  have hinfinite : x.isInfinite = false :=
    beq_eq_false_iff_ne.mpr (Nat.ne_of_lt (of_decide_eq_true hfinite))
  simp [text, isNaN_of_isFinite hfinite, hinfinite]

/-- The plain text of a double is its text in JSON if the double is written alike in both. -/
theorem text_eq_json_iff (hfinite : x.isFinite = true) :
    x.text = (JsonNumber.float x).text ↔ x.IsWrittenAlike := by
  rw [text_of_isFinite hfinite, JsonNumber.text, String.ofList_inj, renderFinite, renderFinite,
    List.append_cancel_left_eq]
  exact render_plain_eq_json_iff

/-- A tie between the last digits 2 and 3. -/
example :
    (round false 61511993408203125 100000000000).text = "615119.9340820313" ∧
      (JsonNumber.float (round false 61511993408203125 100000000000)).text =
        "615119.9340820312" := by
  decide +kernel

end Double

/-! ### Patterns of numbers -/

/-- The characters of plain numbers: digits, the point and the minus sign. -/
def isNumberSign (c : Char) : Bool := c.isDigit || c = '.' || c = '-'

/-- Such a character is neither a letter nor a mark. -/
theorem of_isNumberSign {c : Char} (h : isNumberSign c = true) :
    c.toNat < 0x41 ∧ isMark c = false := by
  simp only [isNumberSign, Bool.or_eq_true, decide_eq_true_eq] at h
  rcases h with (hdigit | rfl) | rfl
  · have hbounds : 0x30 ≤ c.toNat ∧ c.toNat ≤ 0x39 := Char.isDigit_iff_toNat.mp hdigit
    refine ⟨by omega, ?_⟩
    rw [Bool.eq_false_iff]
    intro hmark
    rcases Bool.or_eq_true _ _ ▸ hmark with hmark | hmark
    all_goals
      rw [of_decide_eq_true hmark] at hdigit
      exact absurd hdigit (by decide)
  · decide
  · decide

/-- As a pattern, a text of such characters is matched by itself alone. -/
theorem Json.matchesText_iff_eq {json : Json} {text argument : String}
    (htext : json.plainText? = some text)
    (hargument : ∀ c ∈ argument.toList, isNumberSign c = true) :
    json.MatchesText argument ↔ argument = text := by
  have hlow : ∀ c ∈ argument.toList, c.toNat < 0x41 :=
    fun c hc => (of_isNumberSign (hargument c hc)).1
  have hkeep : ∀ c ∈ argument.toList, isMark c = false :=
    fun c hc => (of_isNumberSign (hargument c hc)).2
  rw [Json.MatchesText, htext, upper_of_lt hlow]
  simp only [Option.some.injEq, exists_eq_left']
  rw [fills_iff_eq hkeep, String.toList_inj, upper_eq_iff_of_lt hlow, eq_comm]

namespace Value

variable {value : Value}

/-- The value is a whole number or a finite double. -/
def IsNumber : Value → Prop
  | int32 _ | int64 _ => True
  | float64 x => x.isFinite = true
  | _ => False

/-- The plain text of a number is its text in JSON. -/
def IsWrittenAlike : Value → Prop
  | float64 x => x.IsWrittenAlike
  | _ => True

/-- The text of a number is made of digits and the signs of numbers. -/
theorem isNumberSign_of_mem_text (h : value.IsNumber) :
    ∀ c ∈ value.text.toList, isNumberSign c = true := by
  have hminus : isNumberSign '-' = true := by decide
  have hdigit : ∀ {c : Char}, c.isDigit = true → isNumberSign c = true := fun hc => by
    simp [isNumberSign, hc]
  intro c hc
  cases value with
  | int32 n | int64 n =>
    rw [text, String.toList_ofList, writeInt] at hc
    split at hc
    · rcases List.mem_cons.mp hc with rfl | hc
      · exact hminus
      · exact hdigit (isDigit_of_mem_digitsOf hc)
    · exact hdigit (isDigit_of_mem_digitsOf hc)
  | float64 x =>
    rw [text, Double.text_of_isFinite h, String.toList_ofList, Double.renderFinite,
      List.mem_append] at hc
    rcases hc with hc | hc
    · split at hc
      · exact List.mem_singleton.mp hc ▸ hminus
      · cases hc
    · rcases Decimal.isDigit_or_eq_of_mem_positional hc with hc | rfl
      · exact hdigit hc
      · decide
  | _ => exact h.elim

/-- A number matches the pattern of its own text if it is written alike. -/
theorem matchesText_toJson_iff (h : value.IsNumber) :
    value.toJson.MatchesText value.text ↔ value.IsWrittenAlike := by
  have hsigns := isNumberSign_of_mem_text h
  cases value with
  | int32 n | int64 n => exact iff_of_true ((Json.matchesText_iff_eq rfl hsigns).mpr rfl) trivial
  | float64 x =>
    have hnumber : (float64 x).toJson = .number (.float x) := if_pos h
    rw [hnumber, Json.matchesText_iff_eq rfl hsigns]
    exact Double.text_eq_json_iff h
  | _ => exact h.elim

end Value

/-! ### Queries -/

variable {schema : Schema} {selection : Selection} {selector argument : String} {value : Value}
  {document : Json}

/-- A field of a type of numbers has numbers as values. -/
theorem Selection.isNumber_of_coerce
    (htype : selection.type = .int32 ∨ selection.type = .int64 ∨ selection.type = .float64)
    (hconverter : selection.field.converter = none)
    (h : selection.coerce selector argument = .ok value) : value.IsNumber := by
  have hadmits : selection.type.Admits false argument value :=
    @Comparison.admits_of_read ⟨selector, .like, [argument]⟩ selection argument value hconverter h
  rcases htype with htype | htype | htype <;> rw [htype] at hadmits <;> cases value <;>
    first | exact hadmits | trivial

/-- **Patterns of numbers.** Let an argument stand for a number. A document in which nothing but
this number is found is selected by the equality with the argument, but by the pattern of the
argument only if the number is written alike in plain text and in JSON. Numbers of the types for
whole numbers always are. A double is unless it is whole, less than the fifth decimal place, or
half-way between two shortest decimals of which the smaller one has an even last digit. -/
theorem Query.selects_like_number_iff (hselect : schema.select selector = .ok selection)
    (htype : selection.type = .int32 ∨ selection.type = .int64 ∨ selection.type = .float64)
    (hconverter : selection.field.converter = none)
    (hvalue : selection.coerce selector argument = .ok value)
    (hdocument : selection.FindsOnly document value.toJson) : ∃ pattern equality : Predicate,
      Query.compile .standard schema (.comparison ⟨selector, .like, [argument]⟩) = .ok pattern ∧
      Query.compile .standard schema (.comparison ⟨selector, .equal, [argument]⟩) = .ok equality ∧
      equality.selects document = true ∧
      (pattern.selects document = true ↔ value.IsWrittenAlike) := by
  have hnumber : value.IsNumber := Selection.isNumber_of_coerce htype hconverter hvalue
  have hexpressible : value.IsExpressible := Selection.isExpressible_of_coerce hconverter hvalue
  -- both operators take the argument for the same value
  have hvalues : ∀ op : Operator, op = .like ∨ op = .equal →
      Comparison.values selection ⟨selector, op, [argument]⟩ = .ok [value] := by
    rintro op (rfl | rfl)
    all_goals
      rw [Comparison.values_single rfl]
      exact congrArg (Except.map _) hvalue
  obtain ⟨pattern, hpattern, hmatches⟩ := exists_compile_findsOnly hselect (List.cons_ne_nil _ _)
    (hvalues .like (.inl rfl)) rfl
  obtain ⟨equality, hequality, hequals⟩ := exists_compile_findsOnly hselect (List.cons_ne_nil _ _)
    (hvalues .equal (.inr rfl)) rfl
  refine ⟨pattern, equality, hpattern, hequality, ?_, ?_⟩
  · rw [hequals _ _ hdocument]
    exact (Operator.satisfied_toJson_iff (.inl rfl) hexpressible).mpr rfl
  · -- no other operator than `=out=` asks about all values, so one value is matched
    have hlike : Operator.like ≠ .notIn := by decide
    rw [hmatches _ _ hdocument, Operator.satisfied_singleton_iff hlike, exists_eq_left]
    exact Value.matchesText_toJson_iff hnumber

/-- A schema with one field, for doubles. -/
def Schema.ratios : Schema := .ofFields "sample" [.scalar "RATIO" "ratio" .float64]

theorem select_ratios_ratio : Schema.ratios.select "ratio" =
    .ok ⟨.scalar "RATIO" "ratio" .float64, ⟨["ratio"]⟩, .float64, none⟩ := by
  rfl

/-- A quarter is selected by its pattern. -/
theorem Query.selects_like_number_iff_quarter : ∃ pattern equality : Predicate,
    Query.compile .standard Schema.ratios (.comparison ⟨"ratio", .like, ["0.25"]⟩) = .ok pattern ∧
    Query.compile .standard Schema.ratios (.comparison ⟨"ratio", .equal, ["0.25"]⟩) =
      .ok equality ∧
    equality.selects (.object [("ratio", .number (.float (.round false 1 4)))]) = true ∧
    pattern.selects (.object [("ratio", .number (.float (.round false 1 4)))]) = true := by
  have hread : Value.ofText? .float64 "0.25" = some (.float64 (.round false 1 4)) := by
    decide +kernel
  have hsize : (Double.round false 1 4).size = 1 / 4 := by
    have hsignificand : (Double.round false 1 4).significand = 2 ^ 52 := by decide +kernel
    have hscale : (Double.round false 1 4).scale = -54 := by decide +kernel
    rw [Double.size, hsignificand, hscale]
    norm_num
  have hshortest : (Double.round false 1 4).IsShortest ⟨25, -2⟩ := by
    have hsearch : (Double.round false 1 4).shortest .toEven = ⟨25, -2⟩ := by decide +kernel
    exact hsearch ▸ Double.isShortest_shortest (by decide +kernel)
  have halike : (Double.round false 1 4).IsWrittenAlike := by
    refine ⟨?_, ?_, fun d hd _ hmiddle => ?_⟩
    · rintro ⟨k, hk⟩
      have hfour : (4 * k : ℚ) = 1 := by linarith
      norm_cast at hfour
      omega
    · rw [hsize]
      norm_num
    · rw [hd.exponent_eq hshortest, hsize] at hmiddle
      norm_num at hmiddle
      have hhundred : (2 * d.digits + 1 : ℚ) = 50 := by linarith
      norm_cast at hhundred
      omega
  obtain ⟨pattern, equality, hpattern, hequality, hequals, hmatches⟩ :=
    Query.selects_like_number_iff select_ratios_ratio (.inr (.inr rfl)) rfl
      (Selection.readAs_eq_ok_iff.mpr hread) (Selection.findsOnly_nest rfl)
  exact ⟨pattern, equality, hpattern, hequality, hequals, hmatches.mpr halike⟩

/-- The number one is missed by its pattern, since JSON marks whole numbers. -/
theorem Query.one_missed_by_like : ∃ (selection : Selection) (pattern equality : Predicate),
    Schema.ratios.select "ratio" = .ok selection ∧
    selection.type = .float64 ∧ selection.field.converter = none ∧
    selection.coerce "ratio" "1" = .ok (.float64 (.ofInt 1)) ∧
    Query.compile .standard Schema.ratios (.comparison ⟨"ratio", .like, ["1"]⟩) = .ok pattern ∧
    Query.compile .standard Schema.ratios (.comparison ⟨"ratio", .equal, ["1"]⟩) = .ok equality ∧
    selection.FindsOnly (.object [("ratio", (Value.float64 (.ofInt 1)).toJson)])
      (Value.float64 (.ofInt 1)).toJson ∧
    equality.selects (.object [("ratio", (Value.float64 (.ofInt 1)).toJson)]) = true ∧
    pattern.selects (.object [("ratio", (Value.float64 (.ofInt 1)).toJson)]) = false := by
  have hread : Value.ofText? .float64 "1" = some (.float64 (.ofInt 1)) := by decide +kernel
  have hvalue := (@Selection.readAs_eq_ok_iff .float64 "ratio" "1" _).mpr hread
  exact ⟨_, _, _, select_ratios_ratio, rfl, rfl, hvalue, rfl, rfl, Selection.findsOnly_nest rfl,
    by decide +kernel, by decide +kernel⟩

end FilterQuery
