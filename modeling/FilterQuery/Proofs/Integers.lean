import FilterQuery.Proofs.Rounding
import FilterQuery.Proofs.WholeArguments

/-!
# Comparisons with whole numbers

On a field of a whole-number type, an operator with some numbers as arguments **admits** the whole
numbers that it is meant to select. The numbers of documents and arguments are turned into doubles
to be compared, however, so what is selected is decided by their roundings
(`Query.selects_whole_iff`).

* **Exact arguments.** The rounding makes no difference for an argument that is **exact**, which no
  other number of sixty-four bits is rounded to (`IsExact`). All numbers of thirty-two bits are
  exact.
* **Other arguments.** For any other argument some document is selected wrongly: the number that is
  rounded to the same double is taken for the argument.
* **Where it is read.** Arguments are read as whole numbers without rounding, and documents hold
  theirs without it. The rounding is that of the comparison alone, so it is the same for all eight
  operators, and the rule is stated for each of them by `Operator.Admits`.
-/

namespace FilterQuery

open Double Json

/-!
### What operators ask of whole numbers

The question of an operator is stated for any two whole numbers. The tests ask it of the two
roundings, and exactness is what makes this the question about the numbers themselves.
-/

namespace Operator

/-- Whether the operator compares numbers as numbers. -/
def isNumeric : Operator → Bool
  | like | other _ => false
  | _ => true

/-- What an operator asks of a whole number `m` for the argument `n`. -/
def Asks (op : Operator) (n m : Int) : Prop :=
  match op with
  | equal | isIn | notIn => m = n
  | notEqual => m ≠ n
  | greater => n < m
  | greaterOrEqual => n ≤ m
  | less => m < n
  | lessOrEqual => m ≤ n
  | like | other _ => False

/-- A whole number is what an operator asks for with some of its arguments; the complement of a
membership refuses what the membership asks for. -/
def Admits (op : Operator) (numbers : List Int) (m : Int) : Prop :=
  match op with
  | notIn => ¬ ∃ n ∈ numbers, notIn.Asks n m
  | op => ∃ n ∈ numbers, op.Asks n m

end Operator

namespace Value

/-- The whole number that is the value. -/
def whole? : Value → Option Int
  | int32 n | int64 n => some n
  | _ => none

variable {value : Value} {m n : Int}

/-- A value that is a whole number is compared by its rounding. -/
theorem compareJson?_whole (hvalue : value.whole? = some n) (hn : IsWord n) (hm : IsWord m) :
    value.compareJson? (.number (.int m)) = some (compare (nearest m) (nearest n)) := by
  cases value <;> simp only [whole?, Option.some.injEq, reduceCtorEq] at hvalue
  all_goals
    subst hvalue
    exact compare?_ofInt hm hn

end Value

namespace Operator

variable {op : Operator} {value : Value} {values : List Value} {numbers : List Int} {m n : Int}

/-- The test of an operator on whole numbers is what the operator asks of their roundings. -/
theorem test_whole_iff (hop : op.isNumeric = true) (hvalue : value.whole? = some n)
    (hn : IsWord n) (hm : IsWord m) :
    op.Test value (.number (.int m)) ↔ op.Asks (nearest n) (nearest m) := by
  have hcompare := Value.compareJson?_whole hvalue hn hm
  have hless : value.compareJson? (.number (.int m)) = some .lt ↔ nearest m < nearest n := by
    rw [hcompare, Option.some_inj, Int.compare_eq_lt]
  have hsame : value.compareJson? (.number (.int m)) = some .eq ↔ nearest m = nearest n := by
    rw [hcompare, Option.some_inj, Int.compare_eq_eq]
  have hgreater : value.compareJson? (.number (.int m)) = some .gt ↔ nearest n < nearest m := by
    rw [hcompare, Option.some_inj, Int.compare_eq_gt]
  have hequals : value.equalsJson (.number (.int m)) = true ↔ nearest m = nearest n := by
    rw [← hsame]
    refine Value.equalsJson_iff_compareJson? ?_
    rintro s rfl
    cases hvalue
  have htextual : value.isTextual = false := by
    cases value <;> simp [Value.whole?] at hvalue <;> rfl
  cases op <;> simp [isNumeric] at hop
  all_goals
    simp only [Test, Asks, htextual, Bool.false_eq_true, if_false, hequals, hless, hsame, hgreater]
    try omega

/-- Satisfying an operator by a whole number is to be admitted by rounding. -/
theorem satisfied_whole_iff (hop : op.isNumeric = true) (hm : IsWord m)
    (hvalues : List.Forall₂ (fun value n => value.whole? = some n ∧ IsWord n) values numbers) :
    op.Satisfied values (· = .number (.int m)) ↔ op.Admits (numbers.map nearest) (nearest m) := by
  have hsome : ∀ op : Operator, op.isNumeric = true →
      ((∃ value ∈ values, op.Test value (.number (.int m))) ↔
        ∃ n ∈ numbers.map nearest, op.Asks n (nearest m)) := by
    intro op hop
    induction hvalues with
    | nil => simp
    | cons hvalue _ ih =>
      rw [List.map_cons]
      simp only [List.mem_cons, exists_eq_or_imp, ih, test_whole_iff hop hvalue.1 hvalue.2 hm]
  have hsome := hsome op hop
  cases op <;> simp only [Satisfied, Admits, exists_eq_left, hsome]

/-- Rounding does not matter for exact numbers. -/
theorem asks_nearest_iff (hn : IsExact n.natAbs) :
    op.Asks (nearest n) (nearest m) ↔ op.Asks n m := by
  have hcompare := hn.compare_nearest m
  have hless : nearest m < nearest n ↔ m < n := by
    rw [← Int.compare_eq_lt, hcompare, Int.compare_eq_lt]
  have hsame : nearest m = nearest n ↔ m = n := by
    rw [← Int.compare_eq_eq, hcompare, Int.compare_eq_eq]
  cases op <;> simp only [Asks] <;> omega

/-- Between exact numbers the rounding changes nothing. -/
theorem admits_nearest_iff (hnumbers : ∀ n ∈ numbers, IsExact n.natAbs) :
    op.Admits (numbers.map nearest) (nearest m) ↔ op.Admits numbers m := by
  have hsome : ∀ op : Operator, (∃ n ∈ numbers.map nearest, op.Asks n (nearest m)) ↔
      ∃ n ∈ numbers, op.Asks n m := by
    intro op
    simp only [List.mem_map, exists_exists_and_eq_and]
    exact exists_congr fun n => and_congr_right fun hn => asks_nearest_iff (hnumbers n hn)
  cases op <;> simp only [Admits, hsome]

end Operator

/-! ### Arguments that are whole numbers -/

namespace Selection

variable {selection : Selection} {selector argument : String} {n : Int}

/-- The whole number that an argument stands for. -/
def whole? (selection : Selection) (selector argument : String) : Option Int :=
  (selection.coerce selector argument).toOption.bind Value.whole?

/-- An argument that stands for a whole number is read as one in the range of its type. -/
theorem exists_of_whole? (htype : selection.type = .int32 ∨ selection.type = .int64)
    (hconverter : selection.field.converter = none)
    (h : selection.whole? selector argument = some n) :
    ∃ value, readAs selection.type selector argument = .ok value ∧ value.whole? = some n ∧
      -0x8000000000000000 ≤ n ∧ n ≤ 0x7FFFFFFFFFFFFFFF ∧
      (selection.type = .int32 → -0x80000000 ≤ n ∧ n ≤ 0x7FFFFFFF) := by
  rw [whole?, (coerce_eq_readAs (type_ne_enumeration htype) hconverter).1] at h
  obtain ⟨value, hread, hwhole⟩ := Option.bind_eq_some_iff.mp h
  have hvalue : readAs selection.type selector argument = .ok value := by
    cases hcase : readAs selection.type selector argument with
    | ok other =>
      rw [hcase] at hread
      exact congrArg Except.ok (Option.some.inj hread)
    | error e => simp [hcase, Except.toOption] at hread
  -- the type converts the argument, since an argument that it does not convert is refused
  have htext : Value.ofText? selection.type argument = some value := by
    unfold readAs at hvalue
    split at hvalue
    · next found hfound => exact hfound.trans (congrArg some (Except.ok.inj hvalue))
    · simp at hvalue
  refine ⟨value, hvalue, hwhole, ?_⟩
  rcases htype with htype | htype <;> rw [htype] at htext ⊢
  · obtain ⟨k, hk, rfl⟩ := Option.map_eq_some_iff.mp htext
    obtain rfl : k = n := Option.some.inj hwhole
    have hbounds := (Value.wholeBetween?_eq_some_iff.mp hk).2
    exact ⟨by omega, by omega, fun _ => hbounds⟩
  · obtain ⟨k, hk, rfl⟩ := Option.map_eq_some_iff.mp htext
    obtain rfl : k = n := Option.some.inj hwhole
    have hbounds := (Value.wholeBetween?_eq_some_iff.mp hk).2
    exact ⟨hbounds.1, hbounds.2, by simp⟩

/-- Arguments that stand for whole numbers are read as these numbers. -/
theorem exists_mapM_readAs {numbers : List Int} {arguments : List String}
    (htype : selection.type = .int32 ∨ selection.type = .int64)
    (hconverter : selection.field.converter = none)
    (h : arguments.mapM (selection.whole? selector) = some numbers) :
    ∃ values, arguments.mapM (readAs selection.type selector) = .ok values ∧
      List.Forall₂ (fun value n => value.whole? = some n ∧ IsWord n) values numbers := by
  induction mapM_eq_some_iff.mp h with
  | nil => exact ⟨[], rfl, .nil⟩
  | cons hn hrest ih =>
    obtain ⟨value, hread, hwhole, hlow, hhigh, -⟩ := exists_of_whole? htype hconverter hn
    obtain ⟨values, hvalues, hall⟩ := ih (mapM_eq_some_iff.mpr hrest)
    refine ⟨value :: values, ?_, .cons ⟨hwhole, by unfold IsWord; omega⟩ hall⟩
    rw [List.mapM_cons, hread, hvalues]
    rfl

end Selection

/-! ### Documents that hold one value -/

/-- The only value that a selection finds in a document is `json`. -/
inductive Selection.FindsOnly (selection : Selection) (document json : Json) : Prop where
  | plain (hkey : selection.key? = none)
      (h : ∀ found, ReachedAlong found selection.path.segments document ↔ found = json)
  /-- One entry of a map has the key, and nothing but `json` is found in it. -/
  | entry {keyMember : String} {valueMember : Option String} {type : ValueType} {key : MapKey}
      {entry : Json} (hkey : selection.key? = some key)
      (hkind : selection.field.kind = .map keyMember valueMember type)
      (hentry : ∀ other, ReachedAlong other selection.path.segments document ∧
        ReachedAlong (.string key.key) [keyMember] other ↔ other = entry)
      (h : ∀ found, ReachedAlong found valueMember.toList entry ↔ found = json)

variable {schema : Schema} {selection : Selection} {document json : Json}

/-- A comparison holds in such a document if the value satisfies the operator. -/
theorem Comparison.holds_iff_of_findsOnly {c : Comparison} {values : List Value}
    (hselect : schema.select c.selector = .ok selection)
    (hvalues : c.values selection = .ok values) (h : selection.FindsOnly document json) :
    c.Holds schema document ↔ c.operator.Satisfied values (· = json) := by
  rcases h with ⟨hkey, h⟩ | ⟨hkey, hkind, hentry, h⟩
  · rw [holds_plain_iff hselect hkey hvalues, funext fun found => propext (h found)]
  · rw [holds_entry_iff hselect hkey hkind hvalues]
    constructor
    · rintro ⟨other, hother, hkeyfound, hsatisfied⟩
      obtain rfl := (hentry other).mp ⟨hother, hkeyfound⟩
      rwa [funext fun found => propext (h found)] at hsatisfied
    · intro hsatisfied
      obtain ⟨hother, hkeyfound⟩ := (hentry _).mpr rfl
      refine ⟨_, hother, hkeyfound, ?_⟩
      rwa [funext fun found => propext (h found)]

/-- A comparison whose arguments have values compiles, and by itself selects such a document if the
value satisfies the operator. -/
theorem Query.exists_compile_findsOnly {c : Comparison} {values : List Value}
    (hselect : schema.select c.selector = .ok selection) (harguments : c.arguments ≠ [])
    (hvalues : c.values selection = .ok values) (hknown : c.operator.isOther = false) :
    ∃ predicate : Predicate, Query.compile .standard schema (.comparison c) = .ok predicate ∧
      ∀ document json, selection.FindsOnly document json →
        (predicate.selects document = true ↔ c.operator.Satisfied values (· = json)) := by
  obtain ⟨predicate, hcompile, hselects⟩ :=
    exists_compile_comparison hselect harguments hvalues hknown
  refine ⟨predicate, hcompile, fun document json honly => ?_⟩
  rw [hselects, Comparison.holds_iff_of_findsOnly hselect hvalues honly]

/-- The document with nothing in it but a whole number along the path. -/
theorem Selection.findsOnly_nest {n : JsonNumber} (hkey : selection.key? = none) :
    selection.FindsOnly (Json.nest selection.path.segments (.number n)) (.number n) :=
  .plain hkey fun _ => reachedAlong_nest_iff rfl rfl

/-! ### Queries -/

/-- A comparison of whole numbers compiles, and selects by the roundings of the numbers. -/
theorem Comparison.selects_nearest_iff {c : Comparison} {numbers : List Int}
    (hselect : schema.select c.selector = .ok selection)
    (htype : selection.type = .int32 ∨ selection.type = .int64)
    (hconverter : selection.field.converter = none) (hop : c.operator.isNumeric = true)
    (harguments : c.arguments ≠ [])
    (hnumbers : c.taken.mapM (selection.whole? c.selector) = some numbers) :
    ∃ predicate : Predicate, Query.compile .standard schema (.comparison c) = .ok predicate ∧
      ∀ document m, IsWord m → selection.FindsOnly document (.number (.int m)) →
        (predicate.selects document = true ↔
          c.operator.Admits (numbers.map nearest) (nearest m)) := by
  obtain ⟨values, hread, hall⟩ := Selection.exists_mapM_readAs htype hconverter hnumbers
  have hvalues : c.values selection = .ok values := by
    rw [Comparison.values_eq_mapM,
      Comparison.read_eq_readAs (Selection.type_ne_enumeration htype) hconverter]
    exact hread
  have hknown : c.operator.isOther = false := by
    cases hother : c.operator <;> simp [hother, Operator.isNumeric, Operator.isOther] at hop ⊢
  obtain ⟨predicate, hcompile, hselects⟩ :=
    Query.exists_compile_findsOnly hselect harguments hvalues hknown
  refine ⟨predicate, hcompile, fun document m hm honly => ?_⟩
  rw [hselects _ _ honly, Operator.satisfied_whole_iff hop hm hall]

/-- **Selecting by whole numbers.** A query on a field of a whole-number type selects a document
that holds a whole number by the roundings of this number and of the arguments, which is by the
numbers themselves if the arguments are exact, as they always are at thirty-two bits. By an argument
that is not exact some document is selected or missed wrongly. -/
theorem Query.selects_whole_iff {selector : String}
    (hselect : schema.select selector = .ok selection)
    (htype : selection.type = .int32 ∨ selection.type = .int64)
    (hconverter : selection.field.converter = none) :
    (∀ op arguments numbers, op.isNumeric = true → arguments ≠ [] →
      (Comparison.mk selector op arguments).taken.mapM (selection.whole? selector) = some numbers →
      ∃ predicate : Predicate,
        Query.compile .standard schema (.comparison ⟨selector, op, arguments⟩) = .ok predicate ∧
        ∀ document m, IsWord m → selection.FindsOnly document (.number (.int m)) →
          (predicate.selects document = true ↔ op.Admits (numbers.map nearest) (nearest m)) ∧
          ((∀ n ∈ numbers, IsExact n.natAbs) →
            (predicate.selects document = true ↔ op.Admits numbers m))) ∧
      (selection.type = .int32 →
        ∀ argument n, selection.whole? selector argument = some n → IsExact n.natAbs) ∧
      (selection.key? = none → ∀ argument n, selection.whole? selector argument = some n →
        ((∀ op predicate, op.isNumeric = true →
            Query.compile .standard schema (.comparison ⟨selector, op, [argument]⟩) =
              .ok predicate →
            ∀ document m, IsWord m → selection.FindsOnly document (.number (.int m)) →
              (predicate.selects document = true ↔ op.Admits [n] m)) ↔ IsExact n.natAbs)) := by
  have hselects : ∀ op arguments numbers, op.isNumeric = true → arguments ≠ [] →
      (Comparison.mk selector op arguments).taken.mapM (selection.whole? selector) = some numbers →
      ∃ predicate : Predicate,
        Query.compile .standard schema (.comparison ⟨selector, op, arguments⟩) = .ok predicate ∧
        ∀ document m, IsWord m → selection.FindsOnly document (.number (.int m)) →
          (predicate.selects document = true ↔ op.Admits (numbers.map nearest) (nearest m)) :=
    fun op arguments numbers hop harguments hnumbers =>
      @Comparison.selects_nearest_iff schema selection ⟨selector, op, arguments⟩ numbers hselect
        htype hconverter hop harguments hnumbers
  -- of one argument, the number is that of the argument, for the operators with lists as well
  have hone : ∀ op argument n, op.isNumeric = true → selection.whole? selector argument = some n →
      (Comparison.mk selector op [argument]).taken.mapM (selection.whole? selector) = some [n] := by
    intro op argument n hop hn
    cases op <;> simp [Operator.isNumeric, Comparison.taken, hn] at hop ⊢
  refine ⟨?_, ?_, ?_⟩
  · intro op arguments numbers hop harguments hnumbers
    obtain ⟨predicate, hcompile, hrounded⟩ := hselects op arguments numbers hop harguments hnumbers
    refine ⟨predicate, hcompile, fun document m hm honly => ⟨hrounded document m hm honly, ?_⟩⟩
    intro hexact
    rw [hrounded document m hm honly, Operator.admits_nearest_iff hexact]
  · -- a word of thirty-two bits is below the point from which roundings differ
    intro hint argument n hn
    obtain ⟨-, -, -, -, -, hbounds⟩ := Selection.exists_of_whole? htype hconverter hn
    have hsmall := hbounds hint
    exact .inl (by omega)
  · intro hkey argument n hn
    constructor
    · -- a number with the same rounding is taken for the argument
      intro hright
      by_contra hexact
      obtain ⟨-, -, -, hlow, hhigh, -⟩ := Selection.exists_of_whole? htype hconverter hn
      obtain ⟨m, hne, hm, hsame⟩ := exists_nearest_eq hexact hlow hhigh
      obtain ⟨predicate, hcompile, hrounded⟩ :=
        hselects .equal [argument] [n] rfl (by simp) (hone .equal argument n rfl hn)
      have honly := @Selection.findsOnly_nest selection (.int m) hkey
      have hselected := (hrounded _ m hm honly).mpr ⟨nearest n, by simp, hsame⟩
      obtain ⟨k, hk, hequal⟩ := (hright .equal predicate rfl hcompile _ m hm honly).mp hselected
      exact hne (hequal.trans (List.mem_singleton.mp hk))
    · intro hexact op predicate hop hcompile document m hm honly
      obtain ⟨predicate', hcompile', hrounded⟩ :=
        hselects op [argument] [n] hop (by simp) (hone op argument n hop hn)
      obtain rfl := Except.ok.inj (hcompile.symm.trans hcompile')
      rw [hrounded document m hm honly]
      exact Operator.admits_nearest_iff fun k hk => List.mem_singleton.mp hk ▸ hexact

/-- A number of fifty-four bits that is even by one bit only is told from its neighbours. -/
theorem selects_whole_iff_createdat : ∃ predicate : Predicate,
    Query.compile .standard Schema.target
        (.comparison ⟨"createdat", .isIn, ["1700000000000", "9007199254740994"]⟩) =
      .ok predicate ∧
    (predicate.selects (.object [("createdAt", .number (.int 9007199254740993))]) = true ↔
      Operator.isIn.Admits [1700000000000, 9007199254740994] 9007199254740993) := by
  obtain ⟨predicate, hcompile, hselects⟩ :=
    (Query.selects_whole_iff select_target_createdat (.inr rfl) rfl).1 .isIn
      ["1700000000000", "9007199254740994"] [1700000000000, 9007199254740994] rfl (by decide)
      (by decide +kernel)
  have hexact : ∀ n ∈ [1700000000000, 9007199254740994], IsExact (Int.natAbs n) := by
    unfold IsExact
    decide
  have hword : IsWord 9007199254740993 := ⟨by decide, by decide⟩
  exact ⟨predicate, hcompile,
    (hselects _ _ hword (Selection.findsOnly_nest rfl)).2 hexact⟩

/-- A target is selected by a time at which it was not created. -/
theorem createdat_selects_other_number : ∃ (selection : Selection) (predicate : Predicate),
    Schema.target.select "createdat" = .ok selection ∧
    selection.type = .int64 ∧ selection.field.converter = none ∧
    selection.whole? "createdat" "9007199254740993" = some 9007199254740993 ∧
    Query.compile .standard Schema.target
      (.comparison ⟨"createdat", .equal, ["9007199254740993"]⟩) = .ok predicate ∧
    selection.FindsOnly (.object [("createdAt", .number (.int 9007199254740992))])
      (.number (.int 9007199254740992)) ∧
    predicate.selects (.object [("createdAt", .number (.int 9007199254740992))]) = true ∧
    ¬ Operator.equal.Admits [9007199254740993] 9007199254740992 := by
  refine ⟨_, _, select_target_createdat, rfl, rfl, by decide +kernel, rfl,
    Selection.findsOnly_nest rfl, by decide +kernel, ?_⟩
  simp [Operator.Admits, Operator.Asks]

end FilterQuery
