import FilterQuery.Proofs.Pattern

/-!
# Matching by positions

The same matching as a loop over two positions, one in the pattern and one in the text. The loop
keeps the latest wildcard, with the place in the text where the stretch behind it is being tried,
and goes back there when characters differ. Every access to the pattern and to the text is checked.

* **Turns.** There are four kinds of turns: a wildcard is noted, equal characters are kept,
  differing ones lead back to the latest wildcard or end the loop, and at the end of the text the
  loop ends (`step_wildcard`, `step_keep`, `step_differs`, `step_end`). None of them goes out of
  range from positions in range.
* **What the loop keeps.** The stretch behind the latest wildcard compares up to the positions of
  the loop as far as it agrees, so the rest of the comparison is the comparison of the rests
  (`Scan.IsReached`).
* **Termination.** Each turn goes on to a later wildcard, or to a later place for the stretch, or to
  a later character. These three in this order are the size of a state, which gets less.
* **Result.** The answer of a state is what seeking by stretches gives for it, and no turn changes
  it. So the loop ends, with no access out of range, and decides whether the text fills the pattern
  (`ends_start_iff`).
-/

namespace FilterQuery.Pattern

/-!
### The loop

The loop is a function from a state to what a turn leads to, and a run is a relation. So a loop that
goes on for ever and one that leaves its range would show as a state without a result and as one
with a fault.
-/

/-- An access to a list outside of its range. -/
inductive OutOfRange where
  | read (index length : Nat)
  | slice (start length : Nat)
  deriving DecidableEq, Repr

/-- The character at an index. -/
def read (cs : List Char) (index : Nat) : Except OutOfRange Char :=
  match cs[index]? with
  | some c => .ok c
  | none => .error (.read index cs.length)

/-- The characters from an index on. -/
def sliceFrom (cs : List Char) (start : Nat) : Except OutOfRange (List Char) :=
  if start ≤ cs.length then .ok (cs.drop start) else .error (.slice start cs.length)

/-- Whether a list has a character at an index and it is the one expected, which is looked up only
if there is such a character. -/
def hasAt (cs : List Char) (index : Nat) (expected : Except OutOfRange Char) :
    Except OutOfRange Bool :=
  if index < cs.length then do
    let c ← read cs index
    let d ← expected
    return c = d
  else
    return false

/-- The state of the loop: the positions in the pattern and in the text, and the positions of the
latest wildcard and of the place in the text where the stretch behind it is tried. -/
structure Scan where
  pattern : Nat
  text : Nat
  retry? : Option (Nat × Nat)
  deriving DecidableEq, Repr

namespace Scan

/-- The state before the first turn. -/
def start : Scan := ⟨0, 0, none⟩

/-- What a turn of the loop leads to. -/
inductive Step where
  | next (scan : Scan)
  | done (result : Bool)
  deriving DecidableEq, Repr

/-- A turn of the loop, or the test of what is left of the pattern at the end of the text. -/
def step (pattern text : List Char) (scan : Scan) : Except OutOfRange Step :=
  if scan.text < text.length then do
    if ← hasAt pattern scan.pattern (.ok wildcard) then
      return .next ⟨scan.pattern + 1, scan.text, some (scan.pattern, scan.text)⟩
    else if ← hasAt pattern scan.pattern (read text scan.text) then
      return .next ⟨scan.pattern + 1, scan.text + 1, scan.retry?⟩
    else
      match scan.retry? with
      | some (star, tried) => return .next ⟨star + 1, tried + 1, some (star, tried + 1)⟩
      | none => return .done false
  else do
    let rest ← sliceFrom pattern scan.pattern
    return .done (rest.all (· = wildcard))

/-- The loop ends from a state on, with a result or with an access out of range. -/
inductive Ends (pattern text : List Char) : Scan → Except OutOfRange Bool → Prop where
  | fault {scan : Scan} {e : OutOfRange} (h : scan.step pattern text = .error e) :
      Ends pattern text scan (.error e)
  | done {scan : Scan} {result : Bool} (h : scan.step pattern text = .ok (.done result)) :
      Ends pattern text scan (.ok result)
  | next {scan next : Scan} {outcome : Except OutOfRange Bool}
      (h : scan.step pattern text = .ok (.next next)) (hnext : Ends pattern text next outcome) :
      Ends pattern text scan outcome

variable {pattern text : List Char} {scan : Scan}

/-- The loop ends in one way at most. -/
theorem Ends.unique {first second : Except OutOfRange Bool} (h : Ends pattern text scan first)
    (h' : Ends pattern text scan second) : first = second := by
  -- what a turn gives is determined, so both runs go the same way
  induction h with
  | fault h =>
    cases h' with
    | fault h' =>
      rw [h] at h'
      cases h'
      rfl
    | done h' | next h' => rw [h] at h'; cases h'
  | done h =>
    cases h' with
    | done h' =>
      rw [h] at h'
      cases h'
      rfl
    | fault h' | next h' => rw [h] at h'; cases h'
  | next h _ ih =>
    cases h' with
    | next h' hnext =>
      rw [h] at h'
      cases h'
      exact ih hnext
    | fault h' | done h' => rw [h] at h'; cases h'

end Scan

/-! ### Accesses in range -/

section

variable {cs : List Char} {index : Nat}

theorem read_of_lt (h : index < cs.length) : read cs index = .ok cs[index] := by
  rw [read, List.getElem?_eq_getElem h]

theorem sliceFrom_of_le (h : index ≤ cs.length) : sliceFrom cs index = .ok (cs.drop index) :=
  if_pos h

theorem hasAt_of_lt (h : index < cs.length) (c : Char) :
    hasAt cs index (.ok c) = .ok (decide (cs[index] = c)) := by
  rw [hasAt, if_pos h, read_of_lt h]
  rfl

theorem hasAt_of_not_lt (h : ¬ index < cs.length) (expected : Except OutOfRange Char) :
    hasAt cs index expected = .ok false :=
  if_neg h

end

/-! ### Seeking by the outcome of a comparison -/

section

variable {pattern text rest : List Char}

theorem seek_of_exhausted (h : compareStretch pattern text = .exhausted rest) :
    seek pattern text = rest.all (· = wildcard) := by
  rw [seek]
  split <;> simp_all

theorem seek_of_reached {pattern' text' : List Char}
    (h : compareStretch pattern text = .reached pattern' text') :
    seek pattern text = seek pattern' text' := by
  rw [seek]
  split <;> simp_all

theorem seek_of_differs {c : Char} (h : compareStretch pattern (c :: rest) = .differs) :
    seek pattern (c :: rest) = seek pattern rest := by
  rw [seek]
  split <;> simp_all

end

namespace Scan

variable {pattern text : List Char} {scan : Scan}

/-! ### The turns of the loop -/

theorem step_wildcard (htext : scan.text < text.length) (hpattern : scan.pattern < pattern.length)
    (hc : pattern[scan.pattern] = wildcard) :
    scan.step pattern text =
      .ok (.next ⟨scan.pattern + 1, scan.text, some (scan.pattern, scan.text)⟩) := by
  rw [step, if_pos htext, hasAt_of_lt hpattern, hc]
  rfl

theorem step_keep (htext : scan.text < text.length) (hpattern : scan.pattern < pattern.length)
    (hc : pattern[scan.pattern] ≠ wildcard) (heq : pattern[scan.pattern] = text[scan.text]) :
    scan.step pattern text = .ok (.next ⟨scan.pattern + 1, scan.text + 1, scan.retry?⟩) := by
  rw [step, if_pos htext, read_of_lt htext, hasAt_of_lt hpattern, hasAt_of_lt hpattern,
    decide_eq_false hc, decide_eq_true heq]
  rfl

/-- Where characters differ, the stretch of the latest wildcard is tried one place further on, and
without a wildcard the loop ends. -/
theorem step_differs (htext : scan.text < text.length)
    (hdiffers : ∀ hpattern : scan.pattern < pattern.length,
      pattern[scan.pattern] ≠ wildcard ∧ pattern[scan.pattern] ≠ text[scan.text]) :
    scan.step pattern text = .ok (match scan.retry? with
      | some (star, tried) => .next ⟨star + 1, tried + 1, some (star, tried + 1)⟩
      | none => .done false) := by
  have hnot : ∀ c, (∀ hpattern : scan.pattern < pattern.length, pattern[scan.pattern] ≠ c) →
      hasAt pattern scan.pattern (.ok c) = .ok false := by
    intro c hc
    by_cases hpattern : scan.pattern < pattern.length
    · rw [hasAt_of_lt hpattern, decide_eq_false (hc hpattern)]
    · exact hasAt_of_not_lt hpattern _
  rw [step, if_pos htext, read_of_lt htext, hnot _ fun h => (hdiffers h).1,
    hnot _ fun h => (hdiffers h).2]
  cases scan.retry? <;> rfl

theorem step_end (htext : ¬ scan.text < text.length) (hpattern : scan.pattern ≤ pattern.length) :
    scan.step pattern text =
      .ok (.done ((pattern.drop scan.pattern).all (· = wildcard))) := by
  rw [step, if_neg htext, sliceFrom_of_le hpattern]
  rfl

/-! ### What the loop keeps -/

/-- Where the stretch that is tried starts: behind the latest wildcard, or at the front. -/
def origin (scan : Scan) : Nat × Nat :=
  match scan.retry? with
  | some (star, tried) => (star + 1, tried)
  | none => (0, 0)

/-- The positions are in range and no earlier than the stretch, which agrees with the text up to
them. -/
structure IsReached (pattern text : List Char) (scan : Scan) : Prop where
  pattern_le : scan.pattern ≤ pattern.length
  text_le : scan.text ≤ text.length
  origin_le_pattern : scan.origin.1 ≤ scan.pattern
  origin_le_text : scan.origin.2 ≤ scan.text
  stretch : compareStretch (pattern.drop scan.origin.1) (text.drop scan.origin.2) =
    compareStretch (pattern.drop scan.pattern) (text.drop scan.text)

/-- What the loop decides from a state on. -/
def result (pattern text : List Char) (scan : Scan) : Bool :=
  match scan.retry? with
  | some (star, tried) => seek (pattern.drop (star + 1)) (text.drop tried)
  | none => isMatch pattern text

/-- What decreases: the pattern behind the latest wildcard, the text from where its stretch is
tried, the text from the position on. -/
def size (pattern text : List Char) (scan : Scan) : Nat × Nat × Nat :=
  (pattern.length - scan.origin.1, text.length - scan.origin.2, text.length - scan.text)

/-- A state comes before another one in the loop. -/
def Before (pattern text : List Char) (next scan : Scan) : Prop :=
  Prod.Lex (· < ·) (Prod.Lex (· < ·) (· < ·)) (next.size pattern text) (scan.size pattern text)

theorem isReached_start : IsReached pattern text start :=
  ⟨Nat.zero_le _, Nat.zero_le _, Nat.le_refl _, Nat.le_refl _, rfl⟩

/-!
### The result of a state

What the loop decides is given by the matching of lists, for each state by itself. A turn keeps this
result, so in the end it is the result of the state at the start.
-/

/-- The comparison of the rests differs where the loop finds it does. -/
theorem compareStretch_eq_differs (htext : scan.text < text.length)
    (hdiffers : ∀ hpattern : scan.pattern < pattern.length,
      pattern[scan.pattern] ≠ wildcard ∧ pattern[scan.pattern] ≠ text[scan.text]) :
    compareStretch (pattern.drop scan.pattern) (text.drop scan.text) = .differs := by
  rw [List.drop_eq_getElem_cons htext]
  by_cases hpattern : scan.pattern < pattern.length
  · obtain ⟨hc, hne⟩ := hdiffers hpattern
    rw [List.drop_eq_getElem_cons hpattern, compareStretch, if_neg hc, if_neg hne]
  · rw [List.drop_eq_nil_of_le (Nat.le_of_not_lt hpattern), compareStretch]

namespace IsReached

variable (h : IsReached pattern text scan)

include h

/-- The result is that of the comparison of the rests; where they differ, the stretch is tried at
the next place. -/
theorem result_eq : scan.result pattern text =
    match compareStretch (pattern.drop scan.pattern) (text.drop scan.text) with
    | .exhausted rest => rest.all (· = wildcard)
    | .reached pattern' text' => seek pattern' text'
    | .differs =>
      match scan.retry? with
      | some (star, tried) => seek (pattern.drop (star + 1)) (text.drop (tried + 1))
      | none => false := by
  rw [← h.stretch]
  obtain ⟨p, t, retry?⟩ := scan
  match retry? with
  | none => rfl
  | some (star, tried) =>
    simp only [result, origin]
    cases hcompare : compareStretch (pattern.drop (star + 1)) (text.drop tried) with
    | exhausted rest => exact seek_of_exhausted hcompare
    | reached pattern' text' => exact seek_of_reached hcompare
    | differs =>
      -- nothing differs from an empty text
      have htried : tried < text.length := by
        refine Nat.lt_of_not_le fun hle => ?_
        rw [List.drop_eq_nil_of_le hle, compareStretch] at hcompare
        cases hcompare
      rw [List.drop_eq_getElem_cons htried] at hcompare ⊢
      exact seek_of_differs hcompare

/-- A wildcard keeps the answer and makes the state less. -/
theorem next_wildcard (htext : scan.text < text.length)
    (hpattern : scan.pattern < pattern.length) (hc : pattern[scan.pattern] = wildcard) :
    let next : Scan := ⟨scan.pattern + 1, scan.text, some (scan.pattern, scan.text)⟩
    next.IsReached pattern text ∧ next.result pattern text = scan.result pattern text ∧
      next.Before pattern text scan := by
  refine ⟨⟨hpattern, h.text_le, Nat.le_refl _, Nat.le_refl _, rfl⟩, ?_, ?_⟩
  · rw [h.result_eq, List.drop_eq_getElem_cons hpattern, List.drop_eq_getElem_cons htext,
      compareStretch, if_pos hc, ← List.drop_eq_getElem_cons htext]
    rfl
  · have horigin := h.origin_le_pattern
    refine .left _ _ ?_
    change pattern.length - (scan.pattern + 1) < pattern.length - scan.origin.1
    omega

/-- Equal characters keep the answer and make the state less. -/
theorem next_keep (htext : scan.text < text.length) (hpattern : scan.pattern < pattern.length)
    (hc : pattern[scan.pattern] ≠ wildcard) (heq : pattern[scan.pattern] = text[scan.text]) :
    let next : Scan := ⟨scan.pattern + 1, scan.text + 1, scan.retry?⟩
    next.IsReached pattern text ∧ next.result pattern text = scan.result pattern text ∧
      next.Before pattern text scan := by
  have hstretch := h.stretch
  rw [List.drop_eq_getElem_cons hpattern, List.drop_eq_getElem_cons htext, compareStretch,
    if_neg hc, if_pos heq] at hstretch
  refine ⟨⟨hpattern, htext, Nat.le_succ_of_le h.origin_le_pattern,
    Nat.le_succ_of_le h.origin_le_text, hstretch⟩, rfl, ?_⟩
  refine .right _ (.right _ ?_)
  change text.length - (scan.text + 1) < text.length - scan.text
  omega

/-- Going back keeps the answer and makes the state less. -/
theorem next_retry {star tried : Nat} (htext : scan.text < text.length)
    (hdiffers : ∀ hpattern : scan.pattern < pattern.length,
      pattern[scan.pattern] ≠ wildcard ∧ pattern[scan.pattern] ≠ text[scan.text])
    (hretry : scan.retry? = some (star, tried)) :
    let next : Scan := ⟨star + 1, tried + 1, some (star, tried + 1)⟩
    next.IsReached pattern text ∧ next.result pattern text = scan.result pattern text ∧
      next.Before pattern text scan := by
  have horigin : scan.origin = (star + 1, tried) := by rw [origin, hretry]
  have hpattern : star + 1 ≤ scan.pattern := by simpa [horigin] using h.origin_le_pattern
  have htried : tried ≤ scan.text := by simpa [horigin] using h.origin_le_text
  refine ⟨⟨Nat.le_trans hpattern h.pattern_le, Nat.lt_of_le_of_lt htried htext, Nat.le_refl _,
    Nat.le_refl _, rfl⟩, ?_, ?_⟩
  · rw [h.result_eq, compareStretch_eq_differs htext hdiffers, hretry]
    rfl
  · rw [Before, size, size, horigin]
    refine .right _ (.left _ _ ?_)
    change text.length - (tried + 1) < text.length - tried
    omega

end IsReached

/-- **A turn.** From a state that is reached, no access is out of range, and a turn leads to a state
before it with the same result, or ends the loop with this result. -/
theorem IsReached.step_cases (h : IsReached pattern text scan) :
    (∃ next : Scan, scan.step pattern text = .ok (.next next) ∧ next.IsReached pattern text ∧
      next.result pattern text = scan.result pattern text ∧ next.Before pattern text scan) ∨
    scan.step pattern text = .ok (.done (scan.result pattern text)) := by
  by_cases htext : scan.text < text.length
  · by_cases hwildcard : ∃ hpattern : scan.pattern < pattern.length,
        pattern[scan.pattern] = wildcard
    · obtain ⟨hpattern, hc⟩ := hwildcard
      exact .inl ⟨_, step_wildcard htext hpattern hc, h.next_wildcard htext hpattern hc⟩
    by_cases hkeep : ∃ hpattern : scan.pattern < pattern.length,
        pattern[scan.pattern] = text[scan.text]
    · obtain ⟨hpattern, heq⟩ := hkeep
      have hc : pattern[scan.pattern] ≠ wildcard := fun hc => hwildcard ⟨hpattern, hc⟩
      exact .inl ⟨_, step_keep htext hpattern hc heq, h.next_keep htext hpattern hc heq⟩
    have hdiffers : ∀ hpattern : scan.pattern < pattern.length,
        pattern[scan.pattern] ≠ wildcard ∧ pattern[scan.pattern] ≠ text[scan.text] :=
      fun hpattern => ⟨fun hc => hwildcard ⟨hpattern, hc⟩, fun heq => hkeep ⟨hpattern, heq⟩⟩
    -- the characters differ, so the loop goes back to the last wildcard, if there was one
    have hstep := step_differs htext hdiffers
    cases hretry : scan.retry? with
    | some retry =>
      rw [hretry] at hstep
      exact .inl ⟨_, hstep, h.next_retry htext hdiffers hretry⟩
    | none =>
      refine .inr ?_
      rw [hstep, h.result_eq, compareStretch_eq_differs htext hdiffers, hretry]
  · -- at the end of the text the loop is over
    refine .inr ?_
    rw [step_end htext h.pattern_le, h.result_eq,
      List.drop_eq_nil_of_le (Nat.le_of_not_lt htext), compareStretch]

/-- **The loop.** From a state that is reached, the loop ends with the result of the state. -/
theorem IsReached.ends {scan : Scan} (h : IsReached pattern text scan) :
    Ends pattern text scan (.ok (scan.result pattern text)) := by
  rcases h.step_cases with ⟨next, hstep, hnext, hresult, hbefore⟩ | hstep
  · exact .next hstep (hresult ▸ hnext.ends)
  · exact .done hstep
  termination_by scan.size pattern text
  decreasing_by exact hbefore

end Scan

/-- **Matching by positions is exact.** On every pattern and text, the loop ends, and never with an
access out of range. It ends with the result of matching, which is that the text comes from the
pattern by putting a run of characters for each wildcard. -/
theorem ends_start_iff (pattern text : List Char) :
    (∀ outcome, Scan.Ends pattern text .start outcome ↔ outcome = .ok (isMatch pattern text)) ∧
    (isMatch pattern text = true ↔ Fills isWildcard pattern text) := by
  have hends : Scan.Ends pattern text .start (.ok (isMatch pattern text)) :=
    Scan.isReached_start.ends
  refine ⟨fun outcome => ⟨fun h => h.unique hends, ?_⟩, isMatch_iff⟩
  rintro rfl
  exact hends

end FilterQuery.Pattern
