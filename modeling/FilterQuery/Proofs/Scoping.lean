import FilterQuery.Proofs.Backends
import FilterQuery.Proofs.Meaning
import FilterQuery.Proofs.PredicateTree

/-!
# The scope of a path

An entry binds an element of a collection, and the paths inside the entry that start with its path
lead on from that element. So with entries inside each other, a path leads on from the element of
the innermost entry whose path it starts with, and from the document if there is none. This is the
**rule of scoping**, and `Predicate.HoldsIn` is the meaning that it gives to predicates.

A scope keeps the element of the innermost entry alone. That is enough for a path which is
**settled**: if it starts with the path of any entry around it, then with that of the innermost
(`Path.IsSettled`).

* **The rule** is a relation between a path and what it finds under some bindings, with the
  innermost in front (`Finds`). It looks at one binding after the other and stops at the first that
  applies.
* **Settled paths.** Predicates with settled paths hold as the rule says (`selects_iff_holdsIn`), by
  induction over the predicate with the bindings that the entries around it have made.
* **Queries** compile to predicates with settled paths: at most one entry stands around a test, so
  it is the innermost.
* **Other paths.** For a path that is not settled the rule fails in some document. It is made for
  the path: what the entries bind holds no text, so by the rule the path finds none, but the
  document has a text at its end, where the scope looks for it.
-/

namespace FilterQuery

open Json

/-! ### The rule of scoping -/

/-- An element that an entry binds, with the path of the entry. -/
structure Binding where
  path : Path
  element : Json

/-- A value is found along some names inside some entries, of which the innermost comes first: it
is reached from the element of the first entry with whose path the names start, or else from the
document. -/
inductive Finds (document : Json) (names : List String) (found : Json) : List Binding → Prop where
  | document (h : ReachedAlong found names document) : Finds document names found []
  | inside {binding : Binding} {outer : List Binding} {rest : List String}
      (hnames : names = binding.path.segments ++ rest)
      (h : ReachedAlong found rest binding.element) : Finds document names found (binding :: outer)
  | outside {binding : Binding} {outer : List Binding}
      (hnames : ¬ binding.path.segments <+: names) (h : Finds document names found outer) :
      Finds document names found (binding :: outer)

section

variable {document found : Json} {names rest : List String} {binding : Binding}
  {bindings outer : List Binding}

/-- Without bindings a path is followed in the document. -/
theorem finds_nil_iff : Finds document names found [] ↔ ReachedAlong found names document := by
  constructor
  · rintro ⟨h⟩
    exact h
  · exact .document

/-- A path that starts with that of the innermost entry leads on from its element. -/
theorem finds_inside_iff (hnames : names = binding.path.segments ++ rest) :
    Finds document names found (binding :: outer) ↔ ReachedAlong found rest binding.element := by
  subst hnames
  constructor
  · intro h
    cases h with
    | inside hnames h => exact List.append_cancel_left hnames ▸ h
    | outside hnames => exact absurd (List.prefix_append _ _) hnames
  · exact .inside rfl

/-- Any other path is left to the entries around it. -/
theorem finds_outside_iff (hnames : ¬ binding.path.segments <+: names) :
    Finds document names found (binding :: outer) ↔ Finds document names found outer := by
  constructor
  · intro h
    cases h with
    | inside heq => exact absurd (heq ▸ List.prefix_append _ _) hnames
    | outside _ h => exact h
  · exact .outside hnames

/-- Names that start with the path of no entry lead from the document. -/
theorem finds_iff_outside
    (h : ∀ binding ∈ bindings, ¬ binding.path.segments <+: names) :
    Finds document names found bindings ↔ ReachedAlong found names document := by
  induction bindings with
  | nil => exact finds_nil_iff
  | cons binding outer ih =>
    obtain ⟨hbinding, houter⟩ := List.forall_mem_cons.mp h
    rw [finds_outside_iff hbinding, ih houter]

end

namespace Predicate

mutual

/-- A predicate holds in a document, inside some entries, by the rule of scoping. -/
def HoldsIn (document : Json) : Predicate → List Binding → Prop
  | always, _ => True
  | not predicate, bindings => ¬ HoldsIn document predicate bindings
  | and members, bindings => AllHoldIn document members bindings
  | or members, bindings => AnyHoldsIn document members bindings
  | entry path predicate, bindings => ∃ element,
      Finds document path.segments element bindings ∧
        HoldsIn document predicate (⟨path, element⟩ :: bindings)
  | asking, bindings => ∃ question json, asking.question? = some question ∧
      Finds document question.path.segments json bindings ∧ question.accepts json = true

/-- All of some predicates hold. -/
def AllHoldIn (document : Json) : List Predicate → List Binding → Prop
  | [], _ => True
  | member :: members, bindings =>
    HoldsIn document member bindings ∧ AllHoldIn document members bindings

/-- One of some predicates holds. -/
def AnyHoldsIn (document : Json) : List Predicate → List Binding → Prop
  | [], _ => False
  | member :: members, bindings =>
    HoldsIn document member bindings ∨ AnyHoldsIn document members bindings

end

section

variable {document : Json} {predicate : Predicate} {members : List Predicate}
  {bindings : List Binding}

/-- All members hold if each of them does. -/
theorem allHoldIn_iff : AllHoldIn document members bindings ↔
    ∀ member ∈ members, member.HoldsIn document bindings := by
  induction members with
  | nil => simp [AllHoldIn]
  | cons member members ih => rw [AllHoldIn, ih, List.forall_mem_cons]

/-- Some member holds if one of them does. -/
theorem anyHoldsIn_iff : AnyHoldsIn document members bindings ↔
    ∃ member ∈ members, member.HoldsIn document bindings := by
  induction members with
  | nil => simp [AnyHoldsIn]
  | cons member members ih => rw [AnyHoldsIn, ih, List.exists_mem_cons_iff]

theorem holdsIn_iff_of_question? {question : Question} (h : predicate.question? = some question) :
    predicate.HoldsIn document bindings ↔ ∃ json,
      Finds document question.path.segments json bindings ∧ question.accepts json = true := by
  cases predicate <;> cases h <;> simp [HoldsIn, question?]

end

end Predicate

/-! ### Settled paths -/

/-- A path that starts with the path of one of the entries around it, of which the innermost comes
first, starts with the path of the innermost. -/
def Path.IsSettled (entries : List Path) (path : Path) : Prop :=
  ∀ entry ∈ entries, entry.segments <+: path.segments →
    ∃ innermost ∈ entries.head?, innermost.segments <+: path.segments

/-- Each of some entries inside each other has a path that is settled in those around it. -/
def Path.AreSettled : List Path → Prop
  | [] => True
  | path :: outer => path.IsSettled outer ∧ AreSettled outer

/-- All paths of a predicate are settled, inside the given entries and its own. -/
inductive Predicate.IsSettled : List Path → Predicate → Prop where
  | always {entries : List Path} : IsSettled entries always
  | question {entries : List Path} {p : Predicate} {question : Question}
      (hquestion : p.question? = some question) (h : question.path.IsSettled entries) :
      IsSettled entries p
  | not {entries : List Path} {p : Predicate} (h : IsSettled entries p) : IsSettled entries (not p)
  | and {entries : List Path} {ps : List Predicate} (h : ∀ p ∈ ps, IsSettled entries p) :
      IsSettled entries (and ps)
  | or {entries : List Path} {ps : List Predicate} (h : ∀ p ∈ ps, IsSettled entries p) :
      IsSettled entries (or ps)
  | entry {entries : List Path} {path : Path} {p : Predicate} (hpath : path.IsSettled entries)
      (h : IsSettled (path :: entries) p) : IsSettled entries (entry path p)

/-- A path is settled in at most one entry. -/
theorem Path.isSettled_of_length_le_one {entries : List Path} (h : entries.length ≤ 1)
    (path : Path) : path.IsSettled entries := by
  intro entry hentry hprefix
  match entries with
  | [] => cases hentry
  | [only] =>
    obtain rfl := List.mem_singleton.mp hentry
    exact ⟨entry, rfl, hprefix⟩

/-!
### What a scope keeps

A scope keeps one binding, so of the entries around a predicate only the innermost counts. For
settled paths nothing is lost by that: a path that starts with the path of any entry starts with
that of the innermost.
-/

/-- The scope inside some entries: it keeps the innermost of them. -/
def Scope.innermost (document : Json) (bindings : List Binding) : Scope :=
  ⟨document, bindings.head?.map fun binding => (binding.path.segments, binding.element)⟩

section

variable {document found : Json} {path : Path} {bindings : List Binding}

theorem Scope.reach_outside {scope : Scope} {element : Json} {path inner : Path}
    (h : ¬ path.segments <+: inner.segments) :
    (scope.enter path element).reach inner = scope.document.reach inner.segments := by
  rw [reach, enter]
  exact if_neg (by simpa using h)

/-- A settled path reaches in the innermost scope what the rule of scoping says. -/
theorem Path.IsSettled.mem_reach_iff (h : path.IsSettled (bindings.map Binding.path)) :
    found ∈ (Scope.innermost document bindings).reach path ↔
      Finds document path.segments found bindings := by
  cases bindings with
  | nil => exact Json.mem_reach_iff.trans finds_nil_iff.symm
  | cons binding outer =>
    by_cases hprefix : binding.path.segments <+: path.segments
    · obtain ⟨rest, hrest⟩ := hprefix
      have hreach := Scope.reach_enter ⟨document, none⟩ binding.path binding.element rest
      rw [hrest] at hreach
      rw [finds_inside_iff hrest.symm, ← Json.mem_reach_iff]
      exact hreach ▸ Iff.rfl
    · -- then the path starts with the path of no entry at all
      have hnone : ∀ other ∈ binding :: outer, ¬ other.path.segments <+: path.segments := by
        intro other hother hstarts
        obtain ⟨innermost, hinnermost, hstarts⟩ := h _ (List.mem_map_of_mem hother) hstarts
        obtain rfl : binding.path = innermost := Option.some.inj hinnermost
        exact hprefix hstarts
      rw [finds_iff_outside hnone, ← Json.mem_reach_iff]
      have hreach := @Scope.reach_outside ⟨document, none⟩ binding.element _ _ hprefix
      exact hreach ▸ Iff.rfl

/-- A predicate with settled paths holds in the innermost scope as the rule of scoping says. -/
theorem Predicate.IsSettled.holds_iff {p : Predicate}
    (h : p.IsSettled (bindings.map Binding.path)) :
    p.holds (Scope.innermost document bindings) = true ↔ p.HoldsIn document bindings := by
  induction p using Predicate.question_induction generalizing bindings with
  | always => exact iff_of_true rfl trivial
  | question p question hquestion =>
    have hpath : question.path.IsSettled (bindings.map Binding.path) := by
      -- the cases of `IsSettled` that are about other predicates than `p` are refuted by its shape
      cases h with
      | question hquestion' hpath =>
        obtain rfl := Option.some.inj (hquestion.symm.trans hquestion')
        exact hpath
      | _ => cases hquestion
    rw [holds_of_question? hquestion, holdsIn_iff_of_question? hquestion, List.any_eq_true]
    exact exists_congr fun json => and_congr_left' hpath.mem_reach_iff
  | not p ih =>
    cases h with
    | question hquestion => cases hquestion
    | not h => rw [holds, HoldsIn, Bool.not_eq_true', ← Bool.not_eq_true, ih h]
  | and ps ih =>
    cases h with
    | question hquestion => cases hquestion
    | and h =>
      rw [holds, holdAll_eq_all, HoldsIn, allHoldIn_iff, List.all_eq_true]
      exact forall₂_congr fun p hp => ih p hp (h p hp)
  | or ps ih =>
    cases h with
    | question hquestion => cases hquestion
    | or h =>
      rw [holds, holdAny_eq_any, HoldsIn, anyHoldsIn_iff, List.any_eq_true]
      exact exists_congr fun p => and_congr_right fun hp => ih p hp (h p hp)
  | entry path p ih =>
    cases h with
    | question hquestion => cases hquestion
    | entry hpath h =>
      rw [holds, HoldsIn, List.any_eq_true]
      exact exists_congr fun element =>
        and_congr hpath.mem_reach_iff (@ih (⟨path, element⟩ :: bindings) h)

end

/-! ### Queries -/

namespace Predicate

/-- A test inside of one entry at most has a settled path. -/
theorem IsTest.isSettled {entries : List Path} {p : Predicate} (h : p.IsTest)
    (hentries : entries.length ≤ 1) : p.IsSettled entries := by
  have hsettled := Path.isSettled_of_length_le_one hentries
  cases h with
  | notIn => exact .not (.question rfl (hsettled _))
  | _ => exact .question rfl (hsettled _)

/-- What a query compiles to has no entry inside another one. -/
theorem IsBuilt.isSettled {p : Predicate} (h : p.IsBuilt) : p.IsSettled [] := by
  induction h with
  | always => exact .always
  | test h => exact h.isSettled (Nat.zero_le 1)
  | entry path keyMember key h =>
    refine .entry (Path.isSettled_of_length_le_one (by decide) path) (.and ?_)
    exact List.forall_mem_cons.mpr ⟨(IsTest.equal _ _).isSettled (Nat.le_refl 1),
      List.forall_mem_singleton.mpr (h.isSettled (Nat.le_refl 1))⟩
  | and _ ih => exact .and ih
  | or _ ih => exact .or ih

end Predicate

/-- The paths in the predicate of a query are settled. -/
theorem Query.isSettled_of_compile {schema : Schema} {query : Query} {p : Predicate}
    (h : query.compile .standard schema = .ok p) : p.IsSettled [] := by
  obtain ⟨conditions, hconditions, h⟩ := bind_eq_ok_iff.mp h
  have hbuilt := isBuilt_of_mem_conditions hconditions
  split at h
  · cases h
    exact (hbuilt _ List.mem_cons_self).isSettled
  · cases h
    exact (isBuilt_group (.and hbuilt)).isSettled

/-!
### Predicates inside entries

The list of entries has the innermost in front, like the bindings that a rule of scoping looks at,
so the predicate is put into the entries from the inside to the outside.
-/

/-- The predicate inside some entries, of which the innermost comes first. -/
def Predicate.within (p : Predicate) : List Path → Predicate
  | [] => p
  | path :: outer => (entry path p).within outer

/-- Each of some elements is found along the path of its entry, inside the entries further out. -/
def AreBound (document : Json) : List Binding → Prop
  | [] => True
  | binding :: outer =>
    Finds document binding.path.segments binding.element outer ∧ AreBound document outer

namespace Predicate

variable {document : Json} {entries : List Path}

theorem isSettled_within {p : Predicate} (hentries : Path.AreSettled entries)
    (h : p.IsSettled entries) : (p.within entries).IsSettled [] := by
  induction entries generalizing p with
  | nil => exact h
  | cons path outer ih => exact ih hentries.2 (.entry hentries.1 h)

/-- A predicate inside some entries holds if it holds for some elements that they bind. -/
theorem holdsIn_within_iff {p : Predicate} :
    (p.within entries).HoldsIn document [] ↔ ∃ bindings, AreBound document bindings ∧
      bindings.map Binding.path = entries ∧ p.HoldsIn document bindings := by
  induction entries generalizing p with
  | nil =>
    constructor
    · exact fun h => ⟨[], trivial, rfl, h⟩
    · rintro ⟨bindings, -, hnil, h⟩
      obtain rfl := List.map_eq_nil_iff.mp hnil
      exact h
  | cons path outer ih =>
    rw [within, ih]
    constructor
    · rintro ⟨bindings, hbound, hpaths, element, hfinds, h⟩
      exact ⟨⟨path, element⟩ :: bindings, ⟨hfinds, hbound⟩, congrArg (path :: ·) hpaths, h⟩
    · rintro ⟨bindings, hbound, hpaths, h⟩
      obtain ⟨binding, bindings, rfl, rfl, rfl⟩ := List.map_eq_cons_iff.mp hpaths
      exact ⟨bindings, hbound.2, rfl, binding.element, hbound.1, h⟩

/-- What holds in no scope of a document holds inside no entries. -/
theorem holds_within_eq_false {p : Predicate}
    (h : ∀ scope : Scope, scope.document = document → p.holds scope = false) {scope : Scope}
    (hscope : scope.document = document) : (p.within entries).holds scope = false := by
  induction entries generalizing p with
  | nil => exact h scope hscope
  | cons path outer ih =>
    refine ih fun inner hinner => ?_
    rw [holds, List.any_eq_false]
    exact fun element _ => Bool.not_eq_true _ ▸ h _ hinner

end Predicate

/-!
### Paths that are not settled

A path that is not settled starts with the path of some entry, but not with that of the innermost.
The document for it is a list with one item for each entry, in which this entry finds an element
without text, and one more item in which the path finds a text.
-/

section

variable {document found : Json} {names rest : List String} {bindings : List Binding}

/-- A document with a single value that is not text reaches no text. -/
theorem string?_of_reachedAlong_nest
    (h : ReachedAlong found names (nest rest (.boolean true))) : found.string? = none := by
  induction rest generalizing names with
  | nil =>
    cases h
    rfl
  | cons name rest ih =>
    cases h with
    | here => rfl
    | member hvalue h =>
      simp only [List.lookup_cons, List.lookup_nil] at hvalue
      split at hvalue
      · cases hvalue
        exact ih h
      · cases hvalue

/-- From elements that are such documents, no text is found. -/
theorem string?_of_finds
    (hblank : ∀ binding ∈ bindings, ∃ rest, binding.element = nest rest (.boolean true))
    (hstarts : ∃ binding ∈ bindings, binding.path.segments <+: names)
    (h : Finds document names found bindings) : found.string? = none := by
  induction h with
  | document => simp at hstarts
  | inside _ h =>
    obtain ⟨rest, hrest⟩ := hblank _ List.mem_cons_self
    exact string?_of_reachedAlong_nest (hrest ▸ h)
  | outside hnames _ ih =>
    obtain ⟨_, houter⟩ := List.forall_mem_cons.mp hblank
    refine ih houter ?_
    rw [List.exists_mem_cons_iff] at hstarts
    exact hstarts.resolve_left hnames

/-- Along its first names, such a document reaches what is left of it. -/
theorem reachedAlong_nest_append (names rest : List String) :
    ReachedAlong (nest rest (.boolean true)) names (nest (names ++ rest) (.boolean true)) := by
  induction names with
  | nil => cases rest <;> exact .here rfl rfl
  | cons name names ih => exact .member (by simp) ih

/-- Entries with settled paths bind elements without text in a list of documents that has one such
document for each entry. The innermost element can be cut from any document of the list. -/
theorem exists_areBound {entries : List Path} {items : List Json} (rest : List String)
    (hentries : Path.AreSettled entries)
    (hitems : ∀ entry ∈ entries, nest entry.segments (.boolean true) ∈ items)
    (hrest : ∀ innermost ∈ entries.head?,
      nest (innermost.segments ++ rest) (.boolean true) ∈ items) :
    ∃ bindings, AreBound (.array items) bindings ∧ bindings.map Binding.path = entries ∧
      (∀ binding ∈ bindings, ∃ left, binding.element = nest left (.boolean true)) ∧
      ∀ innermost ∈ bindings.head?, innermost.element = nest rest (.boolean true) := by
  induction entries generalizing rest with
  | nil => exact ⟨[], trivial, rfl, by simp, by simp⟩
  | cons path outer ih =>
    obtain ⟨hpath, houter⟩ := hentries
    have hinner : nest (path.segments ++ rest) (.boolean true) ∈ items := hrest path rfl
    have houterItems := (List.forall_mem_cons.mp hitems).2
    -- it is enough to find the element of the innermost entry inside the others
    suffices h : ∃ bindings, AreBound (.array items) bindings ∧
        bindings.map Binding.path = outer ∧
        (∀ binding ∈ bindings, ∃ left, binding.element = nest left (.boolean true)) ∧
        Finds (.array items) path.segments (nest rest (.boolean true)) bindings by
      obtain ⟨bindings, hbound, hpaths, hblank, hfinds⟩ := h
      refine ⟨⟨path, nest rest (.boolean true)⟩ :: bindings, ⟨hfinds, hbound⟩,
        congrArg (path :: ·) hpaths, List.forall_mem_cons.mpr ⟨⟨rest, rfl⟩, hblank⟩, ?_⟩
      rintro innermost hinnermost
      exact Option.some.inj hinnermost ▸ rfl
    by_cases hstarts : ∃ next ∈ outer.head?, next.segments <+: path.segments
    · -- the path leads on from the next element, which is cut from the same document
      obtain ⟨next, hnext, left, hleft⟩ := hstarts
      have hcut : ∀ innermost ∈ outer.head?,
          nest (innermost.segments ++ (left ++ rest)) (.boolean true) ∈ items := by
        intro innermost hinnermost
        obtain rfl := Option.some.inj (hnext.symm.trans hinnermost)
        rwa [← List.append_assoc, hleft]
      obtain ⟨bindings, hbound, hpaths, hblank, hhead⟩ := ih (left ++ rest) houter houterItems hcut
      obtain ⟨further, rfl⟩ := List.head?_eq_some_iff.mp hnext
      obtain ⟨binding, bindings, rfl, rfl, -⟩ := List.map_eq_cons_iff.mp hpaths
      refine ⟨_, hbound, hpaths, hblank, .inside hleft.symm ?_⟩
      rw [hhead binding rfl]
      exact reachedAlong_nest_append left rest
    · -- the path leads from the document
      have hcut : ∀ innermost ∈ outer.head?,
          nest (innermost.segments ++ []) (.boolean true) ∈ items := by
        intro innermost hinnermost
        rw [List.append_nil]
        exact houterItems innermost (List.mem_of_mem_head? hinnermost)
      obtain ⟨bindings, hbound, hpaths, hblank, -⟩ := ih [] houter houterItems hcut
      refine ⟨bindings, hbound, hpaths, hblank, ?_⟩
      have hnone : ∀ binding ∈ bindings, ¬ binding.path.segments <+: path.segments :=
        fun binding hbinding hprefix =>
          hstarts (hpath _ (hpaths ▸ List.mem_map_of_mem hbinding) hprefix)
      exact (finds_iff_outside hnone).mpr
        (.item hinner (reachedAlong_nest_append path.segments rest))

end

namespace Predicate

variable {entries : List Path} {path : Path}

/-- Where a path is not settled, some document holds the text in question, but not in the element
from which the path leads on. -/
theorem exists_selects_ne_holdsIn (hentries : Path.AreSettled entries)
    (hpath : ¬ path.IsSettled entries) (text : String) : ∃ document,
    ((not (equal path (.string text))).within entries).selects document = false ∧
      ((not (equal path (.string text))).within entries).HoldsIn document [] := by
  -- the document is a list: one item that holds the text, and one blank item for each entry
  have hnest : ∀ entry ∈ entries, nest entry.segments (.boolean true) ∈
      nest path.segments (.string text) ::
        entries.map fun entry => nest entry.segments (.boolean true) :=
    fun entry hentry => List.mem_cons_of_mem _ (List.mem_map_of_mem hentry)
  refine ⟨.array (nest path.segments (.string text) ::
    entries.map fun entry => nest entry.segments (.boolean true)), ?_, ?_⟩
  · -- the innermost entry does not count, so the text is found in the document
    cases entries with
    | nil => exact absurd (Path.isSettled_of_length_le_one (by decide) path) hpath
    | cons innermost outer =>
      have hprefix : ¬ innermost.segments <+: path.segments := fun h =>
        hpath fun _ _ _ => ⟨innermost, rfl, h⟩
      rw [selects, within]
      refine holds_within_eq_false (fun scope hscope => ?_) rfl
      rw [holds, List.any_eq_false]
      intro element _
      have hfound : Json.string text ∈ (scope.enter innermost element).reach path := by
        rw [Scope.reach_outside hprefix, hscope]
        refine mem_reach_iff.mpr (.item List.mem_cons_self ?_)
        exact (reachedAlong_nest_iff rfl rfl).mpr rfl
      have hequal : (equal path (.string text)).holds (scope.enter innermost element) = true :=
        List.any_eq_true.mpr ⟨_, hfound, Value.equalsJson_string_iff.mpr rfl⟩
      rw [holds, hequal]
      decide
  · -- the elements bound hold no text, and the path leads on from one of them
    have hrest : ∀ innermost ∈ entries.head?, nest (innermost.segments ++ []) (.boolean true) ∈
        nest path.segments (.string text) ::
          entries.map fun entry => nest entry.segments (.boolean true) := by
      intro innermost hinnermost
      rw [List.append_nil]
      exact hnest innermost (List.mem_of_mem_head? hinnermost)
    obtain ⟨bindings, hbound, hpaths, hblank, -⟩ := exists_areBound [] hentries hnest hrest
    have hstarts : ∃ binding ∈ bindings, binding.path.segments <+: path.segments := by
      by_contra hnone
      refine hpath fun entry hentry hprefix => ?_
      rw [← hpaths] at hentry
      obtain ⟨binding, hbinding, rfl⟩ := List.mem_map.mp hentry
      exact absurd ⟨binding, hbinding, hprefix⟩ hnone
    refine holdsIn_within_iff.mpr ⟨bindings, hbound, hpaths, ?_⟩
    rw [HoldsIn, holdsIn_iff_of_question? rfl]
    rintro ⟨json, hfinds, hequal⟩
    obtain rfl := Value.equalsJson_string_iff.mp hequal
    cases string?_of_finds hblank hstarts hfinds

/-- **Scoping.** A predicate with settled paths selects the documents in which it holds by the rule
of scoping, however its entries stand inside each other, and what a query compiles to is such a
predicate. A path that is not settled in the entries around it, while these are, is looked for in
the wrong place: put there, some predicate with this path misses a document. -/
theorem selects_iff_holdsIn (p : Predicate) :
    (p.IsSettled [] → ∀ document, p.selects document = true ↔ p.HoldsIn document []) ∧
    (∀ (schema : Schema) (query : Query), query.compile .standard schema = .ok p →
      p.IsSettled []) ∧
    ∀ (entries : List Path) (path : Path) (text : String), Path.AreSettled entries →
      ((∀ document, ((not (equal path (.string text))).within entries).selects document = true ↔
          ((not (equal path (.string text))).within entries).HoldsIn document []) ↔
        path.IsSettled entries) := by
  refine ⟨fun h document => @IsSettled.holds_iff document [] p h,
    fun _ _ => Query.isSettled_of_compile, fun entries path text hentries => ?_⟩
  constructor
  · intro hright
    by_contra hpath
    obtain ⟨document, hselects, hholds⟩ := exists_selects_ne_holdsIn hentries hpath text
    exact absurd ((hright document).mpr hholds) (by simp [hselects])
  · intro hpath document
    have hequal : (not (equal path (.string text))).IsSettled entries :=
      .not (.question rfl hpath)
    exact @IsSettled.holds_iff document [] _ (isSettled_within hentries hequal)

/-- Inside an entry of an entry both conditions are on one and the same element. -/
theorem selects_iff_holdsIn_nested :
    (entry ⟨["disks"]⟩ (entry ⟨["disks", "parts"]⟩ (and [
        equal ⟨["disks", "parts", "kind"]⟩ (.string "swap"),
        not (equal ⟨["disks", "parts", "state"]⟩ (.string "ok"))]))).HoldsIn
      (.object [("disks", .array [
        .object [("parts", .array [
          .object [("kind", .string "root"), ("state", .string "ok")],
          .object [("kind", .string "swap"), ("state", .string "full")]])]])]) [] := by
  refine ((selects_iff_holdsIn _).1 ?_ _).mp (by decide +kernel)
  have houter : Path.IsSettled [] ⟨["disks"]⟩ := Path.isSettled_of_length_le_one (by decide) _
  have hinner : Path.IsSettled [⟨["disks"]⟩] ⟨["disks", "parts"]⟩ :=
    Path.isSettled_of_length_le_one (by decide) _
  have hmember : ∀ name, Path.IsSettled [⟨["disks", "parts"]⟩, ⟨["disks"]⟩]
      ⟨["disks", "parts", name]⟩ :=
    fun name _ _ _ => ⟨_, rfl, [name], rfl⟩
  refine .entry houter (.entry hinner (.and ?_))
  simp only [List.forall_mem_cons, List.not_mem_nil, IsEmpty.forall_iff, implies_true, and_true]
  exact ⟨.question rfl (hmember "kind"), .not (.question rfl (hmember "state"))⟩

/-- Inside an entry of another collection, two conditions on one disk are met by two disks. -/
theorem selects_unsettled : ∃ (p : Predicate) (document : Json),
    p = entry ⟨["disks"]⟩ (entry ⟨["tags"]⟩ (and [
      equal ⟨["disks", "kind"]⟩ (.string "swap"), equal ⟨["disks", "state"]⟩ (.string "full")])) ∧
    document = .object [
      ("disks", .array [.object [("kind", .string "swap"), ("state", .string "ok")],
        .object [("kind", .string "root"), ("state", .string "full")]]),
      ("tags", .array [.string "a"])] ∧
    p.selects document = true ∧ ¬ p.HoldsIn document [] := by
  refine ⟨_, _, rfl, rfl, by decide +kernel, ?_⟩
  rintro ⟨disk, hdisk, tag, -, hkind, hstate, -⟩
  rw [finds_nil_iff, ← mem_reach_iff] at hdisk
  have hfound : ∀ document name text, HoldsIn document (equal ⟨["disks", name]⟩ (.string text))
      [⟨⟨["tags"]⟩, tag⟩, ⟨⟨["disks"]⟩, disk⟩] → .string text ∈ reach [name] disk := by
    intro document name text h
    obtain ⟨json, hfinds, hequal⟩ := (holdsIn_iff_of_question? rfl).mp h
    obtain rfl := Value.equalsJson_string_iff.mp hequal
    have hnames : ["disks", name] = (Binding.mk ⟨["disks"]⟩ disk).path.segments ++ [name] := rfl
    rw [finds_outside_iff (by simp), finds_inside_iff hnames] at hfinds
    exact mem_reach_iff.mpr hfinds
  have hswap := hfound _ "kind" "swap" hkind
  have hfull := hfound _ "state" "full" hstate
  have hdisks : disk = .object [("kind", .string "swap"), ("state", .string "ok")] ∨
      disk = .object [("kind", .string "root"), ("state", .string "full")] := by
    change disk ∈ [_, _] at hdisk
    rwa [List.mem_pair] at hdisk
  -- neither disk has both
  rcases hdisks with rfl | rfl
  · change Json.string "full" ∈ [.string "ok"] at hfull
    simp at hfull
  · change Json.string "swap" ∈ [.string "root"] at hswap
    simp at hswap

end Predicate

end FilterQuery
