import FilterQuery.Proofs.PredicateTree
import FilterQuery.Predicate.Printer
import Mathlib.Data.List.Basic

/-!
# String literals in the text of a predicate

A text is **read by the rule of SQL** from left to right: a single quote opens a literal, two quotes
inside a literal stand for one, and a single one closes it. What stands in the text of a predicate
is read back as it was put in: the literals are the strings of the predicate, and the characters
outside of them are those of the **erased** predicate, in which every string is empty
(`readLiterals_text`). The strings of a predicate therefore have no influence on its text outside of
literals.

* **Reading** has two states, outside and inside of a literal (`readFrom`). At the end of a literal
  the next character matters: a quote behind a quote does not close it.
* **Pieces.** `ReadsAs` says what a piece of text is read as whatever follows it, unless a quote
  does. So pieces are read one after the other (`ReadsAs.append`), with the proviso that what
  follows a literal does not start with a quote.
* **Plain text.** Signs, keywords, numbers and paths without quotes are read as they are. The digits
  of numbers are plain whatever the layout of a float.
* **Predicates.** By induction over the predicate its text is read as that of the erased predicate,
  with the strings of its parts in the order of the text.
-/

namespace FilterQuery

/-!
### Reading literals

The reader is outside of literals or in one. A quote in a literal ends it only if no second quote
follows; two quotes are one character of the literal.
-/

/-- What is read in a text: the characters outside of literals, and the contents of the literals. -/
structure Reading where
  outside : List Char
  literals : List String
  deriving DecidableEq, Repr

namespace Reading

/-- A character outside of literals in front. -/
def withChar (c : Char) (r : Reading) : Reading := ⟨c :: r.outside, r.literals⟩

/-- A literal in front. -/
def withLiteral (body : List Char) (r : Reading) : Reading :=
  ⟨r.outside, String.ofList body :: r.literals⟩

end Reading

/-- Reads a text by the rule of SQL. The reader is outside of literals, or behind the given
characters of one; the text must not end there. -/
def readFrom : Option (List Char) → List Char → Option Reading
  | none, [] => some ⟨[], []⟩
  | none, c :: rest =>
    if c = '\'' then readFrom (some []) rest else (readFrom none rest).map (Reading.withChar c)
  | some _, [] => none
  | some body, '\'' :: '\'' :: rest => readFrom (some (body ++ ['\''])) rest
  | some body, c :: rest =>
    if c = '\'' then (readFrom none rest).map (Reading.withLiteral body)
    else readFrom (some (body ++ [c])) rest

/-- What is read in a text by the rule of SQL, unless the text ends in a literal. -/
def readLiterals (text : String) : Option Reading := readFrom none text.toList

section Reader

variable {body : List Char} {rest : List Char} {c : Char}

theorem readFrom_quote : readFrom none ('\'' :: rest) = readFrom (some []) rest := rfl

theorem readFrom_char (h : c ≠ '\'') :
    readFrom none (c :: rest) = (readFrom none rest).map (Reading.withChar c) := by
  rw [readFrom, if_neg h]

theorem readFrom_some_quotes :
    readFrom (some body) ('\'' :: '\'' :: rest) = readFrom (some (body ++ ['\''])) rest := rfl

theorem readFrom_some_char (h : c ≠ '\'') :
    readFrom (some body) (c :: rest) = readFrom (some (body ++ [c])) rest := by
  rw [readFrom, if_neg h]
  exact fun _ hc _ => absurd hc h

/-- A quote closes a literal unless a second quote follows. -/
theorem readFrom_some_quote (h : rest.head? ≠ some '\'') :
    readFrom (some body) ('\'' :: rest) = (readFrom none rest).map (Reading.withLiteral body) := by
  rw [readFrom, if_pos rfl]
  rintro others - rfl
  exact h rfl

end Reader

/-!
### Texts that are read

Texts are read part by part, so what is said of a part is said in front of any rest. The rest must
not start with a quote, which would go on with a literal at the end of the part; texts without
quotes have no such condition.
-/

/-- The text is read as some literals, and as the other text outside of them when the empty literals
are taken out of it, wherever no quote follows. -/
def ReadsAs (text erased : List Char) (literals : List String) : Prop :=
  ∀ rest : List Char, rest.head? ≠ some '\'' →
    readFrom none (text ++ rest) = (readFrom none rest).map fun r =>
      ⟨erased.filter (· ≠ '\'') ++ r.outside, literals ++ r.literals⟩

namespace ReadsAs

variable {text other erased erased' : List Char} {literals literals' : List String}

/-- A text without quotes stands outside of literals, and what follows it is read as if it stood
alone. -/
theorem plain_append (h : '\'' ∉ text) (hother : ReadsAs other erased literals) :
    ReadsAs (text ++ other) (text ++ erased) literals := by
  intro rest hrest
  induction text with
  | nil => exact hother rest hrest
  | cons c cs ih =>
    have hc : c ≠ '\'' := (List.ne_of_not_mem_cons h).symm
    rw [List.cons_append, List.cons_append, readFrom_char hc, ih (List.not_mem_of_not_mem_cons h),
      Option.map_map]
    simp [Function.comp_def, Reading.withChar, hc]

theorem nil : ReadsAs [] [] [] := by
  intro rest _
  simp

theorem plain (h : '\'' ∉ text) : ReadsAs text text [] := by
  simpa using plain_append h nil

/-- Two texts are read one after the other if the second does not start with a quote, which would go
on with a literal at the end of the first. -/
theorem append (h : ReadsAs text erased literals) (hother : ReadsAs other erased' literals')
    (hhead : other.head? ≠ some '\'') :
    ReadsAs (text ++ other) (erased ++ erased') (literals ++ literals') := by
  intro rest hrest
  have hnext : (other ++ rest).head? ≠ some '\'' := by
    cases other with
    | nil => exact hrest
    | cons c cs => exact hhead
  rw [List.append_assoc, h _ hnext, hother _ hrest, Option.map_map]
  simp [Function.comp_def]

theorem append_plain (h : ReadsAs text erased literals) (hother : '\'' ∉ other) :
    ReadsAs (text ++ other) (erased ++ other) literals := by
  have hhead : other.head? ≠ some '\'' := fun hhead => hother (List.mem_of_mem_head? hhead)
  simpa using h.append (plain hother) hhead

/-- A string in quotes is read as a literal with its contents. -/
theorem writeLiteral (s : String) : ReadsAs (writeLiteral s) (writeLiteral "") [s] := by
  intro rest hrest
  -- behind some characters of the literal, the others are read up to the closing quote
  have hbody : ∀ cs body : List Char,
      readFrom (some body)
          (cs.flatMap (fun c => if c = '\'' then ['\'', '\''] else [c]) ++ '\'' :: rest) =
        (readFrom none rest).map (Reading.withLiteral (body ++ cs)) := by
    intro cs
    induction cs with
    | nil =>
      intro body
      rw [List.flatMap_nil, List.nil_append, readFrom_some_quote hrest, List.append_nil]
    | cons c cs ih =>
      intro body
      rw [List.flatMap_cons, List.append_assoc]
      by_cases hc : c = '\''
      · rw [if_pos hc, List.cons_append, List.cons_append, List.nil_append, readFrom_some_quotes,
          ih, List.append_assoc, hc, List.singleton_append]
      · rw [if_neg hc, List.singleton_append, readFrom_some_char hc, ih, List.append_assoc,
          List.singleton_append]
  rw [FilterQuery.writeLiteral, List.cons_append, List.append_assoc, List.singleton_append,
    readFrom_quote, hbody, List.nil_append]
  have hempty : (FilterQuery.writeLiteral "").filter (· ≠ '\'') = [] := by decide
  have hread : Reading.withLiteral s.toList = fun r => ⟨[] ++ r.outside, [s] ++ r.literals⟩ := by
    funext r
    rw [Reading.withLiteral, String.ofList_toList, List.nil_append, List.singleton_append]
  rw [hempty, hread]

end ReadsAs

/-! ### Texts without quotes -/

/-- Whether values other than strings may be written with the character. -/
def isPlain (c : Char) : Bool := c.isAlphanum || c = '-' || c = '.'

theorem isPlain_of_isDigit {c : Char} (h : c.isDigit = true) : isPlain c = true := by
  simp [isPlain, Char.isAlphanum, h]

theorem isPlain_of_mem_digitsOf {n : Nat} {c : Char} (h : c ∈ digitsOf n) : isPlain c = true :=
  isPlain_of_isDigit (isDigit_of_mem_digitsOf h)

/-- A whole number with its sign is made of such characters. -/
theorem isPlain_of_mem_writeInt {n : Int} {c : Char} (h : c ∈ writeInt n) : isPlain c = true := by
  unfold writeInt at h
  split at h
  · rcases List.mem_cons.mp h with rfl | h
    · decide
    · exact isPlain_of_mem_digitsOf h
  · exact isPlain_of_mem_digitsOf h

/-- Digits and a point are all that a number without an exponent is written with. -/
theorem Decimal.isDigit_or_eq_of_mem_positional {d : Decimal} {c : Char}
    (h : c ∈ d.positional []) : c.isDigit = true ∨ c = '.' := by
  have hdigits : c ∈ digitsOf d.digits → c.isDigit = true := isDigit_of_mem_digitsOf
  have hzeros : ∀ n, c ∈ List.replicate n '0' → c.isDigit = true := by
    intro n hc
    rw [List.eq_of_mem_replicate hc]
    decide
  simp only [positional] at h
  split at h
  · simp only [List.append_nil, List.mem_append] at h
    exact .inl (h.elim hdigits (hzeros _))
  · split at h <;> simp only [List.mem_append, List.mem_cons] at h
    · rcases h with h | h | h
      · exact .inl (hdigits (List.mem_of_mem_take h))
      · exact .inr h
      · exact .inl (hdigits (List.mem_of_mem_drop h))
    · rcases h with (rfl | h | h) | h
      · exact .inl (by decide)
      · exact .inr h
      · exact .inl (hzeros _ h)
      · exact .inl (hdigits h)

/-- A double is made of such characters, be it a word or a number. -/
theorem Double.isPlain_of_mem_text {x : Double} {c : Char} (h : c ∈ x.text.toList) :
    isPlain c = true := by
  unfold text at h
  split at h
  · exact List.all_eq_true.mp (by decide : "NaN".toList.all isPlain = true) c h
  · split at h
    · split at h
      · exact List.all_eq_true.mp (by decide : "-inf".toList.all isPlain = true) c h
      · exact List.all_eq_true.mp (by decide : "inf".toList.all isPlain = true) c h
    · rw [String.toList_ofList, renderFinite, List.mem_append] at h
      rcases h with h | h
      · split at h <;> simp at h
        rw [h]
        decide
      · rcases Decimal.isDigit_or_eq_of_mem_positional h with hdigit | rfl
        · exact isPlain_of_isDigit hdigit
        · decide

theorem quote_not_mem_writeInt (n : Int) : '\'' ∉ writeInt n :=
  fun h => absurd (isPlain_of_mem_writeInt h) (by decide)

theorem Double.quote_not_mem_text (x : Double) : '\'' ∉ x.text.toList :=
  fun h => absurd (isPlain_of_mem_text h) (by decide)

/-- What holds of the characters of the pieces and of the separator holds of their join. -/
theorem Text.forall_mem_join {P : Char → Prop} {separator : String} {pieces : List String}
    (hseparator : ∀ c ∈ separator.toList, P c) (h : ∀ piece ∈ pieces, ∀ c ∈ piece.toList, P c) :
    ∀ c ∈ (join separator pieces).toList, P c := by
  induction pieces with
  | nil => exact fun c hc => absurd hc List.not_mem_nil
  | cons piece pieces ih =>
    obtain ⟨hpiece, hrest⟩ := List.forall_mem_cons.mp h
    cases pieces with
    | nil => exact hpiece
    | cons next pieces =>
      rw [toList_join_cons _ _ (List.cons_ne_nil _ _)]
      intro c hc
      rcases List.mem_append.mp hc with hc | hc
      · exact (List.mem_append.mp hc).elim (hpiece c) (hseparator c)
      · exact ih hrest c hc

namespace Path

/-- No name of the path has a quote. -/
def HasNoQuote (path : Path) : Prop := ∀ segment ∈ path.segments, '\'' ∉ segment.toList

/-- The text of a path has no quotes if its segments have none. -/
theorem HasNoQuote.not_mem_text {path : Path} (h : path.HasNoQuote) :
    '\'' ∉ path.text.toList := by
  have hpoint : ∀ c ∈ ".".toList, c ≠ '\'' := List.forall_mem_singleton.mpr (by decide)
  have hnames : ∀ segment ∈ path.segments, ∀ c ∈ segment.toList, c ≠ '\'' :=
    fun segment hsegment c hc heq => h segment hsegment (heq ▸ hc)
  exact fun hmem => Text.forall_mem_join hpoint hnames _ hmem rfl

end Path

/-!
### Strings and what they do not touch

To erase a string is to put the empty one in its place. The erased predicate has the same paths, and
as many strings in the same places, but its text has no characters of any string.
-/

namespace Value

/-- The string that stands in quotes for the value, if one does. -/
def strings : Value → List String
  | string s => [s]
  | constant s => [s]
  | _ => []

/-- The value, with the empty string in place of a string. -/
def erase : Value → Value
  | string _ => string ""
  | constant _ => string ""
  | value => value

end Value

namespace Part

/-- The string that stands in quotes for the part, if one does. -/
def strings : Part → List String
  | path _ => []
  | value v => v.strings
  | pattern s => [s]

/-- The part, with the empty string in place of a string. -/
def erase : Part → Part
  | value v => value v.erase
  | pattern _ => pattern ""
  | part => part

end Part

namespace Predicate

/-- The strings of a predicate, from left to right: those among the values, and the patterns. -/
def strings (predicate : Predicate) : List String := predicate.parts.flatMap Part.strings

mutual

/-- The predicate with an empty string in place of every string. -/
def erase : Predicate → Predicate
  | always => always
  | equal path value => equal path value.erase
  | notEqual path value => notEqual path value.erase
  | like path _ => like path ""
  | greater path value => greater path value.erase
  | greaterOrEqual path value => greaterOrEqual path value.erase
  | less path value => less path value.erase
  | lessOrEqual path value => lessOrEqual path value.erase
  | isIn path values => isIn path (values.map Value.erase)
  | not predicate => not (erase predicate)
  | and members => and (eraseAll members)
  | or members => or (eraseAll members)
  | entry path predicate => entry path (erase predicate)

/-- The predicates, each with an empty string in place of every string. -/
def eraseAll : List Predicate → List Predicate
  | [] => []
  | member :: members => erase member :: eraseAll members

end

theorem eraseAll_eq_map (members : List Predicate) : eraseAll members = members.map erase := by
  induction members with
  | nil => rfl
  | cons member members ih => rw [eraseAll, ih, List.map_cons]

/-- Erasing keeps the paths and the number and the order of all parts. -/
theorem parts_erase (predicate : Predicate) :
    predicate.erase.parts = predicate.parts.map Part.erase := by
  induction predicate with
  | and members ih | or members ih =>
    rw [erase, parts, parts, partsOf_eq_flatMap, partsOf_eq_flatMap, eraseAll_eq_map,
      List.flatMap_map, List.map_flatMap]
    exact List.flatMap_congr ih
  | not predicate ih => rw [erase, parts, parts, ih]
  | entry path predicate ih =>
    rw [erase, parts, parts, ih]
    rfl
  | isIn path values =>
    rw [erase, parts, parts, List.map_cons, List.map_map, List.map_map]
    rfl
  | _ => rfl

/-- No name on a path of the predicate has a quote. -/
def HasNoQuote (predicate : Predicate) : Prop :=
  ∀ path, Part.path path ∈ predicate.parts → path.HasNoQuote

theorem HasNoQuote.of_mem {member : Predicate} {members : List Predicate}
    (h : ∀ path, Part.path path ∈ partsOf members → path.HasNoQuote) (hmember : member ∈ members) :
    member.HasNoQuote :=
  fun path hpath => h path (mem_partsOf hmember hpath)

/-- Erasing strings leaves the paths. -/
theorem hasNoQuote_erase_iff {predicate : Predicate} :
    predicate.erase.HasNoQuote ↔ predicate.HasNoQuote := by
  have hmem : ∀ path,
      Part.path path ∈ predicate.erase.parts ↔ Part.path path ∈ predicate.parts := by
    intro path
    rw [parts_erase, List.mem_map]
    constructor
    · rintro ⟨part, hpart, heq⟩
      cases part <;> cases heq
      exact hpart
    · intro hpart
      exact ⟨_, hpart, rfl⟩
  exact forall_congr' fun path => imp_congr_left (hmem path)

end Predicate

/-! ### The text of a predicate -/

/-- A value is read as a literal if it is a string, and as it is otherwise. -/
theorem Value.readsAs_write (value : Value) :
    ReadsAs value.write value.erase.write value.strings := by
  cases value with
  | string s => exact .writeLiteral s
  | constant s => exact .writeLiteral s
  | boolean b => exact .plain (by cases b <;> decide)
  | int32 n => exact .plain (by simpa [write, text] using quote_not_mem_writeInt n)
  | int64 n => exact .plain (by simpa [write, text] using quote_not_mem_writeInt n)
  | float64 x => exact .plain x.quote_not_mem_text

namespace Predicate

variable {path : Path}

theorem write_like (path : Path) (pattern : String) :
    (like path pattern).write =
      "UPPER(".toList ++ path.text.toList ++ ") LIKE ".toList ++ writeLiteral pattern := rfl

theorem write_isIn (path : Path) (values : List Value) :
    (isIn path values).write =
      path.text.toList ++ " IN (".toList ++ writeValues values ++ [')'] := rfl

theorem write_not (predicate : Predicate) :
    (not predicate).write = "NOT (".toList ++ predicate.write ++ [')'] := rfl

theorem write_entry (path : Path) (predicate : Predicate) :
    (entry path predicate).write =
      "ANY ".toList ++ path.text.toList ++ ' ' :: predicate.write := rfl

/-- A comparison is read with the literal of its value. -/
theorem readsAs_writeComparison (hpath : path.HasNoQuote) (symbol : String)
    (hsymbol : '\'' ∉ symbol.toList) (value : Value) :
    ReadsAs (writeComparison path symbol value) (writeComparison path symbol value.erase)
      ([Part.path path, .value value].flatMap Part.strings) := by
  have hfront : '\'' ∉ path.text.toList ++ ' ' :: symbol.toList ++ [' '] := by
    simp [hpath.not_mem_text, hsymbol]
  have hreads := ReadsAs.plain_append hfront value.readsAs_write
  simpa [writeComparison, Part.strings] using hreads

/-- The values of a membership are read one by one. -/
theorem readsAs_writeValues (values : List Value) :
    ReadsAs (writeValues values) (writeValues (values.map Value.erase))
      (values.flatMap Value.strings) := by
  induction values with
  | nil => exact .nil
  | cons value values ih =>
    cases values with
    | nil => simpa [writeValues] using value.readsAs_write
    | cons next values =>
      have hcomma : '\'' ∉ [',', ' '] := by decide
      have hreads := value.readsAs_write.append (.plain_append hcomma ih) (by simp)
      simpa [writeValues] using hreads

/-- What follows the first member of a group starts with the separator, not with a quote. -/
theorem head?_writeRest {separator : List Char} (hne : separator ≠ [])
    (hseparator : '\'' ∉ separator) (members : List Predicate) :
    (writeRest separator members).head? ≠ some '\'' := by
  cases members with
  | nil => exact nofun
  | cons member members =>
    rw [writeRest, List.append_assoc, List.head?_append_of_ne_nil _ hne]
    exact fun hhead => hseparator (List.mem_of_mem_head? hhead)

/-- The members of a group are read one by one, with the separator between them. -/
theorem readsAs_writeRest {separator : List Char} {members : List Predicate}
    (hne : separator ≠ []) (hseparator : '\'' ∉ separator)
    (h : ∀ member ∈ members, ReadsAs member.write member.erase.write member.strings) :
    ReadsAs (writeRest separator members) (writeRest separator (eraseAll members))
      (members.flatMap strings) := by
  induction members with
  | nil => exact .nil
  | cons member members ih =>
    obtain ⟨hmember, hrest⟩ := List.forall_mem_cons.mp h
    have hfirst := ReadsAs.plain_append hseparator hmember
    exact hfirst.append (ih hrest) (head?_writeRest hne hseparator _)

/-- The members of a group stand in parentheses, with a separator between them. -/
theorem readsAs_group {separator : List Char} {member : Predicate} {members : List Predicate}
    (hne : separator ≠ []) (hseparator : '\'' ∉ separator)
    (h : ∀ m ∈ member :: members, ReadsAs m.write m.erase.write m.strings) :
    ReadsAs ('(' :: (write member ++ writeRest separator members ++ [')']))
      ('(' :: (write member.erase ++ writeRest separator (eraseAll members) ++ [')']))
      ((partsOf (member :: members)).flatMap Part.strings) := by
  obtain ⟨hmember, hmembers⟩ := List.forall_mem_cons.mp h
  have hopen : '\'' ∉ ['('] := by decide
  have hclose : '\'' ∉ [')'] := by decide
  have hrest := readsAs_writeRest hne hseparator hmembers
  have hhead := head?_writeRest hne hseparator members
  have hreads := ReadsAs.plain_append hopen ((hmember.append hrest hhead).append_plain hclose)
  rwa [partsOf_eq_flatMap, List.flatMap_assoc]

/-- The text of a predicate is read as its strings, and outside of them as the text of the erased
predicate. -/
theorem readsAs_write {predicate : Predicate} (h : predicate.HasNoQuote) :
    ReadsAs predicate.write predicate.erase.write predicate.strings := by
  have hempty : '\'' ∉ ['(', ')'] := by decide
  induction predicate with
  | always =>
    have htrue : '\'' ∉ "TRUE".toList := by decide
    exact .plain htrue
  -- six comparisons, one lemma: they differ in the symbol alone
  | equal path value | notEqual path value | greater path value | greaterOrEqual path value
  | less path value | lessOrEqual path value =>
    exact readsAs_writeComparison (h path (by simp [parts])) _ (by decide) value
  | like path pattern =>
    have hpath : path.HasNoQuote := h path (by simp [parts])
    have hfront : '\'' ∉ "UPPER(".toList ++ path.text.toList ++ ") LIKE ".toList := by
      simp [hpath.not_mem_text]
    have hstrings : (like path pattern).strings = [pattern] := rfl
    rw [hstrings, erase, write_like, write_like]
    exact .plain_append hfront (.writeLiteral pattern)
  | isIn path values =>
    have hpath : path.HasNoQuote := h path (by simp [parts])
    have hfront : '\'' ∉ path.text.toList ++ " IN (".toList := by simp [hpath.not_mem_text]
    have hclose : '\'' ∉ [')'] := by decide
    have hstrings : (isIn path values).strings = values.flatMap Value.strings := by
      rw [strings, parts, List.flatMap_cons, List.flatMap_map]
      rfl
    rw [hstrings, erase, write_isIn, write_isIn]
    exact .append_plain (.plain_append hfront (readsAs_writeValues values)) hclose
  | not predicate ih =>
    have hfront : '\'' ∉ "NOT (".toList := by decide
    have hclose : '\'' ∉ [')'] := by decide
    have hstrings : (not predicate).strings = predicate.strings := rfl
    rw [hstrings, erase, write_not, write_not]
    exact .append_plain (.plain_append hfront (ih h)) hclose
  | entry path predicate ih =>
    have hpath : path.HasNoQuote := h path (by simp [parts])
    have hrest : predicate.HasNoQuote := fun other hother => h other (by simp [parts, hother])
    have hfront : '\'' ∉ "ANY ".toList ++ path.text.toList := by simp [hpath.not_mem_text]
    have hspace : '\'' ∉ [' '] := by decide
    have hstrings : (entry path predicate).strings = predicate.strings := rfl
    rw [hstrings, erase, write_entry, write_entry]
    exact .plain_append hfront (.plain_append hspace (ih hrest))
  | and members ih | or members ih =>
    have hmembers : ∀ member ∈ members, ReadsAs member.write member.erase.write member.strings :=
      fun member hmember => ih member hmember (.of_mem h hmember)
    cases members with
    -- the parentheses of an empty group hold nothing, and its strings are none
    | nil => exact .plain hempty
    | cons member members => exact readsAs_group (by decide) (by decide) hmembers

end Predicate

/-- **Strings stay in their literals.** The text of a predicate on whose paths no name has a quote
does not end in a literal. Its literals are the strings of the predicate, from left to right, and
outside of them is the text of the erased predicate without its empty literals, so predicates that
differ in nothing but strings have the same text there. -/
theorem Predicate.readLiterals_text (predicate : Predicate) (h : predicate.HasNoQuote) :
    readLiterals predicate.text =
        some ⟨predicate.erase.write.filter (· ≠ '\''), predicate.strings⟩ ∧
      ∀ other : Predicate, other.erase = predicate.erase →
        readLiterals other.text =
          some ⟨predicate.erase.write.filter (· ≠ '\''), other.strings⟩ := by
  have hread : ∀ p : Predicate, p.HasNoQuote →
      readLiterals p.text = some ⟨p.erase.write.filter (· ≠ '\''), p.strings⟩ := by
    intro p hp
    have hreads := readsAs_write hp [] nofun
    rw [List.append_nil] at hreads
    rw [readLiterals, text, String.toList_ofList, hreads]
    simp [readFrom]
  refine ⟨hread predicate h, fun other hother => ?_⟩
  have hquotes : other.HasNoQuote := by
    rw [← hasNoQuote_erase_iff, hother, hasNoQuote_erase_iff]
    exact h
  rw [← hother]
  exact hread other hquotes

/-- Quotes in the strings do not open literals of their own. -/
theorem Predicate.readLiterals_text_quotes :
    readLiterals (entry ⟨["labels"]⟩ (and [equal ⟨["labels", "key"]⟩ (.string "' OR 'a' = 'a"),
        not (isIn ⟨["labels", "value"]⟩ [.constant "''", .int32 3, .string "'"])])).text =
      some ⟨"ANY labels (labels.key =  AND NOT (labels.value IN (, 3, )))".toList,
        ["' OR 'a' = 'a", "''", "'"]⟩ ∧
    readLiterals (entry ⟨["labels"]⟩ (and [equal ⟨["labels", "key"]⟩ (.string "k"),
        not (isIn ⟨["labels", "value"]⟩ [.constant "", .int32 3, .string "v"])])).text =
      some ⟨"ANY labels (labels.key =  AND NOT (labels.value IN (, 3, )))".toList,
        ["k", "", "v"]⟩ := by
  have hquotes : (entry ⟨["labels"]⟩ (and [equal ⟨["labels", "key"]⟩ (.string "' OR 'a' = 'a"),
      not (isIn ⟨["labels", "value"]⟩ [.constant "''", .int32 3, .string "'"])])).HasNoQuote := by
    intro path hpath
    have hcases : path = ⟨["labels"]⟩ ∨ path = ⟨["labels", "key"]⟩ ∨
        path = ⟨["labels", "value"]⟩ := by
      simpa [parts, partsOf] using hpath
    rcases hcases with rfl | rfl | rfl <;> simp [Path.HasNoQuote]
  have houtside : (erase (entry ⟨["labels"]⟩ (and [equal ⟨["labels", "key"]⟩
      (.string "' OR 'a' = 'a"), not (isIn ⟨["labels", "value"]⟩
        [.constant "''", .int32 3, .string "'"])]))).write.filter (· ≠ '\'') =
      "ANY labels (labels.key =  AND NOT (labels.value IN (, 3, )))".toList := by
    decide
  obtain ⟨hread, hother⟩ := readLiterals_text _ hquotes
  rw [houtside] at hread hother
  exact ⟨hread, hother _ rfl⟩

end FilterQuery
