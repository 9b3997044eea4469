import FilterQuery.Proofs.Words

/-!
# The text of a predicate is read in one way

Two predicates are **alike** if they differ in the kinds of their values only, where those have the
same text: a constant may stand for a string, and one number for another that is written the same.
Predicates with plain paths whose groups have two members at least are alike as soon as they have
the same text (`Predicate.text_eq_iff_alike`).

* **Fronts.** The first word of a text and what comes behind it tell which kind of predicate it is
  (`Front`): a comparison starts with its path, a negation with `NOT`, an entry with `ANY`, a match
  with `UPPER`. Keywords may be names of paths, so the first word alone does not do.
* **The one clash.** A membership at a path `ANY` starts like an entry over a path `IN`, but a list
  of values does not go on like a group with more than one member. This is where the proviso on
  groups is needed.
* **Groups** are in parentheses and have a separator between their members (`Groups`). Their members
  are cut off one by one, and the separator behind the first member tells the connective.
* **Induction** is over both predicates at once, with whatever stands behind them in the two texts,
  provided that it ends a predicate (`Closes`). So the statement that is proved by induction is that
  equal texts are cut at the same place.

Conversely, alike predicates have the same text, by induction over one of them.
-/

namespace FilterQuery

namespace Predicate

/-! ### Alike predicates -/

/-- The predicates differ at most by values in the same places that are alike. -/
inductive Alike : Predicate → Predicate → Prop where
  | always : Alike always always
  | equal {path : Path} {v w : Value} (h : v.Alike w) : Alike (equal path v) (equal path w)
  | notEqual {path : Path} {v w : Value} (h : v.Alike w) : Alike (notEqual path v) (notEqual path w)
  | like {path : Path} {pattern : String} : Alike (like path pattern) (like path pattern)
  | greater {path : Path} {v w : Value} (h : v.Alike w) : Alike (greater path v) (greater path w)
  | greaterOrEqual {path : Path} {v w : Value} (h : v.Alike w) :
      Alike (greaterOrEqual path v) (greaterOrEqual path w)
  | less {path : Path} {v w : Value} (h : v.Alike w) : Alike (less path v) (less path w)
  | lessOrEqual {path : Path} {v w : Value} (h : v.Alike w) :
      Alike (lessOrEqual path v) (lessOrEqual path w)
  | isIn {path : Path} {values values' : List Value} (h : List.Forall₂ Value.Alike values values') :
      Alike (isIn path values) (isIn path values')
  | not {p q : Predicate} (h : Alike p q) : Alike (not p) (not q)
  | and {members members' : List Predicate} (h : List.Forall₂ Alike members members') :
      Alike (and members) (and members')
  | or {members members' : List Predicate} (h : List.Forall₂ Alike members members') :
      Alike (or members) (or members')
  | entry {path : Path} {p q : Predicate} (h : Alike p q) : Alike (entry path p) (entry path q)

/-! ### Readable predicates -/

mutual

/-- Every group in the predicate has at least two members. -/
def Branches : Predicate → Prop
  | and members => 2 ≤ members.length ∧ BranchesAll members
  | or members => 2 ≤ members.length ∧ BranchesAll members
  | not predicate => Branches predicate
  | entry _ predicate => Branches predicate
  | _ => True

/-- Every group in the predicates has at least two members. -/
def BranchesAll : List Predicate → Prop
  | [] => True
  | member :: members => Branches member ∧ BranchesAll members

end

/-- The groups of all members branch. -/
theorem branchesAll_iff {members : List Predicate} :
    BranchesAll members ↔ ∀ member ∈ members, member.Branches := by
  induction members with
  | nil => simp [BranchesAll]
  | cons member members ih => rw [BranchesAll, ih, List.forall_mem_cons]

/-- The paths of the predicate are plain and its groups have at least two members. -/
structure IsReadable (predicate : Predicate) : Prop where
  isPlain : ∀ path, Part.path path ∈ predicate.parts → path.IsPlain
  branches : predicate.Branches

namespace IsReadable

variable {path : Path} {member : Predicate} {members : List Predicate}

theorem of_not (h : (not member).IsReadable) : member.IsReadable := ⟨h.isPlain, h.branches⟩

theorem of_entry (h : (entry path member).IsReadable) : path.IsPlain ∧ member.IsReadable :=
  ⟨h.isPlain path List.mem_cons_self,
    fun other hother => h.isPlain other (List.mem_cons_of_mem _ hother), h.branches⟩

end IsReadable

/-!
### The front of a predicate

The first word alone does not show the kind of a predicate: a path stands in front of comparisons
and memberships, and it may be spelled `TRUE`, `NOT` or `ANY`. Together with what stands behind it
the word does show the kind, since an operator starts like nothing else that may stand there.
-/

/-- What may stand behind a predicate in the text of another one, or nothing. -/
def Closes (cs : List Char) : Prop :=
  cs = [] ∨ ∃ rest, cs = ')' :: rest ∨ cs = " AND ".toList ++ rest ∨ cs = " OR ".toList ++ rest

/-- The predicate compares what a path leads to with a value, and is written with the symbol. -/
inductive Compares (path : Path) (value : Value) : String → Predicate → Prop where
  | equal : Compares path value "=" (equal path value)
  | notEqual : Compares path value "<>" (notEqual path value)
  | greater : Compares path value ">" (greater path value)
  | greaterOrEqual : Compares path value ">=" (greaterOrEqual path value)
  | less : Compares path value "<" (less path value)
  | lessOrEqual : Compares path value "<=" (lessOrEqual path value)

/-- The predicate is a group with the members, which are written with the separator. -/
inductive Groups (members : List Predicate) : String → Predicate → Prop where
  | and : Groups members " AND " (and members)
  | or : Groups members " OR " (or members)

/-- The first word of the text of a predicate and the rest, with what stands behind the predicate.
Groups start with a parenthesis and have no first word. -/
inductive Front (behind word rest : List Char) : Predicate → Prop where
  | always (hword : word = "TRUE".toList) (hrest : rest = behind) : Front behind word rest always
  | comparison {path : Path} {value : Value} {symbol : String} {p : Predicate}
      (h : Compares path value symbol p) (hword : word = path.text.toList)
      (hrest : rest = ' ' :: (symbol.toList ++ ' ' :: (value.write ++ behind))) :
      Front behind word rest p
  | like {path : Path} {pattern : String} (hword : word = "UPPER".toList)
      (hrest : rest =
        '(' :: (path.text.toList ++ ')' :: (" LIKE ".toList ++ (writeLiteral pattern ++ behind)))) :
      Front behind word rest (like path pattern)
  | isIn {path : Path} {values : List Value} (hword : word = path.text.toList)
      (hrest : rest =
        ' ' :: 'I' :: 'N' :: ' ' :: '(' :: (writeValues values ++ ')' :: behind)) :
      Front behind word rest (isIn path values)
  | not {p : Predicate} (hword : word = "NOT".toList)
      (hrest : rest = ' ' :: '(' :: (p.write ++ ')' :: behind)) : Front behind word rest (not p)
  | entry {path : Path} {p : Predicate} (hword : word = "ANY".toList)
      (hrest : rest = ' ' :: (path.text.toList ++ ' ' :: (p.write ++ behind))) :
      Front behind word rest (entry path p)

variable {p q : Predicate} {path : Path} {value : Value} {symbol : String}
  {behind behind' word : List Char}

/-- A predicate starts with a word or with the parenthesis of a group. -/
theorem exists_front_or_groups (p : Predicate) (behind : List Char) :
    (∃ word rest, Front behind word rest p) ∨ ∃ members separator, Groups members separator p := by
  cases p with
  | always => exact .inl ⟨_, _, .always rfl rfl⟩
  | equal => exact .inl ⟨_, _, .comparison .equal rfl rfl⟩
  | notEqual => exact .inl ⟨_, _, .comparison .notEqual rfl rfl⟩
  | like => exact .inl ⟨_, _, .like rfl rfl⟩
  | greater => exact .inl ⟨_, _, .comparison .greater rfl rfl⟩
  | greaterOrEqual => exact .inl ⟨_, _, .comparison .greaterOrEqual rfl rfl⟩
  | less => exact .inl ⟨_, _, .comparison .less rfl rfl⟩
  | lessOrEqual => exact .inl ⟨_, _, .comparison .lessOrEqual rfl rfl⟩
  | isIn => exact .inl ⟨_, _, .isIn rfl rfl⟩
  | not => exact .inl ⟨_, _, .not rfl rfl⟩
  | and => exact .inr ⟨_, _, .and⟩
  | or => exact .inr ⟨_, _, .or⟩
  | entry => exact .inl ⟨_, _, .entry rfl rfl⟩

namespace Closes

theorem endsValue (h : Closes rest) : EndsValue rest := by
  rcases h with rfl | ⟨cs, rfl | rfl | rfl⟩
  · exact ⟨nofun, nofun⟩
  all_goals exact endsValue_cons rfl (by decide)

/-- A space is the start of a separator. -/
theorem exists_of_space (h : Closes (' ' :: rest)) : ∃ cs, rest = 'A' :: cs ∨ rest = 'O' :: cs := by
  rcases h with h | ⟨cs, h | h | h⟩
  · cases h
  · exact absurd (List.cons.inj h).1 (by decide)
  · exact ⟨_, .inl (List.cons.inj h).2⟩
  · exact ⟨_, .inr (List.cons.inj h).2⟩

/-- What ends a predicate is no opening parenthesis. -/
theorem ne_leftParen (h : Closes rest) : rest ≠ '(' :: rest' := by
  rintro rfl
  rcases h with h | ⟨cs, h | h | h⟩
  · cases h
  all_goals exact absurd (List.cons.inj h).1 (by decide)

end Closes

namespace Compares

variable (h : Compares path value symbol p)

include h

theorem write_eq : p.write = writeComparison path symbol value := by
  cases h <;> rfl

theorem isUnbroken_symbol : IsUnbroken symbol.toList := by
  cases h <;> exact isUnbroken_of_all (by decide) (by decide)

/-- A symbol starts with no character of a name and with no parenthesis. -/
theorem symbol_append_ne {c : Char} (hc : isNameChar c = true ∨ c = '(') :
    symbol.toList ++ rest ≠ c :: rest' := by
  have hmark : '=' ≠ c ∧ '<' ≠ c ∧ '>' ≠ c := by
    rcases hc with hc | rfl
    · refine ⟨?_, ?_, ?_⟩ <;> rintro rfl <;> exact absurd hc (by decide)
    · decide
  intro heq
  cases h <;> simp [hmark] at heq

end Compares

namespace Front

theorem write_append (h : Front behind word rest p) : p.write ++ behind = word ++ rest := by
  cases h with
  | always hword hrest =>
    rw [hword, hrest]
    rfl
  | comparison h hword hrest => simp [h.write_eq, writeComparison, hword, hrest]
  | like hword hrest => simp [write_like, hword, hrest]
  | isIn hword hrest => simp [write_isIn, hword, hrest]
  | not hword hrest => simp [write_not, hword, hrest]
  | entry hword hrest => simp [write_entry, hword, hrest]

/-- The first word of a readable predicate is a word indeed, without a break in it. -/
theorem isUnbroken (h : Front behind word rest p) (hp : p.IsReadable) : IsUnbroken word := by
  cases h with
  | always hword _ | like hword _ | not hword _ | entry hword _ =>
    rw [hword]
    exact isUnbroken_of_all (by decide) (by decide)
  | comparison h hword _ =>
    rw [hword]
    refine (hp.isPlain _ ?_).isUnbroken_text
    cases h <;> simp [parts]
  | isIn hword _ =>
    rw [hword]
    exact (hp.isPlain _ (by simp [parts])).isUnbroken_text

/-- Behind the first word stands what ends it. -/
theorem endsWord (h : Front behind word rest p) (hbehind : Closes behind) : EndsWord rest := by
  cases h with
  | always _ hrest => exact hrest ▸ hbehind.endsValue.endsWord
  | comparison _ _ hrest | like _ hrest | isIn _ hrest | not _ hrest | entry _ hrest =>
    rw [hrest]
    exact endsWord_cons rfl

/-- Behind the first word of a predicate that a separator follows is a space or a parenthesis. -/
theorem exists_rest_eq_cons (h : Front (' ' :: behind) word rest p) :
    ∃ c cs, rest = c :: cs ∧ (c = ' ' ∨ c = '(') := by
  cases h with
  | like _ hrest => exact ⟨_, _, hrest, .inr rfl⟩
  | always _ hrest | comparison _ _ hrest | isIn _ hrest | not _ hrest | entry _ hrest =>
    exact ⟨_, _, hrest, .inl rfl⟩

end Front

namespace Groups

variable {members : List Predicate} {separator : String}

theorem write_nil (h : Groups [] separator p) : p.write = ['(', ')'] := by
  cases h <;> rfl

theorem write_eq {member : Predicate} (h : Groups (member :: members) separator p) :
    p.write = '(' :: (member.write ++ writeRest separator.toList members ++ [')']) := by
  cases h <;> rfl

theorem two_le_length (h : Groups members separator p) (hp : p.IsReadable) :
    2 ≤ members.length := by
  cases h <;> exact hp.branches.1

/-- The members of a readable group are readable. -/
theorem isReadable_of_mem (h : Groups members separator p) (hp : p.IsReadable) :
    ∀ member ∈ members, member.IsReadable := by
  intro member hmember
  have hparts : ∀ path, Part.path path ∈ member.parts → Part.path path ∈ p.parts := by
    intro path hpath
    cases h <;> exact mem_partsOf hmember hpath
  refine ⟨fun path hpath => hp.isPlain path (hparts path hpath), ?_⟩
  cases h <;> exact branchesAll_iff.mp hp.branches.2 member hmember

end Groups

/-- The text of a group starts with a parenthesis, and a member with a separator behind it. -/
theorem Groups.exists_write_eq {members : List Predicate} {separator : String}
    (h : Groups members separator p) (hp : p.IsReadable) :
    ∃ first second others, members = first :: second :: others ∧ ∀ rest,
      p.write ++ rest = '(' :: (first.write ++
        (separator.toList ++ (second.write ++
          (writeRest separator.toList others ++ ')' :: rest)))) := by
  match members, h.two_le_length hp with
  | first :: second :: others, _ =>
    refine ⟨first, second, others, rfl, fun rest => ?_⟩
    rw [h.write_eq, writeRest]
    simp

/-- The text of a predicate starts with a word or with an opening parenthesis. -/
theorem write_append_ne_cons {c : Char} (hp : p.IsReadable) (hbreak : isBreak c = true)
    (hc : c ≠ '(') : p.write ++ rest ≠ c :: rest' := by
  rcases exists_front_or_groups p rest with ⟨word, others, hfront⟩ | ⟨members, separator, hgroups⟩
  · rw [hfront.write_append]
    exact (hfront.isUnbroken hp).append_ne_cons hbreak
  · obtain ⟨_, _, _, -, hwrite⟩ := hgroups.exists_write_eq hp
    rw [hwrite]
    exact fun h => hc (List.cons.inj h).1.symm

/-- A list of values in parentheses is no group: behind the first word of the first member of a
group comes a space or a parenthesis, and behind a value comes neither. -/
theorem writeValues_ne_write {values : List Value} (hp : p.IsReadable) :
    '(' :: (writeValues values ++ ')' :: rest) ≠ p.write ++ rest' := by
  intro h
  rcases exists_front_or_groups p rest' with ⟨word, others, hfront⟩ | ⟨members, separator, hgroups⟩
  · rw [hfront.write_append] at h
    exact (hfront.isUnbroken hp).append_ne_cons rfl h.symm
  -- a group: after its parenthesis stands its first member, and after this member a space
  obtain ⟨first, second, others, rfl, hwrite⟩ := hgroups.exists_write_eq hp
  have hfirst : first.IsReadable := hgroups.isReadable_of_mem hp first List.mem_cons_self
  rw [hwrite] at h
  have hmember := (List.cons.inj h).2
  obtain ⟨behind, hbehind⟩ : ∃ behind, separator.toList ++ (second.write ++
      (writeRest separator.toList others ++ ')' :: rest')) = ' ' :: behind := by
    cases hgroups <;> exact ⟨_, rfl⟩
  rw [hbehind] at hmember
  -- the list starts with its first value, which is a word or a quoted text
  cases values with
  | nil => exact write_append_ne_cons hfirst rfl (by decide) hmember.symm
  | cons value values =>
    rw [writeValues_cons, List.append_assoc] at hmember
    cases hquoted : value.isQuoted
    · have hword := (Value.write_of_not_isQuoted hquoted).2
      rcases exists_front_or_groups first (' ' :: behind) with
        ⟨word, others, hfront⟩ | ⟨members, separator, hgroups⟩
      · obtain ⟨c, cs, hothers, hc⟩ := hfront.exists_rest_eq_cons
        obtain ⟨d, ds, hvalues, hd⟩ := exists_writeRestValues_eq_cons values rest
        rw [hfront.write_append, hothers, hvalues] at hmember
        have hcomma : EndsWord (d :: ds) := endsWord_cons (by rcases hd with rfl | rfl <;> rfl)
        have hspace : EndsWord (c :: cs) := endsWord_cons (by rcases hc with rfl | rfl <;> rfl)
        obtain ⟨-, hrests⟩ := hword.append_inj (hfront.isUnbroken hfirst) hcomma hspace hmember
        obtain ⟨rfl, -⟩ := List.cons.inj hrests
        rcases hc with rfl | rfl <;> rcases hd with hd | hd <;> exact absurd hd (by decide)
      · obtain ⟨_, _, _, -, hwrite⟩ := hgroups.exists_write_eq hfirst
        rw [hwrite] at hmember
        exact hword.append_ne_cons rfl hmember
    · rw [Value.write_of_isQuoted hquoted] at hmember
      exact write_append_ne_cons hfirst rfl (by decide) hmember.symm

/-- Behind the word `ANY`, a membership at this path goes on in another way than an entry over any
path, even over `IN`. -/
theorem isIn_rest_ne_entry_rest {values : List Value} (hp : (entry path p).IsReadable) :
    ' ' :: 'I' :: 'N' :: ' ' :: '(' :: (writeValues values ++ ')' :: rest) ≠
      ' ' :: (path.text.toList ++ ' ' :: (p.write ++ rest')) := by
  obtain ⟨hpath, hmember⟩ := hp.of_entry
  intro h
  have hword : IsUnbroken ['I', 'N'] := isUnbroken_of_all (by decide) (by decide)
  have hname : ['I', 'N'] ++ ' ' :: '(' :: (writeValues values ++ ')' :: rest) =
      path.text.toList ++ ' ' :: (p.write ++ rest') := (List.cons.inj h).2
  obtain ⟨-, hrests⟩ :=
    hword.append_inj hpath.isUnbroken_text (endsWord_cons rfl) (endsWord_cons rfl) hname
  exact writeValues_ne_write hmember (List.cons.inj hrests).2

/-!
### What goes on behind a word

Each kind goes on behind its first word as no other kind does, and an entry does at least behind its
own word. A symbol starts with no character of a name, so it is not taken for the name in an entry,
but a name may be spelled like the sign of a membership.
-/

namespace Front

/-- No other predicate starts with the word `TRUE` and goes on like the end of a predicate. -/
theorem eq_always (h : Front behind word rest p) (hword : word = "TRUE".toList)
    (hrest : Closes rest) : p = Predicate.always := by
  cases h with
  | always => rfl
  | comparison hc _ hrest' =>
    obtain ⟨cs, heq | heq⟩ := (hrest' ▸ hrest).exists_of_space
    · exact absurd heq (hc.symbol_append_ne (.inl rfl))
    · exact absurd heq (hc.symbol_append_ne (.inl rfl))
  | like _ hrest' => exact absurd hrest' hrest.ne_leftParen
  | isIn _ hrest' | not _ hrest' =>
    obtain ⟨cs, heq | heq⟩ := (hrest' ▸ hrest).exists_of_space <;>
      exact absurd (List.cons.inj heq).1 (by decide)
  | entry hword' _ => exact absurd (hword.symm.trans hword') (by decide)

/-- Only a comparison goes on with a symbol. -/
theorem exists_comparison (h : Front behind word (' ' :: (symbol.toList ++ rest)) p)
    (hc : Compares path value symbol q) (hp : p.IsReadable) (hbehind : Closes behind) :
    ∃ path' value' symbol', Compares path' value' symbol' p ∧ word = path'.text.toList ∧
      symbol.toList ++ rest = symbol'.toList ++ ' ' :: (value'.write ++ behind) := by
  cases h with
  | always _ hrest =>
    obtain ⟨cs, heq | heq⟩ := (hrest ▸ hbehind).exists_of_space
    · exact absurd heq (hc.symbol_append_ne (.inl rfl))
    · exact absurd heq (hc.symbol_append_ne (.inl rfl))
  | comparison hc' hword hrest => exact ⟨_, _, _, hc', hword, (List.cons.inj hrest).2⟩
  | like _ hrest => exact absurd (List.cons.inj hrest).1 (by decide)
  | isIn _ hrest => exact absurd (List.cons.inj hrest).2 (hc.symbol_append_ne (.inl rfl))
  | not _ hrest => exact absurd (List.cons.inj hrest).2 (hc.symbol_append_ne (.inr rfl))
  | entry _ hrest =>
    obtain ⟨c, cs, htext, hname⟩ := hp.of_entry.1.exists_text_eq_cons
    rw [htext] at hrest
    exact absurd (List.cons.inj hrest).2 (hc.symbol_append_ne (.inl hname))

/-- Only a pattern match goes on with a parenthesis. -/
theorem exists_like (h : Front behind word ('(' :: rest) p) (hbehind : Closes behind) :
    ∃ path pattern, p = Predicate.like path pattern ∧
      rest = path.text.toList ++ ')' :: (" LIKE ".toList ++ (writeLiteral pattern ++ behind)) := by
  cases h with
  | always _ hrest => exact absurd hrest.symm hbehind.ne_leftParen
  | like _ hrest => exact ⟨_, _, rfl, (List.cons.inj hrest).2⟩
  | comparison _ _ hrest | isIn _ hrest | not _ hrest | entry _ hrest =>
    exact absurd (List.cons.inj hrest).1 (by decide)

/-- Only a membership goes on with its sign and a list of values. -/
theorem exists_isIn {values : List Value}
    (h : Front behind word
      (' ' :: 'I' :: 'N' :: ' ' :: '(' :: (writeValues values ++ ')' :: rest)) p)
    (hp : p.IsReadable) (hbehind : Closes behind) :
    ∃ path values', p = Predicate.isIn path values' ∧ word = path.text.toList ∧
      writeValues values ++ ')' :: rest = writeValues values' ++ ')' :: behind := by
  cases h with
  | always _ hrest =>
    obtain ⟨cs, heq | heq⟩ := (hrest ▸ hbehind).exists_of_space <;>
      exact absurd (List.cons.inj heq).1 (by decide)
  | comparison hc _ hrest =>
    exact absurd (List.cons.inj hrest).2.symm (hc.symbol_append_ne (.inl rfl))
  | isIn hword hrest => exact ⟨_, _, rfl, hword, by simpa using hrest⟩
  | like _ hrest | not _ hrest => exact absurd hrest (by simp)
  | entry _ hrest => exact absurd hrest (isIn_rest_ne_entry_rest hp)

/-- Only a negation goes on with a space and a parenthesis. -/
theorem exists_not (h : Front behind word (' ' :: '(' :: rest) p) (hp : p.IsReadable)
    (hbehind : Closes behind) : ∃ q, p = Predicate.not q ∧ rest = q.write ++ ')' :: behind := by
  cases h with
  | always _ hrest =>
    obtain ⟨cs, heq | heq⟩ := (hrest ▸ hbehind).exists_of_space <;>
      exact absurd (List.cons.inj heq).1 (by decide)
  | comparison hc _ hrest =>
    exact absurd (List.cons.inj hrest).2.symm (hc.symbol_append_ne (.inr rfl))
  | not _ hrest => exact ⟨_, rfl, by simpa using hrest⟩
  | like _ hrest | isIn _ hrest => exact absurd hrest (by simp)
  | entry _ hrest =>
    exact absurd (List.cons.inj hrest).2.symm (hp.of_entry.1.isUnbroken_text.append_ne_cons rfl)

/-- Only an entry goes on with a name behind the word `ANY`. -/
theorem exists_entry
    (h : Front behind word (' ' :: (path.text.toList ++ ' ' :: (q.write ++ rest))) p)
    (hword : word = "ANY".toList) (hq : (Predicate.entry path q).IsReadable) :
    ∃ path' q', p = Predicate.entry path' q' ∧
      path.text.toList ++ ' ' :: (q.write ++ rest) =
        path'.text.toList ++ ' ' :: (q'.write ++ behind) := by
  cases h with
  | comparison hc _ hrest =>
    obtain ⟨c, cs, htext, hname⟩ := hq.of_entry.1.exists_text_eq_cons
    rw [htext] at hrest
    exact absurd (List.cons.inj hrest).2.symm (hc.symbol_append_ne (.inl hname))
  | isIn _ hrest => exact absurd hrest.symm (isIn_rest_ne_entry_rest hq)
  | always hword' _ | like hword' _ | not hword' _ =>
    exact absurd (hword.symm.trans hword') (by decide)
  | entry _ hrest => exact ⟨_, _, rfl, (List.cons.inj hrest).2⟩

end Front

/-!
### Predicates with the same text

Two predicates are read at once, each with other text behind it, so it is claimed as well that these
rests are the same. In this form the claim for the members of a group is used one after the other.
-/

/-- The predicates are of one kind, and what comes behind the part that shows this is the same. -/
inductive Matches (behind behind' : List Char) : Predicate → Predicate → Prop where
  | always (h : behind = behind') : Matches behind behind' always always
  | comparison {path : Path} {value value' : Value} {symbol : String} {p q : Predicate}
      (hp : Compares path value symbol p) (hq : Compares path value' symbol q)
      (h : value.write ++ behind = value'.write ++ behind') : Matches behind behind' p q
  | like {path : Path} {pattern pattern' : String}
      (h : writeLiteral pattern ++ behind = writeLiteral pattern' ++ behind') :
      Matches behind behind' (like path pattern) (like path pattern')
  | isIn {path : Path} {values values' : List Value}
      (h : writeValues values ++ ')' :: behind = writeValues values' ++ ')' :: behind') :
      Matches behind behind' (isIn path values) (isIn path values')
  | not {p q : Predicate} (h : p.write ++ ')' :: behind = q.write ++ ')' :: behind') :
      Matches behind behind' (not p) (not q)
  | entry {path : Path} {p q : Predicate} (h : p.write ++ behind = q.write ++ behind') :
      Matches behind behind' (entry path p) (entry path q)

theorem Compares.isPlain (h : Compares path value symbol p) (hp : p.IsReadable) :
    path.IsPlain := by
  refine hp.isPlain path ?_
  cases h <;> simp [parts]

/-- The first word and what comes behind it show the kind of a predicate. -/
theorem Front.matches (hp : p.IsReadable) (hq : q.IsReadable) (hbehind : Closes behind)
    (hbehind' : Closes behind') (h : Front behind word rest p) (h' : Front behind' word rest q) :
    Matches behind behind' p q := by
  cases h with
  -- a path may be spelled `TRUE` as well, but an operator stands behind it and not an end
  | always hword hrest =>
    obtain rfl := h'.eq_always hword (hrest ▸ hbehind)
    cases h' with
    | always _ hrest' => exact .always (hrest.symm.trans hrest')
    | comparison h => cases h
  | @comparison path _ symbol _ hc hword hrest =>
    obtain ⟨path', _, symbol', hc', hword', heq⟩ := (hrest ▸ h').exists_comparison hc hq hbehind'
    obtain rfl := (hc.isPlain hp).eq_of_text_eq (hc'.isPlain hq) (hword.symm.trans hword')
    obtain ⟨hsymbol, hvalues⟩ := hc.isUnbroken_symbol.append_inj hc'.isUnbroken_symbol
      (endsWord_cons rfl) (endsWord_cons rfl) heq
    obtain rfl := String.toList_injective hsymbol
    exact .comparison hc hc' (List.cons.inj hvalues).2
  | @like path _ _ hrest =>
    obtain ⟨path', _, rfl, heq⟩ := (hrest ▸ h').exists_like hbehind'
    have hpath : path.IsPlain := hp.isPlain path (by simp [parts])
    obtain ⟨rfl, hpatterns⟩ :=
      hpath.eq_of_text_append_eq (hq.isPlain path' (by simp [parts])) rfl heq
    exact .like (List.append_cancel_left hpatterns)
  | @isIn path _ hword hrest =>
    obtain ⟨path', _, rfl, hword', heq⟩ := (hrest ▸ h').exists_isIn hq hbehind'
    have hpath : path.IsPlain := hp.isPlain path (by simp [parts])
    obtain rfl :=
      hpath.eq_of_text_eq (hq.isPlain path' (by simp [parts])) (hword.symm.trans hword')
    exact .isIn heq
  | not _ hrest =>
    obtain ⟨_, rfl, heq⟩ := (hrest ▸ h').exists_not hq hbehind'
    exact .not heq
  | @entry path _ hword hrest =>
    obtain ⟨path', _, rfl, heq⟩ := (hrest ▸ h').exists_entry hword hp
    obtain ⟨rfl, hmembers⟩ := hp.of_entry.1.eq_of_text_append_eq hq.of_entry.1 rfl heq
    exact .entry hmembers

/-- Of predicates with the same text, both are groups, or both are of one other kind. -/
theorem matches_or_groups (hp : p.IsReadable) (hq : q.IsReadable) (hbehind : Closes behind)
    (hbehind' : Closes behind') (h : p.write ++ behind = q.write ++ behind') :
    Matches behind behind' p q ∨ ∃ members separator members' separator',
      Groups members separator p ∧ Groups members' separator' q := by
  rcases exists_front_or_groups p behind, exists_front_or_groups q behind' with
    ⟨⟨word, rest, hfront⟩ | ⟨members, separator, hgroups⟩,
      ⟨word', rest', hfront'⟩ | ⟨members', separator', hgroups'⟩⟩
  · rw [hfront.write_append, hfront'.write_append] at h
    obtain ⟨rfl, rfl⟩ := (hfront.isUnbroken hp).append_inj (hfront'.isUnbroken hq)
      (hfront.endsWord hbehind) (hfront'.endsWord hbehind') h
    exact .inl (hfront.matches hp hq hbehind hbehind' hfront')
  · obtain ⟨_, _, _, -, hwrite⟩ := hgroups'.exists_write_eq hq
    rw [hfront.write_append, hwrite] at h
    exact absurd h ((hfront.isUnbroken hp).append_ne_cons rfl)
  · obtain ⟨_, _, _, -, hwrite⟩ := hgroups.exists_write_eq hp
    rw [hfront'.write_append, hwrite] at h
    exact absurd h.symm ((hfront'.isUnbroken hq).append_ne_cons rfl)
  · exact .inr ⟨_, _, _, _, hgroups, hgroups'⟩

/-- Comparisons by the same sign are alike if their values are. -/
theorem Compares.alike {value' : Value} (h : Compares path value symbol p)
    (h' : Compares path value' symbol q) (hvalue : value.Alike value') : p.Alike q := by
  generalize hsymbol : symbol = symbol' at h'
  -- the six symbols are different
  cases h <;> cases h' <;> simp at hsymbol
  · exact .equal hvalue
  · exact .notEqual hvalue
  · exact .greater hvalue
  · exact .greaterOrEqual hvalue
  · exact .less hvalue
  · exact .lessOrEqual hvalue

namespace Groups

variable {members members' : List Predicate} {separator separator' : String}

/-- Groups by the same separator are alike if their members are. -/
theorem alike (h : Groups members separator p) (h' : Groups members' separator q)
    (hmembers : List.Forall₂ Alike members members') : p.Alike q := by
  generalize hseparator : separator = separator' at h'
  cases h <;> cases h' <;> simp at hseparator
  · exact .and hmembers
  · exact .or hmembers

theorem sizeOf_lt (h : Groups members separator p) {member : Predicate}
    (hmember : member ∈ members) : sizeOf member < sizeOf p := by
  have hlt := List.sizeOf_lt_of_mem hmember
  cases h <;> simp <;> omega

/-- The separator of a group is determined by the text behind the first member. -/
theorem separator_eq (h : Groups members separator p) (h' : Groups members' separator' q)
    (heq : separator.toList ++ rest = separator'.toList ++ rest') : separator = separator' := by
  cases h <;> cases h' <;> simp at heq ⊢

/-- Behind a member of a group come the other members or the end of the group. -/
theorem closes_writeRest (h : Groups members separator p) (others : List Predicate)
    (rest : List Char) : Closes (writeRest separator.toList others ++ ')' :: rest) := by
  cases others with
  | nil => exact .inr ⟨rest, .inl rfl⟩
  | cons member others =>
    rw [writeRest, List.append_assoc, List.append_assoc]
    cases h with
    | and => exact .inr ⟨_, .inr (.inl rfl)⟩
    | or => exact .inr ⟨_, .inr (.inr rfl)⟩

/-- The members behind the first are read one after the other if each of them is read. -/
theorem alike_of_writeRest_append {others others' : List Predicate}
    (h : Groups members separator p)
    (hothers : ∀ member ∈ others, ∀ {q rest rest'}, q.IsReadable → Closes rest → Closes rest' →
      member.write ++ rest = q.write ++ rest' → member.Alike q ∧ rest = rest')
    (hothers' : ∀ member ∈ others', member.IsReadable)
    (heq : writeRest separator.toList others ++ ')' :: behind =
      writeRest separator.toList others' ++ ')' :: behind') :
    List.Forall₂ Alike others others' ∧ behind = behind' := by
  have hspace : ∀ {rest rest'}, separator.toList ++ rest ≠ ')' :: rest' := by
    intro rest rest' heq
    cases h <;> exact absurd (List.cons.inj heq).1 (by decide)
  induction others generalizing others' with
  | nil =>
    cases others' with
    | nil => exact ⟨.nil, (List.cons.inj heq).2⟩
    | cons member' others' =>
      rw [writeRest, writeRest, List.append_assoc, List.append_assoc] at heq
      exact absurd heq.symm hspace
  | cons member others ih =>
    obtain ⟨hmember, hrest⟩ := List.forall_mem_cons.mp hothers
    cases others' with
    | nil =>
      rw [writeRest, writeRest, List.append_assoc, List.append_assoc] at heq
      exact absurd heq hspace
    | cons member' others' =>
      obtain ⟨hmember', hrest'⟩ := List.forall_mem_cons.mp hothers'
      simp only [writeRest, List.append_assoc, List.append_cancel_left_eq] at heq
      obtain ⟨halike, hrests⟩ :=
        hmember hmember' (h.closes_writeRest _ _) (h.closes_writeRest _ _) heq
      obtain ⟨hall, hbehind⟩ := ih hrest hrest' hrests
      exact ⟨.cons halike hall, hbehind⟩

/-- Groups with the same text have one separator and members that are alike. -/
theorem alike_of_write_append (hp : p.IsReadable) (hq : q.IsReadable)
    (h : Groups members separator p) (h' : Groups members' separator' q)
    (hmembers : ∀ member ∈ members, ∀ {q rest rest'}, q.IsReadable → Closes rest → Closes rest' →
      member.write ++ rest = q.write ++ rest' → member.Alike q ∧ rest = rest')
    (heq : p.write ++ behind = q.write ++ behind') : p.Alike q ∧ behind = behind' := by
  obtain ⟨first, second, others, rfl, hwrite⟩ := h.exists_write_eq hp
  obtain ⟨first', second', others', rfl, hwrite'⟩ := h'.exists_write_eq hq
  have hreadable := h'.isReadable_of_mem hq
  obtain ⟨hfirst, hrest⟩ := List.forall_mem_cons.mp hmembers
  obtain ⟨hfirst', hrest'⟩ := List.forall_mem_cons.mp hreadable
  have hrests : ∀ (separator : String) (second : Predicate) (others : List Predicate) (rest),
      separator.toList ++ (second.write ++ (writeRest separator.toList others ++ ')' :: rest)) =
        writeRest separator.toList (second :: others) ++ ')' :: rest := by
    -- the separator before the second member is the one that `writeRest` puts before every member
    intro separator second others rest
    simp [writeRest]
  rw [hwrite, hwrite', hrests, hrests] at heq
  obtain ⟨halike, hothers⟩ := hfirst hfirst' (h.closes_writeRest _ _) (h'.closes_writeRest _ _)
    (List.cons.inj heq).2
  obtain rfl : separator = separator' := by
    rw [← hrests, ← hrests] at hothers
    exact h.separator_eq h' hothers
  obtain ⟨hall, hbehind⟩ := h.alike_of_writeRest_append hrest hrest' hothers
  exact ⟨h.alike h' (.cons halike hall), hbehind⟩

end Groups

/-- **Reading a predicate.** A text starts with one predicate at most, up to the kinds of values,
and it is determined where this ends. -/
theorem alike_of_write_append {p q : Predicate} {behind behind' : List Char} (hp : p.IsReadable)
    (hq : q.IsReadable) (hbehind : Closes behind) (hbehind' : Closes behind')
    (h : p.write ++ behind = q.write ++ behind') : p.Alike q ∧ behind = behind' := by
  -- the induction is on the size, since a group may start with a member of any kind
  rcases matches_or_groups hp hq hbehind hbehind' h with hmatches | ⟨_, _, _, _, hgroups, hgroups'⟩
  · cases hmatches with
    | always heq => exact ⟨.always, heq⟩
    | comparison hcompares hcompares' heq =>
      obtain ⟨hvalue, hrest⟩ :=
        Value.alike_of_write_append hbehind.endsValue hbehind'.endsValue heq
      exact ⟨hcompares.alike hcompares' hvalue, hrest⟩
    | like heq =>
      obtain ⟨rfl, hrest⟩ :=
        writeLiteral_append_inj hbehind.endsValue.head_ne hbehind'.endsValue.head_ne heq
      exact ⟨.like, hrest⟩
    | isIn heq =>
      obtain ⟨hvalues, hrest⟩ := alike_of_writeValues_append heq
      exact ⟨.isIn hvalues, hrest⟩
    | not heq =>
      obtain ⟨halike, hrest⟩ := alike_of_write_append hp.of_not hq.of_not
        (.inr ⟨_, .inl rfl⟩) (.inr ⟨_, .inl rfl⟩) heq
      exact ⟨.not halike, (List.cons.inj hrest).2⟩
    | entry heq =>
      obtain ⟨halike, hrest⟩ :=
        alike_of_write_append hp.of_entry.2 hq.of_entry.2 hbehind hbehind' heq
      exact ⟨.entry halike, hrest⟩
  · refine hgroups.alike_of_write_append hp hq hgroups' ?_ h
    intro member hmember q rest rest' hq' hrest hrest' heq
    have hlt := hgroups.sizeOf_lt hmember
    exact alike_of_write_append (hgroups.isReadable_of_mem hp member hmember) hq' hrest hrest' heq
  termination_by sizeOf p

/-! ### Alike predicates have the same text -/

/-- Groups with one separator have the same text if their members have. -/
theorem Groups.write_eq_of_forall₂ {members members' : List Predicate} {separator : String}
    {p q : Predicate} (h : Groups members separator p) (h' : Groups members' separator q)
    (hmembers : List.Forall₂ (fun m m' => m.write = m'.write) members members') :
    p.write = q.write := by
  have hrest : ∀ {others others'}, List.Forall₂ (fun m m' => m.write = m'.write) others others' →
      writeRest separator.toList others = writeRest separator.toList others' := by
    intro others others' hothers
    induction hothers with
    | nil => rfl
    | cons hmember _ ih => rw [writeRest, writeRest, hmember, ih]
  cases hmembers with
  | nil => rw [h.write_nil, h'.write_nil]
  | cons hmember hothers => rw [h.write_eq, h'.write_eq, hmember, hrest hothers]

/-- Members that are alike one by one have the same texts. -/
theorem forall₂_write_eq {members members' : List Predicate}
    (h : List.Forall₂ Alike members members')
    (hwrite : ∀ member ∈ members, ∀ {q : Predicate}, member.Alike q → member.write = q.write) :
    List.Forall₂ (fun m m' => m.write = m'.write) members members' := by
  induction h with
  | nil => exact .nil
  | cons hmember _ ih =>
    obtain ⟨hfirst, hothers⟩ := List.forall_mem_cons.mp hwrite
    exact .cons (hfirst hmember) (ih hothers)

theorem Compares.write_eq_of_alike {p q : Predicate} {path : Path} {symbol : String}
    {value value' : Value} (h : Compares path value symbol p) (h' : Compares path value' symbol q)
    (hvalue : value.Alike value') : p.write = q.write := by
  rw [h.write_eq, h'.write_eq, writeComparison, writeComparison, Value.write_eq_of_alike hvalue]

/-- Predicates that are alike have the same text. -/
theorem Alike.write_eq {p q : Predicate} (h : p.Alike q) : p.write = q.write := by
  induction p generalizing q with
  | always | like =>
    cases h
    rfl
  | equal =>
    cases h with
    | equal hvalue => exact Compares.equal.write_eq_of_alike .equal hvalue
  | notEqual =>
    cases h with
    | notEqual hvalue => exact Compares.notEqual.write_eq_of_alike .notEqual hvalue
  | greater =>
    cases h with
    | greater hvalue => exact Compares.greater.write_eq_of_alike .greater hvalue
  | greaterOrEqual =>
    cases h with
    | greaterOrEqual hvalue =>
      exact Compares.greaterOrEqual.write_eq_of_alike .greaterOrEqual hvalue
  | less =>
    cases h with
    | less hvalue => exact Compares.less.write_eq_of_alike .less hvalue
  | lessOrEqual =>
    cases h with
    | lessOrEqual hvalue => exact Compares.lessOrEqual.write_eq_of_alike .lessOrEqual hvalue
  | isIn =>
    cases h with
    | isIn hvalues => rw [write_isIn, write_isIn, writeValues_eq_of_alike hvalues]
  | not p ih =>
    cases h with
    | not h => rw [write_not, write_not, ih h]
  | and members ih =>
    cases h with
    | and hmembers => exact Groups.and.write_eq_of_forall₂ .and (forall₂_write_eq hmembers ih)
  | or members ih =>
    cases h with
    | or hmembers => exact Groups.or.write_eq_of_forall₂ .or (forall₂_write_eq hmembers ih)
  | entry path p ih =>
    cases h with
    | entry h => rw [write_entry, write_entry, ih h]

end Predicate

/-- **The text of a predicate is read in one way.** Predicates with plain paths, whose groups all
have at least two members, have the same text just if they are alike. -/
theorem Predicate.text_eq_iff_alike {p q : Predicate} (hp : p.IsReadable) (hq : q.IsReadable) :
    p.text = q.text ↔ p.Alike q := by
  constructor
  · intro h
    have hwrite : p.write ++ [] = q.write ++ [] := by
      rw [List.append_nil, List.append_nil]
      exact String.ofList_injective h
    exact (alike_of_write_append hp hq (.inl rfl) (.inl rfl) hwrite).1
  · intro h
    rw [text, text, h.write_eq]

/-- Names that are spelt like keywords, and a string with an operator in it, are read back. -/
theorem Predicate.text_eq_iff_alike_keywords :
    (entry ⟨["ANY"]⟩ (or [isIn ⟨["IN"]⟩ [.string "a' OR 'b", .int32 7],
        not (equal ⟨["NOT", "x"]⟩ (.constant "k"))])).IsReadable ∧
    (entry ⟨["ANY"]⟩ (or [isIn ⟨["IN"]⟩ [.constant "a' OR 'b", .int64 7],
        not (equal ⟨["NOT", "x"]⟩ (.string "k"))])).IsReadable ∧
    (entry ⟨["ANY"]⟩ (or [isIn ⟨["IN"]⟩ [.string "a' OR 'b", .int32 7],
        not (equal ⟨["NOT", "x"]⟩ (.constant "k"))])).text =
      "ANY ANY (IN IN ('a'' OR ''b', 7) OR NOT (NOT.x = 'k'))" ∧
    (entry ⟨["ANY"]⟩ (or [isIn ⟨["IN"]⟩ [.string "a' OR 'b", .int32 7],
        not (equal ⟨["NOT", "x"]⟩ (.constant "k"))])).Alike
      (entry ⟨["ANY"]⟩ (or [isIn ⟨["IN"]⟩ [.constant "a' OR 'b", .int64 7],
        not (equal ⟨["NOT", "x"]⟩ (.string "k"))])) := by
  have hreadable : ∀ v w u : Value, (entry ⟨["ANY"]⟩ (or [isIn ⟨["IN"]⟩ [v, w],
      not (equal ⟨["NOT", "x"]⟩ u)])).IsReadable := by
    intro v w u
    refine ⟨fun path hpath => ?_, by simp [Branches, BranchesAll]⟩
    have hcases : path = ⟨["ANY"]⟩ ∨ path = ⟨["IN"]⟩ ∨ path = ⟨["NOT", "x"]⟩ := by
      simpa [parts, partsOf] using hpath
    rcases hcases with rfl | rfl | rfl <;> simp [Path.IsPlain, isNameChar]
  refine ⟨hreadable _ _ _, hreadable _ _ _, by decide, ?_⟩
  exact (text_eq_iff_alike (hreadable _ _ _) (hreadable _ _ _)).mp (by decide)

end FilterQuery
