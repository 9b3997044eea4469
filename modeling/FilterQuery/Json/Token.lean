import FilterQuery.Number.Whole

/-!
# Tokens of a JSON text

A JSON text is cut into **tokens**: brackets, the two separators, literals, numerals and strings.
The token level checks spelling only. What a numeral is worth and whether the escapes of a string
denote characters is decided where the value is used, because a reader that skips a value does
not look at either.

Each token is shorter than the text it is cut from (`length_scanToken`), so the scan ends.
-/

namespace FilterQuery.Json

/-- The spelling of a number: its sign, its digits before and after the point, its power of ten. -/
structure Numeral where
  negative : Bool
  whole : List Char
  fraction : List Char
  exponent : Option Int
  deriving DecidableEq, Repr

/-- A token. A string is kept as the code points written and the code units escaped in it. -/
inductive Token where
  | beginArray
  | endArray
  | beginObject
  | endObject
  | comma
  | colon
  | null
  | boolean (b : Bool)
  | number (n : Numeral)
  | string (units : List Nat)
  deriving DecidableEq, Repr

/-- The four characters between tokens. -/
def isSpace (c : Char) : Bool := c = ' ' || c = '\t' || c = '\n' || c = '\r'

/-! ### Strings -/

/-- The value of a hexadecimal digit. -/
def hexDigit? (c : Char) : Option Nat :=
  if c.isDigit then some (c.toNat - '0'.toNat)
  else if 'a' ≤ c && c ≤ 'f' then some (c.toNat - 'a'.toNat + 10)
  else if 'A' ≤ c && c ≤ 'F' then some (c.toNat - 'A'.toNat + 10)
  else none

/-- The code unit of four hexadecimal digits. -/
def hexUnit? (a b c d : Char) : Option Nat := do
  return 4096 * (← hexDigit? a) + 256 * (← hexDigit? b) + 16 * (← hexDigit? c) + (← hexDigit? d)

/-- The character that a one-letter escape stands for. -/
def shortEscape? (c : Char) : Option Nat :=
  match c with
  | '"' => some 0x22
  | '\\' => some 0x5C
  | '/' => some 0x2F
  | 'b' => some 0x08
  | 'f' => some 0x0C
  | 'n' => some 0x0A
  | 'r' => some 0x0D
  | 't' => some 0x09
  | _ => none

/-- What is scanned, and the characters after it. -/
abbrev Scanned (α : Type) := Option (α × List Char)

/-- The rest of a string up to the closing quote. -/
def scanString : List Char → Scanned (List Nat)
  | '"' :: rest => some ([], rest)
  | '\\' :: 'u' :: a :: b :: c :: d :: rest =>
    match hexUnit? a b c d, scanString rest with
    | some unit, some (units, rest) => some (unit :: units, rest)
    | _, _ => none
  | '\\' :: c :: rest =>
    match shortEscape? c, scanString rest with
    | some unit, some (units, rest) => some (unit :: units, rest)
    | _, _ => none
  | c :: rest =>
    if c.toNat < 0x20 || c = '\\' then none
    else match scanString rest with
      | some (units, rest) => some (c.toNat :: units, rest)
      | none => none
  | [] => none

/-! ### Numerals -/

/-- The digits before the point: one zero, or digits that do not start with a zero. -/
def scanWhole (cs : List Char) : Scanned (List Char) :=
  match cs.takeWhile Char.isDigit with
  | [] => none
  | '0' :: _ :: _ => none
  | digits => some (digits, cs.dropWhile Char.isDigit)

/-- A point and digits, if there is a point. -/
def scanFraction : List Char → Scanned (List Char)
  | '.' :: rest =>
    match rest.takeWhile Char.isDigit with
    | [] => none
    | digits => some (digits, rest.dropWhile Char.isDigit)
  | cs => some ([], cs)

/-- The digits of a power of ten with the given sign. -/
def scanPower (negative : Bool) (cs : List Char) : Scanned (Option Int) :=
  match cs.takeWhile Char.isDigit with
  | [] => none
  | digits => some (some (signed negative (ofDigits digits)), cs.dropWhile Char.isDigit)

/-- A power of ten, if there is one. -/
def scanExponent : List Char → Scanned (Option Int)
  | c :: rest =>
    if c = 'e' || c = 'E' then scanPower (splitSign rest).1 (splitSign rest).2
    else some (none, c :: rest)
  | [] => some (none, [])

/-- A numeral without its sign. -/
def scanUnsigned (negative : Bool) (cs : List Char) : Scanned Token :=
  match scanWhole cs with
  | none => none
  | some (whole, rest) =>
    match scanFraction rest with
    | none => none
    | some (fraction, rest) =>
      match scanExponent rest with
      | none => none
      | some (exponent, rest) => some (.number ⟨negative, whole, fraction, exponent⟩, rest)

/-! ### The scan -/

/-- The first token of a text that does not start with a space. -/
def scanToken : List Char → Scanned Token
  | '[' :: rest => some (.beginArray, rest)
  | ']' :: rest => some (.endArray, rest)
  | '\x7b' :: rest => some (.beginObject, rest)
  | '\x7d' :: rest => some (.endObject, rest)
  | ',' :: rest => some (.comma, rest)
  | ':' :: rest => some (.colon, rest)
  | 'n' :: 'u' :: 'l' :: 'l' :: rest => some (.null, rest)
  | 't' :: 'r' :: 'u' :: 'e' :: rest => some (.boolean true, rest)
  | 'f' :: 'a' :: 'l' :: 's' :: 'e' :: rest => some (.boolean false, rest)
  | '"' :: rest => (scanString rest).map fun found => (.string found.1, found.2)
  | '-' :: rest => scanUnsigned true rest
  | cs => scanUnsigned false cs

/-! ### What is left is shorter -/

theorem length_dropWhile_le (p : Char → Bool) (cs : List Char) :
    (cs.dropWhile p).length ≤ cs.length :=
  (List.dropWhile_suffix p).length_le

/-- A string takes its closing quote at least. -/
theorem length_scanString {cs rest : List Char} {units : List Nat}
    (h : scanString cs = some (units, rest)) : rest.length < cs.length := by
  fun_induction scanString cs generalizing units rest with
  | case1 => simp_all
  | case2 a b c d cs unit units' rest' hrest hunit ih =>
    obtain ⟨-, rfl⟩ := Prod.mk.inj (Option.some.inj h)
    have hlt := ih hrest
    simp only [List.length_cons]
    omega
  | case4 c cs _ unit units' rest' hrest hunit ih =>
    obtain ⟨-, rfl⟩ := Prod.mk.inj (Option.some.inj h)
    have hlt := ih hrest
    simp only [List.length_cons]
    omega
  | case7 c cs _ _ _ _ units' rest' hrest ih =>
    obtain ⟨-, rfl⟩ := Prod.mk.inj (Option.some.inj h)
    have hlt := ih hrest
    simp only [List.length_cons]
    omega
  | _ => simp_all

/-- A whole part has a digit at least. -/
theorem length_scanWhole {cs rest digits : List Char}
    (h : scanWhole cs = some (digits, rest)) : rest.length < cs.length := by
  unfold scanWhole at h
  split at h
  · simp at h
  · simp at h
  · obtain ⟨-, rfl⟩ := Prod.mk.inj (Option.some.inj h)
    have hsplit := congrArg List.length
      (List.takeWhile_append_dropWhile (p := Char.isDigit) (l := cs))
    have hne : cs.takeWhile Char.isDigit ≠ [] := ‹_›
    have hpos := List.length_pos_iff.mpr hne
    rw [List.length_append] at hsplit
    omega

/-- A fraction may be missing. -/
theorem length_scanFraction {cs rest digits : List Char}
    (h : scanFraction cs = some (digits, rest)) : rest.length ≤ cs.length := by
  unfold scanFraction at h
  split at h
  · split at h
    · simp at h
    · obtain ⟨-, rfl⟩ := Prod.mk.inj (Option.some.inj h)
      exact Nat.le_succ_of_le (length_dropWhile_le _ _)
  · obtain ⟨-, rfl⟩ := Prod.mk.inj (Option.some.inj h)
    exact Nat.le_refl _

theorem length_splitSign (cs : List Char) : (splitSign cs).2.length ≤ cs.length := by
  unfold splitSign
  split <;> simp

/-- Behind the letter of an exponent nothing is put back. -/
theorem length_scanPower {negative : Bool} {cs rest : List Char} {exponent : Option Int}
    (h : scanPower negative cs = some (exponent, rest)) : rest.length ≤ cs.length := by
  unfold scanPower at h
  split at h
  · simp at h
  · obtain ⟨-, rfl⟩ := Prod.mk.inj (Option.some.inj h)
    exact length_dropWhile_le _ _

/-- An exponent may be missing altogether. -/
theorem length_scanExponent {cs rest : List Char} {exponent : Option Int}
    (h : scanExponent cs = some (exponent, rest)) : rest.length ≤ cs.length := by
  unfold scanExponent at h
  split at h
  · next c cs =>
    split at h
    · exact Nat.le_succ_of_le (Nat.le_trans (length_scanPower h) (length_splitSign cs))
    · obtain ⟨-, rfl⟩ := Prod.mk.inj (Option.some.inj h)
      exact Nat.le_refl _
  · obtain ⟨-, rfl⟩ := Prod.mk.inj (Option.some.inj h)
    exact Nat.le_refl _

/-- A numeral has its whole part at least. -/
theorem length_scanUnsigned {negative : Bool} {cs rest : List Char} {token : Token}
    (h : scanUnsigned negative cs = some (token, rest)) : rest.length < cs.length := by
  unfold scanUnsigned at h
  split at h
  · simp at h
  · next hwhole =>
    split at h
    · simp at h
    · next hfraction =>
      split at h
      · simp at h
      · next hexponent =>
        obtain ⟨-, rfl⟩ := Prod.mk.inj (Option.some.inj h)
        have h₁ := length_scanWhole hwhole
        have h₂ := length_scanFraction hfraction
        have h₃ := length_scanExponent hexponent
        omega

/-- A token has a character at least. -/
theorem length_scanToken {cs rest : List Char} {token : Token}
    (h : scanToken cs = some (token, rest)) : rest.length < cs.length := by
  unfold scanToken at h
  split at h
  case h_10 rest' =>
    obtain ⟨⟨units, left⟩, hfound, heq⟩ := Option.map_eq_some_iff.mp h
    obtain ⟨-, rfl⟩ := Prod.mk.inj heq
    have hlt := length_scanString hfound
    simp only [List.length_cons]
    omega
  case h_11 rest' =>
    have hlt := length_scanUnsigned h
    simp only [List.length_cons]
    omega
  case h_12 => exact length_scanUnsigned h
  all_goals
    obtain ⟨-, rfl⟩ := Prod.mk.inj (Option.some.inj h)
    simp only [List.length_cons]
    omega

/-- All tokens of a text, or none if some part of it is not a token. -/
def tokens (cs : List Char) : Option (List Token) :=
  match _hspace : cs.dropWhile isSpace with
  | [] => some []
  | c :: rest =>
    match _htoken : scanToken (c :: rest) with
    | none => none
    | some (token, rest') => (tokens rest').map (token :: ·)
  termination_by cs.length
  decreasing_by
    have h₁ := length_scanToken _htoken
    have h₂ := length_dropWhile_le isSpace cs
    rw [_hspace] at h₂
    omega

end FilterQuery.Json
