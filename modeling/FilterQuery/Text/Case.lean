import FilterQuery.Text.Case.Upper
import FilterQuery.Text.Case.Lower
import FilterQuery.Text.Case.Context

/-!
# Letter case

The full case maps of the Unicode standard on texts. A letter may become several (`ß` goes to `SS`),
and the lower case of a capital sigma depends on where it stands: at the end of a word it is `ς`,
elsewhere `σ`. On ASCII texts both maps are the maps of core, character by character.

Field names, keywords and patterns are compared in upper case; enumeration constants and attribute
names only up to **ASCII case** (`equalsIgnoringCase`). The three comparisons differ: `ß` and `ss`
have the same upper case and different lower cases, and `É` and `é` are different up to ASCII case.

The upper case is taken of each character by itself (`upperChar`), so the upper case of a text is
made of those of its characters (`toList_upper`). The lower case is taken by one pass with a flag
that says whether a letter of the same word stands in front (`lowerChars`).
-/

namespace FilterQuery.Text

/-- The upper case of one character. -/
def upperChar (c : Char) : List Char :=
  if c.toNat < 0x80 then [c.toUpper]
  else match CaseRun.target? upperRuns c.toNat, upperSequences.lookup c.toNat with
    | some n, _ => [Char.ofNat n]
    | none, some ns => ns.map Char.ofNat
    | none, none => [c]

/-- The lower case of one character, context aside. -/
def lowerChar (c : Char) : List Char :=
  if c.toNat < 0x80 then [c.toLower]
  else match CaseRun.target? lowerRuns c.toNat, lowerSequences.lookup c.toNat with
    | some n, _ => [Char.ofNat n]
    | none, some ns => ns.map Char.ofNat
    | none, none => [c]

/-- Whether the first character that is not looked through exists and has a case. -/
def startsCased : List Char → Bool
  | [] => false
  | c :: rest => if isCaseIgnorable c then startsCased rest else isCased c

/-- The lower case of a run of characters, where `inWord` says whether the last character before
it that is not looked through has a case. -/
def lowerChars (inWord : Bool) : List Char → List Char
  | [] => []
  | c :: rest =>
    let tail := lowerChars (if isCaseIgnorable c then inWord else isCased c) rest
    if c = 'Σ' then (if inWord && !startsCased rest then 'ς' else 'σ') :: tail
    else lowerChar c ++ tail

/-- The upper case of a text. -/
def upper (s : String) : String :=
  String.ofList (s.toList.flatMap upperChar)

/-- The lower case of a text. -/
def lower (s : String) : String :=
  String.ofList (lowerChars false s.toList)

/-- The text with its ASCII letters in lower case. -/
def asciiLower (s : String) : String :=
  String.ofList (s.toList.map Char.toLower)

/-- Whether two texts agree up to the case of ASCII letters. -/
def equalsIgnoringCase (s t : String) : Bool :=
  s.toList.map Char.toLower == t.toList.map Char.toLower

@[simp] theorem toList_upper (s : String) : (upper s).toList = s.toList.flatMap upperChar := by
  simp [upper]

theorem equalsIgnoringCase_iff {s t : String} :
    equalsIgnoringCase s t = true ↔ asciiLower s = asciiLower t := by
  simp [equalsIgnoringCase, asciiLower, String.ofList_inj]

end FilterQuery.Text
