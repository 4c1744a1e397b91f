/-
# Text.Pattern -- wildcard patterns

In a pattern `%` stands for any run of characters, `_` for any one character and
every other character for itself.  The case of ASCII letters does not count, and
the two code points `U+FFFE` and `U+FFFF`, which are no characters, count as the
replacement character.  Nothing is escaped, and a pattern describes the whole text.
Both the pattern and the text end at their first `U+0000`.

`matchesChars` says what a pattern describes.  It is decided for all ends of the
text at once, from the last sign of the pattern to the first (`matchedEnds`), in
time that grows with the product of the two lengths; `matchedEnds_eq_map` says that
the decision is right.
-/

namespace NetRegistry.Text

set_option autoImplicit false

/-- What counts of a character. -/
def fold (c : Char) : Char :=
  if c = '\ufffe' ∨ c = '\uffff' then '\ufffd' else c.toLower

/-- Whether two characters count as the same. -/
def sameLetter (c d : Char) : Bool := fold c == fold d

/-- Whether some end of the text satisfies a test. -/
def anySuffix (test : List Char → Bool) : List Char → Bool
  | [] => test []
  | c :: rest => test (c :: rest) || anySuffix test rest

/-- Whether a character is next, and a test holds of what follows it. -/
def nextThen (isSame : Char → Bool) (test : List Char → Bool) : List Char → Bool
  | [] => false
  | c :: rest => isSame c && test rest

/-- Whether the pattern describes the whole text. -/
def matchesChars : (pattern text : List Char) → Bool
  | [], text => text.isEmpty
  | '%' :: pattern, text => anySuffix (matchesChars pattern) text
  | '_' :: pattern, text => nextThen (fun _ => true) (matchesChars pattern) text
  | p :: pattern, text => nextThen (sameLetter p) (matchesChars pattern) text

/-! ## All ends at once -/

/-- The ends of a text, longest first. -/
def ends : List Char → List (List Char)
  | [] => [[]]
  | c :: rest => (c :: rest) :: ends rest

/-- For each answer, whether it or a later one is yes. -/
def anyFrom (answers : List Bool) : List Bool :=
  answers.foldr (fun answer later => (answer || later.headD false) :: later) []

/-- For each end of the text, whether the pattern describes it. -/
def matchedEnds : (pattern text : List Char) → List Bool
  | [], text => text.map (fun _ => false) ++ [true]
  | '%' :: pattern, text => anyFrom (matchedEnds pattern text)
  | '_' :: pattern, text => (matchedEnds pattern text).drop 1 ++ [false]
  | p :: pattern, text =>
      text.zipWith (fun c answer => sameLetter p c && answer)
        ((matchedEnds pattern text).drop 1) ++ [false]

/-- The characters of a text up to the first `U+0000`. -/
def upToNull (s : String) : List Char := s.toList.takeWhile (· ≠ '\x00')

/-- Whether the pattern describes the whole text. -/
def matchesPattern (pattern text : String) : Bool :=
  (matchedEnds (upToNull pattern) (upToNull text)).headD false

theorem headD_map_ends (test : List Char → Bool) (text : List Char) :
    ((ends text).map test).headD false = test text := by
  cases text <;> rfl

theorem anyFrom_map_ends (test : List Char → Bool) (text : List Char) :
    anyFrom ((ends text).map test) = (ends text).map (anySuffix test) := by
  induction text with
  | nil => simp [ends, anyFrom, anySuffix]
  | cons c rest ih =>
    have step : anyFrom ((ends (c :: rest)).map test) =
        (test (c :: rest) || (anyFrom ((ends rest).map test)).headD false) ::
          anyFrom ((ends rest).map test) := rfl
    rw [step, ih, headD_map_ends]
    rfl

theorem map_nextThen_ends (isSame : Char → Bool) (test : List Char → Bool) (text : List Char) :
    text.zipWith (fun c answer => isSame c && answer) (((ends text).map test).drop 1) ++ [false] =
      (ends text).map (nextThen isSame test) := by
  induction text with
  | nil => rfl
  | cons c rest ih =>
    have tail : ((ends (c :: rest)).map test).drop 1 = (ends rest).map test := rfl
    have whole : (ends (c :: rest)).map (nextThen isSame test) =
        (isSame c && test rest) :: (ends rest).map (nextThen isSame test) := rfl
    rw [tail, whole, ← ih]
    cases rest <;> rfl

theorem drop_map_ends (test : List Char → Bool) (text : List Char) :
    ((ends text).map test).drop 1 ++ [false] =
      (ends text).map (nextThen (fun _ => true) test) := by
  rw [← map_nextThen_ends]
  congr 1
  induction text with
  | nil => rfl
  | cons c rest ih =>
    have tail : ((ends (c :: rest)).map test).drop 1 = (ends rest).map test := rfl
    rw [tail]
    cases rest with
    | nil => rfl
    | cons d rest => simpa [ends] using ih

/-- The answers for all ends are those of each end by itself. -/
theorem matchedEnds_eq_map (pattern text : List Char) :
    matchedEnds pattern text = (ends text).map (matchesChars pattern) := by
  induction pattern generalizing text with
  | nil =>
    induction text with
    | nil => rfl
    | cons c rest ih => simpa [matchedEnds, ends, matchesChars] using ih
  | cons p pattern ih =>
    by_cases percent : p = '%'
    · subst percent
      simp only [matchedEnds, ih, anyFrom_map_ends]
      exact List.map_congr_left fun _ _ => by rw [matchesChars]
    · by_cases underscore : p = '_'
      · subst underscore
        simp only [matchedEnds, ih, drop_map_ends]
        exact List.map_congr_left fun _ _ => by rw [matchesChars]
      · simp only [matchedEnds, ih, map_nextThen_ends]
        exact List.map_congr_left fun _ _ => by rw [matchesChars] <;> assumption

/-- The decision is what the pattern describes. -/
theorem matchesPattern_eq (pattern text : String) :
    matchesPattern pattern text = matchesChars (upToNull pattern) (upToNull text) := by
  rw [matchesPattern, matchedEnds_eq_map, headD_map_ends]

/-- A lone `%` describes every text. -/
theorem matchesChars_percent (text : List Char) : matchesChars ['%'] text = true := by
  induction text with
  | nil => rfl
  | cons c rest ih =>
    rw [matchesChars] at ih ⊢
    simp [anySuffix, ih]

end NetRegistry.Text
