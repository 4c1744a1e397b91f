/-
# Proofs.Condition.Token -- the words of a condition

The text of a condition is read character by character into tokens: words and
numbers, texts in quotes (in which a doubled quote stands for one), punctuation,
and placeholders, which are numbered as they come.  Words are read in either
case, and a blank only separates.  A character that belongs nowhere refuses the
text, as does a number that runs into a word or a text without its last quote.

* `Scanner.run_append`: a text may be read in parts.
* `Scanner.run_of_finish`: a part that starts with a blank or a closing
  parenthesis does not see whether the token before it has ended.
-/

namespace NetRegistry.Condition

set_option autoImplicit false

/-- What stands between two expressions.  A comma stands between arguments. -/
inductive Operator where
  | comma
  | or
  | and
  | like
  | equal
deriving DecidableEq

inductive Token where
  | openParen
  | closeParen
  | dot
  | operator (op : Operator)
  | not
  /-- The placeholder of a given number, counted from zero. -/
  | placeholder (number : Nat)
  | integer (n : Nat)
  | text (s : String)
  /-- Any other word, in lower case. -/
  | word (w : String)
deriving DecidableEq

/-- The token that a word is; `cs` is the word in lower case. -/
def Token.ofWord (cs : List Char) : Token :=
  if cs = ['a', 'n', 'd'] then .operator .and
  else if cs = ['o', 'r'] then .operator .or
  else if cs = ['n', 'o', 't'] then .not
  else if cs = ['l', 'i', 'k', 'e'] then .operator .like
  else .word (String.ofList cs)

/-- A token that may go on, with its characters newest first. -/
inductive Pending where
  | nothing
  | word (cs : List Char)
  | digits (n : Nat)
  /-- A quoted text whose last quote has not come. -/
  | quoted (cs : List Char)
  /-- A quoted text after a quote that ends it, unless another follows. -/
  | unquoted (cs : List Char)
deriving DecidableEq

structure Scanner where
  pending : Pending
  /-- Number of placeholders met. -/
  marks : Nat
  /-- The tokens that have ended, newest first. -/
  tokens : List Token
deriving DecidableEq

/-- Whether the character may stand in a word. -/
def isWordChar (c : Char) : Bool := c.isAlphanum || c == '_'

namespace Scanner

/-- Nothing has been read. -/
def initial : Scanner := ⟨.nothing, 0, []⟩

/-- Add a token; nothing is pending after it. -/
def emit (t : Token) (s : Scanner) : Scanner := ⟨.nothing, s.marks, t :: s.tokens⟩

/-- End the pending token. -/
def finish (s : Scanner) : Option Scanner :=
  match s.pending with
  | .nothing => some s
  | .word cs => some (s.emit (.ofWord cs.reverse))
  | .digits n => some (s.emit (.integer n))
  | .quoted _ => none
  | .unquoted cs => some (s.emit (.text (String.ofList cs.reverse)))

/-- Read a character while nothing is pending. -/
def start (c : Char) (s : Scanner) : Option Scanner :=
  match c with
  | ' ' => some s
  | '(' => some (s.emit .openParen)
  | ')' => some (s.emit .closeParen)
  | ',' => some (s.emit (.operator .comma))
  | '.' => some (s.emit .dot)
  | '=' => some (s.emit (.operator .equal))
  | '?' => some ⟨.nothing, s.marks + 1, .placeholder s.marks :: s.tokens⟩
  | '\'' => some { s with pending := .quoted [] }
  | c =>
      if c.isDigit then some { s with pending := .digits (c.toNat - '0'.toNat) }
      else if isWordChar c then some { s with pending := .word [c.toLower] }
      else none

/-- Read a character. -/
def step (s : Scanner) (c : Char) : Option Scanner :=
  match s.pending with
  | .quoted cs => some { s with pending := if c = '\'' then .unquoted cs else .quoted (c :: cs) }
  | .unquoted cs =>
      if c = '\'' then some { s with pending := .quoted (c :: cs) }
      else s.finish.bind (start c)
  | .word cs =>
      if isWordChar c then some { s with pending := .word (c.toLower :: cs) }
      else s.finish.bind (start c)
  | .digits n =>
      if c.isDigit then some { s with pending := .digits (n * 10 + (c.toNat - '0'.toNat)) }
      else if isWordChar c then none
      else s.finish.bind (start c)
  | .nothing => start c s

/-- Read a text. -/
def run (s : Scanner) (cs : List Char) : Option Scanner := cs.foldlM step s

@[simp] theorem run_nil (s : Scanner) : s.run [] = some s := rfl

theorem run_append (s : Scanner) (cs ds : List Char) :
    s.run (cs ++ ds) = (s.run cs).bind (·.run ds) := by
  simp [run, List.foldlM_append]

/-- A separating character ends the pending token, unless that is a quoted text. -/
theorem step_of_finish {s r : Scanner} {c : Char} (separates : c = ' ' ∨ c = ')')
    (ended : s.finish = some r) : s.step c = start c r := by
  obtain ⟨pending, marks, tokens⟩ := s
  cases pending with
  | nothing => simp only [finish, Option.some.injEq] at ended; rw [← ended]; rfl
  | quoted cs => simp [finish] at ended
  | word cs => rcases separates with rfl | rfl <;> simp [step, isWordChar, ended]
  | digits n => rcases separates with rfl | rfl <;> simp [step, isWordChar, ended]
  | unquoted cs => rcases separates with rfl | rfl <;> simp [step, ended]

/-- Nothing is pending once the pending token has been ended. -/
theorem finish_of_finish {s r : Scanner} (ended : s.finish = some r) : r.finish = some r := by
  obtain ⟨pending, marks, tokens⟩ := s
  cases pending with
  | quoted cs => simp [finish] at ended
  | nothing | word cs | digits n | unquoted cs =>
    simp only [finish, Option.some.injEq] at ended
    rw [← ended]
    rfl

/-- A text that starts with a separating character is read as if the token before it had ended. -/
theorem run_of_finish {s r : Scanner} {c : Char} (separates : c = ' ' ∨ c = ')')
    (ended : s.finish = some r) (cs : List Char) : s.run (c :: cs) = r.run (c :: cs) := by
  have before := step_of_finish separates ended
  have after := step_of_finish separates (finish_of_finish ended)
  simp only [run, List.foldlM_cons, before, after]

end Scanner

/-- What is left when a whole text has been read. -/
def scan (text : String) : Option Scanner := (Scanner.initial.run text.toList).bind (·.finish)

end NetRegistry.Condition
