/-
# Proofs.Condition.Grammar -- how the words of a condition belong together

`Derives` is the grammar, with a level for each strength of binding: a comma
binds least, then OR, AND, NOT, the comparisons LIKE and `=`, and operands.  Two
operators of one level group to the left.  `parse?` reads tokens one at a time
and keeps a stack of what waits for its right side; an operator first closes all
that binds at least as strongly.

* `Parser.run_derives`: on what a level derives, the parser leaves operators of
  that level or above on its stack, and closing them gives the derived expression.
* `Parser.accepts_run`: the tokens that the parser has taken make its stack and
  the expression beside it, each frame standing where the grammar allows it.
* `parse?_eq_some_iff`: the parser finds exactly what the grammar derives, so a
  condition has at most one reading.
-/
import NetRegistry.Proofs.Condition.Token

namespace NetRegistry.Condition

set_option autoImplicit false

/-- Strength of binding, weakest first. -/
inductive Level where
  | arguments
  | disjunction
  | conjunction
  | negation
  | comparison
  | operand
deriving DecidableEq

namespace Level

def rank : Level → Nat
  | .arguments => 0
  | .disjunction => 1
  | .conjunction => 2
  | .negation => 3
  | .comparison => 4
  | .operand => 5

instance : LE Level := ⟨fun l m => l.rank ≤ m.rank⟩

instance (l m : Level) : Decidable (l ≤ m) := inferInstanceAs (Decidable (l.rank ≤ m.rank))

theorem le_refl (l : Level) : l ≤ l := Nat.le_refl l.rank

theorem le_trans {l m k : Level} (h : l ≤ m) (h' : m ≤ k) : l ≤ k := Nat.le_trans h h'

theorem le_operand (l : Level) : l ≤ .operand := by cases l <;> decide

end Level

namespace Operator

/-- How strongly the operator binds; its left side binds as strongly. -/
def level : Operator → Level
  | .comma => .arguments
  | .or => .disjunction
  | .and => .conjunction
  | .like => .comparison
  | .equal => .comparison

/-- How strongly the right side of the operator binds. -/
def right : Operator → Level
  | .comma => .disjunction
  | .or => .conjunction
  | .and => .negation
  | .like => .operand
  | .equal => .operand

theorem level_le_right (op : Operator) : op.level ≤ op.right := by cases op <;> decide

theorem not_right_le_level (op : Operator) : ¬ op.right ≤ op.level := by cases op <;> decide

end Operator

inductive Expr where
  | placeholder (number : Nat)
  | integer (n : Nat)
  | text (s : String)
  | column (table name : String)
  | not (inner : Expr)
  /-- Two expressions with an operator between them.  With a comma they are arguments of
  COALESCE, of which the first that is not null counts. -/
  | binary (op : Operator) (left right : Expr)
deriving DecidableEq

/-- Name of the one function that conditions call. -/
def callee : String := "coalesce"

/-- The expressions that tokens derive at a level. -/
inductive Derives : Level → List Token → Expr → Prop where
  | loosen {l m : Level} {ts : List Token} {e : Expr} :
      l ≤ m → Derives m ts e → Derives l ts e
  | placeholder (number : Nat) : Derives .operand [.placeholder number] (.placeholder number)
  | integer (n : Nat) : Derives .operand [.integer n] (.integer n)
  | text (s : String) : Derives .operand [.text s] (.text s)
  | column (table name : String) :
      Derives .operand [.word table, .dot, .word name] (.column table name)
  | group {ts : List Token} {e : Expr} :
      Derives .disjunction ts e → Derives .operand (.openParen :: (ts ++ [.closeParen])) e
  /-- A call with at least two arguments. -/
  | call {ts us : List Token} {first last : Expr} :
      Derives .arguments ts first → Derives .disjunction us last →
      Derives .operand
        (.word callee :: .openParen :: (ts ++ .operator .comma :: us ++ [.closeParen]))
        (.binary .comma first last)
  | not {ts : List Token} {e : Expr} :
      Derives .negation ts e → Derives .negation (.not :: ts) (.not e)
  | binary (op : Operator) {ts us : List Token} {left right : Expr} :
      Derives op.level ts left → Derives op.right us right →
      Derives op.level (ts ++ .operator op :: us) (.binary op left right)

/-! ## The parser -/

/-- Something that waits for what is to the right of it. -/
inductive Frame where
  | binary (op : Operator) (left : Expr)
  | not
  | group
  | call
deriving DecidableEq

namespace Frame

/-- How strongly that which is waited for binds. -/
def right : Frame → Level
  | .binary op _ => op.right
  | .not => .negation
  | .group => .disjunction
  | .call => .arguments

/-- The expression that the frame and its right side make, if an operator of the level closes
the frame. -/
def close? (level : Level) (e : Expr) : Frame → Option Expr
  | .binary op left => if level ≤ op.level then some (.binary op left e) else none
  | .not => if level ≤ .negation then some (.not e) else none
  | .group => none
  | .call => none

end Frame

/-- How strongly that which the top of the stack waits for binds. -/
def expected : List Frame → Level
  | [] => .disjunction
  | f :: _ => f.right

/-- Close what binds at least as strongly as the level. -/
def reduce (level : Level) : List Frame → Expr → List Frame × Expr
  | [], e => ([], e)
  | f :: stack, e =>
      match f.close? level e with
      | some e' => reduce level stack e'
      | none => (f :: stack, e)

inductive Parser where
  /-- An operand has to come. -/
  | wanting (stack : List Frame)
  /-- A word has come in the place of an operand. -/
  | word (w : String) (stack : List Frame)
  /-- A word and a dot have come in the place of an operand. -/
  | qualified (table : String) (stack : List Frame)
  | having (stack : List Frame) (e : Expr)
deriving DecidableEq

namespace Parser

def step : Parser → Token → Option Parser
  | .wanting stack, .placeholder number => some (.having stack (.placeholder number))
  | .wanting stack, .integer n => some (.having stack (.integer n))
  | .wanting stack, .text s => some (.having stack (.text s))
  | .wanting stack, .word w => some (.word w stack)
  | .wanting stack, .openParen => some (.wanting (.group :: stack))
  | .wanting stack, .not =>
      if expected stack ≤ .negation then some (.wanting (.not :: stack)) else none
  | .word table stack, .dot => some (.qualified table stack)
  | .word w stack, .openParen => if w = callee then some (.wanting (.call :: stack)) else none
  | .qualified table stack, .word name => some (.having stack (.column table name))
  | .having stack e, .operator op =>
      let (stack, left) := reduce op.level stack e
      if expected stack ≤ op.level then some (.wanting (.binary op left :: stack)) else none
  | .having stack e, .closeParen =>
      match reduce .disjunction stack e with
      | (.group :: stack, e) => some (.having stack e)
      | (.binary .comma first :: .call :: stack, last) =>
          some (.having stack (.binary .comma first last))
      | _ => none
  | _, _ => none

/-- The expression that has been read when nothing more comes. -/
def result : Parser → Option Expr
  | .having stack e =>
      match reduce .disjunction stack e with
      | ([], e) => some e
      | _ => none
  | _ => none

def run (q : Parser) (ts : List Token) : Option Parser := ts.foldlM step q

@[simp] theorem run_nil (q : Parser) : q.run [] = some q := rfl

theorem run_cons (q : Parser) (t : Token) (ts : List Token) :
    q.run (t :: ts) = (q.step t).bind (·.run ts) := by
  simp [run]

theorem run_append (q : Parser) (ts us : List Token) :
    q.run (ts ++ us) = (q.run ts).bind (·.run us) := by
  simp [run, List.foldlM_append]

end Parser

/-- The expression that tokens make. -/
def parse? (ts : List Token) : Option Expr := ((Parser.wanting []).run ts).bind (·.result)

/-! ## What the grammar derives is found -/

/-- Closing the frames, innermost first, around an expression gives another one. -/
inductive Closes (level : Level) : List Frame → Expr → Expr → Prop where
  | nil (e : Expr) : Closes level [] e e
  | cons {f : Frame} {fs : List Frame} {e e' e'' : Expr} :
      f.close? level e = some e' → Closes level fs e' e'' → Closes level (f :: fs) e e''

namespace Closes

variable {level : Level} {fs gs : List Frame} {e e' e'' : Expr}

theorem append (h : Closes level fs e e') (h' : Closes level gs e' e'') :
    Closes level (fs ++ gs) e e'' := by
  induction h with
  | nil e => exact h'
  | cons closes _ ih => exact .cons closes (ih h')

/-- What closes a frame still does when it binds less. -/
theorem loosen {l m : Level} (le : l ≤ m) (h : Closes m fs e e') : Closes l fs e e' := by
  have weaker {f : Frame} {e e' : Expr} (h : f.close? m e = some e') : f.close? l e = some e' := by
    cases f with
    | binary op left =>
      simp only [Frame.close?, Option.ite_none_right_eq_some] at h ⊢
      exact ⟨Level.le_trans le h.1, h.2⟩
    | not =>
      simp only [Frame.close?, Option.ite_none_right_eq_some] at h ⊢
      exact ⟨Level.le_trans le h.1, h.2⟩
    | group => simp [Frame.close?] at h
    | call => simp [Frame.close?] at h
  induction h with
  | nil e => exact .nil e
  | cons closes _ ih => exact .cons (weaker closes) ih

theorem reduce_append (h : Closes level fs e e') (stack : List Frame) :
    reduce level (fs ++ stack) e = reduce level stack e' := by
  induction h with
  | nil e => rfl
  | cons closes _ ih => simp only [List.cons_append, reduce, closes, ih]

end Closes

/-- A frame that waits for something as weak as an operator is not closed by that operator. -/
theorem Frame.close?_of_right_le {op : Operator} {f : Frame} (h : f.right ≤ op.level) (e : Expr) :
    f.close? op.level e = none := by
  cases f with
  | binary op' left => exact if_neg fun le => op'.not_right_le_level (Level.le_trans h le)
  | not => exact if_neg fun le => by revert h le; cases op <;> decide
  | group => rfl
  | call => rfl

theorem reduce_eq_self {op : Operator} {stack : List Frame} (h : expected stack ≤ op.level)
    (e : Expr) : reduce op.level stack e = (stack, e) := by
  cases stack with
  | nil => rfl
  | cons f stack => simp only [reduce, Frame.close?_of_right_le h]

namespace Parser

/-- An operator that the stack admits takes the expression before it as its left side. -/
theorem step_operator {op : Operator} {fs stack : List Frame} {e left : Expr}
    (closes : Closes op.level fs e left) (admits : expected stack ≤ op.level) :
    (having (fs ++ stack) e).step (.operator op) = some (.wanting (.binary op left :: stack)) := by
  simp only [step, closes.reduce_append, reduce_eq_self admits, if_pos admits]

/-- On a stack that admits the level the tokens are read as the expression, up to operators that are
still open. -/
def Follows (l : Level) (ts : List Token) (e : Expr) : Prop :=
  ∀ stack, expected stack ≤ l → ∃ fs e',
    (wanting stack).run ts = some (.having (fs ++ stack) e') ∧ Closes l fs e' e

namespace Follows

variable {l m : Level} {ts us : List Token} {e left right : Expr}

theorem loosen (le : l ≤ m) (follows : Follows m ts e) : Follows l ts e := by
  intro stack admits
  obtain ⟨fs, e', read, closes⟩ := follows stack (Level.le_trans admits le)
  exact ⟨fs, e', read, closes.loosen le⟩

/-- An operand that leaves nothing open. -/
theorem operand (read : ∀ stack, (wanting stack).run ts = some (.having stack e)) :
    Follows .operand ts e :=
  fun stack _ => ⟨[], e, read stack, .nil e⟩

theorem group (follows : Follows .disjunction ts e) :
    Follows .operand (.openParen :: (ts ++ [.closeParen])) e := by
  apply operand
  intro stack
  obtain ⟨fs, e', read, closes⟩ := follows (.group :: stack) (Level.le_refl _)
  have opened : (wanting stack).step .openParen = some (.wanting (.group :: stack)) := rfl
  have closed : (having (fs ++ .group :: stack) e').step .closeParen =
      some (.having stack e) := by
    simp only [step, closes.reduce_append]
    rfl
  simp [run_cons, run_append, opened, read, closed]

theorem call (first : Follows .arguments ts left) (last : Follows .disjunction us right) :
    Follows .operand
      (.word callee :: .openParen :: (ts ++ .operator .comma :: us ++ [.closeParen]))
      (.binary .comma left right) := by
  apply operand
  intro stack
  obtain ⟨fs, e', read, closes⟩ := first (.call :: stack) (Level.le_refl _)
  obtain ⟨fs', e'', read', closes'⟩ :=
    last (.binary .comma left :: .call :: stack) (Level.le_refl _)
  have named : (wanting stack).step (.word callee) = some (.word callee stack) := rfl
  have opened : (word callee stack).step .openParen = some (.wanting (.call :: stack)) := rfl
  have comma : (having (fs ++ .call :: stack) e').step (.operator .comma) =
      some (.wanting (.binary .comma left :: .call :: stack)) :=
    step_operator closes (Level.le_refl _)
  have closed : (having (fs' ++ .binary .comma left :: .call :: stack) e'').step .closeParen =
      some (.having stack (.binary .comma left right)) := by
    simp only [step, closes'.reduce_append]
    rfl
  simp [run_cons, run_append, named, opened, read, comma, read', closed]

theorem not (follows : Follows .negation ts e) : Follows .negation (.not :: ts) (.not e) := by
  intro stack admits
  obtain ⟨fs, e', read, closes⟩ := follows (.not :: stack) (Level.le_refl _)
  have taken : (wanting stack).step .not = some (.wanting (.not :: stack)) := if_pos admits
  refine ⟨fs ++ [.not], e', ?_, closes.append (.cons rfl (.nil _))⟩
  simp [run_cons, taken, read]

theorem binary {op : Operator} (first : Follows op.level ts left)
    (last : Follows op.right us right) :
    Follows op.level (ts ++ .operator op :: us) (.binary op left right) := by
  intro stack admits
  obtain ⟨fs, e', read, closes⟩ := first stack admits
  obtain ⟨fs', e'', read', closes'⟩ := last (.binary op left :: stack) (Level.le_refl _)
  have taken := step_operator closes admits
  have ends : (Frame.binary op left).close? op.level right = some (.binary op left right) :=
    if_pos (Level.le_refl _)
  refine ⟨fs' ++ [.binary op left], e'', ?_,
    (closes'.loosen op.level_le_right).append (.cons ends (.nil _))⟩
  simp [run_cons, run_append, read, taken, read']

end Follows

/-- What a level derives is read on top of a stack that admits the level. -/
theorem run_derives {l : Level} {ts : List Token} {e : Expr} (h : Derives l ts e) :
    Follows l ts e := by
  induction h with
  | loosen le _ follows => exact follows.loosen le
  | placeholder | integer | text | column => exact .operand fun _ => rfl
  | group _ follows => exact follows.group
  | call _ _ first last => exact first.call last
  | not _ follows => exact follows.not
  | binary op _ _ first last => exact first.binary last

end Parser

/-! ## What is found is derived -/

/-- The tokens that make a stack: each frame has come where it may, after its left side. -/
inductive Spells : List Frame → List Token → Prop where
  | nil : Spells [] []
  | binary {stack : List Frame} {ts us : List Token} {op : Operator} {left : Expr} :
      Spells stack ts → expected stack ≤ op.level → Derives op.level us left →
      Spells (.binary op left :: stack) (ts ++ us ++ [.operator op])
  | not {stack : List Frame} {ts : List Token} :
      Spells stack ts → expected stack ≤ .negation → Spells (.not :: stack) (ts ++ [.not])
  | group {stack : List Frame} {ts : List Token} :
      Spells stack ts → Spells (.group :: stack) (ts ++ [.openParen])
  | call {stack : List Frame} {ts : List Token} :
      Spells stack ts → Spells (.call :: stack) (ts ++ [.word callee, .openParen])

/-- Closing frames moves tokens from the stack to the expression. -/
theorem Spells.reduce {stack : List Frame} {ts us : List Token} {l m : Level} {e : Expr}
    (spells : Spells stack ts) (derives : Derives m us e) (admits : expected stack ≤ m)
    (le : l ≤ m) :
    ∃ ts' us', ts ++ us = ts' ++ us' ∧ Spells (reduce l stack e).1 ts' ∧
      Derives l us' (Condition.reduce l stack e).2 := by
  induction spells generalizing us m e with
  | nil => exact ⟨[], us, rfl, .nil, .loosen le derives⟩
  | @binary stack ts vs op left below place leftDerives ih =>
    by_cases closes : l ≤ op.level
    · simp only [Condition.reduce, Frame.close?, if_pos closes]
      obtain ⟨ts', us', same, rest⟩ :=
        ih (.binary op leftDerives (.loosen admits derives)) place closes
      exact ⟨ts', us', by simpa using same, rest⟩
    · simp only [Condition.reduce, Frame.close?, if_neg closes]
      exact ⟨_, us, rfl, .binary below place leftDerives, .loosen le derives⟩
  | @not stack ts below place ih =>
    by_cases closes : l ≤ .negation
    · simp only [Condition.reduce, Frame.close?, if_pos closes]
      obtain ⟨ts', us', same, rest⟩ := ih (.not (.loosen admits derives)) place closes
      exact ⟨ts', us', by simpa using same, rest⟩
    · simp only [Condition.reduce, Frame.close?, if_neg closes]
      exact ⟨_, us, rfl, .not below place, .loosen le derives⟩
  | group below _ => exact ⟨_, us, rfl, .group below, .loosen le derives⟩
  | call below _ => exact ⟨_, us, rfl, .call below, .loosen le derives⟩

namespace Parser

/-- The tokens read make the stack and what stands beside it. -/
def Accepts : Parser → List Token → Prop
  | .wanting stack, ts => Spells stack ts
  | .word w stack, ts => ∃ us, ts = us ++ [.word w] ∧ Spells stack us
  | .qualified table stack, ts => ∃ us, ts = us ++ [.word table, .dot] ∧ Spells stack us
  | .having stack e, ts => ∃ us vs, ts = us ++ vs ∧ Spells stack us ∧ Derives .operand vs e

/-- What stands on the stack and beside it, once an operator of a level has closed what it can. -/
theorem accepts_reduce {stack : List Frame} {e : Expr} {ts : List Token} (l : Level)
    (accepts : (having stack e).Accepts ts) :
    ∃ us vs, ts = us ++ vs ∧ Spells (reduce l stack e).1 us ∧
      Derives l vs (reduce l stack e).2 := by
  obtain ⟨us, vs, rfl, spells, derives⟩ := accepts
  exact spells.reduce derives (Level.le_operand _) (Level.le_operand l)

theorem accepts_closeParen {stack : List Frame} {e : Expr} {ts : List Token} {r : Parser}
    (accepts : (having stack e).Accepts ts) (taken : (having stack e).step .closeParen = some r) :
    r.Accepts (ts ++ [.closeParen]) := by
  obtain ⟨us, vs, rfl, spells, derives⟩ := accepts_reduce .disjunction accepts
  simp only [step] at taken
  generalize reduce .disjunction stack e = reduced at taken spells derives
  split at taken
  · cases taken
    cases spells with
    | group below => exact ⟨_, _, by simp, below, .group derives⟩
  · cases taken
    cases spells with
    | binary below _ first =>
      cases below with
      | call below => exact ⟨_, _, by simp, below, .call first derives⟩
  · cases taken

/-- A token that is taken keeps what the parser has accepted. -/
theorem accepts_step {q r : Parser} {t : Token} {ts : List Token} (accepts : q.Accepts ts)
    (taken : q.step t = some r) : r.Accepts (ts ++ [t]) := by
  cases q with
  | wanting stack =>
    cases t with
    | placeholder number => cases taken; exact ⟨ts, _, rfl, accepts, .placeholder number⟩
    | integer n => cases taken; exact ⟨ts, _, rfl, accepts, .integer n⟩
    | text s => cases taken; exact ⟨ts, _, rfl, accepts, .text s⟩
    | word w => cases taken; exact ⟨ts, rfl, accepts⟩
    | openParen => cases taken; exact .group accepts
    | not =>
      obtain ⟨place, rfl⟩ := by simpa [step] using taken
      exact .not accepts place
    | closeParen | dot | operator _ => cases taken
  | word w stack =>
    obtain ⟨us, rfl, spells⟩ := accepts
    cases t with
    | dot => cases taken; exact ⟨us, by simp, spells⟩
    | openParen =>
      obtain ⟨rfl, rfl⟩ := by simpa [step] using taken
      simpa [Accepts] using spells.call
    | closeParen | operator _ | not | placeholder _ | integer _ | text _ | word _ => cases taken
  | qualified table stack =>
    obtain ⟨us, rfl, spells⟩ := accepts
    cases t with
    | word name => cases taken; exact ⟨us, _, by simp, spells, .column table name⟩
    | openParen | closeParen | dot | operator _ | not | placeholder _ | integer _ | text _ =>
      cases taken
  | having stack e =>
    cases t with
    | operator op =>
      obtain ⟨us, vs, rfl, spells, derives⟩ := accepts_reduce op.level accepts
      obtain ⟨place, rfl⟩ := by simpa [step] using taken
      exact .binary spells place derives
    | closeParen => exact accepts_closeParen accepts taken
    | openParen | dot | not | placeholder _ | integer _ | text _ | word _ => cases taken

theorem accepts_run {q r : Parser} {ts us : List Token} (accepts : q.Accepts ts)
    (taken : q.run us = some r) : r.Accepts (ts ++ us) := by
  induction us generalizing q ts with
  | nil => cases taken; simpa using accepts
  | cons t us ih =>
    rw [run_cons] at taken
    obtain ⟨q', first, rest⟩ := Option.bind_eq_some_iff.mp taken
    simpa using ih (accepts_step accepts first) rest

end Parser

/-- The parser finds an expression exactly when the grammar derives it.  It finds at most one, so
no condition can be read in two ways. -/
theorem parse?_eq_some_iff (ts : List Token) (e : Expr) :
    parse? ts = some e ↔ Derives .disjunction ts e := by
  constructor
  · intro found
    obtain ⟨q, taken, result⟩ := Option.bind_eq_some_iff.mp found
    have start : (Parser.wanting []).Accepts [] := .nil
    have accepts : q.Accepts ([] ++ ts) := Parser.accepts_run start taken
    cases q with
    | wanting _ | word _ _ | qualified _ _ => cases result
    | having stack e' =>
      obtain ⟨us, vs, same, spells, derives⟩ := Parser.accepts_reduce .disjunction accepts
      simp only [Parser.result] at result
      generalize reduce .disjunction stack e' = reduced at result spells derives
      split at result
      · cases result
        cases spells with
        | nil =>
          obtain rfl : ts = vs := same
          exact derives
      · cases result
  · intro derives
    obtain ⟨fs, e', taken, closes⟩ := Parser.run_derives derives [] (Level.le_refl _)
    simp only [parse?, taken, Option.bind_some, Parser.result, closes.reduce_append]
    rfl

/-- OR binds less than AND, AND less than NOT, and NOT less than LIKE. -/
example :
    ((scan "0 or ip.descr LIKE ? AND NOT ip.netname LIKE ?").bind fun s =>
        parse? s.tokens.reverse) = some (.binary .or (.integer 0)
        (.binary .and (.binary .like (.column "ip" "descr") (.placeholder 0))
          (.not (.binary .like (.column "ip" "netname") (.placeholder 1))))) := by
  rfl

end NetRegistry.Condition
