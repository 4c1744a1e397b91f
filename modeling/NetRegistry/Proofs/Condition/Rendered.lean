/-
# Proofs.Condition.Rendered -- a rendered predicate says what the predicate says

`Predicate.tokens`, `Predicate.expr` and `Predicate.params` are what rendering
is meant to write: the words, how they belong together, and the texts to bind.
They take the number of the placeholder to start from, because a term is rendered
behind its predecessors.

* `Predicate.derives`: the words make that expression.  Each term binds at least
  as strongly as NOT, so that neither junction can take it apart.
* `Predicate.reads_render`: the text is those words, and none of them runs into
  what is written next.
* `Predicate.eval_expr`: the expression has the truth value of the predicate,
  wherever its texts stand among those bound.
* `Predicate.truth_clause` puts the three together.
-/
import NetRegistry.Proofs.Condition.Meaning

namespace NetRegistry

set_option autoImplicit false

open Condition

/-- The words of a column. -/
def Field.tokens : Field → List Token
  | .orgHandle =>
      [.word callee, .openParen, .word "org", .dot, .word "handle", .operator .comma,
        .word "ip", .dot, .word "org_id_str", .operator .comma, .text "", .closeParen]
  | .orgName =>
      [.word callee, .openParen, .word "org", .dot, .word "name", .operator .comma, .text "",
        .closeParen]
  | .orgDescr =>
      [.word callee, .openParen, .word "org", .dot, .word "descr", .operator .comma, .text "",
        .closeParen]
  | .netname => [.word "ip", .dot, .word "netname"]
  | .descr => [.word "ip", .dot, .word "descr"]

def Field.expr : Field → Expr
  | .orgHandle =>
      .binary .comma (.binary .comma (.column "org" "handle") (.column "ip" "org_id_str"))
        (.text "")
  | .orgName => .binary .comma (.column "org" "name") (.text "")
  | .orgDescr => .binary .comma (.column "org" "descr") (.text "")
  | .netname => .column "ip" "netname"
  | .descr => .column "ip" "descr"

theorem Field.derives (field : Field) : Derives .operand field.tokens field.expr := by
  have loosen {l : Condition.Level} {ts : List Token} {e : Expr} (h : Derives .operand ts e) :
      Derives l ts e := .loosen (Level.le_operand l) h
  cases field with
  | orgHandle =>
    exact .call (.binary .comma (loosen (.column "org" "handle"))
      (loosen (.column "ip" "org_id_str"))) (loosen (.text ""))
  | orgName => exact .call (loosen (.column "org" "name")) (loosen (.text ""))
  | orgDescr => exact .call (loosen (.column "org" "descr")) (loosen (.text ""))
  | netname => exact .column "ip" "netname"
  | descr => exact .column "ip" "descr"

/-- A column has the text that patterns are matched against, and is never null. -/
theorem Field.eval_expr (matches? : (pattern text : String) → Bool) (c : Candidate)
    (params : List String) (field : Field) :
    field.expr.eval matches? c params = some (.text (c.attribute field)) := by
  cases field with
  | orgHandle => cases h : c.orgHandle <;> cases h' : c.reference <;>
      simp [Field.expr, Expr.eval, Candidate.column, Candidate.attribute, Operator.apply, h, h',
        Scalar.ofText?]
  | orgName => cases h : c.orgName <;>
      simp [Field.expr, Expr.eval, Candidate.column, Candidate.attribute, Operator.apply, h,
        Scalar.ofText?]
  | orgDescr => cases h : c.orgDescr <;>
      simp [Field.expr, Expr.eval, Candidate.column, Candidate.attribute, Operator.apply, h,
        Scalar.ofText?]
  | netname => rfl
  | descr => rfl

namespace Predicate

mutual

/-- The words of a predicate whose first placeholder has the number `n`. -/
def tokens (n : Nat) : Predicate → List Token
  | .like field _ => field.tokens ++ [.operator .like, .placeholder n]
  | .registrar _ => [.word "reg", .dot, .word "name", .operator .equal, .placeholder n]
  | .and [] => [.integer 1]
  | .and (p :: rest) =>
      .openParen :: (p.tokens n ++ restTokens .and (n + p.leafCount) rest ++ [.closeParen])
  | .or [] => [.integer 0]
  | .or (p :: rest) =>
      .openParen :: (p.tokens n ++ restTokens .or (n + p.leafCount) rest ++ [.closeParen])
  | .not inner => .not :: .openParen :: (inner.tokens n ++ [.closeParen])

/-- The words of further terms, each behind the operator. -/
def restTokens (op : Operator) (n : Nat) : List Predicate → List Token
  | [] => []
  | p :: rest => .operator op :: (p.tokens n ++ restTokens op (n + p.leafCount) rest)

end

mutual

/-- The expression of a predicate whose first placeholder has the number `n`. -/
def expr (n : Nat) : Predicate → Expr
  | .like field _ => .binary .like field.expr (.placeholder n)
  | .registrar _ => .binary .equal (.column "reg" "name") (.placeholder n)
  | .and [] => .integer 1
  | .and (p :: rest) => joined .and (p.expr n) (n + p.leafCount) rest
  | .or [] => .integer 0
  | .or (p :: rest) => joined .or (p.expr n) (n + p.leafCount) rest
  | .not inner => .not (inner.expr n)

/-- An expression with further terms joined to it on the right. -/
def joined (op : Operator) (left : Expr) (n : Nat) : List Predicate → Expr
  | [] => left
  | p :: rest => joined op (.binary op left (p.expr n)) (n + p.leafCount) rest

end

mutual

/-- The texts that a predicate binds, in their order. -/
def params : Predicate → List String
  | .like _ pattern => [pattern]
  | .registrar name => [name]
  | .and terms => paramsAll terms
  | .or terms => paramsAll terms
  | .not inner => inner.params

def paramsAll : List Predicate → List String
  | [] => []
  | p :: rest => p.params ++ paramsAll rest

end

mutual

theorem length_params : (p : Predicate) → p.params.length = p.leafCount
  | .like _ _ => rfl
  | .registrar _ => rfl
  | .and terms => length_paramsAll terms
  | .or terms => length_paramsAll terms
  | .not inner => length_params inner

theorem length_paramsAll : (terms : List Predicate) → (paramsAll terms).length = leafCountAll terms
  | [] => rfl
  | p :: rest => by
      simp [paramsAll, leafCountAll, length_params p, length_paramsAll rest]

end

/-! ## The words make the expression -/

mutual

theorem derives (n : Nat) : (p : Predicate) → Derives .negation (p.tokens n) (p.expr n)
  | .like field _ =>
      .loosen (by decide) (.binary .like (.loosen (by decide) field.derives) (.placeholder n))
  | .registrar _ =>
      .loosen (by decide)
        (.binary .equal (.loosen (by decide) (.column "reg" "name")) (.placeholder n))
  | .and [] => .loosen (by decide) (.integer 1)
  | .and (p :: rest) => .loosen (by decide) <| .group <| .loosen (by decide) <|
      derives_joined .and (by decide) (.loosen (by decide) (derives n p)) _ rest
  | .or [] => .loosen (by decide) (.integer 0)
  | .or (p :: rest) => .loosen (by decide) <| .group <|
      derives_joined .or (by decide) (.loosen (by decide) (derives n p)) _ rest
  | .not inner => .not (.loosen (by decide) (.group (.loosen (by decide) (derives n inner))))

/-- Further terms are joined to what the operator admits on its left. -/
theorem derives_joined (op : Operator) (le : op.right ≤ .negation) {ts : List Token} {left : Expr}
    (before : Derives op.level ts left) (n : Nat) : (rest : List Predicate) →
    Derives op.level (ts ++ restTokens op n rest) (joined op left n rest)
  | [] => by simpa [restTokens, joined] using before
  | p :: rest => by
      have extended := Derives.binary op before (.loosen le (derives n p))
      simpa [restTokens, joined] using derives_joined op le extended (n + p.leafCount) rest

end

end Predicate

/-! ## The text is the words -/

namespace Clause

variable {c : Clause} {n n' : Nat} {ts ts' : List Token}

/-- The text has these words so far, newest first, and `n` placeholders; the last word may still
go on. -/
def Reads (c : Clause) (n : Nat) (ts : List Token) : Prop :=
  ∃ s, Scanner.initial.run c.sql.toList = some s ∧ s.finish = some ⟨.nothing, n, ts⟩

/-- The text has these words so far, and none of them can go on. -/
def Stands (c : Clause) (n : Nat) (ts : List Token) : Prop :=
  Scanner.initial.run c.sql.toList = some ⟨.nothing, n, ts⟩

theorem Stands.reads (h : c.Stands n ts) : c.Reads n ts := ⟨_, h, rfl⟩

theorem run_write (c : Clause) (text : String) :
    Scanner.initial.run (c.write text).sql.toList =
      (Scanner.initial.run c.sql.toList).bind (·.run text.toList) := by
  rw [write, String.toList_append, Scanner.run_append]

theorem Stands.reads_write {text : String} {s : Scanner} (h : c.Stands n ts)
    (run : Scanner.run ⟨.nothing, n, ts⟩ text.toList = some s)
    (ended : s.finish = some ⟨.nothing, n', ts'⟩) : (c.write text).Reads n' ts' :=
  ⟨s, by rw [run_write, h, Option.bind_some, run], ended⟩

theorem Stands.write {text : String} (h : c.Stands n ts)
    (run : Scanner.run ⟨.nothing, n, ts⟩ text.toList = some ⟨.nothing, n', ts'⟩) :
    (c.write text).Stands n' ts' := by
  rw [Stands, run_write, h, Option.bind_some, run]

/-- Binding writes nothing. -/
theorem Reads.bind (param : String) (h : c.Reads n ts) : (c.bind param).Reads n ts := h

/-- What starts with a separating character may be written behind a word that could go on. -/
theorem Reads.write {text : String} {ch : Char} {rest : List Char} (h : c.Reads n ts)
    (starts : text.toList = ch :: rest) (separates : ch = ' ' ∨ ch = ')')
    (run : Scanner.run ⟨.nothing, n, ts⟩ text.toList = some ⟨.nothing, n', ts'⟩) :
    (c.write text).Stands n' ts' := by
  obtain ⟨s, before, ended⟩ := h
  rw [starts] at run
  rw [Stands, run_write, before, Option.bind_some, starts,
    Scanner.run_of_finish separates ended, run]

end Clause

/-- A text that puts an operator behind a condition. -/
def Joins (text : String) (op : Operator) : Prop :=
  ∀ {c : Clause} {n : Nat} {ts : List Token},
    c.Reads n ts → (c.write text).Stands n (.operator op :: ts)

theorem joins_and : Joins " AND " .and := fun h => h.write rfl (.inl rfl) rfl

theorem joins_or : Joins " OR " .or := fun h => h.write rfl (.inl rfl) rfl

theorem closes_paren : ")".toList = [')'] := rfl

theorem Field.reads_column {c : Clause} {n : Nat} {ts : List Token} (field : Field)
    (h : c.Stands n ts) : (c.write field.column).Reads n (field.tokens.reverse ++ ts) := by
  cases field <;> exact h.reads_write rfl rfl

namespace Predicate

mutual

/-- A predicate rendered where a new word can start adds its words. -/
theorem reads_render {c : Clause} {n : Nat} {ts : List Token} : (p : Predicate) → c.Stands n ts →
    (p.render c).Reads (n + p.leafCount) ((p.tokens n).reverse ++ ts)
  | .like field pattern, h => by
      have like : ((c.write field.column).write " LIKE ?").Stands (n + 1)
          (.placeholder n :: .operator .like :: (field.tokens.reverse ++ ts)) :=
        (field.reads_column h).write rfl (.inl rfl) rfl
      simpa [tokens, render, leafCount] using like.reads.bind pattern
  | .registrar name, h => h.reads_write rfl rfl
  | .and [], h => h.reads_write rfl rfl
  | .and (p :: rest), h => by
      have opened : (c.write "(").Stands n (.openParen :: ts) := h.write rfl
      have terms := reads_renderRest joins_and rest (reads_render p opened)
      have closed := terms.write closes_paren (.inr rfl) rfl
      simpa [tokens, render, leafCount, leafCountAll, Nat.add_assoc] using closed.reads
  | .or [], h => h.reads_write rfl rfl
  | .or (p :: rest), h => by
      have opened : (c.write "(").Stands n (.openParen :: ts) := h.write rfl
      have terms := reads_renderRest joins_or rest (reads_render p opened)
      have closed := terms.write closes_paren (.inr rfl) rfl
      simpa [tokens, render, leafCount, leafCountAll, Nat.add_assoc] using closed.reads
  | .not inner, h => by
      have opened : (c.write "NOT (").Stands n (.openParen :: .not :: ts) := h.write rfl
      have closed := (reads_render inner opened).write closes_paren (.inr rfl) rfl
      simpa [tokens, render, leafCount] using closed.reads

theorem reads_renderRest {op : Operator} {text : String} (joins : Joins text op) {c : Clause}
    {n : Nat} {ts : List Token} : (rest : List Predicate) → c.Reads n ts →
    (renderRest text rest c).Reads (n + leafCountAll rest) ((restTokens op n rest).reverse ++ ts)
  | [], h => h
  | p :: rest, h => by
      have next := reads_renderRest joins rest (reads_render p (joins h))
      simpa [renderRest, restTokens, leafCountAll, Nat.add_assoc] using next

end

mutual

theorem params_render {c : Clause} : (p : Predicate) → (p.render c).params = c.params ++ p.params
  | .like _ _ => rfl
  | .registrar _ => rfl
  | .and [] => (List.append_nil _).symm
  | .and (p :: rest) => by
      simp [render, Clause.write, params, paramsAll, params_renderRest rest, params_render p]
  | .or [] => (List.append_nil _).symm
  | .or (p :: rest) => by
      simp [render, Clause.write, params, paramsAll, params_renderRest rest, params_render p]
  | .not inner => by simp [render, Clause.write, params, params_render inner]

theorem params_renderRest {op : String} {c : Clause} : (rest : List Predicate) →
    (renderRest op rest c).params = c.params ++ paramsAll rest
  | [] => (List.append_nil _).symm
  | p :: rest => by
      simp [renderRest, Clause.write, paramsAll, params_renderRest rest, params_render p]

end

/-! ## The expression has the meaning of the predicate -/

/-- An operator that works on truth values as a function does on Booleans. -/
def Computes (matches? : (pattern text : String) → Bool) (op : Operator) (f : Bool → Bool → Bool) :
    Prop :=
  ∀ a b, op.apply matches? (Truth.ofBool a).scalar (Truth.ofBool b).scalar =
    some (Truth.ofBool (f a b)).scalar

variable (matches? : (pattern text : String) → Bool) (c : Candidate)

theorem computes_and : Computes matches? .and (· && ·) := fun a b => by
  simp [Operator.apply]

theorem computes_or : Computes matches? .or (· || ·) := fun a b => by
  simp [Operator.apply]

theorem foldl_and (b : Bool) (rest : List Predicate) :
    rest.foldl (fun b p => b && p.holds matches? c) b = (b && holdsAll matches? c rest) := by
  induction rest generalizing b with
  | nil => simp [holdsAll]
  | cons p rest ih => simp [holdsAll, ih, Bool.and_assoc]

theorem foldl_or (b : Bool) (rest : List Predicate) :
    rest.foldl (fun b p => b || p.holds matches? c) b = (b || holdsAny matches? c rest) := by
  induction rest generalizing b with
  | nil => simp [holdsAny]
  | cons p rest ih => simp [holdsAny, ih, Bool.or_assoc]

/-- The texts `ps` stand among those bound, the first of them at place `n`. -/
def Binds (bound : List String) (n : Nat) (ps : List String) : Prop :=
  ∃ before after, before.length = n ∧ bound = before ++ (ps ++ after)

namespace Binds

variable {bound ps qs : List String} {n : Nat}

theorem first (h : Binds bound n (ps ++ qs)) : Binds bound n ps := by
  obtain ⟨before, after, rfl, rfl⟩ := h
  exact ⟨before, qs ++ after, rfl, by simp⟩

theorem rest (h : Binds bound n (ps ++ qs)) : Binds bound (n + ps.length) qs := by
  obtain ⟨before, after, rfl, rfl⟩ := h
  exact ⟨before ++ ps, after, by simp, by simp⟩

theorem getElem? {text : String} (h : Binds bound n [text]) : bound[n]? = some text := by
  obtain ⟨before, after, rfl, rfl⟩ := h
  simp

end Binds

mutual

/-- Wherever its texts stand, a predicate's expression has the predicate's truth value. -/
theorem eval_expr {bound : List String} {n : Nat} : (p : Predicate) → Binds bound n p.params →
    (p.expr n).eval matches? c bound = some (Truth.ofBool (p.holds matches? c)).scalar
  | .like field pattern, h => by
      simp [expr, Expr.eval, field.eval_expr, h.getElem?, Operator.apply, holds]
  | .registrar name, h => by
      simp [expr, Expr.eval, Candidate.column, h.getElem?, Operator.apply, holds]
  | .and [], _ => rfl
  | .and (p :: rest), h => by
      have further : Binds bound (n + p.leafCount) (paramsAll rest) :=
        p.length_params ▸ Binds.rest h
      rw [expr, eval_joined (computes_and matches?) rest further (eval_expr p (Binds.first h)),
        foldl_and, holds, holdsAll]
  | .or [], _ => rfl
  | .or (p :: rest), h => by
      have further : Binds bound (n + p.leafCount) (paramsAll rest) :=
        p.length_params ▸ Binds.rest h
      rw [expr, eval_joined (computes_or matches?) rest further (eval_expr p (Binds.first h)),
        foldl_or, holds, holdsAny]
  | .not inner, h => by simp [expr, Expr.eval, holds, eval_expr inner h]

/-- Joining further terms folds their truth values into that of the left side. -/
theorem eval_joined {op : Operator} {f : Bool → Bool → Bool} (computes : Computes matches? op f)
    {bound : List String} {n : Nat} {left : Expr} {b : Bool} : (rest : List Predicate) →
    Binds bound n (paramsAll rest) →
    left.eval matches? c bound = some (Truth.ofBool b).scalar →
    (joined op left n rest).eval matches? c bound =
      some (Truth.ofBool (rest.foldl (fun b p => f b (p.holds matches? c)) b)).scalar
  | [], _, before => before
  | p :: rest, h, before => by
      have further : Binds bound (n + p.leafCount) (paramsAll rest) :=
        p.length_params ▸ Binds.rest h
      have extended : (Expr.binary op left (p.expr n)).eval matches? c bound =
          some (Truth.ofBool (f b (p.holds matches? c))).scalar := by
        simp [Expr.eval, before, eval_expr p (Binds.first h), computes _ _]
      rw [joined, eval_joined computes rest further extended, List.foldl_cons]

end

/-- The words of a clause are those of its predicate. -/
theorem scan_clause (p : Predicate) :
    scan p.clause.sql = some ⟨.nothing, p.leafCount, (p.tokens 0).reverse⟩ := by
  obtain ⟨s, read, ended⟩ := reads_render p (show Clause.empty.Stands 0 [] from rfl)
  simpa [scan, clause, read] using ended

/-- The text that a predicate renders to, read with the precedence of its operators and with its
texts bound in the order of the placeholders, is true of a row or false of it as the predicate is,
and never unknown, whichever columns of the organization are null. -/
theorem truth_clause (p : Predicate) :
    p.clause.truth? matches? c = some (.ofBool (p.holds matches? c)) := by
  have parsed : parse? (p.tokens 0) = some (p.expr 0) :=
    (parse?_eq_some_iff _ _).mpr (.loosen (by decide) (p.derives 0))
  have bound : p.clause.params = p.params := by simp [clause, params_render, Clause.empty]
  have alone : Binds p.params 0 p.params := ⟨[], [], rfl, by simp⟩
  have value := eval_expr matches? c p alone
  simp [Clause.truth?, scan_clause, parsed, bound, length_params, value]

end Predicate

end NetRegistry
