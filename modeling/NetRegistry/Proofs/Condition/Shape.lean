/-
# Proofs.Condition.Shape -- the text of a condition is fixed by its shape

A `Shape` is a predicate without its strings: how its terms are nested, and the
field that each pattern match looks at.  Whatever a string holds, quotes and
operators included, it is bound and never written.

* `eq_of_shape_of_params`: a shape leaves out the strings and nothing else.
* `sql_render`: what rendering appends is the text `Shape.sql` of the shape.
* `placeholders_sql`: that text has one placeholder for each leaf, and none in
  the name of a column.
* **`render_appends`**: predicates of one shape have one text appended, whatever
  the clauses held, and the strings bound are those of the leaves, from left to
  right, as many as the text has placeholders.
-/
import NetRegistry.Proofs.Condition.Rendered

namespace NetRegistry

set_option autoImplicit false

open Condition

/-- Number of question marks in a text. -/
def placeholders (sql : String) : Nat := sql.toList.count '?'

@[simp] theorem placeholders_append (s t : String) :
    placeholders (s ++ t) = placeholders s + placeholders t := by
  simp [placeholders]

theorem Field.placeholders_column (field : Field) : placeholders field.column = 0 := by
  cases field <;> decide

namespace Predicate

/-- A predicate without its strings. -/
inductive Shape where
  | like (field : Field)
  | registrar
  | and (terms : List Shape)
  | or (terms : List Shape)
  | not (inner : Shape)

namespace Shape

mutual

/-- The text of a condition of the shape. -/
def sql : Shape → String
  | .like field => field.column ++ " LIKE ?"
  | .registrar => "reg.name = ?"
  | .and [] => "1"
  | .and (s :: rest) => "(" ++ s.sql ++ restSql " AND " rest ++ ")"
  | .or [] => "0"
  | .or (s :: rest) => "(" ++ s.sql ++ restSql " OR " rest ++ ")"
  | .not inner => "NOT (" ++ inner.sql ++ ")"

/-- The text of further terms, each behind the operator. -/
def restSql (op : String) : List Shape → String
  | [] => ""
  | s :: rest => op ++ s.sql ++ restSql op rest

end

end Shape

mutual

def shape : Predicate → Shape
  | .like field _ => .like field
  | .registrar _ => .registrar
  | .and terms => .and (shapeAll terms)
  | .or terms => .or (shapeAll terms)
  | .not inner => .not inner.shape

def shapeAll : List Predicate → List Shape
  | [] => []
  | p :: rest => p.shape :: shapeAll rest

end

/-! ## The text -/

mutual

/-- What is appended does not depend on the strings, nor on what was written before. -/
theorem sql_render {c : Clause} : (p : Predicate) → (p.render c).sql = c.sql ++ p.shape.sql
  | .like field pattern => by
      simp [render, Clause.write, Clause.bind, shape, Shape.sql, String.append_assoc]
  | .registrar name => rfl
  | .and [] => rfl
  | .and (p :: rest) => by
      simp [render, Clause.write, shape, shapeAll, Shape.sql, sql_renderRest rest, sql_render p,
        String.append_assoc]
  | .or [] => rfl
  | .or (p :: rest) => by
      simp [render, Clause.write, shape, shapeAll, Shape.sql, sql_renderRest rest, sql_render p,
        String.append_assoc]
  | .not inner => by
      simp [render, Clause.write, shape, Shape.sql, sql_render inner, String.append_assoc]

theorem sql_renderRest {op : String} {c : Clause} : (rest : List Predicate) →
    (renderRest op rest c).sql = c.sql ++ Shape.restSql op (shapeAll rest)
  | [] => (String.append_empty).symm
  | p :: rest => by
      simp [renderRest, Clause.write, shapeAll, Shape.restSql, sql_renderRest rest, sql_render p,
        String.append_assoc]

end

theorem placeholders_group (s t : String) :
    placeholders ("(" ++ s ++ t ++ ")") = placeholders s + placeholders t := by
  have opening : placeholders "(" = 0 := by decide
  have closing : placeholders ")" = 0 := by decide
  simp [opening, closing]

mutual

theorem placeholders_sql : (p : Predicate) → placeholders p.shape.sql = p.leafCount
  | .like field _ => by
      have mark : placeholders " LIKE ?" = 1 := by decide
      simp [shape, Shape.sql, leafCount, field.placeholders_column, mark]
  | .registrar _ => (by decide : placeholders "reg.name = ?" = 1)
  | .and [] => by decide
  | .and (p :: rest) => by
      have operator : placeholders " AND " = 0 := by decide
      rw [shape, shapeAll, Shape.sql, placeholders_group, placeholders_sql p,
        placeholders_restSql operator rest, leafCount, leafCountAll]
  | .or [] => by decide
  | .or (p :: rest) => by
      have operator : placeholders " OR " = 0 := by decide
      rw [shape, shapeAll, Shape.sql, placeholders_group, placeholders_sql p,
        placeholders_restSql operator rest, leafCount, leafCountAll]
  | .not inner => by
      have opening : placeholders "NOT (" = 0 := by decide
      have closing : placeholders ")" = 0 := by decide
      simp [shape, Shape.sql, leafCount, opening, closing, placeholders_sql inner]

theorem placeholders_restSql {op : String} (bare : placeholders op = 0) :
    (rest : List Predicate) → placeholders (Shape.restSql op (shapeAll rest)) = leafCountAll rest
  | [] => rfl
  | p :: rest => by
      simp [shapeAll, Shape.restSql, leafCountAll, bare, placeholders_sql p,
        placeholders_restSql bare rest]

end

theorem leafCount_eq_of_shape {p q : Predicate} (same : p.shape = q.shape) :
    p.leafCount = q.leafCount := by
  rw [← placeholders_sql, ← placeholders_sql, same]

/-! ## What the shape leaves out -/

mutual

/-- A predicate is its shape and its strings. -/
theorem eq_of_shape_of_params : (p q : Predicate) → p.shape = q.shape → p.params = q.params → p = q
  | .like field pattern, q, same, texts => by
      cases q with
      | like field' pattern' =>
        obtain rfl : field = field' := Shape.like.inj same
        rw [(List.cons.inj texts).1]
      | registrar | and | or | not => simp [shape] at same
  | .registrar name, q, same, texts => by
      cases q with
      | registrar name' => rw [(List.cons.inj texts).1]
      | like | and | or | not => simp [shape] at same
  | .and terms, q, same, texts => by
      cases q with
      | and terms' =>
        rw [eqAll_of_shape_of_params terms terms' (Shape.and.inj same) texts]
      | like | registrar | or | not => simp [shape] at same
  | .or terms, q, same, texts => by
      cases q with
      | or terms' =>
        rw [eqAll_of_shape_of_params terms terms' (Shape.or.inj same) texts]
      | like | registrar | and | not => simp [shape] at same
  | .not inner, q, same, texts => by
      cases q with
      | not inner' =>
        rw [eq_of_shape_of_params inner inner' (Shape.not.inj same) texts]
      | like | registrar | and | or => simp [shape] at same

theorem eqAll_of_shape_of_params : (ps qs : List Predicate) → shapeAll ps = shapeAll qs →
    paramsAll ps = paramsAll qs → ps = qs
  | [], qs, same, _ => by
      cases qs with
      | nil => rfl
      | cons q rest => simp [shapeAll] at same
  | p :: ps, qs, same, texts => by
      cases qs with
      | nil => simp [shapeAll] at same
      | cons q qs =>
        obtain ⟨first, later⟩ := List.cons.inj same
        -- Equal shapes have equally many strings, which is where the lists of strings part.
        have many : p.params.length = q.params.length := by
          rw [length_params, length_params, leafCount_eq_of_shape first]
        obtain ⟨texts, textsLater⟩ := List.append_inj texts many
        rw [eq_of_shape_of_params p q first texts, eqAll_of_shape_of_params ps qs later textsLater]

end

/-! ## Rendering -/

/-- The strings of a predicate are bound and never written.  All predicates of one shape have the
same text appended, whatever was written before, and the strings that are bound behind those bound
before are those of the leaves, from left to right; there are as many as leaves, as question marks
in the text, and as placeholders when the text is read. -/
theorem render_appends (p : Predicate) :
    ∃ text : String,
      (∀ (q : Predicate) (c : Clause), q.shape = p.shape → (q.render c).sql = c.sql ++ text) ∧
      (∀ c : Clause, (p.render c).params = c.params ++ p.params) ∧
      p.params.length = p.leafCount ∧
      placeholders text = p.leafCount ∧
      ∃ s, scan text = some s ∧ s.marks = p.leafCount := by
  refine ⟨p.shape.sql, ?_, fun c => params_render p, length_params p, placeholders_sql p, ?_⟩
  · intro q c same
    rw [sql_render, same]
  · have alone : p.clause.sql = p.shape.sql := by
      rw [clause, sql_render, Clause.empty, String.empty_append]
    rw [← alone]
    exact ⟨_, scan_clause p, rfl⟩

/-- Two predicates of one shape, the second with strings that look like parts of a condition. -/
def plain : Predicate := .or [.like .netname "A-%", .not (.registrar "RIPE")]
def hostile : Predicate := .or [.like .netname "' OR 1 = 1 --", .not (.registrar "?")]

theorem render_appends_hostile :
    (hostile.render ⟨"SELECT ?", ["x"]⟩).sql = "SELECT ?" ++ (plain.render .empty).sql := by
  obtain ⟨text, appended, -⟩ := render_appends plain
  have first : (plain.render .empty).sql = "" ++ text := appended plain .empty rfl
  have second : (hostile.render ⟨"SELECT ?", ["x"]⟩).sql = "SELECT ?" ++ text :=
    appended hostile _ rfl
  rw [first, second, String.empty_append]

end Predicate

end NetRegistry
