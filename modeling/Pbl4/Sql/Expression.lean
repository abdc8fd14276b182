/-
This file defines the values a PostgreSQL row holds and the conditions a
`CHECK` constraint or a partial index puts on a row. A condition is evaluated
in three-valued logic: a comparison with `NULL` is unknown, and `AND` / `OR`
follow Kleene's tables. A `CHECK` passes unless it evaluates to false, while a
partial index covers a row only when its predicate evaluates to true; the two
readings of "unknown" differ, so both are spelled out here.
-/

import Mathlib.Data.List.Basic

namespace Sql

/-! ### Values and rows -/

/-- A column value. Documents, timestamps and doubles are carried as opaque payloads:
no constraint looks inside them. -/
inductive Value where
  | null
  | text (value : String)
  | integer (value : Int)
  | boolean (value : Bool)
  | double (bits : BitVec 64)
  | timestamp (microseconds : Int)
  | document (source : String)
  | uuid (value : BitVec 128)
  deriving DecidableEq, Repr

/-- A row gives the value of every column; the columns a table does not declare are never
read. -/
abbrev Row := String → Value

/-- The row with the listed values, and `NULL` in every other column. -/
def Row.of (values : List (String × Value)) : Row := fun column =>
  (values.lookup column).getD .null

/-- The column types the schema declares. -/
inductive ColumnType where
  | text
  | char (length : Nat)
  | integer
  | bigInteger
  | double
  | boolean
  | timestamp
  | jsonb
  | uuid
  deriving DecidableEq, Repr

/-- A value may be stored in a column of the given type. `NULL` fits every type; whether a
column takes it is the business of `NOT NULL`. -/
def Value.conforms : Value → ColumnType → Bool
  | .null, _ => true
  | .text _, .text => true
  | .text value, .char length => value.length ≤ length
  | .integer value, .integer => -2147483648 ≤ value ∧ value ≤ 2147483647
  | .integer value, .bigInteger =>
      -9223372036854775808 ≤ value ∧ value ≤ 9223372036854775807
  | .boolean _, .boolean => true
  | .double _, .double => true
  | .timestamp _, .timestamp => true
  | .document _, .jsonb => true
  | .uuid _, .uuid => true
  | _, _ => false

/-! ### Three-valued conditions -/

/-- `AND` of Kleene's logic; `none` is unknown. -/
def kleeneAnd : Option Bool → Option Bool → Option Bool
  | some false, _ => some false
  | _, some false => some false
  | some true, some true => some true
  | _, _ => none

/-- `OR` of Kleene's logic; `none` is unknown. -/
def kleeneOr : Option Bool → Option Bool → Option Bool
  | some true, _ => some true
  | _, some true => some true
  | some false, some false => some false
  | _, _ => none

/-- A test of a value, unknown on `NULL`. -/
def unlessNull (value : Value) (test : Value → Bool) : Option Bool :=
  if value = .null then none else some (test value)

@[simp]
theorem kleeneAnd_some (left right : Bool) :
    kleeneAnd (some left) (some right) = some (left && right) := by
  cases left <;> cases right <;> rfl

theorem kleeneAnd_eq_true {left right : Option Bool} :
    kleeneAnd left right = some true ↔ left = some true ∧ right = some true := by
  rcases left with _ | _ | _ <;> rcases right with _ | _ | _ <;> simp [kleeneAnd]

@[simp]
theorem kleeneOr_some (left right : Bool) :
    kleeneOr (some left) (some right) = some (left || right) := by
  cases left <;> cases right <;> rfl

@[simp]
theorem unlessNull_text (text : String) (test : Value → Bool) :
    unlessNull (.text text) test = some (test (.text text)) := rfl

/-- The conditions on one row that `CHECK` constraints and partial indexes use. -/
inductive Condition where
  | isNull (column : String)
  | isNotNull (column : String)
  | equals (column : String) (text : String)
  | differs (column : String) (text : String)
  | isIn (column : String) (texts : List String)
  | isNotIn (column : String) (texts : List String)
  | exceeds (column : String) (bound : Int)
  | and (left right : Condition)
  | or (left right : Condition)
  deriving DecidableEq, Repr

/-- The truth value of a condition on a row. -/
def Condition.eval (row : Row) : Condition → Option Bool
  | .isNull column => some (row column = .null)
  | .isNotNull column => some (row column ≠ .null)
  | .equals column text => unlessNull (row column) fun value => value = .text text
  | .differs column text => unlessNull (row column) fun value => value ≠ .text text
  | .isIn column texts =>
      unlessNull (row column) fun value => texts.any fun text => value = .text text
  | .isNotIn column texts =>
      unlessNull (row column) fun value => texts.all fun text => value ≠ .text text
  | .exceeds column bound =>
      unlessNull (row column) fun value =>
        match value with
        | .integer number => bound < number
        | _ => false
  | .and left right => kleeneAnd (left.eval row) (right.eval row)
  | .or left right => kleeneOr (left.eval row) (right.eval row)

/-- The columns a condition reads. -/
def Condition.columns : Condition → List String
  | .isNull column | .isNotNull column | .equals column _ | .differs column _
  | .isIn column _ | .isNotIn column _ | .exceeds column _ => [column]
  | .and left right | .or left right => left.columns ++ right.columns

/-- The columns a condition compares with something: only there `NULL` makes it unknown. -/
def Condition.compared : Condition → List String
  | .isNull _ | .isNotNull _ => []
  | .equals column _ | .differs column _ | .isIn column _ | .isNotIn column _
  | .exceeds column _ => [column]
  | .and left right | .or left right => left.compared ++ right.compared

/-- A `CHECK` passes unless its condition is false. -/
def Condition.Passes (condition : Condition) (row : Row) : Prop :=
  condition.eval row ≠ some false

/-- A partial index covers the rows on which its predicate is true. -/
def Condition.Selects (condition : Condition) (row : Row) : Prop :=
  condition.eval row = some true

instance (condition : Condition) (row : Row) : Decidable (condition.Passes row) :=
  inferInstanceAs (Decidable (_ ≠ _))

instance (condition : Condition) (row : Row) : Decidable (condition.Selects row) :=
  inferInstanceAs (Decidable (_ = _))

/-- A passing `IN` check on a non-null column bounds the column to the listed texts. -/
theorem Condition.isIn_of_passes {column : String} {texts : List String} {row : Row}
    (present : row column ≠ .null) (passes : (Condition.isIn column texts).Passes row) :
    ∃ text ∈ texts, row column = .text text := by
  simp only [Passes, eval, unlessNull, if_neg present, ne_eq, Option.some.injEq,
    Bool.not_eq_false, List.any_eq_true, decide_eq_true_eq] at passes
  exact passes

/-- A condition is decided on a row without nulls in the columns it compares. -/
theorem Condition.exists_eval {condition : Condition} {row : Row}
    (present : ∀ column ∈ condition.compared, row column ≠ .null) :
    ∃ value, condition.eval row = some value := by
  induction condition with
  | isNull column => exact ⟨_, rfl⟩
  | isNotNull column => exact ⟨_, rfl⟩
  | equals column text => exact ⟨_, if_neg (present column (List.mem_singleton.mpr rfl))⟩
  | differs column text => exact ⟨_, if_neg (present column (List.mem_singleton.mpr rfl))⟩
  | isIn column texts => exact ⟨_, if_neg (present column (List.mem_singleton.mpr rfl))⟩
  | isNotIn column texts => exact ⟨_, if_neg (present column (List.mem_singleton.mpr rfl))⟩
  | exceeds column bound => exact ⟨_, if_neg (present column (List.mem_singleton.mpr rfl))⟩
  | and left right leftDecided rightDecided =>
    obtain ⟨first, same⟩ := leftDecided fun column member =>
      present column (List.mem_append_left _ member)
    obtain ⟨second, other⟩ := rightDecided fun column member =>
      present column (List.mem_append_right _ member)
    exact ⟨first && second, by rw [eval, same, other, kleeneAnd_some]⟩
  | or left right leftDecided rightDecided =>
    obtain ⟨first, same⟩ := leftDecided fun column member =>
      present column (List.mem_append_left _ member)
    obtain ⟨second, other⟩ := rightDecided fun column member =>
      present column (List.mem_append_right _ member)
    exact ⟨first || second, by rw [eval, same, other, kleeneOr_some]⟩

theorem Condition.isIn_selects {column : String} {texts : List String} {row : Row} :
    (Condition.isIn column texts).Selects row ↔ ∃ text ∈ texts, row column = .text text := by
  simp only [Selects, eval, unlessNull]
  split
  · rename_i null
    simp [null]
  · simp

theorem Condition.isNotIn_selects {column : String} {texts : List String} {row : Row} :
    (Condition.isNotIn column texts).Selects row ↔
      row column ≠ .null ∧ ∀ text ∈ texts, row column ≠ .text text := by
  simp only [Selects, eval, unlessNull]
  split
  · rename_i null
    simp [null]
  · rename_i present
    simp [present]

end Sql
