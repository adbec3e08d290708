import Mathlib
import DbfAnonymizer.Policy

/-! The typed logical values of the public reader and writer, and the records that carry them. -/
namespace DbfAnonymizer

def logicalMinOrdinal : ℤ := 1
def logicalMaxOrdinal : ℤ := 3652059

/-- A calendar date, by its proleptic Gregorian ordinal. -/
structure CalendarDay where
  ordinal : ℤ
  low : logicalMinOrdinal ≤ ordinal
  high : ordinal ≤ logicalMaxOrdinal
  deriving DecidableEq, Repr

/-- A logical field value; a finite decimal or float payload is its exact number. -/
inductive Value
  | null
  | text (value : Text)
  | int (value : ℤ)
  | bool (value : Bool)
  | number (value : ℚ)
  | infinity (negative : Bool)
  | nan
  | binary (value : List UInt8)
  | date (day : CalendarDay)
  | datetime (day : CalendarDay) (timeOfDay : ℕ)
  deriving DecidableEq, Repr

namespace Value

/-- The number behind a value, where Python compares it as one. -/
def number? : Value → Option ℚ
  | .int value => some value
  | .bool value => some (if value then 1 else 0)
  | .number value => some value
  | _ => none

/-- Python's `==`: numbers compare by value across their types, a NaN equals nothing, and everything else compares by
type and content. -/
def pyEq (a b : Value) : Bool :=
  match a.number?, b.number? with
  | some x, some y => x = y
  | none, none => a ≠ .nan ∧ a = b
  | _, _ => false

@[simp] theorem pyEq_self (a : Value) : a.pyEq a = true ↔ a ≠ .nan := by
  cases a <;> simp [pyEq, number?]

@[simp] theorem pyEq_self_eq_false (a : Value) : a.pyEq a = false ↔ a = .nan := by
  rw [← Bool.not_eq_true, pyEq_self, not_not]

@[simp] theorem pyEq_null_right (a : Value) : a.pyEq .null = true ↔ a = .null := by
  cases a <;> simp [pyEq, number?]

@[simp] theorem pyEq_text_right (a : Value) (t : Text) : a.pyEq (.text t) = true ↔ a = .text t := by
  cases a <;> simp [pyEq, number?]

/-- NULL and the empty text are kept as they are and never mapped. -/
def isNullOrEmpty (value : Value) : Bool := value = .null ∨ value = .text []

end Value

/-- The values of a record by field name; a name the record lacks reads as `null`. -/
abbrev Values := Text → Value

structure DirectRecord where
  physicalIndex : ℕ
  deleted : Bool
  values : Values

/-- One of the record's application values is a NaN, which is not equal to itself. -/
def DirectRecord.HoldsNan (schema : TableSchema) (record : DirectRecord) : Prop :=
  ∃ field ∈ schema.applicationFields, record.values field.name = .nan

theorem DirectRecord.holdsNan_congr {schema schema' : TableSchema} {record : DirectRecord}
    (h : schema'.applicationFields.map FieldInfo.name = schema.applicationFields.map FieldInfo.name) :
    record.HoldsNan schema' ↔ record.HoldsNan schema := by
  have hnames : ∀ s : TableSchema, record.HoldsNan s ↔
      ∃ name ∈ s.applicationFields.map FieldInfo.name, record.values name = .nan := by
    intro s
    simp [DirectRecord.HoldsNan]
  rw [hnames, hnames, h]

/-- A table as the public reader presents it: its schema and its record stream. -/
structure StoredTable where
  schema : TableSchema
  records : List DirectRecord

def StoredTable.HoldsNan (stored : StoredTable) : Prop :=
  ∃ record ∈ stored.records, record.HoldsNan stored.schema

/-- The values of a projected read: only the requested names are filled in. -/
def Values.project (values : Values) (fields : Option (List Text)) : Values :=
  match fields with
  | none => values
  | some names => fun name => if name ∈ names then values name else .null

theorem Values.project_some {values : Values} {names : List Text} {name : Text} (h : name ∈ names) :
    values.project (some names) name = values name := if_pos h

end DbfAnonymizer
