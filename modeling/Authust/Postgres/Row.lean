import Mathlib.Algebra.Ring.Int.Defs
import Mathlib.Data.List.Sort

/-! # Tables, rows and their decoding

A row maps column names to values or null. A column that does not exist, or whose value
does not fit the type asked for, fails to decode. A statement selects the rows of a table
by the value of one column, and nothing fixes the order in which they are answered.
-/

namespace Postgres

inductive PgType : Type
  | int2
  | int4
  | bool
  | text
  | varchar (limit : Nat)
  | bpchar (length : Nat)
  | uuid
  | timestamptz
  | enum (name : String) (labels : List String)
  | enumArray (name : String) (labels : List String)
  deriving DecidableEq

inductive PgValue : Type
  | int2 (value : Int)
  | int4 (value : Int)
  | bool (value : Bool)
  | text (value : String)
  | uuid (value : BitVec 128)
  | timestamptz (value : Int)
  | enum (type label : String)
  /-- The elements of an array, each a label or null, in row-major order. -/
  | enumArray (type : String) (dimensions : Nat) (elements : List (Option String))
  deriving DecidableEq

/-- The values of a type; all kinds of text share one form. -/
def PgType.admits : PgType → PgValue → Bool
  | int2, .int2 value => -2 ^ 15 ≤ value && value < 2 ^ 15
  | int4, .int4 value => -2 ^ 31 ≤ value && value < 2 ^ 31
  | bool, .bool _ => true
  | text, .text _ => true
  | varchar limit, .text value => value.length ≤ limit
  | bpchar length, .text value => value.length = length
  | uuid, .uuid _ => true
  | timestamptz, .timestamptz _ => true
  | enum name labels, .enum type label => type = name && labels.contains label
  -- the type of an array fixes neither the number of its dimensions nor that no element is null
  | enumArray name labels, .enumArray type dimensions elements =>
      type = name && (dimensions == 0) == elements.isEmpty &&
        elements.all fun element => element.all labels.contains
  | _, _ => false

/-- The columns of a row by name; `none` is null. -/
abbrev Row := List (String × Option PgValue)

/-- Decode a value or null; `none` where it does not fit. -/
abbrev Decoder (α : Type) := Option PgValue → Option α

/-- `Row::get`; `none` where it panics. -/
def Row.get {α : Type} (row : Row) (decode : Decoder α) (column : String) : Option α :=
  (row.lookup column).bind decode

/-- The column holds an array of one dimension at most, with no null among its elements. -/
def Row.Flat (row : Row) (column : String) : Prop :=
  ∃ (type : String) (dimensions : Nat) (labels : List String),
    row.lookup column = some (some (.enumArray type dimensions (labels.map some))) ∧ dimensions ≤ 1

/-- `select columns`; what the row does not have is null. -/
def Row.project (columns : List String) (row : Row) : Row :=
  columns.map fun column => (column, (row.lookup column).join)

/-- Why a datum is not loaded: a column does not decode, or a statement fails. -/
inductive LoadFailure : Type
  | panicked
  | database
  deriving DecidableEq

/-- `Row::get`, with its panic as a failure. -/
def Row.load {α : Type} (row : Row) (decode : Decoder α) (column : String) : Except LoadFailure α :=
  match row.get decode column with
  | some value => .ok value
  | none => .error .panicked

namespace Decoder

def int2 : Decoder Int
  | some (.int2 value) => some value
  | _ => none

def int4 : Decoder Int
  | some (.int4 value) => some value
  | _ => none

def bool : Decoder Bool
  | some (.bool value) => some value
  | _ => none

def text : Decoder String
  | some (.text value) => some value
  | _ => none

def uuid : Decoder (BitVec 128)
  | some (.uuid value) => some value
  | _ => none

/-- A variant of an enumeration by its label. -/
def enum {α : Type} (name : String) (variant : String → Option α) : Decoder α
  | some (.enum type label) => if type = name then variant label else none
  | _ => none

/-- `Vec<T>`: neither a second dimension nor a null is accepted. -/
def enumArray {α : Type} (name : String) (variant : String → Option α) : Decoder (List α)
  | some (.enumArray type dimensions elements) =>
      if type = name ∧ dimensions ≤ 1 then elements.mapM fun element => element.bind variant
      else none
  | _ => none

/-- `Option<T>`: null is accepted. -/
def nullable {α : Type} (decode : Decoder α) : Decoder (Option α)
  | none => some none
  | value => (decode value).map some

end Decoder

structure Column where
  name : String
  type : PgType
  notNull : Bool
  check : PgValue → Bool

namespace Column

def required (name : String) (type : PgType) : Column where
  name := name
  type := type
  notNull := true
  check := fun _ => true

def nullable (name : String) (type : PgType) : Column where
  name := name
  type := type
  notNull := false
  check := fun _ => true

/-- `not null check (name = lower(name))` -/
def lower (name : String) (type : PgType) : Column where
  name := name
  type := type
  notNull := true
  check := fun
    | .text value => value.toLower = value
    | _ => false

end Column

def Column.admits (column : Column) : Option PgValue → Bool
  | none => !column.notNull
  | some value => column.type.admits value && column.check value

/-- A foreign key: the values of `column` are among those of `key` in `table`. -/
structure Reference where
  column : String
  table : String
  key : String

structure Table where
  name : String
  columns : List Column
  unique : List (List String)
  references : List Reference

structure Table.Admits (table : Table) (row : Row) : Prop where
  columns : row.map Prod.fst = table.columns.map Column.name
  cells : ∀ column ∈ table.columns, (row.lookup column.name).any column.admits = true

instance (table : Table) (row : Row) : Decidable (table.Admits row) :=
  decidable_of_iff (row.map Prod.fst = table.columns.map Column.name ∧
      ∀ column ∈ table.columns, (row.lookup column.name).any column.admits = true)
    ⟨fun ⟨hcolumns, hcells⟩ => ⟨hcolumns, hcells⟩, fun ⟨hcolumns, hcells⟩ => ⟨hcolumns, hcells⟩⟩

/-- The rows of each table. -/
abbrev Database := String → List Row

/-- Two rows agree on columns that are not null. -/
def Row.Agree (columns : List String) (first second : Row) : Prop :=
  ∀ column ∈ columns, (first.lookup column).join.isSome ∧ first.lookup column = second.lookup column

instance (columns : List String) (first second : Row) :
    Decidable (Row.Agree columns first second) :=
  List.decidableBAll (fun column =>
    (first.lookup column).join.isSome ∧ first.lookup column = second.lookup column) columns

structure Database.Satisfies (db : Database) (schema : List Table) : Prop where
  rows : ∀ table ∈ schema, ∀ row ∈ db table.name, table.Admits row
  unique : ∀ table ∈ schema, ∀ columns ∈ table.unique,
    (db table.name).Pairwise fun first second => ¬ Row.Agree columns first second
  references : ∀ table ∈ schema, ∀ reference ∈ table.references, ∀ row ∈ db table.name,
    (row.lookup reference.column).join.all (fun value =>
      (db reference.table).any fun target => target.lookup reference.key = some (some value)) = true

instance (db : Database) (schema : List Table) : Decidable (db.Satisfies schema) :=
  decidable_of_iff
    ((∀ table ∈ schema, ∀ row ∈ db table.name, table.Admits row) ∧
      (∀ table ∈ schema, ∀ columns ∈ table.unique,
        (db table.name).Pairwise fun first second => ¬ Row.Agree columns first second) ∧
      ∀ table ∈ schema, ∀ reference ∈ table.references, ∀ row ∈ db table.name,
        (row.lookup reference.column).join.all (fun value =>
          (db reference.table).any fun target =>
            target.lookup reference.key = some (some value)) = true)
    ⟨fun ⟨hrows, hunique, hreferences⟩ => ⟨hrows, hunique, hreferences⟩,
      fun ⟨hrows, hunique, hreferences⟩ => ⟨hrows, hunique, hreferences⟩⟩

/-- `select * from table where column = $1`. -/
structure Select where
  table : String
  column : String

def Database.select (db : Database) (statement : Select) (value : PgValue) : List Row :=
  (db statement.table).filter fun row => row.lookup statement.column = some (some value)

/-- How a connection answers the statements that are sent over it. -/
abbrev Client := Select → PgValue → List Row

/-- The answers are the selected rows, in some order. -/
def Client.Serves (client : Client) (db : Database) : Prop :=
  ∀ statement value, (client statement value).Perm (db.select statement value)

/-- `query_one`: exactly one row has to be answered. -/
def Client.queryOne (client : Client) (statement : Select) (value : PgValue) :
    Except LoadFailure Row :=
  match client statement value with
  | [row] => .ok row
  | _ => .error .database

/-- `query_opt`: more than one row is an error. -/
def Client.queryOpt (client : Client) (statement : Select) (value : PgValue) :
    Except LoadFailure (Option Row) :=
  match client statement value with
  | [] => .ok none
  | [row] => .ok (some row)
  | _ => .error .database

/-- A connection that answers rows in the order of the table. -/
def Database.client (db : Database) : Client := db.select

theorem Database.client_serves (db : Database) : db.client.Serves db :=
  fun _ _ => .refl _

section Loops

/-- A loop over the rows succeeds when each of them decodes. -/
theorem mapM_eq_some_iff {α β : Type} {decode : α → Option β} {rows : List α} {results : List β} :
    rows.mapM decode = some results ↔
      List.Forall₂ (fun row result => decode row = some result) rows results := by
  induction rows generalizing results with
  | nil => simp [eq_comm]
  | cons row rest ih =>
      simp only [List.mapM_cons, Option.bind_eq_bind, Option.bind_eq_some_iff, Option.pure_def,
        Option.some.injEq, List.forall₂_cons_left_iff]
      constructor
      · rintro ⟨result, hresult, tail, htail, rfl⟩
        exact ⟨result, tail, hresult, ih.mp htail, rfl⟩
      · rintro ⟨result, tail, hresult, htail, rfl⟩
        exact ⟨result, hresult, tail, ih.mpr htail, rfl⟩

theorem eq_filterMap_of_mapM {α β : Type} {decode : α → Option β} {rows : List α} {results : List β}
    (hdecoded : rows.mapM decode = some results) : results = rows.filterMap decode := by
  rw [mapM_eq_some_iff] at hdecoded
  induction hdecoded with
  | nil => rfl
  | cons hrow _ ih => rw [List.filterMap_cons_some hrow, ← ih]

theorem exists_mapM_eq_some_iff {α β : Type} {decode : α → Option β} {rows : List α} :
    (∃ results, rows.mapM decode = some results) ↔
      ∀ row ∈ rows, ∃ result, decode row = some result := by
  induction rows with
  | nil => simp
  | cons row rest ih =>
      rw [List.forall_mem_cons, ← ih]
      simp only [mapM_eq_some_iff, List.forall₂_cons_left_iff]
      constructor
      · rintro ⟨_, result, tail, hresult, htail, rfl⟩
        exact ⟨⟨result, hresult⟩, tail, htail⟩
      · rintro ⟨⟨result, hresult⟩, tail, htail⟩
        exact ⟨_, result, tail, hresult, htail, rfl⟩

end Loops

section Admits

variable {table : Table} {row : Row} {α : Type} {decode : Decoder α}

/-- What a table does not have cannot be got. -/
theorem Table.Admits.get_eq_none (hadmits : table.Admits row) {column : String}
    (hcolumn : column ∉ table.columns.map Column.name) : row.get decode column = none := by
  have hlookup : row.lookup column = none := by
    rw [List.lookup_eq_none_iff]
    intro cell hcell
    rw [bne_iff_ne]
    rintro rfl
    rw [← hadmits.columns] at hcolumn
    exact hcolumn (List.mem_map_of_mem hcell)
  simp [Row.get, hlookup]

/-- A column holds a value that it admits. -/
theorem Table.Admits.cell (hadmits : table.Admits row) {column : Column}
    (hcolumn : column ∈ table.columns) :
    ∃ cell, row.lookup column.name = some cell ∧ column.admits cell = true := by
  have hany := hadmits.cells column hcolumn
  cases hlookup : row.lookup column.name with
  | none => simp [hlookup] at hany
  | some cell => exact ⟨cell, rfl, by simpa [hlookup] using hany⟩

variable {name : String} {check : PgValue → Bool}

/-- A column that is not null holds a value of its type. -/
theorem Table.Admits.value (hadmits : table.Admits row) {type : PgType}
    (hcolumn : ⟨name, type, true, check⟩ ∈ table.columns) :
    ∃ value, row.lookup name = some (some value) ∧ type.admits value = true := by
  obtain ⟨cell, hlookup, hcell⟩ := hadmits.cell hcolumn
  cases cell with
  | none => cases hcell
  | some value => exact ⟨value, hlookup, (Bool.and_eq_true_iff.mp hcell).1⟩

theorem Table.Admits.int4 (hadmits : table.Admits row)
    (hcolumn : ⟨name, .int4, true, check⟩ ∈ table.columns) :
    ∃ value, row.lookup name = some (some (.int4 value)) ∧ row.get .int4 name = some value := by
  obtain ⟨value, hlookup, hvalue⟩ := hadmits.value hcolumn
  cases value with
  | int4 value => exact ⟨value, hlookup, by simp [Row.get, hlookup, Decoder.int4]⟩
  | _ => cases hvalue

theorem Table.Admits.int2 (hadmits : table.Admits row)
    (hcolumn : ⟨name, .int2, true, check⟩ ∈ table.columns) :
    ∃ value, row.lookup name = some (some (.int2 value)) ∧ row.get .int2 name = some value := by
  obtain ⟨value, hlookup, hvalue⟩ := hadmits.value hcolumn
  cases value with
  | int2 value => exact ⟨value, hlookup, by simp [Row.get, hlookup, Decoder.int2]⟩
  | _ => cases hvalue

theorem Table.Admits.bool (hadmits : table.Admits row)
    (hcolumn : ⟨name, .bool, true, check⟩ ∈ table.columns) :
    ∃ value, row.lookup name = some (some (.bool value)) ∧ row.get .bool name = some value := by
  obtain ⟨value, hlookup, hvalue⟩ := hadmits.value hcolumn
  cases value with
  | bool value => exact ⟨value, hlookup, by simp [Row.get, hlookup, Decoder.bool]⟩
  | _ => cases hvalue

theorem Table.Admits.varchar (hadmits : table.Admits row) {limit : Nat}
    (hcolumn : ⟨name, .varchar limit, true, check⟩ ∈ table.columns) :
    ∃ value, row.lookup name = some (some (.text value)) ∧ row.get .text name = some value := by
  obtain ⟨value, hlookup, hvalue⟩ := hadmits.value hcolumn
  cases value with
  | text value => exact ⟨value, hlookup, by simp [Row.get, hlookup, Decoder.text]⟩
  | _ => cases hvalue

/-- An enumeration decodes when each of its labels names a variant. -/
theorem Table.Admits.enum (hadmits : table.Admits row) {type : String} {labels : List String}
    (hcolumn : ⟨name, .enum type labels, true, check⟩ ∈ table.columns)
    {variant : String → Option α} (hlabels : ∀ label ∈ labels, (variant label).isSome = true) :
    ∃ label result, row.lookup name = some (some (.enum type label)) ∧
      variant label = some result ∧ row.get (.enum type variant) name = some result := by
  obtain ⟨value, hlookup, hvalue⟩ := hadmits.value hcolumn
  cases value with
  | enum found label =>
      simp only [PgType.admits, Bool.and_eq_true, decide_eq_true_eq,
        List.contains_iff_mem] at hvalue
      obtain ⟨rfl, hlabel⟩ := hvalue
      obtain ⟨result, hresult⟩ := Option.isSome_iff_exists.mp (hlabels label hlabel)
      exact ⟨label, result, hlookup, hresult, by simp [Row.get, hlookup, Decoder.enum, hresult]⟩
  | _ => cases hvalue

/-- The elements that decode are labels. -/
theorem labels_of_forall₂ {variant : String → Option α} {elements : List (Option String)}
    {results : List α}
    (helements : List.Forall₂ (fun element result => element.bind variant = some result)
      elements results) :
    ∃ labels, elements = labels.map some ∧
      List.Forall₂ (fun label result => variant label = some result) labels results := by
  induction helements with
  | nil => exact ⟨[], rfl, .nil⟩
  | cons hresult _ ih =>
      obtain ⟨label, rfl, hlabel⟩ := Option.bind_eq_some_iff.mp hresult
      obtain ⟨labels, rfl, hlabels⟩ := ih
      exact ⟨label :: labels, rfl, .cons hlabel hlabels⟩

/-- An array decodes when it is flat and each of its labels names a variant. -/
theorem Row.get_enumArray_eq_some_iff {type column : String} {variant : String → Option α}
    {results : List α} :
    row.get (.enumArray type variant) column = some results ↔ ∃ dimensions labels,
      row.lookup column = some (some (.enumArray type dimensions (labels.map some))) ∧
        dimensions ≤ 1 ∧
          List.Forall₂ (fun label result => variant label = some result) labels results := by
  constructor
  · intro hget
    obtain ⟨cell, hlookup, hcell⟩ := Option.bind_eq_some_iff.mp hget
    unfold Decoder.enumArray at hcell
    split at hcell
    next dimensions elements =>
      split at hcell
      next hflat =>
        obtain ⟨rfl, hdimensions⟩ := hflat
        obtain ⟨labels, rfl, hlabels⟩ := labels_of_forall₂ (mapM_eq_some_iff.mp hcell)
        exact ⟨dimensions, labels, hlookup, hdimensions, hlabels⟩
      next => cases hcell
    next => cases hcell
  · rintro ⟨dimensions, labels, hlookup, hdimensions, hlabels⟩
    rw [Row.get, hlookup, Option.bind_some, Decoder.enumArray, if_pos ⟨rfl, hdimensions⟩,
      mapM_eq_some_iff, List.forall₂_map_left_iff]
    exact hlabels

/-- A flat array of labels that all name variants decodes. -/
theorem Table.Admits.enumArray (hadmits : table.Admits row) {type : String} {labels : List String}
    (hcolumn : ⟨name, .enumArray type labels, true, check⟩ ∈ table.columns)
    {variant : String → Option α} (hlabels : ∀ label ∈ labels, (variant label).isSome = true)
    (hflat : row.Flat name) : ∃ results, row.get (.enumArray type variant) name = some results := by
  obtain ⟨value, hlookup, hvalue⟩ := hadmits.value hcolumn
  obtain ⟨found, dimensions, values, hfound, hdimensions⟩ := hflat
  rw [hfound] at hlookup
  cases hlookup
  simp only [PgType.admits, Bool.and_eq_true, decide_eq_true_eq, List.all_map, List.all_eq_true,
    Function.comp_apply, Option.all_some, List.contains_iff_mem] at hvalue
  obtain ⟨⟨rfl, _⟩, hvalues⟩ := hvalue
  have hvariants : ∀ value ∈ values, ∃ result, variant value = some result :=
    fun value hmem => Option.isSome_iff_exists.mp (hlabels value (hvalues value hmem))
  obtain ⟨results, hresults⟩ := exists_mapM_eq_some_iff.mpr hvariants
  exact ⟨results, Row.get_enumArray_eq_some_iff.mpr
    ⟨dimensions, values, hfound, hdimensions, mapM_eq_some_iff.mp hresults⟩⟩

/-- A column that may be null holds null or a value of its type. -/
theorem Table.Admits.nullableInt4 (hadmits : table.Admits row)
    (hcolumn : ⟨name, .int4, false, check⟩ ∈ table.columns) :
    ∃ value : Option Int, row.lookup name = some (value.map .int4) ∧
      row.get (.nullable .int4) name = some value := by
  obtain ⟨cell, hlookup, hcell⟩ := hadmits.cell hcolumn
  cases cell with
  | none => exact ⟨none, hlookup, by simp [Row.get, hlookup, Decoder.nullable]⟩
  | some value =>
      have hvalue : PgType.int4.admits value = true := (Bool.and_eq_true_iff.mp hcell).1
      cases value with
      | int4 value =>
          exact ⟨some value, hlookup, by simp [Row.get, hlookup, Decoder.nullable, Decoder.int4]⟩
      | _ => cases hvalue

end Admits

section Answers

variable {db : Database} {client : Client} {statement : Select} {value : PgValue}

theorem Client.Serves.mem (hserves : client.Serves db) {row : Row} :
    row ∈ client statement value ↔ row ∈ db.select statement value :=
  (hserves statement value).mem_iff

theorem Client.Serves.eq_nil (hserves : client.Serves db) :
    client statement value = [] ↔ db.select statement value = [] := by
  rw [← List.length_eq_zero_iff, ← List.length_eq_zero_iff, (hserves statement value).length_eq]

theorem Database.mem_of_mem_select {row : Row} (hrow : row ∈ db.select statement value) :
    row ∈ db statement.table :=
  List.mem_of_mem_filter hrow

theorem Database.lookup_of_mem_select {row : Row} (hrow : row ∈ db.select statement value) :
    row.lookup statement.column = some (some value) :=
  of_decide_eq_true (List.mem_filter.mp hrow).2

theorem Client.mem_of_queryOpt {row : Row}
    (hquery : client.queryOpt statement value = .ok (some row)) : row ∈ client statement value := by
  unfold Client.queryOpt at hquery
  split at hquery
  next => cases hquery
  next hrows =>
    cases hquery
    simp [hrows]
  next => cases hquery

theorem Client.mem_of_queryOne {row : Row} (hquery : client.queryOne statement value = .ok row) :
    row ∈ client statement value := by
  unfold Client.queryOne at hquery
  split at hquery
  next hrows =>
    cases hquery
    simp [hrows]
  next => cases hquery

/-- What is loaded decodes. -/
theorem Row.load_eq_ok_iff {α : Type} {row : Row} {decode : Decoder α} {column : String}
    {result : α} : row.load decode column = .ok result ↔ row.get decode column = some result := by
  unfold Row.load
  cases row.get decode column <;> simp

theorem Row.get_int4_eq_some_iff {row : Row} {column : String} {result : Int} :
    row.get .int4 column = some result ↔ row.lookup column = some (some (.int4 result)) := by
  constructor
  · intro hget
    obtain ⟨cell, hlookup, hcell⟩ := Option.bind_eq_some_iff.mp hget
    unfold Decoder.int4 at hcell
    split at hcell
    · cases hcell
      exact hlookup
    · cases hcell
  · intro hlookup
    simp [Row.get, hlookup, Decoder.int4]

theorem Row.get_text_eq_some_iff {row : Row} {column : String} {result : String} :
    row.get .text column = some result ↔ row.lookup column = some (some (.text result)) := by
  constructor
  · intro hget
    obtain ⟨cell, hlookup, hcell⟩ := Option.bind_eq_some_iff.mp hget
    unfold Decoder.text at hcell
    split at hcell
    · cases hcell
      exact hlookup
    · cases hcell
  · intro hlookup
    simp [Row.get, hlookup, Decoder.text]

/-- At most one row holds a value of a unique column. -/
theorem Database.Satisfies.select_eq {schema : List Table} (hdb : db.Satisfies schema)
    {table : Table} (htable : table ∈ schema) {column : String} (hunique : [column] ∈ table.unique)
    {row : Row} (hrow : row ∈ db table.name)
    (hlookup : row.lookup column = some (some value)) :
    db.select ⟨table.name, column⟩ value = [row] := by
  have hselected : row ∈ db.select ⟨table.name, column⟩ value :=
    List.mem_filter.mpr ⟨hrow, decide_eq_true hlookup⟩
  have hdistinct : (db.select ⟨table.name, column⟩ value).Pairwise
      fun first second => ¬ Row.Agree [column] first second :=
    (hdb.unique table htable [column] hunique).sublist List.filter_sublist
  cases hrows : db.select ⟨table.name, column⟩ value with
  | nil =>
      rw [hrows] at hselected
      cases hselected
  | cons first rest =>
      cases rest with
      | nil =>
          rw [hrows] at hselected
          rw [List.mem_singleton.mp hselected]
      | cons second rest =>
          exfalso
          have hfirst := lookup_of_mem_select (hrows ▸ List.mem_cons_self)
          have hsecond := lookup_of_mem_select (hrows ▸ List.mem_cons_of_mem _ List.mem_cons_self)
          rw [hrows] at hdistinct
          refine (List.pairwise_cons.mp hdistinct).1 second List.mem_cons_self ?_
          simp [Row.Agree, hfirst, hsecond]

theorem Database.Satisfies.row_unique {schema : List Table} (hdb : db.Satisfies schema)
    {table : Table} (htable : table ∈ schema) {column : String} (hunique : [column] ∈ table.unique)
    {first second : Row} (hfirst : first ∈ db table.name)
    (hlookup : first.lookup column = some (some value))
    (hsecond : second ∈ db table.name) (hlookup' : second.lookup column = some (some value)) :
    first = second := by
  have hmem : second ∈ db.select ⟨table.name, column⟩ value :=
    List.mem_filter.mpr ⟨hsecond, decide_eq_true hlookup'⟩
  rw [hdb.select_eq htable hunique hfirst hlookup] at hmem
  exact (List.mem_singleton.mp hmem).symm

theorem Client.Serves.queryOne_eq (hserves : client.Serves db) {row : Row}
    (hselect : db.select statement value = [row]) : client.queryOne statement value = .ok row := by
  have hanswer := hserves statement value
  rw [hselect] at hanswer
  rw [queryOne, List.perm_singleton.mp hanswer]

theorem Client.Serves.queryOpt_eq (hserves : client.Serves db) {row : Row}
    (hselect : db.select statement value = [row]) :
    client.queryOpt statement value = .ok (some row) := by
  have hanswer := hserves statement value
  rw [hselect] at hanswer
  rw [queryOpt, List.perm_singleton.mp hanswer]

theorem Client.Serves.queryOpt_eq_none (hserves : client.Serves db)
    (hselect : db.select statement value = []) : client.queryOpt statement value = .ok none := by
  rw [queryOpt, hserves.eq_nil.mpr hselect]

end Answers

end Postgres
