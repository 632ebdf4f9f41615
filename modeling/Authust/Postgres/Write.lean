import Authust.Postgres.Row

/-! # Statements that write

A row that is inserted gets its uid from a sequence and null where no value is given. Text that is
too long for its column is cut where only spaces are lost, and refused otherwise.
-/

namespace Postgres

/-- `varchar(n)`: what exceeds the limit is cut if it is spaces. -/
def cutSpaces (limit : Nat) (text : String) : String :=
  if (text.toList.drop limit).all (· = ' ') then String.ofList (text.toList.take limit) else text

/-- A value as a column of the type stores it. -/
def PgType.assigned : PgType → PgValue → PgValue
  | varchar limit, .text value => .text (cutSpaces limit value)
  | _, value => value

/-- The row that `insert into table(..) values (..)` adds, with the next value of the sequence. -/
def Table.newRow (table : Table) (serial : Int) (values : List (String × PgValue)) : Row :=
  table.columns.map fun column => (column.name,
    match values.lookup column.name with
    | some value => some (column.type.assigned value)
    | none => if column.name = "uid" then some (.int4 serial) else none)

def Row.set (row : Row) (column : String) (value : PgValue) : Row :=
  row.map fun cell => if cell.1 = column then (column, some value) else cell

namespace Database

def insert (db : Database) (table : String) (row : Row) : Database := fun name =>
  if name = table then db name ++ [row] else db name

/-- `update table set column = $1 where uid = $2` -/
def update (db : Database) (table column : String) (value : PgValue) (uid : Int) : Database :=
  fun name =>
    if name = table then
      (db name).map fun row =>
        if row.lookup "uid" = some (some (.int4 uid)) then row.set column value else row
    else db name

end Database

section Writes

variable {db : Database} {table column : String} {row : Row} {value : PgValue} {uid : Int}

@[simp] theorem insert_self : db.insert table row table = db table ++ [row] := if_pos rfl

theorem insert_of_ne {name : String} (hne : name ≠ table) : db.insert table row name = db name :=
  if_neg hne

theorem update_of_ne {name : String} (hne : name ≠ table) :
    db.update table column value uid name = db name :=
  if_neg hne

/-- Of the rows in a table none has a key that a row can be added with. -/
theorem Database.Satisfies.fresh {schema : List Table} {table : Table}
    (hinserted : (db.insert table.name row).Satisfies schema) (htable : table ∈ schema)
    {column : String} (hunique : [column] ∈ table.unique)
    (hrow : row.lookup column = some (some value)) :
    ∀ other ∈ db table.name, other.lookup column ≠ some (some value) := by
  intro other hother hlookup
  have hdistinct := hinserted.unique table htable [column] hunique
  rw [insert_self, List.pairwise_append] at hdistinct
  refine hdistinct.2.2 other hother row (.head _) ?_
  simp [Row.Agree, hlookup, hrow]

/-- An update of a row that has just been inserted. -/
theorem update_insert (hrow : row.lookup "uid" = some (some (.int4 uid)))
    (hfresh : ∀ other ∈ db table, other.lookup "uid" ≠ some (some (.int4 uid))) :
    (db.insert table row).update table column value uid =
      db.insert table (row.set column value) := by
  funext name
  by_cases hname : name = table
  · subst hname
    have hothers : ∀ other ∈ db name, (if other.lookup "uid" = some (some (.int4 uid)) then
        other.set column value else other) = other :=
      fun other hother => if_neg (hfresh other hother)
    rw [Database.update, if_pos rfl, insert_self, insert_self, List.map_append,
      List.map_congr_left hothers, List.map_id', List.map_singleton, if_pos hrow]
  · rw [update_of_ne hname, insert_of_ne hname, insert_of_ne hname]

theorem insert_comm {other : String} {otherRow : Row} (hne : table ≠ other) :
    (db.insert table row).insert other otherRow = (db.insert other otherRow).insert table row := by
  funext name
  unfold Database.insert
  split
  next hname =>
    subst hname
    rw [if_neg (Ne.symm hne), if_neg (Ne.symm hne)]
  next => rfl

end Writes

end Postgres
