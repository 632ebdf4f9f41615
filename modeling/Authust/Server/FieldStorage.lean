import Mathlib.Data.List.Induction

/-! # Typed fields of an execution

`FieldStorage` keeps values of any type under names and hands them out again by name and
type. A type stands as its `TypeId`, with the family of the values of each type.
-/

namespace Authust

section FieldStorage

variable {TypeId : Type} [DecidableEq TypeId] (Value : TypeId → Type)

/-- A `Box<dyn Any + Send + Sync>`: a value with its type. -/
structure AnyValue where
  typeId : TypeId
  value : Value typeId

variable {Value}

/-- `<dyn Any>::downcast_ref`, which looks at the value in the box. -/
def AnyValue.downcastRef (T : TypeId) (entry : AnyValue Value) : Option (Value T) :=
  if hsame : entry.typeId = T then some (hsame ▸ entry.value) else none

inductive FieldStorageError : Type
  | wrongType
  deriving DecidableEq

variable (Value) in
structure FieldStorage where
  fields : Std.HashMap String (AnyValue Value)

structure FieldKey (T : TypeId) where
  name : String

namespace FieldStorage

def new : FieldStorage Value where
  fields := ∅

/-- `entry.type_id()` where `entry` is a `&Box<dyn Any + Send + Sync>`: the receiver fits as it
is, since the box is itself `Any`, so it is the type of the box and not of what is in it. -/
def entryTypeId (boxedAny : TypeId) (_entry : AnyValue Value) : TypeId := boxedAny

/-- `none` is the panic of `expect`. -/
def getDynamic (boxedAny T : TypeId) (fieldName : String) (storage : FieldStorage Value) :
    Option (Except FieldStorageError (Option (Value T))) :=
  match storage.fields[fieldName]? with
  | some entry =>
      if entryTypeId boxedAny entry ≠ T then some (.error .wrongType)
      else (entry.downcastRef T).map fun value => .ok (some value)
  | none => some (.ok none)

def getTyped (boxedAny : TypeId) {T : TypeId} (key : FieldKey T) (storage : FieldStorage Value) :
    Option (Except FieldStorageError (Option (Value T))) :=
  storage.getDynamic boxedAny T key.name

def insertDynamic {T : TypeId} (name : String) (value : Value T) (storage : FieldStorage Value) :
    FieldStorage Value where
  fields := storage.fields.insert name ⟨T, value⟩

def insertTyped {T : TypeId} (key : FieldKey T) (value : Value T) (storage : FieldStorage Value) :
    FieldStorage Value :=
  storage.insertDynamic key.name value

end FieldStorage

variable (Value) in
inductive FieldOp : Type
  | insertDynamic (name : String) (T : TypeId) (value : Value T)
  | insertTyped (T : TypeId) (key : FieldKey T) (value : Value T)

namespace FieldOp

def name : FieldOp Value → String
  | insertDynamic name _ _ => name
  | insertTyped _ key _ => key.name

def value : FieldOp Value → AnyValue Value
  | insertDynamic _ T value => ⟨T, value⟩
  | insertTyped T _ value => ⟨T, value⟩

def apply (storage : FieldStorage Value) : FieldOp Value → FieldStorage Value
  | insertDynamic name _ value => storage.insertDynamic name value
  | insertTyped _ key value => storage.insertTyped key value

def run (ops : List (FieldOp Value)) : FieldStorage Value := ops.foldl apply .new

/-- The value that was inserted last under the name. -/
def lastInserted (fieldName : String) (ops : List (FieldOp Value)) : Option (AnyValue Value) :=
  ((ops.filter fun op => op.name = fieldName).map value).getLast?

end FieldOp

/-- What a typed map answers for a name under which the value was inserted last. -/
def fieldLaw (T : TypeId) : Option (AnyValue Value) → Except FieldStorageError (Option (Value T))
  | none => .ok none
  | some entry =>
      match entry.downcastRef T with
      | some value => .ok (some value)
      | none => .error .wrongType

open FieldOp

variable {boxedAny T : TypeId} {fieldName : String} {ops : List (FieldOp Value)}
  {op : FieldOp Value}

omit [DecidableEq TypeId] in
theorem lastInserted_snoc : lastInserted fieldName (ops ++ [op]) =
    if op.name = fieldName then some op.value else lastInserted fieldName ops := by
  unfold lastInserted
  by_cases hname : op.name = fieldName <;> simp [hname]

omit [DecidableEq TypeId] in
theorem fields_apply {storage : FieldStorage Value} :
    (op.apply storage).fields[fieldName]? =
      if op.name = fieldName then some op.value else storage.fields[fieldName]? := by
  have hfields : (op.apply storage).fields = storage.fields.insert op.name op.value := by
    cases op <;> rfl
  rw [hfields, Std.HashMap.getElem?_insert]
  by_cases hname : op.name = fieldName <;> simp [hname]

omit [DecidableEq TypeId] in
/-- The storage holds under each name what was inserted last. -/
theorem fields_run : (run ops).fields[fieldName]? = lastInserted fieldName ops := by
  induction ops using List.reverseRecOn with
  | nil => simp [run, FieldStorage.new, lastInserted]
  | append_singleton ops op ih =>
      have hrun : run (ops ++ [op]) = op.apply (run ops) := by simp [run]
      rw [hrun, fields_apply, lastInserted_snoc, ih]

theorem downcastRef_of_eq {entry : AnyValue Value} (hsame : entry.typeId = T) :
    ∃ value, entry.downcastRef T = some value :=
  ⟨_, dif_pos hsame⟩

theorem downcastRef_of_ne {entry : AnyValue Value} (hother : entry.typeId ≠ T) :
    entry.downcastRef T = none :=
  dif_neg hother

/-- A value is handed out as the law says exactly where its type is not the one it is asked for,
or where it is a box itself and is asked for as one. -/
theorem getDynamic_eq_law_iff {storage : FieldStorage Value} :
    storage.getDynamic boxedAny T fieldName = some (fieldLaw T storage.fields[fieldName]?) ↔
      ∀ entry, storage.fields[fieldName]? = some entry →
        (T = boxedAny → entry.typeId = boxedAny) ∧ (T ≠ boxedAny → entry.typeId ≠ T) := by
  unfold FieldStorage.getDynamic fieldLaw
  cases hentry : storage.fields[fieldName]? with
  | none => simp
  | some entry =>
      simp only [FieldStorage.entryTypeId, Option.some.injEq, forall_eq']
      by_cases hbox : T = boxedAny
      · subst hbox
        by_cases hsame : entry.typeId = T
        · obtain ⟨value, hvalue⟩ := downcastRef_of_eq hsame
          simp [hvalue, hsame]
        · simp [downcastRef_of_ne hsame, hsame]
      · by_cases hsame : entry.typeId = T
        · obtain ⟨value, hvalue⟩ := downcastRef_of_eq hsame
          simp [hvalue, hbox, Ne.symm hbox, hsame]
        · simp [downcastRef_of_ne hsame, hbox, Ne.symm hbox, hsame]

/-- The storage obeys the map laws for a name and a type exactly where nothing was inserted under
the name, or the type is neither that of boxes nor that of the last value, or both are that of
boxes. Other names never matter. -/
theorem fieldStorage_lawful_iff :
    ((run ops).getDynamic boxedAny T fieldName = some (fieldLaw T (lastInserted fieldName ops)) ∧
        (∀ key : FieldKey T, key.name = fieldName →
          (run ops).getTyped boxedAny key = some (fieldLaw T (lastInserted fieldName ops))) ∧
        ∀ op : FieldOp Value, op.name ≠ fieldName →
          (run (ops ++ [op])).getDynamic boxedAny T fieldName =
            (run ops).getDynamic boxedAny T fieldName) ↔
      ∀ entry, lastInserted fieldName ops = some entry →
        (T = boxedAny → entry.typeId = boxedAny) ∧ (T ≠ boxedAny → entry.typeId ≠ T) := by
  have hlaw := @getDynamic_eq_law_iff _ _ Value boxedAny T fieldName (run ops)
  rw [fields_run] at hlaw
  constructor
  · exact fun hlawful => hlaw.mp hlawful.1
  · intro hcondition
    refine ⟨hlaw.mpr hcondition, ?_, ?_⟩
    · rintro key rfl
      exact hlaw.mpr hcondition
    · intro op hname
      simp only [FieldStorage.getDynamic, fields_run, lastInserted_snoc, if_neg hname]

end FieldStorage

section FieldSamples

/-- The types of the samples. -/
inductive SampleTypeId : Type
  | i32
  | string
  | boxedAny
  deriving DecidableEq

def SampleTypeId.Value : SampleTypeId → Type
  | i32 => Int
  | string => String
  | boxedAny => Int ⊕ String

/-- A number that was inserted is of the wrong type as a number, and a panic as a box. -/
theorem number_not_handed_out :
    (FieldOp.run [.insertDynamic "attempts" .i32 (3 : Int)] :
        FieldStorage SampleTypeId.Value).getDynamic .boxedAny .i32 "attempts" =
      some (.error .wrongType) ∧
    (FieldOp.run [.insertDynamic "attempts" .i32 (3 : Int)] :
        FieldStorage SampleTypeId.Value).getDynamic .boxedAny .boxedAny "attempts" = none := by
  simp only [FieldStorage.getDynamic, fields_run]
  exact ⟨rfl, rfl⟩

end FieldSamples

end Authust
