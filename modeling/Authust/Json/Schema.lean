import Mathlib.Data.List.Basic

/-! # JSON schemas

The part of JSON schema that describes the shape of documents: types, enumerated texts, required
and described members, items, alternatives, and references into a table of definitions. The values
are any type that can be looked at as JSON is.
-/

namespace JsonSchema

inductive Kind : Type
  | null
  | boolean
  | number
  | string
  | array
  | object
  deriving DecidableEq

/-- What a schema may ask of a value. -/
class Json (V : Type) where
  kind : V → Kind
  /-- The text of a string. -/
  text : V → Option String
  /-- The member of an object under a key. -/
  member : V → String → Option V
  /-- The items of an array. -/
  items : V → List V

inductive Schema : Type
  | ref (name : String)
  | type (kind : Kind)
  | enum (texts : List String)
  | required (keys : List String)
  | property (key : String) (schema : Schema)
  | items (schema : Schema)
  | oneOf (alternatives : List Schema)
  | anyOf (alternatives : List Schema)
  /-- An object of keywords asks for all of them. -/
  | all (keywords : List Schema)

/-- The keyword `properties`. -/
def Schema.properties (members : List (String × Schema)) : Schema :=
  .all (members.map fun described => .property described.1 described.2)

variable {V : Type} [Json V] {refs : String → V → Bool} {value : V}

mutual

/-- A schema accepts a value; `refs` says what its references accept. -/
def accepts (refs : String → V → Bool) : Schema → V → Bool
  | .ref name, value => refs name value
  | .type kind, value => decide (Json.kind value = kind)
  | .enum texts, value => (Json.text value).any fun text => texts.contains text
  | .required keys, value =>
      decide (Json.kind value ≠ .object) || keys.all fun key => (Json.member value key).isSome
  | .property key schema, value =>
      decide (Json.kind value ≠ .object) ||
        (Json.member value key).all fun inner => accepts refs schema inner
  | .items schema, value =>
      decide (Json.kind value ≠ .array) ||
        (Json.items value).all fun item => accepts refs schema item
  | .oneOf alternatives, value => (verdicts refs alternatives value).count true = 1
  | .anyOf alternatives, value => (verdicts refs alternatives value).any id
  | .all keywords, value => (verdicts refs keywords value).all id

def verdicts (refs : String → V → Bool) : List Schema → V → List Bool
  | [], _ => []
  | schema :: rest, value => accepts refs schema value :: verdicts refs rest value

end

theorem verdicts_eq_map (schemas : List Schema) :
    verdicts refs schemas value = schemas.map fun schema => accepts refs schema value := by
  induction schemas with
  | nil => rfl
  | cons schema rest ih => rw [verdicts, ih, List.map_cons]

/-- Induction on a schema, with every member of a list of schemas. -/
@[elab_as_elim]
theorem Schema.induction {motive : Schema → Prop} (ref : ∀ name, motive (.ref name))
    (type : ∀ kind, motive (.type kind)) (enum : ∀ texts, motive (.enum texts))
    (required : ∀ keys, motive (.required keys))
    (property : ∀ key schema, motive schema → motive (.property key schema))
    (items : ∀ schema, motive schema → motive (.items schema))
    (oneOf : ∀ schemas, (∀ schema ∈ schemas, motive schema) → motive (.oneOf schemas))
    (anyOf : ∀ schemas, (∀ schema ∈ schemas, motive schema) → motive (.anyOf schemas))
    (all : ∀ schemas, (∀ schema ∈ schemas, motive schema) → motive (.all schemas))
    (schema : Schema) : motive schema :=
  @Schema.rec motive (fun schemas => ∀ schema ∈ schemas, motive schema) ref type enum required
    property items oneOf anyOf all (fun _ hmem => absurd hmem List.not_mem_nil)
    (fun _ _ hhead hrest => List.forall_mem_cons.mpr ⟨hhead, hrest⟩) schema

section Keywords

attribute [local simp] accepts

@[simp] theorem accepts_ref (name : String) :
    accepts refs (.ref name) value = refs name value := rfl

@[simp] theorem accepts_type (kind : Kind) :
    accepts refs (.type kind) value = true ↔ Json.kind value = kind := by
  simp [accepts]

@[simp] theorem accepts_enum (texts : List String) :
    accepts refs (.enum texts) value = true ↔ ∃ text ∈ texts, Json.text value = some text := by
  cases htext : Json.text value with
  | none => simp [accepts, htext]
  | some text => simp [accepts, htext, eq_comm]

theorem accepts_required (keys : List String) :
    accepts refs (.required keys) value = true ↔
      (Json.kind value = .object → ∀ key ∈ keys, (Json.member value key).isSome) := by
  simp only [accepts, Bool.or_eq_true, decide_eq_true_eq, List.all_eq_true]
  exact imp_iff_not_or.symm

theorem accepts_property (key : String) (schema : Schema) :
    accepts refs (.property key schema) value = true ↔
      (Json.kind value = .object → ∀ inner, Json.member value key = some inner →
        accepts refs schema inner = true) := by
  simp only [accepts, Bool.or_eq_true, decide_eq_true_eq, Option.all_eq_true]
  exact imp_iff_not_or.symm

theorem accepts_items (schema : Schema) :
    accepts refs (.items schema) value = true ↔
      (Json.kind value = .array → ∀ item ∈ Json.items value, accepts refs schema item = true) := by
  simp only [accepts, Bool.or_eq_true, decide_eq_true_eq, List.all_eq_true]
  exact imp_iff_not_or.symm

theorem accepts_all (keywords : List Schema) :
    accepts refs (.all keywords) value = true ↔
      ∀ keyword ∈ keywords, accepts refs keyword value = true := by
  simp [accepts, verdicts_eq_map]

theorem accepts_properties (members : List (String × Schema)) :
    accepts refs (.properties members) value = true ↔
      ∀ described ∈ members, accepts refs (.property described.1 described.2) value = true := by
  rw [Schema.properties, accepts_all, List.forall_mem_map]

theorem accepts_anyOf (alternatives : List Schema) :
    accepts refs (.anyOf alternatives) value = true ↔
      ∃ alternative ∈ alternatives, accepts refs alternative value = true := by
  simp [accepts, verdicts_eq_map]

/-- Exactly one alternative accepts. -/
theorem accepts_oneOf (alternatives : List Schema) :
    accepts refs (.oneOf alternatives) value = true ↔
      (alternatives.filter fun alternative => accepts refs alternative value).length = 1 := by
  rw [accepts, verdicts_eq_map, decide_eq_true_eq, List.count_eq_countP, List.countP_map,
    List.countP_eq_length_filter]
  simp [Function.comp_def]

end Keywords

section Tags

mutual

/-- The schema does not rule out the text. -/
def permits (text : String) : Schema → Bool
  | .enum texts => texts.contains text
  | .all keywords => permitsAll text keywords
  | _ => true

def permitsAll (text : String) : List Schema → Bool
  | [] => true
  | schema :: rest => permits text schema && permitsAll text rest

end

mutual

/-- The schema does not rule out that the member `tag` is the text. -/
def admits (tag text : String) : Schema → Bool
  | .property key schema => key != tag || permits text schema
  | .all keywords => admitsAll tag text keywords
  | _ => true

def admitsAll (tag text : String) : List Schema → Bool
  | [] => true
  | schema :: rest => admits tag text schema && admitsAll tag text rest

end

theorem permitsAll_eq_all (text : String) (schemas : List Schema) :
    permitsAll text schemas = schemas.all (permits text) := by
  induction schemas with
  | nil => rfl
  | cons schema rest ih => rw [permitsAll, ih, List.all_cons]

theorem admitsAll_eq_all (tag text : String) (schemas : List Schema) :
    admitsAll tag text schemas = schemas.all (admits tag text) := by
  induction schemas with
  | nil => rfl
  | cons schema rest ih => rw [admitsAll, ih, List.all_cons]

variable {tag text : String} {inner : V}

theorem permits_of_accepts (htext : Json.text value = some text) {schema : Schema}
    (haccepts : accepts refs schema value = true) : permits text schema = true := by
  induction schema using Schema.induction with
  | enum texts =>
      obtain ⟨found, hfound, hvalue⟩ := (accepts_enum texts).mp haccepts
      rw [htext] at hvalue
      cases hvalue
      simpa [permits] using hfound
  | all keywords ih =>
      rw [accepts_all] at haccepts
      rw [permits, permitsAll_eq_all, List.all_eq_true]
      exact fun keyword hmem => ih keyword hmem (haccepts keyword hmem)
  | _ => rfl

/-- A schema that rules out the tag of an object does not accept the object. -/
theorem admits_of_accepts (hkind : Json.kind value = .object)
    (hmember : Json.member value tag = some inner) (htext : Json.text inner = some text)
    {schema : Schema} (haccepts : accepts refs schema value = true) :
    admits tag text schema = true := by
  induction schema using Schema.induction with
  | property key schema _ =>
      by_cases hkey : key = tag
      · subst hkey
        have hinner := (accepts_property key schema).mp haccepts hkind inner hmember
        simp [admits, permits_of_accepts htext hinner]
      · simp [admits, hkey]
  | all keywords ih =>
      rw [accepts_all] at haccepts
      rw [admits, admitsAll_eq_all, List.all_eq_true]
      exact fun keyword hmem => ih keyword hmem (haccepts keyword hmem)
  | _ => rfl

/-- Of the alternatives for an object with a tag only those count that admit the tag. -/
theorem accepts_oneOf_tagged (hkind : Json.kind value = .object)
    (hmember : Json.member value tag = some inner) (htext : Json.text inner = some text)
    (alternatives : List Schema) :
    accepts refs (.oneOf alternatives) value =
      accepts refs (.oneOf (alternatives.filter (admits tag text))) value := by
  rw [Bool.eq_iff_iff, accepts_oneOf, accepts_oneOf, List.filter_filter]
  have hfilter : (alternatives.filter fun alternative => accepts refs alternative value) =
      alternatives.filter fun alternative =>
        accepts refs alternative value && admits tag text alternative := by
    apply List.filter_congr
    intro alternative _
    -- an alternative that accepts the object admits its tag
    cases haccepts : accepts refs alternative value with
    | false => rfl
    | true => rw [admits_of_accepts hkind hmember htext haccepts, Bool.true_and]
  rw [hfilter]

theorem accepts_oneOf_singleton (alternative : Schema) :
    accepts refs (.oneOf [alternative]) value = accepts refs alternative value := by
  rw [Bool.eq_iff_iff, accepts_oneOf]
  by_cases haccepts : accepts refs alternative value = true
  · simp [haccepts]
  · simp [haccepts]

/-- The one alternative that admits the tag decides. -/
theorem accepts_oneOf_of_tag (hkind : Json.kind value = .object)
    (hmember : Json.member value tag = some inner) (htext : Json.text inner = some text)
    {alternatives : List Schema} {alternative : Schema}
    (hfilter : alternatives.filter (admits tag text) = [alternative]) :
    accepts refs (.oneOf alternatives) value = accepts refs alternative value := by
  rw [accepts_oneOf_tagged hkind hmember htext, hfilter, accepts_oneOf_singleton]

theorem not_accepts_oneOf_of_tag (hkind : Json.kind value = .object)
    (hmember : Json.member value tag = some inner) (htext : Json.text inner = some text)
    {alternatives : List Schema} (hfilter : alternatives.filter (admits tag text) = []) :
    accepts refs (.oneOf alternatives) value = false := by
  rw [accepts_oneOf_tagged hkind hmember htext, hfilter]
  rfl

end Tags

section References

mutual

/-- The names that a schema refers to. -/
def Schema.references : Schema → List String
  | .ref name => [name]
  | .property _ schema | .items schema => schema.references
  | .oneOf schemas | .anyOf schemas | .all schemas => Schema.referencesAll schemas
  | _ => []

def Schema.referencesAll : List Schema → List String
  | [] => []
  | schema :: rest => schema.references ++ referencesAll rest

end

theorem Schema.mem_referencesAll {name : String} {schemas : List Schema} :
    name ∈ referencesAll schemas ↔ ∃ schema ∈ schemas, name ∈ schema.references := by
  induction schemas with
  | nil => simp [referencesAll]
  | cons schema rest ih => simp [referencesAll, ih]

variable {refs' : String → V → Bool}

theorem verdicts_congr {schemas : List Schema}
    (hschemas : ∀ schema ∈ schemas, accepts refs schema value = accepts refs' schema value) :
    verdicts refs schemas value = verdicts refs' schemas value := by
  rw [verdicts_eq_map, verdicts_eq_map]
  exact List.map_congr_left hschemas

/-- What a schema accepts depends on its own references alone. -/
theorem accepts_congr {schema : Schema} (hrefs : ∀ name ∈ schema.references, refs name = refs' name)
    (value : V) : accepts refs schema value = accepts refs' schema value := by
  induction schema using Schema.induction generalizing value with
  | ref name => exact congrFun (hrefs name List.mem_cons_self) value
  | property key schema ih =>
      simp only [accepts, ih hrefs]
  | items schema ih =>
      simp only [accepts, ih hrefs]
  | oneOf schemas ih | anyOf schemas ih | all schemas ih =>
      rw [accepts, accepts, verdicts_congr]
      intro schema hmem
      exact ih schema hmem (fun name hname => hrefs name
        (Schema.mem_referencesAll.mpr ⟨schema, hmem, hname⟩)) value
  | _ => rfl

end References

/-- A schema with the definitions that it refers to. -/
structure Document where
  root : Schema
  definitions : List (String × Schema)

namespace Document

variable (document : Document)

/-- What a reference accepts, when references are followed so many times at most. -/
def resolve : Nat → String → V → Bool
  | 0, _, _ => false
  | depth + 1, name, value =>
      (document.definitions.lookup name).any fun schema => accepts (resolve depth) schema value

/-- What a reference accepts; no chain of references is longer than the table. -/
def meaning : String → V → Bool :=
  document.resolve document.definitions.length

def valid (value : V) : Bool :=
  accepts document.meaning document.root value

/-- Every definition ranks above those it refers to, and below the number of definitions. -/
structure Grounded (rank : String → Nat) : Prop where
  refers : ∀ definition ∈ document.definitions, ∀ name ∈ definition.2.references,
    rank name < rank definition.1
  bounded : ∀ definition ∈ document.definitions, rank definition.1 < document.definitions.length

variable {document} {rank : String → Nat} {name : String}

theorem mem_of_lookup {definitions : List (String × Schema)} {schema : Schema}
    (hlookup : definitions.lookup name = some schema) : (name, schema) ∈ definitions := by
  rw [List.lookup_eq_some_iff] at hlookup
  obtain ⟨first, second, rfl, _⟩ := hlookup
  simp

/-- Following references further than the rank of their name changes nothing. -/
theorem Grounded.resolve_eq (hgrounded : document.Grounded rank) {depth depth' : Nat}
    (hdepth : rank name < depth) (hdepth' : rank name < depth') (value : V) :
    document.resolve depth name value = document.resolve depth' name value := by
  induction depth generalizing name depth' value with
  | zero => omega
  | succ depth ih =>
      cases depth' with
      | zero => omega
      | succ depth' =>
          rw [resolve, resolve]
          cases hlookup : document.definitions.lookup name with
          | none => rfl
          | some schema =>
              simp only [Option.any_some]
              apply accepts_congr
              intro later hlater
              have hrank : rank later < rank name :=
                hgrounded.refers (name, schema) (mem_of_lookup hlookup) later hlater
              funext inner
              exact ih (by omega) (by omega) inner

/-- A reference means its definition. -/
theorem Grounded.meaning_eq (hgrounded : document.Grounded rank) {schema : Schema}
    (hlookup : document.definitions.lookup name = some schema) (value : V) :
    document.meaning name value = accepts document.meaning schema value := by
  have hmem := mem_of_lookup hlookup
  have hbound := hgrounded.bounded _ hmem
  rw [meaning, hgrounded.resolve_eq hbound (Nat.lt_succ_of_lt hbound), resolve, hlookup]
  rfl

end Document

end JsonSchema
