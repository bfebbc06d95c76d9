import MetalOrm.Native.ValueKey

/-!
# OpenAPI schemas

`OpenApiSchema` of `metal/openapi.hpp`, and of `metal/openapi_components.hpp` the fingerprints of
schemas, the replacement of schemas by references, and the names of components.

A schema owns what its pointers point at, so a copy is the schema itself. The properties of a
schema are a hash map, whose order nothing depends on: they are kept in the order of their keys, in
which the fingerprint visits them. How the standard library prints a `double` is a parameter.
-/

namespace MetalOrm.Native.OpenApi

open ForStd (decimal)

/-- The bytes of a `std::string`. -/
abbrev Text := List UInt8

/-- `OpenApiType`. -/
inductive OpenApiType where
  | string | number | integer | boolean | array | object | nullValue
deriving DecidableEq

/-- `static_cast<int>(type)`. -/
def OpenApiType.toNat : OpenApiType → Nat
  | string => 0
  | number => 1
  | integer => 2
  | boolean => 3
  | array => 4
  | object => 5
  | nullValue => 6

mutual

/-- `OpenApiSchema`. -/
structure OpenApiSchema where
  types : List OpenApiType := []
  properties : List Property := []
  items : Option OpenApiSchema := none
  required : List Text := []
  enumValues : List Value := []
  format : Option Text := none
  description : Option Text := none
  sample : Option Value := none
  nullable : Bool := false
  minimum : Option UInt64 := none
  maximum : Option UInt64 := none
  defaultValue : Option Value := none
  ref : Option Text := none
  allOf : List OpenApiSchema := []
  oneOf : List OpenApiSchema := []

/-- An entry of the properties. -/
structure Property where
  key : Text
  schema : OpenApiSchema

end

/-! ## Fingerprints -/

/-- The texts of a `double`: `std::to_string`, and a stream with a precision of 17. -/
structure DoubleText where
  toString : UInt64 → Text
  precise : UInt64 → Text

/-- An ASCII text of the source. -/
def lit (text : String) : Text := ByteString.ascii text

/-- `openapi_value_fingerprint`. -/
def valueFingerprint (text : DoubleText) : Value → Text
  | .null => lit "null"
  | .bool b => lit (if b then "true" else "false")
  | .int64 v => lit "i:" ++ int64Text v
  | .double bits => lit "d:" ++ text.precise bits
  | .blob b => lit "b:" ++ decimal b.size ++ lit ":" ++ hexText b.bytes
  | .string s => lit "s:" ++ decimal s.size ++ lit ":" ++ s.bytes

/-- A part of a fingerprint that is there for a member that is set. -/
def optionalPart {α : Type} (name : String) (text : α → Text) : Option α → Text
  | none => []
  | some a => lit name ++ lit "(" ++ text a ++ lit ")"

/-- The part of `append_schema_fingerprint` up to the properties. -/
def scalarFingerprint (text : DoubleText) (schema : OpenApiSchema) (descriptive : Bool) : Text :=
  lit "types[" ++ schema.types.flatMap (fun type => decimal type.toNat ++ lit ",") ++ lit "]" ++
    optionalPart "format" id schema.format ++
    lit (if schema.nullable then "nullable(1)" else "nullable(0)") ++
    optionalPart "min" text.toString schema.minimum ++
    optionalPart "max" text.toString schema.maximum ++
    optionalPart "default" (valueFingerprint text) schema.defaultValue ++
    (if descriptive then optionalPart "description" id schema.description else []) ++
    (if descriptive then optionalPart "example" (valueFingerprint text) schema.sample else []) ++
    lit "required[" ++ schema.required.flatMap (fun item => item ++ lit ",") ++
    lit "]enum[" ++ schema.enumValues.flatMap (fun item => valueFingerprint text item ++ lit ",") ++
    lit "]"

mutual

/-- `append_schema_fingerprint`. -/
def schemaFingerprint (text : DoubleText) (descriptive : Bool) : OpenApiSchema → Text
  | schema@{ properties, items, ref, allOf, oneOf, .. } =>
    match ref with
    | some ref => lit "ref(" ++ ref ++ lit ")"
    | none =>
      scalarFingerprint text schema descriptive ++
        lit "properties\x7b" ++ propertiesFingerprint text descriptive properties ++ lit "\x7d" ++
        itemsFingerprint text descriptive items ++
        lit "allOf[" ++ schemasFingerprint text descriptive allOf ++
        lit "]oneOf[" ++ schemasFingerprint text descriptive oneOf ++ lit "]"

/-- The loop over the keys. -/
def propertiesFingerprint (text : DoubleText) (descriptive : Bool) : List Property → Text
  | [] => []
  | { key, schema } :: properties =>
    key ++ lit ":" ++ schemaFingerprint text descriptive schema ++ lit ";" ++
      propertiesFingerprint text descriptive properties

/-- The part for the items. -/
def itemsFingerprint (text : DoubleText) (descriptive : Bool) : Option OpenApiSchema → Text
  | none => []
  | some schema => lit "items(" ++ schemaFingerprint text descriptive schema ++ lit ")"

/-- The loops over `all_of` and `one_of`. -/
def schemasFingerprint (text : DoubleText) (descriptive : Bool) : List OpenApiSchema → Text
  | [] => []
  | schema :: schemas =>
    schemaFingerprint text descriptive schema ++ lit ";" ++
      schemasFingerprint text descriptive schemas

end

/-! ## References -/

/-- `OpenApiSchemaMap`, in the order in which iterating over it visits the components. -/
structure SchemaMap where
  components : List (Text × OpenApiSchema)
  nodup : (components.map Prod.fst).Nodup

/-- The first component with the fingerprint. -/
def findComponent (text : DoubleText) (map : SchemaMap) (exact : Text) :
    Option (Text × OpenApiSchema) :=
  map.components.find? fun component => schemaFingerprint text true component.2 = exact

/-- A reference to a component. -/
def refTo (path name : Text) : OpenApiSchema :=
  { ref := some (lit "#/" ++ path ++ lit "/" ++ name) }

mutual

/-- `replace_with_refs`. -/
def replaceWithRefs (text : DoubleText) (map : SchemaMap) (path : Text) :
    OpenApiSchema → OpenApiSchema
  | schema@{ properties, items, ref, allOf, oneOf, .. } =>
    if ref.isSome then schema
    else match findComponent text map (schemaFingerprint text true schema) with
      | some (name, _) => refTo path name
      | none =>
        { schema with
          properties := replaceProperties text map path properties
          items := replaceItems text map path items
          allOf := replaceSchemas text map path allOf
          oneOf := replaceSchemas text map path oneOf }

/-- The loop over the properties. -/
def replaceProperties (text : DoubleText) (map : SchemaMap) (path : Text) :
    List Property → List Property
  | [] => []
  | { key, schema } :: properties =>
    { key, schema := replaceWithRefs text map path schema } ::
      replaceProperties text map path properties

/-- The items. -/
def replaceItems (text : DoubleText) (map : SchemaMap) (path : Text) :
    Option OpenApiSchema → Option OpenApiSchema
  | none => none
  | some schema => some (replaceWithRefs text map path schema)

/-- The loops over `all_of` and `one_of`. -/
def replaceSchemas (text : DoubleText) (map : SchemaMap) (path : Text) :
    List OpenApiSchema → List OpenApiSchema
  | [] => []
  | schema :: schemas =>
    replaceWithRefs text map path schema :: replaceSchemas text map path schemas

end

/-! ## Names -/

/-- `std::isalnum(c) || c == '_'`, in the locale "C". -/
def isNameByte (c : UInt8) : Bool :=
  48 ≤ c && c ≤ 57 || 65 ≤ c && c ≤ 90 || 97 ≤ c && c ≤ 122 || c == 95

/-- `normalized_component_name`. -/
def normalizedComponentName (base : Text) : Text := base.filter isNameByte

/-- `canonicalize_schema`. -/
def canonicalizeSchema (text : DoubleText) (schema : OpenApiSchema) : Text :=
  schemaFingerprint text false schema

/-- The loop of `compute_schema_hash`, in 32 bits. -/
def rollingHash (canonical : Text) : UInt32 :=
  canonical.foldl (fun hash c => hash * 31 + c.toUInt32) 0

/-- The magnitude of a hash as an `int32_t`. -/
def hashMagnitude (hash : UInt32) : UInt32 := if hash.toInt32 < 0 then 0 - hash else hash

/-- `compute_schema_hash` of a canonical form: the first six of eight hexadecimal digits. -/
def canonicalHash (canonical : Text) : Text :=
  let magnitude := hashMagnitude (rollingHash canonical)
  (List.range 6).map fun i => hexDigit ((magnitude >>> (28 - 4 * i.toUInt32)) &&& 0xf).toUInt8

/-- `compute_schema_hash`. -/
def computeSchemaHash (text : DoubleText) (schema : OpenApiSchema) : Text :=
  canonicalHash (canonicalizeSchema text schema)

/-- `DeterministicNamingState`. -/
structure DeterministicNamingState where
  contentHashToName : AList fun _ : Text => Text
  nameToContentHash : AList fun _ : Text => Text

/-- `create_deterministic_naming_state`. -/
def createDeterministicNamingState : DeterministicNamingState := ⟨∅, ∅⟩

/-- `emplace` keeps an entry that is there. -/
def emplace (key value : Text) (map : AList fun _ : Text => Text) : AList fun _ : Text => Text :=
  if (map.lookup key).isSome then map else map.insert key value

/-- The base name that a call looks up. -/
def baseOrSchema (base : Text) : Text :=
  let normalized := normalizedComponentName base
  if normalized.isEmpty then lit "Schema" else normalized

/-- `get_deterministic_component_name`, given the hash of the schema. -/
def componentName (base hash : Text) (state : DeterministicNamingState) :
    Text × DeterministicNamingState :=
  let normalized := baseOrSchema base
  match state.contentHashToName.lookup hash with
  | some name => (name, state)
  | none =>
    match state.nameToContentHash.lookup normalized with
    | none => (normalized, {
        contentHashToName := emplace hash normalized state.contentHashToName
        nameToContentHash := emplace normalized hash state.nameToContentHash })
    | some found =>
      if found = hash then (normalized, state)
      else
        let unique := normalized ++ lit "_" ++ hash
        (unique, {
          contentHashToName := emplace hash unique state.contentHashToName
          nameToContentHash := emplace unique hash state.nameToContentHash })

/-- `get_deterministic_component_name`. -/
def getDeterministicComponentName (text : DoubleText) (base : Text) (schema : OpenApiSchema)
    (state : DeterministicNamingState) : Text × DeterministicNamingState :=
  componentName base (computeSchemaHash text schema) state

end MetalOrm.Native.OpenApi
