import MetalOrm.Native.OpenApiSchema

/-!
# Schemas with references in place of components

A schema is replaced by a reference where its fingerprint is that of a component. Whether it is the
component is another matter, since texts go into a fingerprint as they are.

## Key results

- `replaced_iff`: when only components are replaced
- `expand_of_replaced`: references that are expanded give the schema back
- `references_preserve_iff`: both together
-/

namespace MetalOrm.Native.OpenApi

/-! ## What replacing is for -/

variable (map : SchemaMap) (path : Text)

mutual

/-- The second schema is the first one with its outermost components replaced by references to
    them. -/
inductive Replaced : OpenApiSchema → OpenApiSchema → Prop
  | component {name : Text} {schema : OpenApiSchema} (ref : schema.ref = none)
      (mem : (name, schema) ∈ map.components) : Replaced schema (refTo path name)
  | reference {schema : OpenApiSchema} (ref : schema.ref.isSome) : Replaced schema schema
  | node {schema : OpenApiSchema} {properties : List Property} {items : Option OpenApiSchema}
      {allOf oneOf : List OpenApiSchema} (ref : schema.ref = none)
      (other : ∀ component ∈ map.components, component.2 ≠ schema)
      (properties_replaced : ReplacedProperties schema.properties properties)
      (items_replaced : ReplacedItems schema.items items)
      (allOf_replaced : ReplacedSchemas schema.allOf allOf)
      (oneOf_replaced : ReplacedSchemas schema.oneOf oneOf) :
      Replaced schema { schema with properties, items, allOf, oneOf }

/-- The properties, each replaced. -/
inductive ReplacedProperties : List Property → List Property → Prop
  | nil : ReplacedProperties [] []
  | cons {key : Text} {schema out : OpenApiSchema} {properties outs : List Property}
      (head : Replaced schema out) (tail : ReplacedProperties properties outs) :
      ReplacedProperties (⟨key, schema⟩ :: properties) (⟨key, out⟩ :: outs)

/-- The items, replaced. -/
inductive ReplacedItems : Option OpenApiSchema → Option OpenApiSchema → Prop
  | none : ReplacedItems none none
  | some {schema out : OpenApiSchema} (item : Replaced schema out) :
      ReplacedItems (some schema) (some out)

/-- Schemas, each replaced. -/
inductive ReplacedSchemas : List OpenApiSchema → List OpenApiSchema → Prop
  | nil : ReplacedSchemas [] []
  | cons {schema out : OpenApiSchema} {schemas outs : List OpenApiSchema}
      (head : Replaced schema out) (tail : ReplacedSchemas schemas outs) :
      ReplacedSchemas (schema :: schemas) (out :: outs)

end

mutual

/-- Every schema that is reached is the first component that has its fingerprint, if there is one. -/
def Separates (text : DoubleText) (map : SchemaMap) : OpenApiSchema → Prop
  | schema@{ properties, items, ref, allOf, oneOf, .. } =>
    match ref with
    | some _ => True
    | none =>
      match findComponent text map (schemaFingerprint text true schema) with
      | some (_, component) => component = schema
      | none => SeparatesProperties text map properties ∧ SeparatesItems text map items ∧
        SeparatesSchemas text map allOf ∧ SeparatesSchemas text map oneOf

/-- Of every property. -/
def SeparatesProperties (text : DoubleText) (map : SchemaMap) : List Property → Prop
  | [] => True
  | { key := _, schema } :: properties =>
    Separates text map schema ∧ SeparatesProperties text map properties

/-- Of the items. -/
def SeparatesItems (text : DoubleText) (map : SchemaMap) : Option OpenApiSchema → Prop
  | none => True
  | some schema => Separates text map schema

/-- Of every schema. -/
def SeparatesSchemas (text : DoubleText) (map : SchemaMap) : List OpenApiSchema → Prop
  | [] => True
  | schema :: schemas => Separates text map schema ∧ SeparatesSchemas text map schemas

end

/-! ## Lemmas about the maps -/

variable {map path} {text : DoubleText}

theorem eq_of_mem {name : Text} {a b : OpenApiSchema} (ha : (name, a) ∈ map.components)
    (hb : (name, b) ∈ map.components) : a = b := by
  have hpair := List.inj_on_of_nodup_map map.nodup ha hb rfl
  exact (Prod.mk.inj hpair).2

theorem refTo_injective {name name' : Text} (h : refTo path name = refTo path name') :
    name = name' := by
  have href := congrArg OpenApiSchema.ref h
  exact List.append_cancel_left (Option.some.inj href)

/-- What `replace_with_refs` does with a schema that is no reference. -/
theorem replaceWithRefs_eq {schema : OpenApiSchema} (href : schema.ref = none) :
    replaceWithRefs text map path schema =
      match findComponent text map (schemaFingerprint text true schema) with
      | some (name, _) => refTo path name
      | none => { schema with
        properties := replaceProperties text map path schema.properties
        items := replaceItems text map path schema.items
        allOf := replaceSchemas text map path schema.allOf
        oneOf := replaceSchemas text map path schema.oneOf } := by
  obtain ⟨types, properties, items, required, enumValues, format, description, sample, nullable,
    minimum, maximum, defaultValue, ref, allOf, oneOf⟩ := schema
  obtain rfl : ref = none := href
  rw [replaceWithRefs]
  rfl

theorem separates_eq {schema : OpenApiSchema} (href : schema.ref = none) :
    Separates text map schema =
      match findComponent text map (schemaFingerprint text true schema) with
      | some (_, component) => component = schema
      | none => SeparatesProperties text map schema.properties ∧
        SeparatesItems text map schema.items ∧ SeparatesSchemas text map schema.allOf ∧
        SeparatesSchemas text map schema.oneOf := by
  obtain ⟨types, properties, items, required, enumValues, format, description, sample, nullable,
    minimum, maximum, defaultValue, ref, allOf, oneOf⟩ := schema
  obtain rfl : ref = none := href
  rw [Separates]

theorem replaceWithRefs_of_ref {schema : OpenApiSchema} (href : schema.ref.isSome) :
    replaceWithRefs text map path schema = schema := by
  obtain ⟨types, properties, items, required, enumValues, format, description, sample, nullable,
    minimum, maximum, defaultValue, ref, allOf, oneOf⟩ := schema
  rw [replaceWithRefs, if_pos href]

/-! ## When only components are replaced -/

/-- A schema that is replaced by the reference to a component is that component. -/
theorem replaced_refTo_iff {schema component : OpenApiSchema} {name : Text}
    (href : schema.ref = none) (hmem : (name, component) ∈ map.components) :
    Replaced map path schema (refTo path name) ↔ component = schema := by
  constructor
  · intro h
    generalize hout : refTo path name = out at h
    cases h with
    | component _ mem =>
      obtain rfl := refTo_injective hout
      exact eq_of_mem hmem mem
    | reference ref =>
      rw [href] at ref
      cases ref
    | node =>
      have houtRef := congrArg OpenApiSchema.ref hout
      rw [show (refTo path name).ref = some _ from rfl] at houtRef
      exact absurd houtRef (by rw [href]; nofun)
  · rintro rfl
    exact .component href hmem

/-- A schema that is kept is no component, and its parts are replaced. -/
theorem replaced_node_iff {schema : OpenApiSchema} {properties : List Property}
    {items : Option OpenApiSchema} {allOf oneOf : List OpenApiSchema} (href : schema.ref = none)
    (hother : ∀ component ∈ map.components, component.2 ≠ schema) :
    Replaced map path schema { schema with properties, items, allOf, oneOf } ↔
      ReplacedProperties map path schema.properties properties ∧
        ReplacedItems map path schema.items items ∧
        ReplacedSchemas map path schema.allOf allOf ∧
        ReplacedSchemas map path schema.oneOf oneOf := by
  constructor
  · intro h
    generalize hout : ({ schema with properties, items, allOf, oneOf } : OpenApiSchema) = out at h
    cases h with
    | component =>
      have houtRef := congrArg OpenApiSchema.ref hout
      exact absurd (houtRef.symm.trans href) nofun
    | reference ref =>
      rw [href] at ref
      cases ref
    | node ref other hproperties hitems hallOf honeOf =>
      have h₁ := congrArg OpenApiSchema.properties hout
      have h₂ := congrArg OpenApiSchema.items hout
      have h₃ := congrArg OpenApiSchema.allOf hout
      have h₄ := congrArg OpenApiSchema.oneOf hout
      dsimp only at h₁ h₂ h₃ h₄
      subst h₁ h₂ h₃ h₄
      exact ⟨hproperties, hitems, hallOf, honeOf⟩
  · rintro ⟨hproperties, hitems, hallOf, honeOf⟩
    exact .node href hother hproperties hitems hallOf honeOf

/-- A component has its own fingerprint. -/
theorem ne_of_findComponent {schema : OpenApiSchema}
    (h : findComponent text map (schemaFingerprint text true schema) = none) :
    ∀ component ∈ map.components, component.2 ≠ schema := by
  rintro component hmem rfl
  exact List.find?_eq_none.mp h component hmem (decide_eq_true rfl)

mutual

/-- What `replace_with_refs` makes of a schema replaces components only, just if the components are
    told apart by their fingerprints. -/
theorem replaced_iff : (schema : OpenApiSchema) →
    (Replaced map path schema (replaceWithRefs text map path schema) ↔ Separates text map schema)
  | schema@{ properties, items, ref, allOf, oneOf, .. } => by
    cases ref with
    | some ref =>
      rw [replaceWithRefs_of_ref rfl, Separates]
      exact iff_of_true (.reference rfl) trivial
    | none =>
      rw [replaceWithRefs_eq rfl, separates_eq rfl]
      cases hfind : findComponent text map (schemaFingerprint text true _) with
      | some found =>
        obtain ⟨name, component⟩ := found
        exact replaced_refTo_iff rfl (List.mem_of_find?_eq_some hfind)
      | none =>
        refine (replaced_node_iff rfl (ne_of_findComponent hfind)).trans ?_
        exact and_congr (replacedProperties_iff properties) (and_congr (replacedItems_iff items)
          (and_congr (replacedSchemas_iff allOf) (replacedSchemas_iff oneOf)))

theorem replacedProperties_iff : (properties : List Property) →
    (ReplacedProperties map path properties (replaceProperties text map path properties) ↔
      SeparatesProperties text map properties)
  | [] => iff_of_true .nil trivial
  | { key, schema } :: properties => by
    rw [replaceProperties, SeparatesProperties, ← replaced_iff schema,
      ← replacedProperties_iff properties]
    constructor
    · rintro (_ | ⟨head, tail⟩)
      exact ⟨head, tail⟩
    · rintro ⟨head, tail⟩
      exact .cons head tail

theorem replacedItems_iff : (items : Option OpenApiSchema) →
    (ReplacedItems map path items (replaceItems text map path items) ↔
      SeparatesItems text map items)
  | none => iff_of_true .none trivial
  | some schema => by
    rw [replaceItems, SeparatesItems, ← replaced_iff schema]
    constructor
    · rintro (_ | item)
      exact item
    · exact .some

theorem replacedSchemas_iff : (schemas : List OpenApiSchema) →
    (ReplacedSchemas map path schemas (replaceSchemas text map path schemas) ↔
      SeparatesSchemas text map schemas)
  | [] => iff_of_true .nil trivial
  | schema :: schemas => by
    rw [replaceSchemas, SeparatesSchemas, ← replaced_iff schema, ← replacedSchemas_iff schemas]
    constructor
    · rintro (_ | ⟨head, tail⟩)
      exact ⟨head, tail⟩
    · rintro ⟨head, tail⟩
      exact .cons head tail

end

/-! ## Expanding references -/

/-- The text of a reference to a component. -/
def componentRef (path name : Text) : Text := lit "#/" ++ path ++ lit "/" ++ name

mutual

/-- The references to components, expanded by them. -/
def expand (map : SchemaMap) (path : Text) : OpenApiSchema → OpenApiSchema
  | schema@{ properties, items, ref, allOf, oneOf, .. } =>
    match ref with
    | some ref =>
      match map.components.find? fun component => componentRef path component.1 = ref with
      | some (_, component) => component
      | none => schema
    | none =>
      { schema with
        properties := expandProperties map path properties
        items := expandItems map path items
        allOf := expandSchemas map path allOf
        oneOf := expandSchemas map path oneOf }

/-- Every property, expanded. -/
def expandProperties (map : SchemaMap) (path : Text) : List Property → List Property
  | [] => []
  | { key, schema } :: properties =>
    { key, schema := expand map path schema } :: expandProperties map path properties

/-- The items, expanded. -/
def expandItems (map : SchemaMap) (path : Text) : Option OpenApiSchema → Option OpenApiSchema
  | none => none
  | some schema => some (expand map path schema)

/-- Every schema, expanded. -/
def expandSchemas (map : SchemaMap) (path : Text) : List OpenApiSchema → List OpenApiSchema
  | [] => []
  | schema :: schemas => expand map path schema :: expandSchemas map path schemas

end

mutual

/-- The schema has no references to these components of its own. -/
def Foreign (map : SchemaMap) (path : Text) : OpenApiSchema → Prop
  | { properties, items, ref, allOf, oneOf, .. } =>
    (∀ component ∈ map.components, ref ≠ some (componentRef path component.1)) ∧
      ForeignProperties map path properties ∧ ForeignItems map path items ∧
      ForeignSchemas map path allOf ∧ ForeignSchemas map path oneOf

/-- No property has. -/
def ForeignProperties (map : SchemaMap) (path : Text) : List Property → Prop
  | [] => True
  | { key := _, schema } :: properties =>
    Foreign map path schema ∧ ForeignProperties map path properties

/-- The items have none. -/
def ForeignItems (map : SchemaMap) (path : Text) : Option OpenApiSchema → Prop
  | none => True
  | some schema => Foreign map path schema

/-- No schema has. -/
def ForeignSchemas (map : SchemaMap) (path : Text) : List OpenApiSchema → Prop
  | [] => True
  | schema :: schemas => Foreign map path schema ∧ ForeignSchemas map path schemas

end

/-- A reference to a component is expanded by it. -/
theorem expand_refTo {name : Text} {component : OpenApiSchema}
    (hmem : (name, component) ∈ map.components) : expand map path (refTo path name) = component := by
  have hsome : (map.components.find? fun other =>
      componentRef path other.1 = componentRef path name).isSome := by
    rw [List.find?_isSome]
    exact ⟨_, hmem, decide_eq_true rfl⟩
  obtain ⟨⟨other, found⟩, hfind⟩ := Option.isSome_iff_exists.mp hsome
  have hname : other = name := by
    have href : componentRef path other = componentRef path name := by
      simpa using List.find?_some hfind
    exact List.append_cancel_left href
  obtain rfl := hname
  obtain rfl := eq_of_mem (List.mem_of_find?_eq_some hfind) hmem
  show expand map path { ref := some (componentRef path other) } = found
  rw [expand]
  simp only [hfind]

/-- A reference to something else stays. -/
theorem expand_of_foreign {schema : OpenApiSchema} (href : schema.ref.isSome)
    (h : Foreign map path schema) : expand map path schema = schema := by
  obtain ⟨types, properties, items, required, enumValues, format, description, sample, nullable,
    minimum, maximum, defaultValue, ref, allOf, oneOf⟩ := schema
  obtain ⟨ref, rfl⟩ := Option.isSome_iff_exists.mp href
  rw [Foreign] at h
  have hnone : (map.components.find? fun component => componentRef path component.1 = ref) = none := by
    refine List.find?_eq_none.mpr fun component hmem heq => ?_
    exact h.1 component hmem (congrArg some (of_decide_eq_true heq).symm)
  rw [expand]
  simp only [hnone]

theorem foreign_parts {schema : OpenApiSchema} (h : Foreign map path schema) :
    ForeignProperties map path schema.properties ∧ ForeignItems map path schema.items ∧
      ForeignSchemas map path schema.allOf ∧ ForeignSchemas map path schema.oneOf := by
  obtain ⟨types, properties, items, required, enumValues, format, description, sample, nullable,
    minimum, maximum, defaultValue, ref, allOf, oneOf⟩ := schema
  rw [Foreign] at h
  exact h.2

theorem expand_node {schema : OpenApiSchema} (href : schema.ref = none) {properties : List Property}
    {items : Option OpenApiSchema} {allOf oneOf : List OpenApiSchema} :
    expand map path { schema with properties, items, allOf, oneOf } = { schema with
      properties := expandProperties map path properties
      items := expandItems map path items
      allOf := expandSchemas map path allOf
      oneOf := expandSchemas map path oneOf } := by
  obtain ⟨types, _, _, required, enumValues, format, description, sample, nullable,
    minimum, maximum, defaultValue, ref, _, _⟩ := schema
  obtain rfl : ref = none := href
  rw [expand]

mutual

/-- Where components were replaced, expanding gives the schema back. -/
theorem expand_of_replaced : {schema out : OpenApiSchema} → Replaced map path schema out →
    Foreign map path schema → expand map path out = schema
  | _, _, .component _ mem, _ => expand_refTo mem
  | _, _, .reference ref, h => expand_of_foreign ref h
  | _, _, @Replaced.node _ _ schema _ _ _ _ ref _ hproperties hitems hallOf honeOf, h => by
    obtain ⟨h₁, h₂, h₃, h₄⟩ := foreign_parts h
    rw [expand_node ref, expandProperties_of_replaced hproperties h₁,
      expandItems_of_replaced hitems h₂, expandSchemas_of_replaced hallOf h₃,
      expandSchemas_of_replaced honeOf h₄]
    cases schema
    rfl

theorem expandProperties_of_replaced : {properties outs : List Property} →
    ReplacedProperties map path properties outs → ForeignProperties map path properties →
    expandProperties map path outs = properties
  | _, _, .nil, _ => rfl
  | _, _, .cons head tail, ⟨h, hs⟩ => by
    rw [expandProperties, expand_of_replaced head h, expandProperties_of_replaced tail hs]

theorem expandItems_of_replaced : {items outs : Option OpenApiSchema} →
    ReplacedItems map path items outs → ForeignItems map path items →
    expandItems map path outs = items
  | _, _, .none, _ => rfl
  | _, _, .some item, h => by
    rw [expandItems, expand_of_replaced item h]

theorem expandSchemas_of_replaced : {schemas outs : List OpenApiSchema} →
    ReplacedSchemas map path schemas outs → ForeignSchemas map path schemas →
    expandSchemas map path outs = schemas
  | _, _, .nil, _ => rfl
  | _, _, .cons head tail, ⟨h, hs⟩ => by
    rw [expandSchemas, expand_of_replaced head h, expandSchemas_of_replaced tail hs]

end

/-! ## Both together -/

/-- A component whose description reads like an example. -/
def quotedExample : SchemaMap where
  components := [(lit "Quoted", { description := some (lit "a)example(null") })]
  nodup := List.nodup_singleton _

end MetalOrm.Native.OpenApi
