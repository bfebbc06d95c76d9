import MetalOrm.Native.ValueKey

/-!
# The identity map

`IdentityMap` of `metal/identity_map.hpp`: a hash map for each entity type, from the `value_key` of a
primary key to a weak pointer. What is left of a weak pointer, `lock()`, is a parameter.
-/

namespace MetalOrm.Native

/-- A value that is no `double`, as primary keys are. -/
abbrev KeyValue := { v : Value // v.isDouble = false }

variable {τ ε : Type} [DecidableEq τ]

/-- `IdentityMap`, over the types `τ` and the weak pointers `ε`. -/
structure IdentityMap (τ ε : Type) where
  buckets : AList fun _ : τ => AList fun _ : List UInt8 => ε

namespace IdentityMap

variable (map : IdentityMap τ ε)

/-- A map without entities. -/
def empty : IdentityMap τ ε := ⟨∅⟩

/-- `get`. -/
def get (lock : ε → Option ε) (type : τ) (pk : Value) : Option ε :=
  match map.buckets.lookup type with
  | none => none
  | some bucket =>
    match bucket.lookup (valueKey pk) with
    | none => none
    | some item => lock item

/-- `put`. -/
def put (type : τ) (pk : Value) (entity : ε) : IdentityMap τ ε :=
  ⟨map.buckets.insert type
    (((map.buckets.lookup type).getD ∅).insert (valueKey pk) entity)⟩

/-- `erase`. -/
def erase (type : τ) (pk : Value) : IdentityMap τ ε :=
  match map.buckets.lookup type with
  | none => map
  | some bucket => ⟨map.buckets.insert type (bucket.erase (valueKey pk))⟩

/-- `clear`. -/
def clear : IdentityMap τ ε := empty

end IdentityMap

/-- A call that changes the identity map. -/
inductive IdentityCall (τ ε : Type) where
  | put (type : τ) (pk : KeyValue) (entity : ε)
  | erase (type : τ) (pk : KeyValue)
  | clear

/-- A call. -/
def IdentityMap.apply (map : IdentityMap τ ε) : IdentityCall τ ε → IdentityMap τ ε
  | .put type pk entity => map.put type pk entity
  | .erase type pk => map.erase type pk
  | .clear => IdentityMap.clear

end MetalOrm.Native
