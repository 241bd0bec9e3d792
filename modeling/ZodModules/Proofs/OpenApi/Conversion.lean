import ZodModules.OpenApi.Convert

/-!
# Conversion by shape

What schema objects of the common shapes convert to: a reference, an object of one declared type,
and a typed object with declared properties.
-/

namespace ZodModules.OpenApi

variable {components : Components} {merging : NameSet} {value : Json}

/-- A reference converts to what it names, with what is said next to it. -/
theorem convertWithin_of_reference {reference : String}
    (named : (value.get? "$ref").bind Json.string? = some reference) :
    convertWithin components merging value =
      addMetadata value (.ofKind (.ref (refName reference))) := by
  cases value with
  | object members =>
    rw [convertWithin, convertObject, named]
    rfl
  | _ => cases named

/-- A schema object of one type that is neither a reference nor composed converts as one of that
type. -/
theorem convertWithin_of_type {type : String}
    (plain : ∀ key ∈ ["$ref", "oneOf", "anyOf", "allOf"], value.get? key = none)
    (only : valueTypes value = [type]) :
    convertWithin components merging value =
      addMetadata value (convertTyped components merging type value) := by
  cases value with
  | object members =>
    rw [convertWithin, convertObject]
    simp [Json.members?, plain, only]
  | _ => cases only

/-- An object whose other properties nothing is said about has the declared ones. -/
theorem convertTyped_object {properties : List (String × Json)}
    (declared : value.get? "properties" = some (.object properties))
    (closed : value.get? "additionalProperties" = none) :
    convertTyped components merging "object" value =
      .ofKind (.object (convertProperties components merging properties)
        (requiredNames value)) := by
  rw [convertTyped]
  simp only [String.reduceEq, if_false, if_true]
  split
  · rename_i entries present
    rw [closed] at present
    cases present
  · split
    · rename_i other same
      rw [declared] at same
      cases same
      rfl
    · rename_i other
      exact absurd declared (other properties)

end ZodModules.OpenApi
