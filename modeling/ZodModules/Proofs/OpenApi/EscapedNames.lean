import ZodModules.Proofs.OpenApi.ExactUsage
import ZodModules.Proofs.OpenApi.References

/-!
# References to any name

In a reference the tildes and slashes of a name are escaped, and reading takes both escapes back in
two passes over the whole text. The first pass leaves the escapes of tildes alone and makes no new
ones, so every name is read as it was, and a reference to a declared schema leads to that schema.
-/

namespace ZodModules

namespace OpenApi

/-- How a character of a name is written in a reference. -/
def escapeChar (c : Char) : List Char :=
  if c = '~' then ['~', '0'] else if c = '/' then ['~', '1'] else [c]

/-- The reference to the schema of a name. -/
def escapedReference (name : String) : String :=
  schemaPrefix ++ String.ofList (name.toList.flatMap escapeChar)

section Decoding

variable {first second new c : Char} {rest name : List Char}

theorem replacePair_of_ne (other : c ≠ first) :
    replacePair first second new (c :: rest) = c :: replacePair first second new rest := by
  cases rest with
  | nil => rfl
  | cons d rest => rw [replacePair, if_neg fun pair => other pair.1]

theorem replacePair_pair :
    replacePair first second new (first :: second :: rest) =
      new :: replacePair first second new rest := by
  rw [replacePair, if_pos ⟨rfl, rfl⟩]

theorem replacePair_of_other (other : c ≠ second) :
    replacePair first second new (first :: c :: rest) =
      first :: replacePair first second new (c :: rest) := by
  rw [replacePair, if_neg fun pair => other pair.2]

/-- What the first pass leaves of a character: the tilde is still escaped. -/
def halfEscaped (c : Char) : List Char := if c = '~' then ['~', '0'] else [c]

/-- The first pass takes back the escapes of slashes. Behind the tilde of an escaped tilde stands a
zero, so an escaped tilde never pairs with what follows it. -/
theorem replacePair_slash (name : List Char) :
    replacePair '~' '1' '/' (name.flatMap escapeChar) = name.flatMap halfEscaped := by
  induction name with
  | nil => rfl
  | cons c rest ih =>
    rw [List.flatMap_cons, List.flatMap_cons, escapeChar, halfEscaped]
    by_cases tilde : c = '~'
    · rw [if_pos tilde, if_pos tilde]
      show replacePair '~' '1' '/' ('~' :: '0' :: rest.flatMap escapeChar) = _
      rw [replacePair_of_other (by decide), replacePair_of_ne (by decide), ih]
      rfl
    · rw [if_neg tilde, if_neg tilde]
      by_cases slash : c = '/'
      · rw [if_pos slash, slash]
        show replacePair '~' '1' '/' ('~' :: '1' :: rest.flatMap escapeChar) = _
        rw [replacePair_pair, ih]
        rfl
      · rw [if_neg slash]
        show replacePair '~' '1' '/' (c :: rest.flatMap escapeChar) = _
        rw [replacePair_of_ne tilde, ih]
        rfl

/-- The second pass takes back the escapes of tildes, and no others arise from what it writes. -/
theorem replacePair_tilde (name : List Char) :
    replacePair '~' '0' '~' (name.flatMap halfEscaped) = name := by
  induction name with
  | nil => rfl
  | cons c rest ih =>
    rw [List.flatMap_cons, halfEscaped]
    by_cases tilde : c = '~'
    · rw [if_pos tilde, tilde]
      show replacePair '~' '0' '~' ('~' :: '0' :: rest.flatMap halfEscaped) = _
      rw [replacePair_pair, ih]
    · rw [if_neg tilde]
      show replacePair '~' '0' '~' (c :: rest.flatMap halfEscaped) = _
      rw [replacePair_of_ne tilde, ih]

/-- Reading an escaped name gives the name. -/
theorem unescape_escaped (name : List Char) : unescape (name.flatMap escapeChar) = name := by
  rw [unescape, replacePair_slash, replacePair_tilde]

/-- In the other order of the passes a tilde before a one would be taken for an escaped slash. -/
example : replacePair '~' '1' '/' (replacePair '~' '0' '~' (['~', '1'].flatMap escapeChar)) =
    ['/'] := by decide

theorem after?_append (beginning text : String) : after? beginning (beginning ++ text) = some text := by
  have begins : beginning.toList.isPrefixOf (beginning ++ text).toList := by
    rw [String.toList_append, List.isPrefixOf_iff_prefix]
    exact List.prefix_append _ _
  rw [after?, if_pos begins, String.toList_append, ← String.length_toList, List.drop_left,
    String.ofList_toList]

theorem refName_escapedReference (name : String) : refName (escapedReference name) = name := by
  rw [refName, escapedReference, after?_append]
  show String.ofList (unescape (String.ofList _).toList) = name
  rw [String.toList_ofList, unescape_escaped, String.ofList_toList]

theorem schemaName?_escapedReference (name : String) :
    schemaName? (escapedReference name) = some name := by
  have named : (after? schemaPrefix (escapedReference name)).isSome := by
    rw [escapedReference, after?_append]
    rfl
  rw [schemaName?, if_pos named, refName_escapedReference]

end Decoding

/-- An object with a reference is converted to it, whatever else it says but for its metadata. -/
theorem kind_convertWithin_of_reference {components : Components} {merging : NameSet} {value : Json}
    {reference : String} (named : value.get? "$ref" = some (.string reference)) :
    (convertWithin components merging value).kind = .ref (refName reference) := by
  have read : Form.of value = .reference reference := by
    rw [Form.of_eq_reference_iff, named]
    rfl
  rw [kind_convertWithin, read]
  rfl

theorem exists_get?_registryOf {components : Components} {name : String}
    (declared : name ∈ components.map Prod.fst) :
    ∃ value, (name, value) ∈ components ∧
      (registryOf components).get? name = some (convert components value) := by
  have converted : name ∈ (components.map fun entry =>
      (entry.1, convert components entry.2)).map Prod.fst := by
    rw [List.map_map]
    exact declared
  obtain ⟨schema, among, found⟩ := NameMap.exists_get?_ofList converted
  obtain ⟨entry, listed, same⟩ := List.mem_map.1 among
  cases same
  exact ⟨entry.2, listed, found⟩

/-- Reading a reference undoes its escapes, for every name. So in a document that declares the name,
an object with the reference, wherever it is converted, becomes a reference to the name, under which
the registry has a schema that the document declares under it; and an operation that meets the
reference uses the name itself, under each of its tags. -/
theorem escaped_names_resolve (name : String) :
    refName (escapedReference name) = name ∧
      ∀ content document listed, Document.ofJson content = .ok document →
        components content = .ok listed → name ∈ listed.map Prod.fst →
        (∀ merging value, value.get? "$ref" = some (.string (escapedReference name)) →
          (convertWithin listed merging value).kind = .ref name ∧
            ∃ declared, (name, declared) ∈ listed ∧
              document.registry.get? name = some (convert listed declared)) ∧
        ∀ item operation, HasOperation content item operation →
          Meets content item operation (escapedReference name) →
          name ∈ reachedSchemas content (operationReferences item operation) ∧
            ∀ tag ∈ tagsOf operation, document.usage.Uses tag name := by
  refine ⟨refName_escapedReference name, ?_⟩
  intro content document listed loaded found declared
  obtain ⟨_, found', registered, -⟩ := exists_components_of_ofJson loaded
  cases found.symm.trans found'
  have resolved := exists_get?_registryOf declared
  rw [← registered] at resolved
  refine ⟨fun merging value named => ⟨?_, resolved⟩, fun item operation has met => ?_⟩
  · rw [kind_convertWithin_of_reference named, refName_escapedReference]
  · have uses : UsesName content item operation name :=
      ⟨escapedReference name, met, schemaName?_escapedReference name⟩
    refine ⟨(mem_reachedSchemas has).2 uses, fun tag tagged => ?_⟩
    obtain ⟨schema, -, known⟩ := resolved
    have contained : document.registry.contains name := by
      show (document.registry.get? name).isSome
      rw [known]
      rfl
    exact ((usage_is_exact loaded).1 tag name).2
      ⟨item, operation, name, has, tagged, uses, contained, .inl rfl⟩

/-- The reference to a schema whose name has a slash, and a tilde before a one. -/
def logReference : Json := .object [("$ref", .string "#/components/schemas/logs~1~01")]

/-- An operation that takes such a schema. -/
def postLog : Json :=
  .object [("tags", .array [.string "Logs"]), ("requestBody", logReference)]

/-- A document with that operation and that schema. -/
def logbook : Json :=
  .object [("paths", .object [("/logs", .object [("post", postLog)])]),
    ("components", .object [("schemas", .object [("logs/~1", .bool true)])])]

theorem logs_resolve :
    ∃ document, Document.ofJson logbook = .ok document ∧
      (convert [("logs/~1", .bool true)] logReference).kind = .ref "logs/~1" ∧
      document.registry.get? "logs/~1" = some (convert [("logs/~1", .bool true)] (.bool true)) ∧
      document.usage.Uses "Logs" "logs/~1" := by
  have written : escapedReference "logs/~1" = "#/components/schemas/logs~1~01" := by decide +kernel
  have loaded : Document.ofJson logbook = .ok ⟨none, registryOf _, usageOf logbook _⟩ := rfl
  obtain ⟨resolves, used⟩ := (escaped_names_resolve "logs/~1").2 logbook _ _ loaded rfl
    List.mem_cons_self
  obtain ⟨kind, declared, member, found⟩ := resolves ∅ logReference (written ▸ rfl)
  have met : Meets logbook (.object [("post", postLog)]) postLog (escapedReference "logs/~1") :=
    .start (.inl rfl) (written ▸ .ref List.mem_cons_self)
  have has : HasOperation logbook (.object [("post", postLog)]) postLog :=
    ⟨_, "/logs", "post", rfl, List.mem_cons_self, by decide, rfl⟩
  obtain ⟨-, tagged⟩ := used _ postLog has met
  refine ⟨_, loaded, kind, ?_, tagged "Logs" List.mem_cons_self⟩
  cases List.mem_singleton.1 member
  exact found

end OpenApi

end ZodModules
