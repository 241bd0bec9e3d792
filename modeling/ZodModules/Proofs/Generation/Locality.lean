import ZodModules.Proofs.Generation.Classes
import ZodModules.Proofs.Registry.Agreement

/-!
# What generation reads

Of the other schemas a mapping reads only those that are referred to. Where two scopes say the same
of these, a schema that is generated in the one is generated in the other, with the same result. So a
schema and its closure decide what is generated from it, whatever else is registered.
-/

namespace ZodModules

namespace Mapping

variable {scope other : Scope}

/-- Two scopes are of one owner and one configuration, and say the same of some names. -/
structure Scope.Agree (scope other : Scope) (cited : List String) : Prop where
  owner : scope.owner = other.owner
  validatorSuffix : scope.validatorSuffix = other.validatorSuffix
  explicitTyping : scope.explicitTyping = other.explicitTyping
  registered : ∀ target ∈ cited, scope.registry.get? target = other.registry.get? target
  reaches : ∀ target ∈ cited,
    scope.closures.reaches target scope.owner = other.closures.reaches target scope.owner
  recursive : ∀ target ∈ cited,
    scope.closures.isRecursive target = other.closures.isRecursive target

namespace Scope.Agree

variable {cited fewer : List String}

theorem mono (agree : scope.Agree other cited) (subset : ∀ target ∈ fewer, target ∈ cited) :
    scope.Agree other fewer where
  owner := agree.owner
  validatorSuffix := agree.validatorSuffix
  explicitTyping := agree.explicitTyping
  registered target member := agree.registered target (subset target member)
  reaches target member := agree.reaches target (subset target member)
  recursive target member := agree.recursive target (subset target member)

theorem left (agree : scope.Agree other (cited ++ fewer)) : scope.Agree other cited :=
  agree.mono fun _ member => List.mem_append_left _ member

theorem right (agree : scope.Agree other (cited ++ fewer)) : scope.Agree other fewer :=
  agree.mono fun _ member => List.mem_append_right _ member

theorem closes (agree : scope.Agree other cited) {target : String} (member : target ∈ cited) :
    scope.closes target = other.closes target := by
  unfold Scope.closes
  rw [agree.reaches target member, agree.owner]

theorem referenceValue (agree : scope.Agree other cited) {target : String}
    (member : target ∈ cited) (schema : Schema) :
    Mapping.referenceValue scope target schema = Mapping.referenceValue other target schema := by
  unfold Mapping.referenceValue
  rw [agree.closes member, agree.validatorSuffix]

theorem visit (agree : scope.Agree other cited) {target : String} (member : target ∈ cited)
    (before : State) : before.visit scope target = before.visit other target := by
  unfold State.visit
  rw [agree.closes member, agree.owner]

theorem isDiscriminated (agree : scope.Agree other cited) {value : Mapped}
    (named : ClassCited cited value.shape) (property : String) :
    Mapping.isDiscriminated scope property value =
      Mapping.isDiscriminated other property value := by
  unfold Mapping.isDiscriminated
  split
  · rename_i target shape
    have member : target ∈ cited := named target (by rw [shape]; rfl)
    rw [agree.explicitTyping, agree.recursive target member, agree.registered target member]
  · rfl

theorem unionOf (agree : scope.Agree other cited) {values : List Mapped}
    (named : ∀ value ∈ values, ClassCited cited value.shape) (discriminator : Option String) :
    Mapping.unionOf scope discriminator values = Mapping.unionOf other discriminator values := by
  have same (property : String) : values.all (Mapping.isDiscriminated scope property) =
      values.all (Mapping.isDiscriminated other property) := by
    rw [Bool.eq_iff_iff, List.all_eq_true, List.all_eq_true]
    refine forall₂_congr fun value member => ?_
    rw [agree.isDiscriminated (named value member)]
  rcases values with _ | ⟨first, _ | ⟨second, rest⟩⟩
  · rfl
  · rfl
  · simp only [Mapping.unionOf, same]

end Scope.Agree

theorem mapString_congr (owner : scope.owner = other.owner) {facets : Schema.StringFacets}
    {hint : String} : mapString scope facets hint = mapString other facets hint := by
  unfold mapString
  rw [owner]

/-- What a schema maps to in one scope it maps to in any other that says the same of its
references, kind by kind. -/
theorem local_rules (scope other : Scope) : Rules scope
    (fun schema hint path before value after =>
      scope.Agree other schema.refs → Yields (mapValue other schema hint path) before value after)
    (fun hint path count index branches before values after =>
      scope.Agree other (Schema.branchRefs branches) →
        Yields (mapBranches other hint path count index branches) before values after) where
  string := by
    intro facets metadata hint path before value after run agree
    rw [mapString_congr agree.owner] at run
    rw [mapValue]
    exact yields_bind.2 ⟨value, after, run, yields_pure.2 ⟨rfl, rfl⟩⟩
  number := by
    intro facets metadata hint path before _
    rw [mapValue]
    exact yields_pure.2 ⟨rfl, rfl⟩
  boolean := by
    intro metadata hint path before _
    rw [mapValue]
    exact yields_pure.2 ⟨rfl, rfl⟩
  null := by
    intro metadata hint path before _
    rw [mapValue]
    exact yields_pure.2 ⟨rfl, rfl⟩
  emptyObject := by
    intro required metadata hint path before _
    rw [mapValue]
    exact yields_pure.2 ⟨rfl, rfl⟩
  dictionary := by
    intro name first rest required metadata hint path before value after homogeneous _ ih agree
    rw [Schema.refs, Schema.propertyRefs] at agree
    rw [mapValue, if_pos homogeneous]
    exact yields_bind.2 ⟨value, after, ih agree.left, yields_pure.2 ⟨rfl, rfl⟩⟩
  literalObject := by
    intro name first rest required metadata hint path before mixed agree
    rw [mapValue, if_neg mixed]
    refine yields_bind.2 ⟨(), _, yields_noteUnsupported.2 ?_, yields_pure.2 ⟨rfl, rfl⟩⟩
    rw [agree.owner]
  record := by
    intro item metadata hint path before value after _ ih agree
    rw [Schema.refs] at agree
    rw [mapValue]
    exact yields_bind.2 ⟨value, after, ih agree, yields_pure.2 ⟨rfl, rfl⟩⟩
  untypedArray := by
    intro metadata hint path before agree
    rw [mapValue]
    refine yields_bind.2 ⟨(), _, yields_noteUnsupported.2 ?_, yields_pure.2 ⟨rfl, rfl⟩⟩
    rw [agree.owner]
  array := by
    intro items metadata hint path before value after _ ih agree
    rw [Schema.refs] at agree
    rw [mapValue]
    exact yields_bind.2 ⟨value, after, ih agree, yields_pure.2 ⟨rfl, rfl⟩⟩
  oneOf := by
    intro branches discriminator metadata hint path before values after run ih agree
    rw [Schema.refs] at agree
    have named : ∀ value ∈ values, ClassCited (Schema.branchRefs branches) value.shape :=
      classCited_rules.hold_branches branches run
    rw [mapValue, agree.unionOf named]
    exact yields_bind.2 ⟨values, after, ih agree, yields_pure.2 ⟨rfl, rfl⟩⟩
  ref := by
    intro target schema metadata hint path before registered agree
    rw [Schema.refs] at agree
    have member : target ∈ [target] := List.mem_singleton_self target
    rw [agree.registered target member] at registered
    rw [mapValue, agree.referenceValue member, agree.visit member]
    refine yields_bind.2 ⟨_, _, yields_mapReference.2 ⟨schema, registered, rfl, rfl⟩, ?_⟩
    exact yields_pure.2 ⟨rfl, rfl⟩
  done := by
    intro hint path count index before _
    rw [mapBranches]
    exact yields_pure.2 ⟨rfl, rfl⟩
  skip := by
    intro branch branches hint path count index before values after null ih agree
    rw [Schema.branchRefs] at agree
    rw [mapBranches, if_pos null]
    exact ih agree.right
  next := by
    intro branch branches hint path count index before value middle values after notNull _ first
      rest
      agree
    rw [Schema.branchRefs] at agree
    rw [mapBranches, if_neg notNull]
    refine yields_bind.2 ⟨value, middle, first agree.left, ?_⟩
    exact yields_bind.2 ⟨values, after, rest agree.right, yields_pure.2 ⟨rfl, rfl⟩⟩

end Mapping

namespace Generation

open Mapping

theorem Threads.congr {scope other : Scope} {properties : List (Schema.Property Schema)}
    {before after : State} {values : List Mapped}
    (threads : Threads scope properties before values after)
    (agree : scope.Agree other (Schema.propertyRefs properties)) :
    Threads other properties before values after := by
  induction threads with
  | nil => exact .nil
  | cons first _ ih =>
    rw [Schema.propertyRefs] at agree
    exact .cons ((local_rules scope other).hold _ first agree.left) (ih agree.right)

theorem yields_generateRoot_congr {scope other : Scope} {indent : String} {schema : Schema}
    {root : Root} {state : State} (run : Yields (generateRoot scope indent schema) ∅ root state)
    (agree : scope.Agree other schema.refs) :
    Yields (generateRoot other indent schema) ∅ root state := by
  rcases generateRoot_cases run with
    ⟨properties, required, metadata, values, rfl, threads, rfl⟩ | ⟨value, mapped, mapping, rfl⟩
  · rw [Schema.refs] at agree
    exact yields_objectRoot.2 ⟨values, threads.congr agree, rfl⟩
  · exact (yields_valueRoot value).2 ⟨mapped, (local_rules scope other).hold _ mapping agree, rfl⟩

/-- A schema that is generated from one registry is generated from any other that says the same of
its references. -/
theorem generate_congr {config : Config} {name : String} {schema : Schema}
    {registry registry' : Registry} {closures closures' : ClosureIndex} {generated : Generated}
    (agree : (scopeOf config name registry closures).Agree (scopeOf config name registry' closures')
      schema.refs)
    (own : closures.isRecursive name = closures'.isRecursive name)
    (ok : generate config name schema registry closures = .ok generated) :
    generate config name schema registry' closures' = .ok generated := by
  obtain ⟨root, state, run, rfl⟩ := generate_eq_ok_iff.1 ok
  refine generate_eq_ok_iff.2 ⟨root, state, yields_generateRoot_congr run agree, ?_⟩
  unfold modelOf
  rw [own]

section Registries

variable {config : Config} {registry other : Registry} {name : String} {schema : Schema}

/-- The scopes of a schema agree about its references if the registries agree on what it leads to. -/
theorem agree_scopeOf (agree : registry.AgreeFrom other name)
    (found : registry.get? name = some schema) :
    (scopeOf config name registry (.ofRegistry registry)).Agree
      (scopeOf config name other (.ofRegistry other)) schema.refs := by
  have cited {target : String} (member : target ∈ schema.refs) : registry.AgreeFrom other target :=
    agree.of_leads (.single ⟨schema, found, member⟩)
  refine ⟨rfl, rfl, rfl, ?_, ?_, ?_⟩
  · intro target member
    exact (cited member).get?
  · intro target member
    exact (cited member).reaches_ofRegistry name
  · intro target member
    exact (cited member).reaches_ofRegistry target

theorem generate_of_agreeFrom {generated : Generated} (agree : registry.AgreeFrom other name)
    (found : registry.get? name = some schema)
    (ok : generate config name schema registry (.ofRegistry registry) = .ok generated) :
    generate config name schema other (.ofRegistry other) = .ok generated :=
  generate_congr (agree_scopeOf agree found) (agree.reaches_ofRegistry name) ok

/-- Generation is local: a schema that has a closure is generated, and with the same model and the
same diagnostics from every registry that has the same schema under its name and under the names of
its closure. -/
theorem generation_is_local (config : Config) {reached : NameSet}
    (found : registry.get? name = some schema) (closure : registry.closure name = .ok reached)
    (found' : other.get? name = some schema)
    (same : ∀ target ∈ reached, registry.get? target = other.get? target) :
    ∃ generated, generate config name schema registry (.ofRegistry registry) = .ok generated ∧
      generate config name schema other (.ofRegistry other) = .ok generated := by
  have agree : registry.AgreeFrom other name :=
    Registry.agreeFrom_of_closure closure (found.trans found'.symm) same
  have resolves := (Registry.resolves_of_closure closure).2
  obtain ⟨generated, ok⟩ := exists_generate config name (ClosureIndex.ofRegistry registry)
    fun target member => resolves name target .refl ⟨schema, found, member⟩
  exact ⟨generated, ok, generate_of_agreeFrom agree found ok⟩

end Registries

section Cinema

/-- An object that is told apart by its kind. -/
def told (kind : String) : Schema :=
  .ofKind (.object [⟨"kind", .ofKind (.string { literals := [kind] })⟩] (.ofList ["kind"]))

/-- A showing is of a film or of a play. -/
def showing : Schema := .ofKind (.oneOf [.ofKind (.ref "Film"), .ofKind (.ref "Play")] (some "kind"))

/-- Showings, and tickets for a lost seat. -/
def cinema : Registry :=
  .ofList [("Showing", showing), ("Film", told "film"), ("Play", told "play"),
    ("Ticket", .ofKind (.ref "Seat"))]

/-- The same showings, and seats that refer to them. -/
def theatre : Registry :=
  .ofList [("Seat", .ofKind (.array (some (.ofKind (.ref "Showing"))))), ("Play", told "play"),
    ("Film", told "film"), ("Showing", showing)]

theorem closure_showing : cinema.closure "Showing" = .ok (.ofList ["Film", "Play"]) := by
  show cinema.search "Showing" ["Film", "Play", "Showing", "Ticket"] ∅
    [("Showing", "Film"), ("Showing", "Play")] = _
  rw [Registry.search_of_fresh (by decide) rfl rfl (by decide)]
  show cinema.search "Showing" _ _ [("Showing", "Play")] = _
  rw [Registry.search_of_fresh (by decide) rfl rfl (by decide)]
  show cinema.search "Showing" _ _ [] = _
  rw [Registry.search]
  decide +kernel

theorem agree_showing : ∀ target ∈ NameSet.ofList ["Film", "Play"],
    cinema.get? target = theatre.get? target := by
  have film : cinema.get? "Film" = some (told "film") ∧ theatre.get? "Film" = some (told "film") :=
    ⟨rfl, rfl⟩
  have play : cinema.get? "Play" = some (told "play") ∧ theatre.get? "Play" = some (told "play") :=
    ⟨rfl, rfl⟩
  intro target member
  rw [NameSet.mem_ofList, List.mem_cons, List.mem_singleton] at member
  rcases member with rfl | rfl
  · exact film.1.trans film.2.symm
  · exact play.1.trans play.2.symm

/-- The showings come out the same in the cinema and in the theatre. -/
theorem generate_showing :
    ∃ generated, generate {} "Showing" showing cinema (.ofRegistry cinema) = .ok generated ∧
      generate {} "Showing" showing theatre (.ofRegistry theatre) = .ok generated :=
  generation_is_local {} rfl closure_showing rfl agree_showing

end Cinema

end Generation

end ZodModules
