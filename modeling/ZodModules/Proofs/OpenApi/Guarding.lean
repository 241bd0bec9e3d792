import ZodModules.Proofs.OpenApi.MergedMembers
import ZodModules.OpenApi.Guarded

/-!
# The guard of a conversion

A conversion that keeps one set of the components that are being merged ends on all components and
values and converts a value as the conversion does that hands the set on. Every call leaves the set
as it finds it, which is to hold what the enclosing calls merge; so a member that is a reference is
left out just if its component is missing or an enclosing call merges it.
-/

namespace ZodModules.OpenApi.Guarded

open Schema (Property)

/-- A composition of several members has decided about each of them that is a reference. -/
def Reaches (enclosing : List String) (value : Json) (events : List Event) : Prop :=
  ∀ members, Form.of value = .composition members → 2 ≤ members.length → ∀ member ∈ members,
    ∀ reference, Form.of member = .reference reference →
      ∃ converted, .member enclosing (refName reference) converted ∈ events

/-- What the events of a conversion tell. -/
structure Balanced (components : Components) (events : List Event) : Prop where
  /-- Every call returns with the set that it has received, which holds what enclosing calls
  merge. -/
  restored : ∀ enclosing value received returned,
    .call enclosing value received returned ∈ events →
      returned = received ∧ ∀ name, name ∈ received ↔ name ∈ enclosing
  /-- A component is converted unless it is missing or an enclosing call merges it. -/
  decided : ∀ enclosing name converted, .member enclosing name converted ∈ events →
    (converted = true ↔ (components.lookup name).isSome ∧ name ∉ enclosing)
  reached : ∀ enclosing value received returned,
    .call enclosing value received returned ∈ events → Reaches enclosing value events

variable {components : Components} {guard : NameSet} {enclosing : List String}
  {value : Json} {events more : List Event} {α β : Type}

/-! ## Events -/

theorem Reaches.mono (reaches : Reaches enclosing value events)
    (sub : ∀ event ∈ events, event ∈ more) : Reaches enclosing value more := by
  intro members read several member listed reference named
  obtain ⟨converted, noted⟩ := reaches members read several member listed reference named
  exact ⟨converted, sub _ noted⟩

namespace Balanced

theorem nil : Balanced components [] := ⟨by simp, by simp, by simp⟩

/-- Events that tell what they should one by one do so together. -/
theorem flatten {pieces : List (List Event)} (each : ∀ piece ∈ pieces, Balanced components piece) :
    Balanced components pieces.flatten := by
  refine ⟨?_, ?_, ?_⟩
  · intro enclosing value received returned noted
    obtain ⟨piece, listed, noted⟩ := List.mem_flatten.1 noted
    exact (each piece listed).restored _ _ _ _ noted
  · intro enclosing name converted noted
    obtain ⟨piece, listed, noted⟩ := List.mem_flatten.1 noted
    exact (each piece listed).decided _ _ _ noted
  · intro enclosing value received returned noted
    obtain ⟨piece, listed, noted⟩ := List.mem_flatten.1 noted
    exact ((each piece listed).reached _ _ _ _ noted).mono
      fun event inside => List.mem_flatten.2 ⟨piece, listed, inside⟩

theorem append (first : Balanced components events) (second : Balanced components more) :
    Balanced components (events ++ more) := by
  have both : ∀ piece ∈ [events, more], Balanced components piece := by simp [first, second]
  simpa using flatten both

theorem member {name : String} {converted : Bool}
    (decided : converted = true ↔ (components.lookup name).isSome ∧ name ∉ enclosing) :
    Balanced components [.member enclosing name converted] := by
  refine ⟨by simp, ?_, by simp⟩
  intro enclosing' name' converted' noted
  cases List.mem_singleton.1 noted
  exact decided

/-- A call is noted after all that happens in it. -/
theorem call (inner : Balanced components events) (agree : ∀ name, name ∈ guard ↔ name ∈ enclosing)
    (reaches : Reaches enclosing value events) :
    Balanced components (events ++ [.call enclosing value guard guard]) := by
  have sub : ∀ event ∈ events, event ∈ events ++ [.call enclosing value guard guard] :=
    fun event noted => List.mem_append_left _ noted
  refine ⟨?_, ?_, ?_⟩
  · intro enclosing' value' received returned noted
    rcases List.mem_append.1 noted with noted | last
    · exact inner.restored _ _ _ _ noted
    · cases List.mem_singleton.1 last
      exact ⟨rfl, agree⟩
  · intro enclosing' name converted noted
    rcases List.mem_append.1 noted with noted | last
    · exact inner.decided _ _ _ noted
    · cases List.mem_singleton.1 last
  · intro enclosing' value' received returned noted
    rcases List.mem_append.1 noted with noted | last
    · exact (inner.reached _ _ _ _ noted).mono sub
    · cases List.mem_singleton.1 last
      exact reaches.mono sub

end Balanced

/-! ## Programs that end -/

theorem enter_eq (name : String) (state : State) :
    enter name state = some (!state.merging.contains name,
      { state with merging := state.merging.insert name }) := rfl

theorem leave_eq (name : String) (state : State) :
    leave name state = some ((), { state with merging := state.merging.erase name }) := rfl

/-- A program ends with a result and some events, whatever has happened before, and leaves the set
of the components that are being merged as it is. -/
def Yields (guard : NameSet) (program : Conversion α) (result : α) (events : List Event) : Prop :=
  ∀ earlier, program ⟨guard, earlier⟩ = some (result, ⟨guard, earlier ++ events⟩)

namespace Yields

variable {program : Conversion α} {next : α → Conversion β} {result : α} {last : β}

theorem pure (result : α) : Yields guard (Pure.pure result) result [] := by
  intro earlier
  rw [List.append_nil]
  rfl

theorem bind (first : Yields guard program result events)
    (second : Yields guard (next result) last more) :
    Yields guard (program >>= next) last (events ++ more) := by
  intro earlier
  show (program ⟨guard, earlier⟩ >>= fun outcome => next outcome.1 outcome.2) = _
  rw [first earlier, ← List.append_assoc]
  exact second (earlier ++ events)

theorem map (ends : Yields guard program result events) (made : α → β) :
    Yields guard (made <$> program) (made result) events := by
  intro earlier
  show (program ⟨guard, earlier⟩ >>= fun outcome => some (made outcome.1, outcome.2)) = _
  rw [ends]
  rfl

theorem note (event : Event) : Yields guard (Guarded.note event) () [event] := fun _ => rfl

theorem merging : Yields guard Guarded.merging guard [] := by
  intro earlier
  rw [List.append_nil]
  rfl

/-- What is done with a component that is not being merged yet, while it is. -/
theorem merged {name : String} (fresh : name ∉ guard)
    (inner : Yields (guard.insert name) program result events)
    {otherwise : Conversion β} {event : Event}
    (rest : Yields guard (next result) last more) :
    Yields guard (do
      if ← enter name then
        Guarded.note event
        let found ← program
        leave name
        next found
      else otherwise) last (event :: events ++ more) := by
  intro earlier
  have entered : enter name ⟨guard, earlier⟩ = some (true, ⟨guard.insert name, earlier⟩) := by
    rw [enter_eq, NameSet.contains_eq_false_iff.2 fresh, Bool.not_false]
  have left (noted : List Event) :
      leave name ⟨guard.insert name, noted⟩ = some ((), ⟨guard, noted⟩) := by
    rw [leave_eq, NameSet.erase_insert_of_not_mem fresh]
  have noted : earlier ++ (event :: events ++ more) = earlier ++ [event] ++ events ++ more := by
    simp
  show (enter name ⟨guard, earlier⟩ >>= fun outcome => (if outcome.1 then _ else otherwise)
    outcome.2) = _
  rw [entered]
  show (program ⟨guard.insert name, earlier ++ [event]⟩ >>= fun outcome =>
    (leave name >>= fun _ => next outcome.1) outcome.2) = _
  rw [inner]
  show (leave name ⟨guard.insert name, earlier ++ [event] ++ events⟩ >>= fun outcome =>
    next result outcome.2) = _
  rw [left, noted]
  exact rest _

/-- A component that is being merged already is not entered. -/
theorem left_out {name : String} (present : name ∈ guard)
    {inside otherwise : Conversion β} (rest : Yields guard otherwise last events) :
    Yields guard (do if ← enter name then inside else otherwise) last events := by
  intro earlier
  have entered : enter name ⟨guard, earlier⟩ = some (false, ⟨guard, earlier⟩) := by
    rw [enter_eq, NameSet.contains_eq_true_iff.2 present, Bool.not_true,
      NameSet.insert_of_mem present]
  show (enter name ⟨guard, earlier⟩ >>= fun outcome => (if outcome.1 then _ else otherwise)
    outcome.2) = _
  rw [entered]
  exact rest earlier

/-- Of programs that end, one after the other ends, with the results in turn. -/
theorem mapM {program : α → Conversion β} {result : α → β} {P : α → List Event → Prop}
    {items : List α}
    (each : ∀ item ∈ items, ∃ events, Yields guard (program item) (result item) events ∧
      P item events) :
    ∃ pieces : List (List Event), Yields guard (items.mapM program) (items.map result)
        pieces.flatten ∧
      (∀ item ∈ items, ∃ piece ∈ pieces, P item piece) ∧
        ∀ piece ∈ pieces, ∃ item ∈ items, P item piece := by
  induction items with
  | nil => exact ⟨[], by simpa using Yields.pure [], by simp, by simp⟩
  | cons item rest ih =>
    obtain ⟨first, later⟩ := List.forall_mem_cons.1 each
    obtain ⟨events, ends, holds⟩ := first
    obtain ⟨pieces, others, found, origin⟩ := ih later
    refine ⟨events :: pieces, ?_, ?_, ?_⟩
    · have whole : Yields guard (do return result item :: (← rest.mapM program))
          (result item :: rest.map result) (pieces.flatten ++ []) :=
        others.bind (.pure _)
      rw [List.append_nil] at whole
      rw [List.mapM_cons, List.flatten_cons]
      exact ends.bind whole
    · refine List.forall_mem_cons.2 ⟨⟨events, List.mem_cons_self, holds⟩, fun other listed => ?_⟩
      obtain ⟨piece, inside, holds⟩ := found other listed
      exact ⟨piece, List.mem_cons_of_mem _ inside, holds⟩
    · refine List.forall_mem_cons.2 ⟨⟨item, List.mem_cons_self, holds⟩, fun piece listed => ?_⟩
      obtain ⟨other, inside, holds⟩ := origin piece listed
      exact ⟨other, List.mem_cons_of_mem _ inside, holds⟩

end Yields

/-- A program ends with a result, and its events tell what they should. -/
def Completes (components : Components) (guard : NameSet) (program : Conversion α) (result : α) :
    Prop :=
  ∃ events, Yields guard program result events ∧ Balanced components events

namespace Completes

variable {program : Conversion α} {next : α → Conversion β} {result : α} {last : β}

theorem pure (result : α) : Completes components guard (Pure.pure result) result :=
  ⟨[], .pure result, .nil⟩

theorem bind (first : Completes components guard program result)
    (second : Completes components guard (next result) last) :
    Completes components guard (program >>= next) last := by
  obtain ⟨events, ends, balanced⟩ := first
  obtain ⟨more, ends', balanced'⟩ := second
  exact ⟨events ++ more, ends.bind ends', balanced.append balanced'⟩

theorem mapM {program : α → Conversion β} {result : α → β} {items : List α}
    (each : ∀ item ∈ items, Completes components guard (program item) (result item)) :
    Completes components guard (items.mapM program) (items.map result) := by
  obtain ⟨pieces, ends, -, origin⟩ := Yields.mapM each
  refine ⟨pieces.flatten, ends, .flatten fun piece listed => ?_⟩
  obtain ⟨item, -, balanced⟩ := origin piece listed
  exact balanced

/-- To a value that is no composition there is nothing to decide. -/
theorem uncomposed (completes : Completes components guard program result)
    (other : ∀ members, Form.of value ≠ .composition members) :
    ∃ events, Yields guard program result events ∧ Balanced components events ∧
      Reaches enclosing value events := by
  obtain ⟨events, ends, balanced⟩ := completes
  exact ⟨events, ends, balanced, fun members read => absurd read (other members)⟩

end Completes

/-! ## Conversion -/

variable {call : Call}

/-- What a program converts a schema object of some form with. -/
def convertForm (components : Components) (call : Call) (enclosing : List String) (value : Json) :
    Form → Conversion Schema
  | .reference reference => pure (.ofKind (.ref (refName reference)))
  | .union branches => do
    return unionOf (discriminator? value) (← branches.mapM (call enclosing))
  | .composition members => convertComposition components call enclosing members
  | .typed _ => convertPlainly call enclosing value

theorem convertKind_eq_form :
    convertKind components call enclosing value =
      convertForm components call enclosing value (Form.of value) := by
  unfold convertKind Form.of
  cases (value.get? "$ref").bind Json.string? with
  | some reference => rfl
  | none =>
    rcases (value.get? "oneOf").or (value.get? "anyOf") with _ | _ | _ | _ | _ | branches | _
    case some.array => rfl
    all_goals rcases value.get? "allOf" with _ | _ | _ | _ | _ | members | _ <;> rfl

/-- What a call converts the parts of a value to is known, and so it is for the components that are
not being merged. -/
structure Ready (components : Components) (call : Call) (guard : NameSet) (enclosing : List String)
    (value : Json) : Prop where
  agree : ∀ name, name ∈ guard ↔ name ∈ enclosing
  part : ∀ part : Json, sizeOf part < sizeOf value →
    Completes components guard (call enclosing part) (convertWithin components guard part)
  target : ∀ name target, components.lookup name = some target → name ∉ guard →
    Completes components (guard.insert name) (call (name :: enclosing) target)
      (convertWithin components (guard.insert name) target)

namespace Ready

theorem convertProperties (ready : Ready components call guard enclosing value) :
    Completes components guard (Guarded.convertProperties call enclosing value)
      (declaredProperties components guard value) := by
  unfold Guarded.convertProperties declaredProperties
  cases found : value.get? "properties" with
  | none => exact .pure _
  | some properties =>
    cases properties with
    | object members =>
      dsimp only
      rw [convertProperties_eq_map]
      refine Completes.mapM fun member listed => (ready.part member.2 ?_).bind (.pure _)
      have := Json.sizeOf_lt_of_mem_members listed
      have := Json.sizeOf_members_lt (Json.sizeOf_lt_of_get? found)
      omega
    | _ => exact .pure _

theorem convertType (ready : Ready components call guard enclosing value) (type : String) :
    Completes components guard (Guarded.convertType call enclosing value type)
      (convertTyped components guard type value) := by
  unfold Guarded.convertType
  by_cases array : type = "array"
  · subst array
    rw [convertTyped_of_array]
    simp only [String.reduceEq, if_false, if_true]
    cases found : value.get? "items" with
    | none => exact .pure _
    | some items => exact (ready.part items (Json.sizeOf_lt_of_get? found)).bind (.pure _)
  · by_cases object : type = "object"
    · subst object
      rw [convertTyped_of_object]
      simp only [String.reduceEq, if_false, if_true]
      refine ready.convertProperties.bind ?_
      cases found : value.get? "additionalProperties" with
      | none => exact .pure _
      | some entries =>
        dsimp only
        split
        · exact (ready.part entries (Json.sizeOf_lt_of_get? found)).bind (.pure _)
        · exact .pure _
    · rw [convertTyped, if_neg array, if_neg object, if_neg array, if_neg object]
      split
      · exact .pure _
      · split
        · exact .pure _
        · split
          · exact .pure _
          · split <;> exact .pure _

theorem convertPlainly (ready : Ready components call guard enclosing value) :
    Completes components guard (Guarded.convertPlainly call enclosing value)
      (convertPlain components guard value) := by
  unfold Guarded.convertPlainly convertPlain
  rcases valueTypes value with _ | ⟨first, _ | ⟨second, rest⟩⟩
  · dsimp only
    split
    · exact .pure _
    · split
      · exact ready.convertType "object"
      · split
        · exact ready.convertType "array"
        · split <;> exact .pure _
  · exact ready.convertType first
  · exact (Completes.mapM fun type _ => ready.convertType type).bind (.pure _)

/-- A member of a composition is left out just if it is a reference to a component that is missing
or that an enclosing call merges. -/
theorem convertMember (ready : Ready components call guard enclosing value) {member : Json}
    (inside : sizeOf member < sizeOf value) :
    ∃ events, Yields guard (Guarded.convertMember components call enclosing member)
        (convertMember? components guard member) events ∧
      Balanced components events ∧ ∀ reference, Form.of member = .reference reference →
        ∃ converted, .member enclosing (refName reference) converted ∈ events := by
  unfold Guarded.convertMember convertMember?
  cases named : (member.get? "$ref").bind Json.string? with
  | none =>
    obtain ⟨events, ends, balanced⟩ := ready.part member inside
    refine ⟨events ++ [], ends.bind (.pure _), balanced.append .nil, fun reference read => ?_⟩
    rw [Form.of_eq_reference_iff.1 read] at named
    cases named
  | some reference =>
    have only (other : String) (read : Form.of member = .reference other) : other = reference :=
      Option.some.inj ((Form.of_eq_reference_iff.1 read).symm.trans named)
    have noted (converted : Bool) (more : List Event) (other : String)
        (read : Form.of member = .reference other) : ∃ converted', Event.member enclosing
          (refName other) converted' ∈ .member enclosing (refName reference) converted :: more := by
      rw [only other read]
      exact ⟨converted, List.mem_cons_self⟩
    dsimp only
    cases found : components.lookup (refName reference) with
    | none =>
      rw [Option.map_none, ite_self]
      refine ⟨_, (Yields.note _).bind (.pure _), .member ?_, noted false []⟩
      simp [found]
    | some target =>
      by_cases present : refName reference ∈ guard
      · rw [if_pos (NameSet.contains_eq_true_iff.2 present)]
        refine ⟨_, .left_out present ((Yields.note _).bind (.pure _)), .member ?_, noted false []⟩
        simp [(ready.agree _).1 present]
      · rw [if_neg (mt NameSet.contains_eq_true_iff.1 present)]
        obtain ⟨events, ends, balanced⟩ := ready.target _ target found present
        refine ⟨_, .merged present ends (.pure _), ?_, noted true _⟩
        rw [List.append_nil, ← List.singleton_append]
        refine .append (.member ?_) balanced
        simp [found, (not_congr (ready.agree _)).1 present]

/-- The members of a composition are converted each by itself, and those that are references are
decided about. -/
theorem convertMembers (ready : Ready components call guard enclosing value) {members : List Json}
    (read : Form.of value = .composition members) :
    ∃ events, Yields guard (members.mapM (Guarded.convertMember components call enclosing))
        (members.map (convertMember? components guard)) events ∧
      Balanced components events ∧ Reaches enclosing value events := by
  obtain ⟨pieces, ends, found, origin⟩ := Yields.mapM fun member listed =>
    ready.convertMember (Part.member read listed).sizeOf_lt
  refine ⟨pieces.flatten, ends, .flatten fun piece listed => ?_, ?_⟩
  · obtain ⟨member, -, balanced, -⟩ := origin piece listed
    exact balanced
  · intro members' read' several member listed reference named
    cases read.symm.trans read'
    obtain ⟨piece, inside, -, decided⟩ := found member listed
    obtain ⟨converted, noted⟩ := decided reference named
    exact ⟨converted, List.mem_flatten.2 ⟨piece, inside, noted⟩⟩

theorem convertComposition (ready : Ready components call guard enclosing value)
    {members : List Json} (read : Form.of value = .composition members) :
    ∃ events, Yields guard (Guarded.convertComposition components call enclosing members)
        ((Form.composition members).convert components guard value) events ∧
      Balanced components events ∧ Reaches enclosing value events := by
  obtain ⟨events, ends, balanced, reaches⟩ := ready.convertMembers read
  have merged : mergeObjects ((members.map (convertMember? components guard)).filterMap id) =
      mergeObjects (OpenApi.convertMembers components guard members) := by
    rw [convertMembers_eq_filterMap, List.filterMap_map]
    rfl
  have all : Yields guard (do
        let converted ← members.mapM (Guarded.convertMember components call enclosing)
        return Schema.ofKind (mergeObjects (converted.filterMap id)))
      (Schema.ofKind (mergeObjects ((members.map (convertMember? components guard)).filterMap id)))
      (events ++ []) :=
    ends.bind (.pure _)
  rw [merged, List.append_nil] at all
  rcases members with _ | ⟨first, _ | ⟨second, rest⟩⟩
  · exact ⟨events, all, balanced, reaches⟩
  · obtain ⟨events, ends, balanced⟩ :=
      ready.part first (Part.member read List.mem_cons_self).sizeOf_lt
    refine ⟨events, ends, balanced, ?_⟩
    intro members' read' several
    cases read.symm.trans read'
    simp at several
  · exact ⟨events, all, balanced, reaches⟩

/-- A schema object is converted to what its form says. -/
theorem convertKind (ready : Ready components call guard enclosing value) :
    ∃ events, Yields guard (Guarded.convertKind components call enclosing value)
        (convertObject components guard value) events ∧
      Balanced components events ∧ Reaches enclosing value events := by
  rw [convertKind_eq_form, convertObject_eq_form]
  cases read : Form.of value with
  | reference reference => exact (Completes.pure _).uncomposed (by simp [read])
  | union branches =>
    have inside : ∀ branch ∈ branches, sizeOf branch < sizeOf value := fun branch listed =>
      (Part.branch read listed).sizeOf_lt
    rw [Form.convert, convertAll_eq_map]
    refine Completes.uncomposed ?_ (by simp [read])
    exact (Completes.mapM fun branch listed => ready.part branch (inside branch listed)).bind
      (.pure _)
  | composition members => exact ready.convertComposition read
  | typed types => exact ready.convertPlainly.uncomposed (by simp [read])

/-- A call is noted with the set that it has received. -/
theorem convertValue (ready : Ready components call guard enclosing value) :
    ∃ events, Yields guard (Guarded.convertValue components call enclosing value)
        (convertWithin components guard value) (events ++ [.call enclosing value guard guard]) ∧
      Balanced components (events ++ [.call enclosing value guard guard]) := by
  have noted {program : Conversion Schema} {result : Schema} {events : List Event}
      (ends : Yields guard program result events) :
      Yields guard (do
        let received ← Guarded.merging
        let schema ← program
        let returned ← Guarded.merging
        note (.call enclosing value received returned)
        return schema) result
          ([] ++ (events ++ ([] ++ ([.call enclosing value guard guard] ++ [])))) :=
    .bind .merging (ends.bind (.bind .merging (.bind (.note _) (.pure _))))
  unfold Guarded.convertValue
  rw [convertWithin]
  cases value with
  | object members =>
    obtain ⟨events, ends, balanced, reaches⟩ := ready.convertKind
    exact ⟨events, noted (ends.map (addMetadata (.object members))),
      balanced.call ready.agree reaches⟩
  | _ =>
    refine ⟨[], noted (.pure emptyObject), Balanced.nil.call ready.agree ?_⟩
    intro members read
    have composed := Form.eq_composition read
    simp [Json.get?] at composed

theorem completes (ready : Ready components call guard enclosing value) :
    Completes components guard (Guarded.convertValue components call enclosing value)
      (convertWithin components guard value) := by
  obtain ⟨events, ends, balanced⟩ := ready.convertValue
  exact ⟨_, ends, balanced⟩

end Ready

/-! ## Depth -/

/-- A depth that the calls of a conversion do not exceed. -/
noncomputable def depthBound (components : Components) (guard : NameSet) (value : Json) : Nat :=
  (unmerged components guard).length * (sizeOf components + 1) + sizeOf value

/-- To merge one component more leaves less depth, however large the component is. -/
theorem depthBound_insert_lt {name : String} {target : Json}
    (found : components.lookup name = some target) (fresh : name ∉ guard) (value : Json) :
    depthBound components (guard.insert name) target < depthBound components guard value := by
  have fewer := length_unmerged_insert_lt found (NameSet.contains_eq_false_iff.2 fresh)
  have size := Json.sizeOf_lt_of_mem_members (Json.mem_of_lookup found)
  have steps : ((unmerged components (guard.insert name)).length + 1) * (sizeOf components + 1) ≤
      (unmerged components guard).length * (sizeOf components + 1) := Nat.mul_le_mul_right _ fewer
  rw [Nat.succ_mul] at steps
  unfold depthBound
  omega

/-- Within that depth a conversion is ready at each value: each call passes on a smaller value, or
one component more that is being merged. -/
theorem ready_convertTo (depth : Nat) (agree : ∀ name, name ∈ guard ↔ name ∈ enclosing)
    (deep : depthBound components guard value ≤ depth) :
    Ready components (convertTo components depth) guard enclosing value := by
  induction depth generalizing guard enclosing value with
  | zero =>
    refine ⟨agree, fun part smaller => ?_, fun name target found fresh => ?_⟩
    · unfold depthBound at deep
      omega
    · have := depthBound_insert_lt found fresh value
      omega
  | succ depth ih =>
    refine ⟨agree, fun part smaller => (ih agree ?_).completes, fun name target found fresh =>
      (ih (fun other => ?_) ?_).completes⟩
    · unfold depthBound at deep ⊢
      omega
    · rw [NameSet.mem_insert, List.mem_cons, agree]
    · have := depthBound_insert_lt found fresh value
      omega

/-- A conversion that keeps one set of the components that are being merged ends, if it may go deep
enough, with the set empty again and the schema that handing the set on gives. In between every call
leaves the set as it finds it: it holds what the enclosing calls merge. So each member of a
composition of several is converted or left out as it would be by itself, with the set that the
composition starts with. -/
theorem guard_is_balanced (components : Components) (value : Json) :
    (∃ bound, ∀ depth ≥ bound, ∃ events, run components depth value =
        some (convert components value, ⟨∅, events ++ [.call [] value ∅ ∅]⟩) ∧
      Balanced components (events ++ [.call [] value ∅ ∅])) ∧
    ∀ guard members, Form.of value = .composition members → 2 ≤ members.length →
      (convertWithin components guard value).kind =
        mergeObjects (members.filterMap (convertMember? components guard)) := by
  constructor
  · refine ⟨depthBound components ∅ value + 1, fun depth deep => ?_⟩
    obtain ⟨less, rfl⟩ := Nat.exists_eq_add_of_le' deep
    have agree : ∀ name, name ∈ (∅ : NameSet) ↔ name ∈ ([] : List String) := by simp
    have ready : Ready components
        (convertTo components (less + depthBound components ∅ value)) ∅ [] value :=
      ready_convertTo _ agree (by omega)
    obtain ⟨events, ends, balanced⟩ := ready.convertValue
    exact ⟨events, ends [], balanced⟩
  · intro guard members read several
    rw [convertWithin_of_several read several, convertMembers_eq_filterMap]

section Knots

open Generation (referenceTo)

/-- Components that compose one another. -/
def knots : Components :=
  [("Left", composed [referenceTo "Right", texting "left"]),
    ("Right", composed [referenceTo "Left", texting "right"])]

/-- A composition of both. -/
def knot : Json := composed [referenceTo "Left", referenceTo "Right"]

/-- The conversion of the composition ends, and has converted both. -/
theorem knot_ends :
    ∃ depth events, run knots depth knot = some (convert knots knot, ⟨∅, events⟩) ∧
      .member [] "Left" true ∈ events ∧ .member [] "Right" true ∈ events := by
  obtain ⟨⟨bound, deep⟩, -⟩ := guard_is_balanced knots knot
  obtain ⟨events, ends, balanced⟩ := deep bound (Nat.le_refl bound)
  have reached := balanced.reached _ _ _ _ (List.mem_append_right _ List.mem_cons_self) _
    (of_composed [referenceTo "Left", referenceTo "Right"]) (Nat.le_refl 2)
  have converted {name : String} (plain : refName (schemaPrefix ++ name) = name)
      (listed : referenceTo name ∈ [referenceTo "Left", referenceTo "Right"])
      (found : (knots.lookup name).isSome) :
      .member [] name true ∈ events ++ [.call [] knot ∅ ∅] := by
    obtain ⟨converted, noted⟩ := reached _ listed _ (of_referenceTo name)
    rw [plain] at noted
    rwa [(balanced.decided _ _ _ noted).2 ⟨found, List.not_mem_nil⟩] at noted
  exact ⟨bound, _, ends, converted (by decide +kernel) (by simp) rfl,
    converted (by decide +kernel) (by simp) rfl⟩

end Knots

end ZodModules.OpenApi.Guarded
