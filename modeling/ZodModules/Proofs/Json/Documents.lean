import ZodModules.OpenApi.Source
import ZodModules.Proofs.Json.Proper
import ZodModules.Proofs.Json.Tokens

/-!
# Documents hold proper values

A member that is read under a key that is there takes the place of the earlier one, so in no object
of a document a key occurs twice; and an integer that cannot be kept exactly is not kept as one. Both
hold in whichever notation the document is written.
-/

namespace ZodModules

namespace Entries

theorem nodup_set {α : Type} (key : String) (value : α) {entries : List (String × α)}
    (nodup : (entries.map Prod.fst).Nodup) : ((set key value entries).map Prod.fst).Nodup := by
  by_cases known : key ∈ entries.map Prod.fst
  · rw [map_fst_set_of_mem value known]
    exact nodup
  · rw [set_of_not_mem value known, List.map_append, List.nodup_append]
    refine ⟨nodup, by simp, ?_⟩
    intro name member other only same
    rw [List.map_singleton, List.mem_singleton] at only
    rw [same, only] at member
    exact known member

theorem mem_set {α : Type} {key : String} {value : α} {entries : List (String × α)}
    {entry : String × α} (member : entry ∈ set key value entries) :
    entry = (key, value) ∨ entry ∈ entries := by
  induction entries with
  | nil => exact Or.inl (List.mem_singleton.1 member)
  | cons first rest ih =>
    rw [set] at member
    split at member
    · rcases List.mem_cons.1 member with same | later
      · exact Or.inl same
      · exact Or.inr (List.mem_cons_of_mem _ later)
    · rcases List.mem_cons.1 member with rfl | later
      · exact Or.inr List.mem_cons_self
      · exact (ih later).imp_right (List.mem_cons_of_mem _)

end Entries

namespace Json

theorem IsProper.set {members : List (String × Json)} (h : IsProper (.object members)) (key : String)
    {value : Json} (own : IsProper value) : IsProper (.object (Entries.set key value members)) := by
  cases h with
  | object distinct each =>
    refine .object (Entries.nodup_set key value distinct) fun member listed => ?_
    rcases Entries.mem_set listed with rfl | earlier
    · exact own
    · exact each member earlier

namespace Reading

/-- What is held by an open container has only proper values. -/
def ProperFrame : Frame → Prop
  | .array items => ∀ item ∈ items, IsProper item
  | .member members _ => IsProper (.object members)

/-- What was read while something is awaited has only proper values. -/
def ProperAwaited : Awaited → Prop
  | .key members => IsProper (.object members)
  | .colon members _ => IsProper (.object members)
  | .after value => IsProper value
  | _ => True

/-- Nothing that was read so far is improper. -/
structure ProperSoFar (reading : Reading) : Prop where
  frames : ∀ frame ∈ reading.frames, ProperFrame frame
  awaited : ProperAwaited reading.awaited

theorem isProper_begin? {limit : Nat} {frames : List Frame} {token : Token} {reading : Reading}
    (exactToken : token.IsExact) (kept : ∀ frame ∈ frames, ProperFrame frame)
    (h : begin? limit frames token = some reading) : reading.ProperSoFar := by
  unfold begin? at h
  split at h
  · split at h
    · cases h
      refine ⟨fun frame member => ?_, trivial⟩
      rcases List.mem_cons.1 member with rfl | member
      · exact fun _ impossible => nomatch impossible
      · exact kept frame member
    · cases h
  · split at h
    · cases h
      exact ⟨kept, trivial⟩
    · cases h
  · obtain ⟨value, found, rfl⟩ := Option.map_eq_some_iff.1 h
    refine ⟨kept, ?_⟩
    cases token with
    | null => cases found; exact .null
    | bool b => cases found; exact .bool
    | number n =>
      cases found
      cases n with
      | integer n => exact .integer exactToken
      | float x => exact .float
    | string text => cases found; exact .string
    | _ => cases found

theorem isProper_step? {limit : Nat} {before after : Reading} {token : Token}
    (exactToken : token.IsExact) (kept : before.ProperSoFar)
    (h : step? limit before token = some after) : after.ProperSoFar := by
  have fresh : IsProper (.object []) :=
    .object List.nodup_nil fun _ impossible => nomatch impossible
  obtain ⟨kept, awaited⟩ := kept
  unfold step? at h
  split at h
  · exact isProper_begin? exactToken kept h
  · cases h
    obtain ⟨inner, outer⟩ := List.forall_mem_cons.1 kept
    exact ⟨outer, .array inner⟩
  · exact isProper_begin? exactToken kept h
  · cases h
    exact ⟨kept, fresh⟩
  · cases h
    exact ⟨kept, fresh⟩
  · cases h
    exact ⟨kept, awaited⟩
  · cases h
    exact ⟨List.forall_mem_cons.2 ⟨awaited, kept⟩, trivial⟩
  · cases h
    obtain ⟨inner, outer⟩ := List.forall_mem_cons.1 kept
    refine ⟨List.forall_mem_cons.2 ⟨?_, outer⟩, trivial⟩
    exact List.forall_mem_cons.2 ⟨awaited, inner⟩
  · cases h
    obtain ⟨inner, outer⟩ := List.forall_mem_cons.1 kept
    refine ⟨outer, .array fun item member => ?_⟩
    rcases List.mem_cons.1 (List.mem_reverse.1 member) with rfl | earlier
    · exact awaited
    · exact inner item earlier
  · cases h
    obtain ⟨inner, outer⟩ := List.forall_mem_cons.1 kept
    exact ⟨outer, IsProper.set inner _ awaited⟩
  · cases h
    obtain ⟨inner, outer⟩ := List.forall_mem_cons.1 kept
    exact ⟨outer, IsProper.set inner _ awaited⟩
  · cases h

theorem isProper_foldlM_step? {limit : Nat} {tokens : List Token} {before after : Reading}
    (exactTokens : ∀ token ∈ tokens, token.IsExact) (kept : before.ProperSoFar)
    (h : tokens.foldlM (step? limit) before = some after) : after.ProperSoFar := by
  induction tokens generalizing before with
  | nil =>
    cases h
    exact kept
  | cons token rest ih =>
    rw [List.foldlM_cons] at h
    obtain ⟨middle, first, later⟩ := Option.bind_eq_some_iff.1 h
    obtain ⟨own, exactTokens⟩ := List.forall_mem_cons.1 exactTokens
    exact ih exactTokens (isProper_step? own kept first) later

theorem isProper_ofTokens? {limit : Nat} {tokens : List Token} {value : Json}
    (exactTokens : ∀ token ∈ tokens, token.IsExact) (h : ofTokens? limit tokens = some value) :
    IsProper value := by
  obtain ⟨reading, ran, found⟩ := Option.bind_eq_some_iff.1 h
  have start : ProperSoFar ⟨[], .value⟩ := ⟨fun _ impossible => (nomatch impossible), trivial⟩
  have kept := isProper_foldlM_step? exactTokens start ran
  unfold result? at found
  split at found
  · cases found
    exact kept.awaited
  · cases found

end Reading

end Json

namespace Yaml

open Json (IsProper)

theorem run_bind_eq_some_iff {α β : Type} {step : Valuation α} {next : α → Valuation β}
    {left after : Nat} {b : β} :
    (step >>= next).run left = some (b, after) ↔
      ∃ a middle, step.run left = some (a, middle) ∧ (next a).run middle = some (b, after) := by
  rw [StateT.run_bind]
  constructor
  · intro h
    obtain ⟨⟨a, middle⟩, first, later⟩ := Option.bind_eq_some_iff.1 h
    exact ⟨a, middle, first, later⟩
  · rintro ⟨a, middle, first, later⟩
    exact Option.bind_eq_some_iff.2 ⟨(a, middle), first, later⟩

/-- Each result of running a step for some items comes from one of them. -/
theorem exists_of_mem_mapM {α β : Type} {step : α → Valuation β} {items : List α}
    {left after : Nat} {results : List β} (h : (items.mapM step).run left = some (results, after))
    {b : β} (member : b ∈ results) :
    ∃ item ∈ items, ∃ before middle, (step item).run before = some (b, middle) := by
  induction items generalizing left results with
  | nil =>
    rw [List.mapM_nil] at h
    cases h
    cases member
  | cons item rest ih =>
    rw [List.mapM_cons, run_bind_eq_some_iff] at h
    obtain ⟨first, middle, ran, h⟩ := h
    rw [run_bind_eq_some_iff] at h
    obtain ⟨others, last, later, h⟩ := h
    cases h
    rcases List.mem_cons.1 member with rfl | member
    · exact ⟨item, List.mem_cons_self, left, middle, ran⟩
    · obtain ⟨other, inside, before, middle, ran⟩ := ih later member
      exact ⟨other, List.mem_cons_of_mem _ inside, before, middle, ran⟩

theorem isProper_foldl_set {members : List (String × Json)}
    (each : ∀ member ∈ members, IsProper member.2) {all : List (String × Json)}
    (kept : IsProper (.object all)) :
    IsProper (.object (members.foldl (fun all m => Entries.set m.1 m.2 all) all)) := by
  induction members generalizing all with
  | nil => exact kept
  | cons member rest ih =>
    obtain ⟨own, each⟩ := List.forall_mem_cons.1 each
    exact ih each (kept.set member.1 own)

/-- What a node that is no alias stands for. -/
def valueOf (anchored : List (Nat × Node)) : Nat → Node → Valuation Json
  | _, .alias _ | 0, .sequence .. | 0, .mapping .. => failure
  | _, .scalar properties text plain => scalarValue? properties.tag text plain
  | depth + 1, .sequence properties items => do
    guard properties.allowCollection
    return .array (← items.mapM (value anchored depth))
  | depth + 1, .mapping properties entries => do
    guard properties.allowCollection
    let members ← entries.mapM fun (key, item) => do
      return (← keyText anchored key, ← value anchored depth item)
    return .object (members.foldl (fun all m => Entries.set m.1 m.2 all) [])

theorem value_eq (anchored : List (Nat × Node)) (depth : Nat) (node : Node) :
    value anchored depth node = follow anchored node >>= valueOf anchored depth := by
  cases depth with
  | zero =>
    delta value
    refine congrArg (follow anchored node >>= ·) ?_
    funext n
    cases n <;> rfl
  | succ depth =>
    delta value
    refine congrArg (follow anchored node >>= ·) ?_
    funext n
    cases n with
    | scalar properties text plain => rfl
    | sequence properties items =>
      rw [valueOf]
      delta value
      rfl
    | mapping properties entries =>
      rw [valueOf]
      delta value
      rfl
    | _ => rfl

theorem isProper_float? {text : String} {value : Json} (h : float? text = some value) :
    IsProper value := by
  unfold float? at h
  split at h
  · cases h
    exact .null
  · obtain ⟨x, -, rfl⟩ := Option.map_eq_some_iff.1 h
    exact .float

theorem isProper_plainValue? {text : String} {value : Json} (h : plainValue? text = some value) :
    IsProper value := by
  have orText : IsProper ((float? text).getD (.string text)) := by
    cases found : float? text with
    | none => exact .string
    | some value => exact isProper_float? found
  simp only [plainValue?] at h
  split at h
  · cases h
    exact .null
  · split at h
    · cases h
      exact .bool
    · split at h
      · rename_i exactInteger
        cases h
        exact .integer exactInteger
      · split at h
        · cases h
        · cases h
          exact orText
    · split at h
      · cases h
        exact .string
      · cases h
        exact orText

theorem isProper_scalarValue? {tag : Option TagText} {text : String} {plain : Bool} {value : Json}
    (h : scalarValue? tag text plain = some value) : IsProper value := by
  have untagged (h : (if plain then plainValue? text else some (.string text)) = some value) :
      IsProper value := by
    split at h
    · exact isProper_plainValue? h
    · cases h
      exact .string
  cases tag with
  | none => exact untagged h
  | some tag =>
    simp only [scalarValue?] at h
    split at h
    · obtain ⟨b, -, rfl⟩ := Option.map_eq_some_iff.1 h
      exact .bool
    · split at h
      · obtain ⟨n, filtered, rfl⟩ := Option.map_eq_some_iff.1 h
        exact .integer (Option.filter_eq_some_iff.1 filtered).2
      · split at h
        · exact isProper_float? h
        · split at h
          · split at h
            · cases h
              exact .null
            · cases h
          · split at h
            · cases h
            · split at h
              · exact untagged h
              · cases h
                exact .string

theorem isProper_run_scalarValue? {tag : Option TagText} {text : String} {plain : Bool}
    {left after : Nat} {value : Json}
    (h : StateT.run (liftM (scalarValue? tag text plain) : Valuation Json) left =
      some (value, after)) : IsProper value := by
  obtain ⟨read, found, returned⟩ := Option.bind_eq_some_iff.1 h
  cases returned
  exact isProper_scalarValue? found

/-- The value of a node has only proper values: those of a mapping are set one after the other. -/
theorem isProper_value {anchored : List (Nat × Node)} {depth : Nat} {node : Node} {left after : Nat}
    {value : Json} (h : (Yaml.value anchored depth node).run left = some (value, after)) :
    IsProper value := by
  induction depth generalizing node left after value with
  | zero =>
    rw [value_eq] at h
    obtain ⟨followed, middle, -, h⟩ := run_bind_eq_some_iff.1 h
    cases followed with
    | scalar properties text plain => exact isProper_run_scalarValue? h
    | _ => cases h
  | succ depth ih =>
    rw [value_eq] at h
    obtain ⟨followed, middle, -, h⟩ := run_bind_eq_some_iff.1 h
    cases followed with
    | scalar properties text plain => exact isProper_run_scalarValue? h
    | sequence properties items =>
      obtain ⟨_, _, -, h⟩ := run_bind_eq_some_iff.1 h
      obtain ⟨values, _, ran, h⟩ := run_bind_eq_some_iff.1 h
      cases h
      refine .array fun item member => ?_
      obtain ⟨node, -, before, after, ran⟩ := exists_of_mem_mapM ran member
      exact ih ran
    | mapping properties entries =>
      obtain ⟨_, _, -, h⟩ := run_bind_eq_some_iff.1 h
      obtain ⟨members, _, ran, h⟩ := run_bind_eq_some_iff.1 h
      cases h
      refine isProper_foldl_set (fun member listed => ?_) (.object List.nodup_nil (by simp))
      obtain ⟨⟨key, item⟩, -, before, middle, ran⟩ := exists_of_mem_mapM ran listed
      obtain ⟨text, _, -, ran⟩ := run_bind_eq_some_iff.1 ran
      obtain ⟨value, _, found, ran⟩ := run_bind_eq_some_iff.1 ran
      cases ran
      exact ih found
    | _ => cases h

end Yaml

namespace OpenApi

/-- Documents hold proper values. -/
theorem isProper_of_parse? {format : Format} {text : String} {value : Json}
    (h : format.parse? text = some value) : value.IsProper := by
  cases format with
  | json =>
    obtain ⟨tokens, scanned, h⟩ := Option.bind_eq_some_iff.1 h
    exact Json.Reading.isProper_ofTokens? (Json.Token.isExact_of_scan scanned) h
  | yaml =>
    obtain ⟨node, -, h⟩ := Option.bind_eq_some_iff.1 h
    obtain ⟨⟨result, after⟩, ran, rfl⟩ := Option.map_eq_some_iff.1 h
    exact Yaml.isProper_value ran

/-- In no object of a document a key occurs twice. -/
theorem distinct_of_parse? {format : Format} {text : String} {value : Json}
    (h : format.parse? text = some value) : value.Distinct := (isProper_of_parse? h).distinct

end OpenApi

end ZodModules
