import ZodModules.Json.Parser
import ZodModules.Json.Printer
import ZodModules.Proofs.Json.Proper
import ZodModules.Proofs.Json.Tokens

/-!
# Texts of values read back

The compact text of a value is read as the value, as long as its containers do not nest too deep,
unless an integer of the value does not keep its exact value or an object repeats a key.
-/

namespace ZodModules.Json

mutual

/-- How deep the containers of a value nest. -/
def depth : Json → Nat
  | .array items => depthAll items + 1
  | .object members => depthMembers members + 1
  | .null | .bool _ | .number _ | .string _ => 0

/-- How deep the containers of some values nest. -/
def depthAll : List Json → Nat
  | [] => 0
  | item :: items => max item.depth (depthAll items)

/-- How deep the containers of some members nest. -/
def depthMembers : List (String × Json) → Nat
  | [] => 0
  | (_, value) :: members => max value.depth (depthMembers members)

end

section Scanning

/-- The text of some tokens. -/
def chars (tokens : List Token) : List Char := tokens.flatMap (·.text.toList)

theorem chars_cons (token : Token) (tokens : List Token) :
    chars (token :: tokens) = token.text.toList ++ chars tokens := rfl

theorem chars_append (first second : List Token) :
    chars (first ++ second) = chars first ++ chars second := List.flatMap_append

variable {rest : List Char}

/-- Some tokens, followed by a text, are read as they stand. -/
def ScansTo (tokens : List Token) (rest : List Char) : Prop :=
  Token.scan .nothing (chars tokens ++ rest) = (Token.scan .nothing rest).map (tokens ++ ·)

theorem scansTo_nil : ScansTo [] rest := by
  show Token.scan .nothing rest = _
  simp

theorem ScansTo.cons {token : Token} {tokens : List Token} (exactToken : token.IsExact)
    (breaks : token.IsWord → Token.Breaks (chars tokens ++ rest)) (others : ScansTo tokens rest) :
    ScansTo (token :: tokens) rest := by
  unfold ScansTo at *
  rw [chars_cons, List.append_assoc, Token.scan_token exactToken breaks, others, Option.map_map]
  rfl

theorem ScansTo.append {first second : List Token} (left : ScansTo first (chars second ++ rest))
    (right : ScansTo second rest) : ScansTo (first ++ second) rest := by
  unfold ScansTo at *
  rw [chars_append, List.append_assoc, left, right, Option.map_map]
  simp only [Function.comp_def, List.append_assoc]

/-- Nothing that follows a value inside a container prolongs a word. -/
theorem breaks_itemTokens (items : List Json) : Token.Breaks (chars (itemTokens items) ++ rest) := by
  cases items with
  | nil =>
    intro c first
    cases first
    decide
  | cons item items =>
    intro c first
    cases first
    decide

theorem breaks_memberTokens (members : List (String × Json)) :
    Token.Breaks (chars (memberTokens members) ++ rest) := by
  cases members with
  | nil =>
    intro c first
    cases first
    decide
  | cons member members =>
    intro c first
    cases first
    decide

mutual

/-- The tokens of a value are read as they stand, as long as no word follows. -/
theorem scansTo_tokens : ∀ (value : Json), value.IsProper → ∀ {rest : List Char},
    Token.Breaks rest → ScansTo value.tokens rest
  | .null, _, rest, breaks => .cons trivial (fun _ => breaks) scansTo_nil
  | .bool _, _, rest, breaks => .cons trivial (fun _ => breaks) scansTo_nil
  | .number _, proper, rest, breaks => by
    refine .cons ?_ (fun _ => breaks) scansTo_nil
    cases proper with
    | integer exactInteger => exact exactInteger
    | float => trivial
  | .string _, _, rest, _ => .cons trivial False.elim scansTo_nil
  | .array [], _, rest, _ => .cons trivial False.elim (.cons trivial False.elim scansTo_nil)
  | .array (item :: items), proper, rest, _ => by
    obtain ⟨first, others⟩ := List.forall_mem_cons.1 (isProper_array_iff.1 proper)
    exact .cons trivial False.elim
      (.append (scansTo_tokens item first (breaks_itemTokens items)) (scansTo_itemTokens items others))
  | .object [], _, rest, _ => .cons trivial False.elim (.cons trivial False.elim scansTo_nil)
  | .object ((key, value) :: members), proper, rest, _ => by
    obtain ⟨first, others⟩ := List.forall_mem_cons.1 (isProper_object_iff.1 proper).2
    exact .cons trivial False.elim (.cons trivial False.elim (.cons trivial False.elim
      (.append (scansTo_tokens value first (breaks_memberTokens members))
        (scansTo_memberTokens members others))))

/-- The same for the further items of an array. -/
theorem scansTo_itemTokens : ∀ (items : List Json), (∀ item ∈ items, item.IsProper) →
    ∀ {rest : List Char}, ScansTo (itemTokens items) rest
  | [], _, rest => .cons trivial False.elim scansTo_nil
  | item :: items, proper, rest => by
    obtain ⟨first, others⟩ := List.forall_mem_cons.1 proper
    exact .cons trivial False.elim
      (.append (scansTo_tokens item first (breaks_itemTokens items)) (scansTo_itemTokens items others))

/-- The same for the further members of an object. -/
theorem scansTo_memberTokens : ∀ (members : List (String × Json)),
    (∀ member ∈ members, member.2.IsProper) → ∀ {rest : List Char},
    ScansTo (memberTokens members) rest
  | [], _, rest => .cons trivial False.elim scansTo_nil
  | (key, value) :: members, proper, rest => by
    obtain ⟨first, others⟩ := List.forall_mem_cons.1 proper
    exact .cons trivial False.elim (.cons trivial False.elim (.cons trivial False.elim
      (.append (scansTo_tokens value first (breaks_memberTokens members))
        (scansTo_memberTokens members others))))

end

/-- The text of a value is read as its tokens. -/
theorem tokens?_text {value : Json} (proper : value.IsProper) :
    tokens? value.text = some value.tokens := by
  have scanned : ScansTo value.tokens [] :=
    scansTo_tokens value proper fun _ impossible => nomatch impossible
  have same : value.text.toList = chars value.tokens := by
    rw [text, String.toList_join, List.flatMap_map]
    rfl
  unfold ScansTo at scanned
  rw [List.append_nil] at scanned
  rw [tokens?, same, scanned, Token.scan, Option.map_some, List.append_nil]

end Scanning

namespace Reading

variable {limit : Nat}

/-- A reading that awaits a value inside some containers. -/
def AwaitsValue (reading : Reading) (frames : List Frame) : Prop :=
  reading = ⟨frames, .value⟩ ∨
    ∃ items outer, frames = .array items :: outer ∧ reading = ⟨frames, .firstItem⟩

theorem AwaitsValue.step? {reading : Reading} {frames : List Frame}
    (awaits : reading.AwaitsValue frames) {token : Token} (begins : token ≠ .closeArray) :
    reading.step? limit token = begin? limit frames token := by
  rcases awaits with rfl | ⟨items, outer, rfl, rfl⟩
  · rw [Reading.step?]
  · rw [Reading.step?]
    · exact fun _ _ closes _ => begins closes

theorem foldlM_scalar {value : Json} {token : Token} (scalar : scalar? token = some value)
    {reading : Reading} {frames : List Frame} (awaits : reading.AwaitsValue frames) :
    [token].foldlM (step? limit) reading = some ⟨frames, .after value⟩ := by
  have other : token ≠ .closeArray := by
    rintro rfl
    cases scalar
  rw [List.foldlM_cons, awaits.step? other]
  unfold begin?
  cases token <;> cases scalar <;> rfl

theorem begin?_array (frames : List Frame) : begin? limit frames .openArray =
    if frames.length < limit then some ⟨.array [] :: frames, .firstItem⟩ else none := rfl

theorem begin?_object (frames : List Frame) : begin? limit frames .openObject =
    if frames.length < limit then some ⟨frames, .firstKey⟩ else none := rfl

/-- What is read after a part, which needs room, where more needs more room. -/
theorem bind_room {α β : Type} {fits both : Prop} (fits' : Prop) [Decidable fits]
    [Decidable fits'] [Decidable both] (split : both ↔ fits ∧ fits') {a : α} {b : β}
    {next : α → Option β} (later : next a = if fits' then some b else none) :
    ((if fits then some a else none) >>= next) = if both then some b else none := by
  by_cases one : fits
  · rw [if_pos one]
    show next a = _
    rw [later]
    simp only [split, one, true_and]
  · rw [if_neg one, if_neg fun h => one (split.1 h).1]
    rfl

/-- A key that is new to some members comes last. -/
theorem set_of_distinct {before members : List (String × Json)} {key : String} {value : Json}
    (distinct : ((before ++ (key, value) :: members).map Prod.fst).Nodup) :
    Entries.set key value before = before ++ [(key, value)] := by
  refine Entries.set_of_not_mem value fun member => ?_
  rw [List.map_append, List.map_cons] at distinct
  exact (List.nodup_append.1 distinct).2.2 key member key List.mem_cons_self rfl

mutual

/-- The tokens of a value are read as the value, unless its containers nest too deep. -/
theorem foldlM_tokens : ∀ (value : Json), value.IsProper → ∀ {reading : Reading}
    {frames : List Frame}, reading.AwaitsValue frames → frames.length ≤ limit →
    value.tokens.foldlM (step? limit) reading =
      if frames.length + value.depth ≤ limit then some ⟨frames, .after value⟩ else none
  | .null, _, _, _, awaits, inside => (foldlM_scalar rfl awaits).trans (if_pos inside).symm
  | .bool _, _, _, _, awaits, inside => (foldlM_scalar rfl awaits).trans (if_pos inside).symm
  | .number _, _, _, _, awaits, inside => (foldlM_scalar rfl awaits).trans (if_pos inside).symm
  | .string _, _, _, _, awaits, inside => (foldlM_scalar rfl awaits).trans (if_pos inside).symm
  | .array [], _, reading, frames, awaits, _ => by
    rw [tokens, List.foldlM_cons, awaits.step? (by decide), begin?_array]
    exact bind_room True (by simp only [depth, depthAll, and_true]; omega) rfl
  | .array (item :: items), proper, reading, frames, awaits, _ => by
    obtain ⟨first, others⟩ := List.forall_mem_cons.1 (isProper_array_iff.1 proper)
    rw [tokens, List.cons_append, List.foldlM_cons, awaits.step? (by decide), begin?_array]
    by_cases room : frames.length < limit
    · have inner : AwaitsValue ⟨.array [] :: frames, .firstItem⟩ (.array [] :: frames) :=
        .inr ⟨[], frames, rfl, rfl⟩
      rw [if_pos room, Option.bind_eq_bind, Option.bind_some, List.foldlM_append,
        foldlM_tokens item first inner room]
      refine bind_room _ ?_ (foldlM_itemTokens items others room)
      rw [depth, depthAll, List.length_cons]
      omega
    · rw [if_neg room, if_neg (by rw [depth]; omega)]
      rfl
  | .object [], _, reading, frames, awaits, _ => by
    rw [tokens, List.foldlM_cons, awaits.step? (by decide), begin?_object]
    exact bind_room True (by simp only [depth, depthMembers, and_true]; omega) rfl
  | .object ((key, value) :: members), proper, reading, frames, awaits, _ => by
    obtain ⟨distinct, each⟩ := isProper_object_iff.1 proper
    obtain ⟨first, others⟩ := List.forall_mem_cons.1 each
    rw [tokens, List.cons_append, List.foldlM_cons, awaits.step? (by decide), begin?_object]
    by_cases room : frames.length < limit
    · have inner : AwaitsValue ⟨.member [] key :: frames, .value⟩ (.member [] key :: frames) :=
        .inl rfl
      rw [if_pos room]
      show (value.tokens ++ memberTokens members).foldlM (step? limit)
        ⟨.member [] key :: frames, .value⟩ = _
      rw [List.foldlM_append, foldlM_tokens value first inner room]
      refine bind_room _ ?_ (foldlM_memberTokens members others distinct room)
      rw [depth, depthMembers, List.length_cons]
      omega
    · rw [if_neg room, if_neg (by rw [depth]; omega)]
      rfl

/-- The same for the further items of an array. -/
theorem foldlM_itemTokens : ∀ (items : List Json), (∀ item ∈ items, item.IsProper) →
    ∀ {frames : List Frame} {before : List Json} {last : Json}, frames.length < limit →
    (itemTokens items).foldlM (step? limit) ⟨.array before :: frames, .after last⟩ =
      if frames.length + 1 + depthAll items ≤ limit then
        some ⟨frames, .after (.array ((last :: before).reverse ++ items))⟩
      else none
  | [], _, frames, before, last, room => by
    rw [if_pos (by rw [depthAll]; omega), List.append_nil]
    rfl
  | item :: items, proper, frames, before, last, room => by
    obtain ⟨first, others⟩ := List.forall_mem_cons.1 proper
    have inner : AwaitsValue ⟨.array (last :: before) :: frames, .value⟩
        (.array (last :: before) :: frames) := .inl rfl
    show (item.tokens ++ itemTokens items).foldlM (step? limit)
      ⟨.array (last :: before) :: frames, .value⟩ = _
    rw [List.foldlM_append, foldlM_tokens item first inner room]
    have all : (item :: last :: before).reverse ++ items =
        (last :: before).reverse ++ item :: items := by simp
    rw [← all]
    refine bind_room _ ?_ (foldlM_itemTokens items others room)
    rw [depthAll, List.length_cons]
    omega

/-- The same for the further members of an object, whose keys are all distinct. -/
theorem foldlM_memberTokens : ∀ (members : List (String × Json)),
    (∀ member ∈ members, member.2.IsProper) →
    ∀ {frames : List Frame} {before : List (String × Json)} {key : String} {last : Json},
    ((before ++ (key, last) :: members).map Prod.fst).Nodup → frames.length < limit →
    (memberTokens members).foldlM (step? limit) ⟨.member before key :: frames, .after last⟩ =
      if frames.length + 1 + depthMembers members ≤ limit then
        some ⟨frames, .after (.object (before ++ (key, last) :: members))⟩
      else none
  | [], _, frames, before, key, last, distinct, room => by
    rw [if_pos (by rw [depthMembers]; omega), ← set_of_distinct distinct]
    rfl
  | (key', value) :: members, proper, frames, before, key, last, distinct, room => by
    obtain ⟨first, others⟩ := List.forall_mem_cons.1 proper
    have inner : AwaitsValue ⟨.member (before ++ [(key, last)]) key' :: frames, .value⟩
        (.member (before ++ [(key, last)]) key' :: frames) := .inl rfl
    have all : (before ++ [(key, last)]) ++ (key', value) :: members =
        before ++ (key, last) :: (key', value) :: members := by simp
    show (value.tokens ++ memberTokens members).foldlM (step? limit)
      ⟨.member (Entries.set key last before) key' :: frames, .value⟩ = _
    rw [set_of_distinct distinct, List.foldlM_append, foldlM_tokens value first inner room, ← all]
    refine bind_room _ ?_ (foldlM_memberTokens members others (all ▸ distinct) room)
    rw [depthMembers, List.length_cons]
    omega

end

end Reading

/-- Read from its tokens a value is what it was, unless its containers nest too deep. -/
theorem ofTokens?_tokens {value : Json} (proper : value.IsProper) (limit : Nat) :
    ofTokens? limit value.tokens = if value.depth ≤ limit then some value else none := by
  rw [ofTokens?, Reading.foldlM_tokens value proper (.inl rfl) (Nat.zero_le limit), List.length_nil,
    Nat.zero_add]
  split <;> rfl

/-- The text of a value is read as the value, unless its containers nest too deep. -/
theorem parseWithin?_text {value : Json} (proper : value.IsProper) (limit : Nat) :
    parseWithin? limit value.text = if value.depth ≤ limit then some value else none := by
  rw [parseWithin?, tokens?_text proper, Option.bind_some, ofTokens?_tokens proper]

end ZodModules.Json
