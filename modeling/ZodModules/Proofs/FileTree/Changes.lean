import ZodModules.Path
import ZodModules.Proofs.FileTree.Places

/-!
# Changes of a tree of files

What writing texts to some paths may change in a tree: the files at their places, and directories on
the way to them. A directory is made only where nothing was, and it stays.
-/

namespace ZodModules

namespace Path

/-- What is trimmed from the end of a path begins with a slash, or one is left there. -/
theorem exists_trimmed (reversed : List Char) :
    ∃ front, reversed = front ++ trimReversed reversed ∧
      (front = [] ∨ front.getLast? = some '/' ∨ (trimReversed reversed).head? = some '/') := by
  induction reversed using trimReversed.induct with
  | case1 c rest ih =>
    obtain ⟨front, split, ends⟩ := ih
    rw [trimReversed]
    refine ⟨'/' :: front, ?_, ?_⟩
    · rw [List.cons_append, ← split]
    · rcases ends with rfl | slash | slash
      · simp
      · simp [List.getLast?_cons, slash]
      · simp [slash]
  | case2 rest ih =>
    obtain ⟨front, split, ends⟩ := ih
    rw [trimReversed]
    refine ⟨'.' :: front, ?_, ?_⟩
    · rw [List.cons_append, ← split]
    · rcases ends with rfl | slash | slash
      · rw [List.nil_append] at split
        simp [← split]
      · simp [List.getLast?_cons, slash]
      · simp [slash]
  | case3 path slash point =>
    refine ⟨[], ?_, Or.inl rfl⟩
    rw [trimReversed] <;> simp_all

/-- The path without its last segment is a beginning of the path, and there is a slash where it
ends. -/
theorem exists_rest_of_parent? {path directory : String} (parent : parent? path = some directory)
    (nonempty : directory ≠ "") :
    ∃ rest, path.toList = directory.toList ++ rest ∧
      (rest.head? = some '/' ∨ directory.toList.getLast? = some '/') := by
  unfold parent? at parent
  generalize inner : trimReversed path.toList.reverse = reversed at parent
  obtain ⟨outer, split, -⟩ := exists_trimmed path.toList.reverse
  have cut : reversed.takeWhile (· != '/') ++ reversed.dropWhile (· != '/') = reversed :=
    List.takeWhile_append_dropWhile
  have stops := List.head?_dropWhile_not (· != '/') reversed
  obtain ⟨upper, split', ends⟩ := exists_trimmed (reversed.dropWhile (· != '/'))
  have letters : directory.toList = (trimReversed (reversed.dropWhile (· != '/'))).reverse := by
    split at parent
    · cases parent
    · cases parent
    · rw [← Option.some.inj parent, String.toList_ofList]
  refine ⟨(outer ++ reversed.takeWhile (· != '/') ++ upper).reverse, ?_, ?_⟩
  · rw [letters, ← List.reverse_append, List.append_assoc, ← split', List.append_assoc, cut,
      ← inner, ← split, List.reverse_reverse]
  · rcases ends with rfl | slash | slash
    · -- nothing is trimmed, so the slash that was found is left
      right
      rw [List.nil_append] at split'
      rw [← split'] at letters
      rw [letters, List.getLast?_reverse]
      cases left : reversed.dropWhile (· != '/') with
      | nil =>
        rw [left, List.reverse_nil, String.toList_eq_nil_iff] at letters
        exact absurd letters nonempty
      | cons c more =>
        rw [left] at stops
        simpa using stops
    · left
      rw [List.reverse_append, List.head?_append, List.head?_reverse, slash]
      rfl
    · right
      rw [letters, List.getLast?_reverse, slash]

end Path

namespace FileTree

variable {tree later latest : FileTree} {place other : Location} {path directory text : String}
  {segments : List String} {Texts : String → String → Prop}

/-- A path leads through a place or ends there. -/
def Passes (tree : FileTree) (path : String) (place : Location) : Prop :=
  ∃ front, front <+: FileTree.segments path ∧ front.foldl stepTo (tree.start path) = place

/-- What a place of a tree may become when texts are written to paths: it stays as it is, it becomes
a directory on the way to one of the paths if nothing was there, or the file of one of them unless
it is a directory. -/
inductive Becomes (tree : FileTree) (Texts : String → String → Prop) (place : Location) :
    Option Entry → Prop
  | kept {entry : Option Entry} : entry = tree.entry? place → tree.Becomes Texts place entry
  | made {path text : String} : Texts path text → tree.Passes path place →
      tree.entry? place = none → tree.Becomes Texts place (some .directory)
  | written {path text : String} : Texts path text → tree.placeOf path = place →
      tree.entry? place ≠ some .directory → tree.Becomes Texts place (some (.file text.toUTF8))

/-- A later tree differs from an earlier one only by what writing texts to paths changes. -/
structure ChangesOnly (tree : FileTree) (Texts : String → String → Prop) (later : FileTree) :
    Prop where
  workingDirectory : later.workingDirectory = tree.workingDirectory
  entry : ∀ place, tree.Becomes Texts place (later.entry? place)

/-- What is in the file of a path is in its place. -/
theorem content?_placeOf {content : ByteArray} (holds : tree.contentAt path = some content) :
    tree.content? (tree.placeOf path) = some content := by
  unfold contentAt at holds
  split at holds
  · rename_i place resolved
    rw [← resolve_eq_ok resolved, holds]
  · cases holds

namespace ChangesOnly

theorem refl (tree : FileTree) (Texts : String → String → Prop) : tree.ChangesOnly Texts tree :=
  ⟨rfl, fun _ => .kept rfl⟩

/-- Directories stay. -/
theorem growth (changes : tree.ChangesOnly Texts later) : tree.Extends later := by
  refine ⟨changes.workingDirectory, ?_⟩
  intro place directory
  generalize after : later.entry? place = entry
  have becomes := after ▸ changes.entry place
  cases becomes with
  | kept same => rw [same, directory]
  | made _ _ _ => rfl
  | written _ _ free => exact absurd directory free

theorem passes_iff (changes : tree.ChangesOnly Texts later) :
    later.Passes path place ↔ tree.Passes path place := by
  unfold Passes
  rw [changes.growth.start]

theorem trans (before : tree.ChangesOnly Texts later) (after : later.ChangesOnly Texts latest) :
    tree.ChangesOnly Texts latest := by
  refine ⟨after.workingDirectory.trans before.workingDirectory, ?_⟩
  intro place
  generalize ends : latest.entry? place = last
  generalize meets : later.entry? place = middle
  have first := meets ▸ before.entry place
  have second := ends ▸ after.entry place
  cases second with
  | kept same => rwa [same, meets]
  | made text passes missing =>
    rw [meets] at missing
    subst missing
    cases first with
    | kept same => exact .made text (before.passes_iff.1 passes) same.symm
  | written text leads free =>
    refine .written text (before.growth.placeOf _ ▸ leads) ?_
    intro directory
    exact free (before.growth.directory directory)

/-- A file that one of the texts was written to holds one of those for its place from then on. -/
theorem content?_of_file (changes : tree.ChangesOnly Texts later) {content : ByteArray}
    (holds : tree.content? place = some content) :
    later.content? place = some content ∨
      ∃ path text, Texts path text ∧ tree.placeOf path = place ∧
        later.content? place = some text.toUTF8 := by
  rw [content?_eq_some_iff] at holds
  generalize after : later.entry? place = entry
  have becomes := after ▸ changes.entry place
  cases becomes with
  | kept same =>
    left
    rw [content?_eq_some_iff, after, same, holds]
  | made _ _ missing => simp [holds] at missing
  | written text leads _ => exact .inr ⟨_, _, text, leads, content?_eq_some_iff.2 after⟩

/-- Where a path leads there is one of the texts in the end, if its own text was there between. -/
theorem exists_text (before : tree.ChangesOnly Texts later) (after : later.ChangesOnly Texts latest)
    (own : Texts path text) (holds : later.contentAt path = some text.toUTF8) :
    ∃ path' text', Texts path' text' ∧ tree.placeOf path' = tree.placeOf path ∧
      latest.content? (tree.placeOf path) = some text'.toUTF8 := by
  have here := content?_placeOf holds
  rw [before.growth.placeOf] at here
  rcases after.content?_of_file here with kept | ⟨path', text', other, leads, holds'⟩
  · exact ⟨path, text, own, rfl, kept⟩
  · rw [before.growth.placeOf] at leads
    exact ⟨path', text', other, leads, holds'⟩

end ChangesOnly

/-! ## Making directories -/

/-- A directory that is made was there, or nothing was. -/
theorem makeDirectory_cases (made : tree.makeDirectory place = .ok later) :
    later = tree ∨ tree.entry? place = none ∧ later = tree.setEntry place .directory := by
  unfold FileTree.makeDirectory at made
  split at made
  · cases made
    exact .inl rfl
  · cases made
  · rename_i missing
    cases made
    exact .inr ⟨missing, rfl⟩

/-- Directories are made along the way only, where nothing was. -/
theorem entry?_makeAlong (tree : FileTree) (place : Location) (segments : List String)
    (other : Location) :
    FileTree.entry? (tree.makeAlong place segments).1 other = tree.entry? other ∨
      tree.entry? other = none ∧
        FileTree.entry? (tree.makeAlong place segments).1 other = some .directory ∧
        ∃ front, front <+: segments ∧ front.foldl stepTo place = other := by
  induction segments generalizing tree place with
  | nil => exact .inl rfl
  | cons segment segments ih =>
    unfold FileTree.makeAlong
    cases step : FileTree.step place segment with
    | error e => exact .inl rfl
    | ok next =>
      obtain rfl := step_eq_ok step
      cases made : tree.makeDirectory (stepTo place segment) with
      | error e =>
        exact .inl (by simp only [made])
      | ok later =>
        simp only [made]
        have further (front : List String) (begins : front <+: segments) :
            (segment :: front) <+: segment :: segments := List.cons_prefix_cons.2 ⟨rfl, begins⟩
        rcases makeDirectory_cases made with rfl | ⟨missing, rfl⟩
        · rcases ih later (stepTo place segment) with same | ⟨missing, entered, front, begins, leads⟩
          · exact .inl same
          · exact .inr ⟨missing, entered, segment :: front, further front begins, leads⟩
        · have placed : stepTo place segment ≠ [] :=
            ne_nil_of_entry?_ne (missing ▸ (Option.some_ne_none _).symm)
          have set : FileTree.entry? (tree.setEntry (stepTo place segment) .directory) other =
              if other = stepTo place segment then some .directory else tree.entry? other :=
            entry?_setEntry placed other
          rcases ih (tree.setEntry (stepTo place segment) .directory) (stepTo place segment) with
            same | ⟨missing', entered, front, begins, leads⟩
          · rw [same, set]
            split_ifs with here
            · subst here
              exact .inr ⟨missing, rfl, [segment], further [] (List.nil_prefix), rfl⟩
            · exact .inl rfl
          · rw [set] at missing'
            split_ifs at missing' with here
            exact .inr ⟨missing', entered, segment :: front, further front begins, leads⟩

theorem workingDirectory_makeAlong (tree : FileTree) (place : Location) (segments : List String) :
    (tree.makeAlong place segments).1.workingDirectory = tree.workingDirectory := by
  induction segments generalizing tree place with
  | nil => rfl
  | cons segment segments ih =>
    unfold FileTree.makeAlong
    cases FileTree.step place segment with
    | error e => rfl
    | ok next =>
      cases made : tree.makeDirectory next with
      | error e => simp only [made]
      | ok later =>
        simp only [made]
        rw [ih]
        rcases makeDirectory_cases made with rfl | ⟨-, rfl⟩
        · rfl
        · rfl

theorem segments_ofList_append_slash (text rest : List Char) :
    (Text.segments (text ++ '/' :: rest)).map String.ofList =
      (Text.segments text).map String.ofList ++ (Text.segments rest).map String.ofList := by
  rw [Text.segments_append_slash, List.map_append]

/-- The way to the directory of a path is the way to the path. -/
theorem passes_of_parent? (parent : Path.parent? path = some directory) (nonempty : directory ≠ "")
    (passes : tree.Passes directory place) : tree.Passes path place := by
  obtain ⟨rest, letters, slash⟩ := Path.exists_rest_of_parent? parent nonempty
  obtain ⟨front, begins, leads⟩ := passes
  have start : tree.start path = tree.start directory := by
    unfold FileTree.start
    cases first : directory.toList with
    | nil => exact absurd (String.toList_eq_nil_iff.1 first) nonempty
    | cons c more => rw [letters, first]; rfl
  rcases slash with slash | slash
  · obtain ⟨more, rfl⟩ := List.head?_eq_some_iff.1 slash
    refine ⟨front, ?_, start ▸ leads⟩
    unfold FileTree.segments
    rw [letters, segments_ofList_append_slash]
    exact begins.trans (List.prefix_append _ _)
  · -- the directory ends with a slash, after which no segment leads on
    obtain ⟨stem, whole⟩ := List.getLast?_eq_some_iff.1 slash
    have ends : FileTree.segments directory =
        (Text.segments stem).map String.ofList ++ [""] := by
      unfold FileTree.segments
      rw [whole, segments_ofList_append_slash]
      rfl
    have longer : (Text.segments stem).map String.ofList <+: FileTree.segments path := by
      unfold FileTree.segments
      rw [letters, whole, List.append_assoc, List.singleton_append, segments_ofList_append_slash]
      exact List.prefix_append _ _
    rw [ends, List.prefix_concat_iff] at begins
    rcases begins with rfl | begins
    · refine ⟨_, longer, ?_⟩
      rw [List.foldl_append] at leads
      rw [start]
      exact leads
    · exact ⟨front, begins.trans longer, start ▸ leads⟩

theorem changesOnly_makeDirectories (parent : Path.parent? path = some directory)
    (nonempty : directory ≠ "") (texts : Texts path text) :
    tree.ChangesOnly Texts (tree.makeDirectories directory).1 := by
  unfold FileTree.makeDirectories
  split
  · refine ⟨workingDirectory_makeAlong _ _ _, ?_⟩
    · intro place
      rcases entry?_makeAlong tree (tree.start directory) (FileTree.segments directory) place with
        same | ⟨missing, entered, way⟩
      · exact .kept same
      · rw [entered]
        exact .made texts (passes_of_parent? parent nonempty way) missing
  · exact .refl _ _

/-- Writing a text puts it at the place of its path. -/
theorem changesOnly_writeText (texts : Texts path text)
    (wrote : tree.writeText path text = .ok later) :
    tree.ChangesOnly Texts later ∧ later.contentAt path = some text.toUTF8 := by
  obtain ⟨place, resolved, free, rfl⟩ := writeText_eq_ok_iff.1 wrote
  have placed := ne_nil_of_entry?_ne free
  have set (other : Location) :
      FileTree.entry? (tree.setEntry place (.file text.toUTF8)) other =
        if other = place then some (.file text.toUTF8) else tree.entry? other :=
    entry?_setEntry placed other
  have changes : tree.ChangesOnly Texts (tree.setEntry place (.file text.toUTF8)) := by
    refine ⟨rfl, ?_⟩
    intro other
    rw [set]
    split_ifs with here
    · subst here
      exact .written texts (resolve_eq_ok resolved).symm free
    · exact .kept rfl
  refine ⟨changes, ?_⟩
  unfold contentAt
  rw [changes.growth.resolve resolved]
  exact content?_eq_some_iff.2 (by rw [set, if_pos rfl])

end FileTree

end ZodModules
