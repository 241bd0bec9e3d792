import Mathlib.Logic.Basic
import Mathlib.Tactic.SplitIfs
import ZodModules.FileTree

/-!
# Places in a tree of files

The place that a path leads to depends on the path and the working directory alone; the tree decides
only whether the path can be followed. Making directories keeps what is in every file, and writing a
file keeps what is in every other file. A path that leaves only directories upwards therefore reads
the same for as long as the file at its own place stays the same.
-/

namespace ZodModules.FileTree

variable {tree later latest : FileTree} {place target : Location} {path text segment : String}
  {segments : List String}

/-- The place that a segment leads to. -/
def stepTo (place : Location) (segment : String) : Location :=
  if segment = "" ∨ segment = "." then place
  else if segment = ".." then place.dropLast
  else place ++ [segment]

/-- The place that a path leads to, whether or not it can be followed. -/
def placeOf (tree : FileTree) (path : String) : Location :=
  (FileTree.segments path).foldl stepTo (tree.start path)

/-- What is in the file at a place. -/
def content? (tree : FileTree) (place : Location) : Option ByteArray :=
  match tree.entry? place with
  | some (.file content) => some content
  | _ => none

/-- What is in the file that a path leads to. -/
def contentAt (tree : FileTree) (path : String) : Option ByteArray :=
  match tree.resolve path with
  | .ok place => tree.content? place
  | .error _ => none

/-- Whatever stands in a tree stands in a directory. -/
structure Rooted (tree : FileTree) : Prop where
  workingDirectory : tree.entry? tree.workingDirectory = some .directory
  parent : ∀ {place}, tree.entry? place ≠ none → tree.entry? place.dropLast = some .directory

/-- A later tree has the directories of an earlier one. -/
structure Extends (tree later : FileTree) : Prop where
  workingDirectory : later.workingDirectory = tree.workingDirectory
  directory : ∀ {place}, tree.entry? place = some .directory →
    later.entry? place = some .directory

/-- From a place, segments lead upwards only out of directories. -/
def SteadyFrom (tree : FileTree) : Location → List String → Prop
  | _, [] => True
  | place, segment :: rest =>
    (segment = ".." → tree.entry? place = some .directory) ∧
      tree.SteadyFrom (stepTo place segment) rest

/-- A path leads upwards only out of directories. -/
def Steady (tree : FileTree) (path : String) : Prop :=
  tree.SteadyFrom (tree.start path) (FileTree.segments path)

instance decidableSteadyFrom (tree : FileTree) :
    (place : Location) → (segments : List String) → Decidable (tree.SteadyFrom place segments)
  | _, [] => isTrue trivial
  | place, segment :: rest =>
    haveI := decidableSteadyFrom tree (stepTo place segment) rest
    inferInstanceAs (Decidable (_ ∧ _))

instance (tree : FileTree) (path : String) : Decidable (tree.Steady path) :=
  inferInstanceAs (Decidable (tree.SteadyFrom _ _))

/-- Paths lead to different places of a tree, and upwards only out of its directories. -/
structure KeepsApart (tree : FileTree) (Names : String → Prop) : Prop where
  steady : ∀ path, Names path → tree.Steady path
  apart : ∀ path, Names path → ∀ other, Names other →
    tree.placeOf path = tree.placeOf other → path = other

/-! ## Steps -/

/-- A segment stays, leads upwards or leads to a name. -/
theorem stepTo_cases (place : Location) (segment : String) :
    stepTo place segment = place ∨
      segment = ".." ∧ stepTo place segment = place.dropLast ∨
      stepTo place segment = place ++ [segment] := by
  unfold stepTo
  split
  · exact .inl rfl
  · split
    · exact .inr (.inl ⟨‹_›, rfl⟩)
    · exact .inr (.inr rfl)

theorem step_eq_ok (h : step place segment = .ok target) : target = stepTo place segment := by
  unfold step at h
  unfold stepTo
  split at h
  · rw [if_pos ‹_›]
    cases h
    rfl
  · rw [if_neg ‹_›]
    split at h
    · rw [if_pos ‹_›]
      cases h
      rfl
    · rw [if_neg ‹_›]
      split at h
      · cases h
      · cases h
        rfl

theorem checkDirectory_eq_ok_iff :
    tree.checkDirectory place = .ok () ↔ tree.entry? place = some .directory := by
  unfold checkDirectory
  split <;> simp_all

theorem follow_cons_eq_ok_iff :
    tree.follow place (segment :: segments) = .ok target ↔
      tree.entry? place = some .directory ∧
        ∃ next, step place segment = .ok next ∧ tree.follow next segments = .ok target := by
  rw [follow, ← checkDirectory_eq_ok_iff]
  cases tree.checkDirectory place with
  | error e => exact ⟨nofun, nofun⟩
  | ok _ =>
    cases step place segment with
    | error e => exact ⟨nofun, nofun⟩
    | ok next =>
      show tree.follow next segments = .ok target ↔ _
      simp

theorem follow_eq_ok (h : tree.follow place segments = .ok target) :
    target = segments.foldl stepTo place := by
  induction segments generalizing place with
  | nil =>
    cases h
    rfl
  | cons segment segments ih =>
    obtain ⟨-, next, step, h⟩ := follow_cons_eq_ok_iff.1 h
    rw [List.foldl_cons, ← step_eq_ok step]
    exact ih h

theorem segments_ne_nil (path : String) : FileTree.segments path ≠ [] :=
  fun empty => Text.segments_ne_nil _ (List.map_eq_nil_iff.1 empty)

theorem resolve_eq_ok_iff :
    tree.resolve path = .ok target ↔
      path.isEmpty = false ∧ isFollowable path = true ∧
        tree.follow (tree.start path) (FileTree.segments path) = .ok target := by
  unfold resolve
  cases path.isEmpty <;> cases isFollowable path <;> simp

theorem resolve_eq_ok (h : tree.resolve path = .ok target) : target = tree.placeOf path :=
  follow_eq_ok (resolve_eq_ok_iff.1 h).2.2

/-! ## Entries -/

theorem entry?_setEntry {entry : Entry} (placed : place ≠ []) (other : Location) :
    FileTree.entry? (tree.setEntry place entry) other =
      if other = place then some entry else tree.entry? other := by
  cases other with
  | nil => exact (if_neg (Ne.symm placed)).symm
  | cons name names =>
    -- the look-up in the tree compares names, the one in the lemma whole places
    have sees := Entries.lookup_set place (name :: names) entry tree.entries
    rwa [lawful_beq_subsingleton instBEqOfDecidableEq List.instBEq] at sees

theorem ne_nil_of_entry?_ne (h : tree.entry? place ≠ some .directory) : place ≠ [] := by
  rintro rfl
  exact h rfl

theorem content?_of_directory (h : tree.entry? place = some .directory) :
    tree.content? place = none := by
  rw [content?, h]

theorem content?_eq_some_iff {content : ByteArray} :
    tree.content? place = some content ↔ tree.entry? place = some (.file content) := by
  unfold content?
  split <;> simp_all

/-- A tree is rooted if every place in its list is that of something in a directory. -/
theorem rooted_of_entries (start : tree.entry? tree.workingDirectory = some .directory)
    (listed : ∀ e ∈ tree.entries, tree.entry? e.1.dropLast = some .directory) : tree.Rooted := by
  refine ⟨start, fun {place} there => ?_⟩
  cases place with
  | nil => rfl
  | cons name names =>
    have found : (tree.entries.lookup (name :: names)).isSome := Option.isSome_iff_ne_none.2 there
    obtain ⟨entry, lookup⟩ := Option.isSome_iff_exists.1 found
    obtain ⟨earlier, later, entries, -⟩ := List.lookup_eq_some_iff.1 lookup
    exact listed (name :: names, entry) (by rw [entries]; simp)

namespace Extends

theorem refl (tree : FileTree) : tree.Extends tree :=
  ⟨rfl, id⟩

theorem trans (before : tree.Extends later) (after : later.Extends latest) :
    tree.Extends latest :=
  ⟨after.workingDirectory.trans before.workingDirectory,
    fun h => after.directory (before.directory h)⟩

theorem start (growth : tree.Extends later) (path : String) :
    later.start path = tree.start path := by
  unfold FileTree.start
  rw [growth.workingDirectory]

theorem placeOf (growth : tree.Extends later) (path : String) :
    later.placeOf path = tree.placeOf path := by
  unfold FileTree.placeOf
  rw [growth.start]

theorem follow (growth : tree.Extends later)
    (h : tree.follow place segments = .ok target) : later.follow place segments = .ok target := by
  induction segments generalizing place with
  | nil => exact h
  | cons segment segments ih =>
    obtain ⟨directory, next, step, h⟩ := follow_cons_eq_ok_iff.1 h
    exact follow_cons_eq_ok_iff.2 ⟨growth.directory directory, next, step, ih h⟩

/-- What could be followed still leads to the same place. -/
theorem resolve (growth : tree.Extends later) (h : tree.resolve path = .ok target) :
    later.resolve path = .ok target := by
  obtain ⟨named, followable, h⟩ := resolve_eq_ok_iff.1 h
  refine resolve_eq_ok_iff.2 ⟨named, followable, ?_⟩
  rw [growth.start]
  exact growth.follow h

theorem steadyFrom (growth : tree.Extends later) (steady : tree.SteadyFrom place segments) :
    later.SteadyFrom place segments := by
  induction segments generalizing place with
  | nil => trivial
  | cons segment segments ih =>
    exact ⟨fun upwards => growth.directory (steady.1 upwards), ih steady.2⟩

theorem steady (growth : tree.Extends later) (steady : tree.Steady path) : later.Steady path := by
  unfold Steady
  rw [growth.start]
  exact growth.steadyFrom steady

end Extends

/-! ## What a path reads -/

namespace Rooted

theorem directory_of_name (rooted : tree.Rooted) {name : String}
    (there : tree.entry? (place ++ [name]) ≠ none) : tree.entry? place = some .directory := by
  have parent := rooted.parent there
  rwa [List.dropLast_concat] at parent

/-- A step from a directory leads to something that stands, or would stand, in a directory. -/
theorem parent_stepTo (rooted : tree.Rooted) (directory : tree.entry? place = some .directory)
    (segment : String) : tree.entry? (stepTo place segment).dropLast = some .directory := by
  have parent {place : Location} (directory : tree.entry? place = some .directory) :
      tree.entry? place.dropLast = some .directory := rooted.parent (by rw [directory]; nofun)
  rcases stepTo_cases place segment with stays | ⟨-, upwards⟩ | named
  · rw [stays]
    exact parent directory
  · rw [upwards]
    exact parent (parent directory)
  · rwa [named, List.dropLast_concat]

/-- A directory that a step enters is entered from a directory. -/
theorem directory_of_stepTo (rooted : tree.Rooted)
    (steady : segment = ".." → tree.entry? place = some .directory)
    (h : tree.entry? (stepTo place segment) = some .directory) :
    tree.entry? place = some .directory := by
  rcases stepTo_cases place segment with stays | ⟨upwards, -⟩ | named
  · rwa [stays] at h
  · exact steady upwards
  · rw [named] at h
    exact rooted.directory_of_name (by rw [h]; nofun)

/-- A way that a later tree has to a file was there before if the file was. -/
theorem follow_of_extends (rooted : tree.Rooted) (steady : tree.SteadyFrom place segments)
    (h : later.follow place segments = .ok target) {content : ByteArray}
    (before : tree.content? target = some content) (after : later.content? target = some content)
    (way : segments ≠ []) :
    tree.entry? place = some .directory ∧ tree.follow place segments = .ok target := by
  induction segments generalizing place with
  | nil => exact absurd rfl way
  | cons segment rest ih =>
    obtain ⟨directory, next, step, h⟩ := follow_cons_eq_ok_iff.1 h
    have next_eq := step_eq_ok step
    suffices reached : tree.entry? place = some .directory ∧ tree.follow next rest = .ok target from
      ⟨reached.1, follow_cons_eq_ok_iff.2 ⟨reached.1, next, step, reached.2⟩⟩
    cases rest with
    | nil =>
      obtain rfl : next = target := Except.ok.inj h
      refine ⟨?_, rfl⟩
      rcases stepTo_cases place segment with stays | ⟨upwards, -⟩ | named
      · -- the place would be a directory and a file at once
        rw [next_eq, stays, content?_of_directory directory] at after
        cases after
      · exact steady.1 upwards
      · rw [next_eq, named, content?_eq_some_iff] at before
        exact rooted.directory_of_name (by rw [before]; nofun)
    | cons following rest =>
      have steadily : tree.SteadyFrom next (following :: rest) := next_eq ▸ steady.2
      obtain ⟨entered, followed⟩ := ih steadily h (by simp)
      exact ⟨rooted.directory_of_stepTo steady.1 (next_eq ▸ entered), followed⟩

/-- A steady path reads the same if the file at its place is the same. -/
theorem contentAt_eq (rooted : tree.Rooted) (growth : tree.Extends later)
    (steady : tree.Steady path)
    (same : later.content? (tree.placeOf path) = tree.content? (tree.placeOf path)) :
    later.contentAt path = tree.contentAt path := by
  unfold contentAt
  cases before : tree.resolve path with
  | ok place =>
    rw [growth.resolve before, resolve_eq_ok before]
    exact same
  | error e =>
    cases after : later.resolve path with
    | error e => rfl
    | ok place =>
      show later.content? place = none
      have place_eq : place = tree.placeOf path := (resolve_eq_ok after).trans (growth.placeOf path)
      rw [Option.eq_none_iff_forall_ne_some]
      intro content read
      obtain ⟨named, followable, follow⟩ := resolve_eq_ok_iff.1 after
      rw [growth.start] at follow
      have := rooted.follow_of_extends steady follow (by rw [place_eq, ← same, ← place_eq, read])
        read (segments_ne_nil path)
      rw [resolve_eq_ok_iff.2 ⟨named, followable, this.2⟩] at before
      cases before

end Rooted

theorem fromUTF8?_eq_some_iff {content : ByteArray} :
    String.fromUTF8? content = some text ↔ content = text.toUTF8 := by
  constructor
  · intro h
    unfold String.fromUTF8? at h
    split at h
    · cases h
      rfl
    · cases h
  · rintro rfl
    simp only [String.fromUTF8?, String.toUTF8_eq_toByteArray, dif_pos text.isValidUTF8]
    rfl

/-- A text is read if it is what the file holds. -/
theorem readText_eq_ok_iff :
    tree.readText path = .ok text ↔ tree.contentAt path = some text.toUTF8 := by
  unfold readText contentAt
  cases tree.resolve path with
  | error e => simp [Bind.bind, Except.bind]
  | ok place =>
    dsimp only [Bind.bind, Except.bind]
    rw [content?_eq_some_iff]
    cases tree.entry? place with
    | none => simp
    | some entry =>
      cases entry with
      | directory => simp
      | file content =>
        rw [Option.some.injEq, Entry.file.injEq, ← fromUTF8?_eq_some_iff]
        cases read : String.fromUTF8? content <;> simp [read]

/-! ## Making directories -/

/-- What making directories in a tree does to it: no file is touched. -/
structure Grown (tree later : FileTree) : Prop where
  rooted : later.Rooted
  growth : tree.Extends later
  same : ∀ place, later.content? place = tree.content? place

theorem Grown.refl (rooted : tree.Rooted) : tree.Grown tree :=
  ⟨rooted, .refl tree, fun _ => rfl⟩

theorem Grown.trans (before : tree.Grown later) (after : later.Grown latest) : tree.Grown latest :=
  ⟨after.rooted, before.growth.trans after.growth,
    fun place => (after.same place).trans (before.same place)⟩

namespace Rooted

/-- A place in a directory takes an entry. -/
theorem setEntry (rooted : tree.Rooted) (entry : Entry)
    (parent : tree.entry? place.dropLast = some .directory)
    (free : tree.entry? place ≠ some .directory) :
    (tree.setEntry place entry).Rooted ∧ tree.Extends (tree.setEntry place entry) := by
  have placed := ne_nil_of_entry?_ne free
  have kept {other : Location} (h : tree.entry? other = some .directory) :
      FileTree.entry? (tree.setEntry place entry) other = some .directory := by
    rw [entry?_setEntry placed, if_neg (fun same : other = place => free (same ▸ h)), h]
  refine ⟨⟨kept rooted.workingDirectory, ?_⟩, rfl, kept⟩
  intro other there
  rw [entry?_setEntry placed] at there
  split at there
  · subst other
    exact kept parent
  · exact kept (rooted.parent there)

theorem makeDirectory (rooted : tree.Rooted)
    (parent : tree.entry? place.dropLast = some .directory)
    (made : tree.makeDirectory place = .ok later) :
    tree.Grown later ∧ later.entry? place = some .directory := by
  unfold FileTree.makeDirectory at made
  split at made
  · cases made
    exact ⟨.refl rooted, ‹_›⟩
  · cases made
  · rename_i missing
    cases made
    have free : tree.entry? place ≠ some .directory := by rw [missing]; nofun
    have placed := ne_nil_of_entry?_ne free
    obtain ⟨stays, growth⟩ := rooted.setEntry .directory parent free
    refine ⟨⟨stays, growth, fun other => ?_⟩, by rw [entry?_setEntry placed, if_pos rfl]⟩
    unfold content?
    rw [entry?_setEntry placed]
    split_ifs with same
    · rw [same, missing]
    · rfl

theorem makeAlong (rooted : tree.Rooted) (directory : tree.entry? place = some .directory) :
    tree.Grown (tree.makeAlong place segments).1 := by
  induction segments generalizing tree place with
  | nil => exact .refl rooted
  | cons segment segments ih =>
    unfold FileTree.makeAlong
    cases step : FileTree.step place segment with
    | error e => exact .refl rooted
    | ok next =>
      cases made : tree.makeDirectory next with
      | error e =>
        simp only [made]
        exact .refl rooted
      | ok later =>
        have parent := rooted.parent_stepTo directory segment
        rw [← step_eq_ok step] at parent
        obtain ⟨grown, entered⟩ := rooted.makeDirectory parent made
        simp only [made]
        exact grown.trans (ih grown.rooted entered)

/-- Directories are made, all or some, and no file is touched. -/
theorem makeDirectories (rooted : tree.Rooted) (path : String) :
    tree.Grown (tree.makeDirectories path).1 := by
  unfold FileTree.makeDirectories
  split
  · refine rooted.makeAlong ?_
    unfold start
    split
    · rfl
    · exact rooted.workingDirectory
  · exact .refl rooted

end Rooted

/-! ## Writing a file -/

theorem writeText_eq_ok_iff :
    tree.writeText path text = .ok later ↔
      ∃ place, tree.resolve path = .ok place ∧ tree.entry? place ≠ some .directory ∧
        later = tree.setEntry place (.file text.toUTF8) := by
  unfold writeText writeBytes
  cases tree.resolve path with
  | error e => exact ⟨nofun, nofun⟩
  | ok place =>
    show (if tree.entry? place = some .directory then Except.error FileError.isDirectory
      else .ok (tree.setEntry place (.file text.toUTF8))) = _ ↔ _
    split_ifs with directory
    · simp [directory]
    · rw [Except.ok.injEq]
      constructor
      · rintro rfl
        exact ⟨place, rfl, directory, rfl⟩
      · rintro ⟨_, same, -, rfl⟩
        cases same
        rfl

/-- Where a path leads, something stands or would stand in a directory. -/
theorem Rooted.parent_of_follow (rooted : tree.Rooted)
    (h : tree.follow place segments = .ok target) (way : segments ≠ []) :
    tree.entry? target.dropLast = some .directory := by
  induction segments generalizing place with
  | nil => exact absurd rfl way
  | cons segment rest ih =>
    obtain ⟨directory, next, step, h⟩ := follow_cons_eq_ok_iff.1 h
    cases rest with
    | nil =>
      cases h
      rw [step_eq_ok step]
      exact rooted.parent_stepTo directory segment
    | cons following rest => exact ih h (by simp)

/-- What is written is at the place of the path, and no other file is touched. -/
theorem Rooted.writeText (rooted : tree.Rooted) (written : tree.writeText path text = .ok later) :
    later.Rooted ∧ tree.Extends later ∧ later.contentAt path = some text.toUTF8 ∧
      ∀ place ≠ tree.placeOf path, later.content? place = tree.content? place := by
  obtain ⟨place, resolved, free, rfl⟩ := writeText_eq_ok_iff.1 written
  have parent : tree.entry? place.dropLast = some .directory :=
    rooted.parent_of_follow (resolve_eq_ok_iff.1 resolved).2.2 (segments_ne_nil path)
  have placed := ne_nil_of_entry?_ne free
  obtain ⟨stays, growth⟩ := rooted.setEntry (.file text.toUTF8) parent free
  refine ⟨stays, growth, ?_, fun other apart => ?_⟩
  · unfold contentAt
    rw [growth.resolve resolved]
    exact content?_eq_some_iff.2 (by rw [entry?_setEntry placed, if_pos rfl])
  · unfold content?
    rw [entry?_setEntry placed, if_neg (resolve_eq_ok resolved ▸ apart)]

/-! ## Paths below a directory -/

/-- A path whose segments are all names. -/
def Descends (path : String) : Prop :=
  ∀ segment ∈ FileTree.segments path, segment ≠ "" ∧ segment ≠ "." ∧ segment ≠ ".."

instance (path : String) : Decidable (Descends path) :=
  inferInstanceAs (Decidable (∀ _ ∈ _, _))

/-- A path leads from a directory down to something below it. -/
def Below (directory path : String) : Prop :=
  ∃ name, Descends name ∧ path = directory ++ "/" ++ name

theorem stepTo_of_name (named : segment ≠ "" ∧ segment ≠ "." ∧ segment ≠ "..") :
    stepTo place segment = place ++ [segment] := by
  rw [stepTo, if_neg (not_or.2 ⟨named.1, named.2.1⟩), if_neg named.2.2]

theorem foldl_stepTo_of_names
    (named : ∀ segment ∈ segments, segment ≠ "" ∧ segment ≠ "." ∧ segment ≠ "..") :
    segments.foldl stepTo place = place ++ segments := by
  induction segments generalizing place with
  | nil => exact (List.append_nil place).symm
  | cons segment segments ih =>
    obtain ⟨own, named⟩ := List.forall_mem_cons.1 named
    rw [List.foldl_cons, stepTo_of_name own, ih named, List.append_assoc]
    rfl

theorem steadyFrom_append {rest : List String}
    (named : ∀ segment ∈ rest, segment ≠ "" ∧ segment ≠ "." ∧ segment ≠ "..")
    (steady : tree.SteadyFrom place segments) : tree.SteadyFrom place (segments ++ rest) := by
  induction segments generalizing place with
  | nil =>
    clear steady
    induction rest generalizing place with
    | nil => trivial
    | cons segment rest ih =>
      obtain ⟨own, named⟩ := List.forall_mem_cons.1 named
      exact ⟨fun upwards => absurd upwards own.2.2, ih named⟩
  | cons segment segments ih => exact ⟨steady.1, ih steady.2⟩

theorem segments_below (directory name : String) :
    FileTree.segments (directory ++ "/" ++ name) =
      FileTree.segments directory ++ FileTree.segments name := by
  unfold FileTree.segments
  rw [String.append_assoc, String.toList_append, String.toList_append]
  show ((Text.segments (directory.toList ++ '/' :: name.toList)).map String.ofList) = _
  rw [Text.segments_append_slash, List.map_append]

theorem segments_injective {path other : String}
    (h : FileTree.segments path = FileTree.segments other) : path = other := by
  have same : Text.segments path.toList = Text.segments other.toList :=
    (List.map_inj_right fun _ _ => String.ofList_inj.1).1 h
  exact String.toList_injective (Text.segments_injective same)

/-- Paths below one directory are kept apart. -/
theorem keepsApart_below {directory : String} (nonempty : directory ≠ "")
    (steady : tree.Steady directory) :
    tree.KeepsApart (Below directory) := by
  have start (name : String) : tree.start (directory ++ "/" ++ name) = tree.start directory := by
    obtain ⟨c, rest, letters⟩ := List.exists_cons_of_ne_nil (mt String.toList_eq_nil_iff.1 nonempty)
    unfold FileTree.start
    rw [String.toList_append, String.toList_append, letters]
    rfl
  have placeOf {name : String} (descends : Descends name) :
      tree.placeOf (directory ++ "/" ++ name) =
        tree.placeOf directory ++ FileTree.segments name := by
    unfold FileTree.placeOf
    rw [segments_below, List.foldl_append, start, foldl_stepTo_of_names descends]
  constructor
  · rintro path ⟨name, descends, rfl⟩
    unfold Steady
    rw [start, segments_below]
    exact steadyFrom_append descends steady
  · rintro path ⟨name, descends, rfl⟩ other ⟨name', descends', rfl⟩ same
    rw [placeOf descends, placeOf descends'] at same
    rw [segments_injective (List.append_cancel_left same)]

end ZodModules.FileTree
