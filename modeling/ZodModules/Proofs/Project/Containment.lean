import ZodModules.Proofs.FileTree.Places
import ZodModules.Proofs.Project.FilePaths

/-!
# Files in the output directory

The settings say into which directory files are written; a document adds nothing to that. Whatever
the tags of a document are, the file of a module named after one stands in the output directory
itself, under a name that leads neither down nor up.
-/

namespace ZodModules

namespace FileTree

variable {tree : FileTree} {path name : String}

theorem start_append {directory : String} (nonempty : directory ≠ "") (name : String) :
    tree.start (directory ++ name) = tree.start directory := by
  obtain ⟨c, rest, letters⟩ := List.exists_cons_of_ne_nil (mt String.toList_eq_nil_iff.1 nonempty)
  unfold FileTree.start
  rw [String.toList_append, letters]
  rfl

theorem segments_of_not_mem (plain : '/' ∉ path.toList) : FileTree.segments path = [path] := by
  have single : Text.segments (path.toList ++ []) = [path.toList ++ []] :=
    Text.segments_append_of_not_mem plain rfl
  unfold FileTree.segments
  rw [List.append_nil] at single
  rw [single]
  simp

/-- After a slash a name takes the place of an empty segment. -/
theorem segments_append_of_closed {directory : String}
    (closed : directory.toList.getLast? = some '/') (plain : '/' ∉ name.toList) :
    ∃ front, FileTree.segments directory = front ++ [""] ∧
      FileTree.segments (directory ++ name) = front ++ [name] := by
  obtain ⟨stem, whole⟩ := List.getLast?_eq_some_iff.1 closed
  refine ⟨(Text.segments stem).map String.ofList, ?_, ?_⟩
  · unfold FileTree.segments
    rw [whole, Text.segments_append_slash, List.map_append]
    rfl
  · rw [← segments_of_not_mem plain]
    unfold FileTree.segments
    rw [String.toList_append, whole, List.append_assoc, List.singleton_append,
      Text.segments_append_slash, List.map_append]

/-- A name leads from a directory to a place right below it. -/
theorem placeOf_join (directory : String) (plain : '/' ∉ name.toList)
    (named : name ≠ "" ∧ name ≠ "." ∧ name ≠ "..") :
    tree.placeOf (Path.join directory name) = tree.placeOf directory ++ [name] := by
  have relative : name.toList.head? ≠ some '/' := by
    intro rooted
    exact plain (List.mem_of_mem_head? rooted)
  have only := segments_of_not_mem plain
  unfold Path.join
  rw [if_neg relative]
  unfold FileTree.placeOf
  by_cases empty : directory = ""
  · rw [if_pos (Or.inl (by simp [empty])), empty, String.empty_append, only]
    unfold FileTree.start
    rw [if_neg relative]
    exact stepTo_of_name named
  · have nonempty : ¬ directory.isEmpty := by simpa using empty
    by_cases closed : directory.toList.getLast? = some '/'
    · rw [if_pos (Or.inr closed), start_append empty]
      obtain ⟨front, before, after⟩ := segments_append_of_closed closed plain
      -- the empty segment leads nowhere
      rw [before, after, List.foldl_append, List.foldl_append]
      exact stepTo_of_name named
    · rw [if_neg (not_or.2 ⟨nonempty, closed⟩), String.append_assoc, start_append empty,
        ← String.append_assoc, segments_below, List.foldl_append, only]
      exact stepTo_of_name named

end FileTree

namespace Naming

variable {name : String}

theorem IsPlain.not_mem (plain : IsPlain name) {c : Char} (other : Code.isWordChar c = false) :
    c ∉ name.toList := by
  intro member
  rw [plain.isWordChar member] at other
  cases other

/-- A text after a plain name begins with no other character than the name does. -/
theorem IsPlain.head?_append (plain : IsPlain name) (text : String) {c : Char}
    (first : (name ++ text).toList.head? = some c) : Code.isWordChar c := by
  obtain ⟨d, rest, letters⟩ := List.exists_cons_of_ne_nil (mt String.toList_eq_nil_iff.1 plain.1)
  rw [String.toList_append, letters, List.cons_append, List.head?_cons, Option.some.injEq] at first
  apply plain.isWordChar
  rw [letters, first]
  exact List.mem_cons_self

/-- With an extension a plain name leads neither nowhere nor up. -/
theorem IsPlain.with_extension (plain : IsPlain name) (extension : String) :
    name ++ "." ++ extension ≠ "" ∧ name ++ "." ++ extension ≠ "." ∧
      name ++ "." ++ extension ≠ ".." := by
  have first := fun c => plain.head?_append ("." ++ extension) (c := c)
  rw [← String.append_assoc] at first
  refine ⟨?_, ?_, ?_⟩
  · intro same
    have point : '.' ∈ (name ++ "." ++ extension).toList := by simp
    rw [same] at point
    cases point
  · intro same
    rw [same] at first
    exact absurd (first '.' rfl) (by decide)
  · intro same
    rw [same] at first
    exact absurd (first '.' rfl) (by decide)

end Naming

namespace Build

/-- The file of a module that is not the shared one is named after a tag, and it stands in the output
directory under that name with the extension. -/
theorem tag_files_in_directory :
    (∀ tag, Naming.IsPlain (Naming.entityName tag)) ∧
      ∀ settings document build, ofDocument settings document = .ok build →
        ∀ file ∈ build.files, ∀ name, file.entity = some name →
          name ≠ settings.naming.sharedEntity →
            Naming.IsPlain name ∧ (∃ tag, name = Naming.entityName tag) ∧
            file.path =
              (if settings.output.directory.isEmpty ∨
                  settings.output.directory.toList.getLast? = some '/' then
                settings.output.directory
              else settings.output.directory ++ "/") ++
                (name ++ "." ++ settings.output.extension) ∧
            ('/' ∉ settings.output.extension.toList → ∀ tree : FileTree,
              tree.placeOf file.path = tree.placeOf settings.output.directory ++
                [name ++ "." ++ settings.output.extension]) := by
  refine ⟨Naming.isPlain_pascalIdentifier, ?_⟩
  intro settings document build built file member name entity apart
  obtain ⟨config, output, valid, ran, rfl⟩ := ofDocument_eq_ok_iff.1 built
  obtain ⟨-, rfl⟩ := Generation.tryRun_eq_ok_iff.1 ran
  obtain ⟨shared, -⟩ := Settings.sharedEntity_of_config valid
  have path : file.path = settings.moduleFile name := path_of_entity member entity
  obtain ⟨tag, tagged⟩ : ∃ tag, name = Naming.entityName tag := by
    rcases List.mem_append.1 member with listed | listed
    · obtain ⟨module, declared, rfl⟩ := List.mem_map.1 listed
      cases entity
      exact Generation.exists_tag_of_mem_modules declared (shared ▸ apart)
    · rw [List.mem_singleton.1 listed] at entity
      cases entity
  have plain : Naming.IsPlain name := by
    rw [tagged]
    exact Naming.isPlain_pascalIdentifier tag
  have relative : (name ++ "." ++ settings.output.extension).toList.head? ≠ some '/' := by
    intro rooted
    rw [String.append_assoc] at rooted
    exact absurd (plain.head?_append _ rooted) (by decide)
  refine ⟨plain, ⟨tag, tagged⟩, ?_, ?_⟩
  · rw [path]
    unfold Settings.moduleFile Path.join
    rw [if_neg relative]
    split_ifs
    · rfl
    · rfl
  · intro extension tree
    rw [path]
    refine FileTree.placeOf_join _ ?_ (plain.with_extension _)
    have name_plain := plain.not_mem (c := '/') (by decide)
    simp [name_plain, extension]

section Stray

open Generation (orderRegistry)

/-- Orders have a tag that looks like a path. -/
def strayUsage : Usage := .ofList [("Order", "../../etc/passwd.d"), ("Money", "../../etc/passwd.d")]

theorem tryRun_stray :
    Generation.tryRun {} orderRegistry strayUsage =
      .ok (Generation.run {} orderRegistry strayUsage) := by
  refine Generation.tryRun_eq_ok_iff.2 ⟨?_, rfl⟩
  show (SymbolTable.allocateAll (Generation.drafts {} orderRegistry).1 {}
    (Generation.drafts {} orderRegistry).2).2.outcome false = _
  unfold Generation.drafts
  rw [Generation.closures_orders]
  decide +kernel

/-- The file of a tag that looks like a path stands in the output directory. -/
theorem stray_tag_in_directory :
    ∃ build, ofDocument {} ⟨none, orderRegistry, strayUsage⟩ = .ok build ∧
      ∃ file ∈ build.files, file.entity = some "EtcPasswdD" ∧
        file.path = "./generated/EtcPasswdD.ts" ∧
          ∀ tree : FileTree,
            tree.placeOf file.path = tree.placeOf "./generated" ++ ["EtcPasswdD.ts"] := by
  have built : ofDocument {} ⟨none, orderRegistry, strayUsage⟩ = .ok _ :=
    ofDocument_eq_ok_iff.2 ⟨{}, _, rfl, tryRun_stray, rfl⟩
  refine ⟨_, built, ?_⟩
  have listed : some "EtcPasswdD" ∈
      (runFiles {} {} orderRegistry strayUsage).map (·.entity) := by
    rw [map_entity_filesOf, Generation.map_name_modules]
    decide +kernel
  obtain ⟨file, member, entity⟩ := List.mem_map.1 listed
  obtain ⟨-, -, path, place⟩ := tag_files_in_directory.2 {} _ _ built file member "EtcPasswdD" entity
    (by decide)
  exact ⟨file, member, entity, path, place (by decide)⟩

end Stray

end Build

end ZodModules
