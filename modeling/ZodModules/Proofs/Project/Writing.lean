import ZodModules.Project.Writing
import ZodModules.Proofs.FileTree.Places

/-!
# Writing files and checking them

On any disk that keeps contents under paths, writing files with distinct paths writes exactly those
that the check calls out of date, and leaves nothing for the check or for a second run to find. A
run that fails has done a beginning of the list and has touched nothing after it.
-/

namespace ZodModules

/-! ## Running programs that fail or change a state -/

namespace Program

variable {ε σ : Type}

theorem run_bind_except {α β : Type} (x : ExceptT ε (StateM σ) α)
    (f : α → ExceptT ε (StateM σ) β) (state : σ) :
    (x >>= f).run.run state =
      match x.run.run state with
      | (.ok a, after) => (f a).run.run after
      | (.error e, after) => (.error e, after) := by
  rw [ExceptT.run_bind, StateT.run_bind]
  rcases x.run.run state with ⟨result | result, after⟩ <;> rfl

theorem run_bind_eq_ok_iff {α β : Type} {x : ExceptT ε (StateM σ) α}
    {f : α → ExceptT ε (StateM σ) β} {state last : σ} {b : β} :
    (x >>= f).run.run state = (.ok b, last) ↔
      ∃ a after, x.run.run state = (.ok a, after) ∧ (f a).run.run after = (.ok b, last) := by
  rw [run_bind_except]
  rcases x.run.run state with ⟨e | a, after⟩
  · exact ⟨nofun, nofun⟩
  · constructor
    · intro h
      exact ⟨a, after, rfl, h⟩
    · rintro ⟨_, _, same, h⟩
      cases same
      exact h

theorem run_bind_eq_error_iff {α β : Type} {x : ExceptT ε (StateM σ) α}
    {f : α → ExceptT ε (StateM σ) β} {state last : σ} {e : ε} :
    (x >>= f).run.run state = (.error e, last) ↔
      x.run.run state = (.error e, last) ∨
        ∃ a after, x.run.run state = (.ok a, after) ∧
          (f a).run.run after = (.error e, last) := by
  rw [run_bind_except]
  rcases x.run.run state with ⟨e | a, after⟩
  · constructor
    · intro h
      cases h
      exact .inl rfl
    · rintro (h | ⟨_, _, same, -⟩)
      · cases h
        rfl
      · cases same
  · constructor
    · intro h
      exact .inr ⟨a, after, rfl, h⟩
    · rintro (h | ⟨_, _, same, h⟩)
      · cases h
      · cases same
        exact h

theorem run_bind_state {α β : Type} (x : StateM σ α)
    (f : α → ExceptT ε (StateM σ) β) (state : σ) :
    ((x : ExceptT ε (StateM σ) α) >>= f).run.run state =
      (f (x.run state).1).run.run (x.run state).2 := by
  rw [ExceptT.run_bind, StateT.run_bind]
  rfl

theorem ends_of_toOption {α : Type} {ran : Except ε α × σ} {a : α}
    (h : ran.1.toOption = some a) : ∃ after, ran = (.ok a, after) := by
  obtain ⟨result | result, after⟩ := ran
  · cases h
  · cases h
    exact ⟨after, rfl⟩

theorem run_filterM {α : Type} {test : α → StateM σ Bool} {passes : α → Bool} {state : σ}
    {items : List α} (tested : ∀ item ∈ items, (test item).run state = (passes item, state)) :
    (items.filterM test).run state = (items.filter passes, state) := by
  have collected (found : List α) : (items.filterAuxM test found).run state =
      ((items.filter passes).reverse ++ found, state) := by
    induction items generalizing found with
    | nil => rfl
    | cons item items ih =>
      rw [List.filterAuxM, StateT.run_bind, tested item List.mem_cons_self]
      show (items.filterAuxM test (bif passes item then item :: found else found)).run state = _
      rw [ih fun item mem => tested item (List.mem_cons_of_mem _ mem)]
      cases passing : passes item <;> simp [passing]
  unfold List.filterM
  rw [StateT.run_bind, collected, List.append_nil]
  show ((items.filter passes).reverse.reverse, state) = _
  rw [List.reverse_reverse]

end Program

open Program

/-! ## Disks -/

/-- How the operations of a host act on what is under a path. -/
structure Disk (σ : Type) [Host (StateM σ)] where
  /-- The states that the disk can be in. -/
  Valid : σ → Prop
  /-- The paths that the disk keeps apart. -/
  Names : String → Prop
  /-- What is in the file under a path. -/
  content? : σ → String → Option ByteArray
  /-- Reading gives the text that is in the file, and changes nothing. -/
  read : ∀ {state path}, Valid state → Names path →
    ∃ result, (Host.readText path : StateM σ _).run state = (result, state) ∧
      ∀ text, result = .ok text ↔ content? state path = some text.toUTF8
  /-- Making directories changes no file, even if it fails. -/
  makeDirectories : ∀ {state directory result after}, Valid state →
    (Host.makeDirectories directory : StateM σ _).run state = (result, after) →
      Valid after ∧ ∀ path, Names path → content? after path = content? state path
  /-- Writing puts the text into the file unless it fails, and changes no other file. -/
  write : ∀ {state path text result after}, Valid state → Names path →
    (Host.writeText path text : StateM σ _).run state = (result, after) →
      Valid after ∧ (result = .ok () → content? after path = some text.toUTF8) ∧
        ∀ other, Names other → other ≠ path → content? after other = content? state other

namespace GeneratedFile

variable {σ : Type} [Host (StateM σ)]

/-- How writing a file ends, and the state after it. -/
def runWrite (mode : WriteMode) (file : GeneratedFile) (state : σ) :
    Except Failure WriteOutcome × σ :=
  (file.write mode : ExceptT Failure (StateM σ) _).run.run state

/-- How writing files ends, and the state after it. -/
def runAll (mode : WriteMode) (files : List GeneratedFile) (state : σ) :
    Except Failure (List WriteOutcome) × σ :=
  (writeAll mode files : ExceptT Failure (StateM σ) _).run.run state

/-- The paths that are out of date, and the state after checking them. -/
def runCheck (files : List GeneratedFile) (state : σ) : List String × σ :=
  (outdated files : StateM σ _).run state

/-- A failure is that of writing a file, or of making its directory. -/
inductive FailsWith (file : GeneratedFile) : Failure → Prop
  | directory {directory : String} (reason : FileError) :
      Path.parent? file.path = some directory →
        file.FailsWith (.writing (.directory directory reason))
  | file (reason : FileError) : file.FailsWith (.writing (.file file.path reason))

variable {mode : WriteMode} {file : GeneratedFile} {files : List GeneratedFile}
  {state after last : σ} {failure : Failure} {outcome : WriteOutcome}
  {outcomes : List WriteOutcome}

theorem runAll_cons_eq_ok_iff :
    runAll mode (file :: files) state = (.ok outcomes, last) ↔
      ∃ outcome after rest, file.runWrite mode state = (.ok outcome, after) ∧
        runAll mode files after = (.ok rest, last) ∧ outcomes = outcome :: rest := by
  unfold runAll writeAll
  rw [List.mapM_cons, run_bind_eq_ok_iff]
  refine exists_congr fun outcome => exists_congr fun after => ?_
  rw [exists_and_left]
  refine and_congr_right fun _ => ?_
  rw [run_bind_eq_ok_iff]
  constructor
  · rintro ⟨rest, _, ran, same⟩
    cases same
    exact ⟨rest, ran, rfl⟩
  · rintro ⟨rest, ran, rfl⟩
    exact ⟨rest, last, ran, rfl⟩

theorem runAll_cons_eq_error_iff :
    runAll mode (file :: files) state = (.error failure, last) ↔
      file.runWrite mode state = (.error failure, last) ∨
        ∃ outcome after, file.runWrite mode state = (.ok outcome, after) ∧
          runAll mode files after = (.error failure, last) := by
  unfold runAll writeAll
  rw [List.mapM_cons, run_bind_eq_error_iff]
  refine or_congr_right (exists_congr fun outcome => exists_congr fun after =>
    and_congr_right fun _ => ?_)
  rw [run_bind_eq_error_iff]
  constructor
  · rintro (h | ⟨_, _, -, same⟩)
    · exact h
    · cases same
  · exact .inl

/-- A preview writes nothing. -/
theorem runAll_preview :
    runAll .preview files state =
      (.ok (files.map fun file => .previewed file.path file.content), state) := by
  induction files with
  | nil => rfl
  | cons file files ih => exact runAll_cons_eq_ok_iff.2 ⟨_, _, _, rfl, ih, rfl⟩

end GeneratedFile

/-! ## One file -/

namespace Disk

variable {σ : Type} [Host (StateM σ)] {disk : Disk σ} {state after : σ} {file : GeneratedFile}
  {files : List GeneratedFile}

/-- The text of a file is on disk. -/
def Holds (disk : Disk σ) (state : σ) (file : GeneratedFile) : Prop :=
  disk.content? state file.path = some file.content.toUTF8

instance : Decidable (disk.Holds state file) :=
  inferInstanceAs (Decidable (disk.content? state file.path = some file.content.toUTF8))

/-- A later state is valid and has the same under all paths but one. -/
structure Keeps (disk : Disk σ) (path : String) (state after : σ) : Prop where
  valid : disk.Valid after
  same : ∀ other, disk.Names other → other ≠ path →
    disk.content? after other = disk.content? state other

/-- What writing a file comes to: the file is left alone if its text is there, and is the only one
touched if not. -/
inductive Writes (disk : Disk σ) (file : GeneratedFile) (state : σ) :
    Except Failure WriteOutcome × σ → Prop
  | unchanged : disk.Holds state file →
      disk.Writes file state (.ok (.unchanged file.path), state)
  | written {after : σ} : ¬ disk.Holds state file → disk.Keeps file.path state after →
      disk.Holds after file →
      disk.Writes file state (.ok (.written file.path file.content.utf8ByteSize), after)
  | failed {failure : Failure} {after : σ} : ¬ disk.Holds state file →
      disk.Keeps file.path state after → file.FailsWith failure →
      disk.Writes file state (.error failure, after)

/-- Checking a file tells whether its text is on disk, and changes nothing. -/
theorem isCurrent (valid : disk.Valid state) (named : disk.Names file.path) :
    (file.isCurrent : StateM σ Bool).run state = (decide (disk.Holds state file), state) := by
  obtain ⟨result, read, holds⟩ := disk.read valid named
  unfold GeneratedFile.isCurrent
  rw [StateT.run_bind, read]
  cases result with
  | error e =>
    have missing : ¬ disk.Holds state file := by
      intro h
      cases (holds file.content).2 h
    rw [decide_eq_false missing]
    rfl
  | ok text =>
    have same : disk.Holds state file ↔ text = file.content := by
      rw [Holds, ← holds, Except.ok.injEq]
    show (text == file.content, state) = _
    simp only [same]
    rfl

theorem makeParent (valid : disk.Valid state) {result : Except Failure Unit}
    (made : (file.makeParent : ExceptT Failure (StateM σ) _).run.run state = (result, after)) :
    disk.Valid after ∧
      (∀ path, disk.Names path → disk.content? after path = disk.content? state path) ∧
      ∀ failure, result = .error failure → file.FailsWith failure := by
  unfold GeneratedFile.makeParent at made
  split at made
  · rename_i directory parent
    rw [run_bind_state] at made
    obtain ⟨stays, same⟩ := disk.makeDirectories valid
      (rfl : (Host.makeDirectories directory : StateM σ _).run state = (_, _))
    split at made
    · cases made
      refine ⟨stays, same, fun failure h => ?_⟩
      cases h
    · cases made
      refine ⟨stays, same, fun failure h => ?_⟩
      cases h
      exact .directory _ (Option.filter_eq_some_iff.1 parent).1
  · cases made
    refine ⟨valid, fun _ _ => rfl, fun failure h => ?_⟩
    cases h

theorem writes (valid : disk.Valid state) (named : disk.Names file.path) :
    disk.Writes file state (file.runWrite .write state) := by
  unfold GeneratedFile.runWrite GeneratedFile.write
  rw [if_neg (by decide), run_bind_state, disk.isCurrent valid named]
  by_cases holds : disk.Holds state file
  · rw [decide_eq_true holds]
    exact .unchanged holds
  · rw [decide_eq_false holds]
    show disk.Writes file state ((file.makeParent >>= fun _ => _ : ExceptT Failure (StateM σ) _).run.run state)
    rw [run_bind_except]
    rcases made : (file.makeParent : ExceptT Failure (StateM σ) _).run.run state with
      ⟨failure | _, after⟩
    · obtain ⟨stays, same, fails⟩ := disk.makeParent valid made
      exact .failed holds ⟨stays, fun other named _ => same other named⟩ (fails failure rfl)
    · obtain ⟨stays, same, -⟩ := disk.makeParent valid made
      show disk.Writes file state (((Host.writeText file.path file.content : StateM σ _) >>=
        fun result => _ : ExceptT Failure (StateM σ) _).run.run after)
      rw [run_bind_state]
      rcases wrote : (Host.writeText file.path file.content : StateM σ _).run after with
        ⟨result, last⟩
      obtain ⟨stays, text, others⟩ := disk.write stays named wrote
      have keeps : disk.Keeps file.path state last :=
        ⟨stays, fun other known apart => (others other known apart).trans (same other known)⟩
      cases result with
      | error reason => exact .failed holds keeps (.file reason)
      | ok _ => exact .written holds keeps (text rfl)

theorem Writes.keeps {result : Except Failure WriteOutcome}
    (writes : disk.Writes file state (result, after)) (valid : disk.Valid state) :
    disk.Keeps file.path state after := by
  cases writes with
  | unchanged _ => exact ⟨valid, fun _ _ _ => rfl⟩
  | written _ keeps _ => exact keeps
  | failed _ keeps _ => exact keeps

theorem Writes.holds {outcome : WriteOutcome}
    (writes : disk.Writes file state (.ok outcome, after)) : disk.Holds after file := by
  cases writes with
  | unchanged holds => exact holds
  | written _ _ holds => exact holds

theorem Writes.path_eq {outcome : WriteOutcome}
    (writes : disk.Writes file state (.ok outcome, after)) : outcome.path = file.path := by
  cases writes <;> rfl

theorem runWrite_of_holds (valid : disk.Valid state) (named : disk.Names file.path)
    (holds : disk.Holds state file) :
    file.runWrite .write state = (.ok (.unchanged file.path), state) := by
  have writes := disk.writes valid named
  generalize file.runWrite .write state = ran at writes
  cases writes with
  | unchanged _ => rfl
  | written stale _ _ => exact absurd holds stale
  | failed stale _ _ => exact absurd holds stale

/-! ## All files -/

/-- The files whose texts are not on disk. -/
def stale (disk : Disk σ) (state : σ) (files : List GeneratedFile) : List GeneratedFile :=
  files.filter fun file => !disk.Holds state file

theorem stale_cons_of_holds (holds : disk.Holds state file) :
    disk.stale state (file :: files) = disk.stale state files :=
  List.filter_cons_of_neg (by simpa using holds)

theorem stale_cons_of_not_holds (missing : ¬ disk.Holds state file) :
    disk.stale state (file :: files) = file :: disk.stale state files :=
  List.filter_cons_of_pos (by simpa using missing)

/-- The check tells the paths of the stale files, and changes nothing. -/
theorem runCheck_eq (valid : disk.Valid state) (named : ∀ file ∈ files, disk.Names file.path) :
    GeneratedFile.runCheck files state = ((disk.stale state files).map (·.path), state) := by
  have checked : (files.filterM (fun file => do return !(← file.isCurrent)) : StateM σ _).run state =
      (disk.stale state files, state) := by
    refine run_filterM fun file mem => ?_
    rw [StateT.run_bind, disk.isCurrent valid (named file mem)]
    rfl
  unfold GeneratedFile.runCheck GeneratedFile.outdated
  rw [StateT.run_bind, checked]
  rfl

theorem Keeps.holds_iff {path : String} (keeps : disk.Keeps path state after)
    (named : disk.Names file.path) (apart : file.path ≠ path) :
    disk.Holds after file ↔ disk.Holds state file := by
  rw [Holds, keeps.same file.path named apart, Holds]

theorem Keeps.stale_eq {path : String} (keeps : disk.Keeps path state after)
    (named : ∀ file ∈ files, disk.Names file.path) (apart : path ∉ files.map (·.path)) :
    disk.stale after files = disk.stale state files := by
  refine List.filter_congr fun file mem => ?_
  have same : file.path ≠ path := fun same => apart (same ▸ List.mem_map_of_mem mem)
  simp only [keeps.holds_iff (named file mem) same]

/-- What a run over files leaves when it gets to their end. -/
structure Done (disk : Disk σ) (files : List GeneratedFile) (state : σ)
    (outcomes : List WriteOutcome) (after : σ) : Prop where
  valid : disk.Valid after
  /-- Every file has its outcome, in order. -/
  reported : outcomes.map (·.path) = files.map (·.path)
  /-- The files that were written are the stale ones, in order. -/
  written : (outcomes.filter (·.touchesDisk)).map (·.path) =
    (disk.stale state files).map (·.path)
  /-- The text of every file is on disk. -/
  texts : ∀ file ∈ files, disk.Holds after file
  /-- No other file was touched. -/
  others : ∀ path, disk.Names path → path ∉ files.map (·.path) →
    disk.content? after path = disk.content? state path

theorem done_nil (valid : disk.Valid state) : disk.Done [] state [] state :=
  ⟨valid, rfl, rfl, nofun, fun _ _ _ => rfl⟩

variable {outcome : WriteOutcome} {outcomes : List WriteOutcome} {last : σ} {failure : Failure}

/-- A file that was written or left alone comes before a run over files with other paths. -/
theorem Done.cons (valid : disk.Valid state) (named : ∀ other ∈ file :: files, disk.Names other.path)
    (apart : file.path ∉ files.map (·.path))
    (first : disk.Writes file state (.ok outcome, after))
    (done : disk.Done files after outcomes last) :
    disk.Done (file :: files) state (outcome :: outcomes) last := by
  have keeps := first.keeps valid
  have written : (outcomes.filter (·.touchesDisk)).map (·.path) =
      (disk.stale state files).map (·.path) := by
    rw [done.written, keeps.stale_eq (fun other mem => named other (.tail _ mem)) apart]
  refine ⟨done.valid, ?_, ?_, List.forall_mem_cons.2 ⟨?_, done.texts⟩, ?_⟩
  · rw [List.map_cons, List.map_cons, first.path_eq, done.reported]
  · cases first with
    | unchanged holds =>
      rw [stale_cons_of_holds holds]
      exact written
    | written missing _ _ =>
      rw [stale_cons_of_not_holds missing]
      exact congrArg (file.path :: ·) written
  · rw [Holds, done.others file.path (named file List.mem_cons_self) apart]
    exact first.holds
  · intro path known new
    rw [List.map_cons, List.mem_cons, not_or] at new
    exact (done.others path known new.2).trans (keeps.same path known new.1)

/-- A run that succeeds is done with all its files. -/
theorem done_of_runAll (valid : disk.Valid state) (named : ∀ file ∈ files, disk.Names file.path)
    (distinct : (files.map (·.path)).Nodup)
    (ran : GeneratedFile.runAll .write files state = (.ok outcomes, after)) :
    disk.Done files state outcomes after := by
  induction files generalizing state outcomes with
  | nil =>
    cases ran
    exact done_nil valid
  | cons file files ih =>
    obtain ⟨outcome, next, rest, first, others, rfl⟩ := GeneratedFile.runAll_cons_eq_ok_iff.1 ran
    obtain ⟨apart, distinct⟩ := List.nodup_cons.1 distinct
    have writes := first ▸ disk.writes valid (named file List.mem_cons_self)
    exact .cons valid named apart writes
      (ih (writes.keeps valid).valid (fun other mem => named other (.tail _ mem)) distinct others)

/-- A run over files whose texts are on disk writes none. -/
theorem runAll_of_holds (valid : disk.Valid state) (named : ∀ file ∈ files, disk.Names file.path)
    (holds : ∀ file ∈ files, disk.Holds state file) :
    GeneratedFile.runAll .write files state =
      (.ok (files.map fun file => .unchanged file.path), state) := by
  induction files with
  | nil => rfl
  | cons file files ih =>
    obtain ⟨own, named⟩ := List.forall_mem_cons.1 named
    obtain ⟨current, holds⟩ := List.forall_mem_cons.1 holds
    exact GeneratedFile.runAll_cons_eq_ok_iff.2
      ⟨_, _, _, disk.runWrite_of_holds valid own current, ih named holds, rfl⟩

theorem stale_eq_nil (holds : ∀ file ∈ files, disk.Holds state file) :
    disk.stale state files = [] := by
  refine List.filter_eq_nil_iff.2 fun file mem => ?_
  simpa using holds file mem

/-- What a run leaves when it fails at a file. -/
structure Stopped (disk : Disk σ) (done : List GeneratedFile) (file : GeneratedFile) (state : σ)
    (failure : Failure) (after : σ) : Prop where
  failed : file.FailsWith failure
  /-- The text of every earlier file is on disk. -/
  texts : ∀ earlier ∈ done, disk.Holds after earlier
  /-- Nothing but the earlier files and the one that failed was touched. -/
  others : ∀ path, disk.Names path → path ∉ (done ++ [file]).map (·.path) →
    disk.content? after path = disk.content? state path

/-- A run that fails does so at one of its files, with those before it done. -/
theorem stopped_of_runAll (valid : disk.Valid state) (named : ∀ file ∈ files, disk.Names file.path)
    (distinct : (files.map (·.path)).Nodup)
    (ran : GeneratedFile.runAll .write files state = (.error failure, after)) :
    ∃ done file rest, files = done ++ file :: rest ∧
      disk.Stopped done file state failure after := by
  induction files generalizing state with
  | nil => cases ran
  | cons first files ih =>
    have writes := disk.writes valid (named first List.mem_cons_self)
    rcases GeneratedFile.runAll_cons_eq_error_iff.1 ran with failing | ⟨outcome, next, ok, others⟩
    · rw [failing] at writes
      cases writes with
      | failed _ keeps fails =>
        exact ⟨[], first, files, rfl, fails, nofun, fun path known new =>
          keeps.same path known (by simpa using new)⟩
    · rw [ok] at writes
      obtain ⟨apart, distinct⟩ := List.nodup_cons.1 distinct
      have keeps := writes.keeps valid
      obtain ⟨done, file, rest, rfl, stopped⟩ :=
        ih keeps.valid (fun other mem => named other (.tail _ mem)) distinct others
      have stays : disk.Holds after first := by
        have new : first.path ∉ (done ++ [file]).map (·.path) := fun mem => apart (by simp_all)
        rw [Holds, stopped.others first.path (named first List.mem_cons_self) new]
        exact writes.holds
      refine ⟨first :: done, file, rest, rfl, stopped.failed,
        List.forall_mem_cons.2 ⟨stays, stopped.texts⟩, fun path known new => ?_⟩
      rw [List.cons_append, List.map_cons, List.mem_cons, not_or] at new
      exact (stopped.others path known new.2).trans (keeps.same path known new.1)

/-- The files after the one that failed were not touched. -/
theorem Stopped.later {done rest : List GeneratedFile}
    (stopped : disk.Stopped done file state failure after)
    (named : ∀ other ∈ done ++ file :: rest, disk.Names other.path)
    (distinct : ((done ++ file :: rest).map (·.path)).Nodup) :
    ∀ later ∈ rest, disk.content? after later.path = disk.content? state later.path := by
  intro later mem
  refine stopped.others later.path (named later (by simp [mem])) fun before => ?_
  rw [List.append_cons, List.map_append, List.nodup_append] at distinct
  exact distinct.2.2 _ before _ (List.mem_map_of_mem mem) rfl

/-- What a successful run over files amounts to. -/
structure Settled (disk : Disk σ) (files : List GeneratedFile) (state : σ)
    (outcomes : List WriteOutcome) (after : σ) : Prop where
  done : disk.Done files state outcomes after
  /-- The check before it told the paths that were written, in order. -/
  foretold : GeneratedFile.runCheck files state =
    ((outcomes.filter (·.touchesDisk)).map (·.path), state)
  /-- The check after it tells none. -/
  upToDate : GeneratedFile.runCheck files after = ([], after)
  /-- A second run leaves every file alone. -/
  again : GeneratedFile.runAll .write files after =
    (.ok (files.map fun file => .unchanged file.path), after)

theorem Done.settled (done : disk.Done files state outcomes after) (valid : disk.Valid state)
    (named : ∀ file ∈ files, disk.Names file.path) : disk.Settled files state outcomes after where
  done := done
  foretold := by rw [disk.runCheck_eq valid named, done.written]
  upToDate := by rw [disk.runCheck_eq done.valid named, stale_eq_nil done.texts]; rfl
  again := disk.runAll_of_holds done.valid named done.texts

/-- Writing and checking agree. A run over files with distinct paths that succeeds has written what
the check called out of date and nothing else, and has settled it; a run that fails has done the
files before the one it fails at and has touched none after it. A preview changes nothing. -/
theorem writing_agrees_with_checking (disk : Disk σ) (valid : disk.Valid state)
    (named : ∀ file ∈ files, disk.Names file.path) (distinct : (files.map (·.path)).Nodup) :
    (∀ outcomes after, GeneratedFile.runAll .write files state = (.ok outcomes, after) →
      disk.Settled files state outcomes after) ∧
    (∀ failure after, GeneratedFile.runAll .write files state = (.error failure, after) →
      ∃ done file rest, files = done ++ file :: rest ∧
        disk.Stopped done file state failure after ∧
        ∀ later ∈ rest, disk.content? after later.path = disk.content? state later.path) ∧
    ∀ (shown : List GeneratedFile) (before : σ), GeneratedFile.runAll .preview shown before =
      (.ok (shown.map fun file => .previewed file.path file.content), before) := by
  refine ⟨fun outcomes after ran => ?_, fun failure after ran => ?_,
    fun _ _ => GeneratedFile.runAll_preview⟩
  · exact (done_of_runAll valid named distinct ran).settled valid named
  · obtain ⟨done, file, rest, rfl, stopped⟩ := stopped_of_runAll valid named distinct ran
    exact ⟨done, file, rest, rfl, stopped, stopped.later named distinct⟩

end Disk

/-! ## Trees of files as disks -/

namespace Session

variable {session after : Session} {path text : String} {result : Except FileError Unit}

/-- A text is written to the tree, or nothing is changed. -/
theorem writeText_run
    (wrote : (Host.writeText path text : StateM Session _).run session = (result, after)) :
    (∃ files, session.files.writeText path text = .ok files ∧ result = .ok () ∧
        after = { session with files := files }) ∨
      (∃ e, result = .error e) ∧ after = session := by
  change (Session.writeText path text).run session = (result, after) at wrote
  rw [Session.writeText, StateT.run_bind, StateT.run_get] at wrote
  dsimp only [Bind.bind, Pure.pure, Id] at wrote
  cases written : session.files.writeText path text with
  | ok files =>
    rw [written] at wrote
    cases wrote
    exact .inl ⟨files, rfl, rfl, rfl⟩
  | error e =>
    rw [written] at wrote
    cases wrote
    exact .inr ⟨⟨e, rfl⟩, rfl⟩

/-- A session is a disk for paths that its tree keeps apart. -/
def disk (tree : FileTree) (Names : String → Prop) (apart : tree.KeepsApart Names) :
    Disk Session where
  Valid session := session.files.Rooted ∧ tree.Extends session.files
  Names := Names
  content? session path := session.files.contentAt path
  read {session path} _ _ := ⟨session.files.readText path, rfl, fun _ => FileTree.readText_eq_ok_iff⟩
  makeDirectories {session directory result after} valid made := by
    cases made
    have grown := valid.1.makeDirectories directory
    exact ⟨⟨grown.rooted, valid.2.trans grown.growth⟩, fun path named =>
      valid.1.contentAt_eq grown.growth (valid.2.steady (apart.steady path named)) (grown.same _)⟩
  write {session path text result after} valid named wrote := by
    rcases writeText_run wrote with ⟨files, written, -, rfl⟩ | ⟨⟨e, rfl⟩, rfl⟩
    · obtain ⟨rooted, growth, holds, others⟩ := valid.1.writeText written
      refine ⟨⟨rooted, valid.2.trans growth⟩, fun _ => holds, fun other known different => ?_⟩
      refine valid.1.contentAt_eq growth (valid.2.steady (apart.steady other known))
        (others _ fun same => different ?_)
      rw [valid.2.placeOf, valid.2.placeOf] at same
      exact apart.apart other known path named same
    · exact ⟨valid, nofun, fun _ _ _ => rfl⟩

end Session

section Shelf

/-- A directory with a module that is out of date and an index. -/
def shelf : FileTree :=
  { entries := [(["generated"], .directory),
      (["generated", "Orders.ts"], .file "export {};\n".toUTF8),
      (["generated", "index.ts"], .file "export * from './Orders';\n".toUTF8)] }

/-- A module that has changed, one in a directory to be made, and an index that stays. -/
def order : List GeneratedFile :=
  [⟨some "Orders", "./generated/Orders.ts", "export const OrderSchema = z.string();\n"⟩,
    ⟨some "Parts", "./generated/stock/Parts.ts", "export const PartSchema = z.number();\n"⟩,
    ⟨none, "./generated/index.ts", "export * from './Orders';\n"⟩]

/-- The directory as a disk. -/
def shelfDisk : Disk Session :=
  Session.disk shelf (FileTree.Below "./generated")
    (FileTree.keepsApart_below (by decide) (by decide +kernel))

theorem shelfDisk_valid : shelfDisk.Valid ⟨shelf, ""⟩ :=
  ⟨FileTree.rooted_of_entries rfl (by decide +kernel), .refl shelf⟩

theorem shelfDisk_names : ∀ file ∈ order, shelfDisk.Names file.path := by
  intro file mem
  rcases List.mem_cons.1 mem with rfl | mem
  · exact ⟨"Orders.ts", by decide +kernel, rfl⟩
  rcases List.mem_cons.1 mem with rfl | mem
  · exact ⟨"stock/Parts.ts", by decide +kernel, rfl⟩
  obtain rfl := List.mem_singleton.1 mem
  exact ⟨"index.ts", by decide +kernel, rfl⟩

/-- Writing to the directory replaces one module, adds one and leaves the index alone. -/
theorem writing_to_shelf :
    ∃ after, GeneratedFile.runAll .write order (⟨shelf, ""⟩ : Session) =
        (.ok [.written "./generated/Orders.ts" 39, .written "./generated/stock/Parts.ts" 38,
          .unchanged "./generated/index.ts"], after) ∧
      shelfDisk.Settled order ⟨shelf, ""⟩
        [.written "./generated/Orders.ts" 39, .written "./generated/stock/Parts.ts" 38,
          .unchanged "./generated/index.ts"] after := by
  have outcomes : (GeneratedFile.runAll .write order (⟨shelf, ""⟩ : Session)).1.toOption =
      some [.written "./generated/Orders.ts" 39, .written "./generated/stock/Parts.ts" 38,
        .unchanged "./generated/index.ts"] := by decide +kernel
  obtain ⟨after, ran⟩ := ends_of_toOption outcomes
  exact ⟨after, ran, (Disk.writing_agrees_with_checking shelfDisk shelfDisk_valid shelfDisk_names
    (by decide)).1 _ after ran⟩

end Shelf

end ZodModules
