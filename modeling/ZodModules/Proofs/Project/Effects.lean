import ZodModules.Project.Arguments
import ZodModules.Proofs.FileTree.Changes
import ZodModules.Proofs.Project.Writing

/-!
# What commands do to files

Reading settings and documents, generating and checking leave all files as they are, and so does a
command that ends before it writes. What is written are the texts of the generated files, to their
paths.
-/

namespace ZodModules

open Program

/-- Whether a file could not be written, or its directory not be made. -/
def Failure.isWriting : Failure → Bool
  | writing _ => true
  | _ => false

namespace Command

variable {α β : Type} {session after : Session}

/-- How an action on a session ends, and the session after it. -/
def ending (action : ExceptT Failure (StateM Session) α) (session : Session) :
    Except Failure α × Session :=
  action.run.run session

/-! ## Reading -/

/-- An action changes nothing at all, ends in the same way whatever has been said before, and does
not fail to write. -/
structure Reads (action : ExceptT Failure (StateM Session) α) : Prop where
  stays : ∀ session, (ending action session).2 = session
  same : ∀ first second, first.files = second.files →
    (ending action first).1 = (ending action second).1
  failure : ∀ session e, (ending action session).1 = .error e → e.isWriting = false

theorem reads_pure (a : α) : Reads (pure a : ExceptT Failure (StateM Session) α) :=
  ⟨fun _ => rfl, fun _ _ _ => rfl, nofun⟩

theorem reads_throw {e : Failure} (other : e.isWriting = false) :
    Reads (throw e : ExceptT Failure (StateM Session) α) := by
  refine ⟨fun _ => rfl, fun _ _ _ => rfl, ?_⟩
  intro session failure thrown
  cases thrown
  exact other

theorem reads_except {result : Except Failure α}
    (other : ∀ e, result = .error e → e.isWriting = false) :
    Reads (liftM result : ExceptT Failure (StateM Session) α) :=
  ⟨fun _ => rfl, fun _ _ _ => rfl, fun _ e failed => other e failed⟩

/-- What depends on what is read from the files only reads. -/
theorem reads_bind_state {get : StateM Session β} {next : β → ExceptT Failure (StateM Session) α}
    (found : FileTree → β) (got : ∀ session, get.run session = (found session.files, session))
    (reads : ∀ b, Reads (next b)) :
    Reads ((get : ExceptT Failure (StateM Session) β) >>= next) := by
  have ends (session : Session) :
      ending ((get : ExceptT Failure (StateM Session) β) >>= next) session =
        ending (next (found session.files)) session := by
    unfold ending
    rw [run_bind_state, got]
  constructor
  · intro session
    rw [ends]
    exact (reads _).stays session
  · intro first second files
    rw [ends, ends, files]
    exact (reads _).same first second files
  · intro session e failed
    rw [ends] at failed
    exact (reads _).failure session e failed

theorem reads_loadSettings (path : Option String) :
    Reads (loadSettings path : ExceptT Failure (StateM Session) Settings) := by
  unfold loadSettings
  apply reads_bind_state (fun files => files.isPresent _) (fun _ => rfl)
  intro present
  split
  · apply reads_bind_state (fun files => files.readText _) (fun _ => rfl)
    intro read
    split
    · exact reads_throw rfl
    · split
      · exact reads_pure _
      · exact reads_throw rfl
  · split
    · exact reads_throw rfl
    · exact reads_pure _

theorem isWriting_readDocument {path text : String} {format : OpenApi.Format} {e : Failure}
    (failed : readDocument path format text = .error e) : e.isWriting = false := by
  unfold readDocument at failed
  split at failed
  · cases failed
    rfl
  · rename_i value _
    cases document : OpenApi.Document.ofJson value with
    | error invalid =>
      rw [document] at failed
      cases failed
      rfl
    | ok _ =>
      rw [document] at failed
      cases failed

theorem reads_loadDocument (path : String) :
    Reads (loadDocument path : ExceptT Failure (StateM Session) OpenApi.Document) := by
  unfold loadDocument
  apply reads_bind_state (fun files => files.isPresent path) (fun _ => rfl)
  intro present
  split
  · apply reads_bind_state (fun files => files.readText path) (fun _ => rfl)
    intro read
    split
    · exact reads_throw rfl
    · exact reads_except fun e => isWriting_readDocument
  · exact reads_throw rfl

theorem isWriting_ofDocument {settings : Settings} {document : OpenApi.Document} {e : Failure}
    (failed : Build.ofDocument settings document = .error e) : e.isWriting = false := by
  unfold Build.ofDocument at failed
  cases valid : settings.config with
  | error invalid =>
    rw [valid] at failed
    cases failed
    rfl
  | ok config =>
    rw [valid] at failed
    change ((Generation.tryRun config document.registry document.usage).mapError Failure.run >>=
      fun output => pure (⟨Build.filesOf settings config output, output⟩ : Build)) = _ at failed
    cases ran : Generation.tryRun config document.registry document.usage with
    | error error =>
      rw [ran] at failed
      cases failed
      rfl
    | ok output =>
      rw [ran] at failed
      cases failed

/-! ## Leaving files as they are -/

/-- An action changes no file, and does not fail to write. -/
structure Keeps (action : ExceptT Failure (StateM Session) α) : Prop where
  files : ∀ session, (ending action session).2.files = session.files
  failure : ∀ session e, (ending action session).1 = .error e → e.isWriting = false

theorem Reads.keeps {action : ExceptT Failure (StateM Session) α} (reads : Reads action) :
    Keeps action :=
  ⟨fun session => by rw [reads.stays], reads.failure⟩

/-- What holds of how an action ends and of the files after it holds with another before it that
changes no file, if it holds of each failure of that. -/
theorem ending_bind_of_keeps {action : ExceptT Failure (StateM Session) β}
    {next : β → ExceptT Failure (StateM Session) α} (keeps : Keeps action) {files : FileTree}
    (same : session.files = files) {P : Except Failure α → FileTree → Prop}
    (early : ∀ e, e.isWriting = false → P (.error e) files)
    (further : ∀ b later, (ending action session).1 = .ok b → later.files = files →
      P (ending (next b) later).1 (ending (next b) later).2.files) :
    P (ending (action >>= next) session).1 (ending (action >>= next) session).2.files := by
  have stays := keeps.files session
  have fails := keeps.failure session
  unfold ending at stays fails further ⊢
  rw [run_bind_except]
  rcases ran : action.run.run session with ⟨failure | b, later⟩
  · rw [ran] at stays fails
    have kept : later.files = files := stays.trans same
    dsimp only
    rw [kept]
    exact early failure (fails failure rfl)
  · rw [ran] at stays
    exact further b later (by rw [ran]) (stays.trans same)

theorem keeps_bind {action : ExceptT Failure (StateM Session) β}
    {next : β → ExceptT Failure (StateM Session) α} (keeps : Keeps action)
    (further : ∀ b, Keeps (next b)) : Keeps (action >>= next) := by
  constructor
  · intro session
    apply ending_bind_of_keeps keeps rfl (P := fun _ files => files = session.files)
    · exact fun _ _ => rfl
    · intro b later _ same
      rw [(further b).files, same]
  · intro session
    apply ending_bind_of_keeps keeps rfl
      (P := fun result _ => ∀ e, result = .error e → e.isWriting = false)
    · intro e other failure failed
      cases failed
      exact other
    · intro b later _ _
      exact (further b).failure later

theorem keeps_pure (a : α) : Keeps (pure a : ExceptT Failure (StateM Session) α) :=
  (reads_pure a).keeps

theorem keeps_lift {action : StateM Session α}
    (stays : ∀ session, (action.run session).2.files = session.files) :
    Keeps (action : ExceptT Failure (StateM Session) α) :=
  ⟨stays, fun _ _ => nofun⟩

/-- Saying something succeeds, and changes no file. -/
theorem speaks (items : List β) (line : β → String) (session : Session) :
    ∃ later, ending (items.forM fun item => say (line item)) session = (.ok (), later) ∧
      later.files = session.files := by
  induction items generalizing session with
  | nil => exact ⟨session, rfl, rfl⟩
  | cons item items ih =>
    obtain ⟨later, said, same⟩ :=
      ih { session with output := session.output ++ line item ++ "\n" }
    exact ⟨later, said, same⟩

theorem keeps_say (line : String) : Keeps (say line : ExceptT Failure (StateM Session) Unit) :=
  keeps_lift fun _ => rfl

theorem keeps_sayAll (items : List β) (line : β → String) :
    Keeps (items.forM fun item => say (line item) : ExceptT Failure (StateM Session) Unit) := by
  constructor
  · intro session
    obtain ⟨later, said, same⟩ := speaks items line session
    rw [said, same]
  · intro session e failed
    obtain ⟨later, said, same⟩ := speaks items line session
    rw [said] at failed
    cases failed

theorem keeps_sayWarnings (report : Report) :
    Keeps (sayWarnings report : ExceptT Failure (StateM Session) Unit) := by
  unfold sayWarnings
  dsimp only
  split
  · exact keeps_pure _
  · exact keeps_bind (keeps_say _) fun _ => keeps_sayAll _ _

theorem keeps_ofDocument (settings : Settings) (document : OpenApi.Document) :
    Keeps (Build.ofDocument settings document : ExceptT Failure (StateM Session) Build) :=
  (reads_except fun _ => isWriting_ofDocument).keeps

theorem run_isCurrent (file : GeneratedFile) (session : Session) :
    (file.isCurrent : StateM Session Bool).run session =
      ((session.files.readText file.path).toOption == some file.content, session) := by
  have reads : (Host.readText file.path : StateM Session (Except FileError String)).run session =
      (session.files.readText file.path, session) := rfl
  unfold GeneratedFile.isCurrent
  rw [StateT.run_bind, reads]
  cases session.files.readText file.path with
  | error e => rfl
  | ok text => rfl

/-- Checking files changes none. -/
theorem keeps_outdated (files : List GeneratedFile) :
    Keeps ((GeneratedFile.outdated files : StateM Session (List String)) :
      ExceptT Failure (StateM Session) (List String)) := by
  apply keeps_lift
  intro session
  have checked : (files.filterM (fun file => do return !(← file.isCurrent)) :
      StateM Session _).run session =
        (files.filter fun file =>
          !(session.files.readText file.path).toOption == some file.content, session) := by
    apply run_filterM
    intro file _
    rw [StateT.run_bind, run_isCurrent]
    rfl
  unfold GeneratedFile.outdated
  rw [StateT.run_bind, checked]
  rfl

theorem keeps_runValidate (options : ValidateOptions) :
    Keeps (runValidate options : ExceptT Failure (StateM Session) Unit) := by
  unfold runValidate
  apply keeps_bind (keeps_say _)
  intro _
  apply keeps_bind (reads_loadSettings _).keeps
  intro settings
  apply keeps_bind (reads_loadDocument _).keeps
  intro document
  apply keeps_bind (keeps_ofDocument _ _)
  intro build
  apply keeps_bind (keeps_outdated _)
  intro outdated
  split
  · exact keeps_say _
  · apply keeps_bind (keeps_say _)
    intro _
    apply keeps_bind (keeps_sayAll _ _)
    intro _
    apply keeps_bind (keeps_say _)
    intro _
    exact (reads_throw rfl).keeps

end Command

/-! ## Writing -/

namespace GeneratedFile

variable {Texts : String → String → Prop} {file : GeneratedFile} {files : List GeneratedFile}
  {session after : Session}

/-- What writing a file to a tree comes to: its text is there already, its directory cannot be
made, it cannot be written, or it is written. -/
inductive Wrote (file : GeneratedFile) (session : Session) :
    Except Failure WriteOutcome × Session → Prop
  | unchanged : session.files.readText file.path = .ok file.content →
      file.Wrote session (.ok (.unchanged file.path), session)
  | stopped {failure : Failure} {after : Session} :
      (file.makeParent : ExceptT Failure (StateM Session) _).run.run session =
        (.error failure, after) →
      file.Wrote session (.error failure, after)
  | failed {reason : FileError} {after : Session} :
      (file.makeParent : ExceptT Failure (StateM Session) _).run.run session = (.ok (), after) →
      file.Wrote session (.error (.writing (.file file.path reason)), after)
  | written {between : Session} {tree : FileTree} :
      (file.makeParent : ExceptT Failure (StateM Session) _).run.run session = (.ok (), between) →
      between.files.writeText file.path file.content = .ok tree →
      file.Wrote session
        (.ok (.written file.path file.content.utf8ByteSize), { between with files := tree })

theorem wrote (file : GeneratedFile) (session : Session) :
    file.Wrote session (file.runWrite .write session) := by
  unfold runWrite write
  rw [if_neg (by decide), run_bind_state, Command.run_isCurrent]
  cases current : (session.files.readText file.path).toOption == some file.content with
  | true =>
    apply Wrote.unchanged
    rw [beq_iff_eq] at current
    cases read : session.files.readText file.path with
    | error e =>
      rw [read] at current
      cases current
    | ok text =>
      rw [read] at current
      cases current
      rfl
  | false =>
    show file.Wrote session
      ((file.makeParent >>= fun _ => _ : ExceptT Failure (StateM Session) _).run.run session)
    rw [run_bind_except]
    rcases made : (file.makeParent : ExceptT Failure (StateM Session) _).run.run session with
      ⟨failure | _, between⟩
    · exact .stopped made
    · show file.Wrote session (((Host.writeText file.path file.content : StateM Session _) >>=
        fun result => _ : ExceptT Failure (StateM Session) _).run.run between)
      rw [run_bind_state]
      rcases wrote : (Host.writeText file.path file.content : StateM Session _).run between with
        ⟨result, last⟩
      rcases Session.writeText_run wrote with ⟨tree, written, rfl, rfl⟩ | ⟨⟨e, rfl⟩, rfl⟩
      · exact .written made written
      · exact .failed made

theorem changesOnly_makeParent (texts : Texts file.path file.content)
    {result : Except Failure Unit}
    (made : (file.makeParent : ExceptT Failure (StateM Session) _).run.run session =
      (result, after)) :
    session.files.ChangesOnly Texts after.files ∧
      ∀ failure, result = .error failure → failure.isWriting = true := by
  unfold makeParent at made
  split at made
  · rename_i directory parent
    obtain ⟨parent, nonempty⟩ := Option.filter_eq_some_iff.1 parent
    have changes : session.files.ChangesOnly Texts (session.files.makeDirectories directory).1 := by
      refine FileTree.changesOnly_makeDirectories parent ?_ texts
      rintro rfl
      cases nonempty
    rw [run_bind_state] at made
    split at made
    · cases made
      refine ⟨changes, ?_⟩
      intro failure failed
      cases failed
    · cases made
      refine ⟨changes, ?_⟩
      intro failure failed
      cases failed
      rfl
  · cases made
    refine ⟨.refl _ _, ?_⟩
    intro failure failed
    cases failed

/-- Writing a file changes what is on its path only, and only writing fails; if it succeeds, the
text is in its place. -/
theorem changesOnly_runWrite (texts : Texts file.path file.content)
    {result : Except Failure WriteOutcome} (ran : file.runWrite .write session = (result, after)) :
    session.files.ChangesOnly Texts after.files ∧
      (∀ failure, result = .error failure → failure.isWriting = true) ∧
      (result.toBool = true → after.files.contentAt file.path = some file.content.toUTF8) := by
  have wrote := ran ▸ file.wrote session
  cases wrote with
  | unchanged read =>
    exact ⟨.refl _ _, fun _ => nofun, fun _ => FileTree.readText_eq_ok_iff.1 read⟩
  | stopped made =>
    obtain ⟨changes, fails⟩ := changesOnly_makeParent texts made
    refine ⟨changes, ?_, nofun⟩
    intro failure same
    cases same
    exact fails _ rfl
  | failed made =>
    refine ⟨(changesOnly_makeParent texts made).1, ?_, nofun⟩
    intro failure same
    cases same
    rfl
  | written made written =>
    obtain ⟨changes, holds⟩ := FileTree.changesOnly_writeText texts written
    exact ⟨(changesOnly_makeParent texts made).1.trans changes, fun _ => nofun, fun _ => holds⟩

/-- Writing files changes what is on their paths only, and only writing fails. If it succeeds, each
file finds the text of a file that leads to the same place there. -/
theorem changesOnly_runAll (texts : ∀ file ∈ files, Texts file.path file.content)
    {result : Except Failure (List WriteOutcome)}
    (ran : runAll .write files session = (result, after)) :
    session.files.ChangesOnly Texts after.files ∧
      (∀ failure, result = .error failure → failure.isWriting = true) ∧
      (result.toBool = true → ∀ file ∈ files, ∃ path text, Texts path text ∧
        session.files.placeOf path = session.files.placeOf file.path ∧
        after.files.content? (session.files.placeOf file.path) = some text.toUTF8) := by
  induction files generalizing session result with
  | nil =>
    cases ran
    exact ⟨.refl _ _, fun _ => nofun, fun _ _ => nofun⟩
  | cons file files ih =>
    have text := texts file List.mem_cons_self
    have more : ∀ file ∈ files, Texts file.path file.content := fun file mem =>
      texts file (List.mem_cons_of_mem _ mem)
    cases result with
    | error failure =>
      rcases runAll_cons_eq_error_iff.1 ran with wrote | ⟨outcome, between, wrote, further⟩
      · obtain ⟨changes, fails, -⟩ := changesOnly_runWrite text wrote
        refine ⟨changes, ?_, nofun⟩
        intro _ same
        cases same
        exact fails _ rfl
      · obtain ⟨first, -, -⟩ := changesOnly_runWrite text wrote
        obtain ⟨second, fails, -⟩ := ih more further
        refine ⟨first.trans second, ?_, nofun⟩
        intro _ same
        cases same
        exact fails _ rfl
    | ok outcomes =>
      obtain ⟨outcome, between, rest, wrote, further, rfl⟩ := runAll_cons_eq_ok_iff.1 ran
      obtain ⟨first, -, holds⟩ := changesOnly_runWrite text wrote
      obtain ⟨second, -, others⟩ := ih more further
      simp only [first.growth.placeOf] at others
      refine ⟨first.trans second, fun _ => nofun, ?_⟩
      intro _ other mem
      rcases List.mem_cons.1 mem with rfl | mem
      · exact first.exists_text second text (holds rfl)
      · exact others rfl other mem

end GeneratedFile

/-! ## Commands -/

/-- A text is that of one of the files of a build, for the path of that file. -/
def Build.Texts (build : Build) (path text : String) : Prop :=
  ∃ file ∈ build.files, file.path = path ∧ file.content = text

namespace Command

variable {session : Session}

/-- The build that generating writes: the settings and the document are those in the files. -/
def Builds (options : GenerateOptions) (session : Session) (build : Build) : Prop :=
  ∃ settings document, (ending (loadSettings options.settingsPath) session).1 = .ok settings ∧
    (ending (loadDocument options.input) session).1 = .ok document ∧
    Build.ofDocument (settings.override options.overrides) document = .ok build

/-- What generating comes to: it ends early and leaves all files as they are, or it writes or shows
the files of its build. -/
inductive Generates (options : GenerateOptions) (session : Session) :
    Except Failure Unit → FileTree → Prop
  | early {failure : Failure} : failure.isWriting = false →
      Generates options session (.error failure) session.files
  | built {build : Build} {outcomes : Except Failure (List WriteOutcome)}
      {before after : Session} :
      Builds options session build → before.files = session.files →
      GeneratedFile.runAll (if options.dryRun then .preview else .write) build.files before =
        (outcomes, after) →
      Generates options session (outcomes.map fun _ => ()) after.files

theorem generates (options : GenerateOptions) (session : Session) :
    Generates options session (ending (runGenerate options) session).1
      (ending (runGenerate options) session).2.files := by
  unfold runGenerate
  apply ending_bind_of_keeps (reads_loadSettings _).keeps rfl (fun _ => .early)
  intro settings first loaded same
  apply ending_bind_of_keeps (keeps_say _) same (fun _ => .early)
  intro _ second _ same
  apply ending_bind_of_keeps (reads_loadDocument _).keeps same (fun _ => .early)
  intro document third read same'
  -- what has been said before does not matter to what is read
  rw [(reads_loadDocument _).same second session same] at read
  have title : Keeps (document.title.forM fun title => say ("  Document: " ++ title) :
      ExceptT Failure (StateM Session) Unit) := by
    cases document.title with
    | none => exact keeps_pure _
    | some title => exact keeps_say _
  apply ending_bind_of_keeps title same' (fun _ => .early)
  intro _ fourth _ same
  apply ending_bind_of_keeps (keeps_say _) same (fun _ => .early)
  intro _ fifth _ same
  apply ending_bind_of_keeps (keeps_say _) same (fun _ => .early)
  intro _ sixth _ same
  apply ending_bind_of_keeps (keeps_ofDocument _ _) same (fun _ => .early)
  intro build seventh built same
  apply ending_bind_of_keeps (keeps_sayWarnings _) same (fun _ => .early)
  intro _ eighth _ same
  apply ending_bind_of_keeps (keeps_say _) same (fun _ => .early)
  intro _ ninth _ same
  have builds : Builds options session build := ⟨settings, document, loaded, read, built⟩
  unfold ending
  rw [run_bind_except]
  rcases ran : (GeneratedFile.writeAll (if options.dryRun then .preview else .write) build.files :
    ExceptT Failure (StateM Session) _).run.run ninth with ⟨failure | outcomes, after⟩
  · exact .built builds same ran
  · obtain ⟨last, said, same'⟩ := speaks outcomes outcomeText after
    unfold ending at said
    dsimp only
    rw [said, same']
    exact .built builds same ran

section Generates

variable {options : GenerateOptions} {result : Except Failure Unit} {files : FileTree}

theorem Generates.files_of_dryRun (generates : Generates options session result files)
    (dry : options.dryRun = true) : files = session.files := by
  cases generates with
  | early _ => rfl
  | built _ same ran =>
    rw [if_pos dry, GeneratedFile.runAll_preview] at ran
    cases ran
    exact same

/-- A preview aside, a generation comes to its end early, or by writing. -/
theorem Generates.writes (generates : Generates options session result files)
    (wet : options.dryRun = false) :
    files = session.files ∧ (∃ failure, result = .error failure ∧ failure.isWriting = false) ∨
      ∃ build, Builds options session build ∧ session.files.ChangesOnly build.Texts files ∧
        (∀ failure, result = .error failure → failure.isWriting = true) ∧
        (result = .ok () → ∀ file ∈ build.files, ∃ path text, build.Texts path text ∧
          session.files.placeOf path = session.files.placeOf file.path ∧
          files.content? (session.files.placeOf file.path) = some text.toUTF8) := by
  cases generates with
  | early other => exact .inl ⟨rfl, _, rfl, other⟩
  | @built build outcomes before _ builds same ran =>
    right
    rw [if_neg (by simp [wet])] at ran
    have own : ∀ file ∈ build.files, build.Texts file.path file.content :=
      fun file mem => ⟨file, mem, rfl, rfl⟩
    obtain ⟨changes, fails, holds⟩ := GeneratedFile.changesOnly_runAll own ran
    rw [same] at changes holds
    refine ⟨build, builds, changes, ?_, ?_⟩
    · intro failure failed
      cases outcomes with
      | error e =>
        cases failed
        exact fails _ rfl
      | ok _ => cases failed
    · intro ended
      cases outcomes with
      | error e => cases ended
      | ok _ => exact holds rfl

end Generates

/-- Refused without `--force`, a settings file is left alone. -/
theorem runInit_of_isPresent {path : String} (present : session.files.isPresent path = true) :
    ending (runInit path false) session = (.error (.present path), session) := by
  unfold ending runInit
  rw [run_bind_state]
  show StateT.run (ExceptT.run (if session.files.isPresent path && !false then _ else _)) _ = _
  rw [present]
  rfl

/-- Writing a settings file changes what is on its path only. -/
theorem changesOnly_runInit (path : String) (force : Bool) (session : Session) :
    session.files.ChangesOnly (fun other text => other = path ∧ text = Settings.defaultText)
      (ending (runInit path force) session).2.files := by
  have looked : (Host.isPresent path : StateM Session Bool).run session =
      (session.files.isPresent path, session) := rfl
  unfold ending runInit
  rw [run_bind_state, looked]
  dsimp only
  split
  · exact .refl _ _
  · rw [run_bind_state]
    rcases wrote : (Host.writeText path Settings.defaultText : StateM Session _).run session with
      ⟨result, last⟩
    rcases Session.writeText_run wrote with ⟨tree, written, rfl, rfl⟩ | ⟨⟨e, rfl⟩, rfl⟩
    · exact (FileTree.changesOnly_writeText (And.intro rfl rfl) written).1
    · exact .refl _ _

/-- Running the program changes the files as the command does that the arguments ask for. -/
theorem files_runProgram (arguments : List String) (session : Session) :
    ((runProgram arguments : StateM Session Ending).run session).2.files =
      match Arguments.request? arguments with
      | some (.command command) => (ending command.run session).2.files
      | _ => session.files := by
  unfold runProgram
  rcases Arguments.request? arguments with _ | command | _ | _
  · rfl
  · dsimp only
    rw [StateT.run_bind]
    unfold ending
    rcases (command.run : ExceptT Failure (StateM Session) Unit).run.run session with
      ⟨failure | _, after⟩
    · rfl
    · rfl
  · rfl
  · rfl

/-- Checking, a preview, a generation that ends before it writes and `init` on a path that is taken
leave all files as they are. Any other generation changes only what is on the paths of its files, and
`init` what is on its path. A generation that succeeds leaves the text of a generated file in the
place of each. -/
theorem commands_change_generated_files_only (session : Session) :
    (∀ options, (ending (validate options).run session).2.files = session.files) ∧
    (∀ path, session.files.isPresent path = true →
      ending (init path false).run session = (.error (.present path), session)) ∧
    (∀ path force, session.files.ChangesOnly
      (fun other text => other = path ∧ text = Settings.defaultText)
      (ending (init path force).run session).2.files) ∧
    (∀ options, options.dryRun = true →
      (ending (generate options).run session).2.files = session.files) ∧
    (∀ options failure, (ending (generate options).run session).1 = .error failure →
      failure.isWriting = false →
        (ending (generate options).run session).2.files = session.files) ∧
    (∀ options, (ending (generate options).run session).2.files = session.files ∨
      ∃ build, Builds options session build ∧
        session.files.ChangesOnly build.Texts (ending (generate options).run session).2.files) ∧
    (∀ options, (ending (generate options).run session).1 = .ok () → options.dryRun = false →
      ∃ build, Builds options session build ∧
        ∀ file ∈ build.files, ∃ path text, build.Texts path text ∧
          session.files.placeOf path = session.files.placeOf file.path ∧
          (ending (generate options).run session).2.files.content?
            (session.files.placeOf file.path) = some text.toUTF8) ∧
    ∀ arguments, ((runProgram arguments : StateM Session Ending).run session).2.files =
      match Arguments.request? arguments with
      | some (.command command) => (ending command.run session).2.files
      | _ => session.files := by
  refine ⟨?_, fun _ => runInit_of_isPresent, fun _ _ => changesOnly_runInit _ _ _, ?_, ?_, ?_, ?_,
    fun _ => files_runProgram _ _⟩
  · exact fun options => (keeps_runValidate options).files session
  · exact fun options => (generates options session).files_of_dryRun
  · intro options failure failed other
    cases dry : options.dryRun with
    | true => exact (generates options session).files_of_dryRun dry
    | false =>
      rcases (generates options session).writes dry with ⟨same, -⟩ | ⟨_, -, -, writing, -⟩
      · exact same
      · rw [writing failure failed] at other
        cases other
  · intro options
    cases dry : options.dryRun with
    | true => exact .inl ((generates options session).files_of_dryRun dry)
    | false =>
      rcases (generates options session).writes dry with ⟨same, -⟩ | ⟨build, builds, changes, -⟩
      · exact .inl same
      · exact .inr ⟨build, builds, changes⟩
  · intro options ended wet
    rcases (generates options session).writes wet with ⟨-, failure, failed, -⟩ |
      ⟨build, builds, -, -, holds⟩
    · change (ending (runGenerate options) session).1 = _ at ended
      rw [failed] at ended
      cases ended
    · exact ⟨build, builds, holds ended⟩

/-- Settings with a directory of their own, and a document without schemas. -/
def desk : Session :=
  { files :=
      { entries := [(["zodgen.toml"], .file "[output]\ndir = \"web/models\"\n".toUTF8),
          (["api.json"],
            .file r#"{"openapi": "3.0.3", "components": {"schemas": {}}}"#.toUTF8)] } }

/-- From the desk the settings file is not replaced, a preview and a missing document change
nothing, and generating puts the files of the document into the directory of the settings. -/
theorem commands_at_desk :
    desk.files.isPresent "zodgen.toml" = true ∧
    ending (init "zodgen.toml" false).run desk = (.error (.present "zodgen.toml"), desk) ∧
    (ending (generate { input := "api.json", dryRun := true }).run desk).2.files = desk.files ∧
    (∃ failure, (ending (generate { input := "old.json" }).run desk).1 = .error failure ∧
      failure.isWriting = false ∧
        (ending (generate { input := "old.json" }).run desk).2.files = desk.files) ∧
    (ending (generate { input := "api.json" }).run desk).1 = .ok () ∧
    ∃ build, Builds { input := "api.json" } desk build ∧
      ∀ file ∈ build.files, ∃ path text, build.Texts path text ∧
        desk.files.placeOf path = desk.files.placeOf file.path ∧
        (ending (generate { input := "api.json" }).run desk).2.files.content?
          (desk.files.placeOf file.path) = some text.toUTF8 := by
  obtain ⟨-, refused, -, dry, early, -, written, -⟩ := commands_change_generated_files_only desk
  have present : desk.files.isPresent "zodgen.toml" = true := by decide +kernel
  have missing : ∃ failure, (ending (generate { input := "old.json" }).run desk).1 =
      .error failure ∧ failure.isWriting = false := by
    have ends : (match (ending (generate { input := "old.json" }).run desk).1 with
      | .error failure => failure.isWriting
      | .ok _ => true) = false := by decide +kernel
    split at ends
    · exact ⟨_, ‹_›, ends⟩
    · cases ends
  have succeeds : (ending (generate { input := "api.json" }).run desk).1 = .ok () := by
    have ends : (ending (generate { input := "api.json" }).run desk).1.toOption = some () := by
      decide +kernel
    obtain ⟨after, ran⟩ := ends_of_toOption ends
    rw [ran]
  obtain ⟨failure, failed, other⟩ := missing
  exact ⟨present, refused _ present, dry { input := "api.json", dryRun := true } rfl,
    ⟨failure, failed, other, early _ failure failed other⟩, succeeds, written _ succeeds rfl⟩

end Command

end ZodModules
