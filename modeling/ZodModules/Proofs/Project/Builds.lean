import ZodModules.Project.Build

/-!
# How a build ends

A build is the files of a run on the document with the configuration that follows from the settings;
it fails with the settings or with the run.
-/

namespace ZodModules

namespace Generation

variable {config : Config} {registry : Registry} {usage : Usage}

theorem tryRun_eq_ok_iff {output : Output} :
    tryRun config registry usage = .ok output ↔
      (run config registry usage).report.outcome config.strict = .ok () ∧
        run config registry usage = output := by
  show ((run config registry usage).report.outcome config.strict >>= fun _ =>
    pure (run config registry usage)) = _ ↔ _
  cases (run config registry usage).report.outcome config.strict with
  | error e => exact ⟨nofun, nofun⟩
  | ok _ =>
    show Except.ok (run config registry usage) = _ ↔ _
    rw [Except.ok.injEq]
    exact ⟨fun same => ⟨rfl, same⟩, fun same => same.2⟩

theorem tryRun_eq_error_iff {e : RunError} :
    tryRun config registry usage = .error e ↔
      (run config registry usage).report.outcome config.strict = .error e := by
  show ((run config registry usage).report.outcome config.strict >>= fun _ =>
    pure (run config registry usage)) = _ ↔ _
  cases (run config registry usage).report.outcome config.strict with
  | error e' =>
    show Except.error e' = Except.error e ↔ _
    rw [Except.error.injEq, Except.error.injEq]
  | ok _ => exact ⟨nofun, nofun⟩

end Generation

namespace Settings

variable {settings : Settings} {config : Config}

/-- The shared entity of the configuration is that of the settings, and it has a name. -/
theorem sharedEntity_of_config (ok : settings.config = .ok config) :
    config.sharedEntity = settings.naming.sharedEntity ∧ settings.naming.sharedEntity ≠ "" := by
  unfold Settings.config at ok
  split at ok
  · cases ok
  · split at ok
    · cases ok
    · rename_i named
      cases ok
      refine ⟨rfl, fun empty => named ?_⟩
      rw [empty]
      rfl

end Settings

namespace Build

variable {settings : Settings} {document : OpenApi.Document} {build : Build}

theorem ofDocument_eq_ok_iff :
    ofDocument settings document = .ok build ↔
      ∃ config output, settings.config = .ok config ∧
        Generation.tryRun config document.registry document.usage = .ok output ∧
          build = ⟨filesOf settings config output, output⟩ := by
  unfold ofDocument
  cases settings.config with
  | error e => exact ⟨nofun, nofun⟩
  | ok config =>
    simp only [Except.ok.injEq, exists_and_left, exists_eq_left']
    show ((Generation.tryRun config document.registry document.usage).mapError Failure.run >>=
      fun output => pure (⟨filesOf settings config output, output⟩ : Build)) = _ ↔ _
    cases Generation.tryRun config document.registry document.usage with
    | error e => exact ⟨nofun, nofun⟩
    | ok output =>
      show Except.ok _ = Except.ok _ ↔ _
      simp only [Except.ok.injEq, exists_eq_left', eq_comm]

/-- A build fails with the run if the settings are valid and the run fails. -/
theorem ofDocument_eq_run_iff {e : RunError} :
    ofDocument settings document = .error (.run e) ↔
      ∃ config, settings.config = .ok config ∧
        Generation.tryRun config document.registry document.usage = .error e := by
  unfold ofDocument
  cases settings.config with
  | error e => exact ⟨nofun, nofun⟩
  | ok config =>
    simp only [Except.ok.injEq, exists_eq_left']
    show ((Generation.tryRun config document.registry document.usage).mapError Failure.run >>=
      fun output => pure (⟨filesOf settings config output, output⟩ : Build)) = _ ↔ _
    cases Generation.tryRun config document.registry document.usage with
    | error e =>
      show Except.error (Failure.run e) = Except.error _ ↔ _
      simp only [Except.error.injEq, Failure.run.injEq]
    | ok output => exact ⟨nofun, nofun⟩

end Build

end ZodModules
