import Mathlib
import Rulebook.Log.Logger

/-!
# Setting up and resetting

The logger of the library under any sequence of setups, resets and handlers that the program adds.
What the program has added stays in its order, and what a setup installs replaces what an earlier one
has installed.
-/

namespace Rulebook.Proofs
open Log

/-! ## The parts of a logger -/

/-- The handlers that the program has added itself. -/
def ownHandlers (l : Logger) : List Handler := l.handlers.filter (!·.isInstalled)

/-- How many handlers write to a sink. -/
def sinkCount (l : Logger) (sink : Sink) : Nat := l.handlers.countP (·.sink = sink)

/-- At most one handler for the console, and at most one for a file. -/
structure IsTidy (l : Logger) : Prop where
  console : sinkCount l .console ≤ 1
  file : sinkCount l .file ≤ 1

/-- What a setup installs at a level: a handler for the console, and one for a file that has been
opened. -/
def installedHandlers (level : Level) (s : Setup) : List Handler :=
  ⟨.console, level, s.traced⟩ ::
    match s.file with
    | .opened => [⟨.file, level, s.traced⟩]
    | .absent | .failed .. => []

lemma isInstalled_installedHandlers (level : Level) (s : Setup) :
    ∀ h ∈ installedHandlers level s, h.isInstalled = true := by
  unfold installedHandlers
  cases s.file <;> simp [Handler.isInstalled]

/-- Installed handlers and those of the program are told apart by their sinks. -/
lemma sinkCount_own_append (l : Logger) (installed : List Handler) (sink : Sink)
    (hsink : sink ≠ .foreign) (h : l.handlers = ownHandlers l ++ installed) :
    sinkCount l sink = installed.countP (·.sink = sink) := by
  have hown : (ownHandlers l).countP (·.sink = sink) = 0 := by
    rw [List.countP_eq_zero]
    intro handler hmem
    have hforeign := (List.mem_filter.mp hmem).2
    simp only [Handler.isInstalled, Bool.not_eq_true', bne_eq_false_iff_eq] at hforeign
    simpa [hforeign] using hsink.symm
  unfold sinkCount
  rw [h, List.countP_append, hown, Nat.zero_add]

/-! ## What the operations do -/

lemma handlers_cleared (l : Logger) : l.cleared.handlers = ownHandlers l := rfl

lemma ownHandlers_append (l : Logger) (installed : List Handler)
    (h : ∀ handler ∈ installed, handler.isInstalled = true) :
    (ownHandlers l ++ installed).filter (!·.isInstalled) = ownHandlers l := by
  have hnone : installed.filter (!·.isInstalled) = [] := by
    rw [List.filter_eq_nil_iff]
    intro handler hmem
    simp [h handler hmem]
  rw [List.filter_append, hnone, List.append_nil]
  unfold ownHandlers
  rw [List.filter_filter]
  simp

/-- A logger as a setup at a level leaves it: what is installed stands behind the handlers of the
program. -/
structure IsSetUp (before after : Logger) (s : Setup) (level : Level) : Prop where
  handlers : after.handlers = ownHandlers before ++ installedHandlers level s
  installed : ∀ h ∈ installedHandlers level s, h.level = level
  level : after.level = level
  propagate : after.propagate = s.propagate

/-- A setup succeeds when its level is known, whatever becomes of the log file. -/
lemma configure_some (l : Logger) (time : String) (s : Setup) (level : Level)
    (hlevel : Level.ofValue? s.level = some level) :
    ∃ l' out, l.configure time s = some (l', out) ∧ IsSetUp l l' s level := by
  have hinstalled : ∀ h ∈ installedHandlers level s, h.level = level := by
    unfold installedHandlers
    cases s.file <;> simp
  have hhandlers : ∃ l' out, l.configure time s = some (l', out) ∧
      l'.handlers = ownHandlers l ++ installedHandlers level s ∧ l'.level = level ∧
      l'.propagate = s.propagate := by
    unfold Logger.configure installedHandlers
    rw [hlevel]
    cases s.file with
    | absent => exact ⟨_, _, rfl, rfl, rfl, rfl⟩
    | opened =>
      refine ⟨_, _, rfl, ?_, rfl, rfl⟩
      simp [Logger.add, handlers_cleared]
    | failed path reason => exact ⟨_, _, rfl, rfl, rfl, rfl⟩
  obtain ⟨l', out, hconfigure, hhandlers, hl', hpropagate⟩ := hhandlers
  exact ⟨l', out, hconfigure, hhandlers, hinstalled, hl', hpropagate⟩

lemma configure_none (l : Logger) (time : String) (s : Setup)
    (hlevel : Level.ofValue? s.level = none) : l.configure time s = none := by
  unfold Logger.configure
  rw [hlevel]
  rfl

/-! ## Steps of a program -/

/-- The loggers of a program by their names. -/
abbrev Loggers := String → Logger

/-- What a program does to the logger of the library. -/
inductive LogStep where
  | configure (time : String) (s : Setup)
  | reset
  /-- The program adds a handler of its own. -/
  | add (level : Level)

namespace LogStep

/-- The handler that a step adds for the program. -/
def added? : LogStep → Option Handler
  | configure .. | reset => none
  | add level => some { Handler.foreign with level := level }

/-- The logger of the library after a step. A setup that fails leaves it alone. -/
def apply (l : Logger) : LogStep → Logger
  | configure time s => ((l.configure time s).map Prod.fst).getD l
  | reset => l.reset
  | add level => l.add { Handler.foreign with level := level }

/-- The loggers after a step, which looks up the one of the library by its name. -/
def perform (loggers : Loggers) (step : LogStep) : Loggers :=
  Function.update loggers Logger.name (step.apply (loggers Logger.name))

end LogStep

lemma apply_configure (l : Logger) (time : String) (s : Setup) (level : Level)
    (hlevel : Level.ofValue? s.level = some level) :
    IsSetUp l ((LogStep.configure time s).apply l) s level := by
  obtain ⟨l', out, hconfigure, hl'⟩ := configure_some l time s level hlevel
  simp only [LogStep.apply, hconfigure]
  exact hl'

lemma apply_configure_failed (l : Logger) (time : String) (s : Setup)
    (hlevel : Level.ofValue? s.level = none) : (LogStep.configure time s).apply l = l := by
  simp only [LogStep.apply, configure_none l time s hlevel]
  rfl

/-- A step keeps the handlers of the program, and puts the one that it adds behind them. -/
lemma ownHandlers_apply (l : Logger) (step : LogStep) :
    ownHandlers (step.apply l) = ownHandlers l ++ step.added?.toList := by
  cases step with
  | configure time s =>
    rw [LogStep.added?, Option.toList_none, List.append_nil]
    cases hlevel : Level.ofValue? s.level with
    | none => rw [apply_configure_failed l time s hlevel]
    | some level =>
      have hhandlers := (apply_configure l time s level hlevel).handlers
      unfold ownHandlers at hhandlers ⊢
      rw [hhandlers]
      exact ownHandlers_append l _ (isInstalled_installedHandlers level s)
  | reset =>
    have happend := ownHandlers_append l [] (by simp)
    rw [List.append_nil] at happend
    rw [LogStep.added?, Option.toList_none, List.append_nil]
    exact happend
  | add level =>
    unfold ownHandlers
    simp [LogStep.apply, LogStep.added?, Logger.add, Handler.isInstalled, Handler.foreign]

lemma isTidy_apply (l : Logger) (step : LogStep) (h : IsTidy l) : IsTidy (step.apply l) := by
  cases step with
  | configure time s =>
    cases hlevel : Level.ofValue? s.level with
    | none =>
      rw [apply_configure_failed l time s hlevel]
      exact h
    | some level =>
      have hhandlers := (apply_configure l time s level hlevel).handlers
      have hown : ownHandlers ((LogStep.configure time s).apply l) = ownHandlers l := by
        rw [ownHandlers_apply, LogStep.added?, Option.toList_none, List.append_nil]
      rw [← hown] at hhandlers
      have hcount (sink : Sink) (hsink : sink ≠ .foreign) :
          sinkCount ((LogStep.configure time s).apply l) sink ≤ 1 := by
        rw [sinkCount_own_append _ _ sink hsink hhandlers]
        unfold installedHandlers
        cases sink <;> cases s.file <;> simp at hsink ⊢
      exact ⟨hcount .console (by simp), hcount .file (by simp)⟩
  | reset =>
    have hhandlers : l.reset.handlers = ownHandlers l.reset ++ [] := by
      have hown := ownHandlers_apply l .reset
      rw [LogStep.added?, Option.toList_none, List.append_nil] at hown
      rw [List.append_nil]
      exact hown.symm
    have hcount (sink : Sink) (hsink : sink ≠ .foreign) : sinkCount l.reset sink ≤ 1 := by
      rw [sinkCount_own_append _ [] sink hsink hhandlers]
      simp
    exact ⟨hcount .console (by simp), hcount .file (by simp)⟩
  | add level =>
    have hcount (sink : Sink) (hsink : sink ≠ .foreign) :
        sinkCount ((LogStep.add level).apply l) sink = sinkCount l sink := by
      simp [sinkCount, LogStep.apply, Logger.add, Handler.foreign, hsink.symm]
    exact ⟨(hcount .console (by simp)).le.trans h.console, (hcount .file (by simp)).le.trans h.file⟩

/-! ## Runs of a program -/

/-- The loggers after some steps. -/
def runSteps (loggers : Loggers) (steps : List LogStep) : Loggers :=
  steps.foldl LogStep.perform loggers

/-- After any steps the handlers of the program are there in their order, with their levels, at most
one handler of each kind is installed, and no other logger has changed. -/
lemma runSteps_invariants (loggers : Loggers) (h : IsTidy (loggers Logger.name))
    (steps : List LogStep) :
    ownHandlers (runSteps loggers steps Logger.name) =
        ownHandlers (loggers Logger.name) ++ steps.filterMap LogStep.added? ∧
      IsTidy (runSteps loggers steps Logger.name) ∧
      ∀ name ≠ Logger.name, runSteps loggers steps name = loggers name := by
  induction steps generalizing loggers with
  | nil => exact ⟨(List.append_nil _).symm, h, fun _ _ => rfl⟩
  | cons step steps ih =>
    have hstep : step.perform loggers Logger.name = step.apply (loggers Logger.name) :=
      Function.update_self ..
    have htidy : IsTidy (step.perform loggers Logger.name) := by
      rw [hstep]
      exact isTidy_apply _ step h
    obtain ⟨hown, hall, hothers⟩ := ih (step.perform loggers) htidy
    refine ⟨?_, hall, ?_⟩
    · rw [hstep, ownHandlers_apply, List.append_assoc] at hown
      have hadded : (step :: steps).filterMap LogStep.added? =
          step.added?.toList ++ steps.filterMap LogStep.added? := by
        rw [List.filterMap_cons]
        cases step.added? <;> rfl
      rw [hadded]
      exact hown
    · intro name hname
      exact (hothers name hname).trans (Function.update_of_ne hname ..)

lemma runSteps_append (loggers : Loggers) (steps : List LogStep) (step : LogStep) :
    runSteps loggers (steps ++ [step]) Logger.name =
      step.apply (runSteps loggers steps Logger.name) := by
  unfold runSteps
  rw [List.foldl_append, List.foldl_cons, List.foldl_nil]
  exact Function.update_self ..

/-- Setting up and resetting is a clean business. After any steps the handlers of the program are
untouched, no sink has two installed handlers, and no other logger has changed. One more setup
succeeds exactly when its level is known, as every number is, and then leaves the handlers of the
program and those that it installs; if it fails, nothing changes. One more reset leaves the handlers
of the program only. -/
theorem runSteps_clean (loggers : Loggers) (h : IsTidy (loggers Logger.name))
    (steps : List LogStep) :
    let l := runSteps loggers steps Logger.name
    ownHandlers l = ownHandlers (loggers Logger.name) ++ steps.filterMap LogStep.added? ∧
      IsTidy l ∧ (∀ name ≠ Logger.name, runSteps loggers steps name = loggers name) ∧
      (∀ time s, (l.configure time s).isSome = (Level.ofValue? s.level).isSome) ∧
      (∀ n, Level.ofValue? (.int n) = some (.number n)) ∧
      (∀ time s level, Level.ofValue? s.level = some level →
        IsSetUp l (runSteps loggers (steps ++ [.configure time s]) Logger.name) s level) ∧
      (∀ time s, Level.ofValue? s.level = none →
        runSteps loggers (steps ++ [.configure time s]) Logger.name = l) ∧
      let l' := runSteps loggers (steps ++ [.reset]) Logger.name
      l'.handlers = ownHandlers l ∧ l'.level = .number 0 ∧ l'.propagate = true := by
  intro l
  obtain ⟨hown, htidy, hothers⟩ := runSteps_invariants loggers h steps
  simp only [runSteps_append]
  refine ⟨hown, htidy, hothers, ?_, fun n => rfl, ?_, ?_, rfl, rfl, rfl⟩
  · intro time s
    cases hlevel : Level.ofValue? s.level with
    | none =>
      rw [configure_none l time s hlevel]
      rfl
    | some level =>
      obtain ⟨l', out, hconfigure, -⟩ := configure_some l time s level hlevel
      rw [hconfigure]
      rfl
  · exact fun time s level hlevel => apply_configure l time s level hlevel
  · exact fun time s hlevel => apply_configure_failed l time s hlevel

/-- A program adds handlers before, between and after a setup with a log file, a setup of an unknown
level and one whose log file cannot be opened. -/
theorem runSteps_clean_mixed :
    let steps : List LogStep := [.add (.number 5),
      .configure "" { level := .str " debug", file := .opened }, .add (.flag true),
      .configure "" { level := .str "chatty" },
      .configure "" { file := .failed "rules.log" "denied", propagate := true }]
    ownHandlers (runSteps (fun _ => {}) steps Logger.name) =
        [⟨.foreign, .number 5, false⟩, ⟨.foreign, .flag true, false⟩] ∧
      (runSteps (fun _ => {}) steps Logger.name).handlers =
        [⟨.foreign, .number 5, false⟩, ⟨.foreign, .flag true, false⟩,
          ⟨.console, .number 30, false⟩] := by
  intro steps
  have htidy : IsTidy ((fun _ => {} : Loggers) Logger.name) := ⟨by decide, by decide⟩
  refine ⟨(runSteps_clean (fun _ => {}) htidy steps).1, ?_⟩
  obtain ⟨hown, -, -, -, -, hsetup, -⟩ := runSteps_clean (fun _ => {}) htidy (steps.take 4)
  have hlast := (hsetup "" { file := .failed "rules.log" "denied", propagate := true } (.number 30)
    rfl).handlers
  rw [hown] at hlast
  exact hlast

end Rulebook.Proofs
