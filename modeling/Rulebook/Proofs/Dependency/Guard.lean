import Mathlib
import Rulebook.Dependency.Guard
import Rulebook.Dependency.Specifier

/-!
# When a guarded method runs

A guarded method runs exactly when each package that it needs is there, in a version that will do as
far as versions matter. The library that knows versions is any: where it fails on a package, its
first failure is the outcome. Otherwise each package that is not there is told once, in the order in
which the packages are required: among the missing ones if its module cannot be imported, and else
among those with another version.
-/

namespace Rulebook.Proofs

variable (lib : Packaging) (env : Environment)

/-- Whether a package is installed in a version that will do, where versions matter. -/
def hasVersion (r : Requirement) : Bool :=
  r.specifier.isEmpty || (env.knownVersion? r.package).any fun version =>
    (lib.meets version r.specifier).toOption == some true

/-- Whether a package is there, in a version that will do. -/
def isMet (r : Requirement) : Bool := env.imports r.module && hasVersion lib env r

/-- What the library fails with on a package. It is asked only about a package that can be imported
and is installed in a version that matters. -/
def failure? (r : Requirement) : Option lib.Fault :=
  if env.imports r.module && !r.specifier.isEmpty then
    (env.knownVersion? r.package).bind fun version =>
      match lib.meets version r.specifier with
      | .error fault => some fault
      | .ok _ => none
  else none

/-! ## One package -/

section

variable {lib env} {r : Requirement}

lemma check_of_failure {fault : lib.Fault} (h : failure? lib env r = some fault) :
    env.imports r.module = true ∧ r.specifier.isEmpty = false ∧
      env.check lib r.package r.specifier = .error fault := by
  unfold failure? at h
  split at h
  next hasked =>
    rw [Bool.and_eq_true, Bool.not_eq_true'] at hasked
    obtain ⟨version, hversion, hmeets⟩ := Option.bind_eq_some_iff.mp h
    refine ⟨hasked.1, hasked.2, ?_⟩
    unfold Environment.check
    rw [hversion]
    dsimp only
    split at hmeets
    next herror =>
      obtain rfl := Option.some.inj hmeets
      rw [herror]
      rfl
    next => cases hmeets
  next => cases h

lemma check_eq (himports : env.imports r.module = true) (hspecifier : r.specifier.isEmpty = false)
    (h : failure? lib env r = none) :
    env.check lib r.package r.specifier =
      .ok (hasVersion lib env r, env.knownVersion? r.package) := by
  unfold failure? at h
  unfold Environment.check hasVersion
  rw [himports, hspecifier] at h
  rw [hspecifier, Bool.false_or]
  cases hinstalled : env.knownVersion? r.package with
  | none => rfl
  | some version =>
    rw [hinstalled] at h
    dsimp only [Option.bind_some] at h ⊢
    cases hmeets : lib.meets version r.specifier with
    | error fault => simp [hmeets] at h
    | ok met => cases met <;> simp [hmeets, Except.map, Except.toOption]

/-- A package that is there has been told so by the library. -/
lemma failure?_of_isMet (h : isMet lib env r = true) : failure? lib env r = none := by
  cases hfailure : failure? lib env r with
  | none => rfl
  | some fault =>
    obtain ⟨-, hspecifier, hcheck⟩ := check_of_failure hfailure
    have hversion := (Bool.and_eq_true_iff.mp h).2
    unfold hasVersion at hversion
    unfold Environment.check at hcheck
    rw [hspecifier, Bool.false_or] at hversion
    cases hinstalled : env.knownVersion? r.package with
    | none => simp [hinstalled] at hversion
    | some version =>
      rw [hinstalled] at hversion hcheck
      cases hmeets : lib.meets version r.specifier with
      | error fault => simp [hmeets, Except.toOption] at hversion
      | ok met => simp [hmeets, Except.map] at hcheck

end

/-! ## All packages -/

/-- What a list of requirements adds to a shortage. -/
def addLacking (required : List Requirement) (s : Shortage) : Shortage :=
  { s with
    missing := s.missing ++ (required.filter fun r => !env.imports r.module).map fun r =>
      ⟨r.package, r.specifier⟩
    mismatches := s.mismatches ++
      (required.filter fun r => env.imports r.module && !hasVersion lib env r).map fun r =>
        ⟨r.package, r.specifier, (env.knownVersion? r.package).getD "unknown"⟩
    importFailure := s.importFailure <|>
      (required.find? fun r => !env.imports r.module).map fun r => env.importFailure r.module }

lemma addLacking_cons (r : Requirement) (rest : List Requirement) (s : Shortage) :
    addLacking lib env rest (addLacking lib env [r] s) = addLacking lib env (r :: rest) s := by
  unfold addLacking
  cases himports : env.imports r.module with
  | false => cases s.importFailure <;> simp [himports]
  | true => cases hversion : hasVersion lib env r <;> simp [himports, hversion]

lemma inspect_of_failure {r : Requirement} {fault : lib.Fault} (s : Shortage)
    (h : failure? lib env r = some fault) : r.inspect env lib s = .error fault := by
  obtain ⟨himports, hspecifier, hcheck⟩ := check_of_failure h
  unfold Requirement.inspect
  rw [himports, hspecifier, hcheck]
  rfl

lemma inspect_eq {r : Requirement} (s : Shortage) (h : failure? lib env r = none) :
    r.inspect env lib s = .ok (addLacking lib env [r] s) := by
  unfold Requirement.inspect addLacking
  cases himports : env.imports r.module with
  | false => cases s.importFailure <;> simp [himports]
  | true =>
    cases hspecifier : r.specifier.isEmpty with
    | true =>
      have hmet : hasVersion lib env r = true := by simp [hasVersion, hspecifier]
      simp [himports, hmet]
    | false =>
      rw [check_eq himports hspecifier h]
      cases hmet : hasVersion lib env r with
      | true => simp [himports, hmet]
      | false => simp [himports, hmet]

/-- A run over all packages ends at the first failure of the library, and else adds what each package
adds, by induction on the packages. -/
lemma shortage_eq (component : String) (required : List Requirement) :
    env.shortage lib component required =
      match required.findSome? (failure? lib env) with
      | some fault => .error fault
      | none => .ok (addLacking lib env required { component }) := by
  unfold Environment.shortage
  generalize ({ component } : Shortage) = s
  induction required generalizing s with
  | nil => simp [addLacking, pure, Except.pure]
  | cons r rest ih =>
    rw [List.foldlM_cons, List.findSome?_cons]
    cases hfailure : failure? lib env r with
    | some fault =>
      rw [inspect_of_failure lib env s hfailure]
      rfl
    | none =>
      have hrest := ih (addLacking lib env [r] s)
      rw [addLacking_cons] at hrest
      rw [inspect_eq lib env s hfailure]
      exact hrest

lemma lacks_nothing_iff (component : String) (required : List Requirement) :
    ((addLacking lib env required { component }).missing.isEmpty &&
        (addLacking lib env required { component }).mismatches.isEmpty) = true ↔
      ∀ r ∈ required, isMet lib env r = true := by
  simp only [addLacking, List.nil_append, Bool.and_eq_true, List.isEmpty_iff, List.map_eq_nil_iff,
    List.filter_eq_nil_iff, isMet]
  constructor
  · rintro ⟨hmissing, hmismatches⟩ r hr
    have himports := hmissing r hr
    have hversion := hmismatches r hr
    simp_all
  · intro h
    constructor
    · intro r hr
      simp [(h r hr).1]
    · intro r hr
      simp [(h r hr).2]

/-- Each package that is not there is told once. -/
lemma length_lacking (component : String) (required : List Requirement) :
    (addLacking lib env required { component }).missing.length +
        (addLacking lib env required { component }).mismatches.length =
      required.countP fun r => !isMet lib env r := by
  simp only [addLacking, List.nil_append, List.length_map, ← List.countP_eq_length_filter]
  induction required with
  | nil => rfl
  | cons r rest ih =>
    have hmet : isMet lib env r = (env.imports r.module && hasVersion lib env r) := rfl
    simp only [List.countP_cons, hmet]
    cases env.imports r.module <;> cases hasVersion lib env r <;> simp <;> omega

/-- The first failure of the library is the outcome. Without one the method runs if nothing is
lacking. -/
lemma guarded_eq {α β : Type} (component : String) (required : List Requirement) (method : α → β)
    (arguments : α) :
    guarded env lib component required method arguments =
      match required.findSome? (failure? lib env) with
      | some fault => .error (.version fault)
      | none =>
        if ∀ r ∈ required, isMet lib env r = true then .ok (method arguments)
        else .error (.shortage (addLacking lib env required { component })) := by
  unfold guarded
  rw [shortage_eq]
  cases required.findSome? (failure? lib env) with
  | some fault => rfl
  | none => simp only [lacks_nothing_iff]

/-- A method runs, on its arguments and with its own outcome, exactly when each package that it needs
is there. Where the library of versions fails on a package, the method does not run, and the first
such failure is the outcome. Else a shortage tells, in the order of the packages, which cannot be
imported and which of the others are not installed in a version that will do, each of them once, and
how the first import fails. The outcome of the method may be a result, a failure or an action. -/
theorem guarded_outcome {α β : Type} (lib : Packaging) (env : Environment) (component : String)
    (required : List Requirement) (method : α → β) (arguments : α) :
    (guarded env lib component required method arguments = .ok (method arguments) ↔
      ∀ r ∈ required, isMet lib env r = true) ∧
    (∀ fault, required.findSome? (failure? lib env) = some fault →
      guarded env lib component required method arguments = .error (.version fault)) ∧
    ((∀ r ∈ required, failure? lib env r = none) → (∃ r ∈ required, isMet lib env r = false) →
      ∃ s, guarded env lib component required method arguments = .error (.shortage s) ∧
        s.component = component ∧
        s.missing = (required.filter fun r => !env.imports r.module).map
          (fun r => ⟨r.package, r.specifier⟩) ∧
        s.mismatches = (required.filter fun r => env.imports r.module && !hasVersion lib env r).map
          (fun r => ⟨r.package, r.specifier, (env.knownVersion? r.package).getD "unknown"⟩) ∧
        s.missing.length + s.mismatches.length = required.countP (fun r => !isMet lib env r) ∧
        s.importFailure = (required.find? fun r => !env.imports r.module).map
          fun r => env.importFailure r.module) := by
  refine ⟨⟨?_, ?_⟩, ?_, ?_⟩
  · intro hruns
    rw [guarded_eq] at hruns
    split at hruns
    · cases hruns
    · split at hruns
      next hmet => exact hmet
      next => cases hruns
  · intro hmet
    have hnone : required.findSome? (failure? lib env) = none :=
      List.findSome?_eq_none_iff.mpr fun r hr => failure?_of_isMet (hmet r hr)
    rw [guarded_eq, hnone]
    exact if_pos hmet
  · intro fault hfault
    rw [guarded_eq, hfault]
  · rintro hnone ⟨r, hr, hlacks⟩
    refine ⟨addLacking lib env required { component }, ?_, rfl, by simp [addLacking],
      by simp [addLacking], length_lacking lib env component required, by simp [addLacking]⟩
    rw [guarded_eq, List.findSome?_eq_none_iff.mpr hnone]
    refine if_neg fun hmet => ?_
    rw [hmet r hr] at hlacks
    cases hlacks

/-- A place with two packages, where two modules cannot be imported. -/
def sparsePlace : Environment where
  imports module := module != "ink" && module != "quill"
  version? package := [("paper", "1.5"), ("wax", "1.0a1")].lookup package
  importFailure module := "no " ++ module

def writingSet : List Requirement :=
  [⟨"paper", "paper", "~=1.2"⟩, ⟨"ink", "ink", ">=1.0"⟩, ⟨"wax", "wax", ">=1.0"⟩,
    ⟨"seal", "seal", "!=2"⟩, ⟨"desk", "desk", ""⟩, ⟨"quill", "quill", ""⟩]

/-- Of six packages the second and the last are missing, and the third and the fourth are not there in
a version that will do. -/
theorem guarded_outcome_writingSet :
    (∀ r ∈ writingSet, (failure? .standard sparsePlace r).isNone = true) ∧
    ∃ s, guarded sparsePlace .standard "letters" writingSet (fun n : Nat => some n) 7 =
        .error (.shortage s) ∧
      s.missing = [⟨"ink", ">=1.0"⟩, ⟨"quill", ""⟩] ∧
      s.mismatches = [⟨"wax", ">=1.0", "1.0a1"⟩, ⟨"seal", "!=2", "unknown"⟩] ∧
      s.importFailure = some "no ink" := by
  have hknown : ∀ r ∈ writingSet, (failure? .standard sparsePlace r).isNone = true := by
    decide +kernel
  have hlacks : ∃ r ∈ writingSet, isMet .standard sparsePlace r = false :=
    ⟨⟨"ink", "ink", ">=1.0"⟩, by simp [writingSet], by decide +kernel⟩
  obtain ⟨s, hs, -, hmissing, hmismatches, -, hfailure⟩ :=
    (guarded_outcome .standard sparsePlace "letters" writingSet (fun n : Nat => some n) 7).2.2
      (fun r hr => Option.isNone_iff_eq_none.mp (hknown r hr)) hlacks
  refine ⟨hknown, s, hs, ?_, ?_, ?_⟩
  · rw [hmissing]
    rfl
  · rw [hmismatches]
    rfl
  · rw [hfailure]
    rfl

/-- A place with one package, in its first version. -/
def paperPlace : Environment where
  imports _ := true
  version? package := [("paper", "1.0")].lookup package

/-- A specifier that asks for a version as it is written can be read whatever it asks for, and the
library then fails on a text that names no version. No shortage is told, though the package is not
there in a version that will do. -/
theorem not_shortage_of_unnamedVersion :
    (Packaging.standard.specifier "===foobar").isOk = true ∧
    (Packaging.standard.version "1.0").isOk = true ∧
    isMet .standard paperPlace ⟨"paper", "paper", "===foobar"⟩ = false ∧
    ∀ s, guarded paperPlace .standard "letters" [⟨"paper", "paper", "===foobar"⟩]
      (fun n : Nat => some n) 7 ≠ .error (.shortage s) := by
  refine ⟨by decide +kernel, by decide +kernel, by decide +kernel, fun s h => ?_⟩
  have hfails : (failure? .standard paperPlace ⟨"paper", "paper", "===foobar"⟩).isSome = true := by
    decide +kernel
  obtain ⟨fault, hfailure⟩ := Option.isSome_iff_exists.mp hfails
  rw [guarded_eq, List.findSome?_cons, hfailure] at h
  cases h

end Rulebook.Proofs
