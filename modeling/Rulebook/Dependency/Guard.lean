import Rulebook.Dependency.Packaging
import Rulebook.Text.Uppercase

/-!
Guards: a method runs only where the packages that it needs are there, in versions that will do.
Otherwise a shortage tells which packages are missing, which have another version, and how to get
them.
-/

namespace Rulebook

/-- A package that a component needs: the name that it is installed by, the module that it brings,
and the versions that will do, where an empty text leaves the version open. -/
structure Requirement where
  package : String
  module : String
  specifier : String

/-- What is installed where a method runs. -/
structure Environment where
  /-- Whether a module can be imported. -/
  imports : String → Bool
  /-- The version of a package, if it is installed. -/
  version? : String → Option String
  /-- What the failure to import a module says. -/
  importFailure : String → String := fun module => s!"No module named '{module}'"

/-- The version of a package, unless it is not installed or has none. -/
def Environment.knownVersion? (env : Environment) (package : String) : Option String :=
  (env.version? package).filter (!·.isEmpty)

/-- Whether an installed package meets a specifier, and its version. -/
def Environment.check (env : Environment) (lib : Packaging) (package specifier : String) :
    Except lib.Fault (Bool × Option String) :=
  match env.knownVersion? package with
  | none => .ok (false, none)
  | some version => (lib.meets version specifier).map fun met => (met, some version)

/-- A package that is missing, and the versions that will do. -/
structure MissingPackage where
  package : String
  specifier : String

/-- A package with a version that will not do. -/
structure VersionMismatch where
  package : String
  specifier : String
  installed : String

/-- What a component lacks. -/
structure Shortage where
  component : String
  missing : List MissingPackage := []
  mismatches : List VersionMismatch := []
  /-- The command that gets the packages, where there is a special one. -/
  installCommand : String := ""
  /-- Why the first missing module cannot be imported. -/
  importFailure : Option String := none

namespace Shortage

/-- A package with its specifier between quotes, and bare without one if `always` is not set. -/
def quotedPackage (quote : String) (always : Bool) (package specifier : String) : String :=
  if always || !specifier.isEmpty then quote ++ package ++ specifier ++ quote else package

def missingSentence (s : Shortage) : String :=
  let packages := s.missing.map fun p => quotedPackage "'" true p.package p.specifier
  s!"{String.ofList (Text.uppercase s.component.toList)} codec requires the following packages: "
    ++ String.intercalate ", " packages

/-- The sentence on packages of other versions. -/
def mismatchSentence (s : Shortage) : String :=
  let packages := s.mismatches.map fun p =>
    s!"'{p.package}' (requires {p.specifier}, but {p.installed} is installed)"
  s!"{String.ofList (Text.uppercase s.component.toList)} codec has version mismatches: "
    ++ String.intercalate ", " packages

/-- The packages to get. -/
def wanted (s : Shortage) : List (String × String) :=
  s.missing.map (fun p => (p.package, p.specifier)) ++
    s.mismatches.map fun p => (p.package, p.specifier)

/-- The command that gets the packages. -/
def command? (s : Shortage) : Option String :=
  if !s.installCommand.isEmpty then some s.installCommand
  else if s.wanted.isEmpty then none
  else
    let packages := s.wanted.map fun (package, specifier) =>
      quotedPackage "\"" false package specifier
    some ("pip install --upgrade " ++ String.intercalate " " packages)

/-- What a component lacks, in words. -/
def message (s : Shortage) : String :=
  let sentences := (if s.missing.isEmpty then [] else [s.missingSentence]) ++
    if s.mismatches.isEmpty then [] else [s.mismatchSentence]
  String.intercalate "\n" sentences ++
    s.command?.elim "" fun command => s!"\nInstall with: {command}"

end Shortage

/-- Why a guarded method does not run. -/
inductive GuardFault (ε : Type) where
  | shortage (shortage : Shortage)
  /-- The library of versions cannot tell whether a version will do. -/
  | version (fault : ε)

namespace Requirement

/-- What a requirement adds to a shortage of packages. -/
def inspect (env : Environment) (lib : Packaging) (r : Requirement) (s : Shortage) :
    Except lib.Fault Shortage :=
  if !env.imports r.module then
    .ok { s with
      missing := s.missing ++ [⟨r.package, r.specifier⟩]
      importFailure := s.importFailure.orElse fun _ => some (env.importFailure r.module) }
  else if r.specifier.isEmpty then .ok s
  else do
    let (met, version) ← env.check lib r.package r.specifier
    pure <| if met then s else
      { s with mismatches := s.mismatches ++ [⟨r.package, r.specifier, version.getD "unknown"⟩] }

end Requirement

/-- What a component lacks of the packages that it requires. -/
def Environment.shortage (env : Environment) (lib : Packaging) (component : String)
    (required : List Requirement) : Except lib.Fault Shortage :=
  required.foldlM (fun s r => r.inspect env lib s) { component }

/-- Runs a method on its arguments if nothing is lacking. -/
def guarded {α β : Type} (env : Environment) (lib : Packaging) (component : String)
    (required : List Requirement) (method : α → β) (arguments : α) :
    Except (GuardFault lib.Fault) β :=
  match env.shortage lib component required with
  | .error fault => .error (.version fault)
  | .ok s =>
    if s.missing.isEmpty && s.mismatches.isEmpty then .ok (method arguments)
    else .error (.shortage s)

end Rulebook
