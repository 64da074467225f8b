/-!
What guards know of versions. Versions and specifiers are texts to a guard: it has a library read
them, and asks it whether a version will do. Each of these can fail, in ways that are the library's
own.
-/

namespace Rulebook

/-- A library of versions and of specifiers, which say what versions will do. -/
structure Packaging where
  Version : Type
  Specifier : Type
  Fault : Type
  version : String → Except Fault Version
  specifier : String → Except Fault Specifier
  admits : Specifier → Version → Except Fault Bool

/-- Whether an installed version meets a specifier; the version is read first. -/
def Packaging.meets (lib : Packaging) (installed specifier : String) : Except lib.Fault Bool := do
  let version ← lib.version installed
  let specifier ← lib.specifier specifier
  lib.admits specifier version

end Rulebook
