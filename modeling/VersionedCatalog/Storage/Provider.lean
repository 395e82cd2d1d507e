import VersionedCatalog.Storage.Backend
import VersionedCatalog.Text.Quoted

/-! # Providers

Backends are opened by the name of a provider. The directory of providers knows two from the
start, `memory` and `log`; others may be registered under any name, in place of these too.
-/

namespace VersionedCatalog.Storage

inductive Provider
  | memory
  | log
  deriving DecidableEq

structure OpenOptions where
  path : Option String
  threshold : Option Nat
  deriving DecidableEq

/-- Opens a backend in the folder at the path of the options. -/
def Provider.openBackend (provider : Provider) (options : OpenOptions) (folder : Folder) :
    Except Fault Backend × Folder :=
  match provider with
  | .memory => (.ok (.inMemory ∅), folder)
  | .log =>
    match options.path with
    | none => (.error .pathMissing, folder)
    | some path =>
      let threshold := options.threshold.getD Journal.defaultThreshold
      let (opened, folder) := Journal.openIn path threshold folder
      (opened.map fun journal => .ofEngine (.journal journal), folder)

abbrev Providers := OrderedMap String Provider

namespace Providers

def builtin : Providers := .ofList [("memory", .memory), ("log", .log)]

def openBackend (providers : Providers) (name : String) (options : OpenOptions)
    (folder : Folder) : Except Fault Backend × Folder :=
  match providers.get? name with
  | some provider => provider.openBackend options folder
  | none => (.error (.unknownProvider name), folder)

/-- The one-line description of a directory: its names in order. -/
def describe (providers : Providers) : String :=
  let names := ", ".intercalate (providers.keys.map Text.quote)
  "BackendRegistry \x7b providers: [" ++ names ++ "] \x7d"

end Providers

end VersionedCatalog.Storage
