import RecordStore.Source.Token
import RecordStore.Text.Identifier

/-!
Under which name a package's code can reach the storage runtime. A dependency may be renamed, and
the runtime may come inside the umbrella package, so the manifest decides the path.
-/
namespace RecordStore

/-- An entry of a dependency table. Without a package of its own it is named for its package. A
manifest may have a table for each of several targets. -/
structure Dependency where
  name : String
  package : Option String := none
  inherits : Bool := false
  target : Option String := none
  deriving DecidableEq, Repr

/-- What a package manifest says about dependencies. -/
structure Manifest where
  package : Option String := none
  dependencies : List Dependency := []
  devDependencies : List Dependency := []
  buildDependencies : List Dependency := []
  targetDependencies : List Dependency := []
  workspaceDependencies : List Dependency := []
  integrationTest : Bool := false
  deriving DecidableEq, Repr

/-- How a package is found: as the one being compiled, or under a name. -/
inductive Provider where
  | itself
  | named (name : String)
  deriving DecidableEq, Repr

namespace Dependency

def packageName (d : Dependency) : String := d.package.getD d.name

end Dependency

namespace Manifest

def externName (name : String) : String := name.map fun c => if c = '-' then '_' else c

def inheritedPackage (m : Manifest) (package : String) : String :=
  match m.workspaceDependencies.reverse.find? (·.name == package) with
  | some entry => entry.packageName
  | none => package

/-- The package that an entry brings. An entry for the package itself brings none. -/
def providedPackage (m : Manifest) (d : Dependency) : Option String :=
  if m.package = some d.packageName then none
  else some (if d.inherits then m.inheritedPackage d.packageName else d.packageName)

def visibleDependencies (m : Manifest) : List Dependency :=
  m.dependencies ++ m.devDependencies ++ m.targetDependencies

/-- Whether no table of the manifest names an entry twice; a manifest that does cannot be read. -/
def isReadable (m : Manifest) : Bool :=
  [m.dependencies, m.devDependencies, m.buildDependencies, m.targetDependencies,
    m.workspaceDependencies].all fun entries =>
      decide (entries.map fun d => (d.target, d.name)).Nodup

def ownProvider (m : Manifest) (name : String) : Provider :=
  if m.integrationTest then .named (externName name) else .itself

def provider? (m : Manifest) (package : String) : Option Provider :=
  match m.visibleDependencies.reverse.find? (m.providedPackage · == some package) with
  | some d => some (.named (externName d.name))
  | none => if m.package = some package then some (m.ownProvider package) else none

end Manifest

namespace RuntimePath

def runtime : String := "gencrud_store"

def umbrella : String := "gencrud"

def umbrellaModule : String := "store"

/-- Whether a name can stand in a path. Some words cannot be marked as raw. -/
def isUsable (name : String) : Bool :=
  match name.toList with
  | 'r' :: '#' :: rest =>
    Identifier.isValid rest &&
      String.ofList rest ∉ ["_", "super", "self", "Self", "crate"]
  | cs => Identifier.isValid cs

/-- The names on the path to the runtime; without any provider, the runtime under its own name. -/
def names (manifest : Option Manifest) : List String :=
  let manifest := manifest.filter Manifest.isReadable
  match manifest.bind (·.provider? runtime) with
  | some .itself => [runtime]
  | some (.named name) => [name]
  | none =>
    match manifest.bind (·.provider? umbrella) with
    | some .itself => [umbrella, umbrellaModule]
    | some (.named name) => [name, umbrellaModule]
    | none => [runtime]

def resolve (manifest : Option Manifest) : Except String (List Token) :=
  let names := names manifest
  match names.find? (!isUsable ·) with
  | some name => .error name
  | none => .ok (names.map fun s => Token.operator "::" ++ [.ident s]).flatten

end RuntimePath

end RecordStore
