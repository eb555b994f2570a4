import RecordStore.Derive.Manifest
import Mathlib.Data.List.Basic

/-!
Which path leads to the storage runtime. All that a manifest says comes down to a list of packages
with the names that code has for them: the package itself, and what the tables of dependencies
bring. The last name for the runtime is the path; without one it is the last name for the umbrella
package with its module, and without either the runtime's own name. What the list says of other
packages does not matter.
-/
namespace RecordStore

namespace Manifest

/-- The packages that code can refer to, in order, with the names that it has for them. -/
def provided (m : Manifest) : List (String × String) :=
  (m.package.toList.map fun package => (package, externName package)) ++
    m.visibleDependencies.filterMap fun d => (m.providedPackage d).map (·, externName d.name)

/-- The last name that code has for a package. -/
def lastName? (m : Manifest) (package : String) : Option String :=
  ((m.provided.filter (·.1 == package)).getLast?).map Prod.snd

/-- What a manifest says of the runtime and of the umbrella package. -/
def providers (m : Manifest) : List (String × String) :=
  m.provided.filter fun e => e.1 == RuntimePath.runtime || e.1 == RuntimePath.umbrella

end Manifest

/-- The name by which a provider is referred to. -/
def Provider.name (package : String) : Provider → String
  | .itself => Manifest.externName package
  | .named name => name

namespace Manifest

variable {m m' : Manifest} {package : String}

/-- A name without hyphens is that of its package. -/
theorem externName_eq_self {name : String} (h : '-' ∉ name.toList) : externName name = name := by
  rw [externName, ← String.toList_inj, String.toList_map]
  conv_rhs => rw [← List.map_id name.toList]
  refine List.map_congr_left fun c hc => if_neg ?_
  rintro rfl
  exact h hc

theorem getLast_filter {α : Type} (test : α → Bool) (items : List α) :
    (items.filter test).getLast? = items.reverse.find? test := by
  rw [← List.head?_reverse, ← List.filter_reverse, List.head?_filter]

/-- An entry that brings a package is found with the name that code has for it. -/
theorem find_entries (m : Manifest) (package : String) (entries : List Dependency) :
    (entries.filterMap fun d => (m.providedPackage d).map (·, externName d.name)).find?
        (·.1 == package) =
      (entries.find? (m.providedPackage · == some package)).map (package, externName ·.name) := by
  induction entries with
  | nil => rfl
  | cons d rest ih =>
    cases hd : m.providedPackage d with
    | none => simp [hd, ih]
    | some p =>
      by_cases hp : p = package
      · simp [hd, hp]
      · simp [hd, hp, ih]

/-- A package is provided under the last name that code has for it. -/
theorem provider_name (m : Manifest) (package : String) :
    (m.provider? package).map (Provider.name package) = m.lastName? package := by
  unfold provider? lastName?
  rw [getLast_filter, provided, List.reverse_append, List.find?_append, ← List.filterMap_reverse,
    find_entries]
  cases m.visibleDependencies.reverse.find? (m.providedPackage · == some package) with
  | some d => rfl
  | none =>
    cases hown : m.package with
    | none => simp
    | some own =>
      by_cases howned : own = package
      · subst howned
        unfold ownProvider
        cases m.integrationTest <;> simp [Provider.name]
      · simp [howned]

/-- Manifests that say the same of the runtime and the umbrella have the same names for them. -/
theorem lastName_congr (h : m.providers = m'.providers)
    (hpackage : package = RuntimePath.runtime ∨ package = RuntimePath.umbrella) :
    m.lastName? package = m'.lastName? package := by
  have hfilter (m : Manifest) : m.provided.filter (·.1 == package) =
      m.providers.filter (·.1 == package) := by
    rw [providers, List.filter_filter]
    refine List.filter_congr fun e _ => ?_
    rcases hpackage with rfl | rfl <;> cases h : e.1 == _ <;> simp_all
  rw [lastName?, lastName?, hfilter, hfilter, h]

end Manifest

namespace RuntimePath

open Manifest

/-- The tokens of a path from the root. -/
def path (names : List String) : List Token :=
  (names.map fun s => Token.operator "::" ++ [.ident s]).flatten

variable {m : Manifest} {name : String}

theorem filter_of_isReadable (hm : m.isReadable = true) :
    (some m).filter Manifest.isReadable = some m := by
  rw [Option.filter_some, if_pos hm]

/-- The names on the path by the last names for the runtime and the umbrella. -/
theorem names_eq (hm : m.isReadable = true) : names (some m) =
    match m.lastName? runtime, m.lastName? umbrella with
    | some name, _ => [name]
    | none, some name => [name, umbrellaModule]
    | none, none => [runtime] := by
  have hruntime : externName runtime = runtime := externName_eq_self (by decide)
  have humbrella : externName umbrella = umbrella := externName_eq_self (by decide)
  rw [← provider_name, ← provider_name]
  simp only [names, filter_of_isReadable hm, Option.bind_some]
  cases m.provider? runtime with
  | some provider => cases provider <;> simp [Provider.name, hruntime]
  | none =>
    cases m.provider? umbrella with
    | some provider => cases provider <;> simp [Provider.name, humbrella]
    | none => rfl

theorem resolve_of_usable {manifest : Option Manifest}
    (h : ∀ name ∈ names manifest, isUsable name = true) :
    resolve manifest = .ok (path (names manifest)) := by
  have hnone : (names manifest).find? (!isUsable ·) = none := by
    simpa [List.find?_eq_none] using h
  simp only [resolve, hnone, path]

theorem isUsable_runtime : isUsable runtime = true := by decide +kernel

theorem isUsable_umbrellaModule : isUsable umbrellaModule = true := by decide +kernel

/-- Manifests that say the same of the runtime and the umbrella lead to the same path. -/
theorem resolve_congr {m' : Manifest} (hm : m.isReadable = true) (hm' : m'.isReadable = true)
    (h : m.providers = m'.providers) : resolve (some m) = resolve (some m') := by
  have hnames : names (some m) = names (some m') := by
    rw [names_eq hm, names_eq hm', lastName_congr h (.inl rfl), lastName_congr h (.inr rfl)]
  simp only [resolve, hnames]

/-- The path to the runtime is the last name that code has for it, whatever is said of the umbrella;
where it has none, the last name for the umbrella and its module; and where it has neither, or
without a manifest that can be read, the runtime's own name. Other packages, their order and the
dependencies of the build do not matter. -/
theorem resolve_precedence (hm : m.isReadable = true) :
    (∀ name, m.lastName? runtime = some name → isUsable name = true →
      resolve (some m) = .ok (path [name])) ∧
    (m.lastName? runtime = none → ∀ name, m.lastName? umbrella = some name →
      isUsable name = true → resolve (some m) = .ok (path [name, umbrellaModule])) ∧
    (m.lastName? runtime = none → m.lastName? umbrella = none →
      resolve (some m) = .ok (path [runtime])) ∧
    resolve none = .ok (path [runtime]) ∧
    (∀ m' : Manifest, m'.isReadable = false → resolve (some m') = .ok (path [runtime])) ∧
    (∀ m' : Manifest, m'.isReadable = true → m'.providers = m.providers →
      resolve (some m') = resolve (some m)) ∧
    ∀ table : List Dependency, { m with buildDependencies := table }.isReadable = true →
      resolve (some { m with buildDependencies := table }) = resolve (some m) := by
  refine ⟨fun name hruntime husable => ?_, fun hruntime name humbrella husable => ?_,
    fun hruntime humbrella => ?_, ?_, fun m' hm' => ?_, fun m' hm' h => resolve_congr hm' hm h,
    fun table htable => resolve_congr htable hm rfl⟩
  · have hpath : names (some m) = [name] := by rw [names_eq hm, hruntime]
    rw [resolve_of_usable (by simpa [hpath] using husable), hpath]
  · have hpath : names (some m) = [name, umbrellaModule] := by
      rw [names_eq hm, hruntime, humbrella]
    have hboth : isUsable name = true ∧ isUsable umbrellaModule = true :=
      ⟨husable, isUsable_umbrellaModule⟩
    rw [resolve_of_usable (by simpa [hpath] using hboth), hpath]
  · have hpath : names (some m) = [runtime] := by rw [names_eq hm, hruntime, humbrella]
    rw [resolve_of_usable (by simpa [hpath] using isUsable_runtime), hpath]
  · exact resolve_of_usable (by simpa [names] using isUsable_runtime)
  · have hunread : (some m').filter Manifest.isReadable = none := by
      rw [Option.filter_some, if_neg (by rw [hm']; exact Bool.false_ne_true)]
    have hpath : names (some m') = [runtime] := by simp [names, hunread]
    rw [resolve_of_usable (by simpa [hpath] using isUsable_runtime), hpath]

/-- A manifest with the umbrella, the runtime under another name, and the runtime from the
workspace. -/
def renamedManifest : Manifest where
  package := some "app"
  dependencies := [{ name := "gencrud" }, { name := "my-db", package := some "gencrud_store" }]
  devDependencies := [{ name := "test-store", inherits := true }, { name := "serde" }]
  workspaceDependencies := [{ name := "test-store", package := some "gencrud_store" }]

/-- The same without what has nothing to do with the runtime, and with a dependency of the build. -/
def prunedManifest : Manifest :=
  { renamedManifest with
    devDependencies := [{ name := "test-store", inherits := true }]
    buildDependencies := [{ name := "gencrud_store" }] }

theorem resolve_precedence_renamed :
    renamedManifest.isReadable = true ∧
      renamedManifest.lastName? runtime = some "test_store" ∧ isUsable "test_store" = true ∧
      resolve (some renamedManifest) = .ok (path ["test_store"]) ∧
      prunedManifest.isReadable = true ∧ prunedManifest.providers = renamedManifest.providers ∧
      resolve (some prunedManifest) = resolve (some renamedManifest) := by
  have hm : renamedManifest.isReadable = true := by decide +kernel
  have hlast : renamedManifest.lastName? runtime = some "test_store" := by decide +kernel
  have husable : isUsable "test_store" = true := by decide +kernel
  have hpruned : prunedManifest.isReadable = true := by decide +kernel
  have hproviders : prunedManifest.providers = renamedManifest.providers := by decide +kernel
  obtain ⟨hdirect, -, -, -, -, hcongr, -⟩ := resolve_precedence hm
  exact ⟨hm, hlast, husable, hdirect _ hlast husable, hpruned, hproviders,
    hcongr _ hpruned hproviders⟩

end RuntimePath

end RecordStore
