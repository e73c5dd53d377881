import Tlscap.Rotation.Model
import Mathlib.Data.Char
import Mathlib.Data.List.DropRight
import Mathlib.Data.List.Lex
import Mathlib.Data.List.Sort

/-!
# Loading plugins

The scripts of a directory are loaded in the order of their names, so that which of two
plugins a port gets does not depend on the order in which the file system lists them
(`loadDirectories_of_perm`).  Running a script is left to the virtual machine, whose heap
takes up what the script registers.
-/

namespace Tlscap

/-- What loading needs of the virtual machine: a fresh one, and running a script file. -/
structure LuaLoader (σ : Type) where
  new : Except Text σ
  loadPluginFile : σ → Text → Except Text σ

/-- Why the plugins of a directory are not loaded. -/
inductive LoadError
  | readDir (dir error : Text)
  | plugin (path error : Text)
  deriving DecidableEq, Repr

/-- What listing a directory yields: nothing if it does not exist, an error if it cannot be
read, and else its entries, of which each may fail. -/
abbrev Listing := Option (Except Text (List (Except Text Text)))

/-- The extension of a file name: what is behind its last dot, unless that is its first
character. -/
def extension (name : Text) : Option Text :=
  if '.' ∉ name then none
  else if (name.rdropWhile (· ≠ '.')).dropLast = [] then none
  else some (name.rtakeWhile (· ≠ '.'))

/-- The extension is `lua` in any case. -/
def isPlugin (name : Text) : Bool :=
  (extension name).any fun ext => ext.map Char.toLower = "lua".toList

/-- The names of the plugins in a listing, sorted. -/
def pluginNames (entries : List (Except Text Text)) : List Text :=
  ((entries.filterMap Except.toOption).filter isPlugin).mergeSort (· ≤ ·)

section Loading

variable {σ : Type} (loader : LuaLoader σ)

/-- Loads one file after another; the first error ends it. -/
def loadScripts : σ → List Text → Except LoadError σ
  | heap, [] => .ok heap
  | heap, path :: paths =>
      match loader.loadPluginFile heap path with
      | .error error => .error (.plugin path error)
      | .ok heap => loadScripts heap paths

/-- Loads the plugins of a directory; returns how many. -/
def loadDirectory (heap : σ) (dir : Text) (listing : Listing) : Except LoadError (σ × ℕ) :=
  match listing with
  | none => .ok (heap, 0)
  | some (.error error) => .error (.readDir dir error)
  | some (.ok entries) =>
      let paths := (pluginNames entries).map (joinPath dir)
      (loadScripts loader heap paths).map fun heap => (heap, paths.length)

/-- Loads the plugins of some directories; returns how many in all. -/
def loadDirectories : σ → List (Text × Listing) → Except LoadError (σ × ℕ)
  | heap, [] => .ok (heap, 0)
  | heap, (dir, listing) :: rest =>
      match loadDirectory loader heap dir listing with
      | .error error => .error error
      | .ok (heap, count) => (loadDirectories heap rest).map fun later => (later.1, count + later.2)

/-! ## The order of a listing -/

/-- The same directory, listed in another order. -/
inductive SameListing : Text × Listing → Text × Listing → Prop
  | absent (dir : Text) : SameListing (dir, none) (dir, none)
  | unreadable (dir error : Text) :
      SameListing (dir, some (.error error)) (dir, some (.error error))
  | entries (dir : Text) {first second : List (Except Text Text)} (hperm : first.Perm second) :
      SameListing (dir, some (.ok first)) (dir, some (.ok second))

theorem pluginNames_of_perm {first second : List (Except Text Text)} (hperm : first.Perm second) :
    pluginNames first = pluginNames second := by
  have hsorted : ∀ entries, (pluginNames entries).Pairwise (· ≤ ·) := fun entries =>
    List.pairwise_mergeSort' (· ≤ ·) _
  have hnames : ((first.filterMap Except.toOption).filter isPlugin).Perm
      ((second.filterMap Except.toOption).filter isPlugin) :=
    (hperm.filterMap Except.toOption).filter isPlugin
  refine List.Perm.eq_of_pairwise' (hsorted first) (hsorted second) ?_
  calc pluginNames first
      |>.Perm ((first.filterMap Except.toOption).filter isPlugin) := List.mergeSort_perm _ _
    _ |>.Perm ((second.filterMap Except.toOption).filter isPlugin) := hnames
    _ |>.Perm (pluginNames second) := (List.mergeSort_perm _ _).symm

theorem loadDirectory_of_same {first second : Text × Listing} (hsame : SameListing first second)
    (heap : σ) :
    loadDirectory loader heap first.1 first.2 = loadDirectory loader heap second.1 second.2 := by
  cases hsame with
  | absent dir => rfl
  | unreadable dir error => rfl
  | entries dir hperm =>
      change Except.map _ (loadScripts loader heap ((pluginNames _).map (joinPath dir))) =
        Except.map _ (loadScripts loader heap ((pluginNames _).map (joinPath dir)))
      rw [pluginNames_of_perm hperm]

/-- **The order of a listing decides nothing.**  Whatever the scripts do to the virtual
machine, and whether loading fails or not. -/
theorem loadDirectories_of_perm {first second : List (Text × Listing)}
    (hsame : List.Forall₂ SameListing first second) (heap : σ) :
    loadDirectories loader heap first = loadDirectories loader heap second := by
  induction hsame generalizing heap with
  | nil => rfl
  | @cons left right _ _ hlisting _ ih =>
      have hnow := loadDirectory_of_same loader hlisting heap
      obtain ⟨dir, listing⟩ := left
      obtain ⟨other, otherListing⟩ := right
      unfold loadDirectories
      rw [hnow]
      cases loadDirectory loader heap other otherListing with
      | error error => rfl
      | ok loaded =>
          dsimp only
          rw [ih]

end Loading

end Tlscap
