import MachTree.Build

/-! A registry of builds, one for each source tree.  A tree is known by its absolute normal path; a
tree that is no usable build is remembered as such, and only what was stored can be forgotten. -/
namespace MachTree

/-- What setting up the build of a tree came to. -/
structure Registry.Entry where
  stage : Stage
  build : Option Build
  /-- the number of entries made before; it tells one setting up of a tree from the next -/
  serial : Nat
deriving DecidableEq

structure Registry where
  entries : Table Path Registry.Entry := ∅
  /-- the number of entries made so far, forgotten ones among them -/
  made : Nat := 0
  showProgress : Bool := true
deriving DecidableEq

namespace Registry

/-- An activity that may change a registry.  What it has stored stays stored when it ends early. -/
abbrev Session (ε : Type) : Type → Type :=
  ExceptT (Halt ε) (StateT Registry (ReaderT Host (StateM Journal)))

def Session.lift {ε α : Type} (x : Activity ε α) : Session ε α := fun r host j =>
  let (result, j) := x.perform host j
  ((result, r), j)

def Session.perform {ε α : Type} (x : Session ε α) (r : Registry) (host : Host) (j : Journal) :
    (Except (Halt ε) α × Registry) × Journal :=
  ((x.run.run r).run host).run j

def Session.registry {ε : Type} : Session ε Registry := fun r _ j => ((.ok r, r), j)

def Session.update {ε : Type} (f : Registry → Registry) : Session ε Unit := fun r _ j =>
  ((.ok (), f r), j)

def store (r : Registry) (key : Path) (found : Stage × Option Build) : Registry :=
  { r with
    entries := r.entries.insert key ⟨found.1, found.2, r.made⟩
    made := r.made + 1 }

/-- What is known of a tree; its build is set up when it is asked for the first time. -/
def entry {ε : Type} (root : Path) (settings : Option Settings) : Session ε Entry := do
  let key ← Session.lift (Activity.absolute root)
  let registry ← Session.registry
  match registry.entries.get? key with
  | some entry => pure entry
  | none =>
    Session.lift (Activity.info ("Creating build for " ++ root.toString))
    let found ← Session.lift (Build.probe root settings registry.showProgress)
    Session.update fun r => r.store key found
    Session.lift (Activity.info ("Build for " ++ root.toString ++ ": " ++ found.1.tag))
    pure ⟨found.1, found.2, registry.made⟩

def get {ε : Type} (root : Path) (settings : Option Settings) : Session ε (Option Build) := do
  pure (← entry root settings).build

/-- How far setting up the build of a tree came, if it was asked for. -/
def stageOf (r : Registry) (key : Path) : Stage :=
  ((r.entries.get? key).map Entry.stage).getD .unattempted

def without (r : Registry) (key : Path) : Registry := { r with entries := r.entries.erase key }

def stage {ε : Type} (root : Path) : Session ε Stage := do
  let key ← Session.lift (Activity.absolute root)
  pure ((← Session.registry).stageOf key)

def forget {ε : Type} (root : Path) : Session ε Unit := do
  let key ← Session.lift (Activity.absolute root)
  Session.update fun r => r.without key

end Registry
end MachTree
