import MachTree.Proofs.Build.Noninterference
import MachTree.Proofs.Build.TestCompile
import MachTree.Proofs.Files.Walkable
import MachTree.Proofs.Registry.Alone

/-! A registry that is asked by one caller after another.  It answers as a memory of trees does,
which knows each tree by its absolute normal path, sets it up when it is asked for the first time
and then keeps what this came to, whatever happens to the tree, until the tree is forgotten. -/
namespace MachTree
namespace Registry

open Activity

/-- What a caller may ask a registry for.  To compile a source, the build of the tree is asked for
first. -/
inductive Demand
  | get (root : Path) (settings : Option Settings)
  | stage (root : Path)
  | forget (root : Path)
  | compile (root : Path) (settings : Option Settings) (source : Path)

/-- What a caller is answered.  The build that a caller gets is the one in the entry of the tree,
the same one for the same entry. -/
inductive Response
  | entry (entry : Entry)
  | stage (stage : Stage)
  | forgotten

namespace Demand

def root : Demand → Path
  | get root _ | stage root | forget root | compile root _ _ => root

def compileWith {ε : Type} (e : Entry) (source : Path) : Activity ε Response :=
  match e.build with
  | none => pure (.entry e)
  | some b => do
    b.testCompile source
    pure (.entry e)

def session {ε : Type} : Demand → Session ε Response
  | get root settings => do pure (.entry (← Registry.entry root settings))
  | stage root => do pure (.stage (← Registry.stage root))
  | forget root => do
    Registry.forget root
    pure .forgotten
  | compile root settings source => do
    let e ← Registry.entry root settings
    Session.lift (compileWith e source)

end Demand

/-- A caller's demand, and the host and the journal as they are when it is made. -/
structure Visit where
  host : Host
  journal : Journal
  demand : Demand

namespace Visit

def perform (ε : Type) (v : Visit) (r : Registry) :
    (Except (Halt ε) Response × Registry) × Journal :=
  (v.demand.session : Session ε Response).perform r v.host v.journal

def key (v : Visit) : Path := Path.absolute v.host.cwd v.demand.root

def Forgets (v : Visit) (key : Path) : Prop := v.demand = .forget v.demand.root ∧ v.key = key

end Visit

/-- The answers to visits one after the other, each with the journal after it, and the registry in
the end.  Between two visits the host may have become any other. -/
def serve (ε : Type) (r : Registry) :
    List Visit → List (Except (Halt ε) Response × Journal) × Registry
  | [] => ([], r)
  | v :: rest =>
    let ((response, r), j) := v.perform ε r
    let (responses, r) := serve ε r rest
    ((response, j) :: responses, r)

/-- What is known of each tree, by its absolute normal path. -/
structure Memory where
  known : Path → Option Entry
  /-- the number of trees set up so far -/
  made : Nat
  showProgress : Bool

namespace Memory

def empty (showProgress : Bool) : Memory := ⟨fun _ => none, 0, showProgress⟩

def stageOf (m : Memory) (key : Path) : Stage :=
  ((m.known key).map Entry.stage).getD .unattempted

def keep (m : Memory) (key : Path) (found : Stage × Option Build) : Memory :=
  { m with
    known := Function.update m.known key (some ⟨found.1, found.2, m.made⟩)
    made := m.made + 1 }

def drop (m : Memory) (key : Path) : Memory :=
  { m with known := Function.update m.known key none }

inductive Finds {ε : Type} (m : Memory) (host : Host) (j : Journal) (root : Path)
    (settings : Option Settings) : Except (Halt ε) Entry → Journal → Memory → Prop
  /-- a tree that is known is what it was, and nothing is done -/
  | known {e : Entry} : m.known (Path.absolute host.cwd root) = some e →
      Finds m host j root settings (.ok e) j m
  /-- a tree that is not known is set up, and what this comes to is kept, a failure as well -/
  | first {found : Stage × Option Build} {j' : Journal} :
      m.known (Path.absolute host.cwd root) = none →
      (Build.probe root settings m.showProgress : Activity ε _).perform host
        (j ++ [.logged .info ("Creating build for " ++ root.toString)]) = (.ok found, j') →
      Finds m host j root settings (.ok ⟨found.1, found.2, m.made⟩)
        (j' ++ [.logged .info ("Build for " ++ root.toString ++ ": " ++ found.1.tag)])
        (m.keep (Path.absolute host.cwd root) found)
  /-- nothing is kept when setting it up raises -/
  | raised {halt : Halt ε} {j' : Journal} :
      m.known (Path.absolute host.cwd root) = none →
      (Build.probe root settings m.showProgress : Activity ε _).perform host
        (j ++ [.logged .info ("Creating build for " ++ root.toString)]) = (.error halt, j') →
      Finds m host j root settings (.error halt) j' m

inductive Answers {ε : Type} (m : Memory) :
    Visit → Except (Halt ε) Response → Journal → Memory → Prop
  /-- a relative root leads nowhere when the current directory has been removed -/
  | adrift {v : Visit} : Adrift v.host v.demand.root →
      Answers m v (.error (.fault .noCurrentDirectory)) v.journal m
  | get {host : Host} {j j' : Journal} {root : Path} {settings : Option Settings}
      {found : Except (Halt ε) Entry} {m' : Memory} : ¬ Adrift host root →
      Finds m host j root settings found j' m' →
      Answers m ⟨host, j, .get root settings⟩ (found.map .entry) j' m'
  | stage {host : Host} {j : Journal} {root : Path} : ¬ Adrift host root →
      Answers m ⟨host, j, .stage root⟩ (.ok (.stage (m.stageOf (Path.absolute host.cwd root)))) j m
  | forget {host : Host} {j : Journal} {root : Path} : ¬ Adrift host root →
      Answers m ⟨host, j, .forget root⟩ (.ok .forgotten) j
        (m.drop (Path.absolute host.cwd root))
  | compile {host : Host} {j j₁ j' : Journal} {root source : Path} {settings : Option Settings}
      {e : Entry} {response : Except (Halt ε) Response} {m' : Memory} : ¬ Adrift host root →
      Finds m host j root settings (.ok e : Except (Halt ε) Entry) j₁ m' →
      (Demand.compileWith e source).perform host j₁ = (response, j') →
      Answers m ⟨host, j, .compile root settings source⟩ response j' m'
  | notCompiled {host : Host} {j j' : Journal} {root source : Path} {settings : Option Settings}
      {halt : Halt ε} {m' : Memory} : ¬ Adrift host root →
      Finds m host j root settings (.error halt) j' m' →
      Answers m ⟨host, j, .compile root settings source⟩ (.error halt) j' m'

/-- What a memory answers to visits one after the other. -/
inductive Serves {ε : Type} : Memory → List Visit → List (Except (Halt ε) Response × Journal) →
    Memory → Prop
  | nil {m : Memory} : Serves m [] [] m
  | cons {m m₁ m₂ : Memory} {v : Visit} {rest : List Visit} {response : Except (Halt ε) Response}
      {j : Journal} {responses : List (Except (Halt ε) Response × Journal)} :
      Answers m v response j m₁ → Serves m₁ rest responses m₂ →
      Serves m (v :: rest) ((response, j) :: responses) m₂

variable {ε : Type} {m m₁ m₂ : Memory} {v : Visit} {host : Host} {j j₁ j₂ : Journal} {root : Path}
  {settings : Option Settings}

theorem Finds.unique {found found' : Except (Halt ε) Entry}
    (h : Finds m host j root settings found j₁ m₁)
    (h' : Finds m host j root settings found' j₂ m₂) :
    found = found' ∧ j₁ = j₂ ∧ m₁ = m₂ := by
  cases h <;> cases h' <;> simp_all

theorem Answers.unique {response response' : Except (Halt ε) Response}
    (h : Answers m v response j₁ m₁) (h' : Answers m v response' j₂ m₂) :
    response = response' ∧ j₁ = j₂ ∧ m₁ = m₂ := by
  cases h with
  | adrift hd => cases h' <;> simp_all [Demand.root]
  | get hd hf =>
    cases h' with
    | adrift hd' => exact absurd hd' hd
    | get _ hf' =>
      obtain ⟨rfl, rfl, rfl⟩ := hf.unique hf'
      exact ⟨rfl, rfl, rfl⟩
  | stage hd =>
    cases h' with
    | adrift hd' => exact absurd hd' hd
    | stage => exact ⟨rfl, rfl, rfl⟩
  | forget hd =>
    cases h' with
    | adrift hd' => exact absurd hd' hd
    | forget => exact ⟨rfl, rfl, rfl⟩
  | compile hd hf hc =>
    cases h' with
    | adrift hd' => exact absurd hd' hd
    | compile _ hf' hc' =>
      obtain ⟨he, rfl, rfl⟩ := hf.unique hf'
      obtain rfl := Except.ok.inj he
      rw [hc] at hc'
      obtain ⟨rfl, rfl⟩ := Prod.mk.inj hc'
      exact ⟨rfl, rfl, rfl⟩
    | notCompiled _ hf' => cases (hf.unique hf').1
  | notCompiled hd hf =>
    cases h' with
    | adrift hd' => exact absurd hd' hd
    | compile _ hf' => cases (hf.unique hf').1
    | notCompiled _ hf' =>
      obtain ⟨he, rfl, rfl⟩ := hf.unique hf'
      obtain rfl := Except.error.inj he
      exact ⟨rfl, rfl, rfl⟩

theorem Serves.unique {visits : List Visit}
    {responses responses' : List (Except (Halt ε) Response × Journal)}
    (h : Serves m visits responses m₁) (h' : Serves m visits responses' m₂) :
    responses = responses' ∧ m₁ = m₂ := by
  induction h generalizing responses' with
  | nil =>
    cases h'
    exact ⟨rfl, rfl⟩
  | cons ha hs ih =>
    cases h' with
    | cons ha' hs' =>
      obtain ⟨rfl, rfl, rfl⟩ := ha.unique ha'
      obtain ⟨rfl, rfl⟩ := ih hs'
      exact ⟨rfl, rfl⟩

/-- That trees are ready just when they have a build, which is for the tree that it stands for, and
that no entry has a number that another one has, or one that is still to be given. -/
structure Consistent (m : Memory) : Prop where
  ready : ∀ key e, m.known key = some e → (e.stage = .ready ↔ e.build.isSome = true)
  srcdir : ∀ key e, m.known key = some e → ∀ b, e.build = some b → b.srcdir.normal = key
  serial : ∀ key e, m.known key = some e → e.serial < m.made
  apart : ∀ key key' e e', m.known key = some e → m.known key' = some e' →
    e.serial = e'.serial → key = key'

theorem consistent_empty (showProgress : Bool) : (empty showProgress).Consistent := by
  constructor <;> simp [empty]

theorem known_keep (m : Memory) (key other : Path) (found : Stage × Option Build) :
    (m.keep key found).known other =
      if other = key then some ⟨found.1, found.2, m.made⟩ else m.known other :=
  Function.update_apply _ _ _ _

theorem known_drop (m : Memory) (key other : Path) :
    (m.drop key).known other = if other = key then none else m.known other :=
  Function.update_apply _ _ _ _

theorem Consistent.keep (h : m.Consistent) {key : Path} {found : Stage × Option Build}
    (hready : found.1 = .ready ↔ found.2.isSome = true)
    (hsrcdir : ∀ b, found.2 = some b → b.srcdir.normal = key) : (m.keep key found).Consistent := by
  have hcases {other : Path} {e : Entry} (he : (m.keep key found).known other = some e) :
      other = key ∧ e = ⟨found.1, found.2, m.made⟩ ∨ m.known other = some e := by
    rw [known_keep] at he
    split at he
    · exact .inl ⟨‹_›, (Option.some.inj he).symm⟩
    · exact .inr he
  constructor
  · intro other e he
    obtain ⟨-, rfl⟩ | he := hcases he
    · exact hready
    · exact h.ready other e he
  · intro other e he b hb
    obtain ⟨rfl, rfl⟩ | he := hcases he
    · exact hsrcdir b hb
    · exact h.srcdir other e he b hb
  · intro other e he
    have hmade : (m.keep key found).made = m.made + 1 := rfl
    obtain ⟨-, rfl⟩ | he := hcases he
    · exact Nat.lt_succ_self _
    · exact Nat.lt_succ_of_lt (h.serial other e he)
  · intro other other' e e' he he' hserial
    -- the number of the new entry is above those of the others
    obtain ⟨rfl, rfl⟩ | hold := hcases he <;> obtain ⟨rfl, rfl⟩ | hold' := hcases he'
    · rfl
    · exact absurd hserial (Nat.ne_of_gt (h.serial _ _ hold'))
    · exact absurd hserial (Nat.ne_of_lt (h.serial _ _ hold))
    · exact h.apart _ _ _ _ hold hold' hserial

theorem Consistent.drop (h : m.Consistent) (key : Path) : (m.drop key).Consistent := by
  have hknown {other : Path} {e : Entry} (he : (m.drop key).known other = some e) :
      m.known other = some e := by
    rw [known_drop] at he
    split at he
    · cases he
    · exact he
  exact ⟨fun other e he => h.ready other e (hknown he),
    fun other e he => h.srcdir other e (hknown he),
    fun other e he => h.serial other e (hknown he),
    fun other other' e e' he he' => h.apart other other' e e' (hknown he) (hknown he')⟩

theorem Consistent.finds (h : m.Consistent) {found : Except (Halt ε) Entry}
    (hf : Finds m host j₁ root settings found j₂ m₂) : m₂.Consistent := by
  cases hf with
  | known | raised => exact h
  | @first found j' hknown hp =>
    -- a probe makes the root absolute itself, so its build is for the path that it is kept under
    obtain ⟨stage, build⟩ := found
    have hresult : ((Build.probe root settings m.showProgress : Activity ε _).perform host
        (j₁ ++ [.logged .info ("Creating build for " ++ root.toString)])).1 =
          .ok (stage, build) := by rw [hp]
    have hready := Build.isSome_of_probe hresult
    refine h.keep hready.symm fun b hb => ?_
    obtain rfl : build = some b := hb
    obtain rfl : stage = .ready := hready.mp rfl
    obtain ⟨s, command, vars, cCall, cppCall, hs⟩ := Build.setUp_of_probe hresult
    rw [hs.srcdir]
    exact Path.normal_normal _

theorem Consistent.answers (h : m.Consistent) {response : Except (Halt ε) Response}
    (ha : Answers m v response j₂ m₂) : m₂.Consistent := by
  cases ha with
  | adrift | stage => exact h
  | get _ hf | compile _ hf | notCompiled _ hf => exact h.finds hf
  | forget => exact h.drop _

theorem Consistent.serves (h : m.Consistent) {visits : List Visit}
    {responses : List (Except (Halt ε) Response × Journal)} (hs : Serves m visits responses m₂) :
    m₂.Consistent := by
  induction hs with
  | nil => exact h
  | cons ha _ ih => exact ih (h.answers ha)

theorem Finds.known_of_ne {found : Except (Halt ε) Entry}
    (hf : Finds m host j₁ root settings found j₂ m₂) {key : Path}
    (hkey : key ≠ Path.absolute host.cwd root) : m₂.known key = m.known key := by
  cases hf with
  | known | raised => rfl
  | first => rw [known_keep, if_neg hkey]

theorem Answers.known_of_ne {response : Except (Halt ε) Response} (ha : Answers m v response j₂ m₂)
    {key : Path} (hkey : key ≠ v.key) : m₂.known key = m.known key := by
  cases ha with
  | adrift | stage => rfl
  | get _ hf | compile _ hf | notCompiled _ hf => exact hf.known_of_ne hkey
  | forget => exact (known_drop _ _ _).trans (if_neg hkey)

theorem Finds.known_of_known {found : Except (Halt ε) Entry}
    (hf : Finds m host j₁ root settings found j₂ m₂) {key : Path} {e : Entry}
    (he : m.known key = some e) : m₂.known key = some e := by
  cases hf with
  | known | raised => exact he
  | first hnew =>
    have hkey : key ≠ Path.absolute host.cwd root := by
      rintro rfl
      simp [he] at hnew
    rw [known_keep, if_neg hkey, he]

theorem Answers.known_of_not_forgets {response : Except (Halt ε) Response}
    (ha : Answers m v response j₂ m₂) {key : Path} {e : Entry} (hv : ¬ v.Forgets key)
    (he : m.known key = some e) : m₂.known key = some e := by
  cases ha with
  | adrift | stage => exact he
  | get _ hf | compile _ hf | notCompiled _ hf => exact hf.known_of_known he
  | @forget host j root =>
    have hkey : key ≠ Path.absolute host.cwd root := fun h => hv ⟨rfl, h.symm⟩
    rw [known_drop, if_neg hkey, he]

theorem Serves.known_of_not_forgets {visits : List Visit}
    {responses : List (Except (Halt ε) Response × Journal)}
    (hs : Serves m visits responses m₂) {key : Path} {e : Entry}
    (hv : ∀ v ∈ visits, ¬ v.Forgets key) (he : m.known key = some e) : m₂.known key = some e := by
  induction hs with
  | nil => exact he
  | cons ha _ ih =>
    rw [List.forall_mem_cons] at hv
    exact ih hv.2 (ha.known_of_not_forgets hv.1 he)

end Memory

def memory (r : Registry) : Memory := ⟨r.entries.get?, r.made, r.showProgress⟩

section Serve

variable {ε : Type} {r r' : Registry} {host : Host} {j j' : Journal} {root : Path}
  {settings : Option Settings}

theorem memory_store (r : Registry) (key : Path) (found : Stage × Option Build) :
    (r.store key found).memory = r.memory.keep key found := by
  have hknown : (r.store key found).entries.get? =
      Function.update r.entries.get? key (some ⟨found.1, found.2, r.made⟩) := by
    funext other
    simp [store, Function.update_apply]
  rw [memory, hknown]
  rfl

theorem memory_without (r : Registry) (key : Path) :
    (r.without key).memory = r.memory.drop key := by
  have hknown : (r.without key).entries.get? = Function.update r.entries.get? key none := by
    funext other
    simp [without, Function.update_apply]
  rw [memory, hknown]
  rfl

theorem finds_entry (hd : ¬ Adrift host root) {found : Except (Halt ε) Entry}
    (h : (entry root settings).perform r host j = ((found, r'), j')) :
    r.memory.Finds host j root settings found j' r'.memory := by
  have hknown : r.memory.known (Path.absolute host.cwd root) =
      r.entries.get? (Path.absolute host.cwd root) := rfl
  simp only [entry, Session.perform_bind, Session.perform_lift,
    perform_absolute_of_not_adrift hd, Session.perform_registry] at h
  cases he : r.entries.get? (Path.absolute host.cwd root) with
  | some e =>
    simp only [he, Session.perform_pure, Prod.mk.injEq] at h
    obtain ⟨⟨rfl, rfl⟩, rfl⟩ := h
    exact .known (hknown.trans he)
  | none =>
    simp only [he, Session.perform_bind, Session.perform_lift, perform_info] at h
    rcases hp : (Build.probe root settings r.showProgress : Activity ε _).perform host
      (j ++ [.logged .info ("Creating build for " ++ root.toString)]) with ⟨halt | new, j₁⟩
    · simp only [hp, Prod.mk.injEq] at h
      obtain ⟨⟨rfl, rfl⟩, rfl⟩ := h
      exact .raised (hknown.trans he) hp
    · simp only [hp, Session.perform_update, Session.perform_pure, Prod.mk.injEq] at h
      obtain ⟨⟨rfl, rfl⟩, rfl⟩ := h
      rw [memory_store]
      exact .first (hknown.trans he) hp

theorem perform_of_adrift {v : Visit} (hd : Adrift v.host v.demand.root) :
    v.perform ε r = ((.error (.fault .noCurrentDirectory), r), v.journal) := by
  obtain ⟨host, j, demand⟩ := v
  cases demand with
  | get root settings | stage root | forget root | compile root settings source =>
    have hroot : Adrift host root := hd
    simp only [Visit.perform, Demand.session, entry, Registry.stage, Registry.forget,
      Session.perform_bind, Session.perform_lift, perform_absolute_of_adrift hroot]

/-- A registry answers a visit as its memory does. -/
theorem answers_visit {v : Visit} {response : Except (Halt ε) Response}
    (h : v.perform ε r = ((response, r'), j')) : r.memory.Answers v response j' r'.memory := by
  by_cases hd : Adrift v.host v.demand.root
  · rw [perform_of_adrift hd] at h
    obtain ⟨⟨rfl, rfl⟩, rfl⟩ := by simpa using h
    exact .adrift hd
  · obtain ⟨host, j, demand⟩ := v
    cases demand with
    | get root settings =>
      have hroot : ¬ Adrift host root := hd
      simp only [Visit.perform, Demand.session, Session.perform_bind] at h
      rcases he : (entry root settings : Session ε _).perform r host j with ⟨⟨found, r₁⟩, j₁⟩
      have hf := Memory.Answers.get hroot (finds_entry hroot he)
      rw [he] at h
      cases found with
      | error halt =>
        obtain ⟨⟨rfl, rfl⟩, rfl⟩ := by simpa using h
        exact hf
      | ok e =>
        obtain ⟨⟨rfl, rfl⟩, rfl⟩ := by simpa using h
        exact hf
    | stage root =>
      have hroot : ¬ Adrift host root := hd
      simp only [Visit.perform, Demand.session, Registry.stage, Session.perform_bind,
        Session.perform_lift, perform_absolute_of_not_adrift hroot, Session.perform_registry,
        Session.perform_pure, Prod.mk.injEq] at h
      obtain ⟨⟨rfl, rfl⟩, rfl⟩ := h
      exact .stage hroot
    | forget root =>
      have hroot : ¬ Adrift host root := hd
      simp only [Visit.perform, Demand.session, Registry.forget, Session.perform_bind,
        Session.perform_lift, perform_absolute_of_not_adrift hroot, Session.perform_update,
        Session.perform_pure, Prod.mk.injEq] at h
      obtain ⟨⟨rfl, rfl⟩, rfl⟩ := h
      rw [memory_without]
      exact .forget hroot
    | compile root settings source =>
      have hroot : ¬ Adrift host root := hd
      simp only [Visit.perform, Demand.session, Session.perform_bind] at h
      rcases he : (entry root settings : Session ε _).perform r host j with ⟨⟨found, r₁⟩, j₁⟩
      have hf := finds_entry hroot he
      rw [he] at h
      cases found with
      | error halt =>
        obtain ⟨⟨rfl, rfl⟩, rfl⟩ := by simpa using h
        exact .notCompiled hroot hf
      | ok e =>
        obtain ⟨⟨rfl, rfl⟩, rfl⟩ := by simpa using h
        exact .compile hroot hf rfl

theorem serves_visits (visits : List Visit) (r : Registry) :
    r.memory.Serves visits (serve ε r visits).1 (serve ε r visits).2.memory := by
  induction visits generalizing r with
  | nil => exact .nil
  | cons v rest ih =>
    rcases hv : v.perform ε r with ⟨⟨response, r₁⟩, j₁⟩
    have hs := Memory.Serves.cons (answers_visit hv) (ih r₁)
    simpa only [serve, hv] using hs

theorem exists_perform_get (r : Registry) (host : Host) (j : Journal) (root : Path)
    (settings : Option Settings) : ∃ (found : Except (Halt ε) Entry) (r' : Registry) (j' : Journal),
      (⟨host, j, .get root settings⟩ : Visit).perform ε r = ((found.map .entry, r'), j') ∧
      (get root settings : Session ε _).perform r host j = ((found.map Entry.build, r'), j') := by
  rcases he : (entry root settings : Session ε _).perform r host j with ⟨⟨found, r'⟩, j'⟩
  refine ⟨found, r', j', ?_⟩
  simp only [Visit.perform, Demand.session, get, Session.perform_bind, he]
  cases found <;> exact ⟨rfl, rfl⟩

/-- Whatever callers ask of a new registry one after the other, and whatever becomes of the files
and of the programs in between, it answers as a memory that starts empty.  All that it has stored is
consistent, the next visit changes nothing but its own tree, and what is stored for a tree stays as
it is as long as the tree is not forgotten; the build that is handed out is the one in store. -/
theorem serve_as_memory (showProgress : Bool) (visits : List Visit) :
    (∀ responses m, (Memory.empty showProgress).Serves visits responses m ↔
      (serve ε { showProgress } visits).1 = responses ∧
        (serve ε { showProgress } visits).2.memory = m) ∧
    (serve ε { showProgress } visits).2.memory.Consistent ∧
    (∀ (v : Visit) (key : Path), key ≠ v.key →
      (v.perform ε (serve ε { showProgress } visits).2).1.2.entries.get? key =
        (serve ε { showProgress } visits).2.entries.get? key) ∧
    (∀ (more : List Visit) (key : Path) (e : Entry), (∀ v ∈ more, ¬ v.Forgets key) →
      (serve ε { showProgress } visits).2.entries.get? key = some e →
      (serve ε (serve ε { showProgress } visits).2 more).2.entries.get? key = some e) ∧
    ∀ host j root settings, ∃ (found : Except (Halt ε) Entry) (r : Registry) (j' : Journal),
      (⟨host, j, .get root settings⟩ : Visit).perform ε (serve ε { showProgress } visits).2 =
        ((found.map .entry, r), j') ∧
      (get root settings : Session ε _).perform (serve ε { showProgress } visits).2 host j =
        ((found.map Entry.build, r), j') := by
  have hserves : (Memory.empty showProgress).Serves visits
      (serve ε { showProgress } visits).1 (serve ε { showProgress } visits).2.memory :=
    serves_visits visits { showProgress }
  refine ⟨fun responses m => ⟨fun h => hserves.unique h, ?_⟩,
    (Memory.consistent_empty showProgress).serves hserves, fun v key hkey => ?_,
    fun more key e hmore => (serves_visits more _).known_of_not_forgets hmore,
    exists_perform_get _⟩
  · rintro ⟨rfl, rfl⟩
    exact hserves
  · exact (answers_visit rfl).known_of_ne hkey

end Serve

section Visits

open Build.Scenario

def bare : Host := { cwd := .ofString "/w", runner := fun _ _ => .interrupted "" }

theorem not_adrift_bare (root : Path) : ¬ Adrift bare root := by
  have hcwd : bare.cwd.isRemoved = false := by decide
  simp [Adrift, hcwd]

theorem perform_probe_bare (j : Journal) : ∃ j',
    (Build.probe (.ofString "src") none false : Activity Empty _).perform bare j =
      (.ok (.noMach, none), j') ∧ j'.calls = j.calls := by
  have hpath : (Path.absolute bare.cwd (.ofString "src")).child Build.machFile =
      ⟨.root, [⟨"w", by decide⟩, ⟨"src", by decide⟩] ++ [⟨"mach", by decide⟩]⟩ := by decide
  have hfile : bare.files.isFile bare.cwd
      ⟨.root, [⟨"w", by decide⟩, ⟨"src", by decide⟩] ++ [⟨"mach", by decide⟩]⟩ = .ok false :=
    Files.leadsTo_of_descend?_eq_none (by decide) (.mk (by simp) (by simp)) (by decide) rfl _ _
  rw [Build.perform_probe, Build.perform_attempt (not_adrift_bare _), hpath, hfile]
  exact ⟨_, rfl, by simp⟩

def firstHost : Host := (demo "" 0 ["#define __STDC__ 1"]).host

/-- The same tree when the flags have changed and the C compiler has gone. -/
def laterHost : Host := (demo "COMPUTED_CXXFLAGS = -DB\n" 1 []).host

def demoBuild : Build := (demoFindings ["#define __STDC__ 1"]).build

def demoEntry : Entry := ⟨.ready, some demoBuild, 0⟩

theorem not_adrift_demo (flags : String) (exitCode : Int) (cOutput : List String) (root : Path) :
    ¬ Adrift (demo flags exitCode cOutput).host root := by
  have hcwd : (demo flags exitCode cOutput).host.cwd.isRemoved = false := rfl
  simp [Adrift, hcwd]

theorem perform_probe_demo {j : Journal} (hj : j.calls = []) : ∃ j',
    (Build.probe (.ofString "/s") (some { root := .ofString "/s" }) false :
        Activity Empty _).perform firstHost j = (.ok (.ready, demoEntry.build), j') ∧
      j'.calls.length = 3 := by
  have hroot : Path.absolute firstHost.cwd (.ofString "/s") = .ofString "/s" :=
    Path.IsPlain.absolute_eq (by decide) _
  have hmach : Build.HasMach firstHost (.ofString "/s") := demoHost_hasMach _ _ _ _
  have hs := demoHost_setUp [] "" 0 hj demo_defines
  rw [← hroot] at hmach hs
  obtain ⟨j', hprobe, hcalls⟩ :=
    Build.perform_probe_of_setUp (not_adrift_demo _ _ _ _) hmach hs Empty
  exact ⟨j', hprobe, by simp [hcalls, hj]⟩

/-- The build of the entry makes a call for a file, with the flags that the file has by now. -/
theorem perform_compileWith_demo : ∃ j',
    (Demand.compileWith demoEntry (.ofString "/s/E.cpp") : Activity Empty _).perform laterHost [] =
      (.ok (.entry demoEntry), j') ∧ j'.calls.length = 1 := by
  have hlanguage : Build.HasLanguage laterHost [] (.ofString "/s/E.cpp") (some .cpp) :=
    demo_hasLanguage _ _ _
  have hfragment : demoBuild.fragmentOf laterHost.platform
      (Path.absolute laterHost.cwd (.ofString "/s/E.cpp")) = .ok (.ofString "/o/backend.mk") :=
    demo_fragmentOf _ _ _ _
  have hshort : ¬ Fragment.TooLong laterHost (.ofString "/o/backend.mk") := demo_not_tooLong _ _ _
  have hresolve := Build.resolve_of_not_tooLong hlanguage hfragment hshort
  have hflags : (Fragment.assignmentsIn? laterHost [] (.ofString "/o/backend.mk")
      (Build.flagsVariable .cpp)).bind Build.flagsAfter? = some "-DB" := by
    rw [laterHost, demo_assignmentsIn? _ _ _ _ (by decide +kernel)]
    decide +kernel
  have hwords : Shell.words "-DB" = .ok ["-DB"] := by rfl
  rw [hflags] at hresolve
  simp only [Build.resolved, hwords] at hresolve
  have htests : demoBuild.Tests laterHost [] (.ofString "/s/E.cpp")
      (demoBuild.configure _ ⟨.cpp, ["-DB"], _⟩) .cpp :=
    ⟨⟨_, Prod.ext hresolve rfl⟩, hlanguage.typed, rfl, none, Settings.command?_of_empty _ _ _⟩
  obtain ⟨command, -, hcalls, hends⟩ := demoBuild.testCompile_of_tests Empty htests
  have hdone : ((demoBuild.testCompile (.ofString "/s/E.cpp") : Activity Empty Unit).perform
      laterHost []).1 = .ok () := by
    rcases he : ((demoBuild.testCompile (.ofString "/s/E.cpp") : Activity Empty Unit).perform
      laterHost []).1 with e | done
    · cases (hends e).mp he with
      | interrupted hr => cases hr
      | refused _ hshow => cases hshow
    · rfl
  refine ⟨((demoBuild.testCompile (.ofString "/s/E.cpp") : Activity Empty Unit).perform _ []).2,
    perform_bind_of_ok (Prod.ext hdone rfl), ?_⟩
  rw [hcalls]
  rfl

/-- A tree is set up, a file of it is compiled when its flags have changed and its C compiler has
gone, and another tree is asked for where there are no files. -/
def demoVisits : List Visit :=
  [⟨firstHost, [], .get (.ofString "/s") (some { root := .ofString "/s" })⟩,
    ⟨laterHost, [], .compile (.ofString "s") none (.ofString "/s/E.cpp")⟩,
    ⟨bare, [], .get (.ofString "src") none⟩]

/-- The tree is set up once, and known however its root is spelled and whatever has become of it;
it stays known when the other tree is forgotten, and when all is asked for again. -/
theorem serve_as_memory_hosts :
    let served := serve Empty { showProgress := false } demoVisits
    served.1.map (fun r => (r.1, r.2.calls.length)) =
      [(.ok (.entry demoEntry), 3), (.ok (.entry demoEntry), 1),
        (.ok (.entry ⟨.noMach, none, 1⟩), 0)] ∧
    Path.ofString "/s" ≠ (⟨bare, [], .forget (.ofString "src")⟩ : Visit).key ∧
    ((⟨bare, [], .forget (.ofString "src")⟩ : Visit).perform Empty served.2).1.2.entries.get?
      (.ofString "/s") = some demoEntry ∧
    (∀ v ∈ demoVisits, ¬ v.Forgets (.ofString "/s")) ∧
    (serve Empty served.2 demoVisits).2.entries.get? (.ofString "/s") = some demoEntry := by
  obtain ⟨j₁, hprobe₁, hcalls₁⟩ := perform_probe_demo
    (j := [] ++ [.logged .info ("Creating build for " ++ (Path.ofString "/s").toString)]) (by simp)
  obtain ⟨j₂, hcompile, hcalls₂⟩ := perform_compileWith_demo
  obtain ⟨j₃, hprobe₃, hcalls₃⟩ := perform_probe_bare
    ([] ++ [.logged .info ("Creating build for " ++ (Path.ofString "src").toString)])
  have hkey : Path.absolute laterHost.cwd (.ofString "s") = .ofString "/s" := by decide
  have hfirst := Memory.Finds.first (m := Memory.empty false) rfl hprobe₁
  generalize hm₁ : (Memory.empty false).keep _ _ = m₁ at hfirst
  obtain ⟨hknown, hnew, hshow, hmade⟩ : m₁.known (.ofString "/s") = some demoEntry ∧
      m₁.known (Path.absolute bare.cwd (.ofString "src")) = none ∧ m₁.showProgress = false ∧
      m₁.made = 1 := by
    rw [← hm₁]
    exact ⟨rfl, rfl, rfl, rfl⟩
  have hsecond : m₁.Finds laterHost [] (.ofString "s") none
      (.ok demoEntry : Except (Halt Empty) Entry) [] m₁ := .known ((congrArg _ hkey).trans hknown)
  rw [← hshow] at hprobe₃
  have hthird := Memory.Finds.first hnew hprobe₃
  rw [hmade] at hthird
  have ha₁ := Memory.Answers.get (not_adrift_demo _ _ _ _) hfirst
  have ha₂ := Memory.Answers.compile (not_adrift_demo _ _ _ _) hsecond hcompile
  have ha₃ := Memory.Answers.get (not_adrift_bare _) hthird
  have hall := Memory.Serves.cons ha₁ (.cons ha₂ (.cons ha₃ .nil))
  obtain ⟨hserved, -, hframe, hstays, -⟩ := @serve_as_memory Empty false demoVisits
  obtain ⟨hresponses, hmemory⟩ := (hserved _ _).mp hall
  have hother : Path.ofString "/s" ≠ (⟨bare, [], .forget (.ofString "src")⟩ : Visit).key := by
    decide
  have hkept : ((serve Empty { showProgress := false } demoVisits).2.memory).known
      (.ofString "/s") = some demoEntry := by
    rw [hmemory, Memory.known_keep]
    exact (if_neg hother).trans hknown
  have hnever : ∀ v ∈ demoVisits, ¬ v.Forgets (.ofString "/s") := by
    simp [demoVisits, Visit.Forgets, Demand.root]
  refine ⟨?_, hother, (hframe _ _ hother).trans hkept, hnever, hstays _ _ _ hnever hkept⟩
  have hentry : (⟨.ready, demoEntry.build, (Memory.empty false).made⟩ : Entry) = demoEntry := rfl
  simp [hresponses, hcalls₁, hcalls₂, hcalls₃, Except.map, hentry]

end Visits

end Registry
end MachTree
