import MachTree.Proofs.Build.Faults
import MachTree.Proofs.Build.Ready
import MachTree.Proofs.Tool.Events

/-! What the commands of the tool take to succeed.  Each loads the build of a tree first: its root
is found, its settings are read and its build is ready.  What is left to do then seldom fails. -/
namespace MachTree

open Activity CommandLine

namespace Tool

variable {here : Host} {o : Options} {start root : Path} {s : Settings} {b : Build} {j : Journal}

/-- What a command works on: the root around a place, its settings, and its build. -/
structure Loads (here : Host) (o : Options) (start root : Path) (s : Settings) (b : Build)
    (j : Journal) : Prop where
  named : o.root ≠ some .nothing
  found : (Root.find start (named? o.root)).perform here [] = (.ok root, [])
  settings : (Settings.load root (named? o.settings)).perform here [] = (.ok s, [])
  ready : (Build.probe root (some s) true : Activity Error _).perform here [] =
    (.ok (.ready, some b), j)

theorem perform_givenRoot_eq_ok {given : Option Path} {j' : Journal} :
    (givenRoot o).perform here j = (.ok given, j') ↔
      o.root ≠ some .nothing ∧ named? o.root = given ∧ j = j' := by
  rcases h : o.root with _ | _ | _ <;> simp [givenRoot, named?, h]

theorem perform_loadBuild_eq_ok :
    (loadBuild o start).perform here [] = (.ok b, j) ↔
      ∃ root s, Loads here o start root s b j := by
  constructor
  · intro h
    simp only [loadBuild, perform_bind_eq_ok, perform_givenRoot_eq_ok, perform_mapError_eq_ok] at h
    obtain ⟨given, j₁, ⟨hnamed, rfl, rfl⟩, root, j₂, hroot, s, j₃, hs, ⟨stage, built⟩, j₄, hprobe,
      h⟩ := h
    obtain rfl : j₂ = [] := by
      simpa [hroot] using (Root.emits_find start (named? o.root)).journal_eq here []
    obtain rfl : j₃ = [] := by
      simpa [hs] using (Settings.emits_load root (named? o.settings)).journal_eq here []
    cases built with
    | none => simp at h
    | some built =>
      obtain ⟨rfl, rfl⟩ : built = b ∧ j₄ = j := by simpa using h
      have hstage := (Build.isSome_of_probe (congrArg Prod.fst hprobe)).mp rfl
      exact ⟨root, s, hnamed, hroot, hs, hstage ▸ hprobe⟩
  · rintro ⟨root, s, hnamed, hroot, hs, hready⟩
    simp only [loadBuild, perform_bind_eq_ok, perform_givenRoot_eq_ok, perform_mapError_eq_ok]
    exact ⟨_, _, ⟨hnamed, rfl, rfl⟩, root, [], hroot, s, [], hs, _, j, hready, rfl⟩

theorem Loads.printedText (h : Loads here o start root s b j) : j.printedText = "" := by
  have hquiet := (Build.emits_probe (ε := Error) root (some s) true).printedText_eq
    (fun _ hq => hq.printed) here []
  rw [h.ready] at hquiet
  exact hquiet

def Starts (here : Host) (o : Options) (start : Path) : Command → Prop
  | .config source | .compile source => start = source
  | .includes | .state => (startOf o).perform here [] = (.ok start, [])

/-- That standard output takes lines one after the other. -/
def Takes (here : Host) (taken : String) : List String → Prop
  | [] => True
  | line :: rest => here.refuses taken line = none ∧ Takes here (taken ++ (line ++ "\n")) rest

/-- That a build gives a command what it is for, and that it can be shown.  A test compile is there
to be reported, however it ends. -/
def Serves (here : Host) (b : Build) (j : Journal) : Command → Prop
  | .config source => ∃ config, ((b.resolve source).perform here j).1 = .ok (some config) ∧
      Takes here "" [(configJson config).pretty]
  | .compile source => ((b.testCompile source : Activity Error Unit).perform here j).1 = .ok ()
  | .includes => Takes here "" (b.includePaths here.platform).toStrings
  | .state => ∀ json, b.state here.platform = .ok json → Takes here "" [json.pretty]

def Succeeds (here : Host) (o : Options) (c : Command) : Prop :=
  ∃ start root s b j, Starts here o start c ∧ Loads here o start root s b j ∧ Serves here b j c

theorem loadBuild_bind_eq_ok {f : Build → Activity Error Unit} :
    ((loadBuild o start >>= f).perform here []).1 = .ok () ↔
      ∃ root s b j, Loads here o start root s b j ∧ ((f b).perform here j).1 = .ok () := by
  simp only [fst_eq_ok_iff, perform_bind_eq_ok, perform_loadBuild_eq_ok]
  constructor
  · rintro ⟨j', b, j, ⟨root, s, hload⟩, hf⟩
    exact ⟨root, s, b, j, hload, j', hf⟩
  · rintro ⟨root, s, b, j, hload, j', hf⟩
    exact ⟨j', b, j, ⟨root, s, hload⟩, hf⟩

theorem startOf_bind_eq_ok {f : Path → Activity Error Unit} :
    ((startOf o >>= f).perform here []).1 = .ok () ↔
      ∃ start, (startOf o).perform here [] = (.ok start, []) ∧
        ((f start).perform here []).1 = .ok () := by
  simp only [fst_eq_ok_iff, perform_bind_eq_ok]
  constructor
  · rintro ⟨j', start, j₁, hstart, hf⟩
    obtain rfl : j₁ = [] := by simpa [hstart] using (emits_startOf o).journal_eq here []
    exact ⟨start, hstart, j', hf⟩
  · rintro ⟨start, hstart, j', hf⟩
    exact ⟨j', start, [], hstart, hf⟩

theorem perform_printLines_eq_ok {ε : Type} {lines : List String} :
    ((lines.forM Activity.printLine : Activity ε PUnit).perform here j).1 = .ok () ↔
      Takes here j.printedText lines := by
  induction lines generalizing j with
  | nil => simp [Takes]
  | cons line rest ih =>
    have hprinted : Journal.printedText (j ++ [.printed (line ++ "\n")]) =
        j.printedText ++ (line ++ "\n") := by
      simp [Journal.printedText, String.join]
    have hcons : ((line :: rest).forM Activity.printLine : Activity ε PUnit) = (do
        Activity.printLine line
        rest.forM Activity.printLine) := rfl
    rw [hcons, perform_bind, perform_printLine, Takes]
    cases here.refuses j.printedText line with
    | none =>
      rw [← hprinted]
      simpa only [true_and] using ih
    | some t => simp

theorem perform_printLine_eq_ok_iff {ε : Type} {line : String} :
    ((Activity.printLine line : Activity ε Unit).perform here j).1 = .ok () ↔
      Takes here j.printedText [line] := by
  rw [perform_printLine_eq_ok, Takes, Takes, and_true]

theorem perform_eq_ok_iff {c : Command} :
    ((perform o c).perform here []).1 = .ok () ↔ Succeeds here o c := by
  cases c with
  | config source =>
    rw [perform, showConfig, loadBuild_bind_eq_ok]
    constructor
    · rintro ⟨root, s, b, j, hload, hend⟩
      rw [fst_eq_ok_iff] at hend
      simp only [perform_bind_eq_ok, perform_mapError_eq_ok] at hend
      obtain ⟨j', config, j₁, hresolve, hend⟩ := hend
      cases config with
      | none => cases hend
      | some config =>
        have htakes := perform_printLine_eq_ok_iff.mp (congrArg Prod.fst hend)
        rw [b.printedText_resolve hresolve, hload.printedText] at htakes
        exact ⟨source, root, s, b, j, rfl, hload, config, congrArg Prod.fst hresolve, htakes⟩
    · rintro ⟨_, root, s, b, j, rfl, hload, config, hresolve, htakes⟩
      obtain ⟨j₁, hresolve⟩ := fst_eq_ok_iff.mp hresolve
      refine ⟨root, s, b, j, hload, ?_⟩
      rw [perform_bind_of_ok (perform_mapError_eq_ok.mpr hresolve), perform_printLine_eq_ok_iff,
        b.printedText_resolve hresolve, hload.printedText]
      exact htakes
  | compile source =>
    rw [perform, compile, loadBuild_bind_eq_ok]
    constructor
    · rintro ⟨root, s, b, j, hload, htest⟩
      exact ⟨source, root, s, b, j, rfl, hload, htest⟩
    · rintro ⟨_, root, s, b, j, rfl, hload, htest⟩
      exact ⟨root, s, b, j, hload, htest⟩
  | includes =>
    simp only [perform, showIncludes, startOf_bind_eq_ok, loadBuild_bind_eq_ok,
      perform_bind_of_ok perform_host, perform_printLines_eq_ok]
    constructor
    · rintro ⟨start, hstart, root, s, b, j, hload, htakes⟩
      rw [hload.printedText] at htakes
      exact ⟨start, root, s, b, j, hstart, hload, htakes⟩
    · rintro ⟨start, root, s, b, j, hstart, hload, htakes⟩
      refine ⟨start, hstart, root, s, b, j, hload, ?_⟩
      rw [hload.printedText]
      exact htakes
  | state =>
    simp only [perform, showState, startOf_bind_eq_ok, loadBuild_bind_eq_ok,
      perform_bind_of_ok perform_host]
    have hshown {start root : Path} {s : Settings} {b : Build} {j : Journal}
        (hload : Loads here o start root s b j) :
        ((do
          let state ← Activity.ofExcept .override (b.state here.platform)
          Activity.printLine state.pretty : Activity Error Unit).perform here j).1 = .ok () ↔
          Serves here b j .state := by
      obtain ⟨_, _, _, _, _, hsetUp⟩ := Build.setUp_of_probe (congrArg Prod.fst hload.ready)
      obtain ⟨json, hjson⟩ := hsetUp.exists_state here.platform
      rw [hjson, perform_bind_of_ok (perform_ofExcept_ok _ _), perform_printLine_eq_ok_iff,
        hload.printedText]
      simp [Serves, hjson]
    constructor
    · rintro ⟨start, hstart, root, s, b, j, hload, hend⟩
      exact ⟨start, root, s, b, j, hstart, hload, (hshown hload).mp hend⟩
    · rintro ⟨start, root, s, b, j, hstart, hload, hserves⟩
      exact ⟨start, hstart, root, s, b, j, hload, (hshown hload).mpr hserves⟩

end Tool
end MachTree
