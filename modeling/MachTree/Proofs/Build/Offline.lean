import MachTree.Build
import MachTree.Proofs.Activity.Events

/-! What a build does without its tools: settings, fragments and recipes are found in files alone.
No call is made for them, and all that is noted of them is there for debugging. -/
namespace MachTree

open Activity

variable {P : Event → Prop}

theorem Settings.emits_load (root : Path) (file : Option Path) : Emits P P (load root file) := by
  have hrest (ini : Ini) : Emits P P (do
      let settings : Settings := { root, ini }
      Activity.ofExcept id settings.validate
      pure settings) := (Emits.ofExcept _ _).bind fun _ => .pure _
  refine (Emits.isFile _).bind fun isFile => ?_
  cases isFile with
  | true =>
    refine (Emits.readBytes _).bind fun bytes => ?_
    rcases h : ofBytes (.file (filePath root file)) bytes with (reason | reason) | ini
    · simpa only [h] using (Emits.fail _).bind hrest
    · simpa only [h] using (Emits.raise _).bind hrest
    · simpa only [h] using (Emits.pure _).bind hrest
  | false => exact (Emits.pure _).bind hrest

section Debug

variable (hdebug : ∀ text, P (.logged .debug text))
include hdebug

theorem Fragment.emits_load (path : Path) (vars : Fragment.Variables) :
    Emits P P (Fragment.load path vars) := by
  refine (Emits.log (hdebug _)).bind fun _ => (Emits.isFile _).bind fun isFile => ?_
  cases isFile with
  | true => exact (Emits.readBytes _).bind fun _ => (Emits.ofExcept _ _).bind fun _ => .pure _
  | false => exact .fail _

namespace Build

variable {ε : Type}

omit hdebug in
theorem emits_language? (source : Path) :
    Emits P P (language? source : Activity ε (Option Language)) := by
  by_cases hs : source.suffix = ".h"
  · simp only [language?, hs, if_true]
    refine (Emits.isFile _).bind fun isFile => ?_
    cases isFile with
    | true => exact .pure _
    | false => exact .pure _
  · simp only [language?, hs, if_false]
    exact .pure _

theorem emits_locateFragment (b : Build) (source : Path) :
    Emits P P (b.locateFragment source : Activity ε (Option Path)) := by
  refine Emits.ofHost.bind fun host => ?_
  cases b.fragmentOf host.platform source with
  | ok fragment => exact .pure _
  | error e => exact (Emits.log (hdebug _)).bind fun _ => .pure _

theorem emits_directoryVariables (source fragment : Path) :
    Emits P P (directoryVariables source fragment : Activity ε (Option Fragment.Variables)) := by
  refine ((Fragment.emits_load hdebug fragment ∅).bind fun vars => .pure (some vars)).handle
    fun e => ?_
  exact (Emits.log (hdebug _)).bind fun _ => .pure _

theorem emits_recipe? (b : Build) (source : Path) : Emits P P (b.recipe? source) := by
  refine (emits_language? source).bind fun language => ?_
  cases language with
  | none => exact (Emits.log (hdebug _)).bind fun _ => .pure _
  | some language =>
    refine (b.emits_locateFragment hdebug source).bind fun fragment => ?_
    cases fragment with
    | none => exact .pure _
    | some fragment =>
      refine (emits_directoryVariables hdebug source fragment).bind fun vars => ?_
      cases vars with
      | none => exact .pure _
      | some vars =>
        cases h : filled? vars (flagsVariable language) with
        | none => simpa only [h] using Emits.pure _
        | some flags =>
          simpa only [h] using (Emits.ofExcept id (Shell.words flags)).bind fun _ => .pure _

theorem emits_resolve (b : Build) (source : Path) : Emits P P (b.resolve source) :=
  (Emits.absolute _).bind fun _ => Emits.ofHost.bind fun _ =>
    (b.emits_recipe? hdebug _).bind fun _ => .pure _

end Build

end Debug

theorem Build.offline_recipe? (b : Build) (source : Path) : Offline (b.recipe? source) :=
  (b.emits_recipe? (P := fun e => ∃ text, e = .logged .debug text) (fun text => ⟨text, rfl⟩)
    source).offline (by simp)

section Printed

variable {host : Host} {j j' : Journal} {source : Path} (b : Build)

theorem Build.printedText_recipe? {r : Except (Halt Shell.SplitError) (Option Build.Recipe)}
    (h : (b.recipe? source).perform host j = (r, j')) : j'.printedText = j.printedText := by
  have hsame := (b.emits_recipe? (P := fun e => ∃ text, e = .logged .debug text)
    (fun text => ⟨text, rfl⟩) source).printedText_eq (by simp) host j
  rwa [h] at hsame

theorem Build.printedText_resolve {r : Except (Halt Shell.SplitError) (Option CompileConfig)}
    (h : (b.resolve source).perform host j = (r, j')) : j'.printedText = j.printedText := by
  have hsame := (b.emits_resolve (P := fun e => ∃ text, e = .logged .debug text)
    (fun text => ⟨text, rfl⟩) source).printedText_eq (by simp) host j
  rwa [h] at hsame

end Printed

end MachTree
