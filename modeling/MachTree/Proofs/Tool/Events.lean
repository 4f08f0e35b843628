import MachTree.Proofs.Build.Interrupts
import MachTree.Tool.Basic

/-! What the commands of the tool add to the journal.  A command shows nothing as long as a call of
its may still be interrupted: what it prints, it prints at the end. -/
namespace MachTree

open Activity CommandLine

variable {P : Event → Prop}

namespace Root

theorem emits_firstWithMach {ε : Type} (dirs : List Path) :
    Emits P P (firstWithMach dirs : Activity ε (Option Path)) := by
  induction dirs with
  | nil => exact .pure _
  | cons dir rest ih => exact (Emits.isFile _).bind fun _ => .ite (.pure _) ih

theorem emits_detect (start : Path) : Emits P P (detect start) := by
  refine .ite ((Emits.pure _).bind fun _ => ?_)
    (Emits.currentDirectory.bind fun _ => (Emits.pure _).bind fun _ => ?_)
  all_goals
    refine (Emits.isDirectory _).bind fun _ => (emits_firstWithMach _).bind fun found => ?_
    cases found with
    | some dir => exact .pure _
    | none => exact .fail _

theorem emits_find (start : Path) (root : Option Path) : Emits P P (find start root) := by
  cases root with
  | some root => exact .pure _
  | none => exact emits_detect start

end Root

namespace Tool

theorem emits_givenRoot (o : Options) : Emits P P (givenRoot o) := by
  rw [givenRoot]
  split
  · exact .pure _
  · exact .pure _
  · exact .raise _

theorem emits_startOf (o : Options) : Emits P P (startOf o) := by
  rw [startOf]
  split
  · exact .pure _
  · exact .currentDirectory

theorem emits_loadBuild (o : Options) (start : Path) :
    Emits Event.IsQuiet Event.IsQuiet (loadBuild o start) := by
  refine (emits_givenRoot o).bind fun given => ((Root.emits_find _ _).mapError _).bind fun root =>
    ((Settings.emits_load _ _).mapError _).bind fun s =>
      (Build.emits_probe root (some s) true).bind fun found => ?_
  rcases found with ⟨stage, _ | b⟩
  · exact .fail _
  · exact .pure _

theorem emits_printLines {ε : Type} (hprinted : ∀ text, P (.printed text)) (lines : List String) :
    Emits P P (lines.forM Activity.printLine : Activity ε PUnit) := by
  induction lines with
  | nil => exact .pure _
  | cons line rest ih => exact (Emits.printLine (hprinted _)).bind fun _ => ih

theorem emits_perform (o : Options) (c : Command) :
    Emits Event.IsQuiet (fun _ => True) (perform o c) := by
  have hprinted (text : String) : (Event.printed text).IsNoCall := by simp [Event.IsNoCall]
  have hlogged (level : Level) (text : String) : (Event.logged level text).IsNoCall := by
    simp [Event.IsNoCall]
  cases c with
  | config source =>
    refine (emits_loadBuild o source).bind_noCall fun b => ?_
    refine ((b.emits_resolve (hlogged _) source).mapError _).bind fun config => ?_
    cases config with
    | none => exact .fail _
    | some config => exact .printLine (hprinted _)
  | compile source =>
    exact (emits_loadBuild o source).bind_last (fun _ _ => trivial) fun b =>
      b.emits_testCompile source
  | includes =>
    refine (emits_startOf o).bind_last (fun _ _ => trivial) fun start => ?_
    exact (emits_loadBuild o start).bind_noCall fun b => Emits.ofHost.bind fun _ =>
      emits_printLines hprinted _
  | state =>
    refine (emits_startOf o).bind_last (fun _ _ => trivial) fun start => ?_
    exact (emits_loadBuild o start).bind_noCall fun b => Emits.ofHost.bind fun _ =>
      (Emits.ofExcept _ _).bind fun _ => .printLine (hprinted _)

end Tool
end MachTree
