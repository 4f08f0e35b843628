import MachTree.Main
import MachTree.Process.Launch
import MachTree.Script.System
import MachTree.Process.Shutdown
import MachTree.Proofs.Build.Faults
import MachTree.Proofs.Build.TestCompile
import MachTree.Proofs.Path.Text
import MachTree.Proofs.Registry.Sharing
import MachTree.Registry
import MachTree.Proofs.Flags
import MachTree.Proofs.Compiler.Command
import MachTree.Proofs.Fragment.Value
import MachTree.Proofs.Shell.Words
import MachTree.Proofs.Build.Recipe
import MachTree.Proofs.Fragment.Accumulation
import MachTree.Proofs.Build.Accumulation
import MachTree.Proofs.Build.Ready
import MachTree.Proofs.Build.Noninterference
import MachTree.Proofs.Build.Spelling
import MachTree.Proofs.Files.Relative
import MachTree.Proofs.Settings.Source
import MachTree.Proofs.PathSet
import MachTree.Proofs.Build.CompilerPath
import MachTree.Proofs.Interrupts
import MachTree.Proofs.Tool.Command
import MachTree.Proofs.Compiler.Positions
import MachTree.Proofs.Path.Names
import MachTree.Proofs.Settings.Decision
import MachTree.Proofs.Ini.Values
import MachTree.Proofs.Settings.Acceptance
import MachTree.Proofs.Registry.Memory
import MachTree.Proofs.Flags.Meaning
import MachTree.Proofs.Fragment.Grammar
import MachTree.Proofs.Fragment.Passes
import MachTree.Proofs.Path.Rebase
import MachTree.Proofs.Build.Mirror
import MachTree.Proofs.Build.Directory
import MachTree.Proofs.Environment
import MachTree.Proofs.Shell.Quoting
import MachTree.Proofs.Build.IncludePaths
import MachTree.Proofs.Json.Strings
import MachTree.Proofs.Json.Scalars
import MachTree.Proofs.Text.Utf8
import MachTree.Proofs.Json.LineEnds
import MachTree.Proofs.Build.Reply
import MachTree.Proofs.Root
import MachTree.Proofs.Flags.Places
import MachTree.Proofs.Path.Stability
