import MachTree.Json.Reader
import MachTree.Snapshot
import MachTree.Tool.Basic

/-! The command line of the tool.  The host is described in JSON on standard input; without a
description it has no files.  What the run writes to files is written to the disk. -/
namespace MachTree
namespace CommandLine

/-- The text up to the end of a stream. -/
partial def readAll (stream : IO.FS.Stream) (before : String) : IO String := do
  let line ← stream.getLine
  if line.isEmpty then pure before else readAll stream (before ++ line)

def writeFile (path : Path) (bytes : List UInt8) : IO Unit := do
  IO.FS.createDirAll path.parent.toString
  IO.FS.writeBinFile path.toString ⟨bytes.toArray⟩

end CommandLine
end MachTree

open MachTree in
def main (args : List String) : IO UInt32 := do
  let description ← CommandLine.readAll (← IO.getStdin) ""
  let host := Snapshot.hostOf {} ⟨.root, []⟩ ((Json.parse description).toOption.getD .null)
  let time := toString (← IO.monoMsNow)
  match Tool.run time host args with
  | .error e =>
    IO.eprintln e.message
    pure 1
  | .ok finish =>
    IO.print finish.journal.printedText
    IO.eprint (Console.errorText time finish.consoleLevel finish.journal)
    for (path, bytes) in host.files.changesTo finish.files do
      CommandLine.writeFile path bytes
    pure finish.exitCode.toUInt32
