import QuantumNode.CommandLine.Program

/-
  The program: it reads the files below the current directory, carries out its command line, and
  writes the files that this has changed.
-/

namespace QuantumNode

-- The content of a file; one that is not a text is kept as such.
def readContent (path : String) : IO FileContent := do
  try return .text (← IO.FS.readFile path)
  catch _ => return .programs []

def readBelow : Nat → FileTree → String → FilePlace → IO FileTree
  | 0, t, _, _ => return t
  | depth + 1, t, dir, place => do
    let mut t := t
    for e in ← (← IO.FS.realPath dir).readDir do
      let path := Path.join dir e.fileName
      let place := place ++ [e.fileName]
      if ← e.path.isDir then
        t ← readBelow depth (t.plant place .directory) path place
      else
        t := t.plant place (.file (← readContent path))
    return t

def readingDepth : Nat := 8

def writeChanges (before after : FileTree) : IO Unit := do
  for (place, entry) in after.entries do
    let path := "/".intercalate place
    match entry, before.entry? place with
    | .directory, none => IO.FS.createDirAll path
    | .file (.text s), some (.file (.text old)) => if s ≠ old then IO.FS.writeFile path s
    | .file (.text s), _ => IO.FS.writeFile path s
    | _, _ => pure ()

end QuantumNode

open QuantumNode

def main (args : List String) : IO UInt32 := do
  let files ← readBelow readingDepth (.empty (← IO.FS.realPath ".").toString) "." []
  let work := Workspace.start files (← IO.getEnv "NETQASM_SIMULATOR") "" ""
  let program := CommandLine.program
  let (result, work) := (program.carryOut program.synopsis.name args).run work
  writeChanges files work.files
  IO.print work.printed
  match result with
  | .ok (.refused page) =>
    IO.eprint page
    return 2
  | .ok e =>
    IO.print e.page
    return 0
  | .error f =>
    IO.eprintln (f.message?.getD "")
    return 1
