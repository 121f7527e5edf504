import QuantumNode.Memory
import QuantumNode.Subroutine

/-
  Trees of files and directories as values. A file holds a text or stored programs. Places in a tree
  are lists of names; paths lead to places through directories that exist.
-/

namespace QuantumNode

inductive FileContent
  | text (s : String)
  | programs (ps : List Subroutine)
  deriving DecidableEq, Inhabited

inductive FileEntry
  | file (c : FileContent)
  | directory

abbrev FilePlace := List String

structure FileTree where
  top : String
  entries : Table FilePlace FileEntry

namespace FileTree

def empty (top : String) : FileTree :=
  ⟨top, []⟩

variable (t : FileTree)

def entry? (p : FilePlace) : Option FileEntry :=
  match p with
  | [] => some .directory
  | p => Table.get? p t.entries

def isDirectoryAt (p : FilePlace) : Bool :=
  match t.entry? p with
  | some .directory => true
  | _ => false

-- Directories are left and entered only if they exist.
def enter (p : FilePlace) : Checked Unit :=
  match t.entry? p with
  | some .directory => .ok ()
  | some (.file _) => .error (.unexplained .notADirectory)
  | none => .error (.unexplained .missingFile)

-- Follow the parts of a path from a place; nothing lies above the top.
def follow (t : FileTree) (p : FilePlace) : List String → Checked FilePlace
  | [] => .ok p
  | part :: rest => do
    t.enter p
    if part = "" || part = "." then t.follow p rest
    else if part = ".." then
      if p.isEmpty then .error (.unexplained .missingFile) else t.follow p.dropLast rest
    else t.follow (p ++ [part]) rest

def relative? (path : String) : Option String :=
  if path = t.top then some "."
  else if path.startsWith (t.top ++ "/") then
    some (String.ofList (path.toList.drop (t.top.length + 1)))
  else if Path.isAbsolute path then none
  else some path

-- The place that a path leads to, where something may stand or not.
def place (path : String) : Checked FilePlace :=
  match t.relative? path with
  | none => .error (.unexplained .missingFile)
  | some path =>
    if path.isEmpty then .error (.unexplained .missingFile) else t.follow [] (Path.parts path)

def find? (path : String) : Option FileEntry :=
  match t.place path with
  | .ok p => t.entry? p
  | .error _ => none

def leadsAbove (t : FileTree) (p : FilePlace) : List String → Bool
  | [] => false
  | part :: rest =>
    if !t.isDirectoryAt p then false
    else if part = "" || part = "." then t.leadsAbove p rest
    else if part = ".." then
      if p.isEmpty then rest.all ["", ".", ".."].contains else t.leadsAbove p.dropLast rest
    else t.leadsAbove (p ++ [part]) rest

-- Whether a path leads to something; the directories above the top exist.
def has (path : String) : Bool :=
  (t.find? path).isSome || t.leadsAbove [] (Path.parts path)

def content (path : String) : Checked FileContent := do
  match t.entry? (← t.place path) with
  | some (.file c) => return c
  | some .directory => throw (.unexplained .isADirectory)
  | none => throw (.unexplained .missingFile)

def read (path : String) : Checked String := do
  match ← t.content path with
  | .text s => return s
  | .programs _ => throw (.unexplained .badEncoding)

def childName? (directory p : FilePlace) : Option String :=
  match p.getLast? with
  | some name => if p.dropLast = directory then some name else none
  | none => none

def names (directory : FilePlace) : List String :=
  (t.entries.filterMap fun (p, _) => childName? directory p).mergeSort (· ≤ ·)

def list (path : String) : Checked (List String) := do
  let p ← t.place path
  t.enter p
  return t.names p

def put (p : FilePlace) (e : FileEntry) : FileTree :=
  { t with entries := Table.put p e t.entries }

def write (path : String) (c : FileContent) : Checked FileTree := do
  let p ← t.place path
  if t.isDirectoryAt p then throw (.unexplained .isADirectory)
  return t.put p (.file c)

def bare (path : String) : String :=
  String.ofList (path.toList.reverse.dropWhile (· = '/')).reverse

def makeDirectory (path : String) : Checked FileTree := do
  let p ← t.place (bare path)
  if (t.entry? p).isSome then throw (.unexplained .existingFile)
  return t.put p .directory

def makeParents (p : FilePlace) : FileTree :=
  (List.range p.length).foldl (fun t n =>
    let parent := p.take n
    if (t.entry? parent).isSome then t else t.put parent .directory) t

def plant (p : FilePlace) (e : FileEntry) : FileTree :=
  (t.makeParents p).put p e

def isWithin (root p : FilePlace) : Bool :=
  root.isPrefixOf p

def removeAt (root : FilePlace) : FileTree :=
  { t with entries := t.entries.filter fun (p, _) => !isWithin root p }

def removeTree (path : String) : Checked FileTree := do
  let p ← t.place path
  t.enter p
  return t.removeAt p

def rename (old new : String) : Checked FileTree := do
  let c ← t.content old
  let p ← t.place old
  (t.removeAt p).write new c

def below (root : FilePlace) : List (FilePlace × FileEntry) :=
  t.entries.filterMap fun (p, e) =>
    if isWithin root p && p.length ≠ root.length then some (p.drop root.length, e) else none

def graft (root : FilePlace) (entries : List (FilePlace × FileEntry)) : FileTree :=
  entries.foldl (fun t (p, e) => t.put (root ++ p) e) t

def copyTree (source target : String) : Checked FileTree := do
  let p ← t.place source
  t.enter p
  let entries := t.below p
  let t ← t.makeDirectory target
  return t.graft (← t.place (bare target)) entries

def files : List (String × FileContent) :=
  t.entries.filterMap fun
    | (p, .file c) => some ("/".intercalate p, c)
    | (_, .directory) => none

end FileTree

end QuantumNode
