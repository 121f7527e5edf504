import QuantumNode.Fault

/-
  Lines of an application's files: their paths, texts whose parts are divided by slashes, the line
  that a command was made at, and trackers, which find it.
-/

namespace QuantumNode.Path
variable (p : String)

def isAbsolute : Bool :=
  p.startsWith "/"

-- One path below another, unless it starts at the root.
def join (q : String) : String :=
  if isAbsolute q then q
  else if p.isEmpty || p.endsWith "/" then p ++ q
  else p ++ "/" ++ q

def parts : List String :=
  (Text.splitAt '/' p.toList).map String.ofList

-- Take back a part for each step upwards. The root has no part to take back; a relative path keeps
-- its steps upwards.
def climb (rooted : Bool) (done : List String) (part : String) : List String :=
  if part = "" || part = "." then done
  else if part ≠ ".." then done ++ [part]
  else
    match done.getLast? with
    | none => if rooted then [] else [".."]
    | some last => if last = ".." then done ++ [".."] else done.dropLast

-- The slashes that a normal path starts with: two of them count.
def root : String :=
  if p.startsWith "//" && !p.startsWith "///" then "//"
  else if isAbsolute p then "/"
  else ""

-- A path without empty parts, without dots and with as few steps upwards as possible.
def normal : String :=
  let kept := (parts p).foldl (climb (isAbsolute p)) []
  let text := root p ++ "/".intercalate kept
  if text.isEmpty then "." else text

def absolute (here p : String) : String :=
  normal (join here p)

def name : String :=
  (parts p).getLast?.getD ""

def directory : String :=
  let head := String.ofList (p.toList.take (p.length - (name p).length))
  let bare := String.ofList (head.toList.reverse.dropWhile (· = '/')).reverse
  if bare.isEmpty then head else bare

def isBelow (d : String) : Bool :=
  p.startsWith d

end QuantumNode.Path

namespace QuantumNode

structure HostLine where
  file : String
  number : Int
  deriving DecidableEq

namespace HostLine

def text (l : HostLine) : String :=
  toString l.number

def margin : Option HostLine → String
  | none => Text.padLeft 5 "()" ++ " "
  | some l => Text.padLeft 5 ("(" ++ l.text ++ ")") ++ " "

end HostLine

-- The directories whose files are tracked.
structure Tracker where
  appDir : String
  libDirs : List String
  deriving DecidableEq

namespace Tracker

def ofDirectories (here : String) (appDir : Option String)
    (libDirs : List String) : Checked Tracker :=
  match appDir with
  | none => .error (.session .noDirectory)
  | some d => .ok ⟨Path.absolute here d, libDirs.map (Path.absolute here)⟩

def covers (t : Tracker) (file : String) : Bool :=
  Path.isBelow file t.appDir || t.libDirs.any (Path.isBelow file)

-- The innermost tracked line; the frames are given from the inside out.
def find (t : Tracker) (frames : List HostLine) : Checked HostLine :=
  match frames.find? fun l => t.covers l.file with
  | some l => .ok l
  | none => .error (.session (.noFrame t.appDir))

end Tracker

end QuantumNode
