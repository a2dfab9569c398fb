import SchemaGraph.Error
import SchemaGraph.Text.Identifier

/-!
A tree of files with a working directory. A place in the tree is a list of names; a path is a text
that is followed name by name, `.` staying and `..` going back up, from the top if it begins with a
slash and from the working directory if not.
-/

namespace SchemaGraph

/-- The names that lead to a file or directory. -/
abbrev Place := List String

/-- What a file holds: text, or nothing if it is not valid UTF-8. -/
abbrev Content := Option String

structure FileTree where
  files : List (Place × Content) := []
  /-- Directories that may be empty. A place above a file or directory is a directory too. -/
  dirs : List Place := []
  home : Place := []

inductive FileAction where
  | removeDirectory (path : String)
  | makeDirectory (path : String)
  | write (path text : String)

def FileAction.path : FileAction → String
  | removeDirectory path | makeDirectory path | write path _ => path

namespace FileTree

def isAbove (p q : Place) : Bool :=
  p.isPrefixOf q && p.length < q.length

variable (t : FileTree)

/-- All places at which something is known to be. -/
def places : List Place :=
  t.files.map Prod.fst ++ t.dirs

def isDir (p : Place) : Bool :=
  p.isPrefixOf t.home || t.dirs.contains p || t.places.any (isAbove p)

def content? (p : Place) : Option Content :=
  (t.files.find? fun f => f.1 = p).map Prod.snd

def isFile (p : Place) : Bool :=
  (t.content? p).isSome

/-! ### Limits -/

/-- How many bytes the name of a file or directory can have. -/
def nameLimit : Nat := 255

/-- How many bytes a path can have. -/
def pathLimit : Nat := 4095

def isTooLong (name : String) : Bool :=
  nameLimit < name.utf8ByteSize

/-- Why a place is no directory, if its own directory is there. -/
def obstacle (p : Place) : FileError :=
  if t.isFile p then .notADirectory
  else if (p.getLast?.map isTooLong).getD false then .nameTooLong
  else .notFound

/-! ### Paths -/

/-- The names of a path, empty ones included. -/
def names (path : String) : List String :=
  (Text.pieces '/' path.toList).map String.ofList

/-- The names of a path up to the last that is not empty. -/
def leadingNames (path : String) : List String :=
  ((names path).reverse.dropWhile (· = "")).reverse

/-- A path as seen from a directory. An absolute path stays as it is. -/
def join (dir path : String) : String :=
  if path.startsWith "/" ∨ dir = "" then path
  else if dir.endsWith "/" then dir ++ path
  else dir ++ "/" ++ path

/-- A name that leads nowhere else. -/
def stays (name : String) : Bool :=
  name = "" || name = "."

/-- The names of a path without those that lead nowhere else. -/
def wayOf (path : String) : List String :=
  (names path).filter fun n => !stays n

/-- A path from the top of the tree. -/
def absolute (path : String) : String :=
  join ("/" ++ String.intercalate "/" t.home) path

def start (path : String) : Place :=
  if path.startsWith "/" then [] else t.home

/-- Follows names from a place. Each of them is looked up in a directory. -/
def follow (p : Place) : List String → Except FileError Place
  | [] => .ok p
  | n :: ns =>
    if !t.isDir p then .error (t.obstacle p)
    else if stays n then follow p ns
    else if n = ".." then follow p.dropLast ns
    else follow (p ++ [n]) ns

/-- No path holds a NUL character. -/
def checked (path : String) : Except FileError Unit :=
  if path = "" then .error .notFound
  else if path.toList.contains '\x00' then .error .invalidPath
  else .ok ()

/-- The place that a path leads to; there need not be anything yet. -/
def resolve (path : String) : Except FileError Place := do
  checked path
  t.follow (t.start path) (names path)

def existing? (path : String) : Option Place :=
  match t.resolve path with
  | .ok p => if t.isFile p || t.isDir p then some p else none
  | .error _ => none

def file? (path : String) : Option Place :=
  (t.existing? path).filter t.isFile

/-! ### Changes -/

/-- Puts a file at a place, in place of an earlier one. -/
def put (p : Place) (c : Content) : FileTree :=
  { t with files := (t.files.filter fun f => f.1 ≠ p) ++ [(p, c)] }

def addDir (p : Place) : FileTree :=
  { t with dirs := t.dirs ++ [p] }

def remove (p : Place) : FileTree :=
  { t with
    files := t.files.filter fun f => !p.isPrefixOf f.1
    dirs := p.dropLast :: t.dirs.filter fun d => !p.isPrefixOf d }

/-- Something can only be made at a path that is not too long. -/
def checkedTarget (path : String) : Except FileError Unit := do
  checked path
  if pathLimit < path.utf8ByteSize then .error .nameTooLong

/-- Writes a file in a directory that exists. A path with a slash at its end is not for a file. -/
def write (path text : String) : Except FileError FileTree := do
  checkedTarget path
  let p ← t.follow (t.start path) (leadingNames path)
  if path.endsWith "/" ∨ t.isDir p then .error .isADirectory
  else if !t.isFile p ∧ (p.getLast?.map isTooLong).getD false then .error .nameTooLong
  else return t.put p (some text)

/-- Makes the directory that names lead to. All others on the way have to be there. -/
def makeOne (start : Place) (names : List String) : Except FileError FileTree := do
  let above ← t.follow start names.dropLast
  if !t.isDir above then .error (t.obstacle above)
  match names.getLast? with
  | none => .error .alreadyExists
  | some n =>
    if stays n ∨ n = ".." ∨ t.isFile (above ++ [n]) ∨ t.isDir (above ++ [n]) then
      .error .alreadyExists
    else if isTooLong n then .error .nameTooLong
    else return t.addDir (above ++ [n])

/-- Makes the directory that names lead to, unless it is there. -/
def ensureOne (start : Place) (names : List String) : Except FileError FileTree :=
  match t.makeOne start names, t.follow start names with
  | .ok t, _ => .ok t
  | .error e, .ok p => if t.isDir p then .ok t else .error e
  | .error e, .error _ => .error e

/-- Makes the directory that some names, the last one first, and then `ending` lead to. If something
on the way is missing, all that is before the last name is made first. -/
def ensureAll (start : Place) (ending : List String) : List String → FileTree →
    Except FileError FileTree
  | [], t => .ok t
  | n :: before, t => do
    let names := (n :: before).reverse ++ ending
    let t ← match t.makeOne start names with
      | .error .notFound => ensureAll start [] before t
      | _ => .ok t
    t.ensureOne start names

/-- Makes a directory and all directories above it. The empty path is the working directory. A dot
at the end of a path is looked up in a directory that has to be there. -/
def makeDirectory (path : String) : Except FileError FileTree :=
  if path = "" then .ok t
  else do
    checkedTarget path
    let ending := if (leadingNames path).getLast? = some "." then ["."] else []
    ensureAll (t.start path) ending (wayOf path).reverse t

/-- Removes a directory and all that is in it. The top of the tree and a directory under the name
`.` are only emptied. -/
def removeDirectory (path : String) : FileTree × Except FileError Unit :=
  match t.resolve path with
  | .error e => (t, .error e)
  | .ok p =>
    if t.isFile p then (t, .error .notADirectory)
    else if !t.isDir p then (t, .error .notFound)
    else if p.isEmpty ∨ (leadingNames path).getLast? = some "." then
      ((t.remove p).addDir p, .error .notRemovable)
    else (t.remove p, .ok ())

def perform : FileAction → FileTree × Except FileError Unit
  | .removeDirectory path => t.removeDirectory path
  | .makeDirectory path =>
    match t.makeDirectory path with
    | .ok t => (t, .ok ())
    | .error e => (t, .error e)
  | .write path text =>
    match t.write path text with
    | .ok t => (t, .ok ())
    | .error e => (t, .error e)

/-- Does one thing after the other until one fails; tells at which path. -/
def performAll (t : FileTree) : List FileAction → FileTree × Except (String × FileError) Unit
  | [] => (t, .ok ())
  | a :: as =>
    match t.perform a with
    | (t, .ok ()) => performAll t as
    | (t, .error e) => (t, .error (a.path, e))

/-! ### Listing -/

/-- The files below a place, by the names that lead there from it. Names are in the order of their
code points, and what is in a directory stands where the directory would. -/
def filesBelow (p : Place) : List (Place × Content) :=
  let below := (t.files.filter fun f => isAbove p f.1).map fun f => (f.1.drop p.length, f.2)
  below.mergeSort fun a b => !decide (b.1 < a.1)

end FileTree

end SchemaGraph
