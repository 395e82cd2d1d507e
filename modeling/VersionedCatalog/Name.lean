/-! # Names

A namespace is a list of levels, outermost first, and a name is a namespace with a leaf in it. The
path of a name is its levels and then its leaf; its text is the path with dots between the parts.
Levels and leaves are not empty and hold no reserved character, the dot among them, so the text of
a name determines its path.
-/

namespace VersionedCatalog

/-- The two kinds of parts that names are made of. -/
inductive NamePart
  | level
  | leaf
  deriving DecidableEq

def NamePart.text : NamePart → String
  | .level => "namespace level"
  | .leaf => "name"

inductive NameError
  | noLevels
  | emptyPath
  | empty (part : NamePart)
  | reserved (part : NamePart) (value : String) (found : Char)
  deriving DecidableEq

def NameError.message : NameError → String
  | .noLevels => "Invalid namespace: at least one level is required"
  | .emptyPath => "Invalid name identifier: path cannot be empty"
  | .empty part => s!"Invalid {part.text}: cannot be empty"
  | .reserved part value found =>
    s!"Invalid {part.text} '{value}': contains reserved character '{found}'"

namespace NamePart

def separator : Char := '.'

def reserved : List Char := ['.', '/', '%', '~', '?']

def isReserved (c : Char) : Bool := reserved.contains c

def check (part : NamePart) (value : String) : Except NameError Unit :=
  if value.isEmpty then .error (.empty part)
  else
    match value.toList.find? isReserved with
    | some found => .error (.reserved part value found)
    | none => .ok ()

end NamePart

def dotted (parts : List String) : String := ".".intercalate parts

/-- The pieces between the dots, at least one. -/
def piecesOfChars : List Char → List (List Char)
  | [] => [[]]
  | c :: rest =>
    if c = NamePart.separator then [] :: piecesOfChars rest
    else
      match piecesOfChars rest with
      | [] => [[c]]
      | piece :: others => (c :: piece) :: others

def pieces (text : String) : List String := (piecesOfChars text.toList).map String.ofList

structure Namespace where
  levels : List String
  deriving DecidableEq

structure Name where
  scope : Namespace
  leaf : String
  deriving DecidableEq

namespace Namespace

def root : Namespace := ⟨[]⟩

def isRoot (scope : Namespace) : Bool := scope.levels.isEmpty

def depth (scope : Namespace) : Nat := scope.levels.length

def text (scope : Namespace) : String := dotted scope.levels

def checkLevels : List String → Except NameError Unit
  | [] => .ok ()
  | level :: rest => do
    NamePart.level.check level
    checkLevels rest

/-- A namespace below the root. -/
def ofLevels (levels : List String) : Except NameError Namespace := do
  if levels.isEmpty then throw .noLevels
  checkLevels levels
  return ⟨levels⟩

def child (scope : Namespace) (level : String) : Except NameError Namespace := do
  NamePart.level.check level
  return ⟨scope.levels ++ [level]⟩

def parent? (scope : Namespace) : Option Namespace :=
  if scope.isRoot then none else some ⟨scope.levels.dropLast⟩

/-- The name of the innermost level. -/
def name? (scope : Namespace) : Option Name :=
  scope.levels.getLast?.map fun leaf => ⟨⟨scope.levels.dropLast⟩, leaf⟩

end Namespace

namespace Name

def of (scope : Namespace) (leaf : String) : Except NameError Name := do
  NamePart.leaf.check leaf
  return ⟨scope, leaf⟩

def ofPath (path : List String) : Except NameError Name :=
  match path.getLast? with
  | none => .error .emptyPath
  | some leaf => do
    let levels := path.dropLast
    let scope ← if levels.isEmpty then pure Namespace.root else Namespace.ofLevels levels
    of scope leaf

def parse (text : String) : Except NameError Name := ofPath (pieces text)

def path (name : Name) : List String := name.scope.levels ++ [name.leaf]

def depth (name : Name) : Nat := name.scope.depth + 1

def text (name : Name) : String := dotted name.path

/-- The namespace of what lies directly below a name. -/
def inside (name : Name) : Namespace := ⟨name.path⟩

def parent? (name : Name) : Option Name := name.scope.name?

def withLeaf (name : Name) (leaf : String) : Except NameError Name := of name.scope leaf

/-- Whether the path of a name goes on from the path of another one. -/
def isAncestorOf (name other : Name) : Bool :=
  name.depth < other.depth && name.path.isPrefixOf other.path

/-- The name below `target` that goes on like this name goes on below `source`. -/
def rebase? (name source target : Name) : Option Name :=
  if source.isAncestorOf name then
    some ⟨⟨target.path ++ name.scope.levels.drop source.depth⟩, name.leaf⟩
  else none

/-- Names compare by their levels, and in one namespace by their leaves. -/
def compare (a b : Name) : Ordering :=
  (compareOfLessAndEq a.scope.levels b.scope.levels).then (compareOfLessAndEq a.leaf b.leaf)

end Name

end VersionedCatalog
