import VersionedCatalog.Storage.Folder

/-! # Disks

A disk holds folders by the places that their paths lead to. Paths that differ in repeated slashes,
in single dots or in double dots may lead to one place; a folder where nothing was ever written is
empty. Main statement: a folder that is put at a path is found at the paths of the same place, and
all others are left alone.
-/

namespace VersionedCatalog.Storage

structure Disk where
  folders : OrderedMap (List String) Folder
  deriving DecidableEq

namespace Disk

/-- One step on the way to a place. -/
def step (way : List String) (part : String) : List String :=
  if part = "" ∨ part = "." then way
  else if part = ".." then way.dropLast
  else way ++ [part]

/-- The names on the way to the folder that a path leads to. -/
def place (path : String) : List String := (path.splitOn "/").foldl step []

def empty : Disk := ⟨∅⟩

def folderAt (disk : Disk) (path : String) : Folder :=
  (disk.folders.get? (place path)).getD .empty

def withFolder (disk : Disk) (path : String) (folder : Folder) : Disk :=
  ⟨disk.folders.insert (place path) folder⟩

theorem folderAt_empty (path : String) : empty.folderAt path = .empty := rfl

theorem folderAt_withFolder (disk : Disk) (path other : String) (folder : Folder) :
    (disk.withFolder path folder).folderAt other =
      if place other = place path then folder else disk.folderAt other := by
  simp only [folderAt, withFolder, OrderedMap.get?_insert]
  split <;> simp

end Disk

end VersionedCatalog.Storage
