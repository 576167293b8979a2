import CodePointers.Disk
import CodePointers.OrderedMap

/-!
Texts read from disk, kept as long as the file's size and modification time stay the same.
-/

namespace CodePointers

structure Stamp where
  size : Nat
  modified : Nat
deriving DecidableEq

def File.stamp (file : File) : Stamp := { size := file.content.size, modified := file.modified }

structure CachedText where
  size : Nat
  modified : Nat
  text : Text

abbrev TextCache := OrderedMap Path CachedText

inductive ReadError where
  | missing (path : Path)
  | unreadable (path : Path)

def ReadError.message : ReadError → String
  | missing path => s!"failed to stat {path.display}"
  | unreadable path => s!"failed to read {path.display}"

namespace TextCache

/-- The cached text of a path, if what is there now has the size and time of what was read. -/
def kept? (cache : TextCache) (path : Path) (stamp : Stamp) : Option Text :=
  match cache.get? path with
  | none => none
  | some cached =>
      if cached.modified = stamp.modified ∧ cached.size = stamp.size then some cached.text else none

def fresh? (cache : TextCache) (path : Path) (file : File) : Option Text :=
  cache.kept? path file.stamp

/-- Reads a file, from the cache while it is unchanged. A read that fails leaves the cache. What
stands at the path may be a folder by now, whose stamp is given if it is known. -/
def readWith (folderStamp? : Option Stamp) (cache : TextCache) (disk : Disk) (path : Path) :
    Except ReadError Text × TextCache :=
  match disk.node? path with
  | none => (.error (.missing path), cache)
  | some (.folder _) =>
      match folderStamp?.bind (cache.kept? path) with
      | some text => (.ok text, cache)
      | none => (.error (.unreadable path), cache)
  | some (.file file) =>
      match cache.fresh? path file with
      | some text => (.ok text, cache)
      | none =>
          match file.content with
          | .binary _ => (.error (.unreadable path), cache)
          | .text text =>
              (.ok text, cache.insert path
                { size := file.content.size, modified := file.modified, text })

/-- A read on a disk that keeps no times of its folders, which no cached text is taken for. -/
def read (cache : TextCache) (disk : Disk) (path : Path) : Except ReadError Text × TextCache :=
  cache.readWith none disk path

end TextCache

end CodePointers
