import CodePointers.Disk
import CodePointers.Pointer

/-!
Sample workspaces of any size: modules of source files and a folder of notes, every file with a
fixed number of pointers into the source files. The same size always gives the same files.
-/

namespace CodePointers

structure SampleSize where
  moduleCount : Nat
  filesPerModule : Nat
  linesPerFile : Nat
  pointersPerFile : Nat
  noteCount : Nat

namespace SampleSize

def small : SampleSize :=
  { moduleCount := 3, filesPerModule := 5, linesPerFile := 40, pointersPerFile := 2
    noteCount := 2 }

def medium : SampleSize :=
  { moduleCount := 8, filesPerModule := 20, linesPerFile := 80, pointersPerFile := 4
    noteCount := 10 }

def large : SampleSize :=
  { moduleCount := 20, filesPerModule := 40, linesPerFile := 120, pointersPerFile := 6
    noteCount := 40 }

def isVoid (size : SampleSize) : Bool := size.moduleCount == 0 || size.filesPerModule == 0

def pointerCount (size : SampleSize) : Nat :=
  if size.isVoid then 0
  else (size.moduleCount * size.filesPerModule + size.noteCount) * size.pointersPerFile

def moduleName (number : Nat) : Text := "mod_".toList ++ decimal number

def sourceName (number : Nat) : Text := "src/file_".toList ++ decimal number ++ ".rs".toList

def sourcePath (moduleNumber file : Nat) : Text :=
  moduleName moduleNumber ++ '/' :: sourceName file

def notePath (note : Nat) : Text := "docs/doc_".toList ++ decimal note ++ ".md".toList

def pointerText (size : SampleSize) (ordinal position : Nat) : Text :=
  let lines := max size.linesPerFile 1
  let first := position * 7 % lines + 1
  Pointer.render (moduleName ((ordinal + position + 1) % size.moduleCount))
    (sourceName ((ordinal + position) % size.filesPerModule)) first (min (first + 3) lines)

def pointerLine (size : SampleSize) (ordinal position : Nat) : Text :=
  "// see ".toList ++ size.pointerText ordinal position ++ ['\n']

def codeLine (ordinal line : Nat) : Text :=
  "fn item_".toList ++ decimal ordinal ++ '_' :: decimal line ++ "() -> usize \x7b ".toList ++
    decimal line ++ " \x7d\n".toList

def sourceText (size : SampleSize) (ordinal : Nat) : Text :=
  (List.range size.pointersPerFile).flatMap (size.pointerLine ordinal) ++
    ((List.range size.linesPerFile).drop size.pointersPerFile).flatMap (codeLine ordinal)

def noteStep (size : SampleSize) (note position : Nat) : Text :=
  "Step ".toList ++ decimal (position + 1) ++ " is implemented in ".toList ++
    size.pointerText note position ++ ".\n\n".toList

def noteText (size : SampleSize) (note : Nat) : Text :=
  "# Design note ".toList ++ decimal note ++ "\n\n".toList ++
    (List.range size.pointersPerFile).flatMap (size.noteStep note)

def sources (size : SampleSize) : List (Text × Text) :=
  (List.range size.moduleCount).flatMap fun moduleNumber =>
    (List.range size.filesPerModule).map fun file =>
      (sourcePath moduleNumber file,
        size.sourceText (moduleNumber * size.filesPerModule + file))

def notes (size : SampleSize) : List (Text × Text) :=
  (List.range size.noteCount).map fun note => (notePath note, size.noteText note)

def files (size : SampleSize) : List (Text × Text) :=
  if size.isVoid then [] else size.sources ++ size.notes

end SampleSize

def Disk.writeSample (disk : Disk) (root : Path) (size : SampleSize) (modified : Nat) : Disk :=
  size.files.foldl (fun disk (path, text) =>
    disk.write (root.join (.ofText path)) { content := .text text, modified }) disk

end CodePointers
