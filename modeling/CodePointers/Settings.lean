import CodePointers.Path

/-!
Which files take part: the extensions that are scanned for pointers, the directories that are
never entered, the directories that resolution probes, and the limits of a scan.
-/

namespace CodePointers

structure Settings where
  maxFileSize : Nat
  /-- Whether a scan may take the files in any order; its outcome does not depend on it. -/
  parallelScan : Bool

namespace Settings

def default : Settings := { maxFileSize := 2 * 1024 * 1024, parallelScan := true }

end Settings

def indexedExtensions : List String := [
  "md", "markdown", "mdx", "txt", "rst", "adoc", "org",
  "rs", "py", "js", "jsx", "ts", "tsx", "mjs", "cjs", "java", "kt", "kts", "scala", "go", "c",
  "h", "cc", "cpp", "hpp", "cs", "rb", "php", "swift", "m", "r", "sh", "sql",
  "yaml", "yml", "toml", "json", "html", "css", "vue", "svelte"]

def excludedDirectories : List String := [
  ".git", ".hg", ".svn", "node_modules", "target", "build", "dist", "out", ".idea", ".vscode",
  ".gradle", "__pycache__", ".venv", "venv", "vendor", ".next", "coverage"]

def conventionalDirectories : List String := [
  "src", "app", "lib", "packages", "projects", "modules", "backend", "frontend"]

def manifestName : String := ".coderef.json"

def isExcludedName (name : Text) : Bool :=
  excludedDirectories.any fun excluded => excluded.toList == name

def hasIndexedExtension (path : Path) : Bool :=
  match path.fileExtension? with
  | none => false
  | some extension => indexedExtensions.any fun known => equalIgnoringCase known.toList extension

/-- Whether a directory between the root and the path is excluded. A path outside the root is
judged on all of its directories. -/
def hasExcludedAncestor (root path : Path) : Bool :=
  let inner := if path.isWithin root then path.parts.drop root.parts.length else path.parts
  inner.dropLast.any fun part => match part with
    | .name name => isExcludedName name
    | _ => false

def isIndexable (root path : Path) : Bool :=
  hasIndexedExtension path && !hasExcludedAncestor root path

end CodePointers
