import CodePointers.Command.Arguments
import CodePointers.Command.Report

/-!
The commands `scan`, `refs`, `watch` and `format`: what each prints, and with which exit code.
-/

namespace CodePointers

structure CommandResult where
  code : Nat
  stdout : String
  stderr : String

inductive CommandRun where
  | printed (text : String)
  | scanned (report : ScanReport)
  | failed (message : String)
  | watching (root : Path)

def CommandRun.result (duration : String) : CommandRun → CommandResult
  | printed text => { code := 0, stdout := text, stderr := "" }
  | scanned report => { code := 0, stdout := report.text duration, stderr := "" }
  | failed message => { code := 1, stdout := "", stderr := joinLines [s!"Error: {message}"] }
  | watching _ => { code := 0, stdout := "", stderr := "" }

namespace Command

def version : String := "0.1.0"

def usage : String := joinLines [
  s!"coderef {version}, a cross-reference index for code pointers.",
  "",
  "Usage: coderef <COMMAND> [ARGS]",
  "",
  "Commands:",
  "",
  "scan <root> [--json] [--sequential]    Index a workspace and list every referenced range",
  "refs <root> <file> <line> [--json]     List pointers whose range covers <file>:<line>",
  "watch <root>                           Index a workspace and follow filesystem changes",
  "format <module> <path> <start> [end]   Print the canonical pointer text",
  "",
  "Options:",
  "",
  "--version                    Print the version",
  "--help                       Print this help message",
  "",
  "Logging is controlled by RUST_LOG (e.g. RUST_LOG=coderef=debug).",
  ""]

def usageFailure (command : String) (error : UsageError) : CommandRun :=
  .failed s!"{command}: {error.message}"

/-- A path that a user gave, seen from the working directory; the empty path denotes nothing. -/
def isFolderFrom (disk : Disk) (directory : Path) (path : Text) : Bool :=
  !(Path.ofText path).isEmpty && disk.isFolder (directory.join (.ofText path))

def scan (disk : Disk) (directory : Path) (arguments : List Text) : CommandRun :=
  match ScanArguments.parse (isFolderFrom disk directory) arguments with
  | .error error => usageFailure "scan" error
  | .ok parsed =>
      let settings := { Settings.default with parallelScan := !parsed.sequential }
      let report := ScanReport.ofDisk disk (directory.join (.ofText parsed.root)) settings
      if parsed.json then .printed (joinLines [report.json.pretty]) else .scanned report

def refs (disk : Disk) (directory : Path) (arguments : List Text) : CommandRun :=
  match RefsArguments.parse arguments with
  | .error error => usageFailure "refs" error
  | .ok parsed =>
      if isFolderFrom disk directory parsed.root then
        let report := RefsReport.ofDisk disk (directory.join (.ofText parsed.root))
          (.ofText parsed.file) parsed.line .default
        .printed (if parsed.json then joinLines [report.json.pretty] else report.text)
      else .failed (UsageError.notFolder parsed.root).message

def watch (disk : Disk) (directory : Path) (arguments : List Text) : CommandRun :=
  match watchRoot (isFolderFrom disk directory) arguments with
  | .error error => usageFailure "watch" error
  | .ok root => .watching (directory.join (.ofText root))

def format (arguments : List Text) : CommandRun :=
  match FormatArguments.parse arguments with
  | .error error => usageFailure "format" error
  | .ok parsed => .printed (joinLines [String.ofList parsed.text])

def run (disk : Disk) (directory : Path) (arguments : List Text) : CommandRun :=
  match arguments with
  | [] => .printed usage
  | command :: rest =>
      match String.ofList command with
      | "--version" => .printed (joinLines [s!"coderef {version}"])
      | "--help" | "help" => .printed usage
      | "scan" => scan disk directory rest
      | "refs" => refs disk directory rest
      | "watch" => watch disk directory rest
      | "format" => format rest
      | other => .failed s!"Unknown command: '{other}'"

end Command

end CodePointers
