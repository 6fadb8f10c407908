import TemplateCompiler.CommandLine.Run

/-!
# The command

The command runs on a snapshot of the files that it can need: the configuration, the templates, and
round by round what the templates read so far may include. `CommandLine.run` says what it does with
them.
-/

namespace TemplateCompiler.Main

/-! ## Snapshots -/

/-- What lies at a path. -/
def look (path : Path) : IO (Option Entry) := do
  match ← (IO.FS.readBinFile path.toString).toBaseIO with
  | .ok bytes => return some (.file bytes.toList)
  | .error (.inappropriateType ..) => return some .directory
  | .error _ => return none

/-- Adds what lies along the components of a path, seen from a directory. -/
def observeFrom (fs : FileSystem) (directory : Path) : List String → IO FileSystem
  | [] => return fs
  | part :: rest => do
    let path := directory.join ⟨.relative, [part]⟩
    match ← look path with
    | none => return fs
    | some (.file bytes) => return fs.put path (.file bytes)
    | some .directory => observeFrom (fs.put path .directory) path rest

def observe (fs : FileSystem) (paths : List Path) : IO FileSystem :=
  paths.foldlM (fun fs path => observeFrom fs ⟨path.root, []⟩ path.parts) fs

/-- Adds files and what they include, as many includes deep as there are rounds. -/
def observeIncludes (c : Compiler) : Nat → FileSystem → List Path → IO FileSystem
  | 0, fs, _ => return fs
  | rounds + 1, fs, paths => do
    let fs ← observe fs paths
    let next := (paths.flatMap (c.includeCandidates fs)).eraseDups
    if next.isEmpty then return fs else observeIncludes c rounds fs next

/-- The files that a run with these words can need. -/
def snapshot (words : List String) : IO FileSystem := do
  let here := Path.ofString (toString (← IO.currentDir))
  let fs := FileSystem.empty here.parts
  match CommandLine.Arguments.read words with
  | .error _ => return fs
  | .ok a =>
    let fs ← observe fs (Config.place a.configPath? a.root :: a.paths)
    match a.compiler fs with
    | .error _ => return fs
    | .ok c => observeIncludes c c.includeFuel fs a.paths

end TemplateCompiler.Main

open TemplateCompiler in
def main (words : List String) : IO UInt32 := do
  match CommandLine.run (← Main.snapshot words) words with
  | .ok outcome =>
    IO.print outcome.output
    IO.eprint outcome.messages
    return outcome.exitCode.toUInt32
  | .error stop =>
    IO.eprintln s!"error: {stop.message}"
    return 1
