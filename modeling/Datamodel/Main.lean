import Datamodel.CommandLine.Run

/-! The program.

It takes a picture of the places that a command may touch, runs the command on the picture, prints
the report, and carries the changes over to the disk. -/

namespace Datamodel

/-- Where steps lead from a location, if all of them can be taken. -/
def Location.after (loc : Location) (steps : List Path.Step) : Location :=
  steps.foldl Location.follow loc

/-- The name of a location for the system. -/
def Location.toText (loc : Location) : String := "/" ++ "/".intercalate loc

/-- The steps of a pattern up to its first wildcard. All files that fit it are below that place. -/
def literalSteps (pattern : String) : List Path.Step :=
  (Path.steps ⟨pattern⟩).takeWhile fun
    | .down name => !hasWildcard name
    | _ => true

namespace Invocation

/-- The places where a command looks first. -/
def firstPlaces (i : Invocation) (here : Location) : List Location :=
  let place (p : Path) : Location := here.after (i.cwd.join p).steps
  match i.command, i.config with
  | .mix .., some config => [place config]
  | .mix .., none => MixerFile.defaultNames.map fun name => place ⟨name⟩
  | .scan dir, _ => [place dir]
  | .inspect files _, _ => files.map place

/-- The places that the chosen mixers read and write. -/
def mixerPlaces (i : Invocation) (here : Location) (t : FileTree) : List Location :=
  match i.command with
  | .mix labels _ =>
    match configPath t i.config i.cwd with
    | .error _ => []
    | .ok path =>
      match selectedMixers t path labels with
      | .error _ => []
      | .ok mixers =>
        let root := here.after i.cwd.steps
        mixers.flatMap fun m =>
          (m.output :: m.input).map fun pattern => root.after (literalSteps pattern)
  | _ => []

end Invocation

/-! ### The disk -/

/-- What is at a location of the disk. -/
def entryAt (loc : Location) : IO (Option Entry) := do
  let name := loc.toText
  let path := (← IO.currentDir) / name
  if ← path.isDir then return some .folder
  if ← path.pathExists then return some (.file (.ofBytes (← IO.FS.readBinFile path)))
  return none

/-- What is at a location of the disk and below it. -/
partial def entriesBelow (loc : Location) : IO (List (Location × Entry)) := do
  match ← entryAt loc with
  | none => return []
  | some (.file content) => return [(loc, .file content)]
  | some .folder =>
    let found ← ((← IO.currentDir) / loc.toText).readDir
    let inside ← found.toList.mapM fun entry => entriesBelow (loc ++ [entry.fileName])
    return (loc, .folder) :: inside.flatten

/-- A location and all that are on the way to it. -/
def onTheWay (loc : Location) : List Location := (List.range (loc.length + 1)).map loc.take

/-- The places that are below no other one. -/
def outermost (places : List Location) : List Location :=
  let places := places.eraseDups
  places.filter fun p => !places.any fun q => q != p && q.isPrefixOf p

/-- A picture of some places, with the folders on the way to them. -/
def picture (here : Location) (places : List Location) : IO FileTree := do
  let places := outermost places
  let ways := ((here :: places).flatMap onTheWay).eraseDups.filter fun way =>
    !way.isEmpty && !places.any (·.isPrefixOf way)
  let way ← ways.filterMapM fun loc => return (← entryAt loc).map (loc, ·)
  let below ← places.mapM entriesBelow
  return { entries := way ++ below.flatten.filter (!·.1.isEmpty), start := here }

/-- Makes what is new in a tree. Nothing is ever taken away. -/
def carryOver (old new : FileTree) : IO Unit := do
  for (loc, e) in new.entries do
    if old.lookup? loc != some e then
      match e with
      | .folder => IO.FS.createDir loc.toText
      | .file content => IO.FS.writeFile loc.toText content.toText

/-- The picture that a command needs. -/
def Invocation.picture (i : Invocation) (here : Location) : IO FileTree := do
  let root := here.after i.cwd.steps
  let first ← Datamodel.picture here (i.firstPlaces here)
  let more := i.mixerPlaces here first
  let t ← Datamodel.picture here (i.firstPlaces here ++ more)
  match ← entryAt root with
  | some e => return if root.isEmpty || (t.lookup? root).isSome then t else t.put root e
  | none => return t

/-- Runs the command that the arguments name. -/
def runProgram (args : List String) : IO UInt32 := do
  let here := Location.after [] (Path.steps ⟨(← IO.currentDir).toString⟩)
  let t ← match Invocation.ofArguments args with
    | .ok i => i.picture here
    | .error _ => pure { start := here }
  let report := runArguments args t
  let err ← IO.getStderr
  for line in report.logs do err.putStrLn line
  IO.print report.stdout
  err.putStr report.stderr
  carryOver t report.tree
  return report.code.toUInt32

end Datamodel

def main (args : List String) : IO UInt32 := Datamodel.runProgram args
