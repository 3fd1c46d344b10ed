/-
# The programs

    prog jet [OPTIONS]      answers one request per line
    prog miner [OPTIONS]    serves one node

The node of the miner is at the other end of the standard streams: its frames come in on the
input, the replies go out on the output, and the log goes to the error stream.
-/

import ProofMiner.Miner.Session

namespace ProofMiner

/-- The rest of a stream. -/
partial def readAll (input : IO.FS.Stream) (seen : ByteArray) : IO ByteArray := do
  let portion ← input.read 65536
  if portion.isEmpty then return seen else readAll input (seen ++ portion)

/-- Prints what a run leaves behind. -/
def Output.print (out : Output) : IO UInt32 := do
  out.stdout.forM IO.println
  out.stderr.forM IO.eprintln
  return UInt32.ofNat out.exit

/-- Runs accelerated operations on the standard streams. -/
def runJet (args : List String) : IO UInt32 := do
  let input ← readAll (← IO.getStdin) .empty
  match Jet.CommandLine.run "jet" args (String.ofList (Json.charsOfBytes input)) with
  | .ok out => out.print
  | .error e => throw (IO.userError e.message)

/-- The variables that are set. -/
def readEnvironment : IO Environment :=
  Settings.environmentVariables.filterMapM fun entry => do
    return (← IO.getEnv entry.1).map fun text => (entry.1, text)

/-- The content of a file that can be opened. -/
def readFile? (path : String) : IO (Option (List Char)) := do
  try
    return some (Json.charsOfBytes (← IO.FS.readBinFile path))
  catch _ =>
    return none

/-- What a miner with the given arguments depends on. -/
def readSurroundings (args : List String) : IO Miner.Surroundings := do
  let path := match Miner.parseArgs "miner" args {} with
    | .ok options => options.configPath
    | .error _ => ""
  let content ← readFile? path
  return {
    environment := ← readEnvironment
    file := fun p => if p = path then content else none }

/-- Prints the replies and the log lines that a session has added to an earlier one. -/
def printNews (before after : Miner.Session) : IO Unit := do
  (after.log.drop before.log.length).forM IO.eprintln
  let output ← IO.getStdout
  for frame in after.replies.drop before.replies.length do
    let (_, outlet) := (Wire.writeMinerFrame frame).run {}
    output.write ⟨outlet.written.toArray⟩
  output.flush

/-- Serves the node until it has nothing more to say. -/
partial def serve (input : IO.FS.Stream) (s : Miner.Session) : IO Miner.Session := do
  let portion ← input.read 65536
  if portion.isEmpty then return s
  let s' := s.receive portion.toList
  printNews s s'
  serve input s'

/-- Runs a miner on the standard streams. -/
def runMiner (args : List String) : IO UInt32 := do
  match Miner.launch args (← readSurroundings args) with
  | .error e => throw (IO.userError e.message)
  | .ok (.error out) => out.print
  | .ok (.ok launch) =>
    let s := Miner.Session.start launch
    s.log.forM IO.eprintln
    let s ← serve (← IO.getStdin) s.connect
    (s.disconnect.stop.drop s.log.length).forM IO.eprintln
    return 0

end ProofMiner

/-- The first argument names the program. -/
def main (args : List String) : IO UInt32 :=
  match args with
  | "jet" :: rest => ProofMiner.runJet rest
  | "miner" :: rest => ProofMiner.runMiner rest
  | _ => do
    IO.eprintln "usage: jet [OPTIONS] | miner [OPTIONS]"
    return 1
