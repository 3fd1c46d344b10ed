/-
# The miner from the command line

Reads the options, then the settings, then the address to wait on. A run ends at the first thing
that is wrong; otherwise it is ready to serve.
-/

import ProofMiner.Jet.CommandLine
import ProofMiner.Node.Server
import ProofMiner.Settings

namespace ProofMiner
namespace Miner

/-- Where the miner waits for a node. -/
inductive Address where
  | tcp (text : String)
  | unix (path : String)
  deriving DecidableEq, Repr, Inhabited

/-- The options of the program. -/
structure Options where
  address : Option Address := none
  configPath : String := ""
  payouts : List String := []
  noMine : Bool := false
  deriving DecidableEq, Repr, Inhabited

/-- The lines that open every run. -/
def banner : List String :=
  let rule := String.ofList (List.replicate 40 '=')
  [rule, "zkpow Miner", rule]

/-- What is printed for `--help`. -/
def usage (program : String) : List String := [
  s!"Usage: {program} [OPTIONS]",
  "",
  "Options:",
  "  --tcp HOST:PORT      Listen on TCP socket (e.g., 127.0.0.1:5555)",
  "  --unix PATH          Listen on Unix socket (e.g., /tmp/zkpow-miner.sock)",
  "  --config FILE        Load settings from a JSON file",
  "  --mining-key KEY     Payout keys as share,m:key1,key2 (repeatable)",
  "  --no-mine            Start with mining disabled",
  "  --help               Show this help message",
  "",
  "Environment Variables:",
  "  MINING_THREADS                Total thread budget",
  "  ZKPOW_QUEUE_CAPACITY          Candidate queue capacity",
  "  ZKPOW_MAX_RESTARTS            Restarts per worker (0 = unlimited)",
  "  ZKPOW_RESTART_BACKOFF_MS      Delay before restarting a failing worker",
  "  ZKPOW_RESTART_BACKOFF_MAX_MS  Restart delay ceiling",
  "  ZKPOW_SCRATCH_DIR             Worker scratch root",
  "  ZKPOW_PRECOMPUTE_DOMAINS      Warm the domain cache at start-up (default 1)",
  "  ZKPOW_DEBUG                   Enable debug output"]

/-- A run that ends with an error. -/
def failed (stdout stderr : List String) : Output := { exit := 1, stdout, stderr }

/-- The miner ends if an option is the last argument and needs another one. -/
def missingArgument (option what : String) : Output :=
  failed banner [s!"Error: {option} requires {what} argument"]

/-- The options, or the run that ends at an argument: help, one that is not known, or one that
lacks its value. -/
def parseArgs (program : String) : List String → Options → Except Output Options
  | [], o => .ok o
  | arg :: rest, o =>
    if arg == "--help" || arg == "-h" then
      .error { exit := 0, stdout := banner, stderr := usage program }
    else if arg == "--tcp" then match rest with
      | text :: rest => parseArgs program rest { o with address := some (.tcp text) }
      | [] => .error (missingArgument arg "HOST:PORT")
    else if arg == "--unix" then match rest with
      | path :: rest => parseArgs program rest { o with address := some (.unix path) }
      | [] => .error (missingArgument arg "PATH")
    else if arg == "--config" then match rest with
      | path :: rest => parseArgs program rest { o with configPath := path }
      | [] => .error (missingArgument arg "FILE")
    else if arg == "--mining-key" then match rest with
      | key :: rest => parseArgs program rest { o with payouts := o.payouts ++ [key] }
      | [] => .error (missingArgument arg "KEY")
    else if arg == "--no-mine" then parseArgs program rest { o with noMine := true }
    else .error (failed banner (s!"Error: Unknown option: {arg}" :: usage program))

/-- What a run depends on besides its arguments. -/
structure Surroundings where
  program : String := "miner"
  environment : Environment := []
  /-- The content of a file that can be opened. -/
  file : String → Option (List Char) := fun _ => none
  machineThreads : Int32 := 0

/-- The settings that the options ask for. -/
def Options.settings (o : Options) (around : Surroundings) : Except Settings.Fault Settings := do
  let s ← if o.configPath.isEmpty then
      Settings.ofEnvironment around.environment around.machineThreads
    else
      Settings.ofFile o.configPath (around.file o.configPath) around.environment
        around.machineThreads
  let s ← if o.payouts.isEmpty then pure s
    else Settings.build s (Settings.setPayouts (return o.payouts))
  return if o.noMine then { s with mine := false } else s

/-- A miner that is ready to wait for its node. -/
structure Launch where
  settings : Settings
  address : Address
  registry : Jet.Registry
  /-- What was printed so far. -/
  log : List String

/-- The host and the port of an address, or the lines that say what is wrong. -/
def hostAndPort (text : String) : Except (List String) (String × Nat) :=
  let cs := text.toList
  if !cs.contains ':' then .error ["Error: Invalid TCP address, expected HOST:PORT"]
  else
    let host := cs.takeWhile (· ≠ ':')
    let port := (Decimal.leadingInt32 (cs.drop (host.length + 1))).toInt
    if port ≤ 0 ∨ 65535 < port then .error [s!"Error: Invalid TCP port in {text}"]
    else .ok (String.ofList host, port.toNat)

/-- Nothing if an address can be waited on, or the lines that say what is wrong. -/
def checkAddress (address : Address) : Except (List String) Unit :=
  match address with
  | .unix _ => .ok ()
  | .tcp text => do
    let (host, _) ← hostAndPort text
    if isAddress host.toList then return
    else throw [Server.invalidAddressLine host, "Failed to start server"]

/-- Brings a run to the point where it waits for its node. A number in the configuration file that
is too large for a double ends it without a message. -/
def launch (args : List String) (around : Surroundings) :
    Except Json.Fault (Except Output Launch) :=
  match parseArgs around.program args {} with
  | .error out => .ok (.error out)
  | .ok options =>
    match options.settings around with
    | .error .fileNumber => .error .numberTooLarge
    | .error e => .ok (.error (failed banner [s!"Error: {e.message}"]))
    | .ok settings =>
      let standard := "127.0.0.1:5555"
      let address := options.address.getD (.tcp standard)
      let choice := if options.address.isSome then []
        else [s!"No mode specified, using default: --tcp {standard}"]
      let range := Jet.CommandLine.warmUpRange
      let (warmUp, registry) :=
        if settings.precompute then
          (({} : Jet.Registry).warmedUp range.1 range.2).toOption.getD ([], {})
        else ([], {})
      let log := banner ++ choice ++ [s!"Config: {settings.summary}", ""] ++ warmUp
      match checkAddress address with
      | .error lines => .ok (.error (failed log lines))
      | .ok () => .ok (.ok { settings, address, registry, log })

end Miner
end ProofMiner
