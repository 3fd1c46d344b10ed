/-
# Accelerated operations from the command line

Reads one request per line and writes one result per line, with the statistics after them if they
are asked for.
-/

import ProofMiner.Jet.Codec

namespace ProofMiner

/-- What a program run leaves behind. -/
structure Output where
  exit : Nat
  stdout : List String := []
  stderr : List String := []
  deriving DecidableEq, Repr, Inhabited

/-- The lines of a text; a line break at the end opens no further line. -/
def linesOf (text : String) : List String :=
  let lines := text.splitOn "\n"
  match lines.reverse with
  | "" :: rest => rest.reverse
  | _ => lines

namespace Jet
namespace CommandLine

/-- The options of the program. -/
structure Options where
  precompute : Bool := false
  lookupOnly : Bool := false
  sequential : Bool := false
  stats : Bool := false
  deriving DecidableEq, Repr, Inhabited

/-- What is printed for `--help`. -/
def usage (program : String) : List String := [
  s!"Usage: {program} [OPTIONS] < requests.jsonl",
  "",
  "Options:",
  "  --precompute       Warm the domain cache (2^5..2^12, offset 1) first",
  "  --lookup-only      Never insert into the domain cache on a miss",
  "  --sequential       Force the sequential transform paths",
  "  --stats            Print cache and call statistics after the results",
  "  --help             Show this help message"]

/-- The options, or the run that ends at an argument: help, or one that is not known. -/
def parseArgs (program : String) : List String → Options → Except Output Options
  | [], o => .ok o
  | arg :: rest, o =>
    if arg == "--help" || arg == "-h" then .error { exit := 0, stderr := usage program }
    else if arg == "--precompute" then parseArgs program rest { o with precompute := true }
    else if arg == "--lookup-only" then parseArgs program rest { o with lookupOnly := true }
    else if arg == "--sequential" then parseArgs program rest { o with sequential := true }
    else if arg == "--stats" then parseArgs program rest { o with stats := true }
    else .error {
      exit := 1, stderr := s!"Error: Unknown option: {arg}" :: usage program }

/-- The registry that the options ask for. -/
def Options.registry (o : Options) : Registry where
  tuning := if o.sequential then .sequential else {}
  mode := if o.lookupOnly then .lookupOnly else .populate

/-- Answers the lines that are not empty, in order: the answers, the number of failures and the
registry after them. -/
def answer : List String → List String → Nat → Registry →
    Except Json.Fault (List String × Nat × Registry)
  | [], out, failures, r => .ok (out.reverse, failures, r)
  | line :: rest, out, failures, r =>
    if line.isEmpty then answer rest out failures r
    else match r.request line with
      | (.error e, _) => .error e
      | (.ok result, r) =>
        answer rest (result.toJson.render :: out) (if result.isOk then failures else failures + 1) r

/-- The sizes that a warm-up prepares, as binary logarithms. -/
def warmUpRange : Nat × Nat := (5, 12)

/-- A run of the program on the given input. A request with a number too large for a double ends
it without an answer. -/
def run (program : String) (args : List String) (input : String) : Except Json.Fault Output :=
  match parseArgs program args {} with
  | .error out => .ok out
  | .ok o =>
    let registry := o.registry
    let (warmUp, registry) :=
      if o.precompute then
        (registry.warmedUp warmUpRange.1 warmUpRange.2).toOption.getD ([], registry)
      else ([], registry)
    match answer (linesOf input) [] 0 registry with
    | .error e => .error e
    | .ok (answers, failures, registry) =>
      let stats := if o.stats then registry.statsLines else []
      .ok { exit := if failures = 0 then 0 else 2, stdout := warmUp ++ answers ++ stats }

end CommandLine
end Jet
end ProofMiner
