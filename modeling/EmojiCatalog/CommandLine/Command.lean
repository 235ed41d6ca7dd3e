import EmojiCatalog.CommandLine.Arguments
import EmojiCatalog.Log
import EmojiCatalog.Text.Lowercase
/-!
The commands, and how they are read from arguments.

The name of a command stands before its own arguments.  The level of the log may be given before the
name and among the command's arguments, once in each place; the later one counts.
-/

namespace EmojiCatalog.CommandLine

/-- What is to be done. -/
inductive Command where
  /-- Execute the validation suite within so many seconds. -/
  | validate (timeoutSecs : Nat) (asJson : Bool)
  | search (text : String) (category subcategory : Option String) (limit : Nat)
  /-- Print the records of the catalog, and stop after so many. -/
  | stream (limit : Option Nat)
  /-- Stream the catalog and print the statistics. -/
  | stats
  /-- Run a pool of workers, each with so many queries. -/
  | bench (workers queries : Nat)
  deriving DecidableEq, Repr

/-- A command with the level up to which events are logged. -/
structure Invocation where
  command : Command
  logLevel : Log.Level
  deriving DecidableEq, Repr

/-! ### The level of the log -/

/-- The parameter for the level of the log. -/
def logLevelParameter : Parameter := ⟨"log-level", none, .text⟩

/-- The level of a name, in capital or small letters; of any other name it is the level of
information.  The log is never quieter than errors. -/
def levelOf (name : String) : Log.Level :=
  match Text.lowercase name with
  | "off" | "error" => .error
  | "warn" => .warn
  | "debug" => .debug
  | "trace" => .trace
  | _ => .info

/-! ### Grammars of the commands -/

/-- The grammar of a command, if there is one of that name. -/
def grammar? (name : String) : Option Grammar :=
  match name with
  | "validate" =>
    some ⟨[logLevelParameter, ⟨"timeout-secs", none, .number⟩, ⟨"json", none, .flag⟩], 0⟩
  | "search" =>
    some ⟨[logLevelParameter, ⟨"category", some 'c', .text⟩, ⟨"subcategory", some 's', .text⟩,
      ⟨"limit", some 'l', .number⟩], 1⟩
  | "stream" => some ⟨[logLevelParameter, ⟨"limit", some 'l', .number⟩], 0⟩
  | "stats" => some ⟨[logLevelParameter], 0⟩
  | "bench" =>
    some ⟨[logLevelParameter, ⟨"workers", some 'w', .number⟩, ⟨"queries", some 'q', .number⟩], 0⟩
  | _ => none

/-- The lines shown when help is asked for. -/
def helpLines : List String :=
  ["Search, stream, and validate the emoji catalog",
    "",
    "  validate [--timeout-secs N] [--json]",
    "  search QUERY [-c CATEGORY] [-s SUBCATEGORY] [-l LIMIT]",
    "  stream [-l LIMIT]",
    "  stats",
    "  bench [-w WORKERS] [-q QUERIES]",
    "",
    "Every command takes --log-level LEVEL (error, warn, info, debug, trace)."]

/-- The command of a name, made of its arguments. -/
def command? (name : String) (s : Scanned) : Option Command :=
  match name with
  | "validate" =>
    some (.validate ((s.number? "timeout-secs").getD 30) (s.value? "json").isSome)
  | "search" =>
    s.words.head?.map fun text =>
      .search text (s.value? "category") (s.value? "subcategory") ((s.number? "limit").getD 10)
  | "stream" => some (.stream (s.number? "limit"))
  | "stats" => some .stats
  | "bench" => some (.bench ((s.number? "workers").getD 5) ((s.number? "queries").getD 20))
  | _ => none

/-! ### Whole command lines -/

/-- What stands before the name of the command. -/
def outerGrammar : Grammar := ⟨[logLevelParameter], 0⟩

/-- Whether words ask for help on the commands in general, or on one of them. -/
def asksForHelp : List String → Bool
  | ["help"] => true
  | ["help", topic] => topic = "help" || (grammar? topic).isSome
  | _ => false

/-- Reads the arguments of a command, given what stood before its name. -/
def invocation (outer : Scanned) (name : String) (args : List String) :
    Except Refusal Invocation :=
  match grammar? name with
  | none => .error (if asksForHelp (name :: args) then .help else .usage)
  | some g =>
    match g.scan args with
    | .error r => .error r
    | .ok s =>
      match command? name s with
      | none => .error .usage
      | some command =>
        let level := s.value? logLevelParameter.long <|> outer.value? logLevelParameter.long
        .ok ⟨command, ((level.map levelOf).getD .info)⟩

/-- Reads what stands before the name of the command, and goes on with the command. -/
def invocationFrom : Scanned → List String → Except Refusal Invocation
  | _, [] => .error .usage
  | outer, arg :: rest =>
    if arg = "--" then .error .usage
    else if Grammar.looksLikeParameter arg then
      match outerGrammar.read outer arg with
      | .error r => .error r
      | .ok (.done outer) => invocationFrom outer rest
      | .ok (.awaiting p) =>
        match rest with
        | [] => .error .usage
        | value :: rest =>
          if Grammar.looksLikeParameter value then .error .usage
          else
            match outer.addValue p value with
            | .ok outer => invocationFrom outer rest
            | .error r => .error r
    else invocation outer arg rest

/-- Reads a whole command line. -/
def Invocation.ofArguments (args : List String) : Except Refusal Invocation :=
  invocationFrom {} args

end EmojiCatalog.CommandLine
