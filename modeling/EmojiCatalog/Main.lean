import EmojiCatalog.CommandLine.Perform
import Std.Time.DateTime.Timestamp
/-!
The program: reads its arguments, the clock and the memory, carries out the command, and prints what
the command says.

The work is done twice, once to see how long it takes and once to report that time.
-/

namespace EmojiCatalog.CommandLine

/-- The time of the clock. -/
def readClock : IO Instant := do
  let t ← Std.Time.Timestamp.now
  return .ofEpochNanos t.toNanosecondsSinceUnixEpoch.toInt.toNat

/-- The size of a page of memory. -/
def pageBytes : Nat := 4096

/-- The memory of the process, where the system tells it: the first two numbers of its memory status
are all pages and those in memory. -/
def readMemory : IO (Option MemoryUsage) := do
  try
    let status ← IO.FS.readFile "/proc/self/statm"
    match (status.splitOn " ").filterMap number? with
    | all :: resident :: _ => return some ⟨resident * pageBytes, all * pageBytes⟩
    | _ => return none
  catch _ => return none

/-- A random identifier of thirty-two digits in five groups. -/
def randomIdentifier : IO String := do
  let bytes ← IO.getRandomBytes 16
  let digits := bytes.toList.zipIdx.flatMap fun (b, i) =>
    let b := if i = 6 then b.toNat % 16 + 64 else if i = 8 then b.toNat % 64 + 128 else b.toNat
    let text := [Json.hexDigit (b / 16), Json.hexDigit (b % 16)]
    if i = 4 ∨ i = 6 ∨ i = 8 ∨ i = 10 then '-' :: text else text
  return String.ofList digits

/-- Carries out a command with readings of this moment. -/
def carryOut (command : Command) : IO Performance := do
  let now ← readClock
  let ids ← (List.range Catalog.builtin.size).mapM fun _ => randomIdentifier
  let ids := ids.toArray
  let readings : Readings :=
    { now := now, stamp := fun n => ⟨now, ids.getD n ""⟩, memory := ← readMemory }
  let start ← IO.monoNanosNow
  let _ ← IO.lazyPure fun _ => command.perform readings
  let stop ← IO.monoNanosNow
  IO.lazyPure fun _ => command.perform { readings with elapsed := ⟨stop - start⟩ }

end EmojiCatalog.CommandLine

open EmojiCatalog.CommandLine in
/-- Runs the program. -/
def main (args : List String) : IO UInt32 := do
  let out ← IO.getStdout
  let err ← IO.getStderr
  match Invocation.ofArguments args with
  | .error .help => out.putStr (unlines helpLines); return 0
  | .error .usage => err.putStr (unlines helpLines); return 2
  | .ok invocation =>
    let p ← carryOut invocation.command
    for e in p.logged invocation.logLevel do err.putStrLn e.line
    out.putStr p.output
    err.putStr p.notice
    match p.failure with
    | some f => err.putStrLn f.text
    | none => pure ()
    return p.exitCode.toUInt32
