import EmojiCatalog.TestCase.Execution
/-!
Test cases that follow a script.

A full case writes down in its details which phases it went through, whether its token was cancelled
at the start of the run and at teardown, and whether the run came to its end.  A plain case has a
name and the fault of its run, and nothing else.
-/

namespace EmojiCatalog

/-- What a case does in its phases. -/
structure Script where
  name : String
  setup : Option CaseFault := none
  run : Option CaseFault := none
  teardown : Option CaseFault := none
  /-- How long the run sleeps, if it does. -/
  sleep : Option Duration := none
  cancelsRoot : Bool := false
  cancelsOwn : Bool := false
  /-- Whether the run waits for its token. -/
  hangs : Bool := false
  deriving DecidableEq, Repr

/-- A case that follows a script. -/
inductive Scripted where
  | full (script : Script) (details : Details)
  | plain (name : String) (fault : Option CaseFault)

namespace Scripted

/-- Writes down that a phase was entered. -/
def enter (phase : String) (d : Details) : Details :=
  d.alter "phases" fun
    | some (.array phases) => .array (phases ++ [.text phase])
    | _ => .array [.text phase]

/-- Writes down whether something is so. -/
def write (name : String) (b : Bool) (d : Details) : Details := d.insert name (.flag b)

/-- The run of a script, of which some details are written down already. -/
def runScript (s : Script) (d : Details) : Activity Scripted :=
  .look .own fun cancelled =>
    let entered := enter "run" (write "cancelled_at_start" cancelled d)
    let finished := write "finished" true entered
    .keep (.full s entered) <|
    .sleepFor s.sleep <|
    .onlyIf s.cancelsRoot (.cancel .root) <|
    .onlyIf s.cancelsOwn (.cancel .own) <|
    .onlyIf s.hangs (.await .own) <|
    .finish (.full s finished) s.run

instance : TestCase Scripted where
  name
    | full s _ => s.name
    | plain name _ => name
  setup
    | _, full s d => { state := .full s (enter "setup" d), fault := s.setup }
    | _, plain name f => .setup name (.plain name f)
  run
    | full s d => runScript s d
    | plain name f => .finish (.plain name f) f
  teardown
    | _, cancelled, full s d =>
      { state := .full s (enter "teardown" (write "cancelled_at_teardown" cancelled d))
        fault := s.teardown }
    | _, _, plain name f => .teardown name (.plain name f)
  details
    | _, full _ d => d
    | _, plain _ _ => .empty

end Scripted

end EmojiCatalog
