/-!
Arguments of a command line, held to a grammar.

A `Grammar` lists the parameters of a command and says how many words may stand beside them.
`Grammar.scan` goes through the arguments from left to right and stops at the first one that the
grammar does not allow.  A parameter may be given once.  Its value stands in the same argument,
after an equals sign or right behind a short name, or it is the next argument, which then must not
look like a parameter.  After `--` all arguments are words.
-/

namespace EmojiCatalog.CommandLine

/-! ### Grammars -/

/-- What may be the value of a parameter. -/
inductive Kind where
  /-- No value: the parameter is there or not. -/
  | flag
  | text
  /-- A whole number of 64 bits. -/
  | number
  deriving DecidableEq, Repr

/-- A parameter of a command. -/
structure Parameter where
  long : String
  short : Option Char := none
  kind : Kind
  deriving DecidableEq, Repr

/-- What a command takes. -/
structure Grammar where
  parameters : List Parameter
  /-- The greatest number of words. -/
  words : Nat
  deriving DecidableEq, Repr

/-- Why arguments are not carried out. -/
inductive Refusal where
  /-- They break the grammar. -/
  | usage
  /-- They ask for help. -/
  | help
  deriving DecidableEq, Repr

/-- Arguments that were read: values by the long names of parameters, and words. -/
structure Scanned where
  values : List (String × String) := []
  words : List String := []
  deriving DecidableEq, Repr

/-! ### Values -/

/-- The whole number that a value stands for: digits, after a plus sign or without one, and less
than the sixty-fourth power of two. -/
def number? (s : String) : Option Nat :=
  let digits := match s.toList with
    | '+' :: rest => rest
    | cs => cs
  let n := digits.foldl (fun n c => n * 10 + (c.toNat - '0'.toNat)) 0
  if !digits.isEmpty && digits.all Char.isDigit && n < UInt64.size then some n else none

/-- Whether a parameter of some kind can have a value. -/
def Kind.allows : Kind → String → Bool
  | flag, _ | text, _ => true
  | number, s => (number? s).isSome

namespace Scanned

/-- The value of a parameter. -/
def value? (s : Scanned) (name : String) : Option String := s.values.lookup name

/-- The number that a parameter was given. -/
def number? (s : Scanned) (name : String) : Option Nat :=
  (s.value? name).bind CommandLine.number?

/-- Adds a parameter with its value, which for a flag is empty. -/
def addValue (s : Scanned) (p : Parameter) (value : String) : Except Refusal Scanned :=
  if (s.value? p.long).isSome || !p.kind.allows value then .error .usage
  else .ok { s with values := s.values ++ [(p.long, value)] }

/-- Adds a word, of which the grammar allows so many. -/
def addWord (s : Scanned) (limit : Nat) (word : String) : Except Refusal Scanned :=
  if s.words.length < limit then .ok { s with words := s.words ++ [word] } else .error .usage

end Scanned

/-! ### Scanning -/

/-- What an argument by itself amounts to. -/
inductive Reading where
  | done (s : Scanned)
  /-- The value of a parameter is still to come. -/
  | awaiting (p : Parameter)

namespace Grammar

/-- The parts of a long name and of what follows its equals sign, if there is one. -/
def splitAtEquals (cs : List Char) : List Char × Option (List Char) :=
  match cs.dropWhile (· ≠ '=') with
  | [] => (cs, none)
  | _ :: value => (cs.takeWhile (· ≠ '='), some value)

/-- Reads an argument with a long name, which stands here without its hyphens. -/
def readLong (g : Grammar) (s : Scanned) (cs : List Char) : Except Refusal Reading :=
  let (name, value) := splitAtEquals cs
  if name = ['h', 'e', 'l', 'p'] then .error (if value.isSome then .usage else .help)
  else
    match g.parameters.find? (·.long.toList = name) with
    | none => .error .usage
    | some p =>
      match p.kind, value with
      | .flag, none => (s.addValue p "").map .done
      | .flag, some _ => .error .usage
      | _, some value => (s.addValue p (String.ofList value)).map .done
      | _, none => .ok (.awaiting p)

/-- Reads an argument with short names, which stands here without its hyphen. -/
def readShort (g : Grammar) (s : Scanned) : List Char → Except Refusal Reading
  | [] => .ok (.done s)
  | c :: rest =>
    if c = 'h' then .error .help
    else
      match g.parameters.find? (·.short = some c) with
      | none => .error .usage
      | some p =>
        match p.kind, rest with
        | .flag, _ =>
          match s.addValue p "" with
          | .ok s => g.readShort s rest
          | .error r => .error r
        | _, [] => .ok (.awaiting p)
        | _, '=' :: value => (s.addValue p (String.ofList value)).map .done
        | _, value => (s.addValue p (String.ofList value)).map .done

/-- Whether an argument looks like a parameter and not like a value. -/
def looksLikeParameter (arg : String) : Bool :=
  match arg.toList with
  | '-' :: _ :: _ => true
  | _ => false

/-- Reads one argument before any `--`. -/
def read (g : Grammar) (s : Scanned) (arg : String) : Except Refusal Reading :=
  match arg.toList with
  | '-' :: '-' :: name => g.readLong s name
  | '-' :: c :: rest => g.readShort s (c :: rest)
  | _ => (s.addWord g.words arg).map .done

/-- Reads arguments of which all are words. -/
def scanWords (g : Grammar) (s : Scanned) (args : List String) : Except Refusal Scanned :=
  args.foldlM (fun s arg => s.addWord g.words arg) s

/-- Reads arguments one after the other. -/
def scanFrom (g : Grammar) : Scanned → List String → Except Refusal Scanned
  | s, [] => .ok s
  | s, arg :: rest =>
    if arg = "--" then g.scanWords s rest
    else
      match g.read s arg with
      | .error r => .error r
      | .ok (.done s) => g.scanFrom s rest
      | .ok (.awaiting p) =>
        match rest with
        | [] => .error .usage
        | value :: rest =>
          if looksLikeParameter value then .error .usage
          else
            match s.addValue p value with
            | .ok s => g.scanFrom s rest
            | .error r => .error r

/-- Reads all arguments. -/
def scan (g : Grammar) (args : List String) : Except Refusal Scanned := g.scanFrom {} args

end Grammar

end EmojiCatalog.CommandLine
