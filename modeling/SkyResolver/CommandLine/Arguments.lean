import SkyResolver.CommandLine.Scan
import SkyResolver.Service.Request

/-! The command line of the program: a few options and one command. -/
namespace SkyResolver.CommandLine

inductive Command where
  | query (words : List String)
  | objects (source : Option String) (names : List String)
  | identifiers (source : Option String) (ids : List String)
  | position (words : List String)
  | classic (request : PublicationRequest)
  deriving DecidableEq, Repr

structure Arguments where
  debug : Bool
  check : Bool
  logFile : Option String
  configFile : Option String
  command : Option Command
  deriving DecidableEq, Repr

/-- The request that a command stands for. -/
def Command.request : Command → ServiceRequest
  | .query words => .expand (" ".intercalate words)
  | .objects source names => .lookUp ⟨source, some names, none, none⟩
  | .identifiers source ids => .lookUp ⟨source, none, some ids, none⟩
  | .position words => .position (" ".intercalate words)
  | .classic request => .publications request

/-- The commands; the last one shows help on the others. -/
def commandNames : List String := ["query", "objects", "identifiers", "position", "classic", "help"]

/-- The level in front of the command. -/
def topLevel : Level where
  options := [("debug", .flag), ("check", .flag), ("log-file", .text), ("config-file", .text)]
  commands := commandNames
  takesWords := false

def commandLevel (name : String) : Level where
  options :=
    if name == "objects" || name == "identifiers" then [("source", .text)]
    else if name == "classic" then
      [("start-year", .year), ("end-year", .year), ("journal", .texts), ("refereed-status", .text)]
    else []
  commands := []
  takesWords := true

def nonempty? {α : Type} : List α → Option (List α)
  | [] => none
  | l => some l

/-- The command that was read behind its name. -/
def Command.ofScan (name : String) (s : Scan) : Command :=
  let value (option : String) : Option String := s.given.lookup option
  if name == "objects" then .objects (value "source") s.words
  else if name == "identifiers" then .identifiers (value "source") s.words
  else if name == "position" then .position s.words
  else if name == "classic" then
    .classic {
      objects := s.words
      startYear := (value "start-year").bind yearIn?
      endYear := (value "end-year").bind yearIn?
      journals := nonempty? (s.given.filterMap fun (option, v) =>
        if option == "journal" then some v else none)
      refereedStatus := value "refereed-status" }
  else .query s.words

/-- What is wrong with a request for help; nothing is if it names at most one command. -/
def helpError : List String → ArgumentError
  | [] => .displayHelp
  | [name] => if commandNames.contains name then .displayHelp else .invalidSubcommand
  | _ => .invalidSubcommand

def Arguments.ofScan (s : Scan) (command : Option Command) : Arguments where
  debug := (s.given.lookup "debug").isSome
  check := (s.given.lookup "check").isSome
  logFile := s.given.lookup "log-file"
  configFile := s.given.lookup "config-file"
  command

/-- The command line that words stand for. -/
def Arguments.parse (words : List String) : Except ArgumentError Arguments := do
  match ← scan topLevel {} words with
  | (s, none) => .ok (.ofScan s none)
  | (s, some (name, rest)) =>
    if name == "help" then .error (helpError rest)
    else do
      let (inner, _) ← scan (commandLevel name) {} rest
      .ok (.ofScan (← s.settle) (some (.ofScan name inner)))

end SkyResolver.CommandLine
