import SkyResolver.CommandLine.Arguments
import SkyResolver.Settings.Document
import SkyResolver.Settings.File
import SkyResolver.Settings.Flaw
import SkyResolver.Json.Writer
import SkyResolver.Service.Answer
import SkyResolver.Service.Setup

/-! The program: it reads its command line and its configuration, answers one request, and prints
the answer or the error. What it does to files goes through a `Host`. -/
namespace SkyResolver
open SkyResolver.CommandLine SkyResolver.Http

/-- The files of the machine that the program runs on. -/
structure Host (m : Type → Type) where
  pathExists : String → m Bool
  isFile : String → m Bool
  /-- The home directory of the user. -/
  home : m (Option String)
  /-- The bytes of a file, if it can be opened. -/
  read : String → m (Option ByteArray)
  /-- Creates a file unless it is there, and tells if it can be written. -/
  openLog : String → m Bool

inductive Failure where
  | arguments (error : ArgumentError)
  | noConfigFile (path : String)
  | configFile (path : String) (fault : SettingsFileFault)
  | logFile (path : String)
  | settings (flaw : SettingsFlaw)
  | unwritableConfig
  | noCommand
  | request (error : ServiceError)

def Failure.message : Failure → String
  | .arguments _ => "the command line is wrong"
  | .noConfigFile path =>
    "The configuration file specified on the command line (" ++ path ++ ") was not found"
  | .configFile path fault => fault.message path
  | .logFile path => "opening log_file: " ++ path
  | .settings flaw => flaw.message
  | .unwritableConfig => "serializing the configuration"
  | .noCommand => "No command given; use one of: query, objects, identifiers, position, classic"
  | .request error => error.message

/-- What the program has done at its end. -/
structure Report where
  /-- What it has printed. -/
  output : String
  failure : Option Failure

/-- The status with which the program ends. -/
def Report.exitCode (report : Report) : Nat :=
  match report.failure with
  | none => 0
  | some (.arguments .displayHelp) => 0
  | some (.arguments _) => 2
  | some _ => 1

def Report.silent (failure : Failure) : Report := ⟨"", some failure⟩

def printed (value : Json) : String := value.writeIndented ++ "\n"

def below (directory name : String) : String :=
  if directory.endsWith "/" then directory ++ name else directory ++ "/" ++ name

/-- The places where a configuration file is looked for, in order. -/
def configPlaces (home : Option String) : List String :=
  [settingsFileName] ++ (home.map fun directory => below directory settingsFileName).toList ++
    [below "/etc/" settingsFileName]

section
variable {m : Type → Type} [Monad m]

def Host.firstExisting (host : Host m) : List String → m (Option String)
  | [] => pure none
  | path :: paths => do
    if ← host.pathExists path then pure (some path) else host.firstExisting paths

/-- The configuration file to be used, if there is one; a given one must be there. -/
def Host.configPath (host : Host m) : Option String → m (Except Failure (Option String))
  | some path => do
    if ← host.isFile path then pure (.ok (some path)) else pure (.error (.noConfigFile path))
  | none => do return .ok (← host.firstExisting (configPlaces (← host.home)))

/-- The configuration to be used; without a file it is the default one. -/
def Host.settings (host : Host m) (given : Option String) : m (Except Failure Settings) := do
  match ← host.configPath given with
  | .error failure => pure (.error failure)
  | .ok none => pure (.ok {})
  | .ok (some path) => do
    match Settings.ofFile (← host.read path) with
    | .ok settings => pure (.ok settings)
    | .error fault => pure (.error (.configFile path fault))

def Host.setUpLog (host : Host m) : Option String → m (Except Failure Unit)
  | none => pure (.ok ())
  | some path => do
    if ← host.openLog path then pure (.ok ()) else pure (.error (.logFile path))

end

/-- A network to run requests on, and the time. -/
structure Surroundings (ν : Type) where
  network : Network ν
  state : ν
  clock : ν → Nat
  currentYear : Int

def answerOnce {ν : Type} (settings : Settings) (around : Surroundings ν)
    (request : ServiceRequest) :
    Report :=
  match Service.overNetwork settings around.network around.clock around.currentYear with
  | .error name => .silent (.settings (.unknownTarget name))
  | .ok service =>
    match ((service.answer request).run (.start settings (.start settings around.state))).1 with
    | .ok answer => ⟨printed answer.toJson, none⟩
    | .error error => ⟨printed error.payload, some (.request error)⟩

/-- What the program does once its configuration is known to be sound. -/
def perform {ν : Type} (settings : Settings) (around : Surroundings ν) (arguments : Arguments) :
    Report :=
  if arguments.check then
    match settings.text? with
    | some text => ⟨text ++ "\n", none⟩
    | none => .silent .unwritableConfig
  else
    match arguments.command with
    | none => .silent .noCommand
    | some command => answerOnce settings around command.request

def runProgram {m : Type → Type} [Monad m] {ν : Type} (host : Host m) (around : Surroundings ν)
    (words : List String) : m Report := do
  match Arguments.parse words with
  | .error error => pure (.silent (.arguments error))
  | .ok arguments =>
    match ← host.settings arguments.configFile with
    | .error failure => pure (.silent failure)
    | .ok settings =>
      match ← host.setUpLog (arguments.logFile.or settings.logFile) with
      | .error failure => pure (.silent failure)
      | .ok () =>
        match settings.check with
        | .error flaw => pure (.silent (.settings flaw))
        | .ok () => pure (perform settings around arguments)

end SkyResolver
