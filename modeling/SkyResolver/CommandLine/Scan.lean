import SkyResolver.Number.Power
import SkyResolver.Number.Read

/-! Reading the words of a command line. A level of it has options, and either commands, each with a
level of its own, or plain words. An option with a value takes the next word, or what stands behind
an equals sign. A value behind an equals sign is looked at on the spot. One in a word of its own is
looked at only when the next option starts, when a plain word follows, or when the words end; so a
mistake in a later word may be noticed first. -/
namespace SkyResolver.CommandLine
open SkyResolver.Number

inductive ArgumentError where
  | unknownArgument
  /-- An option without its value. -/
  | invalidValue
  | missingRequiredArgument
  /-- An option that stands twice, but may stand only once. -/
  | argumentConflict
  /-- A value that is not what the option takes. -/
  | valueValidation
  | invalidSubcommand
  /-- A value for an option that takes none. -/
  | tooManyValues
  /-- Not a mistake: help was asked for. -/
  | displayHelp
  deriving DecidableEq, Repr

inductive OptionKind where
  | flag
  | text
  | year
  /-- One text each time; the option may be repeated. -/
  | texts
  deriving DecidableEq, Repr

structure Level where
  options : List (String × OptionKind)
  commands : List String
  /-- True when the level takes plain words, of which there is at least one. -/
  takesWords : Bool

/-- An option that has been read but not looked at: its name, its kind and its value. -/
structure Pending where
  name : String
  kind : OptionKind
  value : Option String

structure Scan where
  /-- The options in order, with their values. -/
  given : List (String × String) := []
  words : List String := []
  pending : Option Pending := none
  /-- True behind a double dash, which ends the options. -/
  wordsOnly : Bool := false

def yearIn? (text : String) : Option Int := readInt? (lowestInt 32) (highestInt 32) text.toList

namespace Scan

def awaitsValue (s : Scan) : Bool :=
  match s.pending with
  | some p => p.value.isNone
  | none => false

/-- Puts an option among those given, if it may stand there. -/
def give (s : Scan) (name : String) (kind : OptionKind) (value : String) :
    Except ArgumentError Scan :=
  if kind != .texts && (s.given.lookup name).isSome then .error .argumentConflict
  else if kind == .year && (yearIn? value).isNone then .error .valueValidation
  else .ok { s with given := s.given ++ [(name, value)] }

/-- Looks at the option that was read last. -/
def settle (s : Scan) : Except ArgumentError Scan :=
  match s.pending with
  | none => .ok s
  | some p =>
    match p.value with
    | none => .error .invalidValue
    | some value => { s with pending := none }.give p.name p.kind value

/-- Reads an option with its dashes taken off; `value` is what stands behind an equals sign. -/
def option (level : Level) (s : Scan) (name : String) (value : Option String) :
    Except ArgumentError Scan :=
  match level.options.lookup name, value with
  | some .flag, none => do (← s.settle).give name .flag ""
  | some .flag, some _ => .error .tooManyValues
  | some kind, none => do .ok { ← s.settle with pending := some ⟨name, kind, none⟩ }
  | some kind, some value => do (← s.settle).give name kind value
  | none, none => do
    if name == "help" then
      let _ ← s.settle
      .error .displayHelp
    else .error .unknownArgument
  | none, some _ => .error (if name == "help" then .tooManyValues else .unknownArgument)

def word (level : Level) (s : Scan) (word : String) : Except ArgumentError Scan :=
  if level.takesWords then do
    let s ← s.settle
    .ok { s with words := s.words ++ [word] }
  else if s.wordsOnly && level.commands.contains word then .error .unknownArgument
  else .error .invalidSubcommand

def finish (level : Level) (s : Scan) : Except ArgumentError Scan := do
  let s ← s.settle
  if level.takesWords && s.words.isEmpty then .error .missingRequiredArgument else .ok s

end Scan

inductive Shape where
  /-- A double dash. -/
  | stop
  /-- Two dashes and a name, maybe with a value. -/
  | long (name : String) (value : Option String)
  /-- One dash and letters. -/
  | short (letters : List Char)
  | plain

def Shape.of (word : String) : Shape :=
  match word.toList with
  | ['-', '-'] => .stop
  | '-' :: '-' :: rest =>
    let name := rest.takeWhile (· != '=')
    match rest.dropWhile (· != '=') with
    | '=' :: value => .long (String.ofList name) (some (String.ofList value))
    | _ => .long (String.ofList name) none
  | '-' :: c :: rest => .short (c :: rest)
  | _ => .plain

/-- Reads the words of a level. The result is what was read, and, behind the name of a command, that
command and the words after it; the last option before it has not been looked at then. -/
def scan (level : Level) : Scan → List String →
    Except ArgumentError (Scan × Option (String × List String))
  | s, [] => do .ok (← s.finish level, none)
  | s, word :: words => do
    if s.wordsOnly then scan level (← s.word level word) words
    else if !s.awaitsValue && level.commands.contains word then .ok (s, some (word, words))
    else
      match Shape.of word with
      | .stop => scan level { s with wordsOnly := true } words
      | .long name value => scan level (← s.option level name value) words
      | .short letters =>
        if letters.head? == some 'h' then
          let _ ← s.settle
          .error .displayHelp
        else .error .unknownArgument
      | .plain =>
        match s.pending with
        | some ⟨name, kind, none⟩ =>
          scan level { s with pending := some ⟨name, kind, some word⟩ } words
        | _ => scan level (← s.word level word) words

end SkyResolver.CommandLine
