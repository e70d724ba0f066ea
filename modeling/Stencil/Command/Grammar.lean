import Stencil.Command.Arguments
import Stencil.Text.Search

/-!
# The grammar of command lines

Arguments are read from left to right, first those of the program and then those of its command.
The value of an option and a run of operands stay pending until the next option, or the end, and
only then are they checked.  After two dashes all arguments are operands.
-/

namespace Stencil.Command

/-- Where arguments are read: before the command, or after one of the commands. -/
inductive Level where
  | program
  | build
  | watch
  | render
deriving DecidableEq, Repr

/-- An option without a value. -/
inductive Switch where
  | verbose
  | noColor
  | help
  | version
deriving DecidableEq, Repr

/-- An option with a value. -/
inductive Slot where
  | root
  | out
  | format
deriving DecidableEq, Repr

/-- An option. -/
inductive Key where
  | switch (switch : Switch)
  | slot (slot : Slot)
deriving DecidableEq, Repr

namespace Level

/-- The level after the name of a command. -/
def ofWord? : String → Option Level
  | "build" => some build
  | "watch" => some watch
  | "render" => some render
  | _ => none

/-- Whether a level has an option. -/
def allows (level : Level) : Key → Bool
  | .switch .version => level = program
  | .slot .out => level = build || level = watch
  | .slot .format => level = build
  | _ => true

/-- The option with a letter. -/
def short? (level : Level) (letter : Char) : Option Key :=
  let key? : Option Key :=
    match letter with
    | 'v' => some (.switch .verbose)
    | 'h' => some (.switch .help)
    | 'V' => some (.switch .version)
    | 'r' => some (.slot .root)
    | 'o' => some (.slot .out)
    | _ => none
  key?.filter level.allows

/-- The option with a name. -/
def long? (level : Level) (name : String) : Option Key :=
  let key? : Option Key :=
    match name with
    | "verbose" => some (.switch .verbose)
    | "no-color" => some (.switch .noColor)
    | "help" => some (.switch .help)
    | "version" => some (.switch .version)
    | "root" => some (.slot .root)
    | "out" => some (.slot .out)
    | "format" => some (.slot .format)
    | _ => none
  key?.filter level.allows

end Level

/-- Whether a word is the name of a command, or asks for help. -/
def isCommandWord (word : String) : Bool :=
  word == "help" || (Level.ofWord? word).isSome

/-- What the arguments of a level give. -/
structure Given where
  root : Option Path := none
  out : Option Path := none
  format : Option Format := none
  verbose : Bool := false
  noColor : Bool := false
  operands : List Path := []
deriving DecidableEq, Repr

namespace Given

/-- A path, which must not be empty. -/
def path (text : String) : Except Stop Path :=
  if text = "" then .error .invalidValue else .ok ⟨text⟩

def format? : String → Except Stop Format
  | "text" => .ok .text
  | "json" => .ok .json
  | _ => .error .invalidValue

/-- Give an option its value, which no option has given before. -/
def fill (given : Given) (slot : Slot) (text : String) : Except Stop Given := do
  let taken :=
    match slot with
    | .root => given.root.isSome
    | .out => given.out.isSome
    | .format => given.format.isSome
  if taken then throw .repeatedArgument
  match slot with
  | .root => return { given with root := ← path text }
  | .out => return { given with out := ← path text }
  | .format => return { given with format := ← format? text }

/-- Turn on a switch that is off. -/
def turnOn (given : Given) : Switch → Except Stop Given
  | .help => .error .help
  | .version => .error .version
  | .verbose => if given.verbose then .error .repeatedArgument else .ok { given with verbose := true }
  | .noColor => if given.noColor then .error .repeatedArgument else .ok { given with noColor := true }

end Given

/-- What was read and is not checked yet. -/
inductive Pending where
  | nothing
  /-- An option whose value is the next argument. -/
  | awaited (slot : Slot)
  | value (slot : Slot) (text : String)
  | operands (texts : List String)
deriving DecidableEq, Repr

/-- How far the arguments of a level have been read. -/
structure Reading where
  given : Given := {}
  pending : Pending := .nothing
  /-- Whether two dashes were read. -/
  dashed : Bool := false
deriving DecidableEq, Repr

namespace Reading

/-- Check what is pending. -/
def settle (reading : Reading) : Except Stop Given :=
  match reading.pending with
  | .nothing => .ok reading.given
  | .awaited _ => .error .invalidValue
  | .value slot text => reading.given.fill slot text
  | .operands texts => do
      let paths ← texts.mapM Given.path
      return { reading.given with operands := reading.given.operands ++ paths }

/-- Read an option.  A value may be attached to it. -/
def option (reading : Reading) (key : Key) (attached : Option String) : Except Stop Reading :=
  match key, attached with
  | .switch _, some _ => .error .needlessValue
  | .switch switch, none => do
      return { reading with given := ← (← reading.settle).turnOn switch, pending := .nothing }
  | .slot slot, some text => do
      return { reading with given := ← (← reading.settle).fill slot text, pending := .nothing }
  | .slot slot, none => do
      return { reading with given := ← reading.settle, pending := .awaited slot }

/-- Read options with a letter each.  The last one may have a value attached, with or without an
equals sign. -/
def letters (level : Level) (reading : Reading) : List Char → Except Stop Reading
  | [] => .ok reading
  | letter :: rest =>
      match level.short? letter with
      | none => .error .unknownArgument
      | some (.switch switch) => do
          letters level (← reading.option (.switch switch) none) rest
      | some (.slot slot) =>
          let attached :=
            match rest with
            | [] => none
            | '=' :: value => some (String.ofList value)
            | value => some (String.ofList value)
          reading.option (.slot slot) attached

/-- Read the name of an option, with a value after an equals sign. -/
def longName (level : Level) (reading : Reading) (chars : List Char) : Except Stop Reading :=
  let name := String.ofList (chars.takeWhile (· != '='))
  let attached :=
    match chars.dropWhile (· != '=') with
    | [] => none
    | _ :: value => some (String.ofList value)
  match level.long? name with
  | none => .error .unknownArgument
  | some key => reading.option key attached

/-- Read an argument that is no option.  The program itself takes none, and `render` takes one. -/
def operand (level : Level) (reading : Reading) (text : String) : Except Stop Reading :=
  match level, reading.pending with
  | .program, _ =>
      if reading.dashed && isCommandWord text then .error .unknownArgument
      else .error .unknownCommand
  | .render, .operands _ => .error .unknownArgument
  | .render, _ =>
      if reading.given.operands.isEmpty then do
        return { reading with given := ← reading.settle, pending := .operands [text] }
      else .error .unknownArgument
  | _, .operands texts => .ok { reading with pending := .operands (texts ++ [text]) }
  | _, _ => do return { reading with given := ← reading.settle, pending := .operands [text] }

/-- Read one argument that is not the name of a command. -/
def argument (level : Level) (reading : Reading) (text : String) : Except Stop Reading :=
  if reading.dashed then reading.operand level text
  else
    match text.toList with
    | ['-', '-'] => .ok { reading with dashed := true }
    | '-' :: '-' :: name => reading.longName level name
    | '-' :: letter :: rest => reading.letters level (letter :: rest)
    | _ =>
        match reading.pending with
        | .awaited slot => .ok { reading with pending := .value slot text }
        | _ => reading.operand level text

/-- Whether the name of a command may be the next argument. -/
def expectsCommand (reading : Reading) : Bool :=
  !reading.dashed &&
    match reading.pending with
    | .awaited _ => false
    | _ => true

/-- Read the arguments after a command. -/
def arguments (level : Level) (reading : Reading) : List String → Except Stop Reading
  | [] => .ok reading
  | text :: rest => do arguments level (← reading.argument level text) rest

end Reading

/-- What the words after `help` ask for.  They name a command at most. -/
def helpOn : List String → Stop
  | [] => .help
  | [word] => if isCommandWord word then .help else .unknownCommand
  | _ => .unknownCommand

/-- Read arguments up to the name of a command, which comes with the arguments after it. -/
def readProgram (reading : Reading) :
    List String → Except Stop (Reading × Option (Level × List String))
  | [] => .ok (reading, none)
  | text :: rest =>
      if reading.expectsCommand && text == "help" then .error (helpOn rest)
      else
        match if reading.expectsCommand then Level.ofWord? text else none with
        | some level => .ok (reading, some (level, rest))
        | none => do readProgram (← reading.argument .program text) rest

/-- The task that the arguments after a command describe. -/
def taskOf (level : Level) (given : Given) : Except Stop (Option Task) :=
  match level with
  | .program => .ok none
  | .build => .ok (some (.build given.operands given.out (given.format.getD .text)))
  | .watch => .ok (some (.watch given.operands given.out))
  | .render =>
      match given.operands with
      | [] => .error .missingArgument
      | file :: _ => .ok (some (.render file))

/-- Read a command line.  An option given after the command outweighs the same one before it. -/
def read (line : List String) : Except Stop Arguments := do
  let (outer, command) ← readProgram {} line
  let (inner, task) ← match command with
    | none => pure ({}, none)
    | some (level, rest) =>
        let inner ← (← Reading.arguments level {} rest).settle
        pure (inner, ← taskOf level inner)
  let outer ← outer.settle
  return {
    task
    root := inner.root <|> outer.root
    verbose := inner.verbose || outer.verbose
    noColor := inner.noColor || outer.noColor }

end Stencil.Command
