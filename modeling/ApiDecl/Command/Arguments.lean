import ApiDecl.Options

/-!
# Command line arguments

The command has one job, `generate`, and shows its help or its version.  Options have long names behind two
dashes and some have letters behind one; letters may stand together, and a value stands behind its option,
behind an equals sign, or right behind the letter.  No option may be given twice.

* `Settings`: what a run of `generate` is asked for;
* `Settings.read`: the settings that arguments give;
* `Invocation.ofArguments`: what the command is called for.
-/

namespace ApiDecl

/-- What a run of `generate` is asked for. -/
structure Settings where
  input : Option String
  output : Option String
  onlyTypes : Bool
  generateEnums : Bool
  docs : Bool
  casing : Option Casing
  /-- The path of a file of options. -/
  config : Option String

/-- What the command is called for. -/
inductive Invocation where
  /-- To show its help or its version. -/
  | shown
  /-- For nothing that it can do. -/
  | misused
  | generate (input output : String) (settings : Settings)

/-- An option. -/
inductive Flag where
  | input
  | output
  | onlyTypes
  | generateEnums
  | docs
  | casing
  | config
  | help
  deriving DecidableEq

namespace Flag

/-- The option of a long name. -/
def ofName? (name : String) : Option Flag :=
  match name with
  | "input" => some .input
  | "output" => some .output
  | "only-types" => some .onlyTypes
  | "generate-enums" => some .generateEnums
  | "docs" => some .docs
  | "casing" => some .casing
  | "config" => some .config
  | "help" => some .help
  | _ => none

/-- The option of a letter. -/
def ofLetter? (letter : Char) : Option Flag :=
  match letter with
  | 'i' => some .input
  | 'o' => some .output
  | 'e' => some .generateEnums
  | 'h' => some .help
  | _ => none

/-- The option needs a value. -/
def hasValue : Flag → Bool
  | .input | .output | .casing | .config => true
  | .onlyTypes | .generateEnums | .docs | .help => false

end Flag

namespace Settings

/-- Nothing is asked for. -/
def empty : Settings := ⟨none, none, false, false, false, none, none⟩

/-- Sets a value that is not set yet. -/
def setOnce {α : Type} (old : Option α) (value : α) : Option (Option α) :=
  if old.isSome then none else some (some value)

/-- Sets an option with a value, which must not be empty. -/
def setValue? (s : Settings) (flag : Flag) (value : String) : Option Settings :=
  if value.isEmpty then none
  else
    match flag with
    | .input => (setOnce s.input value).map fun input => { s with input }
    | .output => (setOnce s.output value).map fun output => { s with output }
    | .config => (setOnce s.config value).map fun config => { s with config }
    | .casing => do
      let casing ← setOnce s.casing (← Casing.ofName? value)
      some { s with casing }
    | _ => none

/-- Sets an option without a value. -/
def setFlag? (s : Settings) (flag : Flag) : Option Settings :=
  match flag with
  | .onlyTypes => if s.onlyTypes then none else some { s with onlyTypes := true }
  | .generateEnums => if s.generateEnums then none else some { s with generateEnums := true }
  | .docs => if s.docs then none else some { s with docs := true }
  | _ => none

/-- What an argument does. -/
inductive Effect where
  /-- It sets options. -/
  | done (settings : Settings)
  /-- It needs a value behind it. -/
  | awaits (settings : Settings) (flag : Flag)
  | ends (invocation : Invocation)

/-- The effect of settings, or a misuse. -/
def Effect.ofSettings? : Option Settings → Effect
  | some s => .done s
  | none => .ends .misused

/-- The effect of letters behind a dash. -/
def letters (s : Settings) : List Char → Effect
  | [] => .done s
  | letter :: rest =>
    match Flag.ofLetter? letter with
    | none => .ends .misused
    | some flag =>
      if flag = .help then .ends .shown
      else if flag.hasValue then
        match rest with
        | [] => .awaits s flag
        | '=' :: value => .ofSettings? (s.setValue? flag (String.ofList value))
        | value => .ofSettings? (s.setValue? flag (String.ofList value))
      else
        match s.setFlag? flag with
        | some s => letters s rest
        | none => .ends .misused

/-- The effect of a long name behind two dashes. -/
def longName (s : Settings) (text : List Char) : Effect :=
  match Flag.ofName? (String.ofList (text.takeWhile (· ≠ '='))), text.dropWhile (· ≠ '=') with
  | none, _ => .ends .misused
  | some flag, [] =>
    if flag = .help then .ends .shown
    else if flag.hasValue then .awaits s flag
    else .ofSettings? (s.setFlag? flag)
  | some flag, _ :: value =>
    if flag.hasValue then .ofSettings? (s.setValue? flag (String.ofList value)) else .ends .misused

/-- The effect of an argument. -/
def argument (s : Settings) (text : String) : Effect :=
  match text.toList with
  | '-' :: '-' :: name => s.longName name
  | '-' :: letter :: rest => s.letters (letter :: rest)
  | _ => .ends .misused

/-- The argument is no option, so that it can be the value of one. -/
def isValue (text : String) : Bool :=
  match text.toList with
  | '-' :: _ :: _ => false
  | _ => true

/-- What settings amount to at the end: a file to read and one to write are needed. -/
def complete (s : Settings) : Invocation :=
  match s.input, s.output with
  | some input, some output => .generate input output s
  | _, _ => .misused

/-- Reads arguments in order, up to the first that ends everything. -/
def read (s : Settings) : List String → Invocation
  | [] => s.complete
  | ["--"] => s.complete
  | text :: rest =>
    if text = "--" then .misused
    else
      match s.argument text with
      | .done s => read s rest
      | .ends invocation => invocation
      | .awaits s flag =>
        match rest with
        | [] => .misused
        | value :: rest =>
          if isValue value then
            match s.setValue? flag value with
            | some s => read s rest
            | none => .misused
          else .misused

/-- The options to compile with, given those of a file. -/
def apply (s : Settings) (o : Options) : Options where
  onlyTypes := o.onlyTypes || s.onlyTypes
  generateEnums := o.generateEnums || s.generateEnums
  casing := s.casing.getD o.casing
  includeDocs := o.includeDocs || s.docs

end Settings

namespace Invocation

/-- The job has a short name too. -/
def isGenerate (name : String) : Bool := name = "generate" || name = "g"

/-- Help may be asked for by name, about a command or about itself. -/
def ofHelp : List String → Invocation
  | [] => .shown
  | [name] => if isGenerate name || name = "help" then .shown else .misused
  | _ => .misused

/-- What the command is called for. -/
def ofArguments : List String → Invocation
  | [] => .shown
  | first :: rest =>
    if isGenerate first then Settings.empty.read rest
    else if first = "help" then ofHelp rest
    else if first = "--help" || first = "--version" then .shown
    else if first = "--" then if rest.isEmpty then .shown else .misused
    else
      match first.toList with
      | '-' :: letter :: _ => if letter = 'h' || letter = 'V' then .shown else .misused
      | _ => .misused

end Invocation

end ApiDecl
