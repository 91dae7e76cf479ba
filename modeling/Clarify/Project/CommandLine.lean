import Clarify.Project.Command

/-!
# The command line

The words behind the name of the program: switches for all commands, the name of a command, and
the options of that command. An option has a long name and a value, which is the next word or
stands behind an equals sign; a flag is there or not. Neither may be repeated. A word that begins
with a dash is no value of the word before it.

Results:
* `readCount?_eq_some_iff`: a count is a row of digits, perhaps behind a plus sign, in range.
-/

namespace Clarify

/-- What the words of a command line ask for. -/
inductive Invocation where
  | help
  | version
  /-- The words make no sense. -/
  | misuse
  | command (root : String) (c : Command)
deriving Repr, DecidableEq

namespace CommandLine

/-! ## Options -/

/-- What a command takes. -/
structure Signature where
  /-- The options with a text for a value. -/
  texts : List String
  /-- The options with a count for a value. -/
  counts : List String
  flags : List String

/-- The options and flags that were given. -/
structure Given where
  texts : List (String × String)
  counts : List (String × Nat)
  flags : List String

namespace Given

/-- Nothing was given. -/
def nothing : Given := ⟨[], [], []⟩

/-- Whether an option or a flag was given. -/
def has (g : Given) (name : String) : Bool :=
  g.texts.any (·.1 == name) || g.counts.any (·.1 == name) || g.flags.contains name

/-- The text given for an option. -/
def text? (g : Given) (name : String) : Option String := g.texts.lookup name

/-- The count given for an option. -/
def count? (g : Given) (name : String) : Option Nat := g.counts.lookup name

/-- Whether a flag was given. -/
def flag (g : Given) (name : String) : Bool := g.flags.contains name

end Given

/-- What came of reading words: the options given, or what the words ask for instead. -/
abbrev Outcome := Except Invocation

/-- The number of a row of digits. -/
def digits? (text : List Char) : Option Nat :=
  if text.isEmpty || !text.all Char.isDigit then none
  else some (text.foldl (fun n c => 10 * n + (c.toNat - '0'.toNat)) 0)

/-- The count that a text stands for. -/
def readCount? (text : String) : Option Nat :=
  let digits := match text.toList with
    | '+' :: rest => rest
    | all => all
  (digits? digits).filter fun n => n < Json.wordBound

theorem readCount?_eq_some_iff {text : String} {n : Nat} :
    readCount? text = some n ↔
      digits? (match text.toList with | '+' :: rest => rest | all => all) = some n
        ∧ n < Json.wordBound := by
  simp [readCount?, Option.filter_eq_some_iff]

/-- The switches that every command takes as well. -/
def switches : List String := ["verbose", "quiet"]

/-- The options given with another value. -/
def Given.addValue (g : Given) (s : Signature) (name value : String) : Outcome Given :=
  if g.has name then .error .misuse
  else if s.counts.contains name then
    match readCount? value with
    | some n => .ok { g with counts := (name, n) :: g.counts }
    | none => .error .misuse
  else .ok { g with texts := (name, value) :: g.texts }

/-- The options given with another flag. -/
def Given.addFlag (g : Given) (name : String) : Outcome Given :=
  if g.has name then .error .misuse else .ok { g with flags := name :: g.flags }

/-- The long name of a switch that is given by a letter. -/
def switchOf? (letter : Char) : Option String :=
  match letter with
  | 'v' => some "verbose"
  | 'q' => some "quiet"
  | _ => none

/-- The options given with switches by their letters. One letter asks for help, and one for the
version, unless that is behind the name of a command. -/
def Given.addLetters (g : Given) (tellsVersion : Bool) : List Char → Outcome Given
  | [] => .ok g
  | letter :: rest =>
    if letter = 'h' then .error .help
    else if letter = 'V' ∧ tellsVersion then .error .version
    else
      match switchOf? letter with
      | some name => do (← g.addFlag name).addLetters tellsVersion rest
      | none => .error .misuse

/-- Whether a word cannot be the value of the option before it. -/
def isDashed (word : String) : Bool :=
  match word.toList with
  | '-' :: _ :: _ => true
  | _ => false

/-- A long option split into its name and the value behind an equals sign. -/
def splitLong (word : String) : String × Option String :=
  let text := word.toList.drop 2
  let name := String.ofList (text.takeWhile (· ≠ '='))
  match text.dropWhile (· ≠ '=') with
  | _ :: value => (name, some (String.ofList value))
  | [] => (name, none)

/-- Reads the words behind the name of a command. -/
def readOptions (s : Signature) (g : Given) : List String → Outcome Given
  | [] => .ok g
  | word :: rest =>
    if word = "--" then if rest.isEmpty then .ok g else .error .misuse
    else if word.startsWith "--" then
      let (name, value) := splitLong word
      if s.texts.contains name || s.counts.contains name then
        match value, rest with
        | some value, rest => do readOptions s (← g.addValue s name value) rest
        | none, value :: rest =>
          if isDashed value then .error .misuse
          else do readOptions s (← g.addValue s name value) rest
        | none, [] => .error .misuse
      else if value.isSome then .error .misuse
      else if s.flags.contains name || switches.contains name then
        do readOptions s (← g.addFlag name) rest
      else if name = "help" then .error .help
      else .error .misuse
    else
      match word.toList with
      | '-' :: letter :: letters =>
        do readOptions s (← g.addLetters false (letter :: letters)) rest
      | _ => .error .misuse

/-! ## Commands -/

/-- The options of a command in addition to the root. -/
def signature (texts counts flags : List String) : Signature := ⟨"root" :: texts, counts, flags⟩

/-- A command by its name: what it takes, and what it means with the options given. It means
nothing if an option that it needs is missing. -/
def command? (name : String) : Option (Signature × (Given → Option Command)) :=
  match name with
  | "init-project" => some (signature ["name"] [] [], fun g => some (.create (g.text? "name")))
  | "project-info" => some (signature [] [] ["json"], fun g => some (.info (g.flag "json")))
  | "run" =>
    some (signature ["input", "output"] ["workers", "timeout-secs"] ["no-ml", "json"], fun g => do
      return .run (← g.text? "input") (g.text? "output")
        ⟨g.count? "workers", g.count? "timeout-secs", g.flag "no-ml"⟩ (g.flag "json"))
  | "map-set" =>
    some (signature ["old", "new"] [] [], fun g => do
      return .setMapping (← g.text? "old") (← g.text? "new"))
  | "map-list" =>
    some (signature [] [] ["json"], fun g => some (.listMappings (g.flag "json")))
  | "map-delete" =>
    some (signature ["old"] [] [], fun g => do return .deleteMapping (← g.text? "old"))
  | "map-import" =>
    some (signature ["file"] [] [], fun g => do return .importMappings (← g.text? "file"))
  | "map-export" =>
    some (signature ["file"] [] [], fun g => some (.exportMappings (g.text? "file")))
  | "suspect-add" =>
    some (signature ["name"] [] [], fun g => do return .addSuspect (← g.text? "name"))
  | "suspect-list" => some (signature [] [] [], fun _ => some .listSuspects)
  | "runs-list" => some (signature [] [] ["json"], fun g => some (.listRuns (g.flag "json")))
  | "log-show" =>
    some (signature [] ["tail"] [], fun g => some (.showLog (g.count? "tail")))
  | _ => none

/-- Whether two switches were given that exclude each other. -/
def Given.isContradictory (g : Given) : Bool := g.flag "verbose" && g.flag "quiet"

/-- What the words behind `help` ask for. They name the command that help is wanted for. -/
def readHelp : List String → Invocation
  | [] => .help
  | [name] => if name = "help" ∨ (command? name).isSome then .help else .misuse
  | _ => .misuse

/-- What the words from the name of a command on ask for. -/
def readCommand (name : String) (words : List String) : Invocation :=
  match command? name with
  | none => if name = "help" then readHelp words else .misuse
  | some (s, meaning) =>
    match readOptions s .nothing words with
    | .error other => other
    | .ok g =>
      if g.isContradictory then .misuse
      else
        match meaning g with
        | some c => .command ((g.text? "root").getD ".") c
        | none => .misuse

/-- Reads the words in front of the name of a command and then the command, where `g` was given
so far. -/
def readFrom (g : Given) : List String → Invocation
  | [] => .misuse
  | word :: rest =>
    if word = "--version" then .version
    else if word = "--help" then .help
    else if word.startsWith "--" then
      let name := String.ofList (word.toList.drop 2)
      if switches.contains name then
        match g.addFlag name with
        | .ok g => readFrom g rest
        | .error other => other
      else .misuse
    else
      match word.toList with
      | '-' :: letter :: letters =>
        match g.addLetters true (letter :: letters) with
        | .ok g => readFrom g rest
        | .error other => other
      | _ =>
        match readCommand word rest with
        | .command root c => if g.isContradictory then .misuse else .command root c
        | other => other

/-- What the words of a command line ask for (`Cli`). -/
def read (words : List String) : Invocation := readFrom .nothing words

end CommandLine

/-! ## Answers -/

/-- What a command line leads to: text for the user, text about an error, and the code that the
program ends with. -/
structure Answer where
  shown : String
  complaint : String
  code : UInt32
deriving Repr, DecidableEq

namespace Answer

/-- The name of the program with its version. -/
def versionLine : String := "unravel 0.1.0"

/-- How the program is used. -/
def usage : String := "Usage: unravel [OPTIONS] <COMMAND>"

/-- The text of lines. -/
def ofLines (lines : List String) : String := String.join (lines.map (· ++ "\n"))

/-- The code that the program ends with after an error. -/
def codeOf : ProjectError → UInt32
  | .overflow => 101
  | _ => 1

/-- The answer to a command line (`main`). -/
def toWords {m : Type → Type} [Monad m] [Files m] (d : Disturbance) (words : List String) :
    m Answer := do
  match CommandLine.read words with
  | .help => return ⟨ofLines [usage], "", 0⟩
  | .version => return ⟨ofLines [versionLine], "", 0⟩
  | .misuse => return ⟨"", ofLines [usage], 2⟩
  | .command root c =>
    match ← (c.execute d root).run with
    | .ok lines => return ⟨ofLines lines, "", 0⟩
    | .error e => return ⟨"", ofLines [e.render], codeOf e⟩

end Answer

end Clarify
