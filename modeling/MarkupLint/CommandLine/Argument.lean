import MarkupLint.Text.Quoted
import MarkupLint.Text.Similarity

/-!
# Arguments of the command line

An option begins with a dash.  Its value follows in the same argument or is the next argument; a
switch has no value.  Several options of one letter may stand in one argument.  Two dashes alone end
the options, and all other arguments are files.
-/

namespace MarkupLint
namespace CommandLine

/-- What an option is about. -/
inductive Topic where
  | version
  | config
  | debug
  | verbose
  | deferred
  | format
  | timeout
  | colour
  | help
deriving DecidableEq, Repr, Inhabited

/-- What the name of an option means. -/
inductive Meaning where
  /-- The topic gets the value that follows. -/
  | value (topic : Topic)
  /-- The topic is switched on or off. -/
  | switch (topic : Topic) (isOn : Bool)
deriving DecidableEq, Repr, Inhabited

/-- What is given for a topic. -/
inductive Given where
  | value (text : String)
  | switch (isOn : Bool)
deriving DecidableEq, Repr, Inhabited

/-- A topic with what is given for it. -/
structure Setting where
  topic : Topic
  given : Given
deriving DecidableEq, Repr, Inhabited

/-- The names of options that are words. -/
def words : List (String × Meaning) :=
  [("--version", .switch .version true), ("--config", .value .config),
    ("--debug", .switch .debug true), ("--verbose", .switch .verbose true),
    ("--ci", .switch .deferred true), ("--format", .value .format),
    ("--timeout", .value .timeout), ("--color", .switch .colour true),
    ("--no-color", .switch .colour false), ("--help", .switch .help true)]

/-- The names of options that are letters. -/
def letters : List (Char × Meaning) :=
  [('c', .value .config), ('d', .switch .debug true), ('C', .switch .deferred true)]

/-- Why arguments are refused before their values are looked at. -/
inductive Misuse where
  | unknown (name : String) (similar : List String)
  | missingValue (name : String)
  | unwantedValue (name : String)
deriving DecidableEq, Repr, Inhabited

namespace Misuse

/-- The suggestion of similar names. -/
def suggestion : List String → String
  | [] => ""
  | [name] => s!" Did you mean {Text.quoted name}?"
  | names =>
    " (Did you mean one of: " ++ String.intercalate ", " (names.map Text.quoted) ++ "?)"

/-- Names in the order in which they are suggested. -/
def insertName (name : String) : List String → List String
  | [] => [name]
  | other :: rest => if name < other then name :: other :: rest else other :: insertName name rest

/-- The wording of a misuse. -/
def message : Misuse → String
  | unknown name similar =>
    s!"No such option {Text.quoted name}." ++ suggestion (similar.foldr insertName [])
  | missingValue name => s!"Option {Text.quoted name} requires an argument."
  | unwantedValue name => s!"Option {Text.quoted name} does not take a value."

end Misuse

/-- What an argument with options gives, and whether it takes the next argument as a value. -/
structure Reading where
  settings : List Setting
  takesNext : Bool
deriving DecidableEq, Repr, Inhabited

/-- Give a topic a value: one that is attached, or the next argument. -/
def withValue (topic : Topic) (name : String) (attached? next? : Option String) :
    Except Misuse Reading :=
  match attached?, next? with
  | some value, _ => .ok ⟨[⟨topic, .value value⟩], false⟩
  | none, some value => .ok ⟨[⟨topic, .value value⟩], true⟩
  | none, none => .error (.missingValue name)

/-- Read an option that is a word, with the value that is attached to it. -/
def readWord (name : String) (meaning : Meaning) (attached? next? : Option String) :
    Except Misuse Reading :=
  match meaning, attached? with
  | .value topic, attached? => withValue topic name attached? next?
  | .switch topic isOn, none => .ok ⟨[⟨topic, .switch isOn⟩], false⟩
  | .switch _ _, some _ => .error (.unwantedValue name)

/-- Read options that are letters; behind one that takes a value, the other characters are the
value. -/
def readLetters (next? : Option String) : List Char → Except Misuse Reading
  | [] => .ok ⟨[], false⟩
  | letter :: rest =>
    let name := String.ofList ['-', letter]
    match letters.lookup letter with
    | none => .error (.unknown name [])
    | some (.value topic) =>
      withValue topic name (if rest.isEmpty then none else some (String.ofList rest)) next?
    | some (.switch topic isOn) =>
      (readLetters next? rest).map fun reading =>
        { reading with settings := ⟨topic, .switch isOn⟩ :: reading.settings }

/-- The name in an argument, and the value that is attached to it by an equals sign. -/
def splitAttached (argument : String) : String × Option String :=
  let chars := argument.toList
  let name := String.ofList (chars.takeWhile (· != '='))
  match chars.dropWhile (· != '=') with
  | [] => (name, none)
  | _ :: value => (name, some (String.ofList value))

/-- Read an argument with options. -/
def readOption (argument : String) (next? : Option String) : Except Misuse Reading :=
  let split := splitAttached argument
  match words.lookup split.1 with
  | some meaning => readWord split.1 meaning split.2 next?
  | none =>
    match argument.toList with
    | '-' :: '-' :: _ =>
      .error (.unknown split.1 (Text.similarWords split.1 (words.map (·.1))))
    | chars => readLetters next? (chars.drop 1)

/-- Whether an argument holds options. -/
def isOption (argument : String) : Bool :=
  argument.toList.head? == some '-' && argument.length > 1

/-- Arguments that have been read. -/
structure Arguments where
  /-- What is given for topics, in order. -/
  settings : List Setting
  files : List String
deriving DecidableEq, Repr, Inhabited

namespace Arguments

/-- Read arguments. -/
def read : List String → Except Misuse Arguments
  | [] => .ok ⟨[], []⟩
  | argument :: rest =>
    if argument = "--" then .ok ⟨[], rest⟩
    else if isOption argument then
      match readOption argument rest.head? with
      | .error misuse => .error misuse
      | .ok reading =>
        (read (rest.drop (if reading.takesNext then 1 else 0))).map fun behind =>
          { behind with settings := reading.settings ++ behind.settings }
    else (read rest).map fun behind => { behind with files := argument :: behind.files }
termination_by arguments => arguments.length
decreasing_by
  · simp only [List.length_drop, List.length_cons]
    omega
  · simp

/-- What is given last for a topic. -/
def given? (arguments : Arguments) (topic : Topic) : Option Given :=
  (arguments.settings.reverse.find? fun setting => setting.topic == topic).map (·.given)

/-- The value that is given last for a topic. -/
def value? (arguments : Arguments) (topic : Topic) : Option String :=
  match arguments.given? topic with
  | some (.value text) => some text
  | _ => none

/-- How a topic is switched, if it is. -/
def switch? (arguments : Arguments) (topic : Topic) : Option Bool :=
  match arguments.given? topic with
  | some (.switch isOn) => some isOn
  | _ => none

/-- Whether a topic is switched on. -/
def isOn (arguments : Arguments) (topic : Topic) : Bool :=
  (arguments.switch? topic).getD false

@[simp] theorem read_nil : read [] = .ok ⟨[], []⟩ := by rw [read]

end Arguments
end CommandLine
end MarkupLint
