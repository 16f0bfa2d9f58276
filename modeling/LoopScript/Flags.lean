/-
# LoopScript.Flags — options on a command line

Options come before the other arguments. An option is a name behind one or two minus signs, perhaps with
a value behind an equals sign. A switch is on if it has no value; any other option takes the next
argument as its value if it has none of its own. Two minus signs alone end the options, and so does the
first argument that is no option; a single minus sign is such an argument. If an option is given twice,
the last one counts.
-/
import LoopScript.Text.Quoted

namespace LoopScript

set_option autoImplicit false

inductive OptionKind where
  | switch
  | text
deriving DecidableEq, Repr

structure Flag where
  name : Text
  value : Text
deriving DecidableEq, Repr

inductive FlagError where
  | badForm (argument : Text)
  | unknown (name : Text)
  | help
  | needsValue (name : Text)
  | notABoolean (name value : Text)
deriving DecidableEq, Repr

def FlagError.message : FlagError → Text
  | .badForm argument => utf8 "bad flag syntax: " ++ argument
  | .unknown name => utf8 "flag provided but not defined: -" ++ name
  | .help => utf8 "flag: help requested"
  | .needsValue name => utf8 "flag needs an argument: -" ++ name
  | .notABoolean name value =>
      utf8 "invalid boolean value " ++ Text.quote value ++ utf8 " for -" ++ name ++
        utf8 ": parse error"

namespace Flags

def onWords : List Text :=
  [utf8 "1", utf8 "t", utf8 "T", utf8 "true", utf8 "TRUE", utf8 "True"]

def offWords : List Text :=
  [utf8 "0", utf8 "f", utf8 "F", utf8 "false", utf8 "FALSE", utf8 "False"]

def minus : UInt8 := 45

def equals : UInt8 := 61

/-- Cut an option at its first equals sign, which is not its first byte. -/
def splitValue (body : Text) : Text × Option Text :=
  match body with
  | [] => ([], none)
  | b :: rest =>
      match rest.dropWhile (· != equals) with
      | [] => (body, none)
      | _ :: value => (b :: rest.takeWhile (· != equals), some value)

/-- What an argument is, by its form alone. -/
inductive Form where
  | argument
  | ending
  | option (name : Text) (value : Option Text)
deriving DecidableEq, Repr

def formOf (argument : Text) : Except FlagError Form :=
  match argument with
  | first :: second :: more =>
      if first ≠ minus then .ok .argument
      else if second = minus ∧ more = [] then .ok .ending
      else
        let body := if second = minus then more else second :: more
        if body.head? = some minus ∨ body.head? = some equals then .error (.badForm argument)
        else .ok (.option (splitValue body).1 (splitValue body).2)
  | _ => .ok .argument

/-- A switch with its value, if it has one. -/
def switchOf (name : Text) (value : Option Text) : Except FlagError Flag :=
  let word := value.getD (utf8 "true")
  if onWords.contains word ∨ offWords.contains word then .ok ⟨name, word⟩
  else .error (.notABoolean name word)

/-- One more option in front of those read. -/
def andFlag (flag : Flag) (result : Except FlagError (List Flag × List Text)) :
    Except FlagError (List Flag × List Text) :=
  result.map fun (flags, others) => (flag :: flags, others)

/-- The options at the beginning of a command line, and the arguments behind them. -/
def parse (kinds : List (Text × OptionKind)) : List Text → Except FlagError (List Flag × List Text)
  | [] => .ok ([], [])
  | argument :: rest =>
      match formOf argument with
      | .error e => .error e
      | .ok .argument => .ok ([], argument :: rest)
      | .ok .ending => .ok ([], rest)
      | .ok (.option name value) =>
          match kinds.lookup name with
          | none =>
              .error (if name = utf8 "help" ∨ name = utf8 "h" then .help else .unknown name)
          | some .switch =>
              match switchOf name value with
              | .error e => .error e
              | .ok flag => andFlag flag (parse kinds rest)
          | some .text =>
              match value with
              | some value => andFlag ⟨name, value⟩ (parse kinds rest)
              | none =>
                  match rest with
                  | [] => .error (.needsValue name)
                  | next :: rest => andFlag ⟨name, next⟩ (parse kinds rest)

/-- The value an option was given last. -/
def value? (flags : List Flag) (name : Text) : Option Text :=
  (flags.reverse.find? fun f => f.name == name).map Flag.value

def isOn (flags : List Flag) (name : Text) : Bool :=
  ((value? flags name).map onWords.contains).getD false

end Flags

end LoopScript
