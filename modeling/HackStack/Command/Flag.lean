import HackStack.Text.Quoted

/-!
# Flags of a command

Flags come before the other arguments: one or two dashes and a name, then the value after an equals
sign or as the next argument. A switch needs no value.
-/

namespace HackStack.Command

inductive Kind where
  | switch
  | word
  deriving DecidableEq, Repr

structure Flag where
  name : Text
  kind : Kind
  /-- What the flag does, for the usage text. -/
  purpose : Text

inductive Value where
  | switch (on : Bool)
  | word (text : Text)
  deriving DecidableEq, Repr

inductive FlagError where
  | malformed (argument : Text)
  | unknown (name : Text)
  | lacksValue (name : Text)
  | notBoolean (value name : Text)
  deriving DecidableEq, Repr

def FlagError.message : FlagError → Text
  | malformed argument => "bad flag syntax: " ++ argument
  | unknown name => "flag provided but not defined: -" ++ name
  | lacksValue name => "flag needs an argument: -" ++ name
  | notBoolean value name =>
    "invalid boolean value " ++ value.quoted ++ " for -" ++ name ++ ": parse error"

inductive Parsed where
  /-- The flags that were given, the first first, and the arguments after them. -/
  | ok (given : List (Text × Value)) (rest : List Text)
  /-- The usage text was asked for. -/
  | help
  | error (e : FlagError)

def boolean? (t : Text) : Option Bool :=
  if (["1", "t", "T", "TRUE", "true", "True"] : List Text).contains t then some true
  else if (["0", "f", "F", "FALSE", "false", "False"] : List Text).contains t then some false
  else none

inductive Argument where
  | plain
  /-- Ends the flags. -/
  | stop
  | malformed
  | flag (name : Text) (value : Option Text)

/-- The name and the value of a flag without its dashes; the equals sign cannot be first. -/
def splitValue (body : Text) : Text × Option Text :=
  match body with
  | [] => ([], none)
  | b :: rest =>
    match Text.cut? 0x3D rest with
    | some (name, value) => (b :: name, some value)
    | none => (body, none)

/-- Reads one argument. -/
def Argument.ofText (a : Text) : Argument :=
  let named (body : Text) : Argument :=
    match body.head? with
    | none => .malformed
    | some b =>
      if b = 0x2D ∨ b = 0x3D then .malformed
      else
        let (name, value) := splitValue body
        .flag name value
  match a with
  | [0x2D, 0x2D] => .stop
  | 0x2D :: 0x2D :: body => named body
  | [0x2D] => .plain
  | 0x2D :: body => named body
  | _ => .plain

/-- Reads flags after those in `given`. -/
def parseFlags (known : List Flag) (given : Array (Text × Value)) : List Text → Parsed
  | [] => .ok given.toList []
  | a :: rest =>
    match Argument.ofText a with
    | .plain => .ok given.toList (a :: rest)
    | .stop => .ok given.toList rest
    | .malformed => .error (.malformed a)
    | .flag name value =>
      match known.find? fun f => f.name = name with
      | none => if name = "help" ∨ name = "h" then .help else .error (.unknown name)
      | some ⟨_, .switch, _⟩ =>
        match value with
        | none => parseFlags known (given.push (name, .switch true)) rest
        | some v =>
          match boolean? v with
          | some b => parseFlags known (given.push (name, .switch b)) rest
          | none => .error (.notBoolean v name)
      | some ⟨_, .word, _⟩ =>
        match value with
        | some v => parseFlags known (given.push (name, .word v)) rest
        | none =>
          match rest with
          | [] => .error (.lacksValue name)
          | v :: rest => parseFlags known (given.push (name, .word v)) rest

/-- The last value that a switch was given. -/
def switch? (given : List (Text × Value)) (name : Text) : Option Bool :=
  given.reverse.findSome? fun
    | (n, .switch b) => if n = name then some b else none
    | _ => none

/-- The last value that a flag with a word was given. -/
def word? (given : List (Text × Value)) (name : Text) : Option Text :=
  given.reverse.findSome? fun
    | (n, .word w) => if n = name then some w else none
    | _ => none

/-- What the usage text says of a flag. A switch of one letter has its purpose on the same line. -/
def Flag.usage (f : Flag) : Text :=
  let kind : Text := match f.kind with
    | .switch => if f.name.length ≤ 1 then "\t" else "\n    \t"
    | .word => " string\n    \t"
  "  -" ++ f.name ++ kind ++ f.purpose ++ "\n"

def usage (program : Text) (known : List Flag) : Text :=
  "Usage of " ++ program ++ ":\n" ++ known.flatMap Flag.usage

end HackStack.Command
