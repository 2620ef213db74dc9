import TypeOnly.Run

/-!
The command line: what its arguments ask for, and what is printed.
-/

namespace TypeOnly.CommandLine

set_option autoImplicit false

def programName : String := "fix-verbatim-module-syntax"

def versionText : String := programName ++ " 0.1.0\n"

def usage : String := s!"Usage: {programName} [OPTIONS] [TSCONFIG_PATH]"

def helpText : String :=
  "Mark type-only imports and exports for verbatimModuleSyntax\n\n" ++ usage ++ "\n\n"
    ++ "Arguments:\n"
    ++ "  [TSCONFIG_PATH]  Path to the tsconfig.json to fix [default: tsconfig.json]\n\n"
    ++ "Options:\n"
    ++ "      --dry      Print changes without writing to disk\n"
    ++ "      --json     Output a JSON report instead of human-readable text\n"
    ++ "  -h, --help     Print help\n"
    ++ "  -V, --version  Print version\n"

/-- What arguments ask for. -/
structure Arguments where
  config : Option String
  dry : Bool
  json : Bool
deriving DecidableEq, Repr

/-- An option that is given by its name alone. -/
inductive Flag where
  | dry
  | json
  | help
  | version
deriving DecidableEq, Repr

namespace Flag

def all : List Flag := [dry, json, help, version]

def name : Flag → String
  | dry => "dry"
  | json => "json"
  | help => "help"
  | version => "version"

def long (f : Flag) : String := "--" ++ f.name

def ofName? (s : String) : Option Flag := all.find? fun f => f.name = s

/-- Whether the flag says how to run, and does not answer at once. -/
def isSetting : Flag → Bool
  | dry | json => true
  | help | version => false

def ofLetter? (c : Char) : Option Flag :=
  if c = 'h' then some help else if c = 'V' then some version else none

end Flag

/-- What is done with arguments. -/
inductive Request where
  | run (arguments : Arguments)
  | help
  | version
  /-- The arguments make no sense. -/
  | refuse (message : String)
deriving DecidableEq, Repr

/-! ### Similar names -/

/-- Marks the first place of a character that is not taken yet, from `low` up to `high`. -/
def takeMatch (c : Char) (low high : Nat) : Nat → List (Char × Bool) → Option (List (Char × Bool))
  | _, [] => none
  | i, (d, taken) :: rest =>
    if low ≤ i && i < high && d = c && !taken then some ((d, true) :: rest)
    else (takeMatch c low high (i + 1) rest).map fun rest => (d, taken) :: rest

/-- The characters of one text that have a match near them in another, and the other with its
matches marked. -/
def matchChars (range : Nat) : Nat → List Char → List (Char × Bool) → List Char × List (Char × Bool)
  | _, [], b => ([], b)
  | i, c :: rest, b =>
    match takeMatch c (i - range) (i + range + 1) 0 b with
    | some b =>
      let (found, b) := matchChars range (i + 1) rest b
      (c :: found, b)
    | none => matchChars range (i + 1) rest b

/-- How similar two texts are, from zero to one: the mean of the parts of both that match and of the
part of the matches that is in order. -/
def similarity (a b : String) : Float :=
  let (s, t) := (a.toList, b.toList)
  let (found, marked) := matchChars (max s.length t.length / 2 - 1) 0 s (t.map fun c => (c, false))
  let other := (marked.filter Prod.snd).map Prod.fst
  let n := found.length
  let swaps := ((found.zip other).filter fun (x, y) => x ≠ y).length / 2
  let part (k total : Nat) : Float := k.toFloat / total.toFloat
  if n = 0 then 0.0
  else (part n s.length + part n t.length + part (n - swaps) n) / 3.0

/-- How similar the name of a flag has to be to what was written instead. -/
def likeness : Float := 0.7

/-- The flag whose name is most like a text, if it is like enough. -/
def similarFlag (s : String) : Option Flag :=
  let scored := Flag.all.map fun f => (f, similarity s f.name)
  match scored.filter fun (_, x) => likeness < x with
  | [] => none
  | first :: rest =>
    some (rest.foldl (fun best next => if best.2 ≤ next.2 then next else best) first).1

/-! ### Refusals -/

def moreHelp : String := "\n\nFor more information, try '--help'.\n"

/-- What can be set, as one of several arguments. -/
def settings : String := "<TSCONFIG_PATH|--dry|--json>"

/-- The usage that names some arguments. -/
def usageOf (arguments : List String) : String :=
  s!"Usage: {programName} " ++ " ".intercalate arguments

/-- The usage of one flag, alone or besides settings that are given already. -/
def flagUsage (flag : Flag) (hasSettings : Bool) : String :=
  if !hasSettings then usageOf [flag.long, "[TSCONFIG_PATH]"]
  else if flag.isSetting then usageOf [settings]
  else usageOf [flag.long, settings]

/-- The usage of some flags and of the path, which may be given already. -/
def flagsUsage (flags : List Flag) (hasConfig : Bool) : String :=
  if flags.isEmpty && !hasConfig then usage
  else usageOf (flags.map Flag.long ++ [if hasConfig then "<TSCONFIG_PATH>" else "[TSCONFIG_PATH]"])

def unexpected (argument tip usage : String) : Request :=
  .refuse (s!"error: unexpected argument '{argument}' found\n\n" ++ tip ++ usage ++ moreHelp)

def asValueTip (argument : String) : String :=
  s!"  tip: to pass '{argument}' as a value, use '-- {argument}'\n\n"

def repeated (f : Flag) : Request :=
  .refuse
    (s!"error: the argument '{f.long}' cannot be used multiple times\n\n" ++ usage ++ moreHelp)

def needlessValue (f : Flag) (value usage : String) : Request :=
  .refuse (s!"error: unexpected value '{value}' for '{f.long}' found; no more were expected\n\n"
    ++ usage ++ moreHelp)

def emptyConfig : Request :=
  .refuse ("error: a value is required for '[TSCONFIG_PATH]' but none was supplied" ++ moreHelp)

/-! ### Reading arguments -/

structure State where
  config : Option String
  flags : List Flag

namespace State

/-- The path is looked at when the argument after it is understood. -/
def checkConfig (s : State) : Except Request State :=
  if s.config = some "" then .error emptyConfig else .ok s

/-- A name after two dashes that is no flag. The flag that was meant counts as given. -/
def unknownFlag (s : State) (name : String) : Request :=
  let argument := "--" ++ name
  match similarFlag name with
  | some f =>
    let flags := if s.flags.contains f then s.flags else s.flags ++ [f]
    unexpected argument s!"  tip: a similar argument exists: '{f.long}'\n\n"
      (flagsUsage flags s.config.isSome)
  | none => unexpected argument (asValueTip argument) (flagsUsage s.flags s.config.isSome)

/-- Notes a flag, or answers at once. -/
def setFlag (s : State) (f : Flag) : Except Request State := do
  let s ← s.checkConfig
  match f with
  | .help => .error .help
  | .version => .error .version
  | _ => if s.flags.contains f then .error (repeated f) else .ok { s with flags := s.flags ++ [f] }

/-- An argument that begins with two dashes. -/
def readLong (s : State) (body : String) : Except Request State :=
  match Text.breakAt '=' body.toList with
  | some (name, value) =>
    match Flag.ofName? (String.ofList name) with
    | some f =>
      .error (needlessValue f (String.ofList value) (flagUsage f (!s.flags.isEmpty)))
    | none => .error (s.unknownFlag (String.ofList name))
  | none =>
    match Flag.ofName? body with
    | some f => s.setFlag f
    | none => .error (s.unknownFlag body)

/-- An argument that begins with one dash. All flags of one letter answer at once. -/
def readShort (s : State) (letter : Char) : Except Request State :=
  match Flag.ofLetter? letter with
  | some f => s.setFlag f
  | none =>
    let argument := String.ofList ['-', letter]
    .error (unexpected argument (asValueTip argument) usage)

/-- An argument that stands for itself. -/
def readConfig (s : State) (argument : String) : Except Request State :=
  match s.config with
  | some _ => .error (unexpected argument "" usage)
  | none => .ok { s with config := some argument }

def read (s : State) (argument : String) : Except Request State :=
  match argument.toList with
  | '-' :: '-' :: body => s.readLong (String.ofList body)
  | '-' :: letter :: _ => s.readShort letter
  | _ => s.readConfig argument

/-- Reads arguments one after the other; after two dashes each one stands for itself. -/
def readAll : List String → State → Except Request State
  | [], s => .ok s
  | a :: rest, s =>
    if a = "--" then rest.foldlM readConfig s
    else
      match s.read a with
      | .ok s => readAll rest s
      | .error r => .error r

end State

def parse (arguments : List String) : Request :=
  match State.readAll arguments ⟨none, []⟩ >>= State.checkConfig with
  | .ok s => .run ⟨s.config, s.flags.contains .dry, s.flags.contains .json⟩
  | .error r => r

/-! ### Running -/

/-- What the program has done when it ends. -/
structure Ending where
  code : Nat
  output : String
  errors : String
  disk : Disk

/-- The configuration that is taken when none is named. -/
def defaultConfig : String := "tsconfig.json"

/-- What was done with a project. -/
def Ending.ofProgress (p : Progress) : Ending :=
  match p.result with
  | .ok _ => ⟨0, p.output, "", p.disk⟩
  | .error e => ⟨1, p.output, s!"Error: {e.message}\n", p.disk⟩

def execute (disk : Disk) (cwd : Path) (color : Bool) (arguments : List String) : Ending :=
  match parse arguments with
  | .help => ⟨0, helpText, "", disk⟩
  | .version => ⟨0, versionText, "", disk⟩
  | .refuse message => ⟨2, "", message, disk⟩
  | .run a =>
    .ofProgress (fixProject disk ⟨cwd, color, a.json⟩ (!a.dry) ⟨a.config.getD defaultConfig⟩)

end TypeOnly.CommandLine
