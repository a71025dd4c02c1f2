import UiScript.Number.Numeral
import UiScript.Text.Digit
import UiScript.Text.Quoted

/-!
# Arguments

A command line is a list of words. Flags start with a hyphen and may take a value, behind an equals
sign or as the next word; a long flag may be shortened as long as it is the only one that fits. Of
the other words the first one is the operand. Words that fit nowhere are left over.
-/

namespace UiScript.Command

/-! ### What is expected -/

/-- What the value of a flag has to be. -/
inductive Form where
  | text
  | choice (allowed : List String)
  | float
  | integer
  deriving Inhabited

inductive Effect where
  | help
  | version
  | switch
  | value (form : Form)
  deriving Inhabited

structure Flag where
  spellings : List String
  effect : Effect
  required : Bool := false
  /-- Another flag, by its main spelling, that must not be given beside this one. -/
  excludes : Option String := none
  deriving Inhabited

namespace Flag

def name (f : Flag) : String := f.spellings.getLastD ""

/-- How messages call the flag. -/
def label (f : Flag) : String := String.intercalate "/" f.spellings

def takesValue (f : Flag) : Bool :=
  match f.effect with
  | .value _ => true
  | _ => false

end Flag

structure Operand where
  name : String
  optional : Bool := false
  /-- The operand takes all words behind it along. -/
  takesRest : Bool := false
  /-- What it has to be; nothing here allows everything. -/
  allowed : List String := []
  deriving Inhabited

/-- What a command line may hold. -/
structure Usage where
  program : String
  operand : Operand
  flags : List Flag
  deriving Inhabited

def helpFlag : Flag := { spellings := ["-h", "--help"], effect := .help }

/-- The line that sums a usage up. -/
def Usage.text (u : Usage) : String :=
  s!"usage: {u.program} [options] {u.operand.name}\n"

/-- Why reading ends early: the usage or the version is asked for, or something is wrong. -/
inductive Halt where
  | help (usage : Usage)
  | version
  | wrong (usage : Usage) (message : String)
  deriving Inhabited

/-! ### Kinds of words -/

/-- A value that stands in the same word as its flag, perhaps behind an equals sign. -/
structure Attached where
  equals : Bool
  text : List Char
  deriving Inhabited

inductive Word where
  | plain
  /-- The double hyphen, behind which all words are plain. -/
  | divider
  | flag (flag : Flag) (isLong : Bool) (attached : Option Attached)
  | unknownFlag
  deriving Inhabited

def Usage.spellings (u : Usage) : List (String × Flag) :=
  u.flags.flatMap fun f => f.spellings.map (·, f)

/-- Splits at the first equals sign. -/
def splitEquals (cs : List Char) : List Char × Option (List Char) :=
  let name := cs.takeWhile (· != '=')
  match cs.drop name.length with
  | _ :: value => (name, some value)
  | [] => (name, none)

/-- Digits behind a hyphen, perhaps with a point before the last ones. -/
def isNegativeNumber (text : String) : Bool :=
  let isDigit (c : Char) := (Text.digitValue? c).isSome
  match text.toList with
  | '-' :: cs =>
    let whole := cs.takeWhile isDigit
    match cs.drop whole.length with
    | [] => !whole.isEmpty
    | '.' :: fraction => !fraction.isEmpty && fraction.all isDigit
    | _ => false
  | _ => false

/-- What a word may be short for: long flags that it starts, or a short flag with a value. -/
def Usage.candidates (u : Usage) (text : String) : List (String × Word) :=
  match text.toList with
  | '-' :: '-' :: _ =>
    let (start, value) := splitEquals text.toList
    (u.spellings.filter fun (spelling, _) => start.isPrefixOf spelling.toList).map
      fun (spelling, f) =>
        (spelling, .flag f true (value.map fun v => { equals := true, text := v }))
  | '-' :: c :: value =>
    u.spellings.filterMap fun (spelling, f) =>
      if spelling == String.ofList ['-', c] then
        some (spelling, .flag f false (some { equals := false, text := value }))
      else none
  | _ => []

/-- The kind of a word before the divider. -/
def Usage.classify (u : Usage) (text : String) : Except Halt Word :=
  let isLong := text.startsWith "--"
  if !text.startsWith "-" || text == "-" then .ok .plain
  else
    match u.spellings.lookup text with
    | some f => .ok (.flag f isLong none)
    | none =>
      let (start, value) := splitEquals text.toList
      match value, u.spellings.lookup (String.ofList start) with
      | some v, some f => .ok (.flag f isLong (some { equals := true, text := v }))
      | _, _ =>
        match u.candidates text with
        | [(_, word)] => .ok word
        | [] =>
          if isNegativeNumber text || text.contains ' ' then .ok .plain
          else .ok .unknownFlag
        | many =>
          let names := String.intercalate ", " (many.map Prod.fst)
          .error (.wrong u s!"ambiguous option: {text} could match {names}")

def Usage.classifyAll (u : Usage) : List String → Except Halt (List (String × Word))
  | [] => .ok []
  | "--" :: more => .ok (("--", .divider) :: more.map fun text => (text, .plain))
  | text :: more => do
    let word ← u.classify text
    return (text, word) :: (← u.classifyAll more)

/-! ### Reading -/

structure Found where
  /-- The operand and the words that it takes along. -/
  operand : Option (String × List String) := none
  /-- The flags with their values, the last one first. -/
  given : List (String × String) := []
  extra : List String := []
  deriving Inhabited

namespace Found

def value? (f : Found) (name : String) : Option String := f.given.lookup name

def isOn (f : Found) (name : String) : Bool := (f.value? name).isSome

end Found

def Usage.fail {α : Type} (u : Usage) (label message : String) : Except Halt α :=
  .error (.wrong u s!"argument {label}: {message}")

/-- Refuses a value that is none of those allowed. -/
def Usage.checkChoice (u : Usage) (label : String) (allowed : List String) (value : String) :
    Except Halt Unit :=
  if allowed.contains value then .ok ()
  else
    let names := String.intercalate ", " (allowed.map Text.quoted)
    u.fail label s!"invalid choice: {Text.quoted value} (choose from {names})"

def Usage.checkForm (u : Usage) (f : Flag) (form : Form) (value : String) : Except Halt Unit :=
  match form with
  | .text => .ok ()
  | .choice allowed => u.checkChoice f.label allowed value
  | .float =>
    match Numeral.readFloat value with
    | .ok _ => .ok ()
    | .error _ => u.fail f.label s!"invalid float value: {Text.quoted value}"
  | .integer =>
    match Numeral.readInteger value with
    | .ok _ => .ok ()
    | .error _ => u.fail f.label s!"invalid int value: {Text.quoted value}"

/-- Takes a flag with its value over. -/
def Usage.take (u : Usage) (found : Found) (f : Flag) (value : String) : Except Halt Found := do
  match f.effect with
  | .help => throw (.help u)
  | .version => throw .version
  | .switch =>
    match f.excludes with
    | some other =>
      if found.isOn other then u.fail f.label s!"not allowed with argument {other}"
    | none => pure ()
  | .value form => u.checkForm f form value
  return { found with given := (f.name, value) :: found.given }

structure Bundle where
  flags : List (Flag × String) := []
  extra : List String := []
  /-- The next word is the value of the last flag. -/
  takesNext : Bool := false
  deriving Inhabited

/-- A flag without a value in its own word; the next word is given if it is a plain one. -/
def Usage.bundleAlone (u : Usage) (f : Flag) (next : Option String) : Except Halt Bundle :=
  if f.takesValue then
    match next with
    | some value => .ok { flags := [(f, value)], takesNext := true }
    | none => u.fail f.label "expected one argument"
  else .ok { flags := [(f, "")] }

/-- A flag with something behind it in its own word: a value, or further short flags. -/
def Usage.bundle (u : Usage) (f : Flag) (isLong equals : Bool) (next : Option String) :
    List Char → Except Halt Bundle
  | [] =>
    if f.takesValue then .ok { flags := [(f, "")] }
    else u.fail f.label ("ignored explicit argument " ++ Text.quoted "")
  | c :: cs =>
    let text := String.ofList (c :: cs)
    if f.takesValue then .ok { flags := [(f, text)] }
    else if isLong || equals || c == '-' then
      u.fail f.label s!"ignored explicit argument {Text.quoted text}"
    else
      match u.spellings.lookup (String.ofList ['-', c]) with
      | none => .ok { flags := [(f, "")], extra := ["-" ++ text] }
      | some g => do
        let more ←
          match cs with
          | [] => u.bundleAlone g next
          | '=' :: value => u.bundle g false true next value
          | value => u.bundle g false false next value
        return { more with flags := (f, "") :: more.flags }

/-- Takes the flags of a word over. -/
def Usage.takeAll (u : Usage) : Found → List (Flag × String) → Except Halt Found
  | found, [] => .ok found
  | found, (f, value) :: more => do u.takeAll (← u.take found f value) more

/-- Takes a word as the operand, with the words behind it if it takes them along. -/
def Usage.takeOperand (u : Usage) (found : Found) (text : String) (rest : List String) :
    Except Halt Found := do
  if !u.operand.allowed.isEmpty then u.checkChoice u.operand.name u.operand.allowed text
  return { found with operand := some (text, rest) }

def startsWithDivider : List (String × Word) → Bool
  | (_, .divider) :: _ => true
  | _ => false

/-- Reads the words one after the other. A divider before or behind the operand is dropped. -/
def Usage.readWords (u : Usage) (found : Found) : List (String × Word) → Except Halt Found
  | [] => .ok found
  | (_, .flag f isLong attached) :: rest => do
    let next :=
      match rest with
      | (text, .plain) :: _ => some text
      | _ => none
    let bundle ←
      match attached with
      | none => u.bundleAlone f next
      | some a => u.bundle f isLong a.equals next a.text
    let found ← u.takeAll found bundle.flags
    let found := { found with extra := found.extra ++ bundle.extra }
    if bundle.takesNext then
      match rest with
      | _ :: rest => u.readWords found rest
      | [] => .ok found
    else u.readWords found rest
  | (text, .unknownFlag) :: rest =>
    u.readWords { found with extra := found.extra ++ [text] } rest
  | (text, word) :: rest => do
    if found.operand.isSome then
      u.readWords { found with extra := found.extra ++ [text] } rest
    else if u.operand.takesRest then
      -- a divider counts only if a word follows it
      if text == "--" && rest.isEmpty then return { found with extra := found.extra ++ [text] }
      else u.takeOperand found text (rest.map Prod.fst)
    else
      match word with
      | .divider =>
        match rest with
        | (text, _) :: rest => u.readWords (← u.takeOperand found text []) rest
        | [] => return { found with extra := found.extra ++ [text] }
      | _ =>
        let found ← u.takeOperand found text []
        if startsWithDivider rest then
          match rest with
          | _ :: rest => u.readWords found rest
          | [] => return found
        else u.readWords found rest

/-- What is required and was not given, as messages call it. -/
def Usage.missing (u : Usage) (found : Found) : List String :=
  (if found.operand.isNone && !u.operand.optional then [u.operand.name] else []) ++
    (u.flags.filter fun f => f.required && !found.isOn f.name).map (·.label)

def Usage.read (u : Usage) (words : List String) : Except Halt Found := do
  let found ← u.readWords {} (← u.classifyAll words)
  let missing := u.missing found
  if missing.isEmpty then return found
  else
    let names := String.intercalate ", " missing
    throw (.wrong u s!"the following arguments are required: {names}")

end UiScript.Command
