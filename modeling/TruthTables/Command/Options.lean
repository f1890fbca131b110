import TruthTables.Text.Numeral
import TruthTables.Text.Quoted

/-!
# Options — how a command line is read

    A command line holds one formula at most, and options in any order.  A
    long option may be shortened as far as it stays the only one that begins
    so, and takes its value after an equals sign or as the next argument.
    Short options may be joined, the value of the last one included, and the
    first of them may be followed by an equals sign.  After a double dash
    nothing is an option.  An argument that starts with a dash is still no
    option if it is a negative number or has a space in it and begins no
    option.

    Faults are found from left to right, in two passes: first each argument
    is classified, which finds shortened options that begin more than one,
    and then the options are taken in turn.  Arguments that are left over
    are reported last, all together.
-/

namespace TruthTables.Command

/-- The options. -/
inductive Flag where
  | help
  | file
  | random
  | seed
  | ascii
  | checkOnly
  | verbose
  | debug
deriving DecidableEq, Repr

namespace Flag

/-- Every option, in the order in which they are listed. -/
def all : List Flag := [.help, .file, .random, .seed, .ascii, .checkOnly, .verbose, .debug]

/-- The name after a double dash, dashes included. -/
def longName : Flag → String
  | .help => "--help"
  | .file => "--file"
  | .random => "--random"
  | .seed => "--seed"
  | .ascii => "--ascii"
  | .checkOnly => "--check-only"
  | .verbose => "--verbose"
  | .debug => "--debug"

/-- The letter after a single dash, if there is one. -/
def letter? : Flag → Option Char
  | .help => some 'h'
  | .file => some 'f'
  | .verbose => some 'v'
  | _ => none

/-- Whether the option takes a value. -/
def takesValue : Flag → Bool
  | .file | .seed => true
  | _ => false

/-- The option under all its names. -/
def title (f : Flag) : String :=
  match f.letter? with
  | some c => "-" ++ String.singleton c ++ "/" ++ f.longName
  | none => f.longName

/-- The option with the given letter. -/
def ofLetter? (c : Char) : Option Flag := all.find? fun f => f.letter? = some c

/-- The option with the given name. -/
def ofName? (name : List Char) : Option Flag :=
  match name with
  | ['-', c] => ofLetter? c
  | _ => all.find? fun f => f.longName.toList = name

/-- The options whose long names begin with the given characters. -/
def beginningWith (start : List Char) : List Flag :=
  all.filter fun f => start.isPrefixOf f.longName.toList

end Flag

/-- Why a command line is refused. -/
inductive UsageError where
  | unrecognized (args : List String)
  | ambiguous (arg : String) (candidates : List Flag)
  | noInteger (f : Flag) (value : String)
  | noValue (f : Flag)
  | unwantedValue (f : Flag) (value : String)
deriving DecidableEq, Repr

/-- The cause in words. -/
def UsageError.message : UsageError → String
  | .unrecognized args => "unrecognized arguments: " ++ " ".intercalate args
  | .ambiguous arg candidates =>
      "ambiguous option: " ++ arg ++ " could match " ++
        Text.commaSeparated (candidates.map Flag.longName)
  | .noInteger f value => "argument " ++ f.title ++ ": invalid int value: " ++ Text.quote value
  | .noValue f => "argument " ++ f.title ++ ": expected one argument"
  | .unwantedValue f value =>
      "argument " ++ f.title ++ ": ignored explicit argument " ++ Text.quote value

/-- Why the reading of a command line stops before its end. -/
inductive Stop where
  /-- Help was asked for. -/
  | help
  | refused (e : UsageError)
deriving DecidableEq, Repr

/-- The value of an option.  An attached double dash is no value, and leaves
    the option without one. -/
abbrev Value (α : Type) := Option α

/-- What a command line asks for. -/
structure Options where
  formula : Option String := none
  file : Option (Value String) := none
  random : Bool := false
  seed : Option (Value Int) := none
  ascii : Bool := false
  checkOnly : Bool := false
  verbose : Bool := false
  debug : Bool := false
deriving DecidableEq, Repr

/-! ## Classifying the arguments -/

/-- An argument by its looks. -/
inductive Word where
  /-- The double dash after which nothing is an option. -/
  | separator
  /-- No option. -/
  | plain (text : String)
  /-- An option that does not exist. -/
  | unknown (text : String)
  /-- An option by one of its names, with what is attached to it. -/
  | option (f : Flag) (isLong : Bool) (attached : Option (List Char))
deriving DecidableEq, Repr

/-- Whether the characters are one or more digits. -/
def areDigits (cs : List Char) : Bool := !cs.isEmpty && cs.all fun c => (Text.digit? c).isSome

/-- Whether an argument is a negative number: a dash and digits, perhaps
    with a point in front of or among them, perhaps with a line feed at the
    end. -/
def isNegativeNumber (cs : List Char) : Bool :=
  match if cs.getLast? = some '\n' then cs.dropLast else cs with
  | '-' :: ds =>
      areDigits ds ||
        match ds.span fun c => (Text.digit? c).isSome with
        | (_, '.' :: fraction) => areDigits fraction
        | _ => false
  | _ => false

/-- An argument that has the looks of an option but names none. -/
def classifyUnknown (arg : String) : Word :=
  if isNegativeNumber arg.toList || ' ' ∈ arg.toList then .plain arg else .unknown arg

/-- A long option that may be shortened, with the value after the equals
    sign. -/
def classifyLong (arg : String) (name : List Char) (attached : Option (List Char)) :
    Except UsageError Word :=
  match Flag.beginningWith name with
  | [] => .ok (classifyUnknown arg)
  | [f] => .ok (.option f true attached)
  | fs => .error (.ambiguous arg fs)

/-- Classifies an argument that is not the double dash. -/
def classify (arg : String) : Except UsageError Word :=
  let cs := arg.toList
  let name := cs.takeWhile (· ≠ '=')
  let attached := if '=' ∈ cs then some (cs.drop (name.length + 1)) else none
  match cs with
  | '-' :: '-' :: _ =>
      match Flag.ofName? cs, Flag.ofName? name with
      | some f, _ => .ok (.option f true none)
      | none, some f => .ok (.option f true attached)
      | none, none => classifyLong arg name attached
  | ['-'] => .ok (.plain arg)
  | '-' :: c :: rest =>
      match Flag.ofLetter? c with
      | none => .ok (classifyUnknown arg)
      | some f =>
          .ok (.option f false
            (if rest = [] then none
              else if rest.head? = some '=' then attached
              else some rest))
  | _ => .ok (.plain arg)

/-- Classifies all arguments. -/
def classifyAll : List String → Except UsageError (List Word)
  | [] => .ok []
  | arg :: args =>
      if arg = "--" then .ok (.separator :: args.map .plain)
      else do
        let w ← classify arg
        return w :: (← classifyAll args)

/-! ## Taking the options in turn -/

/-- What an option amounts to once the options joined to it are apart: any
    number of switches, and then perhaps an option with a value. -/
structure Joined where
  switches : List Flag
  /-- The option with a value, and what is attached to it. -/
  valued : Option (Flag × Option String)
deriving DecidableEq, Repr

namespace Joined

/-- An option by itself. -/
def single (f : Flag) : Joined :=
  if f.takesValue then ⟨[], some (f, none)⟩ else ⟨[f], none⟩

/-- An option with what is attached to it. -/
def withValue (f : Flag) (value : List Char) : Joined :=
  ⟨[], some (f, some (String.ofList value))⟩

/-- Takes apart what is attached to a short option: the value of an option
    that takes one, and more short options otherwise. -/
def ofShort (f : Flag) (value : List Char) : Except UsageError Joined :=
  if f.takesValue then .ok (withValue f value)
  else
    match value with
    | [] => .error (.unwantedValue f "")
    | c :: cs =>
        match Flag.ofLetter? c with
        | none => .error (.unwantedValue f (String.ofList (c :: cs)))
        | some g => do
            let j ← if cs = [] then .ok (single g) else ofShort g cs
            return { j with switches := f :: j.switches }

/-- Takes apart an option with what is attached to it. -/
def ofOption (f : Flag) (isLong : Bool) : Option (List Char) → Except UsageError Joined
  | none => .ok (single f)
  | some value =>
      if !isLong then ofShort f value
      else if f.takesValue then .ok (withValue f value)
      else .error (.unwantedValue f (String.ofList value))

end Joined

namespace Options

/-- Turns a switch on. -/
def switchOn (o : Options) : Flag → Except Stop Options
  | .help => .error .help
  | .random => .ok { o with random := true }
  | .ascii => .ok { o with ascii := true }
  | .checkOnly => .ok { o with checkOnly := true }
  | .verbose => .ok { o with verbose := true }
  | .debug => .ok { o with debug := true }
  | .file | .seed => .ok o

/-- Turns switches on, one after another. -/
def switchAllOn (o : Options) (fs : List Flag) : Except Stop Options := fs.foldlM switchOn o

/-- Sets the value of an option. -/
def setValue (o : Options) (f : Flag) (value : Value String) : Except Stop Options :=
  match f, value with
  | .file, value => .ok { o with file := some value }
  | .seed, none => .ok { o with seed := some none }
  | .seed, some text =>
      match Text.integer? text with
      | some n => .ok { o with seed := some (some n) }
      | none => .error (.refused (.noInteger .seed text))
  | _, _ => .ok o

/-- Sets the value of an option to what is attached to it. -/
def setAttached (o : Options) (f : Flag) (text : String) : Except Stop Options :=
  o.setValue f (if text = "--" then none else some text)

end Options

/-- How far the reading of a command line has come. -/
structure Progress where
  options : Options := {}
  /-- Whether the place of the formula has been taken. -/
  placeTaken : Bool := false
  /-- Arguments left over, the last one first. -/
  leftOver : List String := []
deriving DecidableEq, Repr

/-- Leaves over an argument. -/
def Progress.leave (p : Progress) (arg : String) : Progress :=
  { p with leftOver := arg :: p.leftOver }

/-- Takes the words in turn.  The place of the formula is taken by the first
    words that are no options: a word, a separator, or a word with a
    separator on either side. -/
def take (p : Progress) : List Word → Except Stop Progress
  | [] => .ok p
  | .option f isLong attached :: ws => do
      let joined ← (Joined.ofOption f isLong attached).mapError .refused
      match joined.valued, ws with
      | none, ws => take { p with options := (← p.options.switchAllOn joined.switches) } ws
      | some (g, some text), ws =>
          let o ← p.options.switchAllOn joined.switches
          take { p with options := (← o.setAttached g text) } ws
      | some (g, none), .plain text :: ws =>
          let o ← p.options.switchAllOn joined.switches
          take { p with options := (← o.setValue g (some text)) } ws
      | some (g, none), _ => .error (.refused (.noValue g))
  | .unknown text :: ws => take (p.leave text) ws
  | .separator :: ws =>
      if p.placeTaken then take (p.leave "--") ws
      else
        match ws with
        | .plain text :: ws =>
            take { p with placeTaken := true, options.formula := some text } ws
        | ws => take { p with placeTaken := true } ws
  | .plain text :: ws =>
      if p.placeTaken then take (p.leave text) ws
      else
        let q := { p with placeTaken := true, options.formula := some text }
        match ws with
        | .separator :: ws => take q ws
        | ws => take q ws

/-- Reads a command line. -/
def Options.ofArguments (args : List String) : Except Stop Options := do
  let words ← (classifyAll args).mapError .refused
  let p ← take {} words
  if p.leftOver = [] then .ok p.options
  else .error (.refused (.unrecognized p.leftOver.reverse))

end TruthTables.Command
