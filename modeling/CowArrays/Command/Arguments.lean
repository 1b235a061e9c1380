import CowArrays.Decimal.Literal
import CowArrays.Text.Index

/-!
Arguments of the command line: the name of the input file, and options before or behind it. They
are taken one after the other, and the first that cannot be used decides.
-/

namespace CowArrays.Command

structure Options where
  input : Option String := none
  threshold : Option (Scalar .double) := none
  rows : Option Nat := none
  cols : Option Nat := none
  parallel : Bool := false
  json : Bool := false
  deriving DecidableEq

/-- Why there are no options: help or the version is wanted, or an argument cannot be used. -/
inductive Stop
  | help
  | version
  | badUsage
  deriving DecidableEq

inductive Valued
  | threshold
  | rows
  | cols

/-- Sets an option that must not have been set before. -/
def Options.set (o : Options) (option : Valued) (text : List Char) : Except Stop Options :=
  match option with
  | .threshold =>
    match o.threshold, Literal.read text with
    | none, some l => .ok { o with threshold := some (.ofLiteral l) }
    | _, _ => .error .badUsage
  | .rows =>
    match o.rows, readIndex text with
    | none, .ok n => .ok { o with rows := some n }
    | _, _ => .error .badUsage
  | .cols =>
    match o.cols, readIndex text with
    | none, .ok n => .ok { o with cols := some n }
    | _, _ => .error .badUsage

/-- An argument by its form. -/
inductive Form
  /-- An option whose value is the next argument. -/
  | wantsValue (option : Valued)
  | withValue (option : Valued) (text : List Char)
  | parallel
  | json
  | help
  | version
  /-- Two dashes: what follows is no option. -/
  | endOfOptions
  | input
  | unknown

def valued? (name : List Char) : Option Valued :=
  if name = "threshold".toList then some .threshold
  else if name = "rows".toList then some .rows
  else if name = "cols".toList then some .cols
  else none

/-- The form of an argument behind two dashes; a value may follow an equals sign. -/
def longForm (body : List Char) : Form :=
  let name := body.takeWhile (· != '=')
  match valued? name, body.dropWhile (· != '=') with
  | some option, [] => .wantsValue option
  | some option, _ :: value => .withValue option value
  | none, _ =>
    if body = [] then .endOfOptions
    else if body = "parallel".toList then .parallel
    else if body = "json".toList then .json
    else if body = "help".toList then .help
    else if body = "version".toList then .version
    else .unknown

def formOf (arg : List Char) : Form :=
  match arg with
  | '-' :: '-' :: body => longForm body
  | ['-', 't'] => .wantsValue .threshold
  | '-' :: 't' :: '=' :: value => .withValue .threshold value
  | '-' :: 't' :: value => .withValue .threshold value
  | '-' :: 'h' :: _ => .help
  | '-' :: 'V' :: _ => .version
  | '-' :: _ :: _ => .unknown
  | _ => .input

/-- Whether an argument can be the value of the option before it. -/
def isValue (arg : List Char) : Bool :=
  match arg with
  | '-' :: _ :: _ => false
  | _ => true

def Options.setInput (o : Options) (arg : List Char) : Except Stop Options :=
  if o.input.isSome then .error .badUsage else .ok { o with input := some (.ofList arg) }

def takeArguments (o : Options) : List (List Char) → Except Stop Options
  | [] => .ok o
  | arg :: rest =>
    match formOf arg with
    | .wantsValue option =>
      match rest with
      | [] => .error .badUsage
      | value :: rest =>
        if isValue value then do
          let o ← o.set option value
          takeArguments o rest
        else .error .badUsage
    | .withValue option text => do
      let o ← o.set option text
      takeArguments o rest
    | .parallel =>
      if o.parallel then .error .badUsage else takeArguments { o with parallel := true } rest
    | .json => if o.json then .error .badUsage else takeArguments { o with json := true } rest
    | .help => .error .help
    | .version => .error .version
    | .endOfOptions => rest.foldlM Options.setInput o
    | .input => do
      let o ← o.setInput arg
      takeArguments o rest
    | .unknown => .error .badUsage

def parseArguments (args : List String) : Except Stop (String × Options) := do
  let o ← takeArguments {} (args.map String.toList)
  match o.input with
  | some input => return (input, o)
  | none => throw .badUsage

end CowArrays.Command
