import CodeAtlas.Decimal.Numeral

/-! Command line arguments: options with two dashes, which may be shortened as long as they stay
unambiguous and may carry their value after an equals sign, and positional arguments between them.
After a pair of dashes nothing is an option any more. -/

namespace CodeAtlas

/-- What follows an option: nothing, any text, or a whole number. -/
inductive OptionSort where
  | flag
  | text
  | whole
  deriving DecidableEq

def OptionSort.admits : OptionSort → String → Bool
  | flag, _ => false
  | text, _ => true
  | whole, value => (Decimal.readInt? value).isSome

/-- An option: its name with the dashes, and what follows it. -/
structure OptionSpec where
  name : String
  sort : OptionSort

/-- Why the arguments are not acted on. -/
inductive Stop where
  | help
  | refused
  deriving DecidableEq

/-- An argument as it is understood before the positions are assigned. -/
inductive Argument where
  /-- A positional argument or a value. -/
  | plain (text : String)
  /-- The pair of dashes after which all is plain. -/
  | dashes
  | option (spec : OptionSpec) (attached : Option String)
  /-- The request for help, and whether nothing is attached to it that cannot be. -/
  | help (plainly : Bool)
  /-- Something like an option that no option answers to. -/
  | unknown (text : String)

namespace Argument

def isOption : Argument → Bool
  | option .. | help _ | unknown _ => true
  | _ => false

def isDigit (c : Char) : Bool := (Text.digitValue? c).isSome

def isNumber (s : List Char) : Bool :=
  !(s.takeWhile isDigit).isEmpty && ["", "\n"].contains (String.ofList (s.dropWhile isDigit))

/-- An argument that reads like a negative number. -/
def looksNegative (s : List Char) : Bool :=
  match s with
  | '-' :: rest =>
    isNumber rest ||
      (match rest.dropWhile isDigit with
        | '.' :: after => isNumber after
        | _ => false)
  | _ => false

def ofName (spec : Option OptionSpec) (attached : Option String) : Argument :=
  match spec with
  | some spec => option spec attached
  | none => help attached.isNone

def known (specs : List OptionSpec) : List (String × Option OptionSpec) :=
  [("-h", none), ("--help", none)] ++ specs.map fun s => (s.name, some s)

def splitEquals (s : List Char) : String × Option String :=
  match s.span (· ≠ '=') with
  | (name, _ :: value) => (String.ofList name, some (String.ofList value))
  | (name, []) => (String.ofList name, none)

/-- The options that an abbreviated argument may mean. Further letters may follow the short request for
help. -/
def candidates (specs : List OptionSpec) (s : List Char) : List Argument :=
  match s with
  | '-' :: '-' :: _ =>
    let (name, attached) := splitEquals s
    ((known specs).filter fun k => name.toList.isPrefixOf k.1.toList).map fun k =>
      ofName k.2 attached
  | '-' :: 'h' :: rest => [help ((rest.dropWhile (· = 'h')).head? ≠ some '-')]
  | _ => []

/-- Understands one argument before any pair of dashes. -/
def classify (specs : List OptionSpec) (text : String) : Except Stop Argument :=
  let s := text.toList
  match (known specs).lookup text with
  | some spec => .ok (ofName spec none)
  | none =>
    if s.head? ≠ some '-' || s.length = 1 then .ok (plain text)
    else
      let (name, attached) := splitEquals s
      match attached, (known specs).lookup name with
      | some _, some spec => .ok (ofName spec attached)
      | _, _ =>
        match candidates specs s with
        | [a] => .ok a
        | _ :: _ :: _ => .error .refused
        | [] =>
          if looksNegative s || s.contains ' ' then .ok (plain text) else .ok (unknown text)

def classifyAll (specs : List OptionSpec) : List String → Except Stop (List Argument)
  | [] => .ok []
  | "--" :: rest => .ok (dashes :: rest.map plain)
  | text :: rest => return (← classify specs text) :: (← classifyAll specs rest)

end Argument

/-- How the positional arguments of a command are taken: a number of single ones, or one with everything
that follows it. -/
inductive Positionals where
  | singles (count : Nat)
  | command
  deriving DecidableEq

/-- What the arguments say. -/
structure Parsed where
  values : List (String × String) := []
  flags : List String := []
  positionals : List String := []
  /-- What follows a command, as it stands. -/
  rest : List String := []
  unrecognized : Bool := false

namespace Parsed

def value? (p : Parsed) (name : String) : Option String :=
  (p.values.reverse.find? (·.1 = name)).map (·.2)

end Parsed

namespace Arguments

/-- One positional argument at the front, with pairs of dashes before and after it. -/
def single? (args : List (Argument × String)) : Option (String × List (Argument × String)) :=
  let isDashes : Argument × String → Bool := fun a => a.1 matches .dashes
  match args.dropWhile isDashes with
  | (.plain text, _) :: rest => some (text, rest.dropWhile isDashes)
  | _ => none

/-- Takes as many of the wanted positional arguments as stand at the front. -/
def takeSingles : Nat → List (Argument × String) → List String × List (Argument × String)
  | 0, args => ([], args)
  | n + 1, args =>
    match single? args with
    | none => ([], args)
    | some (text, rest) =>
      let (texts, rest) := takeSingles n rest
      (text :: texts, rest)

structure Wanted where
  singles : Nat
  command : Bool

def Wanted.of : Positionals → Wanted
  | .singles n => ⟨n, false⟩
  | .command => ⟨0, true⟩

/-- Takes the positional arguments that stand at the front. A command takes everything after it along;
a pair of dashes before it is taken for its name. -/
def takePositionals (wanted : Wanted) (parsed : Parsed) (args : List (Argument × String)) :
    Wanted × Parsed × List (Argument × String) :=
  if wanted.command then
    match single? args with
    | none => (wanted, parsed, args)
    | some _ =>
      match args with
      | [] => (wanted, parsed, [])
      | a :: rest =>
        ({ wanted with command := false },
          { parsed with positionals := parsed.positionals ++ [a.2], rest := rest.map Prod.snd }, [])
  else
    let (texts, rest) := takeSingles wanted.singles args
    ({ wanted with singles := wanted.singles - texts.length },
      { parsed with positionals := parsed.positionals ++ texts }, rest)

/-- Assigns the arguments from the front on. The first argument bounds the number of steps. -/
def assign : Nat → Wanted → Parsed → List (Argument × String) → Except Stop (Wanted × Parsed)
  | 0, _, _, _ => .error .refused
  | n + 1, wanted, parsed, args =>
    if args.any (·.1.isOption) then
      match args with
      | (.help plainly, _) :: _ => .error (if plainly then .help else .refused)
      | (.unknown _, _) :: rest => assign n wanted { parsed with unrecognized := true } rest
      | (.option spec attached, _) :: rest =>
        match spec.sort, attached, rest with
        | .flag, none, rest =>
          assign n wanted { parsed with flags := parsed.flags ++ [spec.name] } rest
        | sort, some v, rest =>
          if sort.admits v then
            assign n wanted { parsed with values := parsed.values ++ [(spec.name, v)] } rest
          else .error .refused
        | sort, none, (.plain v, _) :: rest =>
          if sort.admits v then
            assign n wanted { parsed with values := parsed.values ++ [(spec.name, v)] } rest
          else .error .refused
        | _, none, _ => .error .refused
      | args =>
        let (wanted', parsed', rest) := takePositionals wanted parsed args
        if rest.length < args.length then assign n wanted' parsed' rest
        else
          assign n wanted { parsed with unrecognized := true } (args.dropWhile (!·.1.isOption))
    else
      let (wanted, parsed, rest) := takePositionals wanted parsed args
      .ok (wanted, { parsed with unrecognized := parsed.unrecognized || !rest.isEmpty })

/-- What the arguments say under the given options and positional arguments, all of which are
required. Arguments that nothing asked for are noted. -/
def parse (specs : List OptionSpec) (positionals : Positionals) (args : List String) :
    Except Stop Parsed := do
  let classified ← Argument.classifyAll specs args
  let (wanted, parsed) ←
    assign (args.length + 1) (Wanted.of positionals) {} (classified.zip args)
  if wanted.command || 0 < wanted.singles then throw .refused else return parsed

end Arguments

end CodeAtlas
