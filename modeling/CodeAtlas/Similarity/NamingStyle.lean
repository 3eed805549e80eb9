/-! Naming conventions. A name follows the first convention that admits all of it; a newline at its end
does not count. -/

namespace CodeAtlas

/-- A way of writing names. -/
inductive NamingStyle where
  | pascal
  | camel
  | snake
  | constant
  | kebab
  | mixed
  deriving DecidableEq

namespace NamingStyle

def name : NamingStyle → String
  | pascal => "PascalCase"
  | camel => "camelCase"
  | snake => "snake_case"
  | constant => "CONSTANT_CASE"
  | kebab => "kebab-case"
  | mixed => "mixed"

def isUpper (c : Char) : Bool := 'A' ≤ c && c ≤ 'Z'

def isLower (c : Char) : Bool := 'a' ≤ c && c ≤ 'z'

def isDigit (c : Char) : Bool := '0' ≤ c && c ≤ '9'

/-- What the first character of a name in this style may be; nothing is asked of a mixed name. -/
def starts : NamingStyle → Char → Bool
  | pascal | constant => isUpper
  | camel | snake | kebab => isLower
  | mixed => fun _ => true

/-- What the further characters of a name in this style may be. -/
def goesOn : NamingStyle → Char → Bool
  | pascal | camel => fun c => isUpper c || isLower c || isDigit c
  | snake => fun c => isLower c || isDigit c || c == '_'
  | constant => fun c => isUpper c || isDigit c || c == '_'
  | kebab => fun c => isLower c || isDigit c || c == '-'
  | mixed => fun _ => true

def admits (style : NamingStyle) : List Char → Bool
  | [] => style = mixed
  | c :: rest => style.starts c && rest.all style.goesOn

def dropFinalNewline (s : List Char) : List Char :=
  if s.getLast? = some '\n' then s.dropLast else s

def of (s : String) : NamingStyle :=
  let cs := dropFinalNewline s.toList
  ([pascal, camel, snake, constant, kebab].find? (·.admits cs)).getD mixed

end NamingStyle

end CodeAtlas
