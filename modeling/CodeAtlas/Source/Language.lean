import CodeAtlas.Text.Case

/-! What the ending of a file name says about the file: its language and its type. -/

namespace CodeAtlas

inductive FileType where
  | code
  | documentation
  | configuration
  | markup
  | unknown
  deriving DecidableEq

def FileType.name : FileType → String
  | code => "code"
  | documentation => "documentation"
  | configuration => "configuration"
  | markup => "markup"
  | unknown => "unknown"

/-- The language of a file with a lower-case ending. -/
def languageOfLowered (suffix : String) : String :=
  if [".js", ".jsx", ".mjs", ".cjs"].contains suffix then "javascript"
  else if [".ts", ".tsx"].contains suffix then "typescript"
  else if suffix = ".py" then "python"
  else if suffix = ".json" then "json"
  else if suffix = ".md" then "markdown"
  else "text"

def languageOf (suffix : String) : String := languageOfLowered (Text.lowerText suffix)

/-- The type of a file with a lower-case ending. -/
def fileTypeOf (suffix : String) : FileType :=
  if [".py", ".js", ".ts", ".mjs", ".cjs"].contains suffix then .code
  else if [".jsx", ".tsx", ".vue", ".html"].contains suffix then .markup
  else if [".md", ".txt", ".rst"].contains suffix then .documentation
  else if [".json", ".yaml", ".yml", ".toml"].contains suffix then .configuration
  else .unknown

end CodeAtlas
