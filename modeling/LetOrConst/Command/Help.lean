/-
What the command says about itself.
-/
namespace LetOrConst.Command

/-- The name of the command. -/
def commandName : String := "code-analyzer"

/-- Lines as text, each with its end. -/
def joinLines (lines : List String) : String := String.join (lines.map (· ++ "\n"))

/-- The short form, which also precedes complaints. -/
def usage : String := joinLines [
  "usage: code-analyzer [-h] [--resolution \x7bname,scope\x7d] [--format \x7btext,json\x7d]",
  "                     [--verbose]",
  "                     [path]"]

/-- The long form. -/
def help : String := usage ++ joinLines [
  "",
  "Suggest 'let' or 'const' for 'var' declarations in a JavaScript file",
  "",
  "positional arguments:",
  "  path                  JavaScript file to analyze, or '-' for stdin (default)",
  "",
  "options:",
  "  -h, --help            show this help message and exit",
  "  --resolution \x7bname,scope\x7d",
  "                        How assignments are matched to declarations (default:",
  "                        name)",
  "  --format \x7btext,json\x7d  Output format (default: text)",
  "  --verbose, -v         Enable debug logging",
  "",
  "Examples:",
  "  # Analyze a file",
  "  code-analyzer src/app.js",
  "",
  "  # Read the document from stdin",
  "  cat src/app.js | code-analyzer -",
  "",
  "  # Resolve assignments through scopes and emit JSON",
  "  code-analyzer --resolution scope --format json src/app.js",
  "        "]

end LetOrConst.Command
