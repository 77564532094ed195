import GrammarPage.Command.Arguments

/-!
What the command says about itself.
-/

namespace GrammarPage.Command

def program : String := "grammar2html"

def textOfLines (lines : List String) : String := String.join (lines.map (· ++ "\n"))

def usage : List String :=
  ["usage: grammar2html [-h] [--copy COPY] [-o OUTPUT] [--settings SETTINGS]",
    "                    [--list-productions] [--verbose]",
    "                    authority"]

def help : List String :=
  usage ++
  ["",
    "Check a grammar against the copy extracted from its prose specification and",
    "render it as colorized HTML",
    "",
    "positional arguments:",
    "  authority             Path to the authoritative grammar (JSON interchange",
    "                        file)",
    "",
    "options:",
    "  -h, --help            show this help message and exit",
    "  --copy COPY           Grammar extracted from the specification; must match",
    "                        the authority",
    "  -o OUTPUT, --output OUTPUT",
    "                        Output .html file path (default: stdout)",
    "  --settings SETTINGS   JSON settings file (palette, start symbol, title)",
    "  --list-productions    List all productions in canonical form and exit",
    "  --verbose             Verbose output (structural warnings, progress)"]

def usageError (fault : UsageFault) : List Text :=
  usage.map Text.ofString ++ [program ++ ": error: " ++ fault.message]

end GrammarPage.Command
