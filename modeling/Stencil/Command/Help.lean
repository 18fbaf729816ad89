set_option autoImplicit false

namespace Stencil.Command

def usageText : String := "Usage: templar [OPTIONS] <TEMPLATE>"

def helpLine (option purpose : String) : String :=
  "  " ++ option ++ String.ofList (List.replicate (24 - option.length) ' ') ++ purpose ++ "\n"

def helpText : String :=
  "Render a templar template\n\n" ++ usageText ++ "\n\n" ++
  "Arguments:\n  <TEMPLATE>  Template file to render\n\n" ++
  "Options:\n" ++
  helpLine "    --var <NAME=VALUE>"
    "Context variable as NAME=VALUE; VALUE is read as JSON when it parses, otherwise as a string" ++
  helpLine "    --vars <FILE>" "JSON file holding an object of context variables" ++
  helpLine "    --config <CONFIG>" "JSON file with engine options" ++
  helpLine "    --strict" "Fail on names that do not resolve" ++
  helpLine "    --stable" "Re-render the output until no markers remain" ++
  helpLine "-o, --output <OUTPUT>" "Write the result here instead of stdout" ++
  helpLine "-h, --help" "Print help"

end Stencil.Command
