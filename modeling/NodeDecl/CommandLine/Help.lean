import NodeDecl.Text.Split

/-! # What the program says about itself -/

namespace NodeDecl.CommandLine
open Text

def versionText : String := unlines ["astgen 0.1.0"]

def usageLine : String := "Usage: astgen [OPTIONS] <OUTPUT_DIR>"

def usageText : String := unlines [usageLine]

def helpText : String := unlines
  ["Generate AST node declarations from a grammar table",
   "",
   usageLine,
   "",
   "Arguments:",
   "  <OUTPUT_DIR>  Directory the declaration file is written to",
   "",
   "Options:",
   "  -c, --config <CONFIG>  Grammar configuration file (TOML)",
   "  -t, --target <TARGET>  Target language, overriding the configuration " ++
     "[possible values: zig, rust]",
   "      --check            Compare against the existing file instead of writing",
   "      --print-config     Print the effective configuration and exit",
   "  -h, --help             Print help",
   "  -V, --version          Print version"]

end NodeDecl.CommandLine
