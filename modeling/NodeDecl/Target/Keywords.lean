/-! # Reserved words of the target languages -/

namespace NodeDecl

def zigKeywords : List String :=
  ["addrspace", "align", "allowzero", "and", "anyframe", "anytype", "asm", "async", "await",
   "break", "callconv", "catch", "comptime", "const", "continue", "defer", "else", "enum",
   "errdefer", "error", "export", "extern", "fn", "for", "if", "inline", "linksection",
   "noalias", "noinline", "nosuspend", "opaque", "or", "orelse", "packed", "pub", "resume",
   "return", "struct", "suspend", "switch", "test", "threadlocal", "try", "union",
   "unreachable", "usingnamespace", "var", "volatile", "while"]

/-- Words that Rust does not accept even as raw identifiers. -/
def rustPathKeywords : List String := ["self", "Self", "super", "crate"]

def rustKeywords : List String :=
  ["as", "break", "const", "continue", "else", "enum", "extern", "false", "fn", "for", "if",
   "impl", "in", "let", "loop", "match", "mod", "move", "mut", "pub", "ref", "return",
   "static", "struct", "trait", "true", "type", "unsafe", "use", "where", "while", "async",
   "await", "dyn", "abstract", "become", "box", "do", "final", "macro", "override", "priv",
   "typeof", "unsized", "virtual", "yield", "try"]

end NodeDecl
