/-! # White space

The characters that trimming removes are those of the Unicode property `White_Space`: the
information separators, the zero width space and the byte order mark are not among them.
-/

namespace NodeDecl.Text

/-- Unicode `White_Space`. -/
def isBlank (c : Char) : Bool :=
  let n := c.toNat
  (9 ≤ n && n ≤ 13) || n == 0x20 || n == 0x85 || n == 0xA0 || n == 0x1680 ||
    (0x2000 ≤ n && n ≤ 0x200A) || n == 0x2028 || n == 0x2029 || n == 0x202F ||
    n == 0x205F || n == 0x3000

def trimStart (s : List Char) : List Char := s.dropWhile isBlank

def trimEnd (s : List Char) : List Char := (s.reverse.dropWhile isBlank).reverse

/-- The text without the white space at its two ends. -/
def trim (s : List Char) : List Char := trimEnd (trimStart s)

/-- The text without any white space. -/
def withoutBlanks (s : List Char) : List Char := s.filter fun c => !isBlank c

end NodeDecl.Text
