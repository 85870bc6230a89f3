import NodeDecl.Data.Separated
import NodeDecl.Data.Yaml.Scalar
import NodeDecl.Data.Yaml.Schema

/-! # Reading YAML

A node is a scalar, a sequence or a mapping, in a block that is told by its indentation or in
brackets. Before a node can stand a name for it and a tag. A text holds one document. The depth
of recursion is bounded by the length of the text.
-/

namespace NodeDecl.Data.Yaml

/-- A name for a node, and its tag. -/
structure Properties where
  name? : Option String := none
  tag? : Option String := none

def isNameChar (c : Char) : Bool := c.isAlphanum || c == '_' || c == '-'

def isTagChar (c : Char) : Bool := isNameChar c || ";/?:@&=+$,.!~*'()[]%<>".toList.contains c

/-- Whether a name is over. -/
def isNameOver (cs : List Char) : Bool := isOver cs || cs.head?.any "?:,]\x7d%@\x60".toList.contains

/-- Reads a name with its sign. -/
def readName (cs : List Char) : Option (String × List Char) :=
  let name := cs.takeWhile isNameChar
  let rest := cs.drop name.length
  if name ≠ [] ∧ isNameOver rest then some (.ofList name, rest) else none

/-- Reads a tag after its sign. -/
def readTag (cs : List Char) : Option (String × List Char) :=
  let tag := cs.takeWhile isTagChar
  let rest := cs.drop tag.length
  if tag ≠ ['!'] ∧ isOver rest then some (.ofList ('!' :: tag), rest) else none

/-- Reads a name for the node, or a tag, with its sign. -/
def readProperty (old : Properties) : List Char → Option (Properties × List Char)
  | '&' :: rest =>
    if old.name?.isSome then none
    else (readName rest).map fun q => ({ old with name? := some q.1 }, q.2)
  | '!' :: rest =>
    if old.tag?.isSome then none
    else (readTag rest).map fun q => ({ old with tag? := some q.1 }, q.2)
  | _ => none

/-- Keeps a value under its name. -/
def named (f : Properties) (v : Value) (p : Place) : Value × Place :=
  match f.name? with
  | some name => (v, { p with named := (name, v) :: p.named })
  | none => (v, p)

/-- The value of a node that has properties only. -/
def emptyValue? (f : Properties) : Option Value :=
  if f.name?.isNone ∧ f.tag?.isNone then some .nothing else scalarValue? f.tag? []

/-- Reads the name of a node that came before. -/
def readAlias (p : Place) (cs : List Char) : Option (Value × Place) := do
  let (name, rest) ← readName cs
  let v ← p.named.lookup name
  return (v, p.goTo rest)

/-- The marks that no scalar without quotes begins with. -/
def isReserved (c : Char) : Bool :=
  "%@\x60#\t&*!".toList.contains c || isFlowMark c

/-- Whether a scalar without quotes can begin here. -/
def beginsPlain : List Char → Bool
  | [] => false
  | c :: rest => !isReserved c && !((c == '-' || c == '?' || c == ':') && isOver rest)

/-- Whether a key without quotes can begin here; a block of text is no key. -/
def beginsKey (cs : List Char) : Bool := beginsPlain cs && !cs.head?.any "|>".toList.contains

/-- Reads the key of an entry and its colon, all on one line. -/
def readKey (p : Place) : Option (String × Place) :=
  let rec go (steps : Nat) (f : Properties) (cs : List Char) : Option (Value × Place) :=
    match steps, cs with
    | _, '"' :: rest => (readQuoted '"' (.blanks []) rest).map fun q =>
        named f (.text (.ofList q.1)) (p.goTo q.2)
    | _, '\'' :: rest => (readQuoted '\'' (.blanks []) rest).map fun q =>
        named f (.text (.ofList q.1)) (p.goTo q.2)
    | _, '*' :: rest => readAlias p rest
    | steps + 1, cs => match readProperty f cs with
      | some (f, rest) => go steps f (rest.dropWhile isSpace)
      | none =>
        if beginsKey cs then
          let (text, rest) := readPlainLine false [] cs
          (scalarValue? f.tag? text).map fun v => named f v (p.goTo rest)
        else none
    | 0, _ => none
  match go 3 {} p.rest with
  | none => none
  | some (v, after) =>
    let line := p.rest.take (p.rest.length - after.rest.length)
    match after.rest.dropWhile isSpace with
    | ':' :: rest =>
      if isOver rest ∧ !line.any isBreak then (keyName? v).map fun name => (name, after.goTo rest)
      else none
    | _ => none

mutual

/-- Reads a node inside of what is indented by `indent`. A block may begin only where a line does,
or after the mark of an entry. -/
def readNode : Nat → Int → Bool → Properties → Place → Option (Value × Place)
  | 0, _, _, _, _ => none
  | fuel + 1, indent, mayBlock, f, p =>
    if mayBlock ∧ indent < p.column then
      if p.isEntry '-' then (readSequence fuel p.column p).map fun q => named f (.list q.1) q.2
      else if p.isEntry '?' then none
      else match readKey p with
        | some (key, after) => (readMapping fuel p.column key after).map fun q =>
            named f (.record (lastOfEach q.1)) q.2
        | none => readContent fuel indent mayBlock f p
    else readContent fuel indent mayBlock f p

/-- Reads a node after its properties. -/
def readContent : Nat → Int → Bool → Properties → Place → Option (Value × Place)
  | 0, _, _, _, _ => none
  | fuel + 1, indent, mayBlock, f, p =>
    let quoted (quote : Char) (rest : List Char) :=
      (readQuoted quote (.blanks []) rest).map fun q =>
        named f (.text (.ofList q.1)) (p.goTo q.2)
    let block (folded : Bool) (rest : List Char) :=
      (readBlock folded indent (p.goTo rest)).map fun q => named f (.text (.ofList q.1)) q.2
    match p.rest with
    | '"' :: rest => quoted '"' rest
    | '\'' :: rest => quoted '\'' rest
    | '|' :: rest => block false rest
    | '>' :: rest => block true rest
    | '*' :: rest => readAlias p rest
    | '[' :: rest => (readFlowList fuel (p.goTo rest).flowGap).map fun q =>
        named f (.list q.1) q.2
    | '\x7b' :: rest => (readFlowRecord fuel (p.goTo rest).flowGap).map fun q =>
        named f (.record (lastOfEach q.1)) q.2
    | cs => match readProperty f cs with
      | some (f, rest) =>
        let (next, crossed) := (p.goTo rest).blockGap true
        if next.isEnd ∨ (crossed ∧ next.column ≤ indent) then
          (emptyValue? f).map fun v => named f v next
        else if crossed then readNode fuel indent true f next
        else readContent fuel indent mayBlock f next
      | none =>
        if beginsPlain cs then match readPlain false (indent + 1).toNat p with
          | none => none
          | some (text, after) => (scalarValue? f.tag? text).map fun v => named f v after
        else none

/-- Reads the entries of a sequence at a column, the first of which begins here. -/
def readSequence : Nat → Nat → Place → Option (List Value × Place)
  | 0, _, _ => none
  | fuel + 1, column, p =>
    let (next, crossed) := (p.goTo (p.rest.drop 1)).blockGap false
    let first := if next.isEnd ∨ (crossed ∧ next.column ≤ column) then some (.nothing, next)
      else readNode fuel column true {} next
    match first with
    | none => none
    | some (v, after) =>
      let (next, _) := after.blockGap true
      if !next.isEnd ∧ next.column = column ∧ next.isEntry '-' then
        (readSequence fuel column next).map fun q => (v :: q.1, q.2)
      else some ([v], next)

/-- Reads the entries of a mapping at a column, after the colon of the first key. -/
def readMapping : Nat → Nat → String → Place → Option (List (String × Value) × Place)
  | 0, _, _, _ => none
  | fuel + 1, column, key, p =>
    let (next, crossed) := p.blockGap true
    let value :=
      if next.isEnd then some (.nothing, next)
      else if !crossed then readNode fuel column false {} next
      else if column < next.column then readNode fuel column true {} next
      else if next.column = column ∧ next.isEntry '-' then
        (readSequence fuel column next).map fun q => (.list q.1, q.2)
      else some (.nothing, next)
    match value with
    | none => none
    | some (v, after) =>
      let (next, _) := after.blockGap true
      if !next.isEnd ∧ next.column = column then match readKey next with
        | some (other, after) => (readMapping fuel column other after).map fun q =>
            ((key, v) :: q.1, q.2)
        | none => some ([(key, v)], next)
      else some ([(key, v)], next)

/-- Reads a node between brackets. Where a mark of the brackets stands there is nothing. -/
def readFlowNode : Nat → Properties → Place → Option (Value × Place)
  | 0, _, _ => none
  | fuel + 1, f, p => match p.rest with
    | [] => none
    | '"' :: rest => (readQuoted '"' (.blanks []) rest).map fun q =>
        named f (.text (.ofList q.1)) (p.goTo q.2)
    | '\'' :: rest => (readQuoted '\'' (.blanks []) rest).map fun q =>
        named f (.text (.ofList q.1)) (p.goTo q.2)
    | '*' :: rest => readAlias p rest
    | '[' :: rest => (readFlowList fuel (p.goTo rest).flowGap).map fun q =>
        named f (.list q.1) q.2
    | '\x7b' :: rest => (readFlowRecord fuel (p.goTo rest).flowGap).map fun q =>
        named f (.record (lastOfEach q.1)) q.2
    | c :: rest => match readProperty f (c :: rest) with
      | some (f, rest) => readFlowNode fuel f (p.goTo rest).flowGap
      | none =>
        if c = ',' ∨ c = ']' ∨ c = '\x7d' ∨ (c = ':' ∧ isOver rest) then
          (emptyValue? f).map fun v => named f v p
        else if beginsPlain (c :: rest) then match readPlain true 0 p with
          | none => none
          | some (text, after) => (scalarValue? f.tag? text).map fun v => named f v after
        else none

/-- Reads a node between brackets, and a value after a colon if there is one. The colon is on the
same line as what stands before it; after quotes or brackets no blank need follow it. -/
def readFlowPair : Nat → Place → Option (Value × Option Value × Place)
  | 0, _ => none
  | fuel + 1, p => match readFlowNode fuel {} p with
    | none => none
    | some (k, after) =>
      let next := after.flowGap
      let line := p.rest.take (p.rest.length - next.rest.length)
      let closed := line.getLast?.any "\"']\x7d".toList.contains
      match next.rest with
      | ':' :: rest =>
        if !line.any isBreak ∧ (isOver rest ∨ rest.head?.any isFlowMark ∨ closed) then
          (readFlowNode fuel {} (next.goTo rest).flowGap).map fun q =>
            (k, some q.1, q.2.flowGap)
        else none
      | _ => some (k, none, next)

/-- Reads the items of a sequence in brackets, after a gap. -/
def readFlowList : Nat → Place → Option (List Value × Place)
  | 0, _ => none
  | fuel + 1, p => match p.rest with
    | ']' :: rest => some ([], p.goTo rest)
    | ',' :: _ => none
    | _ => match readFlowPair fuel p with
      | none => none
      | some (k, v?, next) =>
        let item? := match v? with
          | none => some k
          | some v => (keyName? k).map fun name => .record [(name, v)]
        match item?, next.rest with
        | some item, ']' :: rest => some ([item], next.goTo rest)
        | some item, ',' :: rest => (readFlowList fuel (next.goTo rest).flowGap).map fun q =>
            (item :: q.1, q.2)
        | _, _ => none

/-- Reads the entries of a mapping in brackets, after a gap. -/
def readFlowRecord : Nat → Place → Option (List (String × Value) × Place)
  | 0, _ => none
  | fuel + 1, p => match p.rest with
    | '\x7d' :: rest => some ([], p.goTo rest)
    | ',' :: _ => none
    | _ => match readFlowPair fuel p with
      | none => none
      | some (k, v?, next) => match keyName? k, next.rest with
        | some name, '\x7d' :: rest => some ([(name, v?.getD .nothing)], next.goTo rest)
        | some name, ',' :: rest => (readFlowRecord fuel (next.goTo rest).flowGap).map fun q =>
            ((name, v?.getD .nothing) :: q.1, q.2)
        | _, _ => none

end

/-- Whether nothing but blanks, comments and an end mark is left. -/
def isFinished (p : Place) : Bool :=
  let (next, _) := p.blockGap true
  match next.rest with
  | [] => true
  | '.' :: rest =>
    next.isEnd && ((next.goTo (rest.drop 2)).blockGap true).1.rest.isEmpty
  | _ => false

/-- Skips the directives before a document. -/
def skipDirectives : Nat → Place → Option Place
  | 0, _ => none
  | steps + 1, p => match p.rest with
    | '%' :: rest =>
      let next := (p.goTo (rest.dropWhile fun c => !isBreak c)).blockGap true
      let isName := rest.head?.any isNameChar ∧ isOver (rest.dropWhile isNameChar)
      if isName ∧ (next.1.rest.head? = some '%' ∨ next.1.isEnd) then skipDirectives steps next.1
      else none
    | _ => some p

/-- The value that a text writes; without a document it is an empty record. -/
def read? (cs : List Char) : Option Value :=
  let fuel := 8 * cs.length + 16
  let start := ((⟨cs, 0, []⟩ : Place).blockGap false).1
  match skipDirectives fuel start with
  | none => none
  | some p =>
    if p.rest = [] then some (.record [])
    else
      let (root, crossed) :=
        if p.isEnd ∧ p.rest.head? = some '-' then (p.goTo (p.rest.drop 3)).blockGap true
        else (p, true)
      let read := if root.isEnd then some (.nothing, root) else readNode fuel (-1) crossed {} root
      match read with
      | some (v, after) => if isFinished after then some v else none
      | none => none

end NodeDecl.Data.Yaml
