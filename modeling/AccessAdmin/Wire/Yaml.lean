import AccessAdmin.Wire.Json
import AccessAdmin.Wire.Reader

/-!
# Reading YAML text

Block lists and maps by their indentation, flow lists and maps, quoted scalars and plain ones,
which may go on over lines, and comments. A text without a document is an empty scalar. Anchors,
tags, block scalars and keys that are not scalars are not read, nor is a second document.

* `Yaml.read?`: the document of a text, or `none` where the text is not well-formed.
-/

namespace AccessAdmin.Wire.Yaml

/-- A place in a text: the column and what follows. -/
structure Place where
  column : Nat
  rest : List Char

namespace Place

/-- The place some characters further on the same line. -/
def after (p : Place) (n : Nat) : Place := ⟨p.column + n, p.rest.drop n⟩

/-- Whether the text ends here. -/
def isEnd (p : Place) : Bool := p.rest.isEmpty

end Place

/-- The single quote. -/
def apostrophe : Char := Char.ofNat 0x27

/-- The double quote. -/
def quoteMark : Char := Char.ofNat 0x22

/-- Whether a character ends a line. -/
def isBreak (c : Char) : Bool := c == '\n' || c == '\r'

/-- Whether a character separates words. -/
def isGap (c : Char) : Bool := c == ' ' || c == '\t' || isBreak c

/-- Whether nothing but a gap or the end follows. -/
def atGap : List Char → Bool
  | [] => true
  | c :: _ => isGap c

/-- What is looked at while blanks are passed over. -/
structure Skipping where
  /-- Whether tabs may stand on this line. -/
  tabs : Bool
  /-- Whether tabs may stand on the lines after it. -/
  tabsLater : Bool
  comment : Bool := false
  /-- Whether a line has ended. -/
  newLine : Bool := false

/-- Passes over blanks, comments and ends of lines; `none` at a tab that may not stand there. -/
def skipFrom : List Char → Nat → Skipping → Option (Bool × Place)
  | [], column, s => some (s.newLine, ⟨column, []⟩)
  | c :: cs, column, s =>
    if isBreak c then
      skipFrom cs 0 { s with tabs := s.tabsLater, comment := false, newLine := true }
    else if s.comment then skipFrom cs (column + 1) s
    else if c = ' ' then skipFrom cs (column + 1) s
    else if c = '\t' then if s.tabs then skipFrom cs (column + 1) s else none
    else if c = '#' then skipFrom cs (column + 1) { s with comment := true }
    else some (s.newLine, ⟨column, c :: cs⟩)

/-- Goes to the next token in a block, where no line is indented with tabs. -/
def skip (tabs : Bool) (p : Place) : Option (Bool × Place) :=
  skipFrom p.rest p.column { tabs := tabs, tabsLater := false }

/-- Goes to the next token in a flow collection. -/
def skipFlow (p : Place) : Option Place :=
  Prod.snd <$> skipFrom p.rest p.column { tabs := true, tabsLater := true }

/-! ## Scalars -/

/-- Whether a character ends a plain scalar in a flow collection. -/
def isFlowMark (c : Char) : Bool := ",[]\x7b\x7d".toList.contains c

/-- Whether a plain scalar can begin here. -/
def beginsPlain (flow : Bool) : List Char → Bool
  | [] => false
  | c :: rest =>
    if c = '-' then !atGap rest
    else if c = '?' ∨ c = ':' then !flow && !atGap rest
    else
      !(",[]\x7b\x7d#&*!|>%@".toList.contains c || c == apostrophe || c == quoteMark ||
        c == Char.ofNat 0x60 || isGap c)

/-- The characters of a plain scalar on this line, with the blanks at its end. -/
def plainOnLine (flow : Bool) : Bool → List Char → List Char
  | _, [] => []
  | afterBlank, c :: cs =>
    if isBreak c || (c == '#' && afterBlank) || (c == ':' && atGap cs) ||
        (flow && isFlowMark c) then []
    else c :: plainOnLine flow (c == ' ' || c == '\t') cs

/-- Characters without the blanks at their end. -/
def dropBlanksAtEnd (cs : List Char) : List Char :=
  (cs.reverse.dropWhile fun c => c == ' ' || c == '\t').reverse

/-- What stands between the lines of a scalar: a blank, or a line break for each empty line. -/
def fold (breaks : Nat) : List Char :=
  if breaks ≤ 1 then [' '] else List.replicate (breaks - 1) '\n'

/-- The first line of a plain scalar, and the place after it. -/
def plainLine (flow : Bool) (p : Place) : List Char × Place :=
  let line := dropBlanksAtEnd (plainOnLine flow false p.rest)
  (line, p.after line.length)

/-- Passes over blanks and ends of lines and counts the latter. -/
def countBreaks : Nat → Nat → List Char → Nat × Place
  | breaks, column, [] => (breaks, ⟨column, []⟩)
  | breaks, column, c :: cs =>
    if c = '\n' then countBreaks (breaks + 1) 0 cs
    else if c = '\r' then countBreaks breaks 0 cs
    else if c = ' ' ∨ c = '\t' then countBreaks breaks (column + 1) cs
    else (breaks, ⟨column, c :: cs⟩)

/-- The lines of a plain scalar after the first, as far as they are indented enough. -/
def plainRest (flow : Bool) (least : Nat) : Nat → Place → List Char × Place
  | 0, p => ([], p)
  | steps + 1, p =>
    let (breaks, next) := countBreaks 0 p.column p.rest
    let goesOn := 0 < breaks && (flow || least ≤ next.column) && !next.isEnd &&
      !(plainOnLine flow true next.rest).isEmpty
    if goesOn then
      let (line, p) := plainLine flow next
      let (more, p) := plainRest flow least steps p
      (fold breaks ++ line ++ more, p)
    else ([], p)

/-- A plain scalar. -/
def plain (flow : Bool) (least : Nat) (p : Place) : Option (String × Place) :=
  if beginsPlain flow p.rest then
    let (line, after) := plainLine flow p
    let (more, after) := plainRest flow least p.rest.length after
    some (String.ofList (line ++ more), after)
  else none

/-- The character of a number written in so many hexadecimal digits. -/
def hexChar? (digits : Nat) (cs : List Char) : Option (Char × Nat) := do
  let ds := cs.take digits
  guard (ds.length = digits)
  let n ← ds.foldlM (fun n c => (n * 16 + ·) <$> Json.Grammar.hexDigit? c) 0
  guard n.isValidChar
  return (Char.ofNat n, digits + 2)

/-- What an escape between double quotes stands for, and how many characters it has. -/
def escape? : List Char → Option (Char × Nat)
  | 'x' :: cs => hexChar? 2 cs
  | 'u' :: cs => hexChar? 4 cs
  | 'U' :: cs => hexChar? 8 cs
  | c :: _ =>
    let table : List (Char × Nat) :=
      [('0', 0), ('a', 7), ('b', 8), ('t', 9), ('\t', 9), ('n', 10), ('v', 11), ('f', 12),
        ('r', 13), ('e', 27), (' ', 32), (quoteMark, 34), ('/', 47), ('\\', 92), ('N', 0x85),
        ('_', 0xA0), ('L', 0x2028), ('P', 0x2029)]
    (table.lookup c).map fun n => (Char.ofNat n, 2)
  | [] => none

/-- The rest of a quoted scalar after its opening quote. -/
def quotedRest (mark : Char) : Nat → List Char → Place → Option (String × Place)
  | 0, _, _ => none
  | steps + 1, acc, p =>
    match p.rest with
    | [] => none
    | c :: cs =>
      if c = mark then
        if mark = apostrophe ∧ cs.head? = some apostrophe then
          quotedRest mark steps (apostrophe :: acc) (p.after 2)
        else some (String.ofList acc.reverse, p.after 1)
      else if c = '\\' ∧ mark = quoteMark then
        match escape? cs with
        | none => none
        | some (e, n) => quotedRest mark steps (e :: acc) (p.after n)
      else if isBreak c then
        let (breaks, next) := countBreaks 0 p.column p.rest
        let acc := acc.dropWhile fun c => c == ' ' || c == '\t'
        quotedRest mark steps ((fold breaks).reverse ++ acc) next
      else quotedRest mark steps (c :: acc) (p.after 1)

/-- A quoted scalar. -/
def quoted (p : Place) : Option (String × Place) :=
  match p.rest with
  | c :: _ =>
    if c = quoteMark ∨ c = apostrophe then quotedRest c (p.rest.length + 1) [] (p.after 1) else none
  | [] => none

/-! ## Flow collections -/

/-- Whether a quoted scalar begins here. -/
def beginsQuoted (p : Place) : Bool :=
  p.rest.head? == some quoteMark || p.rest.head? == some apostrophe

/-- The text of a scalar, which alone can be a key. -/
def keyText? : Json → Option String
  | .plain s => some s
  | .str s => some s
  | _ => none

mutual

/-- A node in a flow collection. -/
def flowNode : Nat → Place → Option (Json × Place)
  | 0, _ => none
  | steps + 1, p =>
    match p.rest with
    | '[' :: _ => do
      let (items, p) ← flowItems steps (← skipFlow (p.after 1))
      return (.arr items, p)
    | '\x7b' :: _ => do
      let (fields, p) ← flowFields steps (← skipFlow (p.after 1))
      return (.obj fields, p)
    | _ =>
      if beginsQuoted p then (fun r => (.str r.1, r.2)) <$> quoted p
      else (fun r => (.plain r.1, r.2)) <$> plain true 0 p

/-- A value after its key: what follows a colon, or nothing. -/
def flowValue : Nat → Place → Option (Json × Place)
  | 0, _ => none
  | steps + 1, p =>
    match p.rest with
    | ':' :: _ => do
      let p ← skipFlow (p.after 1)
      match p.rest with
      | ',' :: _ | '\x7d' :: _ | ']' :: _ => return (.plain "", p)
      | _ => flowNode steps p
    | _ => some (.plain "", p)

/-- The items of a flow list up to its closing bracket; a key with a value is a map of its own. -/
def flowItems : Nat → Place → Option (List Json × Place)
  | 0, _ => none
  | steps + 1, p =>
    match p.rest with
    | ']' :: _ => some ([], p.after 1)
    | _ => do
      let (item, p) ← flowNode steps p
      let p ← skipFlow p
      let (item, p) ← match p.rest with
        | ':' :: _ => do
          let (value, p) ← flowValue steps p
          pure (Json.obj [(← keyText? item, value)], ← skipFlow p)
        | _ => pure (item, p)
      match p.rest with
      | ']' :: _ => return ([item], p.after 1)
      | ',' :: _ => do
        let (more, p) ← flowItems steps (← skipFlow (p.after 1))
        return (item :: more, p)
      | _ => none

/-- The entries of a flow map up to its closing brace. -/
def flowFields : Nat → Place → Option (List (String × Json) × Place)
  | 0, _ => none
  | steps + 1, p =>
    match p.rest with
    | '\x7d' :: _ => some ([], p.after 1)
    | _ => do
      let (key, p) ← flowNode steps p
      let (value, p) ← flowValue steps (← skipFlow p)
      let p ← skipFlow p
      let field := (← keyText? key, value)
      match p.rest with
      | '\x7d' :: _ => return ([field], p.after 1)
      | ',' :: _ => do
        let (more, p) ← flowFields steps (← skipFlow (p.after 1))
        return (field :: more, p)
      | _ => none

end

/-! ## Blocks -/

/-- Whether an item of a block list begins here. -/
def beginsItem (p : Place) : Bool :=
  match p.rest with
  | '-' :: cs => atGap cs
  | _ => false

/-- The key that begins here and the place after its colon, if there is one on this line. -/
def key? (p : Place) : Option (String × Place) := do
  let (text, after) ←
    if beginsQuoted p then quoted p
    else if beginsPlain false p.rest then
      let (line, after) := plainLine false p
      some (String.ofList line, after)
    else none
  let gap := (after.rest.takeWhile fun c => c == ' ' || c == '\t').length
  match (after.after gap).rest with
  | ':' :: cs => if atGap cs then some (text, after.after (gap + 1)) else none
  | _ => none

/-- A node that is no block collection: nothing else may stand on the line it ends on. The place
after it is the next token. -/
def inline (least : Nat) (p : Place) : Option (Json × Place) := do
  let (node, after) ← match p.rest with
    | '[' :: _ => flowNode (2 * p.rest.length + 2) p
    | '\x7b' :: _ => flowNode (2 * p.rest.length + 2) p
    | _ =>
      if beginsQuoted p then (fun r => (.str r.1, r.2)) <$> quoted p
      else (fun r => (.plain r.1, r.2)) <$> plain false least p
  let (newLine, next) ← skip true after
  guard (newLine ∨ next.isEnd)
  return (node, next)

mutual

/-- A node in a block; its lines are indented at least so far. The place after it is the next
token, on a line of its own. -/
def blockNode : Nat → Nat → Place → Option (Json × Place)
  | 0, _, _ => none
  | steps + 1, least, p =>
    if beginsItem p then do
      let (items, p) ← blockItems steps p.column p
      return (.arr items, p)
    else if (key? p).isSome then do
      let (fields, p) ← blockFields steps p.column p
      return (.obj fields, p)
    else inline least p

/-- The items of a block list at a column. -/
def blockItems : Nat → Nat → Place → Option (List Json × Place)
  | 0, _, _ => none
  | steps + 1, column, p => do
    let (newLine, next) ← skip false (p.after 1)
    let (item, p) ←
      if next.isEnd || (newLine && next.column ≤ column) then pure (Json.plain "", next)
      else blockNode steps (column + 1) next
    if p.isEnd || p.column < column then return ([item], p)
    else if column < p.column then none
    else if beginsItem p then do
      let (more, p) ← blockItems steps column p
      return (item :: more, p)
    else return ([item], p)

/-- The entries of a block map at a column. A list may stand at the column of its key. -/
def blockFields : Nat → Nat → Place → Option (List (String × Json) × Place)
  | 0, _, _ => none
  | steps + 1, column, p => do
    let (key, p) ← key? p
    let (newLine, next) ← skip true p
    let (value, p) ←
      if next.isEnd then pure (Json.plain "", next)
      else if !newLine then inline (column + 1) next
      else if column < next.column then blockNode steps (column + 1) next
      else if next.column = column ∧ beginsItem next then do
        let (items, p) ← blockItems steps column next
        pure (Json.arr items, p)
      else pure (Json.plain "", next)
    if p.isEnd || p.column < column then return ([(key, value)], p)
    else if column < p.column then none
    else do
      let (more, p) ← blockFields steps column p
      return ((key, value) :: more, p)

end

/-- What follows the mark at the start of a document, if there is one. -/
def afterMark (p : Place) : Place :=
  match p.column, p.rest with
  | 0, '-' :: '-' :: '-' :: cs => if atGap cs then p.after 3 else p
  | _, _ => p

/-- The document of a text. -/
def read? (text : String) : Option Json := do
  let (_, p) ← skip false ⟨0, text.toList⟩
  let (_, p) ← skip false (afterMark p)
  if p.isEnd then return .plain ""
  else
    let (node, p) ← blockNode (3 * text.length + 3) 0 p
    guard p.isEnd
    return node

end AccessAdmin.Wire.Yaml
