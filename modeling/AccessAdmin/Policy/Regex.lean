/-!
# Regular expressions

The expressions that path patterns are made of: literals, `.`, classes in brackets, groups,
alternatives, the repetitions `*`, `+`, `?` and counted ones, and the two anchors. What richer
notations have besides (classes by name, boundaries of words, groups with flags) is not read.
Matching works on sets of positions and always ends; a repetition is run until the set stops growing, at the
latest after as many rounds as the text has positions.

* `Regex.parse`: reads an expression, `none` when it is not one of this notation.
* `Regex.search`: whether it matches somewhere in a text.
-/

namespace AccessAdmin.Policy

/-- A set of characters. -/
inductive CharSet where
  | range (first last : Char)
  | union (a b : CharSet)
  | inter (a b : CharSet)
  | diff (a b : CharSet)
  | symmDiff (a b : CharSet)
  | compl (a : CharSet)
  | none
deriving DecidableEq, Repr

namespace CharSet

/-- Whether a character is in the set. -/
def has : CharSet → Char → Bool
  | range first last, c => first ≤ c && c ≤ last
  | union a b, c => a.has c || b.has c
  | inter a b, c => a.has c && b.has c
  | diff a b, c => a.has c && !b.has c
  | symmDiff a b, c => a.has c != b.has c
  | compl a, c => !a.has c
  | none, _ => false

/-- The set of one character. -/
def single (c : Char) : CharSet := range c c

/-- What `.` stands for: everything but a line feed. -/
def dot : CharSet := compl (single '\n')

end CharSet

/-- A regular expression. -/
inductive Regex where
  | empty
  | one (set : CharSet)
  | textStart
  | textEnd
  | seq (a b : Regex)
  | alt (a b : Regex)
  | star (a : Regex)
deriving DecidableEq, Repr

namespace Regex

/-! ## Matching -/

/-- Adds the positions of `b` that are not yet in `a`. -/
def merge (a b : List Nat) : List Nat :=
  b.foldl (fun acc p => if acc.contains p then acc else p :: acc) a

/-- Adds to a set of positions what `step` reaches from it, `rounds` times or until nothing new
comes. -/
def closure (step : List Nat → List Nat) : Nat → List Nat → List Nat
  | 0, ps => ps
  | rounds + 1, ps =>
    let next := merge ps (step ps)
    if next.length = ps.length then ps else closure step rounds next

/-- The positions at which a match can end that starts at one of the given positions. -/
def ends (text : Array Char) : Regex → List Nat → List Nat
  | empty, ps => ps
  | one set, ps => (ps.filter fun p => (text[p]?).any set.has).map (· + 1)
  | textStart, ps => ps.filter (· == 0)
  | textEnd, ps => ps.filter (· == text.size)
  | seq a b, ps => ends text b (ends text a ps)
  | alt a b, ps => merge (ends text a ps) (ends text b ps)
  | star a, ps => closure (ends text a) (text.size + 1) ps

/-- Whether the expression matches somewhere in the text. -/
def search (r : Regex) (text : String) : Bool :=
  let chars := text.toList.toArray
  !(r.ends chars (List.range (chars.size + 1))).isEmpty

/-! ## Reading -/

/-- The most times a counted repetition may ask for. -/
def maxCount : Nat := 1000

/-- `n` times `a`, one after the other. -/
def times (a : Regex) : Nat → Regex
  | 0 => empty
  | n + 1 => seq a (times a n)

/-- At most `n` times `a`. -/
def atMost (a : Regex) : Nat → Regex
  | 0 => empty
  | n + 1 => alt empty (seq a (atMost a n))

/-- The characters that stand for themselves after a backslash: those of ASCII but letters, digits
and the two brackets that mark the ends of a word. -/
def isEscapable (c : Char) : Bool :=
  c.val < 128 && !c.isAlphanum && c != '<' && c != '>'

/-- A decimal number at the start of the text. -/
def readNumber (cs : List Char) : Option (Nat × List Char) :=
  let digits := cs.takeWhile Char.isDigit
  if digits.isEmpty then none
  else some (digits.foldl (fun n d => n * 10 + (d.toNat - '0'.toNat)) 0, cs.dropWhile Char.isDigit)

/-- The rest of a counted repetition of `a`, after its opening brace. -/
def readCount (a : Regex) (cs : List Char) : Option (Regex × List Char) := do
  let (low, cs) ← readNumber cs
  guard (low ≤ maxCount)
  match cs with
  | '\x7d' :: cs => some (times a low, cs)
  | ',' :: '\x7d' :: cs => some (seq (times a low) (star a), cs)
  | ',' :: cs =>
    let (high, cs) ← readNumber cs
    guard (low ≤ high ∧ high ≤ maxCount)
    match cs with
    | '\x7d' :: cs => some (seq (times a low) (atMost a (high - low)), cs)
    | _ => none
  | _ => none

/-- How two sets inside brackets are combined. -/
inductive SetOp where
  | inter
  | diff
  | symmDiff

/-- Combines two sets inside brackets. -/
def SetOp.apply : SetOp → CharSet → CharSet → CharSet
  | inter, a, b => .inter a b
  | diff, a, b => .diff a b
  | symmDiff, a, b => .symmDiff a b

/-- A bracketed class that is still open: the sets on the left of the operators read so far, and
the union of the items since the last one. -/
structure OpenClass where
  negated : Bool
  left : Option (CharSet × SetOp)
  items : CharSet

namespace OpenClass

/-- The class without a negation, as read so far. -/
def value (o : OpenClass) : CharSet :=
  match o.left with
  | none => o.items
  | some (a, op) => op.apply a o.items

/-- Ends the left side of an operator. -/
def operate (o : OpenClass) (op : SetOp) : OpenClass :=
  { o with left := some (o.value, op), items := .none }

/-- Adds a set to the items. -/
def add (o : OpenClass) (s : CharSet) : OpenClass :=
  { o with items := .union o.items s }

/-- The finished class. -/
def close (o : OpenClass) : CharSet :=
  if o.negated then .compl o.value else o.value

end OpenClass

/-- One character of a class, perhaps after a backslash. -/
def readClassChar : List Char → Option (Char × List Char)
  | '\\' :: c :: cs => if isEscapable c then some (c, cs) else none
  | '\\' :: [] => none
  | c :: cs => some (c, cs)
  | [] => none

/-- What follows an opening bracket: a `^`, then hyphens, then one `]` that is not the end. -/
def openClass (cs : List Char) : OpenClass × List Char :=
  let (negated, cs) := match cs with
    | '^' :: cs => (true, cs)
    | cs => (false, cs)
  let hyphens := cs.takeWhile (· == '-')
  let cs := cs.dropWhile (· == '-')
  let items := if hyphens.isEmpty then CharSet.none else .single '-'
  match hyphens, cs with
  | [], ']' :: cs => (⟨negated, none, .union items (.single ']')⟩, cs)
  | _, cs => (⟨negated, none, items⟩, cs)

/-- Reads a class up to its closing bracket. Classes nest, so the open ones form a stack; every
step takes at least one character. -/
def readClass : Nat → OpenClass → List OpenClass → List Char → Option (CharSet × List Char)
  | 0, _, _, _ => none
  | steps + 1, o, outer, cs =>
    match cs with
    | [] => none
    | ']' :: cs =>
      match outer with
      | [] => some (o.close, cs)
      | above :: outer => readClass steps (above.add o.close) outer cs
    | '[' :: cs =>
      let (inner, cs) := openClass cs
      readClass steps inner (o :: outer) cs
    | '&' :: '&' :: cs => readClass steps (o.operate .inter) outer cs
    | '-' :: '-' :: cs => readClass steps (o.operate .diff) outer cs
    | '~' :: '~' :: cs => readClass steps (o.operate .symmDiff) outer cs
    | cs =>
      match readClassChar cs with
      | none => none
      | some (first, rest) =>
        match rest with
        | '-' :: next :: rest' =>
          if next = ']' ∨ next = '-' then readClass steps (o.add (.single first)) outer rest
          else
            match readClassChar (next :: rest') with
            | none => none
            | some (last, rest) =>
              if first ≤ last then readClass steps (o.add (.range first last)) outer rest
              else none
        | rest => readClass steps (o.add (.single first)) outer rest

/-- A group that is still open: its finished alternatives and the sequence being read, newest
item first. `repeated` says that the newest item was just repeated, so that a `?` only makes the
repetition a lazy one. -/
structure OpenGroup where
  before : Option Regex := none
  items : List Regex := []
  repeated : Bool := false

namespace OpenGroup

/-- The sequence read so far. -/
def sequence (g : OpenGroup) : Regex :=
  g.items.foldl (fun acc r => match acc with
    | .empty => r
    | acc => .seq r acc) .empty

/-- The group as one expression. -/
def close (g : OpenGroup) : Regex :=
  match g.before with
  | none => g.sequence
  | some a => .alt a g.sequence

/-- Adds an item to the sequence. -/
def push (g : OpenGroup) (r : Regex) : OpenGroup :=
  { g with items := r :: g.items, repeated := false }

/-- Ends an alternative. -/
def bar (g : OpenGroup) : OpenGroup := { before := some g.close }

/-- Repeats the newest item; there has to be one. -/
def repeatLast (g : OpenGroup) (f : Regex → Regex) : Option OpenGroup :=
  match g.items with
  | [] => none
  | r :: rest => some { g with items := f r :: rest, repeated := true }

end OpenGroup

/-- Reads an expression; the open groups form a stack, and every step takes at least one
character. -/
def readGroups : Nat → OpenGroup → List OpenGroup → List Char → Option Regex
  | 0, _, _, _ => none
  | steps + 1, g, outer, cs =>
    match cs with
    | [] => if outer.isEmpty then some g.close else none
    | '(' :: '?' :: _ => none
    | '(' :: cs => readGroups steps {} (g :: outer) cs
    | ')' :: cs =>
      match outer with
      | [] => none
      | above :: outer => readGroups steps (above.push g.close) outer cs
    | '|' :: cs => readGroups steps g.bar outer cs
    | '*' :: cs => (g.repeatLast .star).bind (readGroups steps · outer cs)
    | '+' :: cs => (g.repeatLast fun r => .seq r (.star r)).bind (readGroups steps · outer cs)
    | '?' :: cs =>
      if g.repeated then readGroups steps { g with repeated := false } outer cs
      else (g.repeatLast fun r => .alt r .empty).bind (readGroups steps · outer cs)
    | '\x7b' :: cs =>
      match g.items with
      | [] => none
      | r :: rest =>
        match readCount r cs with
        | none => none
        | some (counted, cs) =>
          readGroups steps { g with items := counted :: rest, repeated := true } outer cs
    | '[' :: cs =>
      let (o, cs) := openClass cs
      match readClass (cs.length + 1) o [] cs with
      | none => none
      | some (set, cs) => readGroups steps (g.push (.one set)) outer cs
    | '.' :: cs => readGroups steps (g.push (.one .dot)) outer cs
    | '^' :: cs => readGroups steps (g.push .textStart) outer cs
    | '$' :: cs => readGroups steps (g.push .textEnd) outer cs
    | '\\' :: c :: cs =>
      if isEscapable c then readGroups steps (g.push (.one (.single c))) outer cs else none
    | '\\' :: [] => none
    | c :: cs => readGroups steps (g.push (.one (.single c))) outer cs

/-- Reads an expression from its text. -/
def parse (pattern : List Char) : Option Regex :=
  readGroups (pattern.length + 1) {} [] pattern

end Regex

end AccessAdmin.Policy
