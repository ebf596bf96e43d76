import Roster.Yaml.Basic

/-!
# Reading YAML in flow style

The flow style writes arrays between brackets and objects between braces, as JSON does, and every
JSON text is a document in this style or almost one: a surrogate may not be written as an escape,
and the name of a member ends on the line on which it starts. Beyond JSON it allows scalars without
quotes or between apostrophes, comments, a comma before a closing bracket, and members without a
value. Documents in block style are refused, and so are anchors, aliases, tags and explicit keys.
-/

namespace Roster.Yaml

/-! ## Characters -/

/-- The characters that a document may have. -/
def isAllowed (c : Char) : Bool :=
  let n := c.toNat
  c = '\t' || c = '\n' || c = '\r' || (0x20 ≤ n && n ≤ 0x7E) || n = 0x85 ||
    (0xA0 ≤ n && n ≤ 0xFFFD) || 0x10000 ≤ n

/-- The characters that end a line. -/
def isBreak (c : Char) : Bool :=
  c = '\n' || c = '\r' || c.toNat = 0x85 || c.toNat = 0x2028 || c.toNat = 0x2029

/-- The characters that stand between words. -/
def isBlank (c : Char) : Bool :=
  c = ' ' || c = '\t'

/-- Whether a text ends here or goes on with a blank or a line break. -/
def atGap : List Char → Bool
  | [] => true
  | c :: _ => isBlank c || isBreak c

/-- What follows blanks, line breaks and comments. -/
def skipGap : List Char → List Char
  | [] => []
  | c :: rest =>
    if c = '#' then skipGap (rest.dropWhile fun d => !isBreak d)
    else if isBlank c || isBreak c then skipGap rest
    else c :: rest
termination_by s => s.length
decreasing_by
  · have := (List.dropWhile_suffix (fun d => !isBreak d) (l := rest)).length_le
    simp; omega
  · simp

/-- What follows blanks, line breaks and comments outside of all brackets, where no line
    may start with a tab. -/
def skipOutside (tabs : Bool) : List Char → List Char
  | [] => []
  | c :: rest =>
    if c = '#' then skipOutside tabs (rest.dropWhile fun d => !isBreak d)
    else if c = ' ' || (tabs && c = '\t') then skipOutside tabs rest
    else if isBreak c then skipOutside false rest
    else c :: rest
termination_by s => s.length
decreasing_by
  · have := (List.dropWhile_suffix (fun d => !isBreak d) (l := rest)).length_le
    simp; omega
  · simp
  · simp

/-! ## Folding lines -/

/-- What has been seen of a gap within a text. -/
structure Gap where
  /-- the blanks before the first line break -/
  blanks : List Char := []
  /-- the line breaks, each as one character -/
  breaks : List Char := []
  deriving DecidableEq, Repr

/-- How a line break is kept: some of them as they are. -/
def keptBreak (c : Char) : Char :=
  if c.toNat = 0x2028 || c.toNat = 0x2029 then c else '\n'

/-- The gap with which a text starts, and what follows it. -/
def gap (g : Gap) : List Char → Gap × List Char
  | [] => (g, [])
  | '\r' :: '\n' :: rest => gap { g with breaks := g.breaks ++ ['\n'] } rest
  | c :: rest =>
    if isBlank c then
      gap (if g.breaks.isEmpty then { g with blanks := g.blanks ++ [c] } else g) rest
    else if isBreak c then gap { g with breaks := g.breaks ++ [keptBreak c] } rest
    else (g, c :: rest)

/-- What a gap stands for: itself if it holds no line break; a single line break is a blank, and of
    several the first is left out. -/
def Gap.folded (g : Gap) : List Char :=
  match g.breaks with
  | [] => g.blanks
  | ['\n'] => [' ']
  | '\n' :: more => more
  | breaks => breaks

/-! ## Quoted scalars -/

/-- The number that exactly `digits` hexadecimal digits spell, and what follows them. -/
def hexNumber : Nat → Nat → List Char → Option (Nat × List Char)
  | 0, n, s => some (n, s)
  | digits + 1, n, c :: rest =>
    match digitValue? c with
    | some d => hexNumber digits (n * 16 + d) rest
    | none => none
  | _ + 1, _, [] => none

/-- The character with a code. -/
def charOf? (n : Nat) : Option Char :=
  if h : n.isValidChar then some (Char.ofNatAux n h) else none

/-- The character that a one-letter escape stands for. -/
def letterEscape? : Char → Option Char
  | '0' => some (Char.ofNat 0)
  | 'a' => some (Char.ofNat 7)
  | 'b' => some (Char.ofNat 8)
  | 't' | '\t' => some '\t'
  | 'n' => some '\n'
  | 'v' => some (Char.ofNat 11)
  | 'f' => some (Char.ofNat 12)
  | 'r' => some '\r'
  | 'e' => some (Char.ofNat 27)
  | ' ' => some ' '
  | '"' => some '"'
  | '/' => some '/'
  | '\\' => some '\\'
  | 'N' => some (Char.ofNat 0x85)
  | '_' => some (Char.ofNat 0xA0)
  | 'L' => some (Char.ofNat 0x2028)
  | 'P' => some (Char.ofNat 0x2029)
  | _ => none

/-- How many digits follow a letter after a backslash. -/
def escapeDigits : Char → Option Nat
  | 'x' => some 2
  | 'u' => some 4
  | 'U' => some 8
  | _ => none

/-- The character that an escape stands for, and what follows it. -/
def escape? : List Char → Option (Char × List Char)
  | [] => none
  | c :: rest =>
    match escapeDigits c with
    | some digits => do
      let (n, rest') ← hexNumber digits 0 rest
      pure (← charOf? n, rest')
    | none => (letterEscape? c).map (·, rest)

/-- The content of a scalar between quotes up to the closing one, and what follows it. Each step
    takes a character, so the length of the text is fuel enough. -/
def doubleQuoted : Nat → List Char → Option (List Char × List Char)
  | 0, _ => none
  | _, [] => none
  | fuel + 1, c :: rest =>
    if c = '"' then some ([], rest)
    else if c = '\\' then
      match rest with
      | d :: _ =>
        if isBreak d then
          let (g, rest') := gap {} rest
          (doubleQuoted fuel rest').map fun (cs, r) => (g.breaks.drop 1 ++ cs, r)
        else
          match escape? rest with
          | some (e, rest') => (doubleQuoted fuel rest').map fun (cs, r) => (e :: cs, r)
          | none => none
      | [] => none
    else if isBlank c || isBreak c then
      let (g, rest') := gap {} (c :: rest)
      (doubleQuoted fuel rest').map fun (cs, r) => (g.folded ++ cs, r)
    else (doubleQuoted fuel rest).map fun (cs, r) => (c :: cs, r)

/-- The content of a scalar between apostrophes up to the closing one, and what follows it. An
    apostrophe in it is written twice. -/
def singleQuoted : Nat → List Char → Option (List Char × List Char)
  | 0, _ => none
  | _, [] => none
  | fuel + 1, c :: rest =>
    if c = '\'' then
      match rest with
      | '\'' :: rest' => (singleQuoted fuel rest').map fun (cs, r) => ('\'' :: cs, r)
      | _ => some ([], rest)
    else if isBlank c || isBreak c then
      let (g, rest') := gap {} (c :: rest)
      (singleQuoted fuel rest').map fun (cs, r) => (g.folded ++ cs, r)
    else (singleQuoted fuel rest).map fun (cs, r) => (c :: cs, r)

/-! ## Plain scalars -/

/-- The characters that separate the parts of collections. -/
def isFlowIndicator (c : Char) : Bool :=
  c ∈ [',', '[', ']', '\x7b', '\x7d']

/-- A plain text can begin here. -/
def startsPlain : List Char → Bool
  | [] => false
  | '-' :: rest => !atGap rest
  | c :: _ =>
    !(isBlank c || isBreak c || isFlowIndicator c ||
      c ∈ ['?', ':', '#', '&', '*', '!', '|', '>', '\'', '"', '%', '@', Char.ofNat 0x60])

/-- The content of a plain scalar, and what follows it. It ends before a separator, before a colon
    that a gap follows, and before a comment. -/
def plain : Nat → List Char → Option (List Char × List Char)
  | 0, _ => none
  | _, [] => some ([], [])
  | fuel + 1, c :: rest =>
    if isFlowIndicator c then some ([], c :: rest)
    else if c = ':' && atGap rest then some ([], c :: rest)
    else if c = ':' && rest.head?.any fun d => isFlowIndicator d || d = '?' then none
    else if isBlank c || isBreak c then
      let (g, rest') := gap {} (c :: rest)
      if rest'.head? = some '#' then some ([], rest')
      else
        match plain fuel rest' with
        | some ([], r) => some ([], r)
        | some (cs, r) => some (g.folded ++ cs, r)
        | none => none
    else (plain fuel rest).map fun (cs, r) => (c :: cs, r)

/-! ## Documents -/

/-- A text that has been read, as a document. -/
def scalarOf (isPlain : Bool) (found : List Char × List Char) : Document × List Char :=
  (.scalar ⟨.ofList found.1, isPlain⟩, found.2)

/-- The length up to which the name of a member may be recognised. -/
def longestName : Nat := 1024

/-- Whether a colon that is reached at `rest` makes a name of what stands between `start` and it:
    names do not span lines. -/
def endsName (start rest : List Char) : Bool :=
  let name := start.take (start.length - rest.length)
  name.length ≤ longestName && !name.any isBreak

/-- The name of a member. Only a scalar can be one. -/
def nameOf : Document → Option String
  | .scalar s => some s.text
  | _ => none

mutual

/-- The node with which a text starts, and what follows it. -/
def nodeIn : Nat → List Char → Option (Document × List Char)
  | 0, _ => none
  | fuel + 1, s =>
    match s with
    | '[' :: rest => (elementsIn fuel rest).map fun (xs, r) => (.array xs, r)
    | '\x7b' :: rest => (membersIn fuel rest).map fun (ms, r) => (.object ms, r)
    | '"' :: rest => (doubleQuoted rest.length rest).map (scalarOf false)
    | '\'' :: rest => (singleQuoted rest.length rest).map (scalarOf false)
    | s => if startsPlain s then (plain (s.length + 1) s).map (scalarOf true) else none

/-- Elements up to the closing bracket. An element with a colon after it is an
    object of one member. -/
def elementsIn : Nat → List Char → Option (List Document × List Char)
  | 0, _ => none
  | fuel + 1, s =>
    match skipGap s with
    | ']' :: rest => some ([], rest)
    | start => do
      let (x, rest) ← nodeIn fuel start
      let (x, rest) ←
        match skipGap rest with
        | ':' :: rest' =>
          if endsName start (':' :: rest') then do
            let (y, r) ← valueIn fuel rest'
            pure (Tree.object [(nameOf x, y)], r)
          else none
        | rest' => pure (x, rest')
      match skipGap rest with
      | ',' :: rest' => (elementsIn fuel rest').map fun (xs, r) => (x :: xs, r)
      | ']' :: rest' => some ([x], rest')
      | _ => none

/-- The members of a mapping that is open, up to its end. -/
def membersIn : Nat → List Char → Option (List (Option String × Document) × List Char)
  | 0, _ => none
  | fuel + 1, s =>
    match skipGap s with
    | '\x7d' :: rest => some ([], rest)
    | start => do
      let (x, rest) ← nodeIn fuel start
      let (y, rest) ←
        match skipGap rest with
        | ':' :: rest' =>
          if endsName start (':' :: rest') then valueIn fuel rest' else none
        | rest' => pure (Tree.scalar .blank, rest')
      match skipGap rest with
      | ',' :: rest' => (membersIn fuel rest').map fun (ms, r) => ((nameOf x, y) :: ms, r)
      | '\x7d' :: rest' => some ([(nameOf x, y)], rest')
      | _ => none

/-- What stands after the colon of a member; it may be nothing. -/
def valueIn : Nat → List Char → Option (Document × List Char)
  | 0, _ => none
  | fuel + 1, s =>
    match skipGap s with
    | [] => none
    | c :: rest =>
      if c = ',' || c = ']' || c = '\x7d' then some (.scalar .blank, c :: rest)
      else nodeIn fuel (c :: rest)

end

/-- The document that a whole text stands for. A text without content is a blank scalar. -/
def read? (text : String) : Option Document :=
  let cs := text.toList
  let cs := if cs.head? = some (Char.ofNat 0xFEFF) then cs.drop 1 else cs
  if !cs.all isAllowed then none
  else
    match skipOutside false cs with
    | [] => some (.scalar .blank)
    | start =>
      match nodeIn (3 * cs.length + 3) start with
      | some (t, rest) => if (skipOutside true rest).isEmpty then some t else none
      | none => none

end Roster.Yaml
