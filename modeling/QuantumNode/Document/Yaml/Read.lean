import QuantumNode.Document.Yaml.Write

/-
  How YAML documents are read. A text is cut into tokens, where indentation shows at which places
  nested collections start and end, and a text before a colon becomes a key only when the colon is
  found. The tokens become nested data, in which the last of two equal keys counts.
-/

namespace QuantumNode.Yaml

inductive Token
  | streamEnd
  | documentStart
  | documentEnd
  | blockListStart
  | blockTableStart
  | blockEnd
  | flowListStart
  | flowListEnd
  | flowTableStart
  | flowTableEnd
  | blockEntry
  | flowEntry
  | key
  | value
  | scalar (text : String) (isPlain : Bool)
  | bad
  deriving DecidableEq

---- Characters

def isSpace (c : Char) : Bool :=
  c = ' ' || c = '\t'

def isBreak (c : Char) : Bool :=
  c = '\n' || c.toNat = 0x85 || c.toNat = 0x2028 || c.toNat = 0x2029

def atBlank : List Char → Bool
  | [] => true
  | c :: _ => isSpace c || isBreak c

def flowMarks : List Char :=
  [',', '[', ']', '\x7b', '\x7d']

def indicators : List Char :=
  ['-', '?', ':', '#', '&', '*', '!', '|', '>', '\'', '"', '%', '@', Char.ofNat 0x60] ++ flowMarks

-- A place in a text, and what follows there.
structure Cursor where
  rest : List Char
  line : Nat
  column : Nat
  index : Nat

namespace Cursor

def step (k : Cursor) : Cursor :=
  match k.rest with
  | [] => k
  | c :: rest =>
    if isBreak c then ⟨rest, k.line + 1, 0, k.index + 1⟩
    else ⟨rest, k.line, k.column + 1, k.index + 1⟩

def steps : Nat → Cursor → Cursor
  | 0, k => k
  | n + 1, k => steps n k.step

def atDocumentMark (k : Cursor) : Bool :=
  k.column = 0 && (match k.rest with
    | '-' :: '-' :: '-' :: rest => atBlank rest
    | '.' :: '.' :: '.' :: rest => atBlank rest
    | _ => false)

end Cursor

-- Blanks inside a scalar: spaces of one line, or line breaks.
structure Gap where
  spaces : List Char
  broken : Bool
  escaped : Bool
  breaks : Nat

namespace Gap

def none : Gap := ⟨[], false, false, 0⟩

def chars (g : Gap) : List Char :=
  if !g.broken then g.spaces
  else if g.breaks = 0 && !g.escaped then [' ']
  else List.replicate g.breaks '\n'

end Gap

-- Go past blanks; a tab cannot stand where a plain scalar is indented.
def readGap (leastColumn : Int) (plain : Bool) : Nat → Cursor → Gap → Option (Gap × Cursor)
  | 0, k, g => some (g, k)
  | n + 1, k, g =>
    match k.rest with
    | [] => some (g, k)
    | c :: _ =>
      if isSpace c then
        if plain && g.broken && (k.column : Int) < leastColumn && c = '\t' then none
        else if g.broken then readGap leastColumn plain n k.step g
        else readGap leastColumn plain n k.step { g with spaces := g.spaces ++ [c] }
      else if isBreak c then
        if g.broken then readGap leastColumn plain n k.step { g with breaks := g.breaks + 1 }
        else readGap leastColumn plain n k.step ⟨[], true, false, 0⟩
      else some (g, k)

-- The next word of a plain scalar; inside brackets their marks end it.
def plainWord (inFlow : Bool) : List Char → Option (List Char)
  | [] => some []
  | c :: rest =>
    if isSpace c || isBreak c then some []
    else if inFlow && c = ':' && rest.head?.any (fun d => d = '?' || flowMarks.contains d) then none
    else if c = ':' && atBlank rest then some []
    else if inFlow && flowMarks.contains c then some []
    else (plainWord inFlow rest).map (c :: ·)

-- The words of a plain scalar, joined; also whether a line break follows it.
def readPlain (inFlow : Bool)
    (leastColumn : Int) : Nat → Cursor → Gap → Option (List Char × Bool × Cursor)
  | 0, k, g => some ([], g.broken, k)
  | n + 1, k, g =>
    if k.atDocumentMark || k.rest.head? == some '#' then some ([], g.broken, k)
    else do
      let word ← plainWord inFlow k.rest
      let (shown, g) := if word.isEmpty then ([], g) else (g.chars ++ word, Gap.none)
      let k := k.steps word.length
      if !atBlank k.rest || k.rest.isEmpty then return (shown, g.broken, k)
      let (g, k) ← readGap leastColumn true (k.rest.length + 1) k g
      if !inFlow && (k.column : Int) < leastColumn then return (shown, g.broken, k)
      let (more, broken, k) ← readPlain inFlow leastColumn n k g
      return (shown ++ more, broken, k)

def escaped? : Char → Option Char
  | '0' => some (Char.ofNat 0)
  | 'a' => some (Char.ofNat 7)
  | 'b' => some (Char.ofNat 8)
  | 't' => some '\t'
  | '\t' => some '\t'
  | 'n' => some '\n'
  | 'v' => some (Char.ofNat 11)
  | 'f' => some (Char.ofNat 12)
  | 'r' => some (Char.ofNat 13)
  | 'e' => some (Char.ofNat 27)
  | ' ' => some ' '
  | '"' => some '"'
  | '/' => some '/'
  | '\\' => some '\\'
  | 'N' => some (Char.ofNat 0x85)
  | '_' => some (Char.ofNat 0xA0)
  | 'L' => some (Char.ofNat 0x2028)
  | 'P' => some (Char.ofNat 0x2029)
  | _ => none

def escapeLength : Char → Nat
  | 'x' => 2
  | 'u' => 4
  | 'U' => 8
  | _ => 0

def numbered? (digits : List Char) (length : Nat) : Option Char :=
  let n := Json.hexNumber digits
  if digits.length = length && digits.all Json.isHexDigit && Nat.isValidChar n then
    some (Char.ofNat n)
  else none

-- A part of a quoted scalar without blanks, and whether an escaped break ends it.
def quotedWord (mark : Char) : Nat → Cursor → Option (List Char × Bool × Cursor)
  | 0, k => some ([], false, k)
  | n + 1, k =>
    let more (c : Char) (k : Cursor) : Option (List Char × Bool × Cursor) :=
      (quotedWord mark n k).map fun (cs, broken, k) => (c :: cs, broken, k)
    match k.rest with
    | [] => some ([], false, k)
    | c :: rest =>
      if isSpace c || isBreak c then some ([], false, k)
      else if c = mark then
        if mark = '\'' && rest.head? == some '\'' then more '\'' (k.steps 2)
        else some ([], false, k)
      else if c = '\\' && mark = '"' then
        match rest with
        | [] => none
        | d :: digits =>
          if isBreak d then some ([], true, k.steps 2)
          else if escapeLength d = 0 then
            match escaped? d with
            | some e => more e (k.steps 2)
            | none => none
          else
            match numbered? (digits.take (escapeLength d)) (escapeLength d) with
            | some e => more e (k.steps (2 + escapeLength d))
            | none => none
      else more c k.step

def readQuoted (mark : Char) : Nat → Cursor → Option (List Char × Cursor)
  | 0, _ => none
  | n + 1, k =>
    if k.atDocumentMark || k.rest.isEmpty then none
    else do
      let (word, escaped, k) ← quotedWord mark (k.rest.length + 1) k
      if !escaped && k.rest.head? == some mark then return (word, k.step)
      let start : Gap := if escaped then ⟨[], true, true, 0⟩ else .none
      let (g, k) ← readGap 0 false (k.rest.length + 1) k start
      let (more, k) ← readQuoted mark n k
      return (word ++ g.chars ++ more, k)

---- Scanners

-- A token that a colon would make a key, and whether one has to follow.
structure KeyMark where
  isPossible : Bool
  isRequired : Bool
  place : Nat
  line : Nat
  column : Nat
  index : Nat

namespace KeyMark

def none : KeyMark := ⟨false, false, 0, 0, 0, 0⟩

end KeyMark

-- What was read so far: the place, the indentation of the open block collections, a possible key
-- for every open bracket, and whether a key may stand here.
structure Scanner where
  cursor : Cursor
  indent : Int
  indents : List Int
  keyMark : KeyMark
  outerMarks : List KeyMark
  keyAllowed : Bool
  tokens : Array Token

namespace Scanner

def start (text : List Char) : Scanner :=
  ⟨⟨text, 0, 0, 0⟩, -1, [], .none, [], true, #[]⟩

variable (s : Scanner)

def inFlow : Bool :=
  !s.outerMarks.isEmpty

def add (t : Token) (s : Scanner) : Scanner :=
  { s with tokens := s.tokens.push t }

def skipBlanks : Nat → Scanner → Scanner
  | 0, s => s
  | n + 1, s =>
    match s.cursor.rest with
    | [] => s
    | c :: rest =>
      if c = ' ' || (c = '\t' && (s.inFlow || !s.keyAllowed)) then
        skipBlanks n { s with cursor := s.cursor.step }
      else if c = '#' then
        let size := (rest.takeWhile fun c => !isBreak c).length + 1
        skipBlanks n { s with cursor := s.cursor.steps size }
      else if isBreak c then
        skipBlanks n { s with cursor := s.cursor.step, keyAllowed := s.keyAllowed || !s.inFlow }
      else s

---- Possible keys

def longestKey : Nat := 1024

-- A key stands on one line; a required one must not be passed.
def dropStale (m : KeyMark) : Option KeyMark :=
  if m.isPossible && (m.line < s.cursor.line || m.index + longestKey < s.cursor.index) then
    if m.isRequired then none else some { m with isPossible := false }
  else some m

def dropStaleKeys : Option Scanner := do
  return { s with
    keyMark := ← s.dropStale s.keyMark
    outerMarks := ← s.outerMarks.mapM s.dropStale }

def forgetKey : Option Scanner :=
  if s.keyMark.isPossible && s.keyMark.isRequired then none
  else some { s with keyMark := { s.keyMark with isPossible := false } }

def rememberKey : Option Scanner :=
  if !s.keyAllowed then some s
  else do
    let s ← s.forgetKey
    let k := s.cursor
    let required := !s.inFlow && s.indent == (k.column : Int)
    return { s with keyMark := ⟨true, required, s.tokens.size, k.line, k.column, k.index⟩ }

def unroll (column : Int) : List Int → Scanner → Scanner
  | [], s => s
  | outer :: rest, s =>
    if s.inFlow || s.indent ≤ column then s
    else unroll column rest { s.add .blockEnd with indent := outer, indents := rest }

def unrollTo (column : Int) (s : Scanner) : Scanner :=
  unroll column s.indents s

-- Open a block collection at a column, before a token, unless one is open there.
def roll (column : Nat) (place : Nat) (t : Token) (s : Scanner) : Scanner :=
  if s.inFlow || (column : Int) ≤ s.indent then s
  else { s with
    indent := column
    indents := s.indent :: s.indents
    tokens := s.tokens.insertIdxIfInBounds place t }

---- The next token

def endStream : Option Scanner := do
  let s ← (s.unrollTo (-1)).forgetKey
  return { s with keyAllowed := false }.add .streamEnd

def documentMark (t : Token) : Option Scanner := do
  let s ← (s.unrollTo (-1)).forgetKey
  return { s with keyAllowed := false, cursor := s.cursor.steps 3 }.add t

def openFlow (t : Token) : Option Scanner := do
  let s ← s.rememberKey
  return { s with
    outerMarks := s.keyMark :: s.outerMarks
    keyMark := .none
    keyAllowed := true
    cursor := s.cursor.step }.add t

def closeFlow (t : Token) : Option Scanner := do
  let s ← s.forgetKey
  let s := match s.outerMarks with
    | m :: rest => { s with keyMark := m, outerMarks := rest }
    | [] => s
  return { s with keyAllowed := false, cursor := s.cursor.step }.add t

def flowEntry : Option Scanner := do
  let s ← s.forgetKey
  return { s with keyAllowed := true, cursor := s.cursor.step }.add .flowEntry

def blockEntry : Option Scanner := do
  if !s.inFlow && !s.keyAllowed then none
  let s ← (s.roll s.cursor.column s.tokens.size .blockListStart).forgetKey
  return { s with keyAllowed := true, cursor := s.cursor.step }.add .blockEntry

def keyMarker : Option Scanner := do
  if !s.inFlow && !s.keyAllowed then none
  let s ← (s.roll s.cursor.column s.tokens.size .blockTableStart).forgetKey
  return { s with keyAllowed := !s.inFlow, cursor := s.cursor.step }.add .key

def valueMarker : Option Scanner := do
  let m := s.keyMark
  if m.isPossible then
    let s := { s with tokens := s.tokens.insertIdxIfInBounds m.place .key }
    let s := s.roll m.column m.place .blockTableStart
    return { s with keyMark := .none, keyAllowed := false, cursor := s.cursor.step }.add .value
  else
    if !s.inFlow && !s.keyAllowed then none
    let s := s.roll s.cursor.column s.tokens.size .blockTableStart
    return { s with keyAllowed := !s.inFlow, cursor := s.cursor.step }.add .value

def quotedScalar (mark : Char) : Option Scanner := do
  let s ← s.rememberKey
  let k := s.cursor.step
  let (cs, k) ← readQuoted mark (k.rest.length + 1) k
  return { s with keyAllowed := false, cursor := k }.add (.scalar (String.ofList cs) false)

def plainScalar : Option Scanner := do
  let s ← s.rememberKey
  let k := s.cursor
  let (cs, broken, k) ← readPlain s.inFlow (s.indent + 1) (k.rest.length + 1) k .none
  return { s with keyAllowed := broken, cursor := k }.add (.scalar (String.ofList cs) true)

def startsPlain (c : Char) (rest : List Char) : Bool :=
  (!isSpace c && !indicators.contains c) ||
  (c = '-' && !(rest.head?.any isSpace)) ||
  (!s.inFlow && (c = '?' || c = ':') && !atBlank rest)

def next : Option Scanner := do
  let s := s.skipBlanks (s.cursor.rest.length + 1)
  let s ← s.dropStaleKeys
  let s := s.unrollTo s.cursor.column
  match s.cursor.rest with
  | [] => s.endStream
  | c :: rest =>
    if s.cursor.column = 0 && c = '%' then none
    else if s.cursor.atDocumentMark then
      s.documentMark (if c = '-' then .documentStart else .documentEnd)
    else if c = '[' then s.openFlow .flowListStart
    else if c = '\x7b' then s.openFlow .flowTableStart
    else if c = ']' then s.closeFlow .flowListEnd
    else if c = '\x7d' then s.closeFlow .flowTableEnd
    else if c = ',' then s.flowEntry
    else if c = '-' && atBlank rest then s.blockEntry
    else if c = '?' && (s.inFlow || atBlank rest) then s.keyMarker
    else if c = ':' && (s.inFlow || atBlank rest) then s.valueMarker
    else if c = '\'' || c = '"' then s.quotedScalar c
    else if s.startsPlain c rest then s.plainScalar
    else none

-- Whether it is still open if a token is a key.
def isOpen (m : KeyMark) : Bool :=
  m.isPossible && (m.isRequired || ((s.dropStale m).any KeyMark.isPossible))

def known : Array Token :=
  let places := ((s.keyMark :: s.outerMarks).filter s.isOpen).map KeyMark.place
  s.tokens.extract 0 (places.foldl min s.tokens.size)

def all : Nat → Scanner → Array Token
  | 0, s => s.known.push .bad
  | n + 1, s =>
    match s.next with
    | none => s.known.push .bad
    | some s => if s.tokens.back? == some .streamEnd then s.tokens else all n s

end Scanner

def tokens (text : List Char) : List Token :=
  (Scanner.all (text.length + 1) (.start text)).toList

---- From tokens to data

abbrev Reading := Checked (Datum × List Token)

def misfit : List Token → Fault
  | .bad :: _ => .unexplained .badMarkupToken
  | _ => .unexplained .badMarkup

-- Tokens that a key or value without text ends at.
def endsBlockPart : List Token → Bool
  | .key :: _ | .value :: _ | .blockEnd :: _ => true
  | _ => false

def endsItem : List Token → Bool
  | .blockEntry :: _ | .blockEnd :: _ => true
  | _ => false

-- Tokens that an item without text ends at if the list is not indented.
def endsBareItem (ts : List Token) : Bool :=
  endsItem ts || endsBlockPart ts

def endsFlowPart (close : Token) : List Token → Bool
  | .flowEntry :: _ => true
  | t :: _ => t = close
  | [] => false

mutual

-- A datum.  Block collections may stand where blocks may, bare lists where a key or value may.
def node (block bare : Bool) : Nat → List Token → Reading
  | 0, ts => .error (misfit ts)
  | n + 1, ts =>
    match ts with
    | .scalar s isPlain :: rest => .ok (if isPlain then ofPlain s else .text s, rest)
    | .flowListStart :: rest => flowItems true n [] rest
    | .flowTableStart :: rest => flowEntries true n [] rest
    | .blockEntry :: _ => if bare then bareItems n [] ts else .error (misfit ts)
    | .blockListStart :: rest => if block then blockItems n [] rest else .error (misfit ts)
    | .blockTableStart :: rest => if block then blockEntries n [] rest else .error (misfit ts)
    | _ => .error (misfit ts)

def blockItems : Nat → List Datum → List Token → Reading
  | 0, _, ts => .error (misfit ts)
  | n + 1, items, ts =>
    match ts with
    | .blockEnd :: rest => .ok (.list items.reverse, rest)
    | .blockEntry :: rest =>
      if endsItem rest then blockItems n (.null :: items) rest
      else do
        let (d, rest) ← node true false n rest
        blockItems n (d :: items) rest
    | _ => .error (misfit ts)

def bareItems : Nat → List Datum → List Token → Reading
  | 0, _, ts => .error (misfit ts)
  | n + 1, items, ts =>
    match ts with
    | .blockEntry :: rest =>
      if endsBareItem rest then bareItems n (.null :: items) rest
      else do
        let (d, rest) ← node true false n rest
        bareItems n (d :: items) rest
    | _ => .ok (.list items.reverse, ts)

def blockPart : Nat → List Token → Reading
  | 0, ts => .error (misfit ts)
  | n + 1, ts => if endsBlockPart ts then .ok (.null, ts) else node true true n ts

def blockEntries : Nat → List (Datum × Datum) → List Token → Reading
  | 0, _, ts => .error (misfit ts)
  | n + 1, entries, ts =>
    match ts with
    | .blockEnd :: rest => .ok (.table entries.reverse, rest)
    | .key :: rest => do
      let (k, rest) ← blockPart n rest
      let (v, rest) ← match rest with
        | .value :: rest => blockPart n rest
        | _ => .ok (.null, rest)
      blockEntries n ((k, v) :: entries) rest
    | _ => .error (misfit ts)

def flowPart (close : Token) : Nat → List Token → Reading
  | 0, ts => .error (misfit ts)
  | n + 1, ts => if endsFlowPart close ts then .ok (.null, ts) else node false false n ts

def flowValue (close : Token) : Nat → List Token → Reading
  | 0, ts => .error (misfit ts)
  | n + 1, ts =>
    match ts with
    | .value :: rest => flowPart close n rest
    | _ => .ok (.null, ts)

def flowKey (close : Token) : Nat → List Token → Reading
  | 0, ts => .error (misfit ts)
  | n + 1, ts =>
    match ts with
    | .value :: _ => .ok (.null, ts)
    | _ => flowPart close n ts

-- The items of a list in brackets; one of them may be a key with its value.
def flowItems (first : Bool) : Nat → List Datum → List Token → Reading
  | 0, _, ts => .error (misfit ts)
  | n + 1, items, ts =>
    let item (ts : List Token) : Reading := match ts with
      | .flowListEnd :: rest => .ok (.list items.reverse, rest)
      | .key :: rest => do
        let (k, rest) ← flowKey .flowListEnd n rest
        let (v, rest) ← flowValue .flowListEnd n rest
        flowItems false n (.table [(k, v)] :: items) rest
      | _ => do
        let (d, rest) ← node false false n ts
        flowItems false n (d :: items) rest
    match ts with
    | .flowListEnd :: rest => .ok (.list items.reverse, rest)
    | .flowEntry :: rest => if first then item ts else item rest
    | _ => if first then item ts else .error (misfit ts)

-- The entries of a table in braces; one without a key mark has no value.
def flowEntries (first : Bool) : Nat → List (Datum × Datum) → List Token → Reading
  | 0, _, ts => .error (misfit ts)
  | n + 1, entries, ts =>
    let entry (ts : List Token) : Reading := match ts with
      | .flowTableEnd :: rest => .ok (.table entries.reverse, rest)
      | .key :: rest => do
        let (k, rest) ← flowKey .flowTableEnd n rest
        let (v, rest) ← flowValue .flowTableEnd n rest
        flowEntries false n ((k, v) :: entries) rest
      | _ => do
        let (k, rest) ← node false false n ts
        flowEntries false n ((k, .null) :: entries) rest
    match ts with
    | .flowTableEnd :: rest => .ok (.table entries.reverse, rest)
    | .flowEntry :: rest => if first then entry ts else entry rest
    | _ => if first then entry ts else .error (misfit ts)

end

def content (fuel : Nat) : List Token → Reading
  | .documentStart :: rest => .ok (.null, .documentStart :: rest)
  | .documentEnd :: rest => .ok (.null, .documentEnd :: rest)
  | .streamEnd :: rest => .ok (.null, .streamEnd :: rest)
  | ts => node true false fuel ts

def document (ts : List Token) : Checked Datum :=
  let fuel := 3 * ts.length + 3
  let finish (d : Datum) (rest : List Token) : Checked Datum :=
    match rest.dropWhile (· = .documentEnd) with
    | .streamEnd :: _ => .ok d
    | .documentStart :: _ => .error (.unexplained .severalDocuments)
    | rest => .error (misfit rest)
  match ts with
  | .streamEnd :: _ => .ok .null
  | .documentStart :: rest => do
    let (d, rest) ← content fuel rest
    finish d rest
  | _ => do
    let (d, rest) ← node true false fuel ts
    finish d rest

---- Equal keys

-- Truth values count as numbers when keys are compared.
def keyName : Datum → String
  | .bool b => if b then "1" else "0"
  | d => d.literal

def putEntry (k v : Datum) : List (Datum × Datum) → List (Datum × Datum)
  | [] => [(k, v)]
  | (k', v') :: rest =>
    if keyName k' = keyName k then (k', v) :: rest else (k', v') :: putEntry k v rest

-- Lists and tables cannot be keys.
def isKey : Datum → Bool
  | .list _ | .table _ => false
  | _ => true

mutual

-- Of two entries with equal keys the last counts.
def settle : Datum → Checked Datum
  | .list items => do return .list (← settleItems items)
  | .table entries => do return .table (← settleEntries entries [])
  | d => .ok d

def settleItems : List Datum → Checked (List Datum)
  | [] => .ok []
  | d :: rest => do return (← settle d) :: (← settleItems rest)

def settleEntries : List (Datum × Datum) → List (Datum × Datum) → Checked (List (Datum × Datum))
  | [], done => .ok done
  | (k, v) :: rest, done => do
    demand (isKey k) (.unexplained .badMarkupKey)
    settleEntries rest (putEntry k (← settle v) done)

end

def unifyBreaks : List Char → List Char
  | '\r' :: '\n' :: rest => '\n' :: unifyBreaks rest
  | '\r' :: rest => '\n' :: unifyBreaks rest
  | c :: rest => c :: unifyBreaks rest
  | [] => []

def isAllowed (c : Char) : Bool :=
  c = '\t' || c = '\n' || (0x20 ≤ c.toNat && c.toNat ≤ 0x7E) || c.toNat = 0x85 ||
  (0xA0 ≤ c.toNat && c.toNat ≤ 0xFFFD && c.toNat ≠ 0xFEFF) || 0x10000 ≤ c.toNat

def read (s : String) : Checked Datum := do
  let cs := unifyBreaks s.toList
  demand (cs.all isAllowed) (.unexplained .badMarkupCharacter)
  settle (← document (tokens cs))

end QuantumNode.Yaml
