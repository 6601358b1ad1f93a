import CreditRating.Yaml.BlockText
import CreditRating.Yaml.Layout
import CreditRating.Yaml.QuotedText

/-!
The tokens of a text. Reading stops at the end or at the first fault; the tokens
in front of a fault are kept, since a document may be complete before it.
-/

namespace CreditRating
namespace Yaml
namespace Layout

def moved (s : Layout) (c : Cursor) : Layout := { s with cursor := c }

def skipSpace : Nat → Layout → Except Fault Layout
  | 0, s => .ok s
  | n + 1, s =>
      let c := s.cursor
      let x := c.peek 0
      if x == '\t' && !s.indentations.isEmpty && c.fresh && c.column < s.indent then do
        let c ← c.skipTrail
        if isBreakOrEnd (c.peek 0) then skipSpace n (s.moved c) else .error .tabInIndentation
      else if isGap x then skipSpace n (s.moved (c.skip 1))
      else if isBreak x then
        let s := s.moved c.lineBreak
        skipSpace n (if s.inFlow then s else s.allowKey)
      else if x == '#' then skipSpace n (s.moved c.skipLine)
      else .ok s

def toToken (s : Layout) : Except Fault Layout := skipSpace (s.cursor.rest.length + 1) s

def streamEnd (s : Layout) : Except Fault Layout := do
  if s.inFlow then .error .unbalancedBracket
  if s.keys.any fun key? => (key?.map (·.required)).getD false then .error .keyWithoutValue
  let s := s.moved { s.cursor with column := 0 }
  let s ← (s.unroll (-1)).dropKey
  return s.forbidKey.add 0 .streamEnd

def longestVersionPart : Nat := 9

def skipVersionPart (c : Cursor) : Except Fault Cursor :=
  let digits := (c.span Char.isDigit).length
  if digits == 0 || longestVersionPart < digits then .error .badDirective
  else .ok (c.skip digits)

def skipVersion (c : Cursor) : Except Fault Cursor := do
  let c ← skipVersionPart c
  if c.peek 0 != '.' then .error .badDirective
  skipVersionPart (c.skip 1)

def tagHandle (strict : Bool) (c : Cursor) : Except Fault (Cursor × List Char) := do
  if c.peek 0 != '!' then .error .badTag
  let name := (c.read 1).span isWordChar
  let c := c.read (1 + name.length)
  if c.peek 0 == '!' then return (c.read 1, '!' :: name ++ ['!'])
  else if strict && !name.isEmpty then .error .badTag
  else return (c, '!' :: name)

def isUriChar (c : Char) : Bool :=
  isWordChar c || (";/?:@&=+$,_.!~*'()[]%#".toList.contains c)

def isTagChar (c : Char) : Bool :=
  isUriChar c && !isFlowIndicator c && c != '!'

def octet? (a b : Char) : Option Nat := do return 16 * (← hexDigit? a) + (← hexDigit? b)

def isLeadOctet (n : Nat) : Bool := 0xc0 ≤ n && n < 0xe0

def isTrailOctet (n : Nat) : Bool := 0x80 ≤ n && n < 0xc0

/-- A tag's text with its escapes; none if an escape is wrong. An octet below 128
is escaped alone. Two escaped octets, a lead and a trail, stand for the character
with their joint number, and more octets for none. -/
def tagText? : List Char → Option (List Char)
  | [] => some []
  | '%' :: a :: b :: s => do
      let n ← octet? a b
      if n < 0x80 then return Char.ofNat n :: (← tagText? s)
      else match s with
        | '%' :: d :: e :: s =>
            let m ← octet? d e
            guard (isLeadOctet n && isTrailOctet m)
            return (← charOf? (0x100 * n + m)) :: (← tagText? s)
        | _ => none
  | '%' :: _ => none
  | c :: s => do return c :: (← tagText? s)

def decodedTag (s : List Char) : Except Fault (List Char) :=
  match tagText? s with
  | some t => .ok t
  | none => .error .badTag

/-- The declaration of a tag handle. What it stands for begins like a tag. -/
def tagDirective (c : Cursor) : Except Fault (Cursor × TokenKind) := do
  let (c, handle) ← tagHandle true (c.skipWhile isGap)
  let c := c.skipWhile isGap
  if !(c.peek 0 == '!' || isTagChar (c.peek 0)) then .error .badTag
  let lead := c.span isUriChar
  let c := c.skip lead.length
  if !isGapOrEnd (c.peek 0) then .error .badTag
  return (c, .tagDirective (String.ofList handle) (String.ofList (← decodedTag lead)))

/-- A line that begins with "%". One of an unknown kind declares nothing. -/
def directive (s : Layout) : Except Fault Layout := do
  let s := s.unroll (-1)
  let s := (← s.dropKey).forbidKey
  let name := (s.cursor.read 1).span fun x => !isGapOrEnd x
  let c := s.cursor.read (1 + name.length)
  if name.isEmpty then .error .badDirective
  let (c, kind) ←
    if name = "YAML".toList then do pure (← skipVersion (c.skipWhile isGap), .versionDirective)
    else if name = "TAG".toList then tagDirective c
    else pure (c.skipLine, TokenKind.tagDirective "" "")
  let c ← c.skipTrail
  if !isBreakOrEnd (c.peek 0) then .error .badDirective
  let c := if isBreak (c.peek 0) then c.lineBreak else c
  return (s.moved c).add 0 kind

def documentMark (s : Layout) (kind : TokenKind) : Except Fault Layout := do
  let s := s.unroll (-1)
  let s := (← s.dropKey).forbidKey
  let s := (s.moved (s.cursor.read 3)).add 0 kind
  if kind = .documentEnd then
    let c ← s.cursor.skipTrail
    if isBreakOrEnd (c.peek 0) then return s.moved c else .error .trailingContent
  else return s

def flowStart (s : Layout) (kind : TokenKind) : Except Fault Layout := do
  let column := s.cursor.column
  let s := s.markKey.rollOne
  if s.flowLevel == deepestFlow then .error .tooDeep
  let s := { s with brackets := kind :: s.brackets, keys := none :: s.keys }.allowKey
  let s := if kind = .flowMappingStart then { s with inFlowMapping := true }
    else { s with openPairs := none :: s.openPairs }
  let c ← (s.cursor.read 1).skipTrail
  return (s.moved c).add column kind

/-- The end of a flow collection, which ends the one that was begun last. -/
def flowEnd (s : Layout) (start kind : TokenKind) : Except Fault Layout := do
  let column := s.cursor.column
  if s.brackets.head? != some start then .error .unbalancedBracket
  let s ← s.dropKey
  let s := if start = .flowSequenceStart then
      { s.endPair with openPairs := s.openPairs.tail }
    else s
  let s := { s with brackets := s.brackets.tail, keys := s.keys.tail }.forbidKey
  let c ← (s.cursor.read 1).skipTrail
  let s := if s.inFlow then { s with adjacentValue := c.index } else s
  return (s.moved c).add column kind

def flowEntry (s : Layout) : Except Fault Layout := do
  let column := s.cursor.column
  let s := (← s.dropKey).allowKey.endPair
  let c ← (s.cursor.read 1).skipTrail
  return (s.moved c).add column .flowEntry

def blockEntry (s : Layout) : Except Fault Layout := do
  if s.inFlow || !s.keyAllowed then .error .misplacedEntry
  let column := s.cursor.column
  match s.tokens.back? with
  | some t =>
      if t.kind.isProperty && column == 0 && t.column == 0 && -1 < s.indent then
        .error .badIndentation
  | none => pure ()
  let s := s.moved (s.cursor.read 1)
  let s := s.roll column s.tokens.size .blockSequenceStart
  let hasTab := (s.cursor.span isGap).contains '\t'
  let c ← s.cursor.skipTrail
  if hasTab && c.peek 0 == '-' && isGapOrEnd (c.peek 1) then .error .tabInIndentation
  let s := s.moved c
  let s := if isBreak (c.peek 0) || isFlowIndicator (c.peek 0) then s.rollOne else s
  return (← s.dropKey).allowKey.add column .blockEntry

def skipKeySpace : Nat → Layout → Layout
  | 0, s => s
  | n + 1, s =>
      let x := s.cursor.peek 0
      if x == ' ' then skipKeySpace n (s.moved (s.cursor.skip 1))
      else if isBreak x then
        let s := s.moved s.cursor.lineBreak
        skipKeySpace n (if s.inFlow then s else s.allowKey)
      else if x == '#' then skipKeySpace n (s.moved s.cursor.skipLine)
      else s

def explicitKey (s : Layout) : Except Fault Layout := do
  let column := s.cursor.column
  if !s.inFlow && !s.keyAllowed then .error .misplacedKey
  let s := if s.inFlow then { s with inFlowMapping := true }
    else s.roll column s.tokens.size .blockMappingStart
  let s ← s.dropKey
  let s := if s.inFlow then s.forbidKey else s.allowKey
  let s := s.moved (s.cursor.read 1)
  let x := s.cursor.peek 0
  if !(x == ' ' || isBreak x) then .error .valueNotSeparated
  let s := skipKeySpace (s.cursor.rest.length + 1) s
  if s.cursor.peek 0 == '\t' then .error .tabInIndentation
  return s.add column .key

/-- White space behind a ":" that begins with a tab has a blank in it, unless
what follows cannot be mistaken for a nested entry. -/
def skipValueGap (c : Cursor) : Except Fault Cursor :=
  if c.peek 0 == '\t' then do
    let hasBlank := (c.span isGap).contains ' '
    let c ← c.skipTrail
    if !hasBlank && (c.peek 0 == '-' || isWordChar (c.peek 0)) then .error .valueNotSeparated
    else return c
  else .ok c

def value (s : Layout) : Except Fault Layout := do
  let column := s.cursor.column
  let line := s.cursor.line
  let isPair := !s.openPairs.isEmpty && !s.inFlowMapping
  let s := if isPair then { s with openPairs := some s.flowLevel :: s.openPairs.tail } else s
  let c ← skipValueGap (s.cursor.read 1)
  let s := s.moved c
  match s.keys with
  | some k :: ks =>
      let s := s.insert k.token k.column .key
      if isPair && k.line < line then .error .misplacedValue
      let s := if isPair then s.insert k.token k.column .flowMappingStart else s
      let s := (s.roll k.column k.token .blockMappingStart).rollOne
      return { s with keys := none :: ks }.forbidKey.add column .value
  | _ =>
      let s := if isPair then s.add column .flowMappingStart else s
      if s.inFlow then return s.rollOne.forbidKey.add column .value
      else if !s.keyAllowed then .error .misplacedValue
      else
        let s := s.roll column s.tokens.size .blockMappingStart
        return s.rollOne.allowKey.add column .value

/-- A ":" in a flow collection without white space behind it. -/
def adjacentValueMark (s : Layout) : Except Fault Layout :=
  let next := s.cursor.peek 1
  if s.cursor.index != s.adjacentValue && (next == '[' || next == '\x7b') then
    .error .valueNotSeparated
  else s.value

/-- The characters of a name. A byte order mark ends one. -/
def isNameChar (c : Char) : Bool := !isGapOrEnd c && !isFlowIndicator c && c != '\ufeff'

def named (s : Layout) (kind : String → TokenKind) : Except Fault Layout :=
  let column := s.cursor.column
  let s := s.markKey.forbidKey
  let name := (s.cursor.read 1).span isNameChar
  if name.isEmpty then .error .badName
  else .ok ((s.moved (s.cursor.read (1 + name.length))).add column (kind (String.ofList name)))

/-- The handle and the suffix of a tag that is no "!<...>". What lacks the second
"!" of a named handle is the handle "!" and the beginning of a suffix. -/
def shorthandTag (c : Cursor) : Except Fault (Cursor × TokenKind) := do
  let (c, handle) ← tagHandle false c
  let suffix := c.span isTagChar
  let c := c.read suffix.length
  let suffix ← decodedTag suffix
  if 2 ≤ handle.length && handle.getLast? == some '!' then
    return (c, .tag (String.ofList handle) (String.ofList suffix))
  else
    let suffix := handle.tail ++ suffix
    if suffix.isEmpty then return (c, .tag "" "!")
    else return (c, .tag "!" (String.ofList suffix))

def verbatimTag (c : Cursor) : Except Fault (Cursor × TokenKind) := do
  let uri := (c.read 2).span isUriChar
  let c := c.read (2 + uri.length)
  if c.peek 0 != '>' then .error .badTag
  return (c.read 1, .tag "" (String.ofList (← decodedTag uri)))

def tagToken (s : Layout) : Except Fault Layout := do
  let column := s.cursor.column
  let s := s.markKey.forbidKey
  let (c, kind) ←
    if s.cursor.peek 1 == '<' then verbatimTag s.cursor else shorthandTag s.cursor
  if isGapOrEnd (c.peek 0) || (s.inFlow && isFlowIndicator (c.peek 0)) then
    return (s.moved c).add column kind
  else .error .badTag

def blockScalar (s : Layout) (literal : Bool) : Except Fault Layout := do
  let column := s.cursor.column
  let s := s.markKey.allowKey.unrollOnes
  let (c, text) ← blockText literal s.indent s.cursor
  let style := if literal then ScalarStyle.literal else .folded
  return (s.moved c).add column (.scalar style (String.ofList text))

def quotedScalar (s : Layout) (q : Quote) : Except Fault Layout := do
  let column := s.cursor.column
  let s := s.markKey.forbidKey
  let (c, text) ← quotedText q s.inFlow s.indent s.cursor
  let s ← (s.moved c).toToken
  let style := if q = .single then ScalarStyle.singleQuoted else .doubleQuoted
  return { s with adjacentValue := s.cursor.index }.add column (.scalar style (String.ofList text))

def plainScalar (s : Layout) : Except Fault Layout := do
  let column := s.cursor.column
  let s := s.markKey.forbidKey.unrollOnes
  let (c, text) ← plainText s.inFlow (s.indent + 1) s.cursor
  let s := if c.fresh then s.allowKey else s
  let s := if !s.inFlow && !c.fresh && c.peek 0 == '#' then { s with commentLine := some c.line }
    else s
  return (s.moved c).add column (.scalar .plain (String.ofList text))

/-- The token that begins with the character at the cursor. -/
def token (s : Layout) : Except Fault Layout :=
  let c := s.cursor
  let x := c.peek 0
  let next := c.peek 1
  let alone := isGapOrEnd next
  if x == '[' then s.flowStart .flowSequenceStart
  else if x == '\x7b' then s.flowStart .flowMappingStart
  else if x == ']' then s.flowEnd .flowSequenceStart .flowSequenceEnd
  else if x == '\x7d' then s.flowEnd .flowMappingStart .flowMappingEnd
  else if x == ',' then s.flowEntry
  else if x == '-' && alone then s.blockEntry
  else if x == '?' && alone then s.explicitKey
  else if x == ':' && alone then s.value
  else if x == ':' && s.inFlow && (isFlowIndicator next || c.index == s.adjacentValue) then
    s.adjacentValueMark
  else if x == '*' then s.named .alias
  else if x == '&' then s.named .anchor
  else if x == '!' then s.tagToken
  else if x == '|' && !s.inFlow then s.blockScalar true
  else if x == '>' && !s.inFlow then s.blockScalar false
  else if x == '\'' then s.quotedScalar .single
  else if x == '"' then s.quotedScalar .double
  else if x == '%' || x == '@' || x == '\x60' then .error (.unexpectedCharacter x)
  else s.plainScalar

/-- Whether a plain scalar would go on here if no comment had ended it: on the line
after the comment, and deeper than what holds it. -/
def isInterrupted (s : Layout) : Bool :=
  let c := s.cursor
  s.commentLine.any (· + 1 == c.line) && !s.inFlow && s.indent < c.column &&
    !(c.isAtEnd || c.isAtDocumentMark) && isPlainChar false (c.peek 0) (c.peek 1)

/-- Whether the indentation does not matter for the character: in a flow collection
one that separates or closes may stand anywhere. -/
def mayStandAnywhere (s : Layout) (x : Char) : Bool :=
  s.inFlow && (x == ',' || x == ']' || x == '\x7d')

def next (s : Layout) : Except Fault Layout := do
  let s ← s.toToken
  if s.isInterrupted then .error .interruptedText
  let s ← { s with commentLine := none }.dropStaleKeys
  let s := s.unroll s.cursor.column
  let c := s.cursor
  if c.isAtEnd then s.streamEnd
  else if c.column == 0 && c.peek 0 == '%' then s.directive
  else if c.column == 0 && c.isAtMark '-' then s.documentMark .documentStart
  else if c.column == 0 && c.isAtMark '.' then s.documentMark .documentEnd
  else if c.column < s.indent && !s.mayStandAnywhere (c.peek 0) then .error .badIndentation
  else s.token

end Layout

/-- What has been read of a text: tokens, and the fault that ended the reading. -/
structure TokenStream where
  tokens : List Token
  fault : Option Fault
  deriving Repr

/-- The tokens that are certain although a fault follows: those in front of the
first one of which it is not known whether it is a key. -/
def Layout.certain (s : Layout) : List Token :=
  let numbers := (s.keys.filterMap id).filterMap fun k =>
    if s.isStale k then none else some k.token
  s.tokens.toList.take (numbers.foldl min s.tokens.size)

def tokensFrom : Nat → Layout → TokenStream
  | 0, s => ⟨s.tokens.toList, none⟩
  | n + 1, s =>
      match s.next with
      | .error fault => ⟨s.certain, some fault⟩
      | .ok s =>
          match s.tokens.back? with
          | some ⟨.streamEnd, _⟩ => ⟨s.tokens.toList, none⟩
          | _ => tokensFrom n s

/-- The tokens of a text, in front of which a byte order mark may stand. -/
def tokens (s : List Char) : TokenStream :=
  tokensFrom (s.length + 2) (.start ((withoutMark s).takeWhile (· != endMark)))

end Yaml
end CreditRating
