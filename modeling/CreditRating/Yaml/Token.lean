/-!
The tokens of a YAML text.
-/

namespace CreditRating
namespace Yaml

inductive ScalarStyle where
  | plain
  | singleQuoted
  | doubleQuoted
  | literal
  | folded
  deriving DecidableEq, Repr

def ScalarStyle.isQuoted : ScalarStyle → Bool
  | .singleQuoted | .doubleQuoted => true
  | _ => false

inductive TokenKind where
  | streamEnd
  | versionDirective
  | tagDirective (handle lead : String)
  | documentStart
  | documentEnd
  | blockSequenceStart
  | blockMappingStart
  | blockEnd
  | flowSequenceStart
  | flowSequenceEnd
  | flowMappingStart
  | flowMappingEnd
  | blockEntry
  | flowEntry
  | key
  | value
  | alias (name : String)
  | anchor (name : String)
  | tag (handle suffix : String)
  | scalar (style : ScalarStyle) (text : String)
  deriving DecidableEq, Repr

structure Token where
  kind : TokenKind
  /-- The column at which the token begins. -/
  column : Nat
  deriving DecidableEq, Repr

/-- Whether a token gives a property to the node that follows it. -/
def TokenKind.isProperty : TokenKind → Bool
  | .anchor _ | .tag _ _ => true
  | _ => false

end Yaml
end CreditRating
