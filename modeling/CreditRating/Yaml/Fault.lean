/-!
What can be wrong with a YAML text or with the shape of what it says.
-/

namespace CreditRating
namespace Yaml

inductive Fault where
  | tabInIndentation
  | badIndentation
  | unexpectedCharacter (c : Char)
  /-- Something follows on a line on which nothing may follow. -/
  | trailingContent
  | commentNotSeparated
  | misplacedEntry
  | misplacedKey
  | misplacedValue
  | valueNotSeparated
  | keyWithoutValue
  | unclosedQuote
  | badEscape
  | badName
  | badTag
  | undeclaredHandle (handle : String)
  | badDirective
  | badBlockHeader
  | unbalancedBracket
  /-- Flow collections are nested too deep. -/
  | tooDeep
  /-- A comment stands between two lines of a plain scalar. -/
  | interruptedText
  | missingContent
  | missingSeparator
  | missingDocumentStart
  | unknownAnchor (name : String)
  /-- There are too many aliases for so few anchors. -/
  | manyAliases
  | manyDocuments
  | duplicateKey
  | unexpectedNull
  | badMerge
  | notText
  | notNumber
  | notMapping
  | unknownField (name : String)
  deriving DecidableEq, Repr

/-- A description in words of this library. Nothing is decided by it, and other readers of YAML word
what they find in their own way. -/
def Fault.message : Fault → String
  | tabInIndentation => "a tab is used as indentation"
  | badIndentation => "the indentation is wrong"
  | unexpectedCharacter c => "the character '" ++ String.ofList [c] ++ "' is not expected here"
  | trailingContent => "nothing may follow here"
  | commentNotSeparated => "a comment is not separated by white space"
  | misplacedEntry => "a sequence entry is not allowed here"
  | misplacedKey => "a mapping key is not allowed here"
  | misplacedValue => "a mapping value is not allowed here"
  | valueNotSeparated => "a mapping value is not separated by white space"
  | keyWithoutValue => "a mapping key has no value"
  | unclosedQuote => "a quoted text is not closed"
  | badEscape => "an escape sequence is not known"
  | badName => "an anchor or alias has no name"
  | badTag => "a tag cannot be read"
  | undeclaredHandle handle => "the tag handle '" ++ handle ++ "' is not declared"
  | badDirective => "a directive cannot be read"
  | badBlockHeader => "the header of a block text cannot be read"
  | unbalancedBracket => "brackets are not balanced"
  | tooDeep => "brackets are nested too deep"
  | interruptedText => "a comment interrupts a text"
  | missingContent => "content is missing"
  | missingSeparator => "a separator is missing"
  | missingDocumentStart => "a document start is missing"
  | unknownAnchor name => "the anchor '" ++ name ++ "' is not known"
  | manyAliases => "there are too many aliases"
  | manyDocuments => "there is more than one document"
  | duplicateKey => "a key occurs twice"
  | unexpectedNull => "null is not allowed here"
  | badMerge => "only mappings can be merged"
  | notText => "a text is expected"
  | notNumber => "a number is expected"
  | notMapping => "a mapping is expected"
  | unknownField name => "the field '" ++ name ++ "' is not known"

end Yaml
end CreditRating
