/-!
Select Graphic Rendition sequences around texts.
-/

namespace CreditRating
namespace Terminal

/-- A rendition: the code that turns it on and the code that turns it off. -/
structure Style where
  on : Nat
  off : Nat
  deriving DecidableEq, Repr

def bold : Style := ⟨1, 0⟩
def dimmed : Style := ⟨2, 0⟩
def italic : Style := ⟨3, 0⟩
def red : Style := ⟨31, 39⟩
def green : Style := ⟨32, 39⟩
def yellow : Style := ⟨33, 39⟩
def cyan : Style := ⟨36, 39⟩

def escape (code : Nat) : String :=
  String.ofList ('\x1b' :: '[' :: Nat.toDigits 10 code ++ ['m'])

def Style.paint (s : Style) (text : String) : String :=
  escape s.on ++ text ++ escape s.off

inductive Colors where
  | off
  | on
  deriving DecidableEq, Repr

def Colors.paint (c : Colors) (s : Style) (text : String) : String :=
  match c with
  | .off => text
  | .on => s.paint text

end Terminal
end CreditRating
