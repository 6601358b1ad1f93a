/-!
UTF-8. A byte sequence is split into the characters of its longest well-formed
beginning and the bytes that are left, so that the length of that beginning can
be reported.
-/

namespace CreditRating
namespace Utf8

def encode (s : List Char) : List UInt8 :=
  s.flatMap String.utf8EncodeChar

/-- The six bits that a continuation byte carries. -/
def tail? (b : UInt8) : Option Nat :=
  if 0x80 ≤ b.toNat ∧ b.toNat < 0xC0 then some (b.toNat - 0x80) else none

/-- The character of a code point that is at least `least`, so that no longer
form than needed is read. -/
def scalar? (least n : Nat) : Option Char :=
  if h : n.isValidChar then (if least ≤ n then some (Char.ofNatAux n h) else none) else none

def pair? (a b : UInt8) : Option Char := do
  guard (0xC0 ≤ a.toNat ∧ a.toNat < 0xE0)
  scalar? 0x80 ((a.toNat - 0xC0) * 0x40 + (← tail? b))

def triple? (a b c : UInt8) : Option Char := do
  guard (0xE0 ≤ a.toNat ∧ a.toNat < 0xF0)
  scalar? 0x800 (((a.toNat - 0xE0) * 0x40 + (← tail? b)) * 0x40 + (← tail? c))

def quadruple? (a b c d : UInt8) : Option Char := do
  guard (0xF0 ≤ a.toNat ∧ a.toNat < 0xF8)
  scalar? 0x10000
    ((((a.toNat - 0xF0) * 0x40 + (← tail? b)) * 0x40 + (← tail? c)) * 0x40 + (← tail? d))

/-- One more character in front of a split. -/
def push (c : Char) (r : List Char × List UInt8) : List Char × List UInt8 :=
  (c :: r.1, r.2)

/-- The characters of the longest well-formed beginning, and the bytes after it. -/
def split : List UInt8 → List Char × List UInt8
  | [] => ([], [])
  | a :: s =>
      if a.toNat < 0x80 then push (Char.ofUInt8 a) (split s)
      else match s with
        | [] => ([], [a])
        | b :: s₁ =>
            match pair? a b with
            | some x => push x (split s₁)
            | none =>
                match s₁ with
                | [] => ([], [a, b])
                | c :: s₂ =>
                    match triple? a b c with
                    | some x => push x (split s₂)
                    | none =>
                        match s₂ with
                        | [] => ([], [a, b, c])
                        | d :: s₃ =>
                            match quadruple? a b c d with
                            | some x => push x (split s₃)
                            | none => ([], a :: b :: c :: d :: s₃)

/-- The text, or the number of bytes before the first that belongs to no character. -/
def decode (s : List UInt8) : Except Nat (List Char) :=
  match split s with
  | (cs, []) => .ok cs
  | (_, rest) => .error (s.length - rest.length)

end Utf8
end CreditRating
