/-!
Base64: four digits of six bits for each three bytes. At the end "=" stands for
a missing byte, and the bits that no byte takes are 0, so that each byte
sequence has one form.
-/

namespace CreditRating
namespace Base64

def digits : List Char :=
  "ABCDEFGHIJKLMNOPQRSTUVWXYZabcdefghijklmnopqrstuvwxyz0123456789+/".toList

def value? (c : Char) : Option Nat := digits.idxOf? c

def decode? : List Char → Option (List UInt8)
  | [] => some []
  | a :: b :: c :: d :: s => do
      let x ← value? a
      let y ← value? b
      let first := UInt8.ofNat (4 * x + y / 16)
      if c = '=' then
        guard (d = '=' ∧ s = [] ∧ y % 16 = 0)
        return [first]
      else
        let z ← value? c
        let second := UInt8.ofNat (16 * (y % 16) + z / 4)
        if d = '=' then
          guard (s = [] ∧ z % 4 = 0)
          return [first, second]
        else
          let third := UInt8.ofNat (64 * (z % 4) + (← value? d))
          return first :: second :: third :: (← decode? s)
  | _ => none

end Base64
end CreditRating
