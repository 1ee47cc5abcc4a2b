/-!
# Text: bytes that are no UTF-8

Where bytes cannot be read as UTF-8, the fault is the first place where no character can be read:
either the bytes end inside a character, or a number of bytes there can begin none.
-/

namespace BoxDiagram.Text.Utf8

/-- Where reading stops, and how many bytes are wrong there; none if bytes are missing. -/
structure Fault where
  index : Nat
  wrong : Option Nat
  deriving DecidableEq, Repr

namespace Fault

def message (f : Fault) : String :=
  match f.wrong with
  | some n =>
    "invalid utf-8 sequence of " ++ toString n ++ " bytes from index " ++ toString f.index
  | none => "incomplete utf-8 byte sequence from index " ++ toString f.index

end Fault

/-- The number of bytes of a character beyond the first two, and the range of its second byte, by
its first byte. -/
def form? (lead : UInt8) : Option (Nat × UInt8 × UInt8) :=
  if 0xC2 ≤ lead && lead ≤ 0xDF then some (0, 0x80, 0xBF)
  else if lead = 0xE0 then some (1, 0xA0, 0xBF)
  else if lead = 0xED then some (1, 0x80, 0x9F)
  else if 0xE1 ≤ lead && lead ≤ 0xEF then some (1, 0x80, 0xBF)
  else if lead = 0xF0 then some (2, 0x90, 0xBF)
  else if lead = 0xF4 then some (2, 0x80, 0x8F)
  else if 0xF1 ≤ lead && lead ≤ 0xF3 then some (2, 0x80, 0xBF)
  else none

/-- A byte that continues a character. -/
def isContinuation (b : UInt8) : Bool := 0x80 ≤ b && b ≤ 0xBF

/-- The first fault; `index` is the place of the first byte. -/
def faultFrom? (index : Nat) : List UInt8 → Option Fault
  | [] => none
  | a :: rest =>
    if a < 0x80 then faultFrom? (index + 1) rest
    else match form? a, rest with
      | none, _ => some ⟨index, some 1⟩
      | some _, [] => some ⟨index, none⟩
      | some (more, low, high), b :: rest =>
        if b < low || high < b then some ⟨index, some 1⟩
        else match more, rest with
          | 0, rest => faultFrom? (index + 2) rest
          | _, [] => some ⟨index, none⟩
          | more + 1, c :: rest =>
            if !isContinuation c then some ⟨index, some 2⟩
            else match more, rest with
              | 0, rest => faultFrom? (index + 3) rest
              | _, [] => some ⟨index, none⟩
              | _ + 1, d :: rest =>
                if !isContinuation d then some ⟨index, some 3⟩ else faultFrom? (index + 4) rest

/-- Reads bytes as text. -/
def decode (bytes : ByteArray) : Except Fault String :=
  match String.fromUTF8? bytes with
  | some s => .ok s
  | none => .error ((faultFrom? 0 bytes.toList).getD ⟨0, none⟩)

end BoxDiagram.Text.Utf8
