/-!
# Reading UTF-8

A file's bytes are read as UTF-8 without leniency: the shortest form only, no surrogates, nothing
above U+10FFFF. Where the bytes are not UTF-8 the reader names the bytes at fault, which are a
malformed sequence's longest beginning that some character could have continued, and the reason.
-/

namespace WorldDoc.Utf8

/-- Why bytes are not UTF-8. -/
inductive Reason where
  | startByte
  | continuationByte
  | endOfData
  deriving DecidableEq, Repr

/-- The wording of a reason. -/
def Reason.message : Reason → String
  | .startByte => "invalid start byte"
  | .continuationByte => "invalid continuation byte"
  | .endOfData => "unexpected end of data"

/-- A malformed sequence: its first byte, the offset and number of the bytes at fault, and why. -/
structure Fault where
  byte : UInt8
  offset : Nat
  count : Nat
  reason : Reason
  deriving DecidableEq, Repr

/-- A byte as two hexadecimal digits. -/
def hexByte (b : UInt8) : String :=
  String.ofList [Nat.digitChar (b.toNat / 16), Nat.digitChar (b.toNat % 16)]

/-- The wording of a fault: the byte itself when it stands alone, else the span of offsets. -/
def Fault.message (f : Fault) : String :=
  let place :=
    if f.count = 1 then s!"byte 0x{hexByte f.byte} in position {f.offset}"
    else s!"bytes in position {f.offset}-{f.offset + f.count - 1}"
  s!"'utf-8' codec can't decode {place}: {f.reason.message}"

/-- What a first byte announces: how many bytes follow it, the bits of the code point that it holds,
and the least and greatest byte that may come second. -/
structure Lead where
  following : Nat
  bits : Nat
  least : Nat
  greatest : Nat

/-- The first bytes of a sequence. The narrower ranges for the second byte leave out longer forms
than needed, surrogates and code points above U+10FFFF. -/
def Lead.ofByte? (byte : UInt8) : Option Lead :=
  let b := byte.toNat
  if b < 0x80 then some ⟨0, b, 0, 0⟩
  else if b < 0xC2 then none
  else if b < 0xE0 then some ⟨1, b - 0xC0, 0x80, 0xBF⟩
  else if b = 0xE0 then some ⟨2, 0, 0xA0, 0xBF⟩
  else if b = 0xED then some ⟨2, 0xD, 0x80, 0x9F⟩
  else if b < 0xF0 then some ⟨2, b - 0xE0, 0x80, 0xBF⟩
  else if b = 0xF0 then some ⟨3, 0, 0x90, 0xBF⟩
  else if b < 0xF4 then some ⟨3, b - 0xF0, 0x80, 0xBF⟩
  else if b = 0xF4 then some ⟨3, 4, 0x80, 0x8F⟩
  else none

/-- The bytes at the head of `bytes` that continue a sequence: at most `following`, the first of
them between `least` and `greatest`, the others any continuation byte. -/
def continuation (least greatest : Nat) : Nat → List UInt8 → List UInt8
  | 0, _ => []
  | _, [] => []
  | following + 1, b :: bytes =>
    if least ≤ b.toNat ∧ b.toNat ≤ greatest then b :: continuation 0x80 0xBF following bytes else []

/-- The code point of a complete sequence. -/
def codePoint (bits : Nat) (tail : List UInt8) : Nat :=
  tail.foldl (fun n b => n * 64 + (b.toNat - 0x80)) bits

/-- Reads on at `offset`, with the characters before it in `read`, the latest first. -/
def decodeFrom (read : List Char) (offset : Nat) : List UInt8 → Except Fault (List Char)
  | [] => .ok read.reverse
  | b :: bytes =>
    match Lead.ofByte? b with
    | none => .error ⟨b, offset, 1, .startByte⟩
    | some lead =>
      let tail := continuation lead.least lead.greatest lead.following bytes
      let rest := bytes.drop tail.length
      if tail.length = lead.following then
        decodeFrom (Char.ofNat (codePoint lead.bits tail) :: read) (offset + 1 + tail.length) rest
      else
        .error ⟨b, offset, 1 + tail.length, if rest.isEmpty then .endOfData else .continuationByte⟩
  termination_by bytes => bytes.length

/-- The text that the bytes write in UTF-8, or the first fault in them. -/
def decode (bytes : List UInt8) : Except Fault (List Char) := decodeFrom [] 0 bytes

end WorldDoc.Utf8
