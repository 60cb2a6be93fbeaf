/-!
# UTF-8

Source files are bytes. `Utf8.encode` writes a text as bytes, `Utf8.decode` reads bytes as a text
or names the first fault, and `Utf8.glyphs` reads bytes character by character without failing: a
byte that belongs to no character becomes a glyph of width one that is no letter, blank or mark.

A fault names the bytes that cannot be read: one stray byte, or a sequence cut short. A sequence
whose second byte is wrong faults at its first byte alone, one whose third byte is wrong at its
first two, so the reader may go on at the byte that does not belong.
-/

namespace Transplant

/-- The content of a file. -/
abbrev Bytes := List UInt8

namespace Utf8

/-- The bytes of a text. -/
def encode (s : String) : Bytes := s.toList.flatMap String.utf8EncodeChar

/-- Why a byte sequence is not a character. -/
inductive Reason where
  | start
  | truncated
  | continuation
deriving DecidableEq, Repr

/-- The wording of a reason. -/
def Reason.message : Reason → String
  | .start => "invalid start byte"
  | .truncated => "unexpected end of data"
  | .continuation => "invalid continuation byte"

/-- What stands at the head of a byte sequence: a character with its width, or a fault with the
number of bytes it spoils. -/
inductive Head where
  | char (c : Char) (width : Nat)
  | fault (reason : Reason) (width : Nat)
deriving Repr

/-- Whether a byte continues a character. -/
def isContinuation (b : Nat) : Bool := 0x80 ≤ b && b < 0xC0

/-- Whether `b` may be the second byte after the first byte `a`: a continuation byte that gives
neither a longer form than needed, nor a surrogate, nor a code point above the last one. -/
def isSecond (a b : Nat) : Bool :=
  isContinuation b &&
    !(a == 0xE0 && b < 0xA0) && !(a == 0xED && 0xA0 ≤ b) &&
    !(a == 0xF0 && b < 0x90) && !(a == 0xF4 && 0x90 ≤ b)

/-- The number of bytes that a character starting with `a` takes, `0` if none starts so. -/
def widthOf (a : Nat) : Nat :=
  if a < 0x80 then 1 else if a < 0xC2 then 0 else if a < 0xE0 then 2
  else if a < 0xF0 then 3 else if a < 0xF5 then 4 else 0

/-- Reads the character at the head. -/
def head : (first : Nat) → (rest : List Nat) → Head
  | a, rest =>
    match widthOf a, rest with
    | 1, _ => .char (Char.ofNat a) 1
    | 2, [] => .fault .truncated 1
    | 2, b :: _ =>
      if isSecond a b then .char (Char.ofNat ((a - 0xC0) * 64 + (b - 0x80))) 2
      else .fault .continuation 1
    | 3, [] => .fault .truncated 1
    | 3, [b] => if isSecond a b then .fault .truncated 2 else .fault .continuation 1
    | 3, b :: c :: _ =>
      if !isSecond a b then .fault .continuation 1
      else if !isContinuation c then .fault .continuation 2
      else .char (Char.ofNat ((a - 0xE0) * 4096 + (b - 0x80) * 64 + (c - 0x80))) 3
    | 4, [] => .fault .truncated 1
    | 4, [b] => if isSecond a b then .fault .truncated 2 else .fault .continuation 1
    | 4, [b, c] =>
      if !isSecond a b then .fault .continuation 1
      else if isContinuation c then .fault .truncated 3 else .fault .continuation 2
    | 4, b :: c :: d :: _ =>
      if !isSecond a b then .fault .continuation 1
      else if !isContinuation c then .fault .continuation 2
      else if !isContinuation d then .fault .continuation 3
      else .char (Char.ofNat
        ((a - 0xF0) * 262144 + (b - 0x80) * 4096 + (c - 0x80) * 64 + (d - 0x80))) 4
    | _, _ => .fault .start 1

/-- The first bytes that cannot be read: `[start, stop)`, the byte at `start`, and why. -/
structure Fault where
  start : Nat
  stop : Nat
  byte : UInt8
  reason : Reason
deriving DecidableEq, Repr

/-- A byte as two hexadecimal digits. -/
def hexByte (b : UInt8) : String :=
  let digits := Nat.toDigits 16 b.toNat
  String.ofList (if digits.length < 2 then '0' :: digits else digits)

/-- The wording of a fault: a single byte is shown, several are given by their positions. -/
def Fault.message (f : Fault) : String :=
  let place :=
    if f.stop = f.start + 1 then s!"byte 0x{hexByte f.byte} in position {f.start}"
    else s!"bytes in position {f.start}-{f.stop - 1}"
  s!"'utf-8' codec can't decode {place}: {f.reason.message}"

/-- Reads the bytes from offset `at_` on; `skip` bytes of the current character remain. -/
def decodeFrom (at_ skip : Nat) : Bytes → Except Fault (List Char)
  | [] => .ok []
  | b :: rest =>
    match skip with
    | skip + 1 => decodeFrom (at_ + 1) skip rest
    | 0 =>
      match head b.toNat (rest.take 3 |>.map UInt8.toNat) with
      | .char c width => (decodeFrom (at_ + 1) (width - 1) rest).map (c :: ·)
      | .fault reason width => .error ⟨at_, at_ + width, b, reason⟩

/-- The text of the bytes, or the first fault in them. -/
def decode (bytes : Bytes) : Except Fault String :=
  (decodeFrom 0 0 bytes).map String.ofList

/-- A character of a source with the number of bytes it takes there. -/
structure Glyph where
  char : Char
  width : Nat
deriving DecidableEq, Repr, Inhabited

/-- The character that stands for a byte which belongs to none. -/
def stray : Char := Char.ofNat 0xFFFD

/-- Reads the bytes character by character; `skip` bytes of the current one remain. -/
def glyphsFrom (skip : Nat) : Bytes → List Glyph
  | [] => []
  | b :: rest =>
    match skip with
    | skip + 1 => glyphsFrom skip rest
    | 0 =>
      match head b.toNat (rest.take 3 |>.map UInt8.toNat) with
      | .char c width => ⟨c, width⟩ :: glyphsFrom (width - 1) rest
      | .fault _ _ => ⟨stray, 1⟩ :: glyphsFrom 0 rest

/-- The characters of the bytes, each stray byte as a glyph of its own. -/
def glyphs (bytes : Bytes) : List Glyph := glyphsFrom 0 bytes

end Utf8
end Transplant
