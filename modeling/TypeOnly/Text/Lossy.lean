/-!
Reading bytes as text although some of them are none.
-/

namespace TypeOnly.Text

set_option autoImplicit false

/-- The bytes that can follow the first byte of a character: how many, and the least and the
greatest that can come first. -/
def followers (b : Nat) : Option (Nat × Nat × Nat) :=
  if b < 0x80 then some (0, 0x80, 0xbf)
  else if 0xc2 ≤ b && b ≤ 0xdf then some (1, 0x80, 0xbf)
  else if b = 0xe0 then some (2, 0xa0, 0xbf)
  else if b = 0xed then some (2, 0x80, 0x9f)
  else if 0xe1 ≤ b && b ≤ 0xef then some (2, 0x80, 0xbf)
  else if b = 0xf0 then some (3, 0x90, 0xbf)
  else if 0xf1 ≤ b && b ≤ 0xf3 then some (3, 0x80, 0xbf)
  else if b = 0xf4 then some (3, 0x80, 0x8f)
  else none

/-- The longest run of at most `count` bytes that can follow, and their value after `value`. -/
def following : Nat → Nat → Nat → Nat → List Nat → Nat × Nat
  | 0, _, _, value, _ => (0, value)
  | _ + 1, _, _, value, [] => (0, value)
  | count + 1, low, high, value, b :: rest =>
    if low ≤ b && b ≤ high then
      let (n, v) := following count 0x80 0xbf (value * 64 + (b - 0x80)) rest
      (n + 1, v)
    else (0, value)

/-- The value of the bits of a first byte. -/
def leading (count b : Nat) : Nat :=
  match count with
  | 0 => b
  | 1 => b - 0xc0
  | 2 => b - 0xe0
  | _ => b - 0xf0

/-- Reads bytes; each longest run that begins a character and does not end it, and each byte that
begins none, becomes a replacement character. -/
def lossyFrom : Nat → List Nat → List Char
  | 0, _ => []
  | _ + 1, [] => []
  | steps + 1, b :: rest =>
    match followers b with
    | none => Char.ofNat 0xfffd :: lossyFrom steps rest
    | some (count, low, high) =>
      let (n, value) := following count low high (leading count b) rest
      Char.ofNat (if n = count then value else 0xfffd) :: lossyFrom steps (rest.drop n)

def lossy (bytes : ByteArray) : String :=
  let values := bytes.toList.map UInt8.toNat
  String.ofList (lossyFrom values.length values)

end TypeOnly.Text
