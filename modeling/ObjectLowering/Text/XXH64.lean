/-!
# ObjectLowering.Text.XXH64

The 64-bit xxHash digest of a byte sequence with seed zero. Bytes are taken in stripes of
thirty-two, eight to each of four lanes; what is left over is mixed in by words of eight bytes,
one of four, and single bytes, and the last step spreads every bit over the whole word.
-/

namespace ObjectLowering.Text.XXH64

def prime1 : UInt64 := 0x9E3779B185EBCA87
def prime2 : UInt64 := 0xC2B2AE3D27D4EB4F
def prime3 : UInt64 := 0x165667B19E3779F9
def prime4 : UInt64 := 0x85EBCA77C2B2AE63
def prime5 : UInt64 := 0x27D4EB2F165667C5

def rotateLeft (x amount : UInt64) : UInt64 :=
  x <<< amount ||| x >>> (64 - amount)

/-- The number whose bytes these are, least significant first. -/
def word (bytes : List UInt8) : UInt64 :=
  bytes.foldr (fun byte rest => rest <<< 8 ||| byte.toUInt64) 0

def round (lane input : UInt64) : UInt64 :=
  rotateLeft (lane + input * prime2) 31 * prime1

/-- The four lanes that a stripe is spread over. -/
structure Lanes where
  first : UInt64
  second : UInt64
  third : UInt64
  fourth : UInt64

namespace Lanes

def start : Lanes :=
  ⟨prime1 + prime2, prime2, 0, 0 - prime1⟩

def absorb (lanes : Lanes) (stripe : List UInt8) : Lanes :=
  let at8 (n : Nat) : UInt64 := word ((stripe.drop (8 * n)).take 8)
  ⟨round lanes.first (at8 0), round lanes.second (at8 1),
    round lanes.third (at8 2), round lanes.fourth (at8 3)⟩

def merge (lanes : Lanes) : UInt64 :=
  let mix (total lane : UInt64) : UInt64 := (total ^^^ round 0 lane) * prime1 + prime4
  let total := rotateLeft lanes.first 1 + rotateLeft lanes.second 7
    + rotateLeft lanes.third 12 + rotateLeft lanes.fourth 18
  [lanes.first, lanes.second, lanes.third, lanes.fourth].foldl mix total

end Lanes

/-- The lanes after all whole stripes, and the bytes left over. -/
def stripes (lanes : Lanes) (bytes : List UInt8) : Lanes × List UInt8 :=
  if 32 ≤ bytes.length then
    stripes (lanes.absorb (bytes.take 32)) (bytes.drop 32)
  else
    (lanes, bytes)
  termination_by bytes.length
  decreasing_by simp only [List.length_drop]; omega

def absorbBytes (total : UInt64) (bytes : List UInt8) : UInt64 :=
  bytes.foldl (fun total byte => rotateLeft (total ^^^ byte.toUInt64 * prime5) 11 * prime1) total

/-- The bytes left over, of which there are fewer than eight. -/
def absorbHalfWord (total : UInt64) (bytes : List UInt8) : UInt64 :=
  if 4 ≤ bytes.length then
    absorbBytes (rotateLeft (total ^^^ word (bytes.take 4) * prime1) 23 * prime2 + prime3)
      (bytes.drop 4)
  else
    absorbBytes total bytes

def absorbRest (total : UInt64) (bytes : List UInt8) : UInt64 :=
  if 8 ≤ bytes.length then
    absorbRest (rotateLeft (total ^^^ round 0 (word (bytes.take 8))) 27 * prime1 + prime4)
      (bytes.drop 8)
  else
    absorbHalfWord total bytes
  termination_by bytes.length
  decreasing_by simp only [List.length_drop]; omega

/-- Spreads every bit over the whole word. -/
def avalanche (x : UInt64) : UInt64 :=
  let x := (x ^^^ x >>> 33) * prime2
  let x := (x ^^^ x >>> 29) * prime3
  x ^^^ x >>> 32

def digest (bytes : List UInt8) : UInt64 :=
  let (lanes, rest) := stripes Lanes.start bytes
  let total := if 32 ≤ bytes.length then lanes.merge else prime5
  avalanche (absorbRest (total + bytes.length.toUInt64) rest)

def digestString (text : String) : UInt64 :=
  digest text.toUTF8.toList

end ObjectLowering.Text.XXH64
