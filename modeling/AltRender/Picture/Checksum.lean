/-!
# `Picture/Checksum` — the two checksums of a picture file

Each chunk of a file ends in the remainder of its bits, read as a polynomial, by a fixed one of
degree 32; the packed samples end in two running sums modulo 65521.

Both are worked out byte by byte from the left. The first takes the eight bits of a byte one at a
time, lowest first; the second keeps its two sums below the modulus at every byte, so that nothing
grows with the length. A reader that finds another sum than the one it is told knows that the bytes
are not those that were written, not where they differ.
-/

set_option autoImplicit false

namespace AltRender.Picture

/-- One bit of a remainder shifted out. -/
def crcBit (r : UInt32) : UInt32 :=
  if r &&& 1 = 1 then (r >>> 1) ^^^ 0xEDB88320 else r >>> 1

/-- A remainder with one more byte. -/
def crcByte (r : UInt32) (b : UInt8) : UInt32 :=
  crcBit (crcBit (crcBit (crcBit (crcBit (crcBit (crcBit (crcBit (r ^^^ b.toUInt32))))))))

/-- The remainder of the bytes of a chunk. -/
def crc (bytes : List UInt8) : UInt32 :=
  bytes.foldl crcByte 0xFFFFFFFF ^^^ 0xFFFFFFFF

def adlerModulus : Nat := 65521

/-- The sum of the bytes and the sum of all such sums so far, as one number. -/
def adler (bytes : List UInt8) : UInt32 :=
  let (low, high) := bytes.foldl (fun (low, high) b =>
    let low := (low + b.toNat) % adlerModulus
    (low, (high + low) % adlerModulus)) (1, 0)
  UInt32.ofNat (high * 65536 + low)

end AltRender.Picture
