import AltRender.Text.Letters

/-!
# `Digest` — SHA-256

Cache entries carry a fingerprint of the identity of their source, cut from its SHA-256 digest. The
message is padded to whole blocks of sixteen words; each block stirs the eight words of the state in
64 rounds, and what comes out is added to what went in. The words of the message schedule are made
as they are needed, from a window of the sixteen before.

Main facts: a digest has 32 bytes (`length_digest`) and so 64 hexadecimal digits
(`length_hexDigest`).
-/

set_option autoImplicit false

namespace AltRender.Digest

open AltRender.Text

/-! ## The state -/

structure State where
  a : UInt32
  b : UInt32
  c : UInt32
  d : UInt32
  e : UInt32
  f : UInt32
  g : UInt32
  h : UInt32

/-- The state before the first block: the first 32 bits of the fractions of the square roots of the
first eight primes. -/
def State.start : State :=
  ⟨0x6a09e667, 0xbb67ae85, 0x3c6ef372, 0xa54ff53a, 0x510e527f, 0x9b05688c, 0x1f83d9ab, 0x5be0cd19⟩

/-- Word by word, the sum of two states. -/
def State.add (s t : State) : State :=
  ⟨s.a + t.a, s.b + t.b, s.c + t.c, s.d + t.d, s.e + t.e, s.f + t.f, s.g + t.g, s.h + t.h⟩

def State.words (s : State) : List UInt32 :=
  [s.a, s.b, s.c, s.d, s.e, s.f, s.g, s.h]

/-! ## Rounds -/

/-- The bits of a word moved to the right, those that fall out coming in on the left. -/
def rotate (x : UInt32) (n : UInt32) : UInt32 :=
  (x >>> n) ||| (x <<< (32 - n))

def State.round (s : State) (kw : UInt32) : State :=
  let big1 := rotate s.e 6 ^^^ rotate s.e 11 ^^^ rotate s.e 25
  let choice := (s.e &&& s.f) ^^^ ((~~~ s.e) &&& s.g)
  let t₁ := s.h + big1 + choice + kw
  let big0 := rotate s.a 2 ^^^ rotate s.a 13 ^^^ rotate s.a 22
  let majority := (s.a &&& s.b) ^^^ (s.a &&& s.c) ^^^ (s.b &&& s.c)
  ⟨t₁ + (big0 + majority), s.a, s.b, s.c, s.d + t₁, s.e, s.f, s.g⟩

/-- The constants of the 64 rounds: the first 32 bits of the fractions of the cube roots of the
first primes. -/
def roundConstants : List UInt32 :=
  [0x428a2f98, 0x71374491, 0xb5c0fbcf, 0xe9b5dba5, 0x3956c25b, 0x59f111f1, 0x923f82a4, 0xab1c5ed5,
   0xd807aa98, 0x12835b01, 0x243185be, 0x550c7dc3, 0x72be5d74, 0x80deb1fe, 0x9bdc06a7, 0xc19bf174,
   0xe49b69c1, 0xefbe4786, 0x0fc19dc6, 0x240ca1cc, 0x2de92c6f, 0x4a7484aa, 0x5cb0a9dc, 0x76f988da,
   0x983e5152, 0xa831c66d, 0xb00327c8, 0xbf597fc7, 0xc6e00bf3, 0xd5a79147, 0x06ca6351, 0x14292967,
   0x27b70a85, 0x2e1b2138, 0x4d2c6dfc, 0x53380d13, 0x650a7354, 0x766a0abb, 0x81c2c92e, 0x92722c85,
   0xa2bfe8a1, 0xa81a664b, 0xc24b8b70, 0xc76c51a3, 0xd192e819, 0xd6990624, 0xf40e3585, 0x106aa070,
   0x19a4c116, 0x1e376c08, 0x2748774c, 0x34b0bcb5, 0x391c0cb3, 0x4ed8aa4a, 0x5b9cca4f, 0x682e6ff3,
   0x748f82ee, 0x78a5636f, 0x84c87814, 0x8cc70208, 0x90befffa, 0xa4506ceb, 0xbef9a3f7, 0xc67178f2]

/-- The word of the schedule that follows a window of sixteen. -/
def nextWord (window : List UInt32) : UInt32 :=
  let w (i : Nat) : UInt32 := window.getD i 0
  let small0 := rotate (w 1) 7 ^^^ rotate (w 1) 18 ^^^ (w 1 >>> 3)
  let small1 := rotate (w 14) 17 ^^^ rotate (w 14) 19 ^^^ (w 14 >>> 10)
  small1 + w 9 + small0 + w 0

/-- The state after all rounds of a block, not yet added to the one before. -/
def stir (constants : List UInt32) (window : List UInt32) (s : State) : State :=
  match constants with
  | [] => s
  | k :: ks => stir ks (window.tail ++ [nextWord window]) (s.round (k + window.headD 0))

def State.absorb (s : State) (block : List UInt32) : State :=
  s.add (stir roundConstants block s)

/-! ## Messages -/

/-- The four bytes of a word, the highest first. -/
def wordBytes (w : UInt32) : List UInt8 :=
  [(w >>> 24).toUInt8, (w >>> 16).toUInt8, (w >>> 8).toUInt8, w.toUInt8]

/-- The words of a message of whole words. -/
def wordsOf : List UInt8 → List UInt32
  | a :: b :: c :: d :: rest =>
    ((a.toUInt32 <<< 24) ||| (b.toUInt32 <<< 16) ||| (c.toUInt32 <<< 8) ||| d.toUInt32) ::
      wordsOf rest
  | _ => []

/-- A message padded to whole blocks: a single one bit, zeros, and the number of its bits in 64. -/
def padded (message : List UInt8) : List UInt8 :=
  let bits := UInt64.ofNat (8 * message.length)
  let zeros := (119 - message.length % 64) % 64
  message ++ (0x80 : UInt8) :: List.replicate zeros (0 : UInt8) ++
    wordBytes (bits >>> 32).toUInt32 ++ wordBytes bits.toUInt32

def blocksOf (words : List UInt32) : List (List UInt32) :=
  if 0 < words.length then words.take 16 :: blocksOf (words.drop 16) else []
termination_by words.length

/-- **The digest of a message.** -/
def digest (message : List UInt8) : List UInt8 :=
  ((blocksOf (wordsOf (padded message))).foldl State.absorb State.start).words.flatMap wordBytes

/-- The digest of a text's UTF-8 bytes, in hexadecimal. -/
def hexDigest (text : String) : List Char :=
  (digest text.toUTF8.data.toList).flatMap (hexByte false)

/-- **A digest has 32 bytes.** -/
theorem length_digest (message : List UInt8) : (digest message).length = 32 := by
  simp [digest, State.words, wordBytes]

theorem length_hexDigest (text : String) : (hexDigest text).length = 64 := by
  simp [hexDigest, hexByte, List.length_flatMap, List.map_const', length_digest]

end AltRender.Digest
