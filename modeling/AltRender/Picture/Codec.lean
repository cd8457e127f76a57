import AltRender.Picture.Basic

/-!
# `Picture/Codec` — pictures and the bytes of their files

How a picture stands in a file is nothing the library decides. It is given a *codec*: one function
that reads a picture from bytes, in whatever format they are, and one that writes a picture as
bytes. Either may fail, and then it says why. A render reads its source with the one and writes its
entry with the other, so it can fail at both.

Most of what is known about renders does not depend on what the bytes of a file mean and holds for
every codec. The rest speaks of the picture that an entry holds. For that the codec must be able to
read what it wrote (`Codec.ReadsBack`), and it is asked for no more: only for the two forms in which
filters leave a picture, 8-bit RGB and RGBA, and only where it could write the picture at all. How
it packs the samples, what else it can read and which pictures it refuses is left open.

`Picture/Container` has a codec of this kind.
-/

set_option autoImplicit false

namespace AltRender

/-- **What reads pictures from bytes and writes them as bytes,** or says why it cannot. -/
structure Codec where
  decode : List UInt8 → Except String Picture
  encode : Picture → Except String (List UInt8)

/-- **A picture that was written is read back,** if it is in 8-bit RGB or RGBA. -/
def Codec.ReadsBack (codec : Codec) : Prop :=
  ∀ (w : Picture.Working) (bytes : List UInt8), codec.encode (.ofWorking w) = .ok bytes →
    codec.decode bytes = .ok (.ofWorking w)

end AltRender
