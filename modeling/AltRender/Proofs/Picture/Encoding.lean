import AltRender.Picture.Container
import Mathlib.Algebra.Group.Nat.Defs

/-!
# `Proofs/Picture/Encoding` — a picture written is read back

A file is read back from the outside in: its shape from where it always stands, its blocks from
behind that, from these the rows, from the rows the samples and from the samples the pixels. For
each of these there is one lemma, which says that what was put in comes out again, whatever follows
it in the file. Only the sizes of a picture can get lost: they have four bytes, and a picture that
is larger cannot be told from a smaller one.

* `unblock_blocks`, `unscan_scanlines` and `bitmapOf?_samples`: blocks, rows and pixels;
* `candidate?_toContainer`: the picture is found again in its file;
* `Codec.readsBack_container`: so the codec of these files reads back what it wrote.
-/

set_option autoImplicit false

namespace AltRender

namespace Picture

/-! ## Numbers -/

theorem numberOf_bigEndian {n : Nat} (h : n < UInt32.size) :
    numberOf (UInt8.ofNat (n / 16777216)) (UInt8.ofNat (n / 65536)) (UInt8.ofNat (n / 256))
      (UInt8.ofNat n) = n := by
  simp only [numberOf, UInt8.toNat_ofNat', UInt32.size] at h ⊢
  omega

/-! ## Blocks -/

theorem unblock_block (n : Nat) (last : Bool) {bytes : List UInt8} (h : bytes.length ≤ blockLimit)
    (rest : List UInt8) :
    unblock (n + 1) (block last bytes ++ rest) = bytes ++ if last then [] else unblock n rest := by
  have hlength : (UInt8.ofNat bytes.length).toNat + (UInt8.ofNat (bytes.length / 256)).toNat * 256 =
    bytes.length := by
    simp only [UInt8.toNat_ofNat', blockLimit] at h ⊢
    omega
  have hblock : block last bytes ++ rest =
      (if last then 1 else 0) :: UInt8.ofNat bytes.length :: UInt8.ofNat (bytes.length / 256) ::
        UInt8.ofNat (65535 - bytes.length) :: UInt8.ofNat ((65535 - bytes.length) / 256) ::
          (bytes ++ rest) := by
    simp [block, littleEndian]
  rw [hblock, unblock, hlength, List.take_left, List.drop_left]
  cases last <;> rfl

/-- **The blocks hold the bytes,** whatever comes after them. -/
theorem unblock_blocks {n : Nat} {bytes : List UInt8} (h : bytes.length < n) (rest : List UInt8) :
    unblock n (blocks bytes ++ rest) = bytes := by
  induction n generalizing bytes with
  | zero => exact absurd h (Nat.not_lt_zero _)
  | succ n ih =>
    rw [blocks]
    split
    · rename_i hlast
      rw [unblock_block n true hlast]
      simp
    · rename_i hmore
      have htake : (bytes.take blockLimit).length ≤ blockLimit := by
        rw [List.length_take]
        exact Nat.min_le_left _ _
      have hdrop : (bytes.drop blockLimit).length < n := by
        rw [List.length_drop]
        simp only [blockLimit] at *
        omega
      rw [List.append_assoc, unblock_block n false htake, if_neg (by decide), ih hdrop,
        List.take_append_drop]

theorem length_le_blocks (bytes : List UInt8) : bytes.length < (blocks bytes).length := by
  induction bytes using blocks.induct with
  | case1 bytes h =>
    rw [blocks, if_pos h]
    simp [block, littleEndian]
    omega
  | case2 bytes h ih =>
    rw [blocks, if_neg h, List.length_append]
    simp only [block, littleEndian, List.length_append, List.length_cons, List.length_take,
      List.length_drop, blockLimit] at *
    omega

/-! ## Rows -/

theorem length_scanlines {stride rows : Nat} {bytes : List UInt8}
    (h : bytes.length = rows * stride) :
    (scanlines stride rows bytes).length = rows * (stride + 1) := by
  induction rows generalizing bytes with
  | zero => rw [scanlines, List.length_nil, Nat.zero_mul]
  | succ rows ih =>
    have hdrop : (bytes.drop stride).length = rows * stride := by
      rw [List.length_drop, h, Nat.succ_mul, Nat.add_sub_cancel]
    have htake : (bytes.take stride).length = stride := by
      rw [List.length_take, h, Nat.succ_mul]
      exact Nat.min_eq_left (Nat.le_add_left _ _)
    rw [scanlines, List.cons_append, List.length_cons, List.length_append, htake, ih hdrop,
      Nat.succ_mul]
    omega

/-- **Without the zeros before them, the rows are the bytes again.** -/
theorem unscan_scanlines {stride rows : Nat} {bytes : List UInt8}
    (h : bytes.length = rows * stride) :
    unscan stride rows (scanlines stride rows bytes) = bytes := by
  induction rows generalizing bytes with
  | zero =>
    rw [Nat.zero_mul] at h
    rw [List.length_eq_zero_iff.mp h]
    rfl
  | succ rows ih =>
    have hdrop : (bytes.drop stride).length = rows * stride := by
      rw [List.length_drop, h, Nat.succ_mul, Nat.add_sub_cancel]
    have htake : (bytes.take stride).length = stride := by
      rw [List.length_take, h, Nat.succ_mul]
      exact Nat.min_eq_left (Nat.le_add_left _ _)
    rw [scanlines, List.cons_append, unscan, List.take_left' htake, List.drop_left' htake, ih hdrop,
      List.take_append_drop]

/-! ## Samples and pixels -/

theorem deepSamples?_deepBytes (samples : List UInt16) :
    deepSamples? (deepBytes samples) = some samples := by
  induction samples with
  | nil => rfl
  | cons v rest ih =>
    have hv := v.toNat_lt
    have hword : UInt16.ofNat
        ((UInt8.ofNat (v.toNat / 256)).toNat * 256 + (UInt8.ofNat (v.toNat % 256)).toNat) = v := by
      apply UInt16.toNat_inj.mp
      simp only [UInt8.toNat_ofNat', UInt16.toNat_ofNat']
      omega
    have hcons : deepBytes (v :: rest) =
        UInt8.ofNat (v.toNat / 256) :: UInt8.ofNat (v.toNat % 256) :: deepBytes rest := rfl
    rw [hcons, deepSamples?, ih, Option.map_some, hword]

section Pixels

variable {S : Type}

theorem greyAlphaPixels?_flatMap (ps : List (GreyAlpha S)) :
    greyAlphaPixels? (ps.flatMap fun p => [p.grey, p.alpha]) = some ps := by
  induction ps with
  | nil => rfl
  | cons p rest ih =>
    rw [List.flatMap_cons, List.cons_append, List.cons_append, List.nil_append, greyAlphaPixels?,
      ih]
    rfl

theorem rgbPixels?_flatMap (ps : List (Rgb S)) :
    rgbPixels? (ps.flatMap fun p => [p.red, p.green, p.blue]) = some ps := by
  induction ps with
  | nil => rfl
  | cons p rest ih =>
    rw [List.flatMap_cons, List.cons_append, List.cons_append, List.cons_append, List.nil_append,
      rgbPixels?, ih]
    rfl

theorem rgbaPixels?_flatMap (ps : List (Rgba S)) :
    rgbaPixels? (ps.flatMap fun p => [p.red, p.green, p.blue, p.alpha]) = some ps := by
  induction ps with
  | nil => rfl
  | cons p rest ih =>
    rw [List.flatMap_cons, List.cons_append, List.cons_append, List.cons_append, List.cons_append,
      List.nil_append, rgbaPixels?, ih]
    rfl

theorem ofList?_toList {P : Type} (r : Raster P) :
    Raster.ofList? r.width r.height r.pixels.toList = some r := by
  have hlength : r.pixels.toList.length = r.width * r.height := by
    rw [Array.length_toList, r.size_pixels]
  rw [Raster.ofList?, dif_pos hlength]

/-- **A bitmap is made again from its samples.** -/
theorem bitmapOf?_samples (b : Bitmap S) :
    bitmapOf? (pixelKind b) b.width b.height b.samples = some b := by
  cases b with
  | grey r =>
    simp only [bitmapOf?, pixelKind, Bitmap.width, Bitmap.height, Bitmap.samples, ofList?_toList,
      Option.map_some]
  | greyAlpha r =>
    simp only [bitmapOf?, pixelKind, Bitmap.width, Bitmap.height, Bitmap.samples,
      greyAlphaPixels?_flatMap, Option.bind_some, ofList?_toList, Option.map_some]
  | rgb r =>
    simp only [bitmapOf?, pixelKind, Bitmap.width, Bitmap.height, Bitmap.samples,
      rgbPixels?_flatMap, Option.bind_some, ofList?_toList, Option.map_some]
  | rgba r =>
    simp only [bitmapOf?, pixelKind, Bitmap.width, Bitmap.height, Bitmap.samples,
      rgbaPixels?_flatMap, Option.bind_some, ofList?_toList, Option.map_some]

theorem length_samples (b : Bitmap S) :
    b.samples.length = b.width * b.height * (pixelKind b).depth := by
  cases b with
  | grey r =>
    simp [Bitmap.samples, Bitmap.width, Bitmap.height, pixelKind, PixelKind.depth, r.size_pixels]
  | greyAlpha r =>
    simp [Bitmap.samples, Bitmap.width, Bitmap.height, pixelKind, PixelKind.depth, r.size_pixels,
      List.length_flatMap, List.map_const']
  | rgb r =>
    simp [Bitmap.samples, Bitmap.width, Bitmap.height, pixelKind, PixelKind.depth, r.size_pixels,
      List.length_flatMap, List.map_const']
  | rgba r =>
    simp [Bitmap.samples, Bitmap.width, Bitmap.height, pixelKind, PixelKind.depth, r.size_pixels,
      List.length_flatMap, List.map_const']

end Pixels

theorem length_deepBytes (samples : List UInt16) :
    (deepBytes samples).length = samples.length * 2 := by
  simp [deepBytes, List.length_flatMap, List.map_const']

/-! ## Files -/

/-- How many bytes a row has. -/
def stride (p : Picture) : Nat :=
  p.width * p.kind.depth * p.sampleSize

theorem length_sampleBytes (p : Picture) : p.sampleBytes.length = p.height * p.stride := by
  cases p with
  | shallow b =>
    simp only [sampleBytes, length_samples, stride, width, height, kind, sampleSize, Nat.mul_one]
    rw [Nat.mul_comm b.width b.height, Nat.mul_assoc]
  | deep b =>
    simp only [sampleBytes, length_deepBytes, length_samples, stride, width, height, kind,
      sampleSize]
    rw [Nat.mul_comm b.width b.height, Nat.mul_assoc, Nat.mul_assoc, Nat.mul_assoc]

theorem ofSampleBytes?_sampleBytes (p : Picture) :
    ofSampleBytes? p.kind
      (decide (UInt8.ofNat (8 * p.sampleSize) = 16)) p.width p.height p.sampleBytes = some p := by
  cases p with
  | shallow b =>
    change (bitmapOf? (pixelKind b) b.width b.height b.samples).map shallow = _
    rw [bitmapOf?_samples, Option.map_some]
  | deep b =>
    change ((deepSamples? (deepBytes b.samples)).bind fun samples =>
      (bitmapOf? (pixelKind b) b.width b.height samples).map deep) = _
    rw [deepSamples?_deepBytes, Option.bind_some, bitmapOf?_samples, Option.map_some]

theorem sampleSize_eq (p : Picture) :
    (if UInt8.ofNat (8 * p.sampleSize) = 16 then 2 else 1) = p.sampleSize := by
  cases p <;> rfl

theorem find?_code (k : PixelKind) : (PixelKind.all.find? fun k' => k'.code = k.code) = some k := by
  cases k <;> rfl

/-- What a file holds from its shape on. -/
theorem drop_shapeOffset (p : Picture) :
    ∃ tail, p.toContainer.drop shapeOffset = p.shapeBytes ++ tail := by
  refine ⟨bigEndian (crc (ascii "IHDR" ++ p.shapeBytes)).toNat ++
    chunk "IDAT" (packed (scanlines p.stride p.height p.sampleBytes)) ++ chunk "IEND" [], ?_⟩
  have hlead : p.toContainer = (fileStart ++ bigEndian 13 ++ ascii "IHDR") ++ (p.shapeBytes ++
      (bigEndian (crc (ascii "IHDR" ++ p.shapeBytes)).toNat ++
        chunk "IDAT" (packed (scanlines p.stride p.height p.sampleBytes)) ++ chunk "IEND" [])) := by
    have hlength : p.shapeBytes.length = 13 := rfl
    simp only [toContainer, stride, chunk, hlength, List.append_assoc]
  have hoffset : (fileStart ++ bigEndian 13 ++ ascii "IHDR").length = shapeOffset := rfl
  rw [hlead, List.drop_left' hoffset]

/-- What a file holds from its blocks on. -/
theorem drop_blocksOffset (p : Picture) :
    ∃ tail, p.toContainer.drop blocksOffset =
      blocks (scanlines p.stride p.height p.sampleBytes) ++ tail := by
  generalize hrows : scanlines p.stride p.height p.sampleBytes = rows
  refine ⟨bigEndian (adler rows).toNat ++ bigEndian (crc (ascii "IDAT" ++ packed rows)).toNat ++
    chunk "IEND" [], ?_⟩
  have hlead : p.toContainer =
    (fileStart ++ chunk "IHDR" p.shapeBytes ++ bigEndian (packed rows).length ++ ascii "IDAT" ++
      [0x78, 0x01]) ++ (blocks rows ++ (bigEndian (adler rows).toNat ++
        bigEndian (crc (ascii "IDAT" ++ packed rows)).toNat ++ chunk "IEND" [])) := by
    have hbody : chunk "IDAT" (packed rows) = bigEndian (packed rows).length ++ ascii "IDAT" ++
        ([0x78, 0x01] ++ blocks rows ++ bigEndian (adler rows).toNat) ++
        bigEndian (crc (ascii "IDAT" ++ packed rows)).toNat := rfl
    rw [stride] at hrows
    rw [toContainer, hrows, hbody]
    simp only [List.append_assoc]
  have hoffset :
    (fileStart ++ chunk "IHDR" p.shapeBytes ++ bigEndian (packed rows).length ++ ascii "IDAT" ++
      [0x78, 0x01]).length = blocksOffset := rfl
  rw [hlead, List.drop_left' hoffset]

theorem length_blocks_lt (p : Picture) :
    (scanlines p.stride p.height p.sampleBytes).length < p.toContainer.length := by
  obtain ⟨tail, htail⟩ := drop_blocksOffset p
  have hlength := congrArg List.length htail
  rw [List.length_drop, List.length_append] at hlength
  have hblocks := length_le_blocks (scanlines p.stride p.height p.sampleBytes)
  omega

/-- The shape is read back. -/
theorem candidate?_toContainer {p : Picture} (hw : p.width < UInt32.size)
    (hh : p.height < UInt32.size) : candidate? p.toContainer = some p := by
  obtain ⟨tail, htail⟩ := drop_shapeOffset p
  obtain ⟨rest, hrest⟩ := drop_blocksOffset p
  have hlength := length_scanlines (length_sampleBytes p)
  have hstride : p.width * p.kind.depth * (if UInt8.ofNat (8 * p.sampleSize) = 16 then 2 else 1) =
    p.stride := by
    rw [sampleSize_eq, stride]
  unfold candidate?
  rw [htail, hrest, unblock_blocks (length_blocks_lt p)]
  simp only [shapeBytes, bigEndian, List.cons_append, List.nil_append, find?_code,
    numberOf_bigEndian hw, numberOf_bigEndian hh, hstride, hlength, if_true,
    unscan_scanlines (length_sampleBytes p), bind, Option.bind]
  exact ofSampleBytes?_sampleBytes p

/-- **A picture written is read back,** if its sizes fit into four bytes. -/
theorem ofContainer?_toContainer {p : Picture} (hw : p.width < UInt32.size)
    (hh : p.height < UInt32.size) : ofContainer? p.toContainer = some p := by
  rw [ofContainer?, candidate?_toContainer hw hh, Option.filter_some, if_pos (by simp)]

end Picture

namespace Codec

theorem encode_container {p : Picture} {bytes : List UInt8} (h : container.encode p = .ok bytes) :
    (p.width < UInt32.size ∧ p.height < UInt32.size) ∧ bytes = p.toContainer := by
  simp only [container] at h
  split at h
  · rename_i hsize
    exact ⟨hsize, (Except.ok.inj h).symm⟩
  · exact absurd h (by simp)

/-- What is read was written. -/
theorem decode_container {p : Picture} {bytes : List UInt8} (h : container.decode bytes = .ok p) :
    bytes = p.toContainer := by
  simp only [container] at h
  split at h
  · rename_i q hq
    obtain rfl := Except.ok.inj h
    exact (Picture.toContainer_eq_of_ofContainer? hq).symm
  · exact absurd h (by simp)

/-- **The codec of these files reads back what it wrote.** -/
theorem readsBack_container : container.ReadsBack := by
  intro w bytes hencode
  obtain ⟨⟨hwidth, hheight⟩, rfl⟩ := encode_container hencode
  simp only [container, Picture.ofContainer?_toContainer hwidth hheight]

end Codec

end AltRender
