import FaceRecognition.BmpCommands

/-! What `load_bmp` makes of a stream: it returns an image all of whose pixels were assigned, or it fails
with an `image_load_error`. -/
namespace FaceRecognition.Bmp
open ByteStream Reader

theorem alike_readHeader : Alike IsLoadError Eq readHeader readHeader := by
  refine alike_bind_sgetn fun buf _ => ?_
  split
  next => exact alike_fail _
  refine alike_bind_sgetn fun buf _ => ?_
  split
  next => exact alike_fail _
  refine alike_bind_sgetn fun buf _ => ?_
  split
  next => exact alike_fail _
  next => exact .pure rfl

theorem alike_paletted {h : Header} {n : Nat}
    {draw draw' : List RgbPixel → In (Pixels h.biHeight h.biWidth RgbPixel)}
    (hdraw : ∀ palette, palette.length = n → Alike IsLoadError Eq (draw palette) (draw' palette)) :
    Alike IsLoadError Eq (paletted h n draw) (paletted h n draw') := by
  refine (alike_readPalette n).bind ?_
  rintro palette _ ⟨rfl, hlen⟩
  exact (alike_seekLoop _).bind fun _ _ _ => hdraw palette hlen

theorem alike_readPixels (h : Header) (px px' : Pixels h.biHeight h.biWidth RgbPixel) :
    Alike IsLoadError Eq (readPixels h px) (readPixels h px') := by
  have hrows {k : Packing} (hk : k.Sound) (padding : Nat) :
      Alike IsLoadError Eq (rowLoop k padding h.biHeight px) (rowLoop k padding h.biHeight px') :=
    alike_rowLoop hk padding le_rfl fun r c hr => absurd r.isLt (not_lt.mpr hr)
  rw [readPixels, readPixels]
  dsimp only
  split
  next => exact alike_paletted fun palette hlen => hrows (oneBit_sound hlen) _
  split
  next => exact alike_paletted fun palette hlen => hrows (fourBit_sound hlen) _
  split
  next =>
    refine alike_paletted fun palette hlen => ?_
    split
    next => exact hrows (eightBit_sound hlen) _
    next => exact alike_rleLoop hlen _
  split
  next => exact alike_fail _
  split
  next => exact (alike_seekLoop _).bind fun _ _ _ => hrows trueColour_sound _
  split
  next => exact alike_fail _
  next => exact alike_fail _

/-- On every stream the loader returns an image in which no pixel was left as it was before, or it fails
with an `image_load_error`; it never goes out of range of the image or of the palette. -/
theorem loadBmp_safe (stale stale' : ∀ nr nc, Pixels nr nc RgbPixel) (s : List UInt8) :
    (∃ image rest, loadBmp stale s = .ok (image, rest) ∧ loadBmp stale' s = .ok (image, rest)) ∨
      ∃ info, loadBmp stale s = .error (.imageLoad info) ∧
        loadBmp stale' s = .error (.imageLoad info) := by
  have halike : Alike IsLoadError Eq (loadBmp stale) (loadBmp stale') := by
    refine alike_readHeader.bind ?_
    rintro h _ rfl
    refine (alike_readPixels h _ _).bind ?_
    rintro px _ rfl
    exact .pure rfl
  rcases halike s with ⟨image, _, rest, hok, hok', rfl⟩ | ⟨_, he, he', info, rfl⟩
  · exact .inl ⟨image, rest, hok, hok'⟩
  · exact .inr ⟨info, he, he'⟩

end FaceRecognition.Bmp
