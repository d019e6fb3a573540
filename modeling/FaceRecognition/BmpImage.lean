import FaceRecognition.Library.ByteStream
import Mathlib.Algebra.Order.Ring.Int

/-! `load_bmp` of `dlib/image_loader/image_loader.h` and `save_bmp` of `dlib/image_saver/image_saver.h`.
A stream is the list of the bytes that are left. An access outside of the image or of the palette, which
the source does not check, is an error of its own. -/
namespace FaceRecognition.Bmp
open ByteStream Reader

structure RgbPixel where
  red : UInt8
  green : UInt8
  blue : UInt8
  deriving DecidableEq

/-- The contents of an image of a given size. -/
abbrev Pixels (nr nc : Nat) (P : Type*) := Fin nr → Fin nc → P

/-- `array2d` -/
structure Image (P : Type*) where
  nr : Nat
  nc : Nat
  pixel : Pixels nr nc P

inductive LoadError where
  /-- `image_load_error` with its text. -/
  | imageLoad (info : String)
  | outOfRange
  deriving DecidableEq

abbrev In (α : Type*) := Reader UInt8 LoadError α

def fail {α : Type*} (info : String) : In α := fun _ => .error (.imageLoad info)

/-- `sgetn`, and the error when the stream is too short. -/
def sgetn (n : Nat) (info : String) : In (List UInt8) := fun s =>
  if n ≤ s.length then .ok (s.take n, s.drop n) else .error (.imageLoad info)

/-- What is left of a number in an `unsigned long`. -/
def ulong (x : Int) : Nat := (x % 2 ^ 64).toNat

/-! ### The header -/

def byteAt (buf : List UInt8) (i : Nat) : Nat := (buf.getD i 0).toNat

/-- `a | (b<<8)` -/
def half (buf : List UInt8) (i : Nat) : Nat := byteAt buf i ||| byteAt buf (i + 1) <<< 8

/-- `a | (b<<8) | (c<<16) | (d<<24)` -/
def word (buf : List UInt8) (i : Nat) : Nat :=
  byteAt buf i ||| byteAt buf (i + 1) <<< 8 ||| byteAt buf (i + 2) <<< 16 ||| byteAt buf (i + 3) <<< 24

/-- What is used of the two headers. -/
structure Header where
  bfSize : Nat
  bfOffBits : Nat
  biWidth : Nat
  biHeight : Nat
  biBitCount : Nat
  biCompression : Nat
  deriving DecidableEq

def readInfoHeader (bfSize bfOffBits : Nat) : In Header :=
  (sgetn 40 "bmp load error 5: file too short").bind fun buf =>
    if word buf 0 ≠ 40 then fail "bmp load error 6: header too small"
    else Reader.pure ⟨bfSize, bfOffBits, word buf 4, word buf 8, half buf 14, word buf 16⟩

def readHeader : In Header :=
  (sgetn 2 "bmp load error 1: header error").bind fun buf =>
    if buf.getD 0 0 ≠ 0x42 ∨ buf.getD 1 0 ≠ 0x4D then fail "bmp load error 2: header error"
    else (sgetn 12 "bmp load error 3: header error").bind fun buf =>
      if word buf 4 ≠ 0 then fail "bmp load error 4: reserved area not zero"
      else readInfoHeader (word buf 0) (word buf 8)

/-- `bfSize - bfOffBits` -/
def Header.dataSize (h : Header) : Nat := ulong (h.bfSize - h.bfOffBits)

/-- The bytes behind a row: none when the data have exactly the size of packed pixels. -/
def Header.padding (h : Header) (packed rowBytes : Nat) : Nat :=
  if h.dataSize = packed then 0 else 4 - rowBytes % 4

/-- None either when there are not as many data. -/
def Header.checkedPadding (h : Header) (packed rowBytes : Nat) : Nat :=
  let padding := h.padding packed rowBytes
  if h.dataSize < ulong (h.biHeight * (rowBytes + padding)) then 0 else padding

/-! ### Pixels -/

section Drawing
variable {nr nc : Nat}

/-- `assign_pixel(image[row][col], p)` -/
def assignPixel {P : Type*} (row col : Int) (p : P) (px : Pixels nr nc P) :
    Except LoadError (Pixels nr nc P) :=
  if 0 ≤ row ∧ row < nr ∧ 0 ≤ col ∧ col < nc then
    .ok fun r c => if (r : Int) = row ∧ (c : Int) = col then p else px r c
  else .error .outOfRange

/-- Pixels next to each other. -/
def assignRun {P : Type*} (row : Int) : Int → List P → Pixels nr nc P → Except LoadError (Pixels nr nc P)
  | _, [], px => .ok px
  | col, p :: ps, px => (assignPixel row col p px).bind fun px => assignRun row (col + 1) ps px

/-- An entry of `red`, `green` and `blue`. -/
def colour (palette : List RgbPixel) (i : UInt8) : Except LoadError RgbPixel :=
  match palette[i.toNat]? with
  | some p => .ok p
  | none => .error .outOfRange

def readPalette (palette_size : Nat) : In (List RgbPixel) :=
  ((sgetn 4 "bmp load error 20: color palette missing").bind fun buf =>
    Reader.pure ⟨buf.getD 2 0, buf.getD 1 0, buf.getD 0 0⟩).times palette_size

/-- The loop that seeks to the start of the pixel data, with so many bytes to go. -/
def seekLoop (left : Nat) : In Unit :=
  if left = 0 then Reader.pure ()
  else (sgetn (min left 100) "bmp load error: missing data").bind fun _ => seekLoop (left - min left 100)
  termination_by left

def seek (bytes_read_so_far bfOffBits : Nat) : In Unit := seekLoop (ulong (bfOffBits - bytes_read_so_far))

/-- How the pixels of a row follow each other: in packets of so many bytes and pixels. -/
structure Packing where
  bytes : Nat
  pixels : Nat
  pixels_pos : 0 < pixels
  decode : List UInt8 → Except LoadError (List RgbPixel)
  tooShort : String

def oneBit (palette : List RgbPixel) : Packing where
  bytes := 1
  pixels := 8
  pixels_pos := by decide
  decode buf := ([7, 6, 5, 4, 3, 2, 1, 0] : List UInt8).mapM fun k =>
    colour palette (buf.getD 0 0 >>> k &&& 0x01)
  tooShort := "bmp load error 21.6: file too short"

def fourBit (palette : List RgbPixel) : Packing where
  bytes := 1
  pixels := 2
  pixels_pos := by decide
  decode buf := [buf.getD 0 0 >>> 4, buf.getD 0 0 &&& 0x0F].mapM (colour palette)
  tooShort := "bmp load error 21.7: file too short"

def eightBit (palette : List RgbPixel) : Packing where
  bytes := 1
  pixels := 1
  pixels_pos := by decide
  decode buf := [buf.getD 0 0].mapM (colour palette)
  tooShort := "bmp load error 21.8: file too short"

def trueColour : Packing where
  bytes := 3
  pixels := 1
  pixels_pos := by decide
  decode buf := .ok [⟨buf.getD 2 0, buf.getD 1 0, buf.getD 0 0⟩]
  tooShort := "bmp load error 8: file too short"

/-- The loop over the columns of a row. -/
def colLoop (k : Packing) (row col : Nat) (px : Pixels nr nc RgbPixel) : In (Pixels nr nc RgbPixel) :=
  if _h : col < nc then
    (sgetn k.bytes k.tooShort).bind fun buf => (lift (k.decode buf)).bind fun ps =>
      (lift (assignRun row col (ps.take (nc - col)) px)).bind fun px => colLoop k row (col + k.pixels) px
  else Reader.pure px
  termination_by nc - col
  decreasing_by
    have := k.pixels_pos
    omega

/-- The loop over the rows, from the last one to the first one. -/
def rowLoop (k : Packing) (padding : Nat) : Nat → Pixels nr nc RgbPixel → In (Pixels nr nc RgbPixel)
  | 0, px => Reader.pure px
  | row + 1, px => (colLoop k row 0 px).bind fun px =>
      (sgetn padding "bmp load error 9: file too short").bind fun _ => rowLoop k padding row px

/-! ### Run length encoding -/

structure RleState (nr nc : Nat) where
  row : Int
  col : Int
  px : Pixels nr nc RgbPixel

/-- A run of uncompressed bytes. -/
def literalLoop (palette : List RgbPixel) : Nat → RleState nr nc → In (RleState nr nc)
  | 0, st => Reader.pure st
  | command + 1, st => (sgetn 1 "bmp load error 21.3: file too short").bind fun buf =>
      (lift (colour palette (buf.getD 0 0))).bind fun p =>
        (lift (assignPixel st.row st.col p st.px)).bind fun px =>
          literalLoop palette command { st with col := st.col + 1, px := px }

/-- Runs that end behind the row by no more than the padding are skipped. -/
def overhang (padding count : Nat) (info : String) (st : RleState nr nc) :
    In (RleState nr nc ⊕ Pixels nr nc RgbPixel) :=
  if 0 ≤ st.row ∧ st.col + count ≤ nc + padding then Reader.pure (.inl st) else fail info

/-- What is done for `count` and `command`: go on, or return the image. -/
def rleCommand (palette : List RgbPixel) (padding : Nat) (st : RleState nr nc) (count command : UInt8) :
    In (RleState nr nc ⊕ Pixels nr nc RgbPixel) :=
  if count = 0 ∧ command = 0 then Reader.pure (.inl { st with row := st.row - 1, col := 0 })
  else if count = 0 ∧ command = 1 then Reader.pure (.inr st.px)
  else if count = 0 ∧ command = 2 then
    (sgetn 2 "bmp load error 21.1: file too short").bind fun buf =>
      Reader.pure (.inl { st with col := st.col + byteAt buf 0, row := st.row - byteAt buf 1 })
  else if count = 0 then
    if st.row < 0 ∨ nc < st.col + command.toNat then
      overhang padding count.toNat "bmp load error 21.2: file data corrupt" st
    else (literalLoop palette command.toNat st).bind fun st =>
      if command &&& 1 ≠ 1 then (sgetn 1 "bmp load error 21.4: file too short").bind fun _ =>
        Reader.pure (.inl st)
      else Reader.pure (.inl st)
  else if st.row < 0 ∨ nc < st.col + count.toNat then
    overhang padding count.toNat "bmp load error 21.5: file data corrupt" st
  else (lift (colour palette command)).bind fun p =>
    (lift (assignRun st.row st.col (List.replicate count.toNat p) st.px)).bind fun px =>
      Reader.pure (.inl { st with col := st.col + count.toNat, px := px })

/-- The body of `while (true)`. -/
def rleRound (palette : List RgbPixel) (padding : Nat) (st : RleState nr nc) :
    In (RleState nr nc ⊕ Pixels nr nc RgbPixel) :=
  (sgetn 2 "bmp load error 21.9: file too short").bind fun buf =>
    rleCommand palette padding st (buf.getD 0 0) (buf.getD 1 0)

theorem sgetn_eq_ok {n : Nat} {info : String} {s buf rest : List UInt8}
    (h : sgetn n info s = .ok (buf, rest)) : n ≤ s.length ∧ buf = s.take n ∧ rest = s.drop n := by
  rw [sgetn] at h
  split at h
  next hle =>
    obtain ⟨rfl, rfl⟩ := Prod.mk.inj (Except.ok.inj h)
    exact ⟨hle, rfl, rfl⟩
  next => cases h

theorem sgetn_shortens (n : Nat) (info : String) : Shortens (sgetn n info) := by
  intro s buf rest h
  obtain ⟨-, -, rfl⟩ := sgetn_eq_ok h
  rw [List.length_drop]
  exact Nat.sub_le _ _

theorem sgetn_consumes {n : Nat} (hn : 0 < n) (info : String) : Consumes (sgetn n info) := by
  intro s buf rest h
  obtain ⟨hle, -, rfl⟩ := sgetn_eq_ok h
  rw [List.length_drop]
  omega

theorem fail_shortens {α : Type*} (info : String) : Shortens (fail info : In α) := by
  intro s a rest h
  cases h

theorem literalLoop_shortens (palette : List RgbPixel) (command : Nat) (st : RleState nr nc) :
    Shortens (literalLoop palette command st) := by
  induction command generalizing st with
  | zero => exact shortens_pure st
  | succ command ih =>
    exact (sgetn_shortens _ _).bind fun buf => (shortens_lift _).bind fun p =>
      (shortens_lift _).bind fun px => ih _

theorem overhang_shortens (padding count : Nat) (info : String) (st : RleState nr nc) :
    Shortens (overhang padding count info st) := by
  rw [overhang]
  split
  next => exact shortens_pure _
  next => exact fail_shortens info

theorem rleRound_consumes (palette : List RgbPixel) (padding : Nat) (st : RleState nr nc) :
    Consumes (rleRound palette padding st) := by
  refine (sgetn_consumes (by decide) _).bind fun buf => ?_
  rw [rleCommand]
  split
  next => exact shortens_pure _
  split
  next => exact shortens_pure _
  split
  next => exact (sgetn_shortens _ _).bind fun buf => shortens_pure _
  split
  next =>
    split
    next => exact overhang_shortens _ _ _ _
    next =>
      refine (literalLoop_shortens _ _ _).bind fun st => ?_
      split
      next => exact (sgetn_shortens _ _).bind fun _ => shortens_pure _
      next => exact shortens_pure _
  split
  next => exact overhang_shortens _ _ _ _
  next => exact (shortens_lift _).bind fun p => (shortens_lift _).bind fun px => shortens_pure _

/-- The decoder: the image is black where no run draws. -/
def rleLoop (palette : List RgbPixel) (padding : Nat) : In (Pixels nr nc RgbPixel) :=
  loop (rleRound palette padding) (rleRound_consumes palette padding)
    ⟨(nr : Int) - 1, 0, fun _ _ => ⟨0, 0, 0⟩⟩

end Drawing

/-! ### Loading and saving -/

section Loading
variable (h : Header)

/-- The palette and the pixels behind it. -/
def paletted (palette_size : Nat)
    (draw : List RgbPixel → In (Pixels h.biHeight h.biWidth RgbPixel)) :
    In (Pixels h.biHeight h.biWidth RgbPixel) :=
  (readPalette palette_size).bind fun palette =>
    (seek (54 + 4 * palette_size) h.bfOffBits).bind fun _ => draw palette

/-- The image data; `px` is what `set_size` leaves in the pixels. -/
def readPixels (px : Pixels h.biHeight h.biWidth RgbPixel) : In (Pixels h.biHeight h.biWidth RgbPixel) :=
  let pixels := h.biWidth * h.biHeight
  if h.biBitCount = 1 then
    paletted h 2 fun palette =>
      rowLoop (oneBit palette) (h.padding (ulong pixels / 8) ((h.biWidth + 7) / 8)) h.biHeight px
  else if h.biBitCount = 4 then
    paletted h 16 fun palette =>
      rowLoop (fourBit palette) (h.padding (ulong pixels / 2) ((h.biWidth + 1) / 2)) h.biHeight px
  else if h.biBitCount = 8 then
    let padding := h.checkedPadding (ulong pixels) h.biWidth
    paletted h 256 fun palette =>
      if h.biCompression = 0 then rowLoop (eightBit palette) padding h.biHeight px
      else rleLoop palette padding
  else if h.biBitCount = 16 then fail "16 bit BMP images not supported"
  else if h.biBitCount = 24 then
    (seek 54 h.bfOffBits).bind fun _ =>
      rowLoop trueColour (h.checkedPadding (ulong (pixels * 3)) (h.biWidth * 3)) h.biHeight px
  else if h.biBitCount = 32 then fail "32 bit BMP images not supported"
  else fail "bmp load error 10: unknown color depth"

end Loading

/-- `load_bmp`; `stale` is what is in the pixels of an image before they are assigned. -/
def loadBmp (stale : ∀ nr nc, Pixels nr nc RgbPixel) : In (Image RgbPixel) :=
  readHeader.bind fun h =>
    (readPixels h (stale h.biHeight h.biWidth)).bind fun px => Reader.pure ⟨h.biHeight, h.biWidth, px⟩

end FaceRecognition.Bmp
