import FaceRecognition.BmpImage
import Mathlib.Tactic.Ring

/-! The rows of a bitmap that is not compressed: the loops of `load_bmp` stay in the image and in the
palette, and they assign every pixel. -/
namespace FaceRecognition.Bmp
open ByteStream Reader

/-- The errors that a program catches as `image_load_error`. -/
def IsLoadError (e : LoadError) : Prop := ∃ info, e = .imageLoad info

section Readers
variable {α β : Type*} {Q : α → β → Prop}

theorem sgetn_of_le {n : Nat} {s : List UInt8} (h : n ≤ s.length) (info : String) :
    sgetn n info s = .ok (s.take n, s.drop n) :=
  if_pos h

theorem sgetn_of_short {n : Nat} {s : List UInt8} (h : ¬ n ≤ s.length) (info : String) :
    sgetn n info s = .error (.imageLoad info) :=
  if_neg h

theorem sgetn_succ (n : Nat) (info : String) : sgetn (n + 1) info =
    (sgetn 1 info).bind fun b => (sgetn n info).bind fun bytes => Reader.pure (b.getD 0 0 :: bytes) := by
  funext s
  cases s with
  | nil => rfl
  | cons b s =>
    have h1 : sgetn 1 info (b :: s) = .ok ([b], s) := rfl
    rw [Reader.bind, h1]
    by_cases h : n ≤ s.length
    · rw [sgetn_of_le (show n + 1 ≤ (b :: s).length from Nat.succ_le_succ h)]
      change _ = (sgetn n info s).bind _
      rw [sgetn_of_le h]
      rfl
    · rw [sgetn_of_short (show ¬ n + 1 ≤ (b :: s).length from fun hs => h (Nat.le_of_succ_le_succ hs))]
      change _ = (sgetn n info s).bind _
      rw [sgetn_of_short h]
      rfl

theorem alike_fail (info : String) : Alike IsLoadError Q (fail info) (fail info) :=
  fun _ => .inr ⟨_, rfl, rfl, info, rfl⟩

/-- What is read with `sgetn` is the same on both sides. -/
theorem alike_bind_sgetn {n : Nat} {info : String} {f : List UInt8 → In α} {f' : List UInt8 → In β}
    (hf : ∀ buf, buf.length = n → Alike IsLoadError Q (f buf) (f' buf)) :
    Alike IsLoadError Q ((sgetn n info).bind f) ((sgetn n info).bind f') := by
  intro s
  by_cases h : n ≤ s.length
  · rw [Reader.bind, Reader.bind, sgetn, if_pos h]
    exact hf (s.take n) (List.length_take_of_le h) (s.drop n)
  · rw [Reader.bind, Reader.bind, sgetn, if_neg h]
    exact .inr ⟨_, rfl, rfl, info, rfl⟩

theorem alike_readPalette (n : Nat) : Alike IsLoadError (fun a b => a = b ∧ a.length = n)
    (readPalette n) (readPalette n) :=
  Alike.times (alike_bind_sgetn fun _ _ => .pure rfl) n

theorem alike_seekLoop (left : Nat) :
    Alike IsLoadError (fun _ _ => True) (seekLoop left) (seekLoop left) := by
  induction left using Nat.strongRecOn with
  | ind left ih =>
    rw [seekLoop]
    split
    next => exact .pure trivial
    next => exact alike_bind_sgetn fun _ _ => ih _ (by omega)

end Readers

/-! ### Assigned pixels -/

section Drawing
variable {nr nc : Nat}

/-- Pixels next to each other, drawn from a column on. -/
def drawRun {P : Type*} (row col : Nat) (ps : List P) (px : Pixels nr nc P) : Pixels nr nc P := fun r c =>
  if r.val = row ∧ col ≤ c.val then (ps[c.val - col]?).getD (px r c) else px r c

theorem drawRun_cons {P : Type*} (row col : Nat) (p : P) (ps : List P) (px : Pixels nr nc P) :
    drawRun row (col + 1) ps (drawRun row col [p] px) = drawRun row col (p :: ps) px := by
  funext r c
  simp only [drawRun]
  by_cases hr : r.val = row
  · rcases lt_trichotomy c.val col with hlt | heq | hgt
    · rw [if_neg (by omega), if_neg (by omega), if_neg (by omega)]
    · rw [if_neg (by omega), if_pos (by omega), if_pos (by omega), heq, Nat.sub_self]
      rfl
    · have hk : c.val - col = c.val - (col + 1) + 1 := by omega
      rw [if_pos (by omega), if_pos (by omega), if_pos (by omega), hk, List.getElem?_cons_succ,
        List.getElem?_cons_succ]
      rfl
  · rw [if_neg (fun h => hr h.1), if_neg (fun h => hr h.1), if_neg (fun h => hr h.1)]

theorem assignPixel_eq {P : Type*} {row col : Nat} (hrow : row < nr) (hcol : col < nc) (p : P)
    (px : Pixels nr nc P) : assignPixel row col p px = .ok (drawRun row col [p] px) := by
  refine (if_pos ⟨by omega, by omega, by omega, by omega⟩).trans (congrArg _ ?_)
  funext r c
  simp only [drawRun, Nat.cast_inj]
  by_cases hrc : r.val = row ∧ c.val = col
  · rw [if_pos hrc, if_pos (by omega), hrc.2, Nat.sub_self]
    rfl
  · rw [if_neg hrc]
    split
    next hle =>
      obtain ⟨k, hk⟩ : ∃ k, c.val - col = k + 1 := ⟨c.val - col - 1, by omega⟩
      rw [hk]
      rfl
    next => rfl

theorem assignRun_eq {P : Type*} {row col : Nat} {ps : List P} (hrow : row < nr)
    (hcol : col + ps.length ≤ nc) (px : Pixels nr nc P) :
    assignRun row col ps px = .ok (drawRun row col ps px) := by
  induction ps generalizing col px with
  | nil =>
    refine congrArg _ ?_
    funext r c
    simp [drawRun]
  | cons p ps ih =>
    rw [List.length_cons] at hcol
    have hnext := ih (show col + 1 + ps.length ≤ nc by omega) (drawRun row col [p] px)
    rw [Nat.cast_add, Nat.cast_one, drawRun_cons] at hnext
    rw [assignRun, assignPixel_eq hrow (by omega)]
    exact hnext

/-- The pixels that the loops have come to are the same. -/
def Drawn (row col : Nat) (px px' : Pixels nr nc RgbPixel) : Prop :=
  ∀ r c, row < r.val ∨ (r.val = row ∧ c.val < col) → px r c = px' r c

/-- The packets hold as many pixels as they should, and no colour that is not in the palette. -/
def Packing.Sound (k : Packing) : Prop := ∀ buf, ∃ ps, k.decode buf = .ok ps ∧ ps.length = k.pixels

theorem alike_colLoop {k : Packing} (hk : k.Sound) {row col : Nat} (hrow : row < nr)
    {px px' : Pixels nr nc RgbPixel} (h : Drawn row col px px') :
    Alike IsLoadError (Drawn row nc) (colLoop k row col px) (colLoop k row col px') := by
  induction hn : nc - col using Nat.strongRecOn generalizing col px px' with
  | ind n ih =>
    rw [colLoop, colLoop]
    by_cases hcol : col < nc
    · rw [dif_pos hcol, dif_pos hcol]
      refine alike_bind_sgetn fun buf _ => ?_
      obtain ⟨ps, hps, hlen⟩ := hk buf
      have hpos := k.pixels_pos
      refine (Alike.lift (R := fun a b => a = ps ∧ b = ps) hps hps ⟨rfl, rfl⟩).bind fun a b hab => ?_
      rw [hab.1, hab.2]
      have htake : col + (ps.take (nc - col)).length ≤ nc := by
        rw [List.length_take]
        omega
      refine (Alike.lift (R := Drawn row (col + k.pixels)) (assignRun_eq hrow htake px)
        (assignRun_eq hrow htake px') ?_).bind fun px px' hpx => ih _ (by omega) hpx rfl
      intro r c hrc
      rw [drawRun, drawRun]
      by_cases hin : r.val = row ∧ col ≤ c.val
      · have hlt : c.val - col < (ps.take (nc - col)).length := by
          rw [List.length_take]
          omega
        rw [if_pos hin, if_pos hin, List.getElem?_eq_getElem hlt]
        rfl
      · rw [if_neg hin, if_neg hin]
        exact h r c (by omega)
    · rw [dif_neg hcol, dif_neg hcol]
      exact .pure fun r c hrc => h r c (by omega)

theorem alike_rowLoop {k : Packing} (hk : k.Sound) (padding : Nat) {row : Nat} (hrow : row ≤ nr)
    {px px' : Pixels nr nc RgbPixel} (h : ∀ r c, row ≤ r.val → px r c = px' r c) :
    Alike IsLoadError Eq (rowLoop k padding row px) (rowLoop k padding row px') := by
  induction row generalizing px px' with
  | zero =>
    refine .pure ?_
    funext r c
    exact h r c (Nat.zero_le _)
  | succ row ih =>
    refine (alike_colLoop hk hrow fun r c hrc => h r c (by omega)).bind fun px px' hpx => ?_
    exact alike_bind_sgetn fun _ _ => ih (by omega) fun r c hrc => hpx r c (by omega)

/-! ### The formats -/

theorem colour_ok {palette : List RgbPixel} {i : UInt8} (h : i.toNat < palette.length) :
    colour palette i = .ok (palette[i.toNat]) := by
  rw [colour, List.getElem?_eq_getElem h]

theorem mapM_colour_ok {palette : List RgbPixel} {is : List UInt8}
    (h : ∀ i ∈ is, i.toNat < palette.length) :
    ∃ ps, is.mapM (colour palette) = .ok ps ∧ ps.length = is.length := by
  induction is with
  | nil => exact ⟨[], rfl, rfl⟩
  | cons i is ih =>
    obtain ⟨ps, hps, hlen⟩ := ih fun j hj => h j (List.mem_cons_of_mem i hj)
    have hi := colour_ok (h i List.mem_cons_self)
    exact ⟨_ :: ps, by rw [List.mapM_cons, hi, hps]; rfl, congrArg Nat.succ hlen⟩

/-- The low bits of a byte. -/
theorem toNat_and_lt (a : UInt8) {b : UInt8} {n : Nat} (hb : b.toNat < n) : (a &&& b).toNat < n := by
  rw [UInt8.toNat_and]
  exact Nat.and_le_right.trans_lt hb

theorem oneBit_sound {palette : List RgbPixel} (h : palette.length = 2) : (oneBit palette).Sound := by
  intro buf
  have hmap : (oneBit palette).decode buf = (([7, 6, 5, 4, 3, 2, 1, 0] : List UInt8).map fun k =>
      buf.getD 0 0 >>> k &&& 0x01).mapM (colour palette) := by
    rw [List.mapM_map]
    rfl
  rw [hmap]
  refine mapM_colour_ok fun i hi => ?_
  obtain ⟨k, -, rfl⟩ := List.mem_map.mp hi
  rw [h]
  exact toNat_and_lt _ (by decide)

theorem fourBit_sound {palette : List RgbPixel} (h : palette.length = 16) : (fourBit palette).Sound := by
  intro buf
  refine mapM_colour_ok fun i hi => ?_
  rw [h]
  rcases List.mem_pair.mp hi with rfl | rfl
  · have hlt := (buf.getD 0 0).toNat_lt
    rw [UInt8.toNat_shiftRight, Nat.shiftRight_eq_div_pow]
    have h4 : (4 : UInt8).toNat % 8 = 4 := rfl
    rw [h4]
    omega
  · exact toNat_and_lt _ (by decide)

theorem eightBit_sound {palette : List RgbPixel} (h : palette.length = 256) : (eightBit palette).Sound := by
  intro buf
  refine mapM_colour_ok fun i _ => ?_
  rw [h]
  exact i.toNat_lt

theorem trueColour_sound : trueColour.Sound := fun _ => ⟨_, rfl, rfl⟩

end Drawing

end FaceRecognition.Bmp
