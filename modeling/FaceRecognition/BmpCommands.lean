import FaceRecognition.BmpRows

/-! The run length encoding of a bitmap: `load_bmp` carries out the drawing commands of the stream. -/
namespace FaceRecognition.Bmp
open ByteStream Reader

section Drawing
variable {nr nc : Nat}

/-! ### Runs -/

/-- A row of the image, or one before the first one. -/
structure RleState.Inside (st : RleState nr nc) : Prop where
  row_lt : st.row < nr
  col_nonneg : 0 ≤ st.col

/-- The state behind a run. -/
def RleState.advance (st : RleState nr nc) (ps : List RgbPixel) : RleState nr nc :=
  ⟨st.row, st.col + ps.length, drawRun st.row.toNat st.col.toNat ps st.px⟩

/-- A run fits into its row. -/
def RleState.Room (st : RleState nr nc) (n : Nat) : Prop := 0 ≤ st.row ∧ st.col + n ≤ nc

instance (st : RleState nr nc) (n : Nat) : Decidable (st.Room n) :=
  inferInstanceAs (Decidable (_ ∧ _))

theorem RleState.Inside.advance {st : RleState nr nc} (h : st.Inside) (ps : List RgbPixel) :
    (st.advance ps).Inside :=
  ⟨h.row_lt, Int.add_nonneg h.col_nonneg (Int.natCast_nonneg _)⟩

theorem assignRun_room {st : RleState nr nc} (h : st.Inside) {ps : List RgbPixel}
    (hroom : st.Room ps.length) : assignRun st.row st.col ps st.px = .ok (st.advance ps).px := by
  obtain ⟨row, col, px⟩ := st
  obtain ⟨hrow, hcol⟩ := h
  obtain ⟨hrow0, hend⟩ := hroom
  obtain ⟨row, rfl⟩ := Int.eq_ofNat_of_zero_le hrow0
  obtain ⟨col, rfl⟩ := Int.eq_ofNat_of_zero_le hcol
  simp only at hrow hend
  exact assignRun_eq (by omega) (by omega) px

theorem advance_nil (st : RleState nr nc) : st.advance [] = st := by
  obtain ⟨row, col, px⟩ := st
  have hpx : drawRun row.toNat col.toNat [] px = px := by
    funext r c
    simp [drawRun]
  simp [RleState.advance, hpx]

theorem advance_cons {st : RleState nr nc} (h : 0 ≤ st.col) (p : RgbPixel) (ps : List RgbPixel) :
    (st.advance [p]).advance ps = st.advance (p :: ps) := by
  obtain ⟨row, col, px⟩ := st
  obtain ⟨col, rfl⟩ := Int.eq_ofNat_of_zero_le h
  have hcol : ((col : Int) + ([p].length : Nat)).toNat = col + 1 := by
    rw [List.length_singleton]
    omega
  have hend : (col : Int) + ([p].length : Nat) + ps.length = col + ((p :: ps).length : Nat) := by
    rw [List.length_singleton, List.length_cons]
    omega
  rw [RleState.advance, RleState.advance, RleState.advance]
  simp only [hcol, hend, Int.toNat_natCast, drawRun_cons]

/-- The pixels of uncompressed bytes. -/
def paint (palette : List RgbPixel) (bytes : List UInt8) : List RgbPixel :=
  bytes.map fun i => palette.getD i.toNat ⟨0, 0, 0⟩

theorem colour_full {palette : List RgbPixel} (h : palette.length = 256) (i : UInt8) :
    colour palette i = .ok (palette.getD i.toNat ⟨0, 0, 0⟩) := by
  have hi : i.toNat < palette.length := h ▸ i.toNat_lt
  rw [colour_ok hi, List.getD_eq_getElem?_getD, List.getElem?_eq_getElem hi, Option.getD_some]

theorem assignPixel_room {st : RleState nr nc} (h : st.Inside) (hroom : st.Room 1) (p : RgbPixel) :
    assignPixel st.row st.col p st.px = .ok (st.advance [p]).px := by
  obtain ⟨row, col, px⟩ := st
  obtain ⟨hrow, hcol⟩ := h
  obtain ⟨hrow0, hend⟩ := hroom
  obtain ⟨row, rfl⟩ := Int.eq_ofNat_of_zero_le hrow0
  obtain ⟨col, rfl⟩ := Int.eq_ofNat_of_zero_le hcol
  simp only at hrow hend
  exact assignPixel_eq (by omega) (by omega) p px

/-- The bytes are read and drawn. -/
theorem literalLoop_eq {palette : List RgbPixel} (h : palette.length = 256) {n : Nat}
    {st : RleState nr nc} (hst : st.Inside) (hroom : st.Room n) :
    literalLoop palette n st = (sgetn n "bmp load error 21.3: file too short").bind fun bytes =>
      Reader.pure (st.advance (paint palette bytes)) := by
  induction n generalizing st with
  | zero =>
    funext s
    rw [literalLoop, Reader.bind, sgetn_of_le (Nat.zero_le _)]
    exact congrArg (fun st => Except.ok (st, s)) (advance_nil st).symm
  | succ n ih =>
    obtain ⟨hrow, hend⟩ := hroom
    rw [literalLoop, sgetn_succ n, Reader.bind_assoc]
    congr 1
    funext buf
    have hpixel := assignPixel_room hst ⟨hrow, by omega⟩ (palette.getD (buf.getD 0 0).toNat ⟨0, 0, 0⟩)
    have hroom : (st.advance [palette.getD (buf.getD 0 0).toNat ⟨0, 0, 0⟩]).Room n := by
      refine ⟨hrow, ?_⟩
      simp only [RleState.advance, List.length_singleton]
      omega
    have hrest := ih (hst.advance [palette.getD (buf.getD 0 0).toNat ⟨0, 0, 0⟩]) hroom
    rw [colour_full h, lift_ok_bind, hpixel, lift_ok_bind, Reader.bind_assoc]
    refine hrest.trans ?_
    simp only [Reader.pure_bind, advance_cons hst.col_nonneg]
    rfl

/-! ### Drawing commands -/

/-- What a stream can tell the decoder to do. -/
inductive Command where
  | nextRow
  | jump (right up : UInt8)
  | literal (bytes skipped : List UInt8)
  | run (count i : UInt8)
  | overhang (count command : UInt8)

namespace Command

def text : Command → List UInt8
  | .nextRow => [0, 0]
  | .jump right up => [0, 2, right, up]
  | .literal bytes skipped => 0 :: UInt8.ofNat bytes.length :: (bytes ++ skipped)
  | .run count i => [count, i]
  | .overhang count command => [count, command]

def draw (palette : List RgbPixel) : Command → RleState nr nc → RleState nr nc
  | .nextRow, st => { st with row := st.row - 1, col := 0 }
  | .jump right up, st => { st with col := st.col + right.toNat, row := st.row - up.toNat }
  | .literal bytes _, st => st.advance (paint palette bytes)
  | .run count i, st =>
      st.advance (List.replicate count.toNat (palette.getD i.toNat ⟨0, 0, 0⟩))
  | .overhang _ _, st => st

end Command

theorem not_room_iff {st : RleState nr nc} {n : Nat} :
    ¬ st.Room n ↔ st.row < 0 ∨ (nc : Int) < st.col + n := by
  rw [RleState.Room]
  omega

section Rounds
variable {palette : List RgbPixel} {padding : Nat} {st : RleState nr nc} {count command : UInt8}

end Rounds

/-- Where the decoder starts: in the last row of a black image. -/
def start : RleState nr nc := ⟨(nr : Int) - 1, 0, fun _ _ => ⟨0, 0, 0⟩⟩

theorem start_inside : (start : RleState nr nc).Inside :=
  ⟨Int.sub_lt_self _ Int.one_pos, le_rfl⟩

/-- The same outcome of a round on both sides, inside of the image. -/
abbrev SameOutcome (x y : RleState nr nc ⊕ Pixels nr nc RgbPixel) : Prop :=
  Sum.LiftRel (fun a b => a = b ∧ a.Inside) Eq x y

theorem alike_inl {st : RleState nr nc} (h : st.Inside) :
    Alike IsLoadError SameOutcome (Reader.pure (.inl st) : In _) (Reader.pure (.inl st)) :=
  .pure (.inl ⟨rfl, h⟩)

theorem alike_overhang {st : RleState nr nc} (h : st.Inside) (padding n : Nat) (info : String) :
    Alike IsLoadError SameOutcome (overhang padding n info st) (overhang padding n info st) := by
  rw [overhang]
  split
  next => exact alike_inl h
  next => exact alike_fail info

/-- A round goes on inside of the image, or ends, or fails. -/
theorem alike_rleRound {palette : List RgbPixel} (hpal : palette.length = 256) (padding : Nat)
    {st : RleState nr nc} (hst : st.Inside) :
    Alike IsLoadError SameOutcome (rleRound palette padding st) (rleRound palette padding st) := by
  refine alike_bind_sgetn fun buf _ => ?_
  generalize buf.getD 0 0 = count
  generalize buf.getD 1 0 = command
  rw [rleCommand]
  split
  next => exact alike_inl ⟨(Int.sub_lt_self _ Int.one_pos).trans hst.row_lt, le_rfl⟩
  split
  next => exact .pure (.inr rfl)
  split
  next =>
    obtain ⟨hrow, hcol⟩ := hst
    refine alike_bind_sgetn fun buf _ => alike_inl ⟨?_, ?_⟩
    · simp only
      omega
    · simp only
      omega
  split
  next =>
    split
    next => exact alike_overhang hst _ _ _
    next hroom =>
      have hroom : st.Room command.toNat := not_not.mp fun h => hroom (not_room_iff.mp h)
      rw [literalLoop_eq hpal hst hroom, Reader.bind_assoc]
      refine alike_bind_sgetn fun bytes _ => ?_
      rw [Reader.pure_bind]
      split
      next => exact alike_bind_sgetn fun _ _ => alike_inl (hst.advance _)
      next => exact alike_inl (hst.advance _)
  split
  next => exact alike_overhang hst _ _ _
  next hroom =>
    have hroom : st.Room count.toNat := not_not.mp fun h => hroom (not_room_iff.mp h)
    have hlen : (List.replicate count.toNat (palette.getD command.toNat ⟨0, 0, 0⟩)).length =
        count.toNat := List.length_replicate
    rw [colour_full hpal, lift_ok_bind, assignRun_room hst (by rwa [hlen]), lift_ok_bind]
    exact alike_inl ⟨hst.row_lt, Int.add_nonneg hst.col_nonneg (Int.natCast_nonneg _)⟩

theorem alike_rleLoop {palette : List RgbPixel} (hpal : palette.length = 256) (padding : Nat) :
    Alike IsLoadError Eq (rleLoop palette padding : In (Pixels nr nc RgbPixel))
      (rleLoop palette padding) := by
  refine Alike.loop (P := fun a b => a = b ∧ a.Inside) ?_ ⟨rfl, start_inside⟩
  rintro st _ ⟨rfl, hst⟩
  exact alike_rleRound hpal padding hst

end Drawing

end FaceRecognition.Bmp
