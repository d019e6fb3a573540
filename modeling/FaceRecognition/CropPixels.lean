import FaceRecognition.CropInside

/-! The pixels of the eyes and the coordinates that the crop keeps for them. Cutting, scaling
and pasting move the pixels by integers; the coordinates follow with the numbers that the
integers were truncated from. -/
namespace FaceRecognition

/-! ### What the image operations do to a pixel -/

section Axis
variable {c len x : ℝ} {n : Int}

end Axis

/-! ### Both eyes -/

section Eyes
variable {eyelocL eyelocR : Point2f} {cols rows : Int}

end Eyes

end FaceRecognition
