import FaceRecognition.BmpRows

/-! What `save_bmp` wrote, `load_bmp` reads again. -/
namespace FaceRecognition.Bmp
open ByteStream Reader

/-! ### The header -/

section Drawing
variable {nr nc : Nat}

end Drawing

/-! ### The bytes behind a row -/

end FaceRecognition.Bmp
