import FaceRecognition.Library.Batch
import FaceRecognition.Library.Printing

/-! What the programs that work through a batch of images do, as a list of events. -/
namespace FaceRecognition
open CppString

/-- `printed` is progress and error reporting. -/
inductive BatchEvent where
  | printed (line : Str)
  | result (line : Str)
  | wrote (path : Str)
  | deleted (path : Str)
  deriving DecidableEq

/-- What a batch is run for: files written, inputs deleted and result lines. -/
def BatchEvent.isEffect : BatchEvent → Bool
  | .printed _ => false
  | _ => true

/-- Why a run ends before the last item. -/
inductive Stop where
  | returned (status : Int)
  | thrown (e : StdException)
  | undefined
  deriving DecidableEq

/-- Landmark positions by their number. -/
abbrev Shape := Nat → Int × Int

/-- The handler at the end of `main`. -/
def catchException {σ : Type*} (o : Batch.Outcome Stop σ BatchEvent) : Batch.Outcome Stop σ BatchEvent :=
  match o.stop with
  | some (.thrown e) =>
    { o with events := o.events ++ [.printed [], .printed "exception thrown!".toList, .printed e.what] }
  | _ => o

theorem catchException_effects {σ : Type*} (o : Batch.Outcome Stop σ BatchEvent) :
    Batch.effects BatchEvent.isEffect (catchException o) = Batch.effects BatchEvent.isEffect o := by
  unfold catchException
  split
  · simp [Batch.effects, BatchEvent.isEffect]
  · rfl

theorem catchException_state {σ : Type*} (o : Batch.Outcome Stop σ BatchEvent) :
    (catchException o).state = o.state := by
  unfold catchException
  split <;> rfl

theorem printed_filter (lines : List Str) :
    (lines.map BatchEvent.printed).filter BatchEvent.isEffect = [] := by
  simp [List.filter_map, Function.comp_def, BatchEvent.isEffect]

end FaceRecognition
