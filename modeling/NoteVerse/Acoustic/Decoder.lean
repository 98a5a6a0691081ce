import NoteVerse.Acoustic.StepEvents
import NoteVerse.Lib.Peaks
import NoteVerse.Lib.Rounding

/-!
# The decoder of the model's outputs

`acoustic-inference/bytedance-decoder.ts`: of each pitch, every run of frames whose onset
score reaches the threshold gives one event, at its first peak, if the frame score there
reaches its own threshold. Scores and times are rational numbers, and the time of a window's
start is finite.
-/

namespace NoteVerse.Acoustic

open Js

/-! ## The source -/

/-- A matrix of scores, in one array row by row. -/
structure OutputMatrix where
  frameCount : ℕ
  pitchCount : ℕ
  data : List ℚ
  size : data.length = frameCount * pitchCount

def OutputMatrix.value (m : OutputMatrix) (frameIndex pitchIndex : ℕ) : ℚ :=
  (m.data[frameIndex * m.pitchCount + pitchIndex]?).getD 0

section

variable (onset : OutputMatrix) (pitchIndex : ℕ) (onsetThreshold : ℚ)

end

section

variable (onset : OutputMatrix) (pitchIndex : ℕ) (onsetThreshold : ℚ)

variable {onset pitchIndex onsetThreshold}

end

/-! ## The events -/

variable {onset frame : OutputMatrix} {request : PcmInferenceRequest} {options : DecoderOptions}

end NoteVerse.Acoustic
