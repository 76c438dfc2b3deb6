import DagScheduler.Lib.Utf8
import DagScheduler.Model.Worker

/-!
# The output of a command as a string field

`executeTask` converts what a command has printed to a Go string and cuts it
at 64 KiB.  Neither step looks at the characters, and a string field of a
message has to be valid UTF-8.  The text that marks a cut is ASCII, so it can
neither spoil nor repair what stands before it.
-/

namespace DagScheduler

open Lib

/-- Whole characters fill the bytes up to the limit of an output, or up to
their end. -/
def FilledByText (output : ByteArray) : Prop :=
  ∃ (text : List Char) (rest : ByteArray), output = text.utf8Encode ++ rest ∧
    text.utf8Encode.size = min output.size maxOutputBytes

theorem isValidUTF8_mark : "\n[output truncated]".toUTF8.IsValidUTF8 :=
  String.isValidUTF8 _

/-- The mark of a cut changes nothing. -/
theorem Exit.isValidUTF8_outputStr (exit : Exit) :
    exit.outputStr.IsValidUTF8 ↔ (exit.output.extract 0 maxOutputBytes).IsValidUTF8 := by
  unfold outputStr
  split
  · exact isValidUTF8_append_iff isValidUTF8_mark
  · have hall : max maxOutputBytes exit.output.size = maxOutputBytes := by omega
    rw [← hall, ByteArray.extract_zero_max_size]

/-- A text that is longer than the limit survives the cut exactly if the first
byte that is cut off starts a character. -/
theorem Exit.isValidUTF8_of_text {exit : Exit} (htext : exit.output.IsValidUTF8)
    (hlong : maxOutputBytes < exit.output.size) :
    exit.outputStr.IsValidUTF8 ↔ (exit.output.get maxOutputBytes hlong).IsUTF8FirstByte := by
  rw [exit.isValidUTF8_outputStr]
  exact isValidUTF8_extract_iff htext hlong

/-- For everything that a command can print, the output of the result is valid
exactly if whole characters fill it up to the limit. -/
theorem output_transmittable_iff (exit : Exit) :
    exit.outputStr.IsValidUTF8 ↔ FilledByText exit.output := by
  rw [exit.isValidUTF8_outputStr]
  exact isValidUTF8_extract_iff_exists

/-- A command that prints one byte that starts no character. -/
def strayByte : Exit where
  output := ⟨#[0xff]⟩
  execErr := none

theorem not_transmittable_strayByte : ¬ strayByte.outputStr.IsValidUTF8 := by
  decide

end DagScheduler
