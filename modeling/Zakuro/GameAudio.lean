import Mathlib.Data.List.Basic

/-!
# GameAudio

The audio buffers of an instance: what is played into one, and what is rendered
from it.
-/

/-- `buf_` -/
abbrev GameAudio := List Int16

namespace GameAudio

/-- `buf_.assign(buf.begin(), buf.end())` -/
def play (_ : GameAudio) (buf : List Int16) : GameAudio := buf

/-- `Render` into a buffer of a size: what is in it afterwards, and what is left. -/
def render (audio : GameAudio) (size : Nat) : List Int16 × GameAudio :=
  let n := min size audio.length
  (audio.take n ++ List.replicate (size - n) 0, audio.drop n)

/-- So many samples of a clip, with silence behind its end. -/
def heard (clip : List Int16) (m : Nat) : List Int16 :=
  clip.take m ++ List.replicate (m - clip.length) 0

theorem heard_length (clip : List Int16) (m : Nat) : (heard clip m).length = m := by
  rw [heard, List.length_append, List.length_take, List.length_replicate]
  omega

theorem render_eq (audio : GameAudio) (size : Nat) :
    audio.render size = (heard audio size, audio.drop size) := by
  have hcount : size - min size audio.length = size - audio.length := by omega
  rw [render, heard, ← List.take_eq_take_min, ← List.drop_eq_drop_min, hcount]

/-- Rendering goes on where it has stopped. -/
theorem heard_add (clip : List Int16) (m size : Nat) :
    heard clip (m + size) = heard clip m ++ heard (clip.drop m) size := by
  rw [heard, heard, heard, List.length_drop]
  rcases Nat.le_total m clip.length with hle | hle
  · have hnone : m - clip.length = 0 := by omega
    have hrest : m + size - clip.length = size - (clip.length - m) := by omega
    rw [hnone, hrest, List.replicate_zero, List.append_nil, List.take_add, List.append_assoc]
  · have hsum : m + size - clip.length = m - clip.length + (size - (clip.length - m)) := by omega
    rw [List.take_of_length_le hle, List.take_of_length_le (by omega), List.drop_of_length_le hle, hsum,
      List.replicate_add, List.take_nil, List.nil_append, List.append_assoc]

end GameAudio

/-- `audios_` -/
abbrev GameAudioManager := List GameAudio

namespace GameAudioManager

/-- `Play`, which returns at once where there is no buffer with the number. -/
def play (audios : GameAudioManager) (n : Int) (buf : List Int16) : GameAudioManager :=
  if n < 0 ∨ n ≥ audios.length then audios
  else audios.modify n.toNat fun audio => GameAudio.play audio buf

/-- `AddGameAudio`, with the buffer that the function it returns renders. -/
def addGameAudio (audios : GameAudioManager) : GameAudioManager × Nat := (audios ++ [[]], audios.length)

end GameAudioManager
