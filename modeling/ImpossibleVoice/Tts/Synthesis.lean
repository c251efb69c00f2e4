import ImpossibleVoice.Audio.Pcm

namespace ImpossibleVoice.Tts

open Audio

inductive TtsError
  | invalidInput
  | busy
  | cancelled
  | deadlineExceeded
  | engine
  | output
deriving DecidableEq

structure Synthesis where
  audio : MonoPcm
  maxChunkSamples : Nat
  chunk_ne_zero : maxChunkSamples ≠ 0

namespace Synthesis

def pcm16 (synthesis : Synthesis) : List UInt8 := synthesis.audio.toPcm16Le

theorem pcm16_ne_nil (synthesis : Synthesis) : synthesis.pcm16 ≠ [] := by
  intro h
  have hlen := toPcm16Le_length synthesis.audio
  rw [show synthesis.audio.toPcm16Le = [] from h, List.length_nil] at hlen
  exact synthesis.audio.samples_ne_nil (List.length_eq_zero_iff.mp (by omega))

end Synthesis

end ImpossibleVoice.Tts
