import Arhugula.Spec.Capture

/-!
# What a recording is

A recording is the list of the frames that were fed since it started. `verdict` says of that list alone
whether the recording goes on, and why it ends if it does not: the state that `feed` carries is a summary of the
list (`Recorded`), and each frame takes the summary of the frames before it to that of the frames with it
(`Recorded.extend`).
-/

namespace Arhugula

namespace Capture

variable {config : CaptureConfig} {c : CommandCapture} {frames : List Frame} {frame : Frame}

/-! ## Frames -/

/-- The audio of frames. -/
def pcm (frames : List Frame) : Bytes := frames.flatMap Frame.pcm

/-- Its length in milliseconds. -/
def ms (frames : List Frame) : ℕ := (pcm frames).length / bytesPerMs

/-- One of them is speech. -/
def spoken (frames : List Frame) : Bool := frames.any Frame.speech

/-- The silence after the last speech, the last frame first. -/
def trailing (frames : List Frame) : List Frame := frames.reverse.takeWhile fun f => !f.speech

/-- The audio that a recording keeps. -/
def cut (config : CaptureConfig) (frames : List Frame) : Bytes := (pcm frames).take (CommandCapture.limit config)

/-- The trailing silence that ends an utterance. -/
def silenceLimit (config : CaptureConfig) (frames : List Frame) : ℕ :=
  if config.longUtteranceMs ≤ ms (frames.filter Frame.speech) then config.longSilenceMs else config.shortSilenceMs

/-- **Why a recording ends**: the longest recording, initial silence, silence after speech. -/
def verdict (config : CaptureConfig) (frames : List Frame) : Option Reason :=
  if config.maxMs ≤ ms frames then some (if spoken frames then .maxDuration else .initialSilence)
  else if spoken frames then
    if silenceLimit config frames ≤ ms (trailing frames) then some .silence else none
  else if config.initialSilenceMs ≤ ms frames then some .initialSilence
  else none

theorem pcm_append (frames : List Frame) (frame : Frame) : pcm (frames ++ [frame]) = pcm frames ++ frame.pcm := by
  unfold pcm
  rw [List.flatMap_append, List.flatMap_singleton]

theorem pcm_whole (frames : List Frame) : bytesPerMs ∣ (pcm frames).length := by
  unfold pcm
  induction frames with
  | nil => exact ⟨0, rfl⟩
  | cons f rest ih =>
    rw [List.flatMap_cons, List.length_append]
    exact Nat.dvd_add f.whole ih

theorem length_pcm (frames : List Frame) : (pcm frames).length = ms frames * bytesPerMs := by
  unfold ms
  rw [Nat.div_mul_cancel (pcm_whole frames)]

theorem ms_append (frames : List Frame) (frame : Frame) :
    ms (frames ++ [frame]) = ms frames + frame.pcm.length / bytesPerMs := by
  have hwhole := length_pcm frames
  unfold ms at hwhole ⊢
  unfold bytesPerMs at *
  rw [pcm_append, List.length_append]
  omega

theorem spoken_append (frames : List Frame) (frame : Frame) :
    spoken (frames ++ [frame]) = (spoken frames || frame.speech) := by
  unfold spoken
  rw [List.any_append, List.any_cons, List.any_nil, Bool.or_false]

theorem ms_trailing (frames : List Frame) (frame : Frame) :
    ms (trailing (frames ++ [frame])) =
      if frame.speech then 0 else ms (trailing frames) + frame.pcm.length / bytesPerMs := by
  unfold trailing
  rw [List.reverse_append, List.reverse_singleton, List.singleton_append]
  by_cases hs : frame.speech = true
  · rw [if_pos hs, List.takeWhile_cons_of_neg (by simp [hs])]
    decide
  · rw [if_neg hs, List.takeWhile_cons_of_pos (by simp [hs])]
    have hwhole := length_pcm (frames.reverse.takeWhile fun f => !f.speech)
    unfold ms pcm at hwhole ⊢
    unfold bytesPerMs at *
    rw [List.flatMap_cons, List.length_append]
    omega

/-- Where nothing is speech, all of it is trailing silence. -/
theorem ms_unspoken (h : spoken frames = false) : ms (trailing frames) = ms frames := by
  have hall : trailing frames = frames.reverse := by
    unfold trailing
    rw [← List.append_nil frames.reverse, List.takeWhile_append_of_pos, List.takeWhile_nil]
    intro f hf
    unfold spoken at h
    rw [List.any_eq_false] at h
    simpa using h f (List.mem_reverse.1 hf)
  have hlength : (pcm frames.reverse).length = (pcm frames).length := by
    unfold pcm
    exact (List.reverse_perm frames).flatMap_right _ |>.length_eq
  unfold ms
  rw [hall, hlength]

theorem ms_speech (frames : List Frame) (frame : Frame) :
    ms ((frames ++ [frame]).filter Frame.speech) =
      if frame.speech then ms (frames.filter Frame.speech) + frame.pcm.length / bytesPerMs
      else ms (frames.filter Frame.speech) := by
  rw [List.filter_append]
  by_cases hs : frame.speech = true
  · rw [if_pos hs, List.filter_cons_of_pos hs, List.filter_nil, ms_append]
  · rw [if_neg hs, List.filter_cons_of_neg hs, List.filter_nil, List.append_nil]

/-! ## The state of a recording -/

/-- The counters hold what the frames are, as far as they were kept. -/
structure Sums (c : CommandCapture) (frames : List Frame) : Prop where
  speech : c.speechMs = ms (frames.filter Frame.speech)
  silence : c.silenceMs = ms (trailing frames)

/-- **The state is that of a recording of these frames.** While it goes on the verdict is open; once it is
processed it held speech. -/
structure Recorded (c : CommandCapture) (frames : List Frame) : Prop where
  idle : c.state = .idle → c.buffer = [] ∧ c.speechMs = 0 ∧ c.silenceMs = 0 ∧ c.heardSpeech = false ∧ c.token = none
  audio : c.state ≠ .idle → c.buffer = cut c.config frames
  heard : c.state ≠ .idle → c.heardSpeech = spoken frames
  sums : c.state = .recording → Sums c frames
  going : c.state = .recording → verdict c.config frames = none
  ended : c.state = .processing → spoken frames = true

theorem cut_length_le (config : CaptureConfig) (frames : List Frame) :
    (cut config frames).length ≤ CommandCapture.limit config := by
  unfold cut
  exact List.length_take_le _ _

/-- The buffer never holds more than the longest recording. -/
theorem Recorded.bounded (h : Recorded c frames) : c.buffer.length ≤ CommandCapture.limit c.config := by
  by_cases hidle : c.state = .idle
  · rw [(h.idle hidle).1]
    exact Nat.zero_le _
  · rw [h.audio hidle]
    exact cut_length_le _ _

theorem verdict_none (h : verdict config frames = none) :
    ms frames < config.maxMs ∧ (spoken frames = false → ms frames < config.initialSilenceMs) := by
  unfold verdict at h
  split_ifs at h with hmax hspoken hlimit hinitial
  · refine ⟨by omega, fun hnot => ?_⟩
    rw [hspoken] at hnot
    cases hnot
  · exact ⟨by omega, fun _ => by omega⟩

/-- Less than the longest recording is kept whole. -/
theorem cut_whole (h : ms frames ≤ config.maxMs) : cut config frames = pcm frames := by
  unfold cut
  refine List.take_of_length_le ?_
  rw [length_pcm]
  exact Nat.mul_le_mul_right _ h

/-- What `feed` takes of a frame is what the cut leaves room for. -/
theorem Recorded.extend_buffer (h : Recorded c frames) (hstate : c.state = .recording) (frame : Frame) :
    (c.extend frame).buffer = cut c.config (frames ++ [frame]) := by
  have hopen := (verdict_none (h.going hstate)).1
  have hbuffer : c.buffer = pcm frames := by
    rw [h.audio (by rw [hstate]; decide), cut_whole hopen.le]
  have hroom : (pcm frames).length ≤ CommandCapture.limit c.config := by
    rw [length_pcm]
    exact Nat.mul_le_mul_right _ hopen.le
  show c.buffer ++ frame.pcm.take (CommandCapture.limit c.config - c.buffer.length) = _
  unfold cut
  rw [pcm_append, List.take_append, List.take_of_length_le hroom, hbuffer]

/-- The buffer is full when the verdict says so. -/
theorem full_iff (config : CaptureConfig) (frames : List Frame) :
    (cut config frames).length = CommandCapture.limit config ↔ config.maxMs ≤ ms frames := by
  unfold cut CommandCapture.limit
  rw [List.length_take, length_pcm]
  unfold bytesPerMs
  omega

/-- **One frame** takes the counters of the frames before it to those of the frames with it, unless it fills the
buffer. -/
theorem Recorded.extend_sums (h : Recorded c frames) (hstate : c.state = .recording) (frame : Frame)
    (hopen : ms (frames ++ [frame]) < c.config.maxMs) : Sums (c.extend frame) (frames ++ [frame]) := by
  have hbefore := (verdict_none (h.going hstate)).1
  have hincluded : c.included frame = frame.pcm := by
    unfold CommandCapture.included
    refine List.take_of_length_le ?_
    have hlength := length_pcm (frames ++ [frame])
    rw [pcm_append, List.length_append] at hlength
    rw [h.audio (by rw [hstate]; decide), cut_whole hbefore.le]
    unfold CommandCapture.limit bytesPerMs at *
    omega
  have hsums := h.sums hstate
  refine ⟨?_, ?_⟩
  · rw [ms_speech, ← hsums.speech, ← hincluded]
    rfl
  · rw [ms_trailing, ← hsums.silence, ← hincluded]
    rfl

theorem Recorded.extend_heard (h : Recorded c frames) (hstate : c.state = .recording) (frame : Frame) :
    (c.extend frame).heardSpeech = spoken (frames ++ [frame]) := by
  rw [spoken_append, ← h.heard (by rw [hstate]; decide)]
  rfl

/-- A capture that is idle, as a recording of whatever was fed. -/
theorem recorded_discard (c : CommandCapture) (frames : List Frame) : Recorded c.discard frames where
  idle _ := ⟨rfl, rfl, rfl, rfl, rfl⟩
  audio h := absurd rfl h
  heard h := absurd rfl h
  sums h := by cases h
  going h := by cases h
  ended h := by cases h

theorem verdict_nil (config : CaptureConfig) : verdict config [] = none := by
  have hmax := config.positive config.maxMs (by simp)
  have hinitial := config.positive config.initialSilenceMs (by simp)
  have hms : ms [] = 0 := by decide
  have hspoken : spoken [] = false := by decide
  unfold verdict
  rw [hms, hspoken, if_neg (by omega), if_neg (by decide), if_neg (by omega)]

end Capture

end Arhugula
