import ImpossibleVoice.Server.Boundary

namespace ImpossibleVoice.Server.Boundary

def maxRequestBytesCap : Nat := 1024 * 1024 * 1024

structure RequestLimit where
  maxRequestBytes : Nat
  ne_zero : maxRequestBytes ≠ 0
  le_cap : maxRequestBytes ≤ maxRequestBytesCap

/-- `bounded_size`. -/
def RequestLimit.new (value : Nat) : Option RequestLimit :=
  if hz : value = 0 then none else if hc :
    value ≤ maxRequestBytesCap then some ⟨value, hz, hc⟩ else none

inductive Extractor
  | bytes
  | json
  | multipart
deriving DecidableEq

inductive Route
  | nativeTranscription
  | openaiTranscription
  | speech
  | mcp
deriving DecidableEq

def Route.extractor : Route → Extractor
  | .nativeTranscription | .mcp => .bytes
  | .openaiTranscription => .multipart
  | .speech => .json

structure Head where
  json : Bool
  boundary : Bool
deriving DecidableEq

inductive Refusal
  | size
  | transport
  | mediaType
  | boundary
deriving DecidableEq

def defaultBodyLimit : Nat := 2097152

def Head.suits (head : Head) : Extractor → Except Refusal Unit
  | .bytes => .ok ()
  | .json => if head.json = true then .ok () else .error .mediaType
  | .multipart => if head.boundary = true then .ok () else .error .boundary

def Extractor.read (extractor : Extractor) (head : Head) (body : List UInt8) :
    Except Refusal (List UInt8) := do
  head.suits extractor
  if defaultBodyLimit < body.length then .error .size else .ok body

def BodyError.refusal : BodyError → Refusal
  | .lengthLimit => .size
  | .transport => .transport

/-- A body on its way to the handler of a route: buffered by the middleware, then
read by the extractor. -/
def receive (limit : RequestLimit) (route : Route) (head : Head) (frames : List BodyFrame) :
    Except Refusal (List UInt8) := do
  let body ← (toBytes limit.maxRequestBytes frames).mapError BodyError.refusal
  route.extractor.read head body

theorem toBytes_data (limit : Nat) (pieces : List (List UInt8)) : toBytes limit (pieces.map .data) =
    if limit < pieces.flatten.length then .error .lengthLimit else .ok pieces.flatten := by
  induction pieces generalizing limit with
  | nil => rfl
  | cons piece pieces ih =>
      rw [List.map_cons, toBytes, ih, List.flatten_cons, List.length_append]
      by_cases hpiece : limit < piece.length
      · rw [if_pos hpiece, if_pos (by omega)]
      · rw [if_neg hpiece]
        by_cases hrest : limit - piece.length < pieces.flatten.length
        · rw [if_pos hrest, if_pos (by omega)]
          rfl
        · rw [if_neg hrest, if_neg (by omega)]
          rfl

variable {limit : RequestLimit} {route : Route} {head : Head} {pieces : List (List UInt8)}

theorem receive_over (h : limit.maxRequestBytes < pieces.flatten.length) :
    receive limit route head (pieces.map .data) = .error .size := by
  rw [receive, toBytes_data, if_pos h]
  rfl

theorem receive_within (h : pieces.flatten.length ≤ limit.maxRequestBytes) :
    receive limit route head (pieces.map .data) = route.extractor.read head pieces.flatten := by
  rw [receive, toBytes_data, if_neg (Nat.not_lt.mpr h)]
  rfl

theorem suits_ne_size (head : Head) (extractor : Extractor) :
    head.suits extractor ≠ .error .size := by
  unfold Head.suits
  split
  · exact fun h => by cases h
  · split <;> exact fun h => by cases h
  · split <;> exact fun h => by cases h

theorem receive_between (hdefault : defaultBodyLimit < pieces.flatten.length)
    (hwithin : pieces.flatten.length ≤ limit.maxRequestBytes)
    (hsuits : head.suits route.extractor = .ok ()) :
    receive limit route head (pieces.map .data) = .error .size := by
  rw [receive_within hwithin, Extractor.read, hsuits]
  exact if_pos hdefault

/-- The configured bound is the effective one: a body is refused for its size
exactly if it is above, and else reaches the handler if its headers suit. -/
structure EffectiveLimit (limit : RequestLimit) (route : Route) (head : Head)
    (pieces : List (List UInt8)) : Prop where
  refused : receive limit route head (pieces.map .data) = .error .size ↔
    limit.maxRequestBytes < pieces.flatten.length
  reaches : pieces.flatten.length ≤ limit.maxRequestBytes → head.suits route.extractor = .ok () →
    receive limit route head (pieces.map .data) = .ok pieces.flatten

/-- The configured bound is effective but for the bodies between the extractors'
own bound and the configured one. -/
theorem limit_is_effective_iff (limit : RequestLimit) (route : Route) (head : Head)
    (pieces : List (List UInt8)) :
    EffectiveLimit limit route head pieces ↔
      ¬ (defaultBodyLimit < pieces.flatten.length ∧ pieces.flatten.length ≤ limit.maxRequestBytes ∧
      head.suits route.extractor = .ok ()) := by
  by_cases hover : limit.maxRequestBytes < pieces.flatten.length
  · refine ⟨fun _ h => absurd h.2.1 (Nat.not_le.mpr hover),
      fun _ => ⟨⟨fun _ => hover, fun _ => receive_over hover⟩, ?_⟩⟩
    exact fun h => absurd h (Nat.not_le.mpr hover)
  have hwithin := Nat.not_lt.mp hover
  have hreceive : receive limit route head (pieces.map .data) =
      route.extractor.read head pieces.flatten :=
    receive_within hwithin
  cases hsuits : head.suits route.extractor with
  | error e =>
      have hread : route.extractor.read head pieces.flatten = .error e := by
        rw [Extractor.read, hsuits]
        rfl
      refine ⟨fun _ h => (by cases h.2.2),
        fun _ => ⟨⟨fun h => ?_, fun h => absurd h hover⟩, fun _ h => ?_⟩⟩
      · rw [hreceive, hread] at h
        cases h
        exact absurd hsuits (suits_ne_size head _)
      · rw [hsuits] at h
        cases h
  | ok u =>
      have hread : route.extractor.read head pieces.flatten =
          if defaultBodyLimit < pieces.flatten.length then .error .size
            else .ok pieces.flatten := by
        rw [Extractor.read, hsuits]
        rfl
      by_cases hdefault : defaultBodyLimit < pieces.flatten.length
      · rw [if_pos hdefault] at hread
        exact ⟨fun h _ => absurd (h.refused.mp (hreceive.trans hread)) hover,
          fun h => absurd ⟨hdefault, hwithin, rfl⟩ h⟩
      · rw [if_neg hdefault] at hread
        refine ⟨fun _ h => absurd h.1 hdefault,
          fun _ => ⟨⟨fun h => ?_, fun h => absurd h hover⟩, fun _ _ =>
          hreceive.trans hread⟩⟩
        rw [hreceive, hread] at h
        cases h

def defaultRequestLimit : RequestLimit := ⟨16 * 1024 * 1024, by decide, by decide⟩

/-- One byte above two MiB is refused where 16 MiB are allowed. -/
theorem a_body_over_two_mebibytes_is_refused :
    receive defaultRequestLimit .nativeTranscription ⟨false, false⟩
      ([List.replicate 2097153 0].map .data) = .error .size ∧
    ¬ EffectiveLimit defaultRequestLimit .nativeTranscription ⟨false, false⟩
      [List.replicate 2097153 0] := by
  have hlength : [List.replicate 2097153 (0 : UInt8)].flatten.length = 2097153 := by
    rw [List.flatten_cons, List.flatten_nil, List.append_nil, List.length_replicate]
  have hwithin : [List.replicate 2097153 (0 : UInt8)].flatten.length ≤
      defaultRequestLimit.maxRequestBytes := by
    rw [hlength]
    decide
  have hsize :=
    receive_between (by rw [hlength]; decide) hwithin (show (⟨false, false⟩ : Head).suits
    Route.nativeTranscription.extractor = .ok () from rfl)
  exact ⟨hsize, fun h => absurd (h.refused.mp hsize) (Nat.not_lt.mpr hwithin)⟩

end ImpossibleVoice.Server.Boundary
