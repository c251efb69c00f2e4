import ImpossibleVoice.Lib.Effect
import Mathlib.Data.UInt
import Mathlib.Logic.Basic

namespace ImpossibleVoice.Server.Boundary

abbrev HeaderValue := List UInt8

namespace HeaderValue

def visible (code : Nat) : Bool := (32 ≤ code && code < 127) || code == 9

def fromStr (text : List Char) : Option HeaderValue :=
  if text.all (fun c => visible c.toNat) = true then some (text.map fun c => UInt8.ofNat c.toNat)
    else none

/-- `to_str().ok()`. -/
def toStr (value : HeaderValue) : Option (List UInt8) :=
  if value.all (fun b => visible b.toNat) = true then some value else none

end HeaderValue

def applicationJson : HeaderValue :=
  [97, 112, 112, 108, 105, 99, 97, 116, 105, 111, 110, 47, 106, 115, 111, 110]

inductive ResponseBody
  | envelope (code message : String)
  | workload (bytes : List UInt8)
deriving DecidableEq

structure Response where
  status : Nat
  contentType : Option HeaderValue
  requestId : Option HeaderValue
  body : ResponseBody
deriving DecidableEq

def publicError (status : Nat) (code message : String) : Response :=
  ⟨status, some applicationJson, none, .envelope code message⟩

namespace Response

def overloaded : Response := publicError 429 "overloaded" "the service is temporarily overloaded"

def cancelled : Response := publicError 503 "cancelled" "the request was cancelled"

def internal : Response := publicError 500 "internal" "an internal server error occurred"

def tooLarge : Response :=
  publicError 413 "invalid_request" "the request body exceeds the configured limit"

def deadlineExceeded : Response :=
  publicError 504 "deadline_exceeded" "the request deadline was exceeded"

def isJson (r : Response) : Bool :=
  match r.contentType.bind HeaderValue.toStr with
  | some value => applicationJson.isPrefixOf value
  | none => false

def setRequestId (r : Response) (id : HeaderValue) : Response := { r with requestId := some id }

def Failed (r : Response) : Prop := 400 ≤ r.status ∧ r.status < 600

instance (r : Response) : Decidable r.Failed := inferInstanceAs (Decidable (_ ∧ _))

end Response

inductive BodyFrame
  | data (bytes : List UInt8)
  | broken
deriving DecidableEq

inductive BodyError
  | lengthLimit
  | transport
deriving DecidableEq

/-- `body::to_bytes`: the pieces, as long as they fit. -/
def toBytes (limit : Nat) : List BodyFrame → Except BodyError (List UInt8)
  | [] => .ok []
  | .broken :: _ => .error .transport
  | .data bytes :: frames =>
    if limit < bytes.length then .error .lengthLimit
    else (toBytes (limit - bytes.length) frames).map (bytes ++ ·)

inductive BodyArm
  | stopped
  | expired
  | arrived (frames : List BodyFrame)
deriving DecidableEq

inductive ExecutionArm
  | stopped
  | expired
  | closed
  | granted
deriving DecidableEq

inductive HandlerArm
  | stopped
  | expired
  | answered (inner : Response)
deriving DecidableEq

structure Course where
  entered : Bool
  permitted : Bool
  requestId : Option Nat
  contextBuilt : Bool
  body : BodyArm
  execution : ExecutionArm
  handler : HandlerArm
deriving DecidableEq

def requestIdHeader (id : Nat) : Option HeaderValue := HeaderValue.fromStr (Nat.toDigits 10 id)

def HandlerArm.response : HandlerArm → Response
  | .stopped => .cancelled
  | .expired => .deadlineExceeded
  | .answered inner => inner

def enforceWorkloadPolicy (maxRequestBytes : Nat) (course : Course) : Response :=
  if course.entered = false then .cancelled
  else if course.permitted = false then .overloaded
  else match course.requestId with
    | none => .internal
    | some id =>
      if course.contextBuilt = false then .internal
      else match course.body with
        | .stopped => .cancelled
        | .expired => .deadlineExceeded
        | .arrived frames => match toBytes maxRequestBytes frames with
          | .error _ => .tooLarge
          | .ok _ => match course.execution with
            | .stopped | .closed => .cancelled
            | .expired => .deadlineExceeded
            | .granted => match requestIdHeader id with
              | some value => course.handler.response.setRequestId value
              | none => course.handler.response

def rewritten : Nat → Option Response
  | 400 | 422 => some (publicError 400 "invalid_request" "the request could not be decoded")
  | 415 => some (publicError 415 "invalid_request" "the request media type is unsupported")
  | 405 => some (publicError 405 "invalid_request" "the request method is not supported")
  | 413 => some (publicError 413 "invalid_request" "the request body exceeds the configured limit")
  | _ => none

def normalizePublicFailures (r : Response) : Response :=
  if r.isJson = true then r
  else match rewritten r.status with
    | none => r
    | some normalized => match r.requestId with
      | some id => normalized.setRequestId id
      | none => normalized

def answer (maxRequestBytes : Nat) (course : Course) : Response :=
  normalizePublicFailures (enforceWorkloadPolicy maxRequestBytes course)

namespace Course

def assigned (course : Course) : Option Nat :=
  if course.entered = true ∧ course.permitted = true then course.requestId else none

structure Reaches (maxRequestBytes : Nat) (course : Course) : Prop where
  contextBuilt : course.contextBuilt = true
  body : ∃ frames bytes, course.body = .arrived frames ∧ toBytes maxRequestBytes frames = .ok bytes
  execution : course.execution = .granted

end Course

theorem visible_of_isDigit {c : Char} (h : c.isDigit = true) :
    HeaderValue.visible c.toNat = true := by
  simp only [Char.isDigit, Bool.and_eq_true, decide_eq_true_eq, ge_iff_le,
    UInt32.le_iff_toNat_le] at h
  obtain ⟨hlow, hhigh⟩ := h
  have hlow' : 48 ≤ c.toNat := hlow
  have hhigh' : c.toNat ≤ 57 := hhigh
  simp only [HeaderValue.visible, Bool.or_eq_true, Bool.and_eq_true, decide_eq_true_eq]
  omega

theorem requestIdHeader_eq (id : Nat) :
    requestIdHeader id = some ((Nat.toDigits 10 id).map fun c => UInt8.ofNat c.toNat) :=
  if_pos
    (List.all_eq_true.mpr fun _ hc =>
    visible_of_isDigit (Nat.isDigit_of_mem_toDigits (by decide) (by decide) hc))

namespace Response

theorem publicError_failed {status : Nat} (h : 400 ≤ status ∧ status < 600)
    (code message : String) :
    (publicError status code message).isJson = true ∧ (publicError status code message).Failed ∧
    (publicError status code message).requestId = none :=
  ⟨rfl, h, rfl⟩

theorem normalize_of_json {r : Response} (h : r.isJson = true) : normalizePublicFailures r = r :=
  if_pos h

theorem rewritten_eq_some {status : Nat} {r : Response} (h : rewritten status = some r) :
    r.isJson = true ∧ r.Failed ∧ r.requestId = none := by
  unfold rewritten at h
  split at h <;> cases h <;> exact ⟨rfl, by decide, rfl⟩

theorem normalize_setRequestId (r : Response) (id : HeaderValue) :
    (normalizePublicFailures (r.setRequestId id)).requestId = some id := by
  unfold normalizePublicFailures
  split
  · rfl
  · split <;> rfl

theorem normalize_failed {r : Response} :
    ((normalizePublicFailures r).Failed → (normalizePublicFailures r).isJson = true) ↔
      (r.Failed → r.isJson = true ∨ rewritten r.status ≠ none) := by
  by_cases hjson : r.isJson = true
  · rw [normalize_of_json hjson]
    exact ⟨fun _ _ => .inl hjson, fun _ _ => hjson⟩
  · rw [normalizePublicFailures, if_neg hjson]
    cases hrewritten : rewritten r.status with
    | none =>
        exact ⟨fun h hfailed => .inl (h hfailed), fun h hfailed =>
          (h hfailed).resolve_right fun hne => hne rfl⟩
    | some normalized =>
        refine ⟨fun _ _ => .inr (by simp), fun _ _ => ?_⟩
        cases r.requestId <;> exact (rewritten_eq_some hrewritten).1

end Response

section

variable {maxRequestBytes : Nat} {course : Course} {id : Nat}

open Response

/-- A refusal before the identifier is drawn. -/
theorem enforce_unassigned (maxRequestBytes : Nat) (h : course.assigned = none) :
    ∃ status code message,
      enforceWorkloadPolicy maxRequestBytes course = publicError status code message := by
  rw [enforceWorkloadPolicy]
  by_cases hentered : course.entered = true
  · rw [if_neg (by rw [hentered]; decide)]
    by_cases hpermitted : course.permitted = true
    · rw [Course.assigned, if_pos ⟨hentered, hpermitted⟩] at h
      rw [if_neg (by rw [hpermitted]; decide), h]
      exact ⟨_, _, _, rfl⟩
    · rw [if_pos (by simpa using hpermitted)]
      exact ⟨_, _, _, rfl⟩
  · rw [if_pos (by simpa using hentered)]
    exact ⟨_, _, _, rfl⟩

theorem enforce_assigned (h : course.assigned = some id) :
    enforceWorkloadPolicy maxRequestBytes course =
      if course.contextBuilt = false then .internal
      else match course.body with
        | .stopped => .cancelled
        | .expired => .deadlineExceeded
        | .arrived frames => match toBytes maxRequestBytes frames with
          | .error _ => .tooLarge
          | .ok _ => match course.execution with
            | .stopped | .closed => .cancelled
            | .expired => .deadlineExceeded
            | .granted => match requestIdHeader id with
              | some value => course.handler.response.setRequestId value
              | none => course.handler.response := by
  unfold Course.assigned at h
  split at h
  case isTrue hboth =>
    rw [enforceWorkloadPolicy, if_neg (by rw [hboth.1]; decide), if_neg (by rw [hboth.2]; decide),
    h]
  case isFalse => cases h

theorem enforce_reached (h : course.assigned = some id)
    (hreaches : course.Reaches maxRequestBytes) :
    ∃ value, requestIdHeader id = some value ∧
    enforceWorkloadPolicy maxRequestBytes course = course.handler.response.setRequestId value := by
  obtain ⟨frames, bytes, hbody, hbytes⟩ := hreaches.body
  refine ⟨_, requestIdHeader_eq id, ?_⟩
  rw [enforce_assigned h, if_neg (by rw [hreaches.contextBuilt]; decide), hbody]
  simp only [hbytes, hreaches.execution, requestIdHeader_eq]

/-- The early returns after the identifier is drawn: none carries it. -/
theorem enforce_dropped (h : course.assigned = some id)
    (hdropped : ¬ course.Reaches maxRequestBytes) :
    (enforceWorkloadPolicy maxRequestBytes course).isJson = true ∧
    (enforceWorkloadPolicy maxRequestBytes course).Failed ∧
    (enforceWorkloadPolicy maxRequestBytes course).requestId = none := by
  rw [enforce_assigned h]
  by_cases hcontext : course.contextBuilt = true
  · rw [if_neg (by rw [hcontext]; decide)]
    cases hbody : course.body with
    | stopped => exact publicError_failed (by decide) "cancelled" _
    | expired => exact publicError_failed (by decide) "deadline_exceeded" _
    | arrived frames =>
        dsimp only
        cases hbytes : toBytes maxRequestBytes frames with
        | error e => exact publicError_failed (by decide) "invalid_request" _
        | ok bytes =>
            dsimp only
            cases hexecution : course.execution with
            | stopped | closed => exact publicError_failed (by decide) "cancelled" _
            | expired => exact publicError_failed (by decide) "deadline_exceeded" _
            | granted =>
                exact absurd ⟨hcontext, ⟨frames, bytes, hbody, hbytes⟩, hexecution⟩ hdropped
  · rw [if_pos (by simpa using hcontext)]
    exact publicError_failed (by decide) "internal" _

structure StableFailure (maxRequestBytes : Nat) (course : Course) : Prop where
  json : (answer maxRequestBytes course).Failed → (answer maxRequestBytes course).isJson = true
  identified : (answer maxRequestBytes course).Failed → ∀ id, course.assigned = some id →
    ∃ value, requestIdHeader id = some value ∧
      (answer maxRequestBytes course).requestId = some value

/-- What the handler answers, if it does, is no failure, or JSON, or rewritten. -/
def HandlerArm.Presentable : HandlerArm → Prop
  | .stopped | .expired => True
  | .answered inner => inner.Failed → inner.isJson = true ∨ rewritten inner.status ≠ none

/-- Failures are stable exactly where no identifier was drawn, and where the
request reached its handler, which answered presentably. -/
theorem failures_are_stable_iff (maxRequestBytes : Nat) (course : Course) :
    StableFailure maxRequestBytes course ↔
      course.assigned = none ∨ (course.Reaches maxRequestBytes ∧ course.handler.Presentable) := by
  cases hassigned : course.assigned with
  | none =>
      refine ⟨fun _ => .inl rfl,
        fun _ => ⟨fun _ => ?_, fun _ id h => by rw [hassigned] at h; cases h⟩⟩
      obtain ⟨status, code, message, heq⟩ := enforce_unassigned maxRequestBytes hassigned
      rw [answer, heq]
      rfl
  | some id =>
      by_cases hreaches : course.Reaches maxRequestBytes
      · obtain ⟨value, hvalue, hresponse⟩ := enforce_reached hassigned hreaches
        have hpresentable : course.handler.Presentable ↔ ((answer maxRequestBytes course).Failed →
            (answer maxRequestBytes course).isJson = true) := by
          rw [answer, hresponse, normalize_failed]
          cases course.handler with
          | stopped => exact ⟨fun _ _ => .inl rfl, fun _ => trivial⟩
          | expired => exact ⟨fun _ _ => .inl rfl, fun _ => trivial⟩
          | answered inner => exact Iff.rfl
        have hid : (answer maxRequestBytes course).requestId = some value := by
          rw [answer, hresponse, normalize_setRequestId]
        constructor
        · exact fun h => .inr ⟨hreaches, hpresentable.mpr h.json⟩
        · rintro (h | ⟨-, h⟩)
          · cases h
          · refine ⟨hpresentable.mp h, fun _ id' hid' => ?_⟩
            rw [hassigned] at hid'
            cases hid'
            exact ⟨value, hvalue, hid⟩
      · obtain ⟨hjson, hfailed, hnone⟩ := enforce_dropped hassigned hreaches
        constructor
        · intro h
          have hanswer : answer maxRequestBytes course =
              enforceWorkloadPolicy maxRequestBytes course :=
            normalize_of_json hjson
          obtain ⟨value, -, hid⟩ := h.identified (by rw [hanswer]; exact hfailed) id hassigned
          rw [hanswer, hnone] at hid
          cases hid
        · rintro (h | ⟨h, -⟩)
          · cases h
          · exact absurd h hreaches

/-- A body that is not there by the deadline. -/
theorem an_expired_body_is_answered_without_its_identifier :
    let course : Course := ⟨true, true, some 7, true, .expired, .granted, .stopped⟩
    (answer 1048576 course).status = 504 ∧ (answer 1048576 course).requestId = none ∧
      course.assigned = some 7 ∧ ¬ StableFailure 1048576 course := by
  refine ⟨rfl, rfl, rfl, fun h => ?_⟩
  obtain ⟨value, -, hid⟩ := h.identified (by decide) 7 rfl
  cases hid

end

end ImpossibleVoice.Server.Boundary
