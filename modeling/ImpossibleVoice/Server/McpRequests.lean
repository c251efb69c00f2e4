import ImpossibleVoice.Server.Mcp

namespace ImpossibleVoice.Server.Mcp

open Lib Audio Tts

variable {serde : Serde} {backend : BatchBackend} {failure : RpcFailure}

def failures : List RpcFailure :=
  [⟨-32700, "JSON-RPC parse error"⟩, invalidRequest, ⟨-32601, "method not found"⟩,
    ⟨-32602, "MCP protocol version is unsupported"⟩, invalidParams, ⟨-32602, "tool not found"⟩,
    ⟨-32002, "resource not found"⟩, ⟨-32003, "tool result exceeds the MCP limit"⟩, engineFailure,
    ⟨-32003, "voice capacity is busy"⟩, ⟨-32800, "request cancelled"⟩,
      ⟨-32800, "request deadline exceeded"⟩]

def received (serde : Serde) (body : List UInt8) : Option JsonRpcRequest :=
  (serde.fromSlice body).bind JsonRpcRequest.ofValue

def toolHears (serde : Serde) (call : ToolCall) : Option BatchCall :=
  if call.name = "transcribe_audio" then (toolAudio serde call.arguments).toOption.map .transcribe
  else if call.name = "synthesize_speech" then
    (toolSpeech serde call.arguments).toOption.map fun request =>
      .synthesize request.text request.speed
  else none

def hears (serde : Serde) (body : List UInt8) : Option BatchCall :=
  (received serde body).bind fun request =>
    if request.jsonrpc = "2.0" ∧ request.id ≠ none ∧ request.method = "tools/call" then
      (ToolCall.ofValue request.params).bind (toolHears serde)
    else none

def Notification (serde : Serde) (body : List UInt8) : Prop :=
  ∃ request, received serde body = some request ∧ request.jsonrpc = "2.0" ∧ request.id = none

/-- One message: a notification gets no response, and anything else gets
exactly one, which is a result or one of the failures and bears the identifier
of the message; the backend hears what the message asks for. -/
structure Handled (serde : Serde) (body : List UInt8) (before : List BatchCall)
    (handled : Answer × List BatchCall) : Prop where
  heard : handled.2 = before ++ (hears serde body).toList
  accepted : (∀ r, handled.1 ≠ .response r) ↔ Notification serde body
  version : ∀ r, handled.1 = .response r → r.jsonrpc = "2.0"
  identifier : ∀ r, handled.1 = .response r → r.id = ((received serde body).bind (·.id)).getD .null
  outcome : ∀ r, handled.1 = .response r → (r.error = none ↔ r.result.isSome = true)
  stable : ∀ r failure, handled.1 = .response r → r.error = some failure → failure ∈ failures

/-- A handler that makes this call and fails in one of the known ways. -/
def Makes (handler : Handler RpcFailure Json) (heard : Option BatchCall) : Prop :=
  ∀ calls, match handler.run calls with
    | .ok _ after => after = calls ++ heard.toList
    | .error failure after => after = calls ++ heard.toList ∧ failure ∈ failures

abbrev Known {α : Type} (result : Except RpcFailure α) : Prop :=
  FailsAs (fun failure => failure ∈ failures) result

theorem makes_pure (result : Json) : Makes (pure result) none :=
  fun calls => (List.append_nil calls).symm

theorem makes_throw (h : failure ∈ failures) : Makes (throw failure) none :=
  fun calls => ⟨(List.append_nil calls).symm, h⟩

theorem makes_fromExcept {result : Except RpcFailure Json} (h : Known result) :
    Makes (fromExcept result) none := by
  cases result with
  | ok value => exact makes_pure value
  | error failure => exact makes_throw (h failure rfl)

theorem makes_bind {α : Type} {check : Except RpcFailure α}
    {handler : α → Handler RpcFailure Json} {heard : α → Option BatchCall} (hcheck : Known check)
    (h : ∀ a, Makes (handler a) (heard a)) :
    Makes (fromExcept check >>= handler) (check.toOption.bind heard) := by
  intro calls
  cases check with
  | ok a =>
      rw [run_bind_of_ok (run_fromExcept_ok a calls)]
      exact h a calls
  | error failure =>
      rw [run_bind_of_error (run_fromExcept_error failure calls)]
      exact ⟨(List.append_nil calls).symm, hcheck failure rfl⟩

theorem mapBackendError_mem (e : VoiceBackendError) : mapBackendError e ∈ failures := by
  cases e <;> decide

theorem known_joined {α : Type} (reply : Option (Except VoiceBackendError α)) :
    Known (joined engineFailure mapBackendError reply) := by
  cases reply with
  | none => exact FailsAs.error (by decide)
  | some reply => exact FailsAs.mapError mapBackendError_mem

theorem makes_spawnBlocking {α : Type} {call : BatchCall}
    {reply : List BatchCall → Option (Except VoiceBackendError α)}
    {convert : α → Except RpcFailure Json} (h : ∀ a, Known (convert a)) :
    Makes
      (spawnBlocking call reply engineFailure mapBackendError >>= fun a => fromExcept (convert a))
      (some call) := by
  intro calls
  have hrun := run_spawnBlocking call reply engineFailure mapBackendError calls
  cases hjoined : joined engineFailure mapBackendError (reply calls) with
  | error failure =>
      rw [hjoined] at hrun
      rw [run_bind_of_error hrun]
      exact ⟨rfl, known_joined _ failure hjoined⟩
  | ok a =>
      rw [hjoined] at hrun
      rw [run_bind_of_ok hrun]
      cases hconvert : convert a with
      | ok value => rfl
      | error failure => exact ⟨rfl, h a failure hconvert⟩

theorem invalidParams_mem : invalidParams ∈ failures := by decide

theorem known_decodeTool (encoding : String) (sampleRate : Option Nat) (bytes : List UInt8) :
    Known (decodeTool encoding sampleRate bytes) := by
  refine FailsAs.ite (FailsAs.mapError fun _ => invalidParams_mem)
    (FailsAs.ite ?_ (FailsAs.error invalidParams_mem))
  exact (FailsAs.orFail invalidParams_mem).bind fun rate => FailsAs.mapError fun _ =>
    invalidParams_mem

theorem known_toolAudio (arguments : Json) : Known (toolAudio serde arguments) := by
  refine (FailsAs.orFail invalidParams_mem).bind fun arguments =>
    FailsAs.ite (FailsAs.error invalidParams_mem) ?_
  refine (FailsAs.orFail invalidParams_mem).bind fun bytes =>
    FailsAs.ite (FailsAs.error invalidParams_mem) ?_
  exact known_decodeTool _ _ _

theorem known_toolSpeech (arguments : Json) : Known (toolSpeech serde arguments) :=
  (FailsAs.orFail invalidParams_mem).bind fun _ =>
    FailsAs.ite (FailsAs.ok _) (FailsAs.error invalidParams_mem)

theorem known_audioResult (format : String) (synthesis : Synthesis) :
    Known (audioResult serde format synthesis) := by
  refine FailsAs.bind ?_ fun encoded => FailsAs.ite (FailsAs.error (by decide)) (FailsAs.ok _)
  exact FailsAs.ite (FailsAs.mapError fun _ => by decide).map (FailsAs.ok _)

theorem known_requireEmpty (value : Json) : Known (requireEmpty value) := by
  unfold requireEmpty
  split
  · exact FailsAs.ok ()
  · exact FailsAs.ite (FailsAs.ok ()) (FailsAs.error invalidParams_mem)

theorem known_initializeSession (params : Json) : Known (initializeSession params) :=
  (FailsAs.orFail (by decide)).bind fun _ => FailsAs.ite (FailsAs.error (by decide)) (FailsAs.ok _)

theorem known_readResource (params : Json) : Known (readResource serde params) := by
  refine (FailsAs.orFail invalidParams_mem).bind fun uri => FailsAs.bind ?_ fun content =>
    FailsAs.ok _
  exact FailsAs.ite (FailsAs.ok _) (FailsAs.ite (FailsAs.ok _) (FailsAs.error (by decide)))

theorem makes_transcribe (arguments : Json) :
    Makes (transcribe serde backend arguments)
      ((toolAudio serde arguments).toOption.map .transcribe) := by
  rw [Option.map_eq_bind]
  refine makes_bind (known_toolAudio arguments) fun audio => ?_
  have hconvert (transcript : String) : Known (.ok (textContent transcript)) := FailsAs.ok _
  exact makes_spawnBlocking hconvert

theorem makes_synthesize (arguments : Json) :
    Makes (synthesize serde backend arguments)
      ((toolSpeech serde arguments).toOption.map fun request =>
      .synthesize request.text request.speed) := by
  rw [Option.map_eq_bind]
  refine makes_bind (known_toolSpeech arguments) fun request => ?_
  exact makes_spawnBlocking fun synthesis => known_audioResult request.format synthesis

theorem makes_plain (arguments result : Json) :
    Makes (do fromExcept (requireEmpty arguments); pure result) none := by
  have hplain (_ : Unit) : Makes (pure result) none := makes_pure result
  have h := makes_bind (known_requireEmpty arguments) hplain
  rwa [Option.bind_fun_none] at h

theorem makes_callTool (params : Json) :
    Makes (callTool serde backend params) ((ToolCall.ofValue params).bind (toolHears serde)) := by
  have hcheck : (orFail (ToolCall.ofValue params) invalidParams).toOption =
      ToolCall.ofValue params := by
    cases ToolCall.ofValue params <;> rfl
  rw [← hcheck]
  refine makes_bind (FailsAs.orFail invalidParams_mem) fun call => ?_
  rw [toolHears]
  split
  · exact makes_transcribe _
  · split
    · exact makes_synthesize _
    · split
      · exact makes_plain _ _
      · split
        · exact makes_plain _ _
        · exact makes_throw (by decide)

theorem makes_dispatch {method : String} {params : Json} {handler : Handler RpcFailure Json}
    (h : dispatch serde backend method params = some handler) :
    Makes handler
      (if method = "tools/call" then (ToolCall.ofValue params).bind (toolHears serde)
      else none) := by
  unfold dispatch at h
  split at h
  · next hmethod =>
      cases h
      rw [if_neg (by rw [hmethod]; decide)]
      exact makes_fromExcept (known_initializeSession params)
  · split at h
    · next hmethod =>
        cases h
        rw [if_neg (by rw [hmethod]; decide)]
        exact makes_pure _
    · split at h
      · next hmethod =>
          cases h
          rw [if_neg (by rw [hmethod]; decide)]
          exact makes_pure _
      · split at h
        · next hmethod =>
            cases h
            rw [if_pos hmethod]
            exact makes_callTool params
        · next hcall =>
            rw [if_neg hcall]
            split at h
            · cases h
              exact makes_pure _
            · split at h
              · cases h
                exact makes_fromExcept (known_readResource params)
              · cases h

variable {body : List UInt8} {request : JsonRpcRequest}

theorem received_of {value : Json} (hvalue : serde.fromSlice body = some value) :
    received serde body = JsonRpcRequest.ofValue value := by
  rw [received, hvalue, Option.bind_some]

theorem hears_of (h : received serde body = some request) : hears serde body =
    if request.jsonrpc = "2.0" ∧ request.id ≠ none ∧ request.method = "tools/call" then
      (ToolCall.ofValue request.params).bind (toolHears serde)
    else none := by
  rw [hears, h, Option.bind_some]

theorem not_notification {r : JsonRpcResponse} (h : ¬ Notification serde body) :
    (∀ r', Answer.response r ≠ .response r') ↔ Notification serde body :=
  ⟨fun hnone => absurd rfl (hnone r), fun hnotification => absurd hnotification h⟩

theorem handled_error {id : Option Json} (calls : List BatchCall)
    (hhears : hears serde body = none) (hnotification : ¬ Notification serde body)
    (hid : id = (received serde body).bind (·.id)) (h : failure ∈ failures) :
    Handled serde body calls (rpcError id failure, calls) := by
  refine ⟨?_, not_notification hnotification, ?_, ?_, ?_, ?_⟩
  · rw [hhears]
    exact (List.append_nil calls).symm
  · rintro r ⟨⟩
    rfl
  · rintro r ⟨⟩
    rw [← hid]
  · rintro r ⟨⟩
    simp
  · rintro r failure' ⟨⟩ ⟨⟩
    exact h

theorem hears_unreadable (h : received serde body = none) :
    hears serde body = none ∧ ¬ Notification serde body := by
  refine ⟨by rw [hears, h, Option.bind_none], ?_⟩
  rintro ⟨request, hrequest, -⟩
  rw [h] at hrequest
  cases hrequest

theorem notification_iff (h : received serde body = some request) :
    Notification serde body ↔ request.jsonrpc = "2.0" ∧ request.id = none := by
  constructor
  · rintro ⟨request', hrequest', hrest⟩
    rw [h] at hrequest'
    cases hrequest'
    exact hrest
  · exact fun hrest => ⟨request, h, hrest⟩

/-- A request that reaches a method. -/
theorem handled_run {handler : Handler RpcFailure Json} {heard : Option BatchCall}
    (calls : List BatchCall) (hmakes : Makes handler heard) (hhears : hears serde body = heard)
    (hnotification : ¬ Notification serde body)
    (hid : request.id = (received serde body).bind (·.id)) :
    Handled serde body calls (match handler.run calls with
      | .ok result calls => (rpcResult request.id result, calls)
      | .error failure calls => (rpcError request.id failure, calls)) := by
  have hrun := hmakes calls
  cases hresult : handler.run calls with
  | ok result after =>
      rw [hresult] at hrun
      refine ⟨?_, not_notification hnotification, ?_, ?_, ?_, ?_⟩
      · rw [hhears]
        exact hrun
      · rintro r ⟨⟩
        rfl
      · rintro r ⟨⟩
        rw [← hid]
      · rintro r ⟨⟩
        simp
      · rintro r failure ⟨⟩ hfailure
        cases hfailure
  | error failure after =>
      rw [hresult] at hrun
      refine ⟨?_, not_notification hnotification, ?_, ?_, ?_, ?_⟩
      · rw [hhears]
        exact hrun.1
      · rintro r ⟨⟩
        rfl
      · rintro r ⟨⟩
        rw [← hid]
      · rintro r ⟨⟩
        simp
      · rintro r failure' ⟨⟩ ⟨⟩
        exact hrun.2

/-- Every message is handled so, whatever the backend has heard before. -/
theorem messages_are_handled (serde : Serde) (backend : BatchBackend) (body : List UInt8)
    (calls : List BatchCall) : Handled serde body calls (handle serde backend body calls) := by
  unfold handle
  cases hvalue : serde.fromSlice body with
  | none =>
      have hreceived : received serde body = none := by rw [received, hvalue, Option.bind_none]
      obtain ⟨hhears, hnotification⟩ := hears_unreadable hreceived
      exact handled_error calls hhears hnotification
        (by rw [hreceived, Option.bind_none]) (by decide)
  | some value =>
      have hreceived := received_of hvalue
      cases hrequest : JsonRpcRequest.ofValue value with
      | none =>
          rw [hrequest] at hreceived
          obtain ⟨hhears, hnotification⟩ := hears_unreadable hreceived
          simp only [hrequest]
          exact handled_error calls hhears hnotification
            (by rw [hreceived, Option.bind_none]) (by decide)
      | some request =>
          rw [hrequest] at hreceived
          have hid : request.id = (received serde body).bind (·.id) := by
            rw [hreceived, Option.bind_some]
          have hhears := hears_of hreceived
          have hiff := notification_iff hreceived
          simp only [hrequest]
          split
          · next hversion =>
              rw [if_neg fun h => hversion h.1] at hhears
              exact handled_error calls hhears (fun h => hversion (hiff.mp h).1) hid (by decide)
          · next hversion =>
              rw [ne_eq, not_not] at hversion
              split
              · next hnone =>
                  have hnotification := hiff.mpr ⟨hversion, hnone⟩
                  rw [if_neg fun h => h.2.1 hnone] at hhears
                  have hsilent (r : JsonRpcResponse) : (Answer.accepted, calls).1 ≠ .response r :=
                    nofun
                  refine ⟨?_, ⟨fun _ => hnotification, fun _ => hsilent⟩,
                    fun r h => absurd h (hsilent r),
                    fun r h => absurd h (hsilent r), fun r h => absurd h (hsilent r),
                      fun r _ h => absurd h (hsilent r)⟩
                  rw [hhears]
                  exact (List.append_nil calls).symm
              · next hsome =>
                  have hnotification : ¬ Notification serde body := fun h => hsome (hiff.mp h).2
                  split
                  · next hdispatch =>
                      refine handled_error calls ?_ hnotification hid (by decide)
                      rw [hhears, if_neg]
                      rintro ⟨-, -, hmethod⟩
                      rw [hmethod] at hdispatch
                      cases hdispatch
                  · next handler hdispatch =>
                      refine handled_run calls (makes_dispatch hdispatch) ?_ hnotification hid
                      rw [hhears]
                      simp [hversion, hsome]

end ImpossibleVoice.Server.Mcp
