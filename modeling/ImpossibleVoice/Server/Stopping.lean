import ImpossibleVoice.Server.Cancellation

namespace ImpossibleVoice.Server.Stopping

open Lib

def Cancel.Honest (token : CancellationToken) : Cancel → Prop
  | swapping => True
  | notifying | returned _ => token.cancelled = true

def Cancelled.Honest (token : CancellationToken) : Cancelled → Prop
  | entering => True
  | created seen => token.cancelled = false → seen = 0
  | pending seen => seen = 0
  | returned => token.cancelled = true

def Passed (s : Shared) (deadline : Option Nat) : Prop := ∃ time ∈ deadline, time ≤ s.now

def Stopped.Honest (s : Shared) (token : Nat) (deadline : Option Nat) : Stopped → Prop
  | waiting at' => at'.Honest (s.token token)
  | elapsed | returned .deadlineExceeded => Passed s deadline
  | returned .cancelled => (s.token token).cancelled = true

def Bridge.Honest (s : Shared) (server request : Nat) : Bridge → Prop
  | selecting ofServer ofRequest =>
      ofServer.Honest (s.token server) ∧ ofRequest.Honest (s.token request)
  | cancelling at' => at'.Honest (s.token request)
  | ended => (s.token request).cancelled = true

def Task.Honest (s : Shared) : Task → Prop
  | idle => True
  | cancel token at' => at'.Honest (s.token token)
  | cancelled token at' => at'.Honest (s.token token)
  | stopped token deadline at' => at'.Honest s token deadline
  | bridge server request at' => at'.Honest s server request

def CancellationToken.Quiet (token : CancellationToken) : Prop :=
  token.cancelled = false → token.notified = 0

def Later (s t : Shared) : Prop :=
  (∀ i, (s.token i).cancelled = true → (t.token i).cancelled = true) ∧ s.now ≤ t.now

variable {s t : Shared} {token raised : CancellationToken}

theorem Later.refl (s : Shared) : Later s s := ⟨fun _ h => h, Nat.le_refl _⟩

theorem later_setToken {i : Nat} (h : (s.token i).cancelled = true → raised.cancelled = true) :
    Later s (s.setToken i raised) := by
  refine ⟨fun j hj => ?_, Nat.le_refl _⟩
  by_cases hji : j = i
  · subst hji
    simpa [Shared.setToken] using h hj
  · simpa [Shared.setToken, Function.update_of_ne hji] using hj

theorem Cancel.Honest.mono {at' : Cancel}
    (hlater : token.cancelled = true → raised.cancelled = true) (h : at'.Honest token) :
    at'.Honest raised := by
  cases at' with
  | swapping => trivial
  | notifying => exact hlater h
  | returned => exact hlater h

theorem Cancelled.Honest.mono {at' : Cancelled}
    (hlater : token.cancelled = true → raised.cancelled = true) (h : at'.Honest token) :
    at'.Honest raised := by
  cases at' with
  | entering => trivial
  | created seen =>
      intro hraised
      refine h ?_
      by_contra htoken
      rw [hlater (by simpa using htoken)] at hraised
      cases hraised
  | pending => exact h
  | returned => exact hlater h

theorem Passed.mono {deadline : Option Nat} (hlater : Later s t) (h : Passed s deadline) :
    Passed t deadline := by
  obtain ⟨time, hmem, hle⟩ := h
  exact ⟨time, hmem, Nat.le_trans hle hlater.2⟩

theorem Task.Honest.mono {task : Task} (hlater : Later s t) (h : task.Honest s) :
    task.Honest t := by
  cases task with
  | idle => trivial
  | cancel i at' => exact Cancel.Honest.mono (hlater.1 i) h
  | cancelled i at' => exact Cancelled.Honest.mono (hlater.1 i) h
  | stopped i deadline at' =>
      cases at' with
      | waiting at' => exact Cancelled.Honest.mono (hlater.1 i) h
      | elapsed => exact Passed.mono hlater h
      | returned stop =>
          cases stop with
          | cancelled => exact hlater.1 i h
          | deadlineExceeded => exact Passed.mono hlater h
  | bridge server request at' =>
      cases at' with
      | selecting => exact ⟨h.1.mono (hlater.1 server), h.2.mono (hlater.1 request)⟩
      | cancelling => exact Cancel.Honest.mono (hlater.1 request) h
      | ended => exact hlater.1 request h

theorem cancel_later {at' next : Cancel} (h : token.cancel at' = some (raised, next))
    (hcancelled : token.cancelled = true) : raised.cancelled = true := by
  cases at' with
  | swapping =>
      rw [CancellationToken.cancel, if_pos hcancelled] at h
      cases h
      exact hcancelled
  | notifying =>
      cases h
      exact hcancelled
  | returned => cases h

theorem cancel_honest {at' next : Cancel} (hquiet : token.Quiet) (hhonest : at'.Honest token)
    (h : token.cancel at' = some (raised, next)) :
    raised.Quiet ∧ next.Honest raised := by
  cases at' with
  | swapping =>
      simp only [CancellationToken.cancel] at h
      split at h
      · next hcancelled =>
          cases h
          exact ⟨hquiet, hcancelled⟩
      · cases h
        exact ⟨nofun, rfl⟩
  | notifying =>
      have hcancelled : token.cancelled = true := hhonest
      cases h
      refine ⟨fun hlive => ?_, hhonest⟩
      rw [hcancelled] at hlive
      cases hlive
  | returned => cases h

theorem poll_honest {at' next : Cancelled} (hquiet : token.Quiet) (hhonest : at'.Honest token)
    (h : token.poll at' = some next) : next.Honest token := by
  cases at' with
  | entering =>
      cases h
      exact hquiet
  | created seen =>
      simp only [CancellationToken.poll] at h
      split at h
      · next hcancelled =>
          cases h
          exact hcancelled
      · next hlive =>
          cases h
          exact hhonest (by simpa using hlive)
  | pending seen =>
      simp only [CancellationToken.poll] at h
      split at h
      · cases h
      · cases h
        trivial
  | returned => cases h

theorem poll_eq_none {at' : Cancelled} (hhonest : at'.Honest token)
    (hwoken : token.notified = token.cancelled.toNat) (h : token.poll at' = none) :
    at' = .returned ∧ token.cancelled = true ∨
    (∃ seen, at' = .pending seen) ∧ token.cancelled = false := by
  cases at' with
  | entering => cases h
  | created seen =>
      simp only [CancellationToken.poll] at h
      split at h <;> cases h
  | pending seen =>
      have hseen : seen = 0 := hhonest
      simp only [CancellationToken.poll] at h
      split at h
      · next hsame =>
          refine Or.inr ⟨⟨seen, rfl⟩, ?_⟩
          rw [hseen, hwoken] at hsame
          simpa using hsame
      · cases h
  | returned => exact Or.inl ⟨rfl, hhonest⟩

def Quiet (s : Shared) : Prop := ∀ i, (s.token i).Quiet

theorem quiet_setToken {i : Nat} (hs : Quiet s) (h : raised.Quiet) :
    Quiet (s.setToken i raised) := by
  intro j
  by_cases hji : j = i
  · subst hji
    simpa [Shared.setToken] using h
  · simpa [Shared.setToken, Function.update_of_ne hji] using hs j

@[simp] theorem token_setToken (s : Shared) (i : Nat) (token : CancellationToken) :
    (s.setToken i token).token i = token := by
  simp [Shared.setToken]

inductive Step (event : Event) (s : Shared) : Task → Shared → Task → Prop
  | start (task : Task) (h : started event = some task) : Step event s .idle s task
  | dropCancelled (token : Nat) (at' : Cancelled) : Step event s (.cancelled token at') s .idle
  | dropStopped (token : Nat) (deadline : Option Nat) (at' : Stopped) :
      Step event s (.stopped token deadline at') s .idle
  | cancel (token : Nat) (at' next : Cancel) (raised : CancellationToken)
      (h : (s.token token).cancel at' = some (raised, next)) :
      Step event s (.cancel token at') (s.setToken token raised) (.cancel token next)
  | poll (token : Nat) (at' next : Cancelled) (h : (s.token token).poll at' = some next) :
      Step event s (.cancelled token at') s (.cancelled token next)
  | wait (token : Nat) (deadline : Option Nat) (at' next : Cancelled)
      (h : (s.token token).poll at' = some next) :
      Step event s (.stopped token deadline (.waiting at')) s
        (.stopped token deadline (.waiting next))
  | stop (token : Nat) (deadline : Option Nat) :
      Step event s (.stopped token deadline (.waiting .returned)) s
        (.stopped token deadline (.returned .cancelled))
  | elapse (token : Nat) (deadline : Option Nat) (seen : Nat) (h : Passed s deadline) :
      Step event s (.stopped token deadline (.waiting (.pending seen))) s
        (.stopped token deadline .elapsed)
  | look (token : Nat) (deadline : Option Nat) : Step event s (.stopped token deadline .elapsed) s
      (.stopped token deadline
        (.returned (if (s.token token).cancelled = true then .cancelled else .deadlineExceeded)))
  | pollServer (server request : Nat) (at' next other : Cancelled)
      (h : (s.token server).poll at' = some next) :
      Step event s (.bridge server request (.selecting at' other)) s
        (.bridge server request (.selecting next other))
  | pollRequest (server request : Nat) (at' next other : Cancelled)
      (h : (s.token request).poll at' = some next) :
      Step event s (.bridge server request (.selecting other at')) s
        (.bridge server request (.selecting other next))
  | serverStops (server request : Nat) (other : Cancelled) :
      Step event s (.bridge server request (.selecting .returned other)) s
        (.bridge server request (.cancelling .swapping))
  | requestStops (server request : Nat) (other : Cancelled) :
      Step event s (.bridge server request (.selecting other .returned)) s
        (.bridge server request .ended)
  | cancelRequest (server request : Nat) (at' next : Cancel) (raised : CancellationToken)
      (h : (s.token request).cancel at' = some (raised, next)) :
      Step event s (.bridge server request (.cancelling at')) (s.setToken request raised)
        (.bridge server request (.cancelling next))

theorem step_of_advance {event : Event} {task next : Task} {left : List Task}
    (h : advance event s task = some (t, next, left)) : left = [] ∧ Step event s task t next := by
  cases task with
  | idle =>
      obtain ⟨task, hstarted, hout⟩ := Option.map_eq_some_iff.mp h
      cases hout
      exact ⟨rfl, .start _ hstarted⟩
  | cancel token at' =>
      cases event with
      | proceed =>
          obtain ⟨⟨raised, next⟩, hcancel, hout⟩ := Option.map_eq_some_iff.mp h
          cases hout
          exact ⟨rfl, .cancel token at' next raised hcancel⟩
      | _ => cases h
  | cancelled token at' =>
      cases event with
      | proceed =>
          obtain ⟨next, hpoll, hout⟩ := Option.map_eq_some_iff.mp h
          cases hout
          exact ⟨rfl, .poll token at' next hpoll⟩
      | drop =>
          cases h
          exact ⟨rfl, .dropCancelled token at'⟩
      | _ => cases h
  | stopped token deadline at' =>
      cases event with
      | drop =>
          cases h
          exact ⟨rfl, .dropStopped token deadline at'⟩
      | proceed =>
          obtain ⟨next, hstopped, hout⟩ := Option.map_eq_some_iff.mp h
          cases hout
          refine ⟨rfl, ?_⟩
          cases at' with
          | waiting at' =>
              simp only [Shared.stopped] at hstopped
              split at hstopped
              · next hreturned =>
                  cases hstopped
                  subst hreturned
                  exact .stop token deadline
              · obtain ⟨next, hpoll, rfl⟩ := Option.map_eq_some_iff.mp hstopped
                exact .wait token deadline at' next hpoll
          | elapsed =>
              cases hstopped
              exact .look token deadline
          | returned => cases hstopped
      | elapse =>
          obtain ⟨next, hstopped, hout⟩ := Option.map_eq_some_iff.mp h
          cases hout
          refine ⟨rfl, ?_⟩
          cases at' with
          | waiting at' =>
              simp only [Shared.stopped] at hstopped
              split at hstopped
              · split at hstopped
                · next hle =>
                    cases hstopped
                    exact .elapse token _ _ ⟨_, rfl, hle⟩
                · cases hstopped
              · cases hstopped
          | elapsed => cases hstopped
          | returned => cases hstopped
      | _ => cases at' <;> cases h
  | bridge server request at' =>
      obtain ⟨⟨shared, next⟩, hbridge, hout⟩ := Option.map_eq_some_iff.mp h
      cases hout
      refine ⟨rfl, ?_⟩
      cases at' with
      | selecting ofServer ofRequest =>
          cases event with
          | proceed =>
              simp only [Shared.bridge] at hbridge
              split at hbridge
              · next hreturned =>
                  cases hbridge
                  subst hreturned
                  exact .serverStops server request ofRequest
              · obtain ⟨next, hpoll, hout⟩ := Option.map_eq_some_iff.mp hbridge
                cases hout
                exact .pollServer server request ofServer next ofRequest hpoll
          | proceedRequest =>
              simp only [Shared.bridge] at hbridge
              split at hbridge
              · next hreturned =>
                  cases hbridge
                  subst hreturned
                  exact .requestStops server request ofServer
              · obtain ⟨next, hpoll, hout⟩ := Option.map_eq_some_iff.mp hbridge
                cases hout
                exact .pollRequest server request ofRequest next ofServer hpoll
          | _ => cases hbridge
      | cancelling at' =>
          cases event with
          | proceed =>
              obtain ⟨⟨raised, next⟩, hcancel, hout⟩ := Option.map_eq_some_iff.mp hbridge
              cases hout
              exact .cancelRequest server request at' next raised hcancel
          | _ => cases hbridge
      | ended => cases hbridge

theorem honest_started {event : Event} {task : Task} (h : started event = some task) :
    task.Honest s := by
  cases event <;> cases h
  · trivial
  · trivial
  · trivial
  · exact ⟨trivial, trivial⟩

theorem Step.honest {event : Event} {task next : Task} (h : Step event s task t next)
    (hs : Quiet s) (htask : task.Honest s) : Quiet t ∧ next.Honest t := by
  cases h with
  | start task hstarted => exact ⟨hs, honest_started hstarted⟩
  | dropCancelled => exact ⟨hs, trivial⟩
  | dropStopped => exact ⟨hs, trivial⟩
  | cancel i at' next raised hcancel =>
      obtain ⟨hquiet, hnext⟩ := cancel_honest (hs i) htask hcancel
      refine ⟨quiet_setToken hs hquiet, ?_⟩
      simpa [Task.Honest] using hnext
  | poll i at' next hpoll => exact ⟨hs, poll_honest (hs i) htask hpoll⟩
  | wait i deadline at' next hpoll => exact ⟨hs, poll_honest (hs i) htask hpoll⟩
  | stop => exact ⟨hs, htask⟩
  | elapse i deadline seen hpassed => exact ⟨hs, hpassed⟩
  | look i deadline =>
      refine ⟨hs, ?_⟩
      by_cases hcancelled : (s.token i).cancelled = true
      · rw [if_pos hcancelled]
        exact hcancelled
      · rw [if_neg hcancelled]
        exact htask
  | pollServer server request at' next other hpoll =>
      exact ⟨hs, poll_honest (hs server) htask.1 hpoll, htask.2⟩
  | pollRequest server request at' next other hpoll =>
      exact ⟨hs, htask.1, poll_honest (hs request) htask.2 hpoll⟩
  | serverStops => exact ⟨hs, trivial⟩
  | requestStops => exact ⟨hs, htask.2⟩
  | cancelRequest server request at' next raised hcancel =>
      obtain ⟨hquiet, hnext⟩ := cancel_honest (hs request) htask hcancel
      refine ⟨quiet_setToken hs hquiet, ?_⟩
      simpa [Task.Honest, Bridge.Honest] using hnext

theorem Step.later {event : Event} {task next : Task} (h : Step event s task t next) :
    Later s t := by
  cases h with
  | cancel i at' next raised hcancel => exact later_setToken (cancel_later hcancel)
  | cancelRequest server request at' next raised hcancel =>
      exact later_setToken (cancel_later hcancel)
  | _ => exact .refl s

theorem steady : Steady tasks Quiet Task.Honest where
  fresh _ := trivial
  environment _ s t hs h := by
    obtain rfl := Option.some.inj h
    have hlater : Later s { s with now := s.now + 1 } := ⟨fun _ h => h, Nat.le_succ _⟩
    exact ⟨hs, fun task htask => htask.mono hlater⟩
  advance event s p t q left hs hp h := by
    obtain ⟨rfl, hstep⟩ := step_of_advance h
    obtain ⟨hquiet, hhonest⟩ := hstep.honest hs hp
    exact ⟨hquiet, hhonest, nofun, fun other hother => hother.mono hstep.later⟩

def Cancel.notifies : Cancel → Nat
  | notifying => 1
  | _ => 0

/-- The call that changes the state; it has returned, or is about to, with `true`. -/
def Cancel.changes : Cancel → Nat
  | notifying | returned true => 1
  | _ => 0

def Task.calls (count : Cancel → Nat) (token : Nat) : Task → Nat
  | cancel other at' => if other = token then count at' else 0
  | bridge _ request (.cancelling at') => if request = token then count at' else 0
  | _ => 0

theorem calls_started {count : Cancel → Nat} (hcount : count .swapping = 0) {event : Event}
    {task : Task} (h : started event = some task) (i : Nat) : task.calls count i = 0 := by
  cases event <;> cases h <;> simp [Task.calls, hcount]

theorem Step.balance {count : Cancel → Nat} {stock : CancellationToken → Nat}
    (hcount : count .swapping = 0)
    (hcancel : ∀ token raised at' next, CancellationToken.cancel token at' = some (raised, next) →
      stock raised + count next + token.cancelled.toNat =
      stock token + count at' + raised.cancelled.toNat)
    {event : Event} {task next : Task} (h : Step event s task t next) (i : Nat) :
    stock (t.token i) + next.calls count i + (s.token i).cancelled.toNat =
      stock (s.token i) + task.calls count i + (t.token i).cancelled.toNat := by
  have hset (j : Nat) (at' next : Cancel) (raised : CancellationToken)
      (h : (s.token j).cancel at' = some (raised, next)) :
      stock ((s.setToken j raised).token i) + (if j = i then count next else 0) +
        (s.token i).cancelled.toNat =
        stock (s.token i) + (if j = i then count at' else 0) +
          ((s.setToken j raised).token i).cancelled.toNat := by
    by_cases hji : j = i
    · subst hji
      simpa using hcancel _ _ _ _ h
    · rw [if_neg hji, if_neg hji,
        show (s.setToken j raised).token i = s.token i from Function.update_of_ne (Ne.symm hji) _ _]
  cases h with
  | start task hstarted => rw [calls_started hcount hstarted]; rfl
  | cancel j at' next raised h => exact hset j at' next raised h
  | cancelRequest server request at' next raised h => exact hset request at' next raised h
  | serverStops => simp [Task.calls, hcount]
  | _ => rfl

theorem balanced {count : Cancel → Nat} {stock : CancellationToken → Nat}
    (hcount : count .swapping = 0)
    (hcancel : ∀ token raised at' next, CancellationToken.cancel token at' = some (raised, next) →
      stock raised + count next + token.cancelled.toNat =
      stock token + count at' + raised.cancelled.toNat)
    (i : Nat) :
    Balanced tasks (fun s => stock (s.token i)) (fun s => (s.token i).cancelled.toNat)
      (Task.calls count i) where
  fresh := rfl
  environment _ s t h := by
    cases h
    rfl
  advance event s p t q left h _ := by
    obtain ⟨rfl, hstep⟩ := step_of_advance h
    exact hstep.balance hcount hcancel i

theorem cancel_notifies (token raised : CancellationToken) (at' next : Cancel)
    (h : token.cancel at' = some (raised, next)) :
    raised.notified + next.notifies + token.cancelled.toNat =
      token.notified + at'.notifies + raised.cancelled.toNat := by
  cases at' with
  | swapping =>
      simp only [CancellationToken.cancel] at h
      split at h
      · cases h
        rfl
      · next hlive =>
          cases h
          have hfalse : token.cancelled = false := by simpa using hlive
          simp [Cancel.notifies, hfalse]
  | notifying =>
      cases h
      rfl
  | returned => cases h

theorem cancel_changes (token raised : CancellationToken) (at' next : Cancel)
    (h : token.cancel at' = some (raised, next)) :
    0 + next.changes + token.cancelled.toNat = 0 + at'.changes + raised.cancelled.toNat := by
  cases at' with
  | swapping =>
      simp only [CancellationToken.cancel] at h
      split at h
      · cases h
        rfl
      · next hlive =>
          cases h
          have hfalse : token.cancelled = false := by simpa using hlive
          simp [Cancel.changes, hfalse]
  | notifying =>
      cases h
      rfl
  | returned => cases h

def Task.Truthful (s : Shared) : Task → Prop
  | cancel token (.returned _) | cancelled token .returned | stopped token
    _ (.returned .cancelled) => (s.token token).cancelled = true
  | stopped _ deadline (.returned .deadlineExceeded) => Passed s deadline
  | _ => True

def Task.Settled (s : Shared) : Task → Prop
  | idle => True
  | cancel _ at' => ∃ changed, at' = .returned changed
  | cancelled token at' => at' = .returned ↔ (s.token token).cancelled = true
  | stopped token deadline at' =>
      (∃ stop, at' = .returned stop) ↔ (s.token token).cancelled = true ∨ Passed s deadline
  | bridge server request at' =>
    ((s.token server).cancelled = true → (s.token request).cancelled = true) ∧
      ((∃ ofServer ofRequest, at' = .selecting ofServer ofRequest) ↔
        (s.token request).cancelled = false)

theorem Task.Honest.truthful {task : Task} (h : task.Honest s) : task.Truthful s := by
  cases task with
  | idle => trivial
  | cancel token at' => cases at' <;> trivial
  | cancelled token at' => cases at' <;> trivial
  | stopped token deadline at' =>
      cases at' with
      | waiting => trivial
      | elapsed => trivial
      | returned stop => cases stop <;> exact h
  | bridge => trivial

theorem cancel_eq_none {at' : Cancel} (h : token.cancel at' = none) :
    ∃ changed, at' = .returned changed := by
  cases at' with
  | swapping =>
      simp only [CancellationToken.cancel] at h
      split at h <;> cases h
  | notifying => cases h
  | returned changed => exact ⟨changed, rfl⟩

theorem settled_of_still {task : Task} (hhonest : task.Honest s)
    (hwoken : ∀ i, (s.token i).notified = (s.token i).cancelled.toNat)
    (hproceed : advance .proceed s task = none) (hrequest : advance .proceedRequest s task = none)
    (helapse : advance .elapse s task = none) : task.Settled s := by
  cases task with
  | idle => trivial
  | cancel token at' => exact cancel_eq_none (Option.map_eq_none_iff.mp hproceed)
  | cancelled token at' =>
      rcases poll_eq_none hhonest (hwoken token)
        (Option.map_eq_none_iff.mp hproceed) with ⟨rfl, hcancelled⟩ | ⟨⟨seen, rfl⟩, hlive⟩
      · exact iff_of_true rfl hcancelled
      · exact iff_of_false nofun (by simp [hlive])
  | stopped token deadline at' =>
      have hproceed := Option.map_eq_none_iff.mp hproceed
      have helapse := Option.map_eq_none_iff.mp helapse
      cases at' with
      | waiting at' =>
          simp only [Shared.stopped] at hproceed helapse
          split at hproceed
          · cases hproceed
          · next hreturned =>
              rcases poll_eq_none hhonest (hwoken token)
                (Option.map_eq_none_iff.mp hproceed) with ⟨rfl, -⟩ | ⟨⟨seen, rfl⟩, hlive⟩
              · exact absurd rfl hreturned
              · refine iff_of_false (fun h => by cases h with | intro _ h => cases h) ?_
                rintro (hcancelled | ⟨time, htime, hle⟩)
                · rw [hlive] at hcancelled
                  cases hcancelled
                · cases htime
                  simp [hle] at helapse
      | elapsed => cases hproceed
      | returned stop =>
          refine iff_of_true ⟨stop, rfl⟩ ?_
          cases stop with
          | cancelled => exact Or.inl hhonest
          | deadlineExceeded => exact Or.inr hhonest
  | bridge server request at' =>
      have hproceed := Option.map_eq_none_iff.mp hproceed
      have hrequest := Option.map_eq_none_iff.mp hrequest
      cases at' with
      | selecting ofServer ofRequest =>
          simp only [Shared.bridge] at hproceed hrequest
          split at hproceed
          · cases hproceed
          · next hserver =>
              split at hrequest
              · cases hrequest
              · next hother =>
                  rcases poll_eq_none hhonest.1 (hwoken server)
                    (Option.map_eq_none_iff.mp hproceed) with ⟨rfl, -⟩ | ⟨-, hserverLive⟩
                  · exact absurd rfl hserver
                  · rcases poll_eq_none hhonest.2 (hwoken request)
                      (Option.map_eq_none_iff.mp hrequest) with ⟨rfl, -⟩ | ⟨-, hlive⟩
                    · exact absurd rfl hother
                    · refine ⟨fun h => ?_, iff_of_true ⟨_, _, rfl⟩ hlive⟩
                      rw [hserverLive] at h
                      cases h
      | cancelling at' =>
          obtain ⟨changed, rfl⟩ := cancel_eq_none (Option.map_eq_none_iff.mp hproceed)
          have hcancelled : (s.token request).cancelled = true := hhonest
          exact ⟨fun _ => hcancelled, iff_of_false (by simp) (by simp [hcancelled])⟩
      | ended =>
          have hcancelled : (s.token request).cancelled = true := hhonest
          exact ⟨fun _ => hcancelled, iff_of_false (by simp) (by simp [hcancelled])⟩

theorem notifies_of_still {task : Task} (h : advance .proceed s task = none) (i : Nat) :
    task.calls Cancel.notifies i = 0 := by
  cases task with
  | cancel token at' =>
      obtain ⟨changed, rfl⟩ := cancel_eq_none (Option.map_eq_none_iff.mp h)
      exact ite_self 0
  | bridge server request at' =>
      cases at' with
      | cancelling at' =>
          have hbridge := Option.map_eq_none_iff.mp h
          obtain ⟨changed, rfl⟩ := cancel_eq_none (Option.map_eq_none_iff.mp hbridge)
          exact ite_self 0
      | _ => rfl
  | _ => rfl

theorem stable (i : Nat) : Stable tasks (fun s => (s.token i).cancelled = true)
    (fun task => ∀ deadline, task ≠ .stopped i deadline (.returned .deadlineExceeded)) where
  fresh := nofun
  environment _ s t hs h := by
    cases h
    exact hs
  advance event s p t q left hs h := by
    obtain ⟨rfl, hstep⟩ := step_of_advance h
    refine ⟨hstep.later.1 i hs, fun _ deadline hq => ?_, nofun⟩
    cases hstep with
    | start task hstarted => cases event <;> cases hstarted <;> cases hq
    | look j other =>
        rw [Task.stopped.injEq] at hq
        obtain ⟨rfl, -, hq⟩ := hq
        rw [if_pos hs] at hq
        cases hq
    | _ => cases hq

/-- Whatever threads raise and wait for tokens: just one call of `cancel` changes
a raised token; what is returned is true; a `stopped` that has not returned when
its token is raised never reports the deadline; and once no task can go on by
itself, every waiter of a raised token has been told, and every request below a
raised server token is cancelled. -/
theorem cancellation_reaches_everyone (labels : List (Label Unit Event)) (s : System Shared Task)
    (h : Runs tasks.step start labels s) :
    (∀ i, total (Task.calls Cancel.changes i) s.processes = (s.shared.token i).cancelled.toNat) ∧
    (∀ task ∈ s.processes, task.Truthful s.shared) ∧
    (∀ (more : List (Label Unit Event)) (u : System Shared Task) (i p : Nat),
      Runs tasks.step s more u → (s.shared.token i).cancelled = true →
      (∀ deadline, s.processes[p]? ≠ some (Task.stopped i deadline (.returned .deadlineExceeded))) →
      ∀ deadline, u.processes[p]? ≠ some (Task.stopped i deadline (.returned .deadlineExceeded))) ∧
    (Still s → ∀ task ∈ s.processes, task.Settled s.shared) := by
  have hsteady := steady.runs ⟨fun _ _ => rfl, fun _ htask => absurd htask List.not_mem_nil⟩ h
  refine ⟨fun i => ?_, fun task htask => (hsteady.2 task htask).truthful,
    fun more u i p hmore hraised hnot deadline hp => ?_,
    fun hstill task htask => ?_⟩
  · have hbalance := (@balanced Cancel.changes (fun _ => 0) rfl cancel_changes i).runs start rfl h
    rwa [Nat.zero_add] at hbalance
  · have hstable :=
      (stable i).runs hraised hmore fun task htask deadline heq =>
        hnot deadline (by rw [htask, heq])
    exact hstable.2 _ hp deadline rfl
  · have hnone (event : Event)
        (hevent : event ∈ [Event.proceed, .proceedRequest, .elapse]) (other : Task)
        (hother : other ∈ s.processes) : advance event s.shared other = none :=
      Option.isNone_iff_eq_none.mp (hstill event hevent other hother)
    refine settled_of_still (hsteady.2 task htask) (fun i => ?_) (hnone _ (by decide) task htask)
      (hnone _ (by decide) task htask)
      (hnone _ (by decide) task htask)
    have hbalance := (balanced rfl cancel_notifies i).runs start rfl h
    have hzero : total (Task.calls Cancel.notifies i) s.processes = 0 :=
      total_eq_zero fun other hother => notifies_of_still (hnone _ (by decide) other hother) i
    rwa [hzero, Nat.add_zero] at hbalance

/-- A call that waits below a server that stops: token 0 is the server's. -/
def stoppingServer : List (Label Unit Event) :=
  [.arrive, .arrive, .arrive, .process 0 (.context 0 1), .process 1 (.stopped 1 (some 5)),
    .process 0 .proceed,
    .process 0 .proceed, .process 0 .proceedRequest, .process 0 .proceedRequest,
      .process 1 .proceed, .process 1 .proceed,
    .process 2 (.cancel 0), .process 2 .proceed, .process 2 .proceed, .process 0 .proceed,
      .process 0 .proceed,
    .process 0 .proceed, .process 0 .proceed, .process 0 .proceed, .process 0 .proceed,
      .process 1 .proceed,
    .process 1 .proceed, .process 1 .proceed, .process 1 .proceed]

theorem a_stopping_server_stops_its_calls : ∃ s, Runs tasks.step start stoppingServer s ∧ Still s ∧
    ∀ task ∈ s.processes, task.Settled s.shared := by
  have hends : (run tasks.step start stoppingServer).any (fun s => decide (Still s)) = true := by
    decide +kernel
  obtain ⟨s, hrun, hstill⟩ := (Option.any_eq_true _ _).mp hends
  have hruns := runs_iff_run.mpr hrun
  obtain ⟨-, -, -, hsettled⟩ := cancellation_reaches_everyone _ _ hruns
  exact ⟨s, hruns, of_decide_eq_true hstill, hsettled (of_decide_eq_true hstill)⟩

end ImpossibleVoice.Server.Stopping
