import ImpossibleVoice.Server.Cleanup
import Mathlib.Logic.Relation

namespace ImpossibleVoice.Server.Cleanup

open Lib Relation

def Path.cleaning (path : Path) : Serve :=
  match path with
  | listener _ => .abandoned
  | signal _ _ => .cleaning path.httpForced

def Path.cleaned (completed : Bool) (path : Path) : Serve :=
  match path with
  | listener _ => .exited (if completed = true then none else some .workloadShutdown)
  | signal _ _ =>
      .returned (if path.httpForced = true then some .httpDrain
        else if completed = true then none else some .workloadShutdown)

def Host.serve : Host → Serve
  | selecting | ended _ | beginning _ => .serving
  | draining _ _ _ => .draining
  | closing _ drain _ | deciding _ (.signal drain _) => .drained drain
  | deciding _ (.listener _) => .abandoned
  | starting _ path | checking _ path | cleaning _ path _ => path.cleaning
  | finishing _ path completed | returned _ path completed => path.cleaned completed

def State.shared (limits : ServerLimits) (s : State) : Shared :=
  { Shared.new limits with gate := s.gate, stopped := s.stopped, serve := s.host.serve }

/-- What the host and the requests do to the gate of admission. -/
inductive Moves : Shared → Shared → Prop
  | serve {s t : Shared} (move : Move) (h : s.serveMove move = some t) : Moves s t
  | enter {s : Shared} {gate : Gate} (h : s.gate.tryEnter = some gate) : Moves s { s with gate }
  | leave (s : Shared) (h : s.gate.active ≠ 0) : Moves s { s with gate := s.gate.leave }

variable {limits : ServerLimits} {s t : State} {timeout : Nat} {label : Label}

theorem moves_cancelStop {s t : Shared} (h : Moves s t)
    (ht : ∃ outcome, t.gate.phase = .stopped outcome) :
    ReflTransGen Moves s { t with stopped := true } := by
  obtain ⟨outcome, hphase⟩ := ht
  apply (ReflTransGen.single h).tail
  apply Moves.serve .cancelStop
  rw [Shared.serveMove, hphase]

theorem moves_stopNow (serve : Serve) (move : Move)
    (h : (s.shared limits).serveMove move =
      some { s.shared limits with gate := s.gate.stopNow, serve }) :
    ReflTransGen Moves (s.shared limits) { s.stopNow.shared limits with serve } :=
  moves_cancelStop (.serve move h) (stopNow_stopped s.gate)

theorem moves_cleanUp {path : Path} (completed : Bool) (h : s.host.serve = path.cleaning) :
    Moves (s.shared limits) { s.shared limits with serve := path.cleaned completed } := by
  have hserve : (s.shared limits).serve = path.cleaning := h
  apply Moves.serve (.cleanUp completed)
  cases path with
  | listener failed => simp only [Shared.serveMove, hserve, Path.cleaning, Path.cleaned]
  | signal drain timedOut => simp only [Shared.serveMove, hserve, Path.cleaning, Path.cleaned]

/-- A step of the host is at most two moves of admission. -/
theorem advance_moves {ready : Bool} (h : s.advance timeout ready = some t) :
    ReflTransGen Moves (s.shared limits) (t.shared limits) := by
  rw [State.advance] at h
  cases hhost : s.host with
  | selecting | returned => simp only [hhost] at h; cases h
  | ended failed =>
      have hserve : (s.shared limits).serve = .serving := by rw [State.shared, hhost]; rfl
      simp only [hhost] at h
      cases h
      apply moves_stopNow .abandoned .serverEnds
      simp only [Shared.serveMove, hserve]
      rfl
  | beginning deadline =>
      have hserve : s.host.serve = .serving := by rw [hhost]; rfl
      simp only [hhost] at h
      split at h
      case h_1 drain hphase =>
        cases h
        apply moves_cancelStop
          (t := { s.shared limits with gate := s.gate.beginDrain, serve := .drained drain })
        · apply Moves.serve .signal
          simp only [Shared.serveMove, State.shared, hserve, hphase]
        · exact ⟨drain, hphase⟩
      case h_2 hphase =>
        cases h
        apply ReflTransGen.single
        apply Moves.serve .signal
        simp only [Shared.serveMove, State.shared, hserve]
        rfl
  | draining deadline gateDeadline wait =>
      have hserve : s.host.serve = .draining := by rw [hhost]; rfl
      simp only [hhost] at h
      split at h
      case h_1 hready =>
        cases h
        apply ReflTransGen.single
        apply Moves.serve .observeDrain
        simp only [Shared.serveMove, State.shared, hserve]
        exact if_pos (timeoutAt_ready hready).2
      case h_2 =>
        cases h
        apply moves_stopNow (.drained .forced) .drainTimesOut
        simp only [Shared.serveMove, State.shared, hserve]
      case h_3 =>
        cases h
        rw [State.shared, hserve]
        exact .refl
  | closing deadline drain wait =>
      simp only [hhost] at h
      have hsame : t.shared limits = s.shared limits := by
        split at h <;> cases h <;> simp [State.shared, State.look, Host.serve, hhost]
      rw [hsame]
  | deciding deadline path =>
      simp only [hhost] at h
      split at h
      case isTrue hforced =>
        cases h
        cases path with
        | listener => cases hforced
        | signal drain timedOut =>
            have hlate : drain = .forced ∨ timedOut = true := by
              simpa [Path.httpForced] using hforced
            have hmoves : ReflTransGen Moves (s.shared limits)
                { s.stopNow.shared limits with serve := .cleaning true } := by
              apply moves_stopNow (.cleaning true) (.serverCloses timedOut)
              simp only [Shared.serveMove, State.shared, Host.serve, hhost]
              exact if_pos hlate
            simpa only [State.shared, Host.serve, Path.cleaning, hforced] using hmoves
      case isFalse hforced =>
        cases h
        cases path with
        | listener =>
            simp only [State.shared, Host.serve, Path.cleaning, hhost]
            exact .refl
        | signal drain timedOut =>
            have hintime : ¬ (drain = .forced ∨ timedOut = true) := by
              simpa [Path.httpForced] using hforced
            apply ReflTransGen.single
            apply Moves.serve (.serverCloses timedOut)
            simp only [State.shared, Host.serve, Path.cleaning, hhost, Shared.serveMove]
            rw [if_neg hintime, Bool.not_eq_true _ |>.mp hforced]
  | starting deadline path =>
      have hserve : s.host.serve = path.cleaning := by rw [hhost]; rfl
      simp only [hhost] at h
      split at h
      case isTrue => cases h; exact .single (moves_cleanUp true hserve)
      case isFalse =>
        cases h
        rw [State.shared, hserve]
        exact .refl
  | checking deadline path =>
      have hserve : s.host.serve = path.cleaning := by rw [hhost]; rfl
      simp only [hhost] at h
      split at h
      case isTrue => cases h; exact .single (moves_cleanUp false hserve)
      case isFalse =>
        cases h
        rw [State.shared, hserve]
        exact .refl
  | cleaning deadline path wait =>
      have hserve : s.host.serve = path.cleaning := by rw [hhost]; rfl
      simp only [hhost] at h
      split at h
      case h_1 => cases h; exact .single (moves_cleanUp true hserve)
      case h_2 => cases h; exact .single (moves_cleanUp false hserve)
      case h_3 =>
        cases h
        rw [State.shared, hserve]
        exact .refl
  | finishing deadline path completed =>
      simp only [hhost] at h
      cases h
      rw [State.shared, hhost]
      exact .refl

theorem step_moves (hs : Invariant s) (hstep : step timeout label s = some t) :
    ReflTransGen Moves (s.shared limits) (t.shared limits) := by
  cases label with
  | tick | signal => cases hstep; exact .refl
  | listenerEnds failed =>
      simp only [step] at hstep
      split at hstep
      · cases hstep; exact .refl
      · cases hstep
  | enter =>
      obtain ⟨gate, hgate, rfl⟩ := Option.map_eq_some_iff.mp hstep
      exact .single (.enter hgate)
  | leave =>
      simp only [step] at hstep
      split at hstep
      case isTrue => cases hstep
      case isFalse hactive => cases hstep; exact .single (.leave _ hactive)
  | cancelStop =>
      simp only [step] at hstep
      split at hstep
      case isTrue hpublishing =>
        cases hstep
        obtain ⟨outcome, hphase⟩ := hs.sound (.inr hpublishing)
        apply ReflTransGen.single
        apply Moves.serve .cancelStop
        simp only [Shared.serveMove, State.shared, hphase]
      case isFalse => cases hstep
  | takeListener | takeSignal =>
      simp only [step] at hstep
      split at hstep
      case h_1 hhost _ =>
        cases hstep
        rw [State.shared, hhost]
        exact .refl
      case h_2 => cases hstep
  | host ready => exact advance_moves hstep

/-- Every run of `serve` is, without its clock and locals, a run of the moves
that admission has for it. -/
theorem serve_refines_admission {now : Nat} {labels : List Label}
    (h : Runs (step timeout) (.start now) labels s) :
    ReflTransGen Moves (.new limits) (s.shared limits) := by
  induction h with
  | nil => exact .refl
  | snoc hbefore hstep ih => exact ih.trans (step_moves (runs_invariant hbefore) hstep)

theorem served_ok_iff (deadline : Nat) (drain : DrainOutcome) (timedOut completed : Bool) :
    (Path.signal drain timedOut).served completed = .ok ↔
      (Host.returned deadline (.signal drain timedOut) completed).serve = .returned none := by
  cases drain <;> cases timedOut <;> cases completed <;>
    simp [Path.served, Host.serve, Path.cleaned, Path.httpForced]

end ImpossibleVoice.Server.Cleanup
