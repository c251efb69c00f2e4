import Mathlib.Logic.Basic

namespace ImpossibleVoice.Lib

universe u

variable {ε ε' σ τ α β γ : Type}

def fromExcept (result : Except ε α) : EStateM ε σ α :=
  match result with
  | .ok a => pure a
  | .error e => throw e

@[simp] theorem run_fromExcept_ok (a : α) (s : σ) :
    (fromExcept (.ok a : Except ε α)).run s = .ok a s :=
  rfl

@[simp] theorem run_fromExcept_error (e : ε) (s : σ) :
    (fromExcept (.error e : Except ε α)).run s = .error e s := rfl

def gets (f : σ → α) : EStateM ε σ α := fun s => .ok (f s) s

@[simp] theorem run_gets (f : σ → α) (s : σ) : (gets f : EStateM ε σ α).run s = .ok (f s) s := rfl

def failIf (p : Prop) [Decidable p] (e : ε) : EStateM ε σ Unit := if p then throw e else pure ()

theorem run_failIf_pos {p : Prop} [Decidable p] (h : p) (e : ε) (s : σ) :
    (failIf p e).run s = .error e s := by
  rw [failIf, if_pos h]; rfl

theorem run_failIf_neg {p : Prop} [Decidable p] (h : ¬ p) (e : ε) (s : σ) :
    (failIf p e).run s = .ok () s := by
  rw [failIf, if_neg h]; rfl

theorem run_bind_of_ok {m : EStateM ε σ α} {f : α → EStateM ε σ β} {s t : σ} {a : α}
    (h : m.run s = .ok a t) : (m >>= f).run s = (f a).run t := by
  rw [EStateM.run_bind, h]

theorem run_bind_of_error {m : EStateM ε σ α} {f : α → EStateM ε σ β} {s t : σ} {e : ε}
    (h : m.run s = .error e t) : (m >>= f).run s = .error e t := by
  rw [EStateM.run_bind, h]

theorem run_bind_ok {m : EStateM ε σ α} {f : α → EStateM ε σ β} {s t : σ} {b : β}
    (h : (m >>= f).run s = .ok b t) : ∃ a s', m.run s = .ok a s' ∧ (f a).run s' = .ok b t := by
  rw [EStateM.run_bind] at h
  cases hm : m.run s with
  | ok a s' => rw [hm] at h; exact ⟨a, s', rfl, h⟩
  | error e s' => rw [hm] at h; exact absurd h (by simp)

theorem run_fromExcept_eq_ok {r : Except ε α} {s t : σ} {a : α}
    (h : (fromExcept r).run s = .ok a t) : r = .ok a ∧ s = t := by
  cases r with
  | ok b => cases h; exact ⟨rfl, rfl⟩
  | error e => exact absurd h (by simp)

theorem run_failIf_eq_ok {p : Prop} [Decidable p] {e : ε} {s t : σ} {u : Unit}
    (h : (failIf p e).run s = .ok u t) : ¬ p ∧ s = t := by
  by_cases hp : p
  · rw [run_failIf_pos hp] at h; exact absurd h (by simp)
  · rw [run_failIf_neg hp] at h; cases h; exact ⟨hp, rfl⟩

def zoom (read : σ → τ) (write : τ → σ → σ) (convert : ε → ε') (m : EStateM ε τ α) :
    EStateM ε' σ α :=
  fun s =>
  match m.run (read s) with
  | .ok a t => .ok a (write t s)
  | .error e t => .error (convert e) (write t s)

theorem run_zoom (read : σ → τ) (write : τ → σ → σ) (convert : ε → ε') (m : EStateM ε τ α) (s : σ) :
    (zoom read write convert m).run s =
      match m.run (read s) with
      | .ok a t => .ok a (write t s)
      | .error e t => .error (convert e) (write t s) := rfl

theorem run_zoom_of_ok {read : σ → τ} {write : τ → σ → σ} {convert : ε → ε'} {m : EStateM ε τ α}
    {s : σ} {a : α} {t : τ} (h : m.run (read s) = .ok a t) :
    (zoom read write convert m).run s = .ok a (write t s) := by
  rw [run_zoom, h]

theorem run_zoom_of_error {read : σ → τ} {write : τ → σ → σ} {convert : ε → ε'}
    {m : EStateM ε τ α} {s : σ} {e : ε} {t : τ} (h : m.run (read s) = .error e t) :
    (zoom read write convert m).run s = .error (convert e) (write t s) := by
  rw [run_zoom, h]

theorem run_zoom_eq_ok {read : σ → τ} {write : τ → σ → σ} {convert : ε → ε'} {m : EStateM ε τ α}
    {s s' : σ} {a : α} (h : (zoom read write convert m).run s = .ok a s') :
    ∃ t, m.run (read s) = .ok a t ∧ s' = write t s := by
  rw [run_zoom] at h
  cases hm : m.run (read s) with
  | ok b t => rw [hm] at h; cases h; exact ⟨t, rfl, rfl⟩
  | error e t => rw [hm] at h; cases h

/-- What dropping a guard does: `f` applies however the program ends. -/
def ending (f : σ → σ) (m : EStateM ε σ α) : EStateM ε σ α := fun s =>
  match m.run s with
  | .ok a t => .ok a (f t)
  | .error e t => .error e (f t)

/-- As `ending`, for a guard that the returned value keeps alive. -/
def endingOnError (f : σ → σ) (m : EStateM ε σ α) : EStateM ε σ α := fun s =>
  match m.run s with
  | .ok a t => .ok a t
  | .error e t => .error e (f t)

theorem run_ending (f : σ → σ) (m : EStateM ε σ α) (s : σ) :
    (ending f m).run s = match m.run s with
      | .ok a t => .ok a (f t)
      | .error e t => .error e (f t) := rfl

theorem run_endingOnError (f : σ → σ) (m : EStateM ε σ α) (s : σ) :
    (endingOnError f m).run s = match m.run s with
      | .ok a t => .ok a t
      | .error e t => .error e (f t) := rfl

theorem run_endingOnError_eq_ok {f : σ → σ} {m : EStateM ε σ α} {s t : σ} {a : α}
    (h : (endingOnError f m).run s = .ok a t) : m.run s = .ok a t := by
  rw [run_endingOnError] at h
  cases hm : m.run s with
  | ok b u => rw [hm] at h; exact h
  | error e u => rw [hm] at h; cases h

def collect (f : β → EStateM ε σ (List γ)) : List β → EStateM ε σ (List γ)
  | [] => pure []
  | x :: xs => do
      let head ← f x
      let tail ← collect f xs
      pure (head ++ tail)

theorem run_collect_cons (f : β → EStateM ε σ (List γ)) (x : β) (xs : List β) (s : σ) :
    (collect f (x :: xs)).run s =
      match (f x).run s with
      | .ok head t => match (collect f xs).run t with
        | .ok tail t' => .ok (head ++ tail) t'
        | .error e t' => .error e t'
      | .error e t => .error e t := by
  rw [collect, EStateM.run_bind]
  cases (f x).run s with
  | error => rfl
  | ok head t =>
      simp only [EStateM.run_bind]
      cases (collect f xs).run t <;> rfl

theorem run_collect_append (f : β → EStateM ε σ (List γ)) (xs ys : List β) (s : σ) :
    (collect f (xs ++ ys)).run s =
      match (collect f xs).run s with
      | .ok head t => match (collect f ys).run t with
        | .ok tail t' => .ok (head ++ tail) t'
        | .error e t' => .error e t'
      | .error e t => .error e t := by
  induction xs generalizing s with
  | nil =>
      simp only [List.nil_append, collect, EStateM.run_pure]
      cases (collect f ys).run s <;> rfl
  | cons x xs ih =>
      rw [List.cons_append, run_collect_cons, run_collect_cons]
      cases (f x).run s with
      | error => rfl
      | ok head t =>
          simp only [ih]
          cases (collect f xs).run t with
          | error => rfl
          | ok tail t' =>
              simp only
              cases (collect f ys).run t' <;> simp

theorem run_collect_singleton (f : β → EStateM ε σ (List γ)) (x : β) (s : σ) :
    (collect f [x]).run s = (f x).run s := by
  rw [run_collect_cons]
  cases (f x).run s with
  | ok head t => simp only [collect, EStateM.run_pure, List.append_nil]
  | error => rfl

theorem run_collect_append_ok {f : β → EStateM ε σ (List γ)} {xs ys : List β} {s t u : σ}
    {us vs : List γ} (hx : (collect f xs).run s = .ok us t) (hy : (collect f ys).run t = .ok vs u) :
    (collect f (xs ++ ys)).run s = .ok (us ++ vs) u := by
  rw [run_collect_append, hx]
  simp only [hy]

theorem run_collect_append_eq_ok {f : β → EStateM ε σ (List γ)} {xs ys : List β} {s u : σ}
    {zs : List γ} (h : (collect f (xs ++ ys)).run s = .ok zs u) :
    ∃ us t vs, (collect f xs).run s = .ok us t ∧ (collect f ys).run t = .ok vs u ∧
    zs = us ++ vs := by
  rw [run_collect_append] at h
  cases hx : (collect f xs).run s with
  | error e t => rw [hx] at h; cases h
  | ok us t =>
      rw [hx] at h
      simp only at h
      cases hy : (collect f ys).run t with
      | error e v => rw [hy] at h; cases h
      | ok vs v =>
          rw [hy] at h
          cases h
          exact ⟨us, t, vs, rfl, hy, rfl⟩

def Simulates (R : σ → τ → Prop) (m : EStateM ε σ α) (n : EStateM ε' τ α) : Prop :=
  ∀ s t, R s t → ∀ a s', m.run s = .ok a s' → ∃ t', n.run t = .ok a t' ∧ R s' t'

variable {R : σ → τ → Prop}

theorem Simulates.pure (a : α) :
    Simulates R (Pure.pure a : EStateM ε σ α) (Pure.pure a : EStateM ε' τ α) := by
  intro s t h b s' hm
  cases hm
  exact ⟨t, rfl, h⟩

theorem Simulates.bind {m : EStateM ε σ α} {n : EStateM ε' τ α} {f : α → EStateM ε σ β}
    {g : α → EStateM ε' τ β} (h : Simulates R m n) (hf : ∀ a, Simulates R (f a) (g a)) :
    Simulates R (m >>= f) (n >>= g) := by
  intro s t hst b s' hm
  obtain ⟨a, u, hm, hrest⟩ := run_bind_ok hm
  obtain ⟨v, hn, huv⟩ := h s t hst a u hm
  obtain ⟨t', hrest', hst'⟩ := hf a u v huv b s' hrest
  exact ⟨t', by rw [run_bind_of_ok hn, hrest'], hst'⟩

theorem Simulates.gets {f : σ → α} {g : τ → α} (h : ∀ s t, R s t → f s = g t) :
    Simulates R (gets f : EStateM ε σ α) (gets g : EStateM ε' τ α) := by
  intro s t hst a s' hm
  cases hm
  exact ⟨t, by rw [h s t hst]; rfl, hst⟩

theorem Simulates.modify {f : σ → σ} {g : τ → τ} (h : ∀ s t, R s t → R (f s) (g t)) :
    Simulates R (modify f : EStateM ε σ PUnit) (modify g : EStateM ε' τ PUnit) := by
  intro s t hst a s' hm
  cases hm
  exact ⟨g t, rfl, h s t hst⟩

theorem Simulates.failIf {p q : Prop} [Decidable p] [Decidable q] (h : q → p) (e : ε) (e' : ε') :
    Simulates R (failIf p e) (failIf q e') := by
  intro s t hst a s' hm
  obtain ⟨hp, rfl⟩ := run_failIf_eq_ok hm
  exact ⟨t, run_failIf_neg (fun hq => hp (h hq)) e' t, hst⟩

theorem Simulates.zoom {υ ν ε₁ ε₂ : Type} {Q : υ → ν → Prop} {read : σ → υ} {write : υ → σ → σ}
    {read' : τ → ν} {write' : ν → τ → τ} (hread : ∀ s t, R s t → Q (read s) (read' t))
    (hwrite : ∀ u v s t, Q u v → R s t → R (write u s) (write' v t)) (convert : ε₁ → ε)
    (convert' : ε₂ → ε') {m : EStateM ε₁ υ α} {n : EStateM ε₂ ν α} (h : Simulates Q m n) :
    Simulates R (zoom read write convert m) (zoom read' write' convert' n) := by
  intro s t hst a s' hm
  rw [run_zoom] at hm
  cases hr : m.run (read s) with
  | ok b u =>
      rw [hr] at hm
      cases hm
      obtain ⟨v, hn, huv⟩ := h _ _ (hread s t hst) _ _ hr
      exact ⟨write' v t, by rw [run_zoom, hn], hwrite u v s t huv hst⟩
  | error e u => rw [hr] at hm; cases hm

theorem Simulates.fromExcept {r : Except ε α} {r' : Except ε' α} (h : ∀ a, r = .ok a → r' = .ok a) :
    Simulates R (fromExcept r) (fromExcept r') := by
  intro s t hst a s' hm
  obtain ⟨hr, rfl⟩ := run_fromExcept_eq_ok hm
  exact ⟨t, by rw [h a hr, run_fromExcept_ok], hst⟩

theorem Simulates.ending {f : σ → σ} {g : τ → τ} (hfg : ∀ s t, R s t → R (f s) (g t))
    {m : EStateM ε σ α} {n : EStateM ε' τ α} (h : Simulates R m n) :
    Simulates R (ending f m) (ending g n) := by
  intro s t hst a s' hm
  rw [run_ending] at hm
  cases hr : m.run s with
  | ok b u =>
      rw [hr] at hm
      cases hm
      obtain ⟨v, hn, huv⟩ := h s t hst _ _ hr
      exact ⟨g v, by rw [run_ending, hn], hfg u v huv⟩
  | error e u => rw [hr] at hm; cases hm

theorem Simulates.refl (m : EStateM ε σ α) : Simulates (fun s t => s = t) m m := by
  rintro s t rfl a s' hm
  exact ⟨s', hm, rfl⟩

theorem Simulates.collect {f : β → EStateM ε σ (List γ)} {g : β → EStateM ε' τ (List γ)}
    (h : ∀ x, Simulates R (f x) (g x)) (xs : List β) :
    Simulates R (collect f xs) (collect g xs) := by
  induction xs with
  | nil => exact Simulates.pure []
  | cons x xs ih => exact (h x).bind fun _ => ih.bind fun _ => Simulates.pure _

def Total (m : EStateM ε σ α) : Prop := ∀ s, ∃ a t, m.run s = .ok a t

theorem Total.bind {m : EStateM ε σ α} {f : α → EStateM ε σ β} (hm : Total m)
    (hf : ∀ a, Total (f a)) : Total (m >>= f) := by
  intro s
  obtain ⟨a, t, hrun⟩ := hm s
  obtain ⟨b, u, hrest⟩ := hf a t
  exact ⟨b, u, by rw [run_bind_of_ok hrun, hrest]⟩

theorem Total.pure (a : α) : Total (Pure.pure a : EStateM ε σ α) := fun s => ⟨a, s, rfl⟩

theorem Total.gets (f : σ → α) : Total (gets f : EStateM ε σ α) := fun s => ⟨f s, s, rfl⟩

theorem Total.modify (f : σ → σ) : Total (modify f : EStateM ε σ PUnit) := fun s => ⟨⟨⟩, f s, rfl⟩

theorem Total.zoom {m : EStateM ε τ α} (h : Total m) (read : σ → τ) (write : τ → σ → σ)
    (convert : ε → ε') : Total (zoom read write convert m) := by
  intro s
  obtain ⟨a, t, hrun⟩ := h (read s)
  exact ⟨a, write t s, run_zoom_of_ok hrun⟩

theorem Total.collect {f : β → EStateM ε σ (List γ)} {xs : List β} (h : ∀ x ∈ xs, Total (f x)) :
    Total (collect f xs) := by
  induction xs with
  | nil => exact Total.pure []
  | cons x xs ih =>
      exact (h x List.mem_cons_self).bind fun _ =>
        (ih fun y hy => h y (List.mem_cons_of_mem _ hy)).bind fun _ => Total.pure _

def Triple (P : σ → Prop) (m : EStateM ε σ α) (Q : α → σ → Prop) (E : ε → σ → Prop) : Prop :=
  ∀ s, P s → match m.run s with
    | .ok a t => Q a t
    | .error e t => E e t

variable {P : σ → Prop} {Q : α → σ → Prop} {E : ε → σ → Prop}

theorem Triple.ok {m : EStateM ε σ α} (h : Triple P m Q E) {s t : σ} {a : α} (hs : P s)
    (hm : m.run s = .ok a t) : Q a t := by
  have hr := h s hs
  rwa [hm] at hr

theorem Triple.error {m : EStateM ε σ α} (h : Triple P m Q E) {s t : σ} {e : ε} (hs : P s)
    (hm : m.run s = .error e t) : E e t := by
  have hr := h s hs
  rwa [hm] at hr

theorem Triple.bind {m : EStateM ε σ α} {f : α → EStateM ε σ β} {Q' : β → σ → Prop}
    (hm : Triple P m Q E) (hf : ∀ a, Triple (Q a) (f a) Q' E) : Triple P (m >>= f) Q' E := by
  intro s hs
  rw [EStateM.run_bind]
  cases hr : m.run s with
  | ok a t => exact hf a t (hm.ok hs hr)
  | error e t => exact hm.error hs hr

theorem Triple.pure {a : α} (h : ∀ s, P s → Q a s) : Triple P (Pure.pure a : EStateM ε σ α) Q E :=
  fun s hs => h s hs

theorem Triple.get {Q : σ → σ → Prop} (h : ∀ s, P s → Q s s) :
    Triple P (MonadState.get : EStateM ε σ σ) Q E := fun s hs => h s hs

theorem Triple.gets {f : σ → α} (h : ∀ s, P s → Q (f s) s) :
    Triple P (gets f : EStateM ε σ α) Q E :=
  fun s hs => h s hs

theorem Triple.modify {f : σ → σ} {Q : PUnit → σ → Prop} (h : ∀ s, P s → Q ⟨⟩ (f s)) :
    Triple P (modify f : EStateM ε σ PUnit) Q E := fun s hs => h s hs

theorem Triple.failIf {p : Prop} [Decidable p] {e : ε} (h : ∀ s, P s → p → E e s) :
    Triple P (failIf p e) (fun _ s => P s ∧ ¬ p) E := by
  intro s hs
  by_cases hp : p
  · rw [run_failIf_pos hp]; exact h s hs hp
  · rw [run_failIf_neg hp]; exact ⟨hs, hp⟩

theorem Triple.fromExcept {r : Except ε α} (h : ∀ e s, P s → E e s) :
    Triple P (fromExcept r) (fun a s => P s ∧ r = .ok a) E := by
  intro s hs
  cases r with
  | ok a => exact ⟨hs, rfl⟩
  | error e => exact h e s hs

theorem Triple.of_fact {c : Prop} {m : EStateM ε σ α} (h : c → Triple P m Q E) :
    Triple (fun s => P s ∧ c) m Q E := fun s hs => h hs.2 s hs.1

theorem Triple.conseq {m : EStateM ε σ α} {P' : σ → Prop} {Q' : α → σ → Prop} {E' : ε → σ → Prop}
    (h : Triple P m Q E) (hP : ∀ s, P' s → P s) (hQ : ∀ a s, Q a s → Q' a s)
    (hE : ∀ e s, E e s → E' e s) : Triple P' m Q' E' := by
  intro s hs
  cases hr : m.run s with
  | ok a t => exact hQ a t (h.ok (hP s hs) hr)
  | error e t => exact hE e t (h.error (hP s hs) hr)

theorem Triple.ending {f : σ → σ} {m : EStateM ε σ α}
    (h : Triple P m (fun a s => Q a (f s)) fun e s => E e (f s)) : Triple P (ending f m) Q E := by
  intro s hs
  rw [run_ending]
  cases hr : m.run s with
  | ok a t => exact h.ok hs hr
  | error e t => exact h.error hs hr

theorem Triple.endingOnError {f : σ → σ} {m : EStateM ε σ α}
    (h : Triple P m Q fun e s => E e (f s)) : Triple P (endingOnError f m) Q E := by
  intro s hs
  rw [run_endingOnError]
  cases hr : m.run s with
  | ok a t => exact h.ok hs hr
  | error e t => exact h.error hs hr

theorem Triple.zoom {read : σ → τ} {write : τ → σ → σ} {convert : ε' → ε} {m : EStateM ε' τ α}
    {P' : τ → Prop} {Q' : α → τ → Prop} {E' : ε' → τ → Prop} (h : Triple P' m Q' E')
    (hP : ∀ s, P s → P' (read s)) (hQ : ∀ s a t, P s → Q' a t → Q a (write t s))
    (hE : ∀ s e t, P s → E' e t → E (convert e) (write t s)) :
    Triple P (zoom read write convert m) Q E := by
  intro s hs
  rw [run_zoom]
  cases hr : m.run (read s) with
  | ok a t => exact hQ s a t hs (h.ok (hP s hs) hr)
  | error e t => exact hE s e t hs (h.error (hP s hs) hr)

/-- A loop keeps what its body keeps. -/
theorem Triple.collect_mem {f : β → EStateM ε σ (List γ)} {xs : List β}
    (h : ∀ x ∈ xs, Triple P (f x) (fun _ => P) E) : Triple P (collect f xs) (fun _ => P) E := by
  induction xs with
  | nil => exact Triple.pure fun _ hs => hs
  | cons x xs ih =>
      refine Triple.bind (h x List.mem_cons_self) fun _ => ?_
      refine Triple.bind (ih fun y hy => h y (List.mem_cons_of_mem x hy)) fun _ => ?_
      exact Triple.pure fun _ hs => hs

theorem Triple.collect {f : β → EStateM ε σ (List γ)} (h : ∀ x, Triple P (f x) (fun _ => P) E)
    (xs : List β) : Triple P (collect f xs) (fun _ => P) E :=
  Triple.collect_mem fun x _ => h x

theorem Total.triple {m : EStateM ε σ α} (h : Total m) : Triple P m (fun _ _ => True) E := by
  intro s _
  obtain ⟨a, t, hrun⟩ := h s
  rw [hrun]
  trivial

variable {s : σ}

theorem Triple.of_eq {m : EStateM ε σ α} (h : ∀ s, P s → Triple (fun t => t = s) m Q E) :
    Triple P m Q E :=
  fun s hs => h s hs s rfl

theorem at_pure {a : α} (h : Q a s) : Triple (fun t => t = s) (pure a : EStateM ε σ α) Q E :=
  Triple.pure fun _ ht => ht ▸ h

theorem at_throw {e : ε} (h : E e s) : Triple (fun t => t = s) (throw e : EStateM ε σ α) Q E := by
  rintro t rfl
  exact h

theorem at_modify {f : σ → σ} {rest : PUnit → EStateM ε σ α}
    (h : Triple (fun t => t = f s) (rest ⟨⟩) Q E) :
    Triple (fun t => t = s) (modify f >>= rest) Q E :=
  Triple.bind (Triple.modify fun _ ht => congrArg f ht) fun _ => h

theorem at_gets {f : σ → β} {rest : β → EStateM ε σ α}
    (h : Triple (fun t => t = s) (rest (f s)) Q E) :
    Triple (fun t => t = s) (gets f >>= rest) Q E := by
  rintro t rfl
  exact h t rfl

abbrev Preserves (I : σ → Prop) (m : EStateM ε σ α) : Prop := Triple I m (fun _ => I) (fun _ => I)

theorem Preserves.bind {I : σ → Prop} {m : EStateM ε σ α} {f : α → EStateM ε σ β}
    (hm : Preserves I m) (hf : ∀ a, Preserves I (f a)) : Preserves I (m >>= f) :=
  Triple.bind hm hf

theorem Preserves.zoom {I : σ → Prop} {read : σ → τ} {write : τ → σ → σ}
    (h : ∀ u s, I s → I (write u s)) (convert : ε → ε') (m : EStateM ε τ α) :
    Preserves I (zoom read write convert m) := by
  intro s hs
  rw [run_zoom]
  cases m.run (read s) with
  | ok a u => exact h u s hs
  | error e u => exact h u s hs

theorem Preserves.gets {I : σ → Prop} (f : σ → α) : Preserves I (gets f : EStateM ε σ α) :=
  Triple.gets fun _ h => h

theorem Preserves.modify {I : σ → Prop} {f : σ → σ} (h : ∀ s, I s → I (f s)) :
    Preserves I (modify f : EStateM ε σ PUnit) := Triple.modify h

theorem Preserves.pure {I : σ → Prop} (a : α) : Preserves I (Pure.pure a : EStateM ε σ α) :=
  Triple.pure fun _ h => h

theorem Preserves.fromExcept {I : σ → Prop} (r : Except ε α) :
    Preserves I (fromExcept r : EStateM ε σ α) := by
  intro s hs
  cases r <;> exact hs

theorem Preserves.failIf {I : σ → Prop} (p : Prop) [Decidable p] (e : ε) :
    Preserves I (failIf p e) := by
  intro s hs
  by_cases hp : p
  · rw [run_failIf_pos hp]; exact hs
  · rw [run_failIf_neg hp]; exact hs

theorem Preserves.collect {I : σ → Prop} {f : β → EStateM ε σ (List γ)} (h : ∀ x, Preserves I (f x))
    (xs : List β) : Preserves I (collect f xs) := Triple.collect h xs

end ImpossibleVoice.Lib
