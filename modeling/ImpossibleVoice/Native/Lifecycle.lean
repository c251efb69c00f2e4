import ImpossibleVoice.Native.Wrapper

namespace ImpossibleVoice.Native

open Lib Audio

inductive Token
  | api
  | unload
  | ref (engine : Handle)
  | destroy (engine : Handle)
  | lock (engine : Handle)
  | stream (stream engine : Nat)
  | output (output : Handle)
deriving DecidableEq

def Creation.tokens (engine : Nat) : Creation → List Token
  | waiting => [.ref (.recognizer, engine)]
  | locked | failed => [.ref (.recognizer, engine), .lock (.recognizer, engine)]
  | made pointer =>
      [.ref (.recognizer, engine), .lock (.recognizer, engine), .stream pointer engine]
  | cloned pointer =>
    [.ref (.recognizer, engine), .lock (.recognizer, engine), .stream pointer engine,
      .ref (.recognizer, engine)]

def Owner.tokens : Owner → List Token
  | .stream pointer engine _ => [.ref (.recognizer, engine), .stream pointer engine]
  | .synthesizer engine => [.ref (.synthesizer, engine)]

def Decoding.tokens (engine : Nat) : Decoding → List Token
  | waiting => []
  | _ => [.lock (.recognizer, engine)]

def Retrieval.tokens (engine : Handle) : Retrieval → List Token
  | waiting => []
  | asking | leaving => [.lock engine]
  | reading pointer | freeing pointer => [.lock engine, .output (engine.1, pointer)]

def Task.tokens : Task → List Token
  | runtime | releasing => [.api]
  | engine handle | dropping handle => [.ref handle]
  | creating handle at' => at'.tokens handle
  | stream pointer handle _ => [.ref (.recognizer, handle), .stream pointer handle]
  | decoding pointer handle _ at' =>
      [.ref (.recognizer, handle), .stream pointer handle] ++ at'.tokens handle
  | retrieving owner at' => owner.tokens ++ at'.tokens owner.handle
  | destroying handle => [.destroy handle]
  | unloading => [.unload]
  | ended => []

@[simp] theorem tokens_runtime : Task.runtime.tokens = [.api] := rfl

@[simp] theorem tokens_releasing : Task.releasing.tokens = [.api] := rfl

@[simp] theorem tokens_engine (handle : Handle) : (Task.engine handle).tokens = [.ref handle] := rfl

@[simp] theorem tokens_dropping (handle : Handle) : (Task.dropping handle).tokens = [.ref handle] :=
  rfl

@[simp] theorem tokens_creating (engine : Nat) (at' : Creation) :
    (Task.creating engine at').tokens = at'.tokens engine :=
  rfl

@[simp] theorem tokens_stream (pointer engine : Nat) (finished : Bool) :
    (Task.stream pointer engine finished).tokens =
      [.ref (.recognizer, engine), .stream pointer engine] :=
  rfl

@[simp] theorem tokens_decoding (pointer engine : Nat) (finished : Bool) (at' : Decoding) :
    (Task.decoding pointer engine finished at').tokens =
      [.ref (.recognizer, engine), .stream pointer engine] ++ at'.tokens engine := rfl

@[simp] theorem tokens_retrieving (owner : Owner) (at' : Retrieval) :
    (Task.retrieving owner at').tokens = owner.tokens ++ at'.tokens owner.handle := rfl

@[simp] theorem tokens_destroying (handle : Handle) :
    (Task.destroying handle).tokens = [.destroy handle] :=
  rfl

@[simp] theorem tokens_unloading : Task.unloading.tokens = [.unload] := rfl

@[simp] theorem tokens_ended : Task.ended.tokens = [] := rfl

@[simp] theorem tokens_idle (owner : Owner) : owner.idle.tokens = owner.tokens := by
  cases owner <;> rfl

def held (token : Token) (task : Task) : Nat := task.tokens.count token

def owed : Token → Shared → Nat
  | .api, s => s.api.refs
  | .unload, s => s.api.closings
  | .ref handle, s => (s.engine handle).refs
  | .destroy handle, s => (s.engine handle).closings
  | .lock handle, s => (s.locked handle).toNat
  | .stream pointer handle, s => s.heap.streams.count (pointer, handle)
  | .output handle, s => s.heap.outputs.count handle

def stock : Token → Shared → Nat
  | .api, s => s.heap.engines.length
  | _, _ => 0

/-- The engines are those that are counted, and the library is loaded while it is. -/
structure Consistent (s : Shared) : Prop where
  faults : s.faults = []
  engines : ∀ handle, s.heap.engines.count handle = if s.engine handle = .gone then 0 else 1
  loaded : s.heap.loaded = true ↔ s.api ≠ .gone

/-- Streams and outputs are in the hands of tasks that refer to an engine. -/
structure Rooted (s : Shared) : Prop where
  streams : ∀ stream ∈ s.heap.streams, (s.engine (.recognizer, stream.2)).refs ≠ 0
  outputs : ∀ output ∈ s.heap.outputs, ∃ handle, (s.engine handle).refs ≠ 0

abbrev Covers (s : Shared) (task : Task) : Prop :=
  ∀ token, stock token s + held token task ≤ owed token s

def Exchange (s t : Shared) (given taken : List Token) : Prop :=
  ∀ token,
    stock token t + owed token s + given.count token =
    stock token s + owed token t + taken.count token

variable {s t : Shared} {task : Task} {handle : Handle} {pointer engine : Nat}

theorem Exchange.refl (s : Shared) : Exchange s s [] [] := fun _ => rfl

theorem Arc.refs_pos {arc : Arc} (h : 1 ≤ arc.refs) : ∃ others, arc = .live others := by
  cases arc with
  | gone | closing => exact absurd h (by decide)
  | live others => exact ⟨others, rfl⟩

theorem Arc.closings_pos {arc : Arc} (h : 1 ≤ arc.closings) : arc = .closing := by
  cases arc with
  | gone | live => exact absurd h (by simp [Arc.closings])
  | closing => rfl

section Counts

variable {others : Nat}

theorem exchange_setEngine (arc : Arc) {given taken : List Token}
    (href : arc.refs + taken.count (.ref handle) =
      (s.engine handle).refs + given.count (.ref handle))
    (hdestroy : arc.closings + taken.count (.destroy handle) =
      (s.engine handle).closings + given.count (.destroy handle))
    (hother : ∀ token, token ≠ .ref handle → token ≠ .destroy handle →
      given.count token = taken.count token) :
    Exchange s (s.setEngine handle arc) given taken := by
  intro token
  by_cases href' : token = .ref handle
  · subst href'
    simp only [stock, owed, Shared.setEngine, Function.update_self]
    omega
  by_cases hdestroy' : token = .destroy handle
  · subst hdestroy'
    simp only [stock, owed, Shared.setEngine, Function.update_self]
    omega
  have hcount := hother token href' hdestroy'
  cases token with
  | ref other =>
      have hne : other ≠ handle := fun h => href' (by rw [h])
      simp only [stock, owed, Shared.setEngine, Function.update_of_ne hne]
      omega
  | destroy other =>
      have hne : other ≠ handle := fun h => hdestroy' (by rw [h])
      simp only [stock, owed, Shared.setEngine, Function.update_of_ne hne]
      omega
  | _ =>
      simp only [stock, owed, Shared.setEngine]
      omega

theorem exchange_retain (h : s.engine handle = .live others) :
    Exchange s (s.setEngine handle (s.engine handle).retain) [.ref handle] [] := by
  refine exchange_setEngine _ ?_ ?_ fun token href _ => ?_
  · simp [h, Arc.retain, Arc.refs]
  · simp [h, Arc.retain, Arc.closings]
  · simp [Ne.symm href]

theorem exchange_release (h : s.engine handle = .live (others + 1)) :
    Exchange s (s.setEngine handle (s.engine handle).release) [] [.ref handle] := by
  refine exchange_setEngine _ ?_ ?_ fun token href _ => ?_
  · simp [h, Arc.release, Arc.refs]
  · simp [h, Arc.release, Arc.closings]
  · simp [Ne.symm href]

theorem exchange_close (h : s.engine handle = .live 0) :
    Exchange s (s.setEngine handle (s.engine handle).release) [.destroy handle] [.ref handle] := by
  refine exchange_setEngine _ ?_ ?_ fun token href hdestroy => ?_
  · simp [h, Arc.release, Arc.refs]
  · simp [h, Arc.release, Arc.closings]
  · simp [Ne.symm href, Ne.symm hdestroy]

theorem exchange_setApi (arc : Arc) {given taken : List Token}
    (hapi : arc.refs + taken.count .api = s.api.refs + given.count .api)
    (hunload : arc.closings + taken.count .unload = s.api.closings + given.count .unload)
    (hother : ∀ token, token ≠ .api → token ≠ .unload → given.count token = taken.count token) :
    Exchange s (s.setApi arc) given taken := by
  intro token
  by_cases hapi' : token = .api
  · subst hapi'
    simp only [stock, owed, Shared.setApi]
    omega
  by_cases hunload' : token = .unload
  · subst hunload'
    simp only [stock, owed, Shared.setApi]
    omega
  have hcount := hother token hapi' hunload'
  cases token with
  | api => exact absurd rfl hapi'
  | unload => exact absurd rfl hunload'
  | _ =>
      simp only [stock, owed, Shared.setApi]
      omega

theorem exchange_retainApi (h : s.api = .live others) :
    Exchange s (s.setApi s.api.retain) [.api] [] := by
  refine exchange_setApi _ ?_ ?_ fun token hapi _ => ?_
  · simp [h, Arc.retain, Arc.refs]
  · simp [h, Arc.retain, Arc.closings]
  · simp [Ne.symm hapi]

theorem exchange_releaseApi (h : s.api = .live (others + 1)) :
    Exchange s (s.setApi s.api.release) [] [.api] := by
  refine exchange_setApi _ ?_ ?_ fun token hapi _ => ?_
  · simp [h, Arc.release, Arc.refs]
  · simp [h, Arc.release, Arc.closings]
  · simp [Ne.symm hapi]

theorem exchange_closeApi (h : s.api = .live 0) :
    Exchange s (s.setApi s.api.release) [.unload] [.api] := by
  refine exchange_setApi _ ?_ ?_ fun token hapi hunload => ?_
  · simp [h, Arc.release, Arc.refs]
  · simp [h, Arc.release, Arc.closings]
  · simp [Ne.symm hapi, Ne.symm hunload]

theorem exchange_setLock (locked : Bool) {given taken : List Token}
    (hlock : locked.toNat + taken.count (.lock handle) =
      (s.locked handle).toNat + given.count (.lock handle))
    (hother : ∀ token, token ≠ .lock handle → given.count token = taken.count token) :
    Exchange s (s.setLock handle locked) given taken := by
  intro token
  by_cases hlock' : token = .lock handle
  · subst hlock'
    simp only [stock, owed, Shared.setLock, Function.update_self]
    omega
  have hcount := hother token hlock'
  cases token with
  | lock other =>
      have hne : other ≠ handle := fun h => hlock' (by rw [h])
      simp only [stock, owed, Shared.setLock, Function.update_of_ne hne]
      omega
  | _ =>
      simp only [stock, owed, Shared.setLock]
      omega

theorem exchange_lock (h : s.locked handle ≠ true) :
    Exchange s (s.setLock handle true) [.lock handle] [] := by
  refine exchange_setLock true ?_ fun token hlock => ?_
  · simp [h]
  · simp [Ne.symm hlock]

theorem exchange_unlock (h : s.locked handle = true) :
    Exchange s (s.setLock handle false) [] [.lock handle] := by
  refine exchange_setLock false ?_ fun token hlock => ?_
  · simp [h]
  · simp [Ne.symm hlock]

end Counts

section Calls

variable {call : Call} {heap : Heap}

theorem call_of_legal (h : s.heap.Legal call) :
    s.call call = { s with heap := s.heap.after call } :=
  if_pos h

theorem exchange_heap {given taken : List Token}
    (hapi : heap.engines.length + given.count .api = s.heap.engines.length + taken.count .api)
    (hstream : ∀ pointer engine,
      heap.streams.count (pointer, engine) + taken.count (.stream pointer engine) =
      s.heap.streams.count (pointer, engine) + given.count (.stream pointer engine))
    (houtput : ∀ output, heap.outputs.count output + taken.count (.output output) =
      s.heap.outputs.count output + given.count (.output output))
    (hother : ∀ token, token ≠ .api → (∀ pointer engine, token ≠ .stream pointer engine) →
      (∀ output, token ≠ .output output) →
      given.count token = taken.count token) :
    Exchange s { s with heap } given taken := by
  intro token
  have hcount := hother token
  cases token with
  | api =>
      simp only [stock, owed]
      omega
  | stream pointer engine =>
      have h := hstream pointer engine
      simp only [stock, owed]
      omega
  | output output =>
      have h := houtput output
      simp only [stock, owed]
      omega
  | _ =>
      have h := hcount nofun nofun nofun
      simp only [stock, owed]
      omega

theorem exchange_createStream (engine pointer : Nat) :
    Exchange s { s with heap := s.heap.after (.createStream engine (some pointer)) }
      [.stream pointer engine] [] := by
  refine exchange_heap ?_ (fun other owner => ?_) (fun output => ?_) fun token _ hstream _ => ?_
  · simp [Heap.after]
  · by_cases h : (pointer, engine) = (other, owner)
    · cases h
      simp [Heap.after]
    · have hne : Token.stream pointer engine ≠ .stream other owner := fun he => h (by cases he; rfl)
      simp [Heap.after, List.count_cons_of_ne h, List.count_cons_of_ne hne]
  · simp [Heap.after]
  · simp [Ne.symm (hstream pointer engine)]

theorem exchange_destroyStream (h : (pointer, engine) ∈ s.heap.streams) :
    Exchange s { s with heap := s.heap.after (.destroyStream pointer engine) } []
      [.stream pointer engine] := by
  refine exchange_heap ?_ (fun other owner => ?_) (fun output => ?_) fun token _ hstream _ => ?_
  · simp [Heap.after]
  · have hpos := List.count_pos_iff.mpr h
    by_cases h : (pointer, engine) = (other, owner)
    · cases h
      simp only [Heap.after, List.count_erase_self, List.count_cons_self, List.count_nil]
      omega
    · have hne : Token.stream pointer engine ≠ .stream other owner := fun he => h (by cases he; rfl)
      simp [Heap.after, List.count_erase_of_ne (Ne.symm h), List.count_cons_of_ne hne]
  · simp [Heap.after]
  · simp [Ne.symm (hstream pointer engine)]

theorem exchange_output {output : Handle} (hafter : heap.outputs = output :: s.heap.outputs)
    (hengines : heap.engines = s.heap.engines) (hstreams : heap.streams = s.heap.streams) :
    Exchange s { s with heap } [.output output] [] := by
  refine exchange_heap ?_ (fun other owner => ?_) (fun other => ?_) fun token _ _ houtput => ?_
  · simp [hengines]
  · simp [hstreams]
  · by_cases h : output = other
    · subst h
      simp [hafter]
    · have hne : Token.output output ≠ .output other := fun he => h (by cases he; rfl)
      simp [hafter, List.count_cons_of_ne h, List.count_cons_of_ne hne]
  · simp [Ne.symm (houtput output)]

theorem exchange_destroyOutput {output : Handle} (h : output ∈ s.heap.outputs) :
    Exchange s { s with heap := s.heap.after (.destroyOutput output) } [] [.output output] := by
  refine exchange_heap ?_ (fun other owner => ?_) (fun other => ?_) fun token _ _ houtput => ?_
  · simp [Heap.after]
  · simp [Heap.after]
  · have hpos := List.count_pos_iff.mpr h
    by_cases h : output = other
    · subst h
      simp only [Heap.after, List.count_erase_self, List.count_cons_self, List.count_nil]
      omega
    · have hne : Token.output output ≠ .output other := fun he => h (by cases he; rfl)
      simp [Heap.after, List.count_erase_of_ne (Ne.symm h), List.count_cons_of_ne hne]
  · simp [Ne.symm (houtput output)]

theorem exchange_createEngine (kind : Kind) (pointer : Nat) :
    Exchange s { s with heap := s.heap.after (.createEngine kind (some pointer)) } [] [.api] := by
  refine exchange_heap ?_ (fun _ _ => ?_) (fun _ => ?_) fun token hapi _ _ => ?_
  · simp [Heap.after]
  · simp [Heap.after]
  · simp [Heap.after]
  · simp [Ne.symm hapi]

theorem exchange_destroyEngine (h : handle ∈ s.heap.engines) :
    Exchange s { s with heap := s.heap.after (.destroyEngine handle) } [.api] [] := by
  refine exchange_heap ?_ (fun _ _ => ?_) (fun _ => ?_) fun token hapi _ _ => ?_
  · have hpos := List.length_pos_of_mem h
    simp only [Heap.after, List.length_erase_of_mem h, List.count_cons_self, List.count_nil]
    omega
  · simp [Heap.after]
  · simp [Heap.after]
  · simp [Ne.symm hapi]

theorem Exchange.trans {u : Shared} {given taken given' taken' : List Token}
    (h : Exchange s t given taken) (h' : Exchange t u given' taken') :
    Exchange s u (given ++ given') (taken ++ taken') := by
  intro token
  have hs := h token
  have ht := h' token
  rw [List.count_append, List.count_append]
  omega

end Calls

theorem Consistent.setLock (h : Consistent s) (locked : Bool) :
    Consistent (s.setLock handle locked) :=
  ⟨h.faults, h.engines, h.loaded⟩

theorem Consistent.setEngine (h : Consistent s) {arc : Arc} (hs : s.engine handle ≠ .gone)
    (ht : arc ≠ .gone) : Consistent (s.setEngine handle arc) := by
  refine ⟨h.faults, fun other => ?_, h.loaded⟩
  by_cases hother : other = handle
  · subst hother
    have hcount := h.engines other
    rw [if_neg hs] at hcount
    simp only [Shared.setEngine, Function.update_self, if_neg ht]
    exact hcount
  · simp only [Shared.setEngine, Function.update_of_ne hother]
    exact h.engines other

theorem Consistent.setApi (h : Consistent s) {arc : Arc} (hs : s.api ≠ .gone) (ht : arc ≠ .gone) :
    Consistent (s.setApi arc) :=
  ⟨h.faults, h.engines, h.loaded.trans ⟨fun _ => ht, fun _ => hs⟩⟩

theorem Consistent.heap (h : Consistent s) {heap : Heap} (hengines : heap.engines = s.heap.engines)
    (hloaded : heap.loaded = s.heap.loaded) : Consistent { s with heap } := by
  refine ⟨h.faults, fun handle => ?_, ?_⟩
  · rw [hengines]
    exact h.engines handle
  · rw [hloaded]
    exact h.loaded

theorem Arc.retain_ne_gone {arc : Arc} (h : arc ≠ .gone) : arc.retain ≠ .gone := by
  cases arc with
  | gone => exact absurd rfl h
  | live | closing => exact nofun

theorem Arc.release_ne_gone {arc : Arc} (h : arc ≠ .gone) : arc.release ≠ .gone := by
  cases arc with
  | gone => exact absurd rfl h
  | live others => cases others <;> exact nofun
  | closing => exact nofun

section Knows

variable (hs : Consistent s) (hcovers : Covers s task)

include hcovers

theorem ref_live (h : .ref handle ∈ task.tokens) : ∃ others, s.engine handle = .live others := by
  have hcount := List.count_pos_iff.mpr h
  have hle := hcovers (.ref handle)
  simp only [stock, held, owed] at hle
  exact Arc.refs_pos (by omega)

theorem destroy_closing (h : .destroy handle ∈ task.tokens) : s.engine handle = .closing := by
  have hcount := List.count_pos_iff.mpr h
  have hle := hcovers (.destroy handle)
  simp only [stock, held, owed] at hle
  exact Arc.closings_pos (by omega)

theorem api_live (h : .api ∈ task.tokens) : ∃ others, s.api = .live others := by
  have hcount := List.count_pos_iff.mpr h
  have hle := hcovers .api
  simp only [stock, held, owed] at hle
  exact Arc.refs_pos (by omega)

theorem unload_closing (h : .unload ∈ task.tokens) : s.api = .closing := by
  have hcount := List.count_pos_iff.mpr h
  have hle := hcovers .unload
  simp only [stock, held, owed] at hle
  exact Arc.closings_pos (by omega)

theorem lock_held (h : .lock handle ∈ task.tokens) : s.locked handle = true := by
  have hcount := List.count_pos_iff.mpr h
  have hle := hcovers (.lock handle)
  simp only [stock, held, owed] at hle
  cases hlocked : s.locked handle with
  | true => rfl
  | false =>
      rw [hlocked] at hle
      simp only [Bool.toNat_false] at hle
      omega

theorem stream_mem (h : .stream pointer engine ∈ task.tokens) :
    (pointer, engine) ∈ s.heap.streams := by
  have hcount := List.count_pos_iff.mpr h
  have hle := hcovers (.stream pointer engine)
  simp only [stock, held, owed] at hle
  exact List.count_pos_iff.mp (by omega)

theorem output_mem {output : Handle} (h : .output output ∈ task.tokens) :
    output ∈ s.heap.outputs := by
  have hcount := List.count_pos_iff.mpr h
  have hle := hcovers (.output output)
  simp only [stock, held, owed] at hle
  exact List.count_pos_iff.mp (by omega)

include hs

theorem engine_loaded (h : s.engine handle ≠ .gone) :
    s.heap.loaded = true ∧ handle ∈ s.heap.engines := by
  have hcount := hs.engines handle
  rw [if_neg h] at hcount
  have hmem : handle ∈ s.heap.engines := List.count_pos_iff.mp (by omega)
  have hlength := List.length_pos_of_mem hmem
  have hle := hcovers .api
  simp only [stock, owed] at hle
  have hrefs : 0 < s.api.refs := by omega
  obtain ⟨others, hlive⟩ := Arc.refs_pos hrefs
  exact ⟨hs.loaded.mpr (by rw [hlive]; exact nofun), hmem⟩

theorem ref_loaded (h : .ref handle ∈ task.tokens) :
    s.heap.loaded = true ∧ handle ∈ s.heap.engines := by
  obtain ⟨others, hlive⟩ := ref_live hcovers h
  exact engine_loaded hs hcovers (by rw [hlive]; exact nofun)

end Knows

variable {next : Task} {left : List Task} {given taken : List Token} {event : Event}

abbrev Keeps (s : Shared) (task : Task) (t : Shared) (next : Task) (left : List Task) : Prop :=
  Consistent t ∧ ∀ token,
    stock token t + held token next + total (held token) left + owed token s =
      stock token s + held token task + owed token t

theorem keeps_of_exchange (ht : Consistent t) (hexchange : Exchange s t given taken)
    (hcount : ∀ token,
      held token next + total (held token) left + taken.count token =
      held token task + given.count token) :
    Keeps s task t next left := by
  refine ⟨ht, fun token => ?_⟩
  have hx := hexchange token
  have hc := hcount token
  omega

theorem keeps_refl (hs : Consistent s)
    (hcount : ∀ token, held token next + total (held token) left = held token task) :
    Keeps s task s next left :=
  keeps_of_exchange hs (Exchange.refl s) fun token => by simp [hcount token]

theorem ref_owner (owner : Owner) (at' : Retrieval) :
    .ref owner.handle ∈ (Task.retrieving owner at').tokens := by
  cases owner <;> exact List.mem_cons_self

section Steps

variable (hs : Consistent s) (hcovers : Covers s task)

include hs hcovers

theorem keeps_dropApi (htokens : task.tokens = [.api]) (h : s.dropApi = some (t, next, left)) :
    Keeps s task t next left := by
  obtain ⟨others, hlive⟩ := api_live hcovers (by rw [htokens]; exact List.mem_singleton_self _)
  have hgone : s.api ≠ .gone := by
    simp [hlive]
  have ht := hs.setApi hgone (Arc.release_ne_gone hgone)
  cases h
  cases others with
  | zero =>
      rw [if_pos hlive]
      exact keeps_of_exchange ht (exchange_closeApi hlive)
        fun token => by simp [held, htokens, total, Nat.add_comm]
  | succ others =>
      rw [if_neg (by simp [hlive])]
      exact keeps_of_exchange ht (exchange_releaseApi hlive)
        fun token => by simp [held, htokens, total]

theorem keeps_dropEngine (htokens : task.tokens = [.ref handle])
    (h : s.dropEngine handle = some (t, next, left)) : Keeps s task t next left := by
  obtain ⟨others, hlive⟩ :=
    ref_live hcovers
      (show .ref handle ∈ task.tokens by rw [htokens]; exact List.mem_singleton_self _)
  have hgone : s.engine handle ≠ .gone := by
    simp [hlive]
  have ht := hs.setEngine hgone (Arc.release_ne_gone hgone)
  cases h
  cases others with
  | zero =>
      rw [if_pos hlive]
      exact keeps_of_exchange ht (exchange_close hlive)
        fun token => by simp [held, htokens, total, Nat.add_comm]
  | succ others =>
      rw [if_neg (by simp [hlive])]
      exact keeps_of_exchange ht (exchange_release hlive)
        fun token => by simp [held, htokens, total]

omit hcovers

theorem keeps_lock {task' : Task}
    (hcount : ∀ token, held token task' = held token task + [Token.lock handle].count token)
    (h : s.lock handle task' = some (t, next, left)) : Keeps s task t next left := by
  unfold Shared.lock at h
  split at h
  · cases h
  · next hfree =>
      cases h
      exact keeps_of_exchange (hs.setLock true) (exchange_lock hfree)
        fun token => by simp [hcount token, total]

include hcovers

theorem keeps_unlock {task' : Task} {left' : List Task} (hlock : .lock handle ∈ task.tokens)
    (hcount : ∀ token,
      held token task' + total (held token) left' + [Token.lock handle].count token =
      held token task)
    (h : s.unlock handle task' left' = some (t, next, left)) : Keeps s task t next left := by
  cases h
  refine keeps_of_exchange (hs.setLock false) (exchange_unlock (lock_held hcovers hlock))
    fun token => ?_
  simpa using hcount token

omit hcovers

theorem keeps_call {call : Call} (hlegal : s.heap.Legal call) (hafter : s.heap.after call = s.heap)
    (hcount : ∀ token, held token next + total (held token) left = held token task) :
    Keeps s task (s.call call) next left := by
  rw [call_of_legal hlegal, hafter]
  exact keeps_refl hs hcount

include hcovers

theorem keeps_openEngine {kind : Kind} {threads : Nat} {result : Option Nat}
    (htask : task = .runtime) (h : s.openEngine kind threads result = some (t, next, left)) :
    Keeps s task t next left := by
  obtain ⟨others, hlive⟩ := api_live hcovers (by rw [htask]; exact List.mem_singleton_self _)
  have hgone : s.api ≠ .gone := by
    rw [hlive]
    exact nofun
  have hloaded : s.heap.loaded = true := hs.loaded.mpr hgone
  subst htask
  unfold Shared.openEngine at h
  split at h
  · cases h
    exact keeps_refl hs fun token => by simp [total]
  · split at h
    · next hfresh =>
        cases result with
        | none =>
            cases h
            exact keeps_call hs hloaded rfl fun token => by simp [total]
        | some pointer =>
            cases h
            rw [call_of_legal (show s.heap.Legal (.createEngine kind (some pointer)) from hloaded)]
            have hengine : s.engine (kind, pointer) = .gone := by
              by_contra hne
              obtain ⟨-, hmem⟩ := engine_loaded hs hcovers hne
              exact hfresh pointer rfl (List.mem_map_of_mem hmem)
            have hretain :=
              @exchange_retainApi
                { s with heap := s.heap.after (.createEngine kind (some pointer)) } others hlive
            have hset :
                Exchange
                (({ s with heap := s.heap.after (.createEngine kind (some pointer)) } :
                Shared).setApi s.api.retain)
                ((({ s with heap := s.heap.after (.createEngine kind (some pointer)) } :
                  Shared).setApi s.api.retain).setEngine
                  (kind, pointer) (.live 0)) [.ref (kind, pointer)] [] := by
              refine exchange_setEngine _ ?_ ?_ fun token href _ => ?_
              · simp [Shared.setApi, hengine, Arc.refs]
              · simp [Shared.setApi, hengine, Arc.closings]
              · simp [Ne.symm href]
            refine keeps_of_exchange ?_
              (((exchange_createEngine kind pointer).trans hretain).trans hset) fun token => ?_
            · refine ⟨hs.faults, fun handle => ?_, ?_⟩
              · by_cases hhandle : handle = (kind, pointer)
                · subst hhandle
                  have hcount := hs.engines (kind, pointer)
                  rw [if_pos hengine] at hcount
                  simp [Shared.setEngine, Shared.setApi, Heap.after, hcount]
                · have hcount := hs.engines handle
                  simp only [Shared.setEngine, Shared.setApi, Heap.after,
                    Function.update_of_ne hhandle, List.count_cons_of_ne (Ne.symm hhandle)]
                  exact hcount
              · exact ⟨fun _ => Arc.retain_ne_gone hgone, fun _ => hloaded⟩
            · simp only [held, total, tokens_runtime, tokens_engine, List.nil_append,
                List.append_nil, List.cons_append, List.count_cons, List.count_nil]
              omega
    · cases h

theorem keeps_create {at' : Creation} (htask : task = .creating engine at')
    (h : s.create engine event at' = some (t, next, left)) : Keeps s task t next left := by
  have htokens : task.tokens = at'.tokens engine := by rw [htask, tokens_creating]
  have href : .ref (.recognizer, engine) ∈ task.tokens := by
    rw [htokens]
    cases at' <;> exact List.mem_cons_self
  cases at' with
  | waiting =>
      cases event with
      | proceed =>
          refine keeps_lock hs (fun token => ?_) h
          simp only [held, htokens, tokens_creating, Creation.tokens, List.count_cons,
            List.count_nil]
          omega
      | _ => cases h
  | locked =>
      cases event with
      | pointer result =>
          unfold Shared.create at h
          simp only at h
          split at h
          · have hlegal : s.heap.Legal (.createStream engine result) := ref_loaded hs hcovers href
            cases result with
            | none =>
                cases h
                exact keeps_call hs hlegal rfl
                  fun token => by simp [held, htokens, Creation.tokens, total]
            | some pointer =>
                cases h
                rw [call_of_legal hlegal]
                refine keeps_of_exchange (hs.heap rfl rfl) (exchange_createStream engine pointer)
                  fun token => ?_
                simp only [held, htokens, tokens_creating, Creation.tokens, total, List.count_cons,
                  List.count_nil]
                omega
          · cases h
      | _ => cases h
  | failed =>
      cases event with
      | proceed =>
          have hlock : .lock (.recognizer, engine) ∈ task.tokens := by
            rw [htokens]
            exact List.mem_cons_of_mem _ List.mem_cons_self
          refine keeps_unlock hs hcovers hlock (fun token => ?_) h
          simp only [held, htokens, tokens_engine, Creation.tokens, total, List.count_cons,
            List.count_nil]
          omega
      | _ => cases h
  | made pointer =>
      cases event with
      | proceed =>
          cases h
          obtain ⟨others, hlive⟩ := ref_live hcovers href
          have hgone : s.engine (.recognizer, engine) ≠ .gone := by
            simp [hlive]
          refine keeps_of_exchange (hs.setEngine hgone (Arc.retain_ne_gone hgone))
            (exchange_retain hlive) fun token => ?_
          simp only [held, htokens, tokens_creating, Creation.tokens, total, List.count_cons,
            List.count_nil]
          omega
      | _ => cases h
  | cloned pointer =>
      cases event with
      | proceed =>
          have hlock : .lock (.recognizer, engine) ∈ task.tokens := by
            rw [htokens]
            exact List.mem_cons_of_mem _ List.mem_cons_self
          refine keeps_unlock hs hcovers hlock (fun token => ?_) h
          simp only [held, htokens, tokens_engine, tokens_stream, Creation.tokens, total,
            List.count_cons, List.count_nil]
          omega
      | _ => cases h

theorem keeps_useStream {finished : Bool} (htask : task = .stream pointer engine finished)
    (h : s.useStream pointer engine finished event = some (t, next, left)) :
    Keeps s task t next left := by
  subst htask
  have href : .ref (.recognizer, engine) ∈ (Task.stream pointer engine finished).tokens :=
    List.mem_cons_self
  have hstream := stream_mem hcovers (List.mem_cons_of_mem _ List.mem_cons_self)
  obtain ⟨hloaded, -⟩ := ref_loaded hs hcovers href
  cases event with
  | accept samples =>
      unfold Shared.useStream at h
      simp only at h
      split at h
      · cases h
        exact keeps_refl hs fun token => by simp [total]
      · cases h
        exact keeps_call hs ⟨hloaded, hstream⟩ rfl
          fun token => by simp [held, Decoding.tokens, total]
  | text =>
      cases h
      exact keeps_refl hs fun token => by simp [held, Owner.tokens, Retrieval.tokens, total]
  | finish =>
      unfold Shared.useStream at h
      simp only at h
      split at h
      · next hfinished =>
          cases h
          exact keeps_refl hs fun token => by simp [held, total]
      · cases h
        exact keeps_call hs ⟨hloaded, hstream⟩ rfl
          fun token => by simp [held, Decoding.tokens, total]
  | drop =>
      cases h
      rw [call_of_legal (show s.heap.Legal (.destroyStream pointer engine) from ⟨hloaded, hstream⟩)]
      refine keeps_of_exchange (hs.heap rfl rfl) (exchange_destroyStream hstream) fun token => ?_
      simp only [held, tokens_stream, tokens_dropping, total, List.count_cons, List.count_nil]
      omega
  | _ => cases h

theorem keeps_decode {finished : Bool} {at' : Decoding}
    (htask : task = .decoding pointer engine finished at')
    (h : s.decode pointer engine finished event at' = some (t, next, left)) :
    Keeps s task t next left := by
  subst htask
  have href : .ref (.recognizer, engine) ∈ (Task.decoding pointer engine finished at').tokens :=
    List.mem_cons_self
  have hstream := stream_mem hcovers (List.mem_cons_of_mem _ List.mem_cons_self)
  obtain ⟨hloaded, hengine⟩ := ref_loaded hs hcovers href
  cases at' with
  | waiting =>
      cases event with
      | proceed =>
          refine keeps_lock hs (fun token => ?_) h
          simp only [held, tokens_decoding, Decoding.tokens, List.append_nil, List.cons_append,
            List.nil_append, List.count_cons, List.count_nil]
          omega
      | _ => cases h
  | asking steps =>
      cases steps with
      | zero =>
          cases event with
          | proceed =>
              cases h
              exact keeps_refl hs fun token => by simp [held, Decoding.tokens, total]
          | _ => cases h
      | succ steps =>
          cases event with
          | ready yes =>
              cases h
              refine keeps_call hs ⟨hloaded, hstream, hengine⟩ rfl fun token => ?_
              cases yes <;> simp [held, Decoding.tokens, total]
          | _ => cases h
  | working steps =>
      cases event with
      | proceed =>
          cases h
          exact keeps_call hs ⟨hloaded, hstream, hengine⟩ rfl
            fun token => by simp [held, Decoding.tokens, total]
      | _ => cases h
  | leaving drained =>
      cases event with
      | proceed =>
          have hlock : .lock (.recognizer, engine) ∈
              (Task.decoding pointer engine finished (.leaving drained)).tokens := by
            simp [Decoding.tokens]
          refine keeps_unlock hs hcovers hlock (fun token => ?_) h
          split
          · simp only [held, tokens_retrieving, tokens_decoding, Owner.tokens, Retrieval.tokens,
              Decoding.tokens, total,
              List.append_nil, List.cons_append, List.nil_append, List.count_cons, List.count_nil]
            omega
          · simp only [held, tokens_stream, tokens_decoding, Decoding.tokens, total,
              List.cons_append, List.nil_append, List.count_cons, List.count_nil]
            omega
      | _ => cases h

theorem keeps_retrieve {owner : Owner} {at' : Retrieval} (htask : task = .retrieving owner at')
    (h : s.retrieve owner event at' = some (t, next, left)) : Keeps s task t next left := by
  subst htask
  obtain ⟨hloaded, hengine⟩ := ref_loaded hs hcovers (ref_owner owner at')
  cases at' with
  | waiting =>
      cases event with
      | proceed =>
          refine keeps_lock hs (fun token => ?_) h
          simp [held, Retrieval.tokens]
      | _ => cases h
  | asking =>
      cases event with
      | pointer result =>
          unfold Shared.retrieve at h
          simp only at h
          split at h
          · have hlegal : s.heap.Legal (Shared.fetch owner result) := by
              cases owner with
              | stream pointer engine finished =>
                  exact ⟨hloaded, stream_mem hcovers (List.mem_cons_of_mem _ List.mem_cons_self),
                    hengine⟩
              | synthesizer engine => exact ⟨hloaded, hengine⟩
            cases result with
            | none =>
                cases h
                refine keeps_call hs hlegal (by cases owner <;> rfl) fun token => ?_
                simp [held, Retrieval.tokens, total]
            | some output =>
                cases h
                rw [call_of_legal hlegal]
                refine keeps_of_exchange (hs.heap (by cases owner <;> rfl) (by cases owner <;> rfl))
                  (@exchange_output s _ (owner.handle.1, output) (by cases owner <;> rfl)
                    (by cases owner <;> rfl)
                    (by cases owner <;> rfl)) fun token => ?_
                simp only [held, tokens_retrieving, Retrieval.tokens, total, List.count_append,
                  List.count_cons, List.count_nil]
                omega
          · cases h
      | _ => cases h
  | reading output =>
      cases event with
      | proceed =>
          cases h
          have houtput : (owner.handle.1, output) ∈ s.heap.outputs :=
            output_mem hcovers (by simp [Retrieval.tokens])
          exact keeps_call hs ⟨hloaded, houtput⟩ rfl
            fun token => by simp [held, Retrieval.tokens, total]
      | _ => cases h
  | freeing output =>
      cases event with
      | proceed =>
          cases h
          have houtput : (owner.handle.1, output) ∈ s.heap.outputs :=
            output_mem hcovers (by simp [Retrieval.tokens])
          rw [call_of_legal
            (show s.heap.Legal (.destroyOutput (owner.handle.1, output)) from ⟨hloaded, houtput⟩)]
          refine keeps_of_exchange (hs.heap rfl rfl) (exchange_destroyOutput houtput)
            fun token => ?_
          simp only [held, tokens_retrieving, Retrieval.tokens, total, List.count_append,
            List.count_cons, List.count_nil]
          omega
      | _ => cases h
  | leaving =>
      cases event with
      | proceed =>
          have hlock : .lock owner.handle ∈ (Task.retrieving owner .leaving).tokens := by
            simp [Retrieval.tokens]
          refine keeps_unlock hs hcovers hlock (fun token => ?_) h
          simp [held, Retrieval.tokens, total]
      | _ => cases h

theorem keeps_useEngine (htask : task = .engine handle)
    (h : s.useEngine handle event = some (t, next, left)) : Keeps s task t next left := by
  subst htask
  cases event with
  | clone =>
      cases h
      obtain ⟨others, hlive⟩ := ref_live hcovers (List.mem_singleton_self _)
      have hgone : s.engine handle ≠ .gone := by
        rw [hlive]
        exact nofun
      refine keeps_of_exchange (hs.setEngine hgone (Arc.retain_ne_gone hgone))
        (exchange_retain hlive) fun token => ?_
      simp [held, total]
  | drop => exact keeps_dropEngine hs hcovers rfl h
  | createStream =>
      unfold Shared.useEngine at h
      simp only at h
      split at h
      · next hkind =>
          cases h
          exact keeps_refl hs fun token => by simp [held, Creation.tokens, total, ← hkind]
      · cases h
  | generate text speed maxSamples =>
      unfold Shared.useEngine at h
      simp only at h
      split at h
      · next hkind =>
          split at h
          · cases h
            exact keeps_refl hs fun token => by simp [total]
          · cases h
            exact keeps_refl hs
              fun token => by simp [held, Owner.tokens, Retrieval.tokens, total, ← hkind]
      · cases h
  | _ => cases h

theorem keeps_useRuntime (htask : task = .runtime) (h : s.useRuntime event = some (t, next, left)) :
    Keeps s task t next left := by
  cases event with
  | clone =>
      cases h
      obtain ⟨others, hlive⟩ := api_live hcovers (by rw [htask]; exact List.mem_singleton_self _)
      have hgone : s.api ≠ .gone := by
        rw [hlive]
        exact nofun
      refine keeps_of_exchange (hs.setApi hgone (Arc.retain_ne_gone hgone))
        (exchange_retainApi hlive) fun token => ?_
      simp [held, htask, total]
  | openEngine kind threads result => exact keeps_openEngine hs hcovers htask h
  | drop => exact keeps_dropApi hs hcovers (by rw [htask, tokens_runtime]) h
  | _ => cases h

end Steps

theorem keeps_advance (hs : Consistent s) (hrooted : Rooted s) (hcovers : Covers s task)
    (h : advance event s task = some (t, next, left)) : Keeps s task t next left := by
  cases htask : task with
  | runtime =>
      rw [htask] at hcovers h
      exact keeps_useRuntime hs hcovers rfl h
  | engine handle =>
      rw [htask] at hcovers h
      exact keeps_useEngine hs hcovers rfl h
  | creating engine at' =>
      rw [htask] at hcovers h
      exact keeps_create hs hcovers rfl h
  | stream pointer engine finished =>
      rw [htask] at hcovers h
      exact keeps_useStream hs hcovers rfl h
  | decoding pointer engine finished at' =>
      rw [htask] at hcovers h
      exact keeps_decode hs hcovers rfl h
  | retrieving owner at' =>
      rw [htask] at hcovers h
      exact keeps_retrieve hs hcovers rfl h
  | dropping handle =>
      rw [htask] at hcovers h
      cases event with
      | proceed => exact keeps_dropEngine hs hcovers (tokens_dropping handle) h
      | _ => cases h
  | releasing =>
      rw [htask] at hcovers h
      cases event with
      | proceed => exact keeps_dropApi hs hcovers tokens_releasing h
      | _ => cases h
  | destroying handle =>
      rw [htask] at hcovers h
      cases event with
      | proceed =>
          cases h
          have hclosing := destroy_closing hcovers (List.mem_singleton_self _)
          have hnotGone : s.engine handle ≠ .gone := by
            rw [hclosing]
            exact nofun
          obtain ⟨hloaded, hengine⟩ := engine_loaded hs hcovers hnotGone
          have hstreams : ∀ stream ∈ s.heap.streams, (Kind.recognizer, stream.2) ≠ handle := by
            intro stream hstream hhandle
            have hrefs := hrooted.streams stream hstream
            rw [hhandle, hclosing] at hrefs
            exact hrefs rfl
          rw [call_of_legal
            (show s.heap.Legal (.destroyEngine handle) from ⟨hloaded, hengine, hstreams⟩)]
          have hset : Exchange { s with heap := s.heap.after (.destroyEngine handle) }
              (({ s with heap := s.heap.after (.destroyEngine handle) } : Shared).setEngine handle
                .gone) [] [.destroy handle] := by
            refine exchange_setEngine _ ?_ ?_ fun token _ hdestroy => ?_
            · simp [hclosing, Arc.refs]
            · simp [hclosing, Arc.closings]
            · simp [Ne.symm hdestroy]
          refine keeps_of_exchange ⟨hs.faults, fun other => ?_, hs.loaded⟩
            ((exchange_destroyEngine hengine).trans hset) fun token => ?_
          · by_cases hother : other = handle
            · subst hother
              have hcount := hs.engines other
              rw [hclosing, if_neg nofun] at hcount
              simp [Shared.setEngine, Heap.after, hcount]
            · simp only [Shared.setEngine, Heap.after, Function.update_of_ne hother,
                List.count_erase_of_ne hother]
              exact hs.engines other
          · simp only [held, tokens_releasing, tokens_destroying, total, List.append_nil,
              List.nil_append]
            omega
      | _ => cases h
  | unloading =>
      rw [htask] at hcovers h
      cases event with
      | proceed =>
          cases h
          have hclosing := unload_closing hcovers (List.mem_singleton_self _)
          have hengines : s.heap.engines = [] := by
            have hle := hcovers .api
            simp only [stock, owed, hclosing, Arc.refs] at hle
            exact List.length_eq_zero_iff.mp (by omega)
          have hnone (handle : Handle) : (s.engine handle).refs = 0 := by
            have hcount := hs.engines handle
            rw [hengines, List.count_nil] at hcount
            split at hcount
            · next hgone => rw [hgone]; rfl
            · cases hcount
          have hstreams : s.heap.streams = [] :=
            List.eq_nil_iff_forall_not_mem.mpr fun stream hstream =>
              hrooted.streams stream hstream (hnone _)
          have houtputs : s.heap.outputs = [] :=
            List.eq_nil_iff_forall_not_mem.mpr fun output houtput => by
            obtain ⟨handle, hrefs⟩ := hrooted.outputs output houtput
            exact hrefs (hnone handle)
          have hloaded : s.heap.loaded = true := hs.loaded.mpr (by rw [hclosing]; exact nofun)
          rw [call_of_legal
            (show s.heap.Legal .unload from ⟨hloaded, hengines, hstreams, houtputs⟩)]
          have hheap : Exchange s { s with heap := s.heap.after .unload } [] [] :=
            exchange_heap rfl (fun _ _ => rfl) (fun _ => rfl) fun _ _ _ _ => rfl
          have hset : Exchange { s with heap := s.heap.after .unload }
              (({ s with heap := s.heap.after .unload } : Shared).setApi .gone) [] [.unload] := by
            refine exchange_setApi _ ?_ ?_ fun token _ hunload => ?_
            · simp [hclosing, Arc.refs]
            · simp [hclosing, Arc.closings]
            · simp [Ne.symm hunload]
          refine keeps_of_exchange ⟨hs.faults, hs.engines, ?_⟩ (hheap.trans hset) fun token => ?_
          · simp [Shared.setApi, Heap.after]
          · simp [held, total]
      | _ => cases h
  | ended =>
      rw [htask] at h
      cases h

theorem exists_holder {processes : List Task} {token : Token}
    (h : 0 < total (held token) processes) : ∃ task ∈ processes, token ∈ task.tokens := by
  by_contra hnone
  have hzero : total (held token) processes = 0 := by
    refine total_eq_zero fun task htask => ?_
    by_contra hpos
    exact hnone ⟨task, htask, List.count_pos_iff.mp (Nat.pos_of_ne_zero hpos)⟩
  omega

/-- A stream or an output is in the hands of a task that also refers to an engine. -/
theorem ref_of_stream {task : Task} (h : .stream pointer engine ∈ task.tokens) :
    .ref (.recognizer, engine) ∈ task.tokens := by
  cases task with
  | creating handle at' => cases at' <;> simp_all [Creation.tokens]
  | stream => simp_all
  | decoding other handle finished at' => cases at' <;> simp_all [Decoding.tokens]
  | retrieving owner at' =>
      cases owner <;> cases at' <;> simp_all [Owner.tokens, Retrieval.tokens]
  | _ => simp at h

theorem ref_of_output {task : Task} {output : Handle} (h : .output output ∈ task.tokens) :
    ∃ handle, .ref handle ∈ task.tokens := by
  cases task with
  | retrieving owner at' => exact ⟨owner.handle, ref_owner owner at'⟩
  | creating handle at' => cases at' <;> simp [Creation.tokens] at h
  | decoding other handle finished at' => cases at' <;> simp [Decoding.tokens] at h
  | _ => simp at h

theorem refs_ne_zero {processes : List Task}
    (hbalance : ∀ token, stock token s + total (held token) processes = owed token s)
    {task : Task} (htask : task ∈ processes) (h : .ref handle ∈ task.tokens) :
    (s.engine handle).refs ≠ 0 := by
  have hcount := List.count_pos_iff.mpr h
  have hle := held_le_total (held (.ref handle)) htask
  have hb := hbalance (.ref handle)
  simp only [stock, owed] at hb
  simp only [held] at hle hb
  omega

theorem rooted_of_balance {processes : List Task}
    (hbalance : ∀ token, stock token s + total (held token) processes = owed token s) :
    Rooted s := by
  refine ⟨fun stream hstream => ?_, fun output houtput => ?_⟩
  · have hb := hbalance (.stream stream.1 stream.2)
    have hcount : 0 < s.heap.streams.count (stream.1, stream.2) := List.count_pos_iff.mpr hstream
    simp only [stock, owed] at hb
    have hheld : 0 < total (held (.stream stream.1 stream.2)) processes := by omega
    obtain ⟨task, htask, htoken⟩ := exists_holder hheld
    exact refs_ne_zero hbalance htask (ref_of_stream htoken)
  · have hb := hbalance (.output output)
    have hcount : 0 < s.heap.outputs.count output := List.count_pos_iff.mpr houtput
    simp only [stock, owed] at hb
    have hheld : 0 < total (held (.output output)) processes := by omega
    obtain ⟨task, htask, htoken⟩ := exists_holder hheld
    obtain ⟨handle, href⟩ := ref_of_output htoken
    exact ⟨handle, refs_ne_zero hbalance htask href⟩

theorem conserves : Conserves wrapper Consistent Rooted stock owed held where
  fresh _ := rfl
  environment move := move.elim
  settled _ _ _ hbalance := rooted_of_balance hbalance
  advance _ _ _ _ _ _ hs hrooted hcovers h := keeps_advance hs hrooted hcovers h

theorem accounted_start : Accounted Consistent stock owed held start := by
  refine ⟨⟨rfl, fun _ => rfl, by simp [start]⟩, fun token => ?_⟩
  cases token <;> rfl

/-- Whatever the threads do with the values of the crate, no call of the C API
breaks its contract; at most one thread is inside the lock of an engine; and once
all values are gone, so is everything behind them. -/
theorem native_handles_are_sound (labels : List (Label Empty Event)) (s : System Shared Task)
    (h : Runs wrapper.step start labels s) :
    s.shared.faults = [] ∧
    (∀ (i j : Nat) (task other : Task) (handle : Handle), s.processes[i]? = some task →
      s.processes[j]? = some other → .lock handle ∈ task.tokens → .lock handle ∈ other.tokens →
      i = j) ∧ ((∀ task ∈ s.processes, task = .ended) → s.shared.heap.Closed) := by
  have haccounted := conserves.runs accounted_start h
  refine ⟨haccounted.shared.faults, fun i j task other handle htask hother hlock hlock' => ?_,
    fun hended => ?_⟩
  · by_contra hij
    have htwo : held (.lock handle) task + held (.lock handle) other ≤
        total (held (.lock handle)) s.processes :=
      held_two_le_total hij htask hother
    have hpos := List.count_pos_iff.mpr hlock
    have hpos' := List.count_pos_iff.mpr hlock'
    have hb := haccounted.balance (.lock handle)
    have hle := Bool.toNat_le (s.shared.locked handle)
    simp only [stock, owed] at hb
    simp only [held] at htwo hb
    omega
  · have hzero (token : Token) : total (held token) s.processes = 0 := by
      refine total_eq_zero fun task htask => ?_
      rw [hended task htask]
      rfl
    have hrefs (handle : Handle) : (s.shared.engine handle).refs = 0 := by
      have hb := haccounted.balance (.ref handle)
      simp only [stock, owed, hzero] at hb
      omega
    have hengine (handle : Handle) : s.shared.engine handle = .gone := by
      have hb := haccounted.balance (.destroy handle)
      have hr := hrefs handle
      simp only [stock, owed, hzero] at hb
      cases harc : s.shared.engine handle with
      | gone => rfl
      | live others => rw [harc] at hr; cases hr
      | closing => rw [harc] at hb; cases hb
    have hengines : s.shared.heap.engines = [] :=
      List.eq_nil_iff_forall_not_mem.mpr fun handle hmem => by
      have hcount := haccounted.shared.engines handle
      have hpos := List.count_pos_iff.mpr hmem
      rw [if_pos (hengine handle)] at hcount
      omega
    have hrooted := rooted_of_balance haccounted.balance
    refine ⟨?_, hengines, ?_, ?_⟩
    · have hb := haccounted.balance .api
      have hb' := haccounted.balance .unload
      simp only [stock, owed, hzero, hengines, List.length_nil] at hb hb'
      have hgone : s.shared.api = .gone := by
        cases harc : s.shared.api with
        | gone => rfl
        | live others => rw [harc] at hb; cases hb
        | closing => rw [harc] at hb'; cases hb'
      by_contra hloaded
      exact haccounted.shared.loaded.mp (by simpa using hloaded) hgone
    · exact List.eq_nil_iff_forall_not_mem.mpr fun stream hmem =>
        hrooted.streams stream hmem (hrefs _)
    · refine List.eq_nil_iff_forall_not_mem.mpr fun output hmem => ?_
      obtain ⟨handle, hne⟩ := hrooted.outputs output hmem
      exact hne (hrefs handle)

/-- A recognizer outlives the runtime and its own handle until its last stream goes. -/
def outliving : List (Label Empty Event) :=
  [.process 0 (.openEngine .recognizer 1 (some 7)), .process 1 .createStream, .process 1 .proceed,
    .process 1 (.pointer (some 9)), .process 1 .proceed, .process 1 .proceed, .process 0 .drop,
      .process 1 .drop,
    .process 2 .drop, .process 2 .proceed, .process 2 .proceed, .process 2 .proceed,
      .process 2 .proceed]

theorem the_last_stream_closes_the_library :
    ∃ s, Runs wrapper.step start outliving s ∧ s.shared.faults = [] ∧ s.shared.heap.Closed := by
  have hends :
      (run wrapper.step start outliving).any
      (fun s => s.processes.all fun task => decide (task = .ended)) = true := by
    decide +kernel
  obtain ⟨s, hrun, hended⟩ := (Option.any_eq_true _ _).mp hends
  have hruns := runs_iff_run.mpr hrun
  obtain ⟨hfaults, -, hclosed⟩ := native_handles_are_sound _ _ hruns
  refine ⟨s, hruns, hfaults, hclosed fun task htask => ?_⟩
  exact of_decide_eq_true (List.all_eq_true.mp hended task htask)

end ImpossibleVoice.Native
