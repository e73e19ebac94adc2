import RunesIndexer.Model.Schedule
import RunesIndexer.Spec.Install

/-! # Orders of messages

    A schedule executes messages in any order: calls of controllers, timers that fire and
    replies, which may say anything. What a schedule has done to the chain is its trace.
    In every order all timers and callbacks work for the network that was installed.
-/

namespace RunesIndexer

open Resumption

/-! ### Traces -/

/-- The chain after an effect. -/
def Effect.hold (chain : List BlockData) : Effect → List BlockData
  | .begun _ _ _ => chain
  | .applied block => chain ++ [block]
  | .undone depth => chain.take (chain.length - (depth - 1))

/-- The blocks applied and not undone. -/
def held (trace : List Effect) : List BlockData := trace.foldl Effect.hold []

def Effect.isBegun : Effect → Bool
  | .begun _ _ _ => true
  | _ => false

def Effect.isApplied : Effect → Bool
  | .applied _ => true
  | _ => false

/-- Every `index_block` that has begun has returned `Ok`. -/
def Complete (trace : List Effect) : Prop :=
  trace.countP Effect.isBegun = trace.countP Effect.isApplied

instance (trace : List Effect) : Decidable (Complete trace) :=
  inferInstanceAs (Decidable (_ = _))

@[simp] theorem held_append (trace : List Effect) (e : Effect) :
    held (trace ++ [e]) = e.hold (held trace) := by
  simp [held]

/-! ### Schedules -/

/-- What the messages of a schedule have done, and the machine they leave. Which messages
    may come next is a parameter. -/
inductive Scheduled (lib : Crates) (network : BitcoinNetwork)
    (may : List Effect → Machine → Action → Prop) : List Effect → Machine → Prop
  | init {config : Config} {c : Canister} (hnetwork : config.network = network)
      (installed : Canister.init (.init config) = .ok c) : Scheduled lib network may [] ⟨c, []⟩
  | step {trace : List Effect} {m : Machine} (a : Action)
      (run : Scheduled lib network may trace m) (allowed : may trace m a) :
      Scheduled lib network may (trace ++ m.effects lib a) (m.step lib a)

/-! ### Any order of messages -/

theorem prepare_maintains {I : Store → Prop} (lib : Crates) (network : BitcoinNetwork) :
    Async.Maintains I (fun _ => True) (prepare lib network) := by
  refine .bind (.lift (.gets (R := fun _ => True) fun _ _ => trivial)) fun next _ => ?_
  refine .bind (.call _) fun reply _ => ?_
  split
  · refine .bind (.attempt (getBlock_maintains lib _)) fun block _ => ?_
    split
    · refine .bind (Reorg.detectReorg_maintains lib network _ _ _) fun reorg _ => ?_
      exact .pure trivial
    · exact .pure trivial
  · exact .pure trivial
  · exact .pure trivial

/-- A callback that waits goes on as well from another state with `I`. -/
theorem Stage.maintains_moved {I : Store → Prop} {lib : Crates} {ord : HashOrder} {timer : Timer}
    {stage : Stage} {s t : Store} (ht : I t)
    (h : (stage.proc lib ord timer s).Maintains I fun _ => True) :
    (stage.proc lib ord timer t).Maintains I fun _ => True := by
  cases stage with
  | preparing w => exact ⟨ht, h.2⟩
  | indexing height hash block w => exact ⟨ht, h.2⟩
  | finishing w => exact ⟨ht, h.2⟩

/-- A segment of a callback leaves `I`. -/
theorem Stage.maintains_reply {I : Store → Prop} {lib : Crates} {ord : HashOrder} {timer : Timer}
    {stage : Stage} {s : Store} (hs : I s)
    (h : (stage.proc lib ord timer s).Maintains I fun _ => True)
    (answers : (q : Call) → Reply q) :
    ((stage.reply lib ord timer answers s).ending.proc lib ord timer).Maintains I
      fun _ => True := by
  rw [Stage.reply_proc]
  cases stage with
  | preparing w => exact h.2 _ s hs
  | indexing height hash block w => exact h.2 _ s hs
  | finishing w => exact h.2 _ s hs

/-- Every timer and every callback works for the network, above the first height. -/
structure Machine.WorksFor (lib : Crates) (network : BitcoinNetwork) (m : Machine) : Prop where
  canister : m.canister.WorksFor network
  since : m.canister.store.Since network (lib.firstRuneHeight network)
  timers : ∀ task ∈ m.tasks, task.timer.network = network
  tasks : ∀ task ∈ m.tasks,
    (task.stage.proc lib task.ord task.timer m.canister.store).Maintains
      (Store.Since network (lib.firstRuneHeight network)) fun _ => True

namespace Machine.WorksFor

variable {lib : Crates} {network : BitcoinNetwork} {m : Machine}

/-- Other maps that are above the first height too. -/
theorem store (h : m.WorksFor lib network) {s : Store}
    (hs : s.Since network (lib.firstRuneHeight network)) :
    Machine.WorksFor lib network { m with canister := { m.canister with store := s } } where
  canister := ⟨hs.network, h.canister.timers⟩
  since := hs
  timers := h.timers
  tasks task htask := Stage.maintains_moved hs (h.tasks task htask)

theorem updateIndex (h : m.WorksFor lib network) (subscribers : List Nat) :
    Machine.WorksFor lib network
      { m with canister := m.canister.updateIndex network subscribers } :=
  ⟨h.canister.updateIndex subscribers, h.since, h.timers, h.tasks⟩

theorem commit (h : m.WorksFor lib network) {timer : Timer} {ord : HashOrder}
    (htimer : timer.network = network) {ending : Ending}
    (hending : (ending.proc lib ord timer).Maintains
      (Store.Since network (lib.firstRuneHeight network)) fun _ => True) :
    (m.commit timer ord ending).WorksFor lib network := by
  -- a run that waits adds a task, one that ended may arm a timer
  cases ending with
  | waits s stage =>
    have hs : s.Since network (lib.firstRuneHeight network) := by
      cases stage <;> exact hending.1
    have hstore := h.store hs
    refine ⟨hstore.canister, hs, ?_, ?_⟩
    · intro task htask
      rcases List.mem_append.mp htask with htask | htask
      · exact h.timers task htask
      · rw [List.mem_singleton.mp htask]
        exact htimer
    · intro task htask
      rcases List.mem_append.mp htask with htask | htask
      · exact hstore.tasks task htask
      · rw [List.mem_singleton.mp htask]
        exact hending
  | ended s flow =>
    have hstore := h.store hending.1
    unfold Machine.commit
    dsimp only
    split
    · rw [htimer]
      exact hstore.updateIndex timer.subscribers
    · exact hstore
  | failed s e => exact h.store hending
  | trapped p => exact h

end Machine.WorksFor

/-- What no order of messages breaks. -/
theorem Scheduled.worksFor {lib : Crates} {network : BitcoinNetwork}
    {may : List Effect → Machine → Action → Prop} {trace : List Effect} {m : Machine}
    (h : Scheduled lib network may trace m) : m.WorksFor lib network := by
  induction h with
  | @init config c hnetwork installed =>
    cases installed
    subst hnetwork
    refine ⟨⟨rfl, ?_⟩, .empty _, ?_, ?_⟩
    · intro timer htimer
      exact absurd htimer List.not_mem_nil
    · intro task htask
      exact absurd htask List.not_mem_nil
    · intro task htask
      exact absurd htask List.not_mem_nil
  | @step trace m a run allowed ih =>
    have hs := ih.since
    cases a with
    | start isController =>
      cases isController with
      | false => exact ih
      | true =>
        have hstart := (ih.store (hs.control _ false hs.network)).updateIndex
          m.canister.store.config.subscribers
        rw [← hs.network] at hstart ⊢
        exact hstart
    | stop isController =>
      cases isController with
      | false => exact ih
      | true => exact ih.store (hs.control _ true hs.network)
    | setBitcoinRpcUrl isController url =>
      cases isController with
      | false => exact ih
      | true => exact ih.store (hs.control _ _ hs.network)
    | fire i ord =>
      unfold Machine.step
      dsimp only
      split
      · exact ih
      · next timer htimer =>
        have hmem := List.mem_of_getElem? htimer
        have hnetwork := ih.canister.timers timer hmem
        refine Machine.WorksFor.commit ?_ hnetwork ?_
        · refine ⟨⟨ih.canister.config, ?_⟩, hs, ih.timers, ih.tasks⟩
          intro t ht
          exact ih.canister.timers t (List.mem_of_mem_eraseIdx ht)
        -- the first segment is one of the whole callback, which keeps the maps above the first height
        · rw [runPreparing_proc, ← updateIndexIteration_run]
          exact updateIndexIteration_since lib ord (by rw [hnetwork]) timer.subscribers _ hs
    | reply i answers =>
      unfold Machine.step
      dsimp only
      split
      · exact ih
      · next task htask =>
        have hmem := List.mem_of_getElem? htask
        refine Machine.WorksFor.commit ?_ (ih.timers task hmem) ?_
        · refine ⟨ih.canister, hs, ?_, ?_⟩
          · intro t ht
            exact ih.timers t (List.mem_of_mem_eraseIdx ht)
          · intro t ht
            exact ih.tasks t (List.mem_of_mem_eraseIdx ht)
        · exact Stage.maintains_reply hs (ih.tasks task hmem) answers

end RunesIndexer
