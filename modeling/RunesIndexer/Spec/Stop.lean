import RunesIndexer.Lib.Drain
import RunesIndexer.Spec.Frame
import RunesIndexer.Spec.SingleLoop

/-! # Stopping

    `stop` sets a flag, and nothing waits for the loops to see it. Each of them still
    carries its iteration to the end: it may index one more block or undo some, and then it
    does not arm its timer again. So after a stop that no `start` follows the loops run
    out, whatever the order of the messages and the contents of the replies, and then the
    maps stay as they are.
-/

namespace RunesIndexer

open Resumption

/-! ### Messages after a stop -/

/-- A controller calls `start`. -/
def Action.Starts : Action → Prop
  | .start isController => isController = true
  | _ => False

/-- The segment has indexed a block or undone some. -/
def Effect.isChange : Effect → Bool
  | .begun _ _ _ => false
  | .applied _ => true
  | .undone _ => true

namespace Machine

/-- The machine after the first `n` messages. -/
def after (lib : Crates) (m : Machine) (actions : Nat → Action) : Nat → Machine
  | 0 => m
  | n + 1 => (m.after lib actions n).step lib (actions n)

/-- What these messages do to the chain that is held. -/
def traceOf (lib : Crates) (m : Machine) (actions : Nat → Action) : Nat → List Effect
  | 0 => []
  | n + 1 => m.traceOf lib actions n ++ (m.after lib actions n).effects lib (actions n)

end Machine

/-! ### What a callback can still do -/

/-- A callback that has not begun or left `index_block` may still change the chain once. -/
def Stage.pending : Stage → Nat
  | .preparing _ => 1
  | .indexing _ _ _ _ => 1
  | .finishing _ => 0

def Ending.pending : Ending → Nat
  | .waits _ stage => stage.pending
  | .ended _ _ => 0
  | .failed _ _ => 0
  | .trapped _ => 0

/-- Every timer and every such callback. -/
def Machine.pending (m : Machine) : Nat :=
  m.canister.timers.length + (m.tasks.map fun task => task.stage.pending).sum

/-- What the segment did and what it leaves to do is at most `n` changes. -/
def AtomicSegment.Within (segment : AtomicSegment) (n : Nat) : Prop :=
  segment.effects.countP Effect.isChange + segment.ending.pending ≤ n

theorem runFinishing_pending (p : IndexProc Flow) : (runFinishing p).pending = 0 := by
  cases p <;> rfl

theorem runIndexing_within (timer : Timer) (height : Nat) (hash : BlockHash) (block : BlockData)
    (p : IndexProc Unit) : (runIndexing timer height hash block p).Within 1 := by
  unfold AtomicSegment.Within
  cases p with
  | ok s _ => simp [runIndexing, runFinishing_pending, Effect.isChange]
  | err s e => simp [runIndexing, runFinishing_pending]
  | trap p => simp [runIndexing, Ending.pending]
  | await s q k => simp [runIndexing, Ending.pending, Stage.pending]

theorem runPreparing_within (lib : Crates) (ord : HashOrder) (timer : Timer)
    (p : IndexProc Prepared) : (runPreparing lib ord timer p).Within 1 := by
  cases p with
  | ok s x =>
    cases x with
    | index height hash block =>
      have h := runIndexing_within timer height hash block
        ((indexBlock lib ord timer.network height block).run s)
      simpa [AtomicSegment.Within, runPreparing, Effect.isChange] using h
    | rollback height depth =>
      simp [AtomicSegment.Within, runPreparing, runFinishing_pending, Effect.isChange]
    | unrecoverable => simp [AtomicSegment.Within, runPreparing, runFinishing_pending]
    | nothing => simp [AtomicSegment.Within, runPreparing, runFinishing_pending]
  | err s e => simp [AtomicSegment.Within, runPreparing, Ending.pending]
  | trap p => simp [AtomicSegment.Within, runPreparing, Ending.pending]
  | await s q k => simp [AtomicSegment.Within, runPreparing, Ending.pending, Stage.pending]

theorem Stage.reply_within (lib : Crates) (ord : HashOrder) (timer : Timer)
    (answers : (q : Call) → Reply q) (s : Store) (stage : Stage) :
    (stage.reply lib ord timer answers s).Within stage.pending := by
  cases stage with
  | preparing w => exact runPreparing_within lib ord timer _
  | indexing height hash block w => exact runIndexing_within timer height hash block _
  | finishing w => simp [AtomicSegment.Within, Stage.reply, runFinishing_pending]

/-- A trap only takes effects back. -/
theorem AtomicSegment.Within.committed {segment : AtomicSegment} {n : Nat}
    (h : segment.Within n) :
    segment.committed.countP Effect.isChange + segment.ending.pending ≤ n := by
  unfold Within at h
  unfold AtomicSegment.committed
  split
  · simp only [List.countP_nil]
    omega
  · exact h

/-! ### Callbacks that heed the flag -/

/-- What is left of the callback heeds the flag, in whatever state it is resumed. -/
def Task.Heeds (lib : Crates) (task : Task) : Prop :=
  ∀ s : Store, (task.stage.proc lib task.ord task.timer s).Leaves Store.controls
    RunesIndexer.Heeds s.controls

/-- A callback that waits can wait in any state. -/
theorem Stage.leaves_moved {lib : Crates} {ord : HashOrder} {timer : Timer} {stage : Stage}
    {s : Store} {w : Config × Bool}
    (h : (stage.proc lib ord timer s).Leaves Store.controls Heeds w) (t : Store) :
    (stage.proc lib ord timer t).Leaves Store.controls Heeds t.controls := by
  cases stage with
  | preparing w => exact ⟨rfl, h.2⟩
  | indexing height hash block w => exact ⟨rfl, h.2⟩
  | finishing w => exact ⟨rfl, h.2⟩

/-- The segment that a reply executes. -/
theorem Task.Heeds.reply {lib : Crates} {task : Task} (h : task.Heeds lib)
    (answers : (q : Call) → Reply q) (s : Store) :
    ((task.stage.reply lib task.ord task.timer answers s).ending.proc lib task.ord
      task.timer).Leaves Store.controls RunesIndexer.Heeds s.controls := by
  have hs := h s
  rw [Stage.reply_proc]
  revert hs
  cases task.stage with
  | preparing w => exact fun hs => hs.2 _ s
  | indexing height hash block w => exact fun hs => hs.2 _ s
  | finishing w => exact fun hs => hs.2 _ s

/-- The segment that a timer executes. -/
theorem runPreparing_heeds (lib : Crates) (ord : HashOrder) (timer : Timer) (s : Store) :
    ((runPreparing lib ord timer ((prepare lib timer.network).run s)).ending.proc lib ord
      timer).Leaves Store.controls Heeds s.controls := by
  rw [runPreparing_proc, ← updateIndexIteration_run]
  exact updateIndexIteration_heeds lib ord timer.network timer.subscribers s

/-- The callback that a segment leaves waiting. -/
def Ending.left (timer : Timer) (ord : HashOrder) : Ending → List Task
  | .waits _ stage => [⟨timer, ord, stage⟩]
  | .ended _ _ => []
  | .failed _ _ => []
  | .trapped _ => []

namespace Ending

variable {lib : Crates} {timer : Timer} {ord : HashOrder} {ending : Ending}

theorem left_heeds {w : Config × Bool}
    (h : (ending.proc lib ord timer).Leaves Store.controls Heeds w) :
    ∀ task ∈ ending.left timer ord, task.Heeds lib := by
  intro task htask
  cases ending with
  | waits s stage =>
    obtain rfl := List.mem_singleton.mp htask
    exact fun t => Stage.leaves_moved h t
  | ended s flow => exact absurd htask List.not_mem_nil
  | failed s e => exact absurd htask List.not_mem_nil
  | trapped p => exact absurd htask List.not_mem_nil

theorem length_left_le (ending : Ending) (timer : Timer) (ord : HashOrder) :
    (ending.left timer ord).length ≤ 1 := by
  cases ending <;> simp [left]

theorem pending_left :
    ((ending.left timer ord).map fun task => task.stage.pending).sum = ending.pending := by
  cases ending <;> simp [left, pending]

end Ending

namespace Machine

theorem tasks_commit (m : Machine) (timer : Timer) (ord : HashOrder) (ending : Ending) :
    (m.commit timer ord ending).tasks = m.tasks ++ ending.left timer ord := by
  cases ending <;> simp [commit, Ending.left]

/-- Where a stop has been requested a segment arms no timer, and the request stays. -/
theorem commit_stopped {lib : Crates} {m : Machine} {timer : Timer} {ord : HashOrder}
    {ending : Ending} (hstop : m.canister.store.shuttingDown = true) {w : Config × Bool}
    (hw : w.2 = true) (h : (ending.proc lib ord timer).Leaves Store.controls Heeds w) :
    (m.commit timer ord ending).canister.timers = m.canister.timers ∧
      (m.commit timer ord ending).canister.store.shuttingDown = true := by
  have hflag : ∀ s : Store, s.controls = w → s.shuttingDown = true := by
    intro s hs
    rw [← hs] at hw
    exact hw
  cases ending with
  | waits s stage =>
    have hs : s.controls = w := by cases stage <;> exact h.1
    exact ⟨rfl, hflag s hs⟩
  | ended s flow =>
    obtain ⟨hs, hheeds⟩ := h
    have hflow : flow ≠ .rearm := hheeds (hflag s hs)
    simp [commit, hflow, hflag s hs]
  | failed s e => exact ⟨rfl, hflag s h⟩
  | trapped p => exact ⟨rfl, hstop⟩

/-- Every callback that waits heeds the flag. -/
def Heeding (lib : Crates) (m : Machine) : Prop := ∀ task ∈ m.tasks, task.Heeds lib

theorem Heeding.commit {lib : Crates} {m : Machine} (h : m.Heeding lib) {timer : Timer}
    {ord : HashOrder} {ending : Ending} {w : Config × Bool}
    (hending : (ending.proc lib ord timer).Leaves Store.controls Heeds w) :
    (m.commit timer ord ending).Heeding lib := by
  intro task htask
  rw [tasks_commit] at htask
  rcases List.mem_append.mp htask with htask | htask
  · exact h task htask
  · exact Ending.left_heeds hending task htask

/-- No message brings in a callback that does not. -/
theorem Heeding.step {lib : Crates} {m : Machine} (h : m.Heeding lib) (a : Action) :
    (m.step lib a).Heeding lib := by
  cases a with
  | start isController => exact h
  | stop isController => exact h
  | setBitcoinRpcUrl isController url => exact h
  | fire i ord =>
    unfold Machine.step
    dsimp only
    split
    · exact h
    · next timer htimer =>
      refine Heeding.commit ?_ (runPreparing_heeds lib ord timer m.canister.store)
      exact h
  | reply i answers =>
    unfold Machine.step
    dsimp only
    split
    · exact h
    · next task htask =>
      refine Heeding.commit ?_ ((h task (List.mem_of_getElem? htask)).reply answers _)
      intro t ht
      exact h t (List.mem_of_mem_eraseIdx ht)

end Machine

theorem Scheduled.heeding {lib : Crates} {network : BitcoinNetwork}
    {may : List Effect → Machine → Action → Prop} {trace : List Effect} {m : Machine}
    (h : Scheduled lib network may trace m) : m.Heeding lib := by
  induction h with
  | init _ installed =>
    intro task htask
    exact absurd htask List.not_mem_nil
  | step a run allowed ih => exact ih.step a

/-! ### The loops that are left -/

/-- What is left of the callback, wherever it is published. -/
def Task.rest (lib : Crates) (task : Task) : IndexProc Flow :=
  task.stage.proc lib task.ord task.timer (Store.empty Config.default)

/-- A callback, or a timer that will start one. -/
abbrev Loop : Type := Task ⊕ Timer

/-- Less is left to do: a callback is further on, and any is further on than a timer. -/
def Loop.Less (lib : Crates) : Loop → Loop → Prop :=
  Sum.Lex (InvImage Proc.Later (Task.rest lib)) fun _ _ => False

theorem Loop.less_wf (lib : Crates) : WellFounded (Loop.Less lib) :=
  Sum.lex_wf (InvImage.wf _ Proc.later_wf) ⟨fun _ => ⟨_, fun _ h => h.elim⟩⟩

def Machine.loops (m : Machine) : Multiset Loop :=
  (m.canister.timers : Multiset Timer).map Sum.inr + (m.tasks : Multiset Task).map Sum.inl

theorem Stage.proc_await (lib : Crates) (ord : HashOrder) (timer : Timer) (stage : Stage) :
    ∃ q k, ∀ s, stage.proc lib ord timer s = .await s q k := by
  cases stage with
  | preparing w => exact ⟨_, _, fun _ => rfl⟩
  | indexing height hash block w => exact ⟨_, _, fun _ => rfl⟩
  | finishing w => exact ⟨_, _, fun _ => rfl⟩

/-- A reply takes a callback further. -/
theorem Task.later_of_reply {lib : Crates} {task task' : Task} {answers : (q : Call) → Reply q}
    {s : Store} (h : task' ∈ (task.stage.reply lib task.ord task.timer answers s).ending.left
      task.timer task.ord) : Proc.Later (task'.rest lib) (task.rest lib) := by
  have hproc := task.stage.reply_proc lib task.ord task.timer answers s
  revert h hproc
  cases (task.stage.reply lib task.ord task.timer answers s).ending with
  | waits s' stage' =>
    intro h hproc
    obtain rfl := List.mem_singleton.mp h
    obtain ⟨q, k, hawait⟩ := task.stage.proc_await lib task.ord task.timer
    obtain ⟨q', k', hawait'⟩ := stage'.proc_await lib task.ord task.timer
    rw [hawait] at hproc
    unfold Task.rest
    rw [hawait, hawait']
    exact .mk (hproc.symm.trans (hawait' s'))
  | ended s' flow => exact fun h _ => absurd h List.not_mem_nil
  | failed s' e => exact fun h _ => absurd h List.not_mem_nil
  | trapped p => exact fun h _ => absurd h List.not_mem_nil

/-! ### One message after a stop -/

/-- What a message does to a machine with a pending stop that is not started again. -/
structure Machine.Winds (lib : Crates) (m : Machine) (a : Action) : Prop where
  flag : (m.step lib a).canister.store.shuttingDown = true
  timers : (m.step lib a).canister.timers.Sublist m.canister.timers
  count : (m.step lib a).canister.timers.length + (m.step lib a).tasks.length ≤
    m.canister.timers.length + m.tasks.length
  pending : (m.effects lib a).countP Effect.isChange + (m.step lib a).pending ≤ m.pending
  /-- It executes nothing of a loop, and the maps stay, or one loop has less left to do. -/
  loops : (m.segment lib a = none ∧ (m.step lib a).loops = m.loops ∧
      m.canister.store.SameMaps (m.step lib a).canister.store) ∨
    Relation.CutExpand (Loop.Less lib) (m.step lib a).loops m.loops

namespace Machine.Winds

variable {lib : Crates} {m : Machine}

/-- A message to which no loop answers. -/
theorem idle {a : Action} (hstop : (m.step lib a).canister.store.shuttingDown = true)
    (hsegment : m.segment lib a = none)
    (htimers : (m.step lib a).canister.timers = m.canister.timers)
    (htasks : (m.step lib a).tasks = m.tasks)
    (hmaps : m.canister.store.SameMaps (m.step lib a).canister.store) : m.Winds lib a where
  flag := hstop
  timers := htimers ▸ List.Sublist.refl _
  count := by rw [htimers, htasks]
  pending := by
    have heffects : m.effects lib a = [] := by
      unfold Machine.effects
      rw [hsegment]
    simp [heffects, Machine.pending, htimers, htasks]
  loops := .inl ⟨hsegment, by rw [Machine.loops, Machine.loops, htimers, htasks], hmaps⟩

/-- A message that takes a loop away, runs a segment of it and puts back what it leaves. -/
theorem of_segment {a : Action} (hstop : m.canister.store.shuttingDown = true) (rest : Machine)
    (timer : Timer) (ord : HashOrder) {segment : AtomicSegment} (loop : Loop) (n : Nat)
    (hsegment : m.segment lib a = some segment)
    (hstep : m.step lib a = rest.commit timer ord segment.ending)
    (hstore : rest.canister.store = m.canister.store)
    (htimers : rest.canister.timers.Sublist m.canister.timers)
    (hpending : rest.pending + n ≤ m.pending) (hwithin : segment.Within n)
    (hheeds : (segment.ending.proc lib ord timer).Leaves Store.controls Heeds
      m.canister.store.controls)
    (hloops : m.loops = loop ::ₘ rest.loops)
    (hless : ∀ task ∈ segment.ending.left timer ord, Loop.Less lib (.inl task) loop) :
    m.Winds lib a := by
  have heffects : m.effects lib a = segment.committed := by
    unfold Machine.effects
    rw [hsegment]
  have hrest : rest.canister.store.shuttingDown = true := by rw [hstore]; exact hstop
  obtain ⟨hcommit, hflag⟩ := commit_stopped hrest hstop hheeds
  have htasks := tasks_commit rest timer ord segment.ending
  have hleft := segment.ending.length_left_le timer ord
  have hcard : m.canister.timers.length + m.tasks.length =
      rest.canister.timers.length + rest.tasks.length + 1 := by
    have := congrArg Multiset.card hloops
    simpa [Machine.loops] using this
  constructor
  · rw [hstep]
    exact hflag
  · rw [hstep, hcommit]
    exact htimers
  · rw [hstep, hcommit, htasks, List.length_append]
    omega
  · have hcommitted := hwithin.committed
    unfold Machine.pending at hpending ⊢
    rw [hstep, heffects, hcommit, htasks, List.map_append, List.sum_append, Ending.pending_left]
    omega
  · right
    -- one loop gives way to what its segment leaves
    have hstepped : (m.step lib a).loops =
        rest.loops + (segment.ending.left timer ord : Multiset Task).map Sum.inl := by
      unfold Machine.loops
      rw [hstep, hcommit, htasks, ← Multiset.coe_add, Multiset.map_add, add_assoc]
    rw [hstepped, hloops]
    apply Drain.cutExpand_cons
    intro b hb
    obtain ⟨task, htask, rfl⟩ := Multiset.mem_map.mp hb
    exact hless task (Multiset.mem_coe.mp htask)

theorem fire (hstop : m.canister.store.shuttingDown = true) (i : Nat) (ord : HashOrder) :
    m.Winds lib (.fire i ord) := by
  cases htimer : m.canister.timers[i]? with
  | none =>
    have hstep : m.step lib (.fire i ord) = m := by simp [Machine.step, htimer]
    have hsegment : m.segment lib (.fire i ord) = none := by simp [Machine.segment, htimer]
    exact idle (by rw [hstep]; exact hstop) hsegment (by rw [hstep]) (by rw [hstep])
      (by rw [hstep]; exact Store.sameMaps_equivalence.refl _)
  | some timer =>
    have htimers := Drain.coe_eraseIdx htimer
    refine of_segment hstop
      { m with canister := { m.canister with timers := m.canister.timers.eraseIdx i } }
      timer ord (.inr timer) 1 (by rw [Machine.segment, htimer]; rfl)
      (by simp [Machine.step, htimer]) rfl (List.eraseIdx_sublist ..) ?_
      (runPreparing_within lib ord timer _) (runPreparing_heeds lib ord timer _) ?_ ?_
    · obtain ⟨hi, -⟩ := List.getElem?_eq_some_iff.mp htimer
      simp only [Machine.pending, List.length_eraseIdx_of_lt hi]
      omega
    · unfold Machine.loops
      rw [htimers, Multiset.map_cons, Multiset.cons_add]
    · exact fun task _ => .sep task timer

theorem reply (hstop : m.canister.store.shuttingDown = true) (hheeding : m.Heeding lib) (i : Nat)
    (answers : (q : Call) → Reply q) : m.Winds lib (.reply i answers) := by
  cases htask : m.tasks[i]? with
  | none =>
    have hstep : m.step lib (.reply i answers) = m := by simp [Machine.step, htask]
    have hsegment : m.segment lib (.reply i answers) = none := by simp [Machine.segment, htask]
    exact idle (by rw [hstep]; exact hstop) hsegment (by rw [hstep]) (by rw [hstep])
      (by rw [hstep]; exact Store.sameMaps_equivalence.refl _)
  | some task =>
    have htasks := Drain.coe_eraseIdx htask
    have hsum : (m.tasks.map fun task => task.stage.pending).sum =
        task.stage.pending + ((m.tasks.eraseIdx i).map fun task => task.stage.pending).sum := by
      have := congrArg (fun tasks => (tasks.map fun task : Task => task.stage.pending).sum) htasks
      simpa using this
    refine of_segment hstop { m with tasks := m.tasks.eraseIdx i } task.timer task.ord (.inl task)
      task.stage.pending (by rw [Machine.segment, htask]; rfl) (by simp [Machine.step, htask]) rfl
      (List.Sublist.refl _) ?_ (task.stage.reply_within lib task.ord task.timer answers _)
      ((hheeding task (List.mem_of_getElem? htask)).reply answers _) ?_ ?_
    · simp only [Machine.pending, hsum]
      omega
    · unfold Machine.loops
      rw [htasks, Multiset.map_cons, Multiset.add_cons]
    · intro task' htask'
      exact .inl (Task.later_of_reply htask')

end Machine.Winds

/-- Whatever the message is, as long as it is no `start` of a controller. -/
theorem Machine.Heeding.winds {lib : Crates} {m : Machine} (h : m.Heeding lib)
    (hstop : m.canister.store.shuttingDown = true) {a : Action} (ha : ¬ a.Starts) :
    m.Winds lib a := by
  cases a with
  | start isController =>
    cases isController with
    | false => exact .idle hstop rfl rfl rfl (Store.sameMaps_equivalence.refl _)
    | true => exact absurd rfl ha
  | stop isController =>
    cases isController with
    | false => exact .idle hstop rfl rfl rfl (Store.sameMaps_equivalence.refl _)
    | true => exact .idle rfl rfl rfl rfl ⟨_, true, rfl⟩
  | setBitcoinRpcUrl isController url =>
    cases isController with
    | false => exact .idle hstop rfl rfl rfl (Store.sameMaps_equivalence.refl _)
    | true => exact .idle hstop rfl rfl rfl ⟨_, _, rfl⟩
  | fire i ord => exact .fire hstop i ord
  | reply i answers => exact .reply hstop h i answers

/-! ### All messages after a stop -/

/-- Callbacks that wait, and timers that are set. -/
def Machine.loopCount (m : Machine) : Nat := m.canister.timers.length + m.tasks.length

theorem Machine.pending_le_loopCount (m : Machine) : m.pending ≤ m.loopCount := by
  have hsum : (m.tasks.map fun task => task.stage.pending).sum ≤
      (m.tasks.map fun _ => 1).sum := by
    apply List.sum_le_sum
    intro task _
    cases task.stage <;> simp [Stage.pending]
  rw [List.map_const', List.sum_replicate, smul_eq_mul, mul_one] at hsum
  unfold pending loopCount
  omega

section

variable {lib : Crates} {m : Machine} {actions : Nat → Action}

/-- What holds after any number of messages, the first of which find the flag set. -/
structure Machine.Stopped (lib : Crates) (m : Machine) (actions : Nat → Action) (n : Nat) :
    Prop where
  heeding : (m.after lib actions n).Heeding lib
  flag : (m.after lib actions n).canister.store.shuttingDown = true
  timers : (m.after lib actions n).canister.timers.Sublist m.canister.timers
  count : (m.after lib actions n).loopCount ≤ m.loopCount
  pending : (m.traceOf lib actions n).countP Effect.isChange + (m.after lib actions n).pending ≤
    m.pending

theorem Machine.Heeding.afterStop (h : m.Heeding lib)
    (hstop : m.canister.store.shuttingDown = true) (hstart : ∀ n, ¬ (actions n).Starts) (n : Nat) :
    m.Stopped lib actions n := by
  induction n with
  | zero => exact ⟨h, hstop, .refl _, le_refl _, by simp [Machine.traceOf, Machine.after]⟩
  | succ n ih =>
    have hwinds := ih.heeding.winds ih.flag (hstart n)
    have hcount := ih.count
    have hpending := ih.pending
    constructor
    · exact ih.heeding.step _
    · exact hwinds.flag
    · exact hwinds.timers.trans ih.timers
    · have := hwinds.count
      unfold Machine.loopCount at hcount ⊢
      simp only [Machine.after]
      omega
    · have := hwinds.pending
      simp only [Machine.traceOf, Machine.after, List.countP_append]
      omega

/-- From some message on no loop executes anything, and the maps stay. -/
theorem Machine.Heeding.settles (h : m.Heeding lib)
    (hstop : m.canister.store.shuttingDown = true) (hstart : ∀ n, ¬ (actions n).Starts) :
    ∃ n, ∀ k, n ≤ k → (m.after lib actions k).segment lib (actions k) = none ∧
      (m.after lib actions k).loops = (m.after lib actions n).loops ∧
      (m.after lib actions n).canister.store.SameMaps (m.after lib actions k).canister.store := by
  have hwinds : ∀ n, (m.after lib actions n).Winds lib (actions n) := by
    intro n
    have hstopped := h.afterStop hstop hstart n
    exact hstopped.heeding.winds hstopped.flag (hstart n)
  obtain ⟨n, hrest⟩ := Drain.cutExpand_stabilizes (Loop.less_wf lib)
    (fun n => (m.after lib actions n).loops) (by
      intro n
      rcases (hwinds n).loops with ⟨-, hloops, -⟩ | hcut
      · exact .inl hloops
      · exact .inr hcut)
  have hidle : ∀ k, n ≤ k → (m.after lib actions k).segment lib (actions k) = none ∧
      (m.after lib actions k).canister.store.SameMaps
        (m.after lib actions (k + 1)).canister.store := by
    intro k hk
    rcases (hwinds k).loops with ⟨hsegment, -, hmaps⟩ | hcut
    · exact ⟨hsegment, hmaps⟩
    · have hsame := (hrest (k + 1) (by omega)).trans (hrest k hk).symm
      exact absurd hsame (Drain.ne_of_cutExpand (Loop.less_wf lib) hcut)
  refine ⟨n, fun k hk => ⟨(hidle k hk).1, hrest k hk, ?_⟩⟩
  induction k, hk using Nat.le_induction with
  | base => exact Store.sameMaps_equivalence.refl _
  | succ k hk ih => exact Store.sameMaps_equivalence.trans ih (hidle k hk).2

end

/-- After a stop, and until a controller calls `start` again: no timer is ever set, there are
    never more loops than there were, and together they index a block or undo some at most
    once for each loop that had not got that far. -/
theorem Scheduled.stopped {lib : Crates} {network : BitcoinNetwork}
    {may : List Effect → Machine → Action → Prop} {trace : List Effect} {m : Machine}
    (h : Scheduled lib network may trace m) (hstop : m.canister.store.shuttingDown = true)
    {actions : Nat → Action} (hstart : ∀ n, ¬ (actions n).Starts) (n : Nat) :
    (m.after lib actions n).canister.store.shuttingDown = true ∧
    (m.after lib actions n).canister.timers.Sublist m.canister.timers ∧
    (m.after lib actions n).loopCount ≤ m.loopCount ∧
    (m.traceOf lib actions n).countP Effect.isChange + (m.after lib actions n).pending ≤
      m.pending ∧
    m.pending ≤ m.loopCount := by
  have hstopped := h.heeding.afterStop hstop hstart n
  exact ⟨hstopped.flag, hstopped.timers, hstopped.count, hstopped.pending, m.pending_le_loopCount⟩

namespace Sample

/-- A canister that was started and stopped again, before its timer fired. -/
def stoppedMachine : Machine :=
  (installed.step crates (.start true)).step crates (.stop true)

/-- The timer fires, and then the callback gets its replies. -/
def lastMessages : Nat → Action
  | 0 => .fire 0 order
  | _ + 1 => .reply 0 reply

theorem lastMessages_no_start (n : Nat) : ¬ (lastMessages n).Starts := by
  cases n <;> exact id

theorem stoppedMachine_scheduled :
    ∃ trace, Scheduled crates .regtest (fun _ _ _ => True) trace stoppedMachine :=
  ⟨_, ((Scheduled.init (c := installed.canister) rfl rfl).step (.start true) trivial).step
    (.stop true) trivial⟩

end Sample

/-- The loop indexes the block that it is told of, and that is all. -/
theorem Scheduled.stopped_sample :
    (Sample.stoppedMachine.traceOf Sample.crates Sample.lastMessages 3).countP Effect.isChange = 1 ∧
    ∀ n, (Sample.stoppedMachine.traceOf Sample.crates Sample.lastMessages n).countP
      Effect.isChange ≤ 1 := by
  obtain ⟨trace, hrun⟩ := Sample.stoppedMachine_scheduled
  have hpending : Sample.stoppedMachine.pending = 1 := rfl
  refine ⟨by decide, fun n => ?_⟩
  have h := (hrun.stopped rfl Sample.lastMessages_no_start n).2.2.2.1
  omega

namespace Sample

end Sample

end RunesIndexer
