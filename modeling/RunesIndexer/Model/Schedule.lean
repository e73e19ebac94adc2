import RunesIndexer.Model.Canister

/-! # Messages

    The callback of `update_index` stops at every call, and until the reply arrives the
    canister executes other messages: calls of a controller, timers, and the replies that
    other callbacks wait for. A `Machine` is the canister with the callbacks that wait, and
    `Machine.step` executes one message from its first to its last instruction.

    The callback is cut where `index_block` begins and where it ends, so that it can be
    seen from outside which block is being indexed. `updateIndexIteration_run` and
    `Stage.reply_proc` say that the pieces are the callback.
-/

namespace RunesIndexer

open Resumption

/-! ### The callback in pieces -/

/-- What is left to do after `detect_reorg`, or when there is no block. -/
inductive Prepared where
  | index (height : Nat) (hash : BlockHash) (block : BlockData)
  | rollback (height depth : Nat)
  | unrecoverable
  | nothing

/-- What follows from the answer of `detect_reorg`. -/
def prepared (height : Nat) (hash : BlockHash) (block : BlockData) :
    Except ReorgError Unit → Prepared
  | .ok () => .index height hash block
  | .error (.recoverable height depth) => .rollback height depth
  | .error .unrecoverable => .unrecoverable
  | .error .retry => .nothing

/-- The callback up to the answer of `detect_reorg`. -/
def prepare (lib : Crates) (network : BitcoinNetwork) : AsyncM Prepared := do
  let (height, indexPrevBlockhash) ← gets (Store.nextBlock lib network)
  match ← Reorg.getBlockHash network height with
  | .ok (some blockHash) =>
    match ← Async.attempt (getBlock lib blockHash) with
    | .ok block =>
      let reorg ← Reorg.detectReorg lib network indexPrevBlockhash block.header.prevBlockhash
        height
      return prepared height blockHash block reorg
    | .error _ => return .nothing
  | .ok none => return .nothing
  | .error _ => return .nothing

/-- The callback from the end of `index_block` on. -/
def afterIndexBlock (timer : Timer) (height : Nat) (hash : BlockHash) (block : BlockData) :
    Except Error Unit → AsyncM Flow
  | .error _ => return .indexFailed
  | .ok () => do
    modify (Reorg.pruneChangeRecord timer.network height)
    notifySubscribers height hash block timer.subscribers
    rearmUnlessStopped

/-- The callback from the answer of `detect_reorg` on. -/
def carryOut (lib : Crates) (ord : HashOrder) (timer : Timer) : Prepared → AsyncM Flow
  | .index height hash block => do
    let indexed ← Async.attempt (indexBlock lib ord timer.network height block)
    afterIndexBlock timer height hash block indexed
  | .rollback height depth => do
    Reorg.handleReorg ord height depth
    rearmUnlessStopped
  | .unrecoverable => return .unrecoverable
  | .nothing => rearmUnlessStopped

/-- The pieces are the callback. -/
theorem updateIndexIteration_run (lib : Crates) (ord : HashOrder) (timer : Timer) (s : Store) :
    (updateIndexIteration lib ord timer.network timer.subscribers).run s =
      ((prepare lib timer.network).run s).bind fun p s' => (carryOut lib ord timer p).run s' := by
  unfold updateIndexIteration prepare
  simp only [Async.run_bind, Proc.bind_assoc]
  refine congrArg (Proc.bind _) (funext fun next => funext fun s₁ => ?_)
  refine congrArg (Proc.bind _) (funext fun reply => funext fun s₂ => ?_)
  rcases reply with e | hash
  · rfl
  · cases hash with
    | none => rfl
    | some hash =>
      simp only [Async.run_bind, Proc.bind_assoc]
      refine congrArg (Proc.bind _) (funext fun block => funext fun s₃ => ?_)
      cases block with
      | error e => rfl
      | ok block =>
        simp only [processBlock, Async.run_bind, Proc.bind_assoc]
        refine congrArg (Proc.bind _) (funext fun reorg => funext fun s₄ => ?_)
        rcases reorg with e | _
        · cases e <;> rfl
        · refine congrArg (Proc.bind _) (funext fun indexed => funext fun s₅ => ?_)
          cases indexed <;> rfl

/-! ### Segments -/

/-- A program that waits for the reply to `call`. -/
structure Waiting (α : Type) where
  call : Call
  resume : Reply call → Store → IndexProc α

/-- Such a program where `s` is committed. -/
def Waiting.proc {α : Type} (w : Waiting α) (s : Store) : IndexProc α := .await s w.call w.resume

/-- Where a callback that waits for a reply is. -/
inductive Stage where
  | preparing (w : Waiting Prepared)
  /-- In `index_block`. -/
  | indexing (height : Nat) (hash : BlockHash) (block : BlockData) (w : Waiting Unit)
  | finishing (w : Waiting Flow)

/-- What a segment does to the chain that is held. -/
inductive Effect where
  /-- `index_block` begins, in the state `s`. -/
  | begun (height : Nat) (block : BlockData) (s : Store)
  /-- `index_block` has returned `Ok`. -/
  | applied (block : BlockData)
  /-- `handle_reorg` has undone the blocks above `depth` blocks back. -/
  | undone (depth : Nat)

/-- How a segment ends. -/
inductive Ending where
  /-- It has committed `s` and waits for a reply. -/
  | waits (s : Store) (stage : Stage)
  /-- The callback has returned. -/
  | ended (s : Store) (flow : Flow)
  | failed (s : Store) (e : Error)
  | trapped (p : Panic)

/-- What a callback does between two calls. -/
structure AtomicSegment where
  effects : List Effect
  ending : Ending

/-- The effects that last: a trap undoes them. -/
def AtomicSegment.committed (segment : AtomicSegment) : List Effect :=
  match segment.ending with
  | .trapped _ => []
  | _ => segment.effects

/-- A segment after `index_block`. -/
def runFinishing : IndexProc Flow → Ending
  | .ok s flow => .ended s flow
  | .err s e => .failed s e
  | .trap p => .trapped p
  | .await s q k => .waits s (.finishing ⟨q, k⟩)

/-- A segment of `index_block`, and what follows it without a call in between. -/
def runIndexing (timer : Timer) (height : Nat) (hash : BlockHash) (block : BlockData) :
    IndexProc Unit → AtomicSegment
  | .ok s () => ⟨[.applied block],
      runFinishing ((afterIndexBlock timer height hash block (.ok ())).run s)⟩
  | .err s e => ⟨[], runFinishing ((afterIndexBlock timer height hash block (.error e)).run s)⟩
  | .trap p => ⟨[], .trapped p⟩
  | .await s q k => ⟨[], .waits s (.indexing height hash block ⟨q, k⟩)⟩

/-- A segment before `index_block`, and what follows it without a call in between. -/
def runPreparing (lib : Crates) (ord : HashOrder) (timer : Timer) :
    IndexProc Prepared → AtomicSegment
  | .ok s (.index height hash block) =>
    let segment := runIndexing timer height hash block
      ((indexBlock lib ord timer.network height block).run s)
    ⟨.begun height block s :: segment.effects, segment.ending⟩
  | .ok s (.rollback height depth) => ⟨[.undone depth],
      runFinishing ((carryOut lib ord timer (.rollback height depth)).run s)⟩
  | .ok s .unrecoverable => ⟨[], runFinishing ((carryOut lib ord timer .unrecoverable).run s)⟩
  | .ok s .nothing => ⟨[], runFinishing ((carryOut lib ord timer .nothing).run s)⟩
  | .err s e => ⟨[], .failed s e⟩
  | .trap p => ⟨[], .trapped p⟩
  | .await s q k => ⟨[], .waits s (.preparing ⟨q, k⟩)⟩

/-- The segment in which the awaited call gets the reply that `answers` has for it. -/
def Stage.reply (lib : Crates) (ord : HashOrder) (timer : Timer) (answers : (q : Call) → Reply q)
    (s : Store) : Stage → AtomicSegment
  | .preparing w => runPreparing lib ord timer (w.resume (answers w.call) s)
  | .indexing height hash block w =>
    runIndexing timer height hash block (w.resume (answers w.call) s)
  | .finishing w => ⟨[], runFinishing (w.resume (answers w.call) s)⟩

/-- What is left of the callback. -/
def Stage.proc (lib : Crates) (ord : HashOrder) (timer : Timer) (s : Store) :
    Stage → IndexProc Flow
  | .preparing w => (w.proc s).bind fun p s' => (carryOut lib ord timer p).run s'
  | .indexing height hash block w => (Async.attemptProc (w.proc s)).bind fun indexed s' =>
      (afterIndexBlock timer height hash block indexed).run s'
  | .finishing w => w.proc s

def Ending.proc (lib : Crates) (ord : HashOrder) (timer : Timer) : Ending → IndexProc Flow
  | .waits s stage => stage.proc lib ord timer s
  | .ended s flow => .ok s flow
  | .failed s e => .err s e
  | .trapped p => .trap p

/-- The program after the reply to the call it waits for. -/
def answered {α : Type} (answers : (q : Call) → Reply q) : IndexProc α → IndexProc α
  | .await s q k => k (answers q) s
  | p => p

section

variable (lib : Crates) (ord : HashOrder) (timer : Timer)

@[simp] theorem runFinishing_proc (p : IndexProc Flow) :
    (runFinishing p).proc lib ord timer = p := by
  cases p <;> rfl

theorem runIndexing_proc (height : Nat) (hash : BlockHash) (block : BlockData)
    (p : IndexProc Unit) :
    (runIndexing timer height hash block p).ending.proc lib ord timer =
      (Async.attemptProc p).bind fun indexed s =>
        (afterIndexBlock timer height hash block indexed).run s := by
  cases p with
  | ok s _ => exact runFinishing_proc lib ord timer _
  | err s e => rfl
  | trap p => rfl
  | await s q k => rfl

/-- The first segment is one of the callback. -/
theorem runPreparing_proc (p : IndexProc Prepared) :
    (runPreparing lib ord timer p).ending.proc lib ord timer =
      p.bind fun x s => (carryOut lib ord timer x).run s := by
  cases p with
  | ok s x =>
    cases x with
    | index height hash block => exact runIndexing_proc lib ord timer height hash block _
    | rollback height depth => exact runFinishing_proc lib ord timer _
    | unrecoverable => rfl
    | nothing => exact runFinishing_proc lib ord timer _
  | err s e => rfl
  | trap p => rfl
  | await s q k => rfl

/-- And so are the others. -/
theorem Stage.reply_proc (answers : (q : Call) → Reply q) (s : Store) (stage : Stage) :
    (stage.reply lib ord timer answers s).ending.proc lib ord timer =
      answered answers (stage.proc lib ord timer s) := by
  cases stage with
  | preparing w => exact runPreparing_proc lib ord timer _
  | indexing height hash block w => exact runIndexing_proc lib ord timer height hash block _
  | finishing w => exact runFinishing_proc lib ord timer _

end

/-! ### The machine -/

/-- A callback that waits for a reply. -/
structure Task where
  timer : Timer
  ord : HashOrder
  stage : Stage

structure Machine where
  canister : Canister
  tasks : List Task

/-- A message. A reply names the callback that gets it and the answers to its calls. -/
inductive Action where
  | start (isController : Bool)
  | stop (isController : Bool)
  | setBitcoinRpcUrl (isController : Bool) (url : String)
  | fire (i : Nat) (ord : HashOrder)
  | reply (i : Nat) (answers : (q : Call) → Reply q)

namespace Machine

/-- What a segment of a callback leaves. A trap undoes it and ends the callback. -/
def commit (m : Machine) (timer : Timer) (ord : HashOrder) : Ending → Machine
  | .waits s stage => ⟨{ m.canister with store := s }, m.tasks ++ [⟨timer, ord, stage⟩]⟩
  | .ended s flow =>
    let c := { m.canister with store := s }
    { m with canister :=
        if flow = .rearm then c.updateIndex timer.network timer.subscribers else c }
  | .failed s _ => { m with canister := { m.canister with store := s } }
  -- the timer or the task is gone all the same
  | .trapped _ => m

/-- The segment of a callback that a message executes. -/
def segment (lib : Crates) (m : Machine) : Action → Option AtomicSegment
  | .fire i ord => m.canister.timers[i]?.map fun timer =>
      runPreparing lib ord timer ((prepare lib timer.network).run m.canister.store)
  | .reply i answers => m.tasks[i]?.map fun task =>
      task.stage.reply lib task.ord task.timer answers m.canister.store
  | _ => none

/-- Execute a message. -/
def step (lib : Crates) (m : Machine) : Action → Machine
  | .start isController => { m with canister := (m.canister.start isController).2 }
  | .stop isController => { m with canister := (m.canister.stop isController).2 }
  | .setBitcoinRpcUrl isController url =>
    { m with canister := (m.canister.setBitcoinRpcUrl isController url).2 }
  | .fire i ord =>
    match m.canister.timers[i]? with
    | none => m
    | some timer =>
      let rest := { m with canister := { m.canister with timers := m.canister.timers.eraseIdx i } }
      rest.commit timer ord
        (runPreparing lib ord timer ((prepare lib timer.network).run m.canister.store)).ending
  | .reply i answers =>
    match m.tasks[i]? with
    | none => m
    | some task =>
      let rest := { m with tasks := m.tasks.eraseIdx i }
      rest.commit task.timer task.ord
        (task.stage.reply lib task.ord task.timer answers m.canister.store).ending

/-- What a message does to the chain that is held. -/
def effects (lib : Crates) (m : Machine) (a : Action) : List Effect :=
  match m.segment lib a with
  | none => []
  | some segment => segment.committed

end Machine

end RunesIndexer
