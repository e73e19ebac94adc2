import RunesIndexer.Lib.Mirror
import RunesIndexer.Spec.Fork
import RunesIndexer.Spec.MidBlock

/-! # What a subscriber knows

    A subscriber is told about each block that is indexed and about no rollback. It is told
    once: a notification that it rejects is lost. When it gets them all and drops, with each
    of them, what it had from that height on, it holds the chain of the index, and beyond its
    tip only blocks that a rollback has taken away since.
-/

namespace RunesIndexer

open Resumption Mirror

/-! ### What is received -/

/-- The notification that a call delivers, unless it is rejected. -/
def receivedBy : (q : Call) → Reply q → Option Notification
  | .newBlockDetected subscriber height hash time txids, (reply : Except Error Unit) =>
    match reply with
    | .ok () => some ⟨subscriber, height, hash, time, txids⟩
    | .error _ => none
  | _, _ => none

/-- The notifications that are received, in their order. -/
def received (l : Calls) : List Notification := l.filterMap fun x => receivedBy x.1 x.2

/-- The subscriber rejects no notification. -/
def Answers.Delivers (ans : Answers) (subscriber : Nat) : Prop :=
  ∀ height hash time txids e, ¬ ans (.newBlockDetected subscriber height hash time txids)
    (.error e : Except Error Unit)

/-- A subscriber that rejects nothing receives what it is sent. -/
theorem filter_received {ans : Answers} {subscriber : Nat} (hdelivers : ans.Delivers subscriber)
    {l : Calls} (hl : ∀ x ∈ l, ans x.1 x.2) :
    (received l).filter (fun n => n.subscriber = subscriber) =
      (notifications l).filter fun n => n.subscriber = subscriber := by
  induction l with
  | nil => rfl
  | cons x l ih =>
    obtain ⟨q, reply⟩ := x
    have hrest := ih fun y hy => hl y (List.mem_cons_of_mem _ hy)
    have hfirst := hl _ List.mem_cons_self
    cases q with
    | newBlockDetected subscriber' height hash time txids =>
      cases reply with
      | ok _ =>
        show (_ :: received l).filter _ = (_ :: notifications l).filter _
        rw [List.filter_cons, List.filter_cons, hrest]
      | error e =>
        -- it was another one that rejected it
        have hother : subscriber' ≠ subscriber := by
          rintro rfl
          exact hdelivers _ _ _ _ e hfirst
        show (received l).filter _ = (_ :: notifications l).filter _
        rw [hrest, List.filter_cons_of_neg (by simpa using hother)]
    | getBlockHash network height => exact hrest
    | innerGetBlock hash => exact hrest
    | getRawTransactionInfo txid => exact hrest
    | getBlockHeaderInfo hash => exact hrest

/-! ### Runs with their notifications -/

/-- Runs of a single loop as in `LoopRun`, with what one of its subscribers has received. -/
inductive NotifiedRun (lib : Crates) (network : BitcoinNetwork) (ans : Answers)
    (subscriber : Nat) : Option Nat → List Notification → Store → Prop
  | init (config : Config) : NotifiedRun lib network ans subscriber none [] (Store.empty config)
  | control {top : Option Nat} {log : List Notification} {s : Store} (config : Config)
      (flag : Bool) (run : NotifiedRun lib network ans subscriber top log s) :
      NotifiedRun lib network ans subscriber top log
        { s with config := config, shuttingDown := flag }
  | iteration {top : Option Nat} {log : List Notification} {s s' : Store} {ord : HashOrder}
      {subscribers : List Nat} {l : Calls} {flow : Flow}
      (run : NotifiedRun lib network ans subscriber top log s)
      (member : subscriber ∈ subscribers)
      (step : Proc.RunsVia ans ((updateIndexIteration lib ord network subscribers).run s) l
        (.ok s' flow))
      (indexed : flow ≠ .indexFailed) :
      NotifiedRun lib network ans subscriber (top.merge max s'.memLatestBlockHeight)
        (log ++ (received l).filter fun n => n.subscriber = subscriber) s'

/-- A notification as an announcement of its height. -/
def Notification.announced (n : Notification) : Nat × Notification := (n.height, n)

/-- The notifications of the blocks of a chain. -/
def announcements (lib : Crates) (subscriber : Nat) : Nat → List BlockData → List Notification
  | _, [] => []
  | height, b :: rest =>
    notificationOf height (lib.blockHash b.header) b subscriber ::
      announcements lib subscriber (height + 1) rest

section

variable {lib : Crates} {network : BitcoinNetwork} {ans : Answers} {subscriber : Nat}
  {top : Option Nat} {log : List Notification} {chain : List BlockData} {s : Store}

theorem getElem?_announcements (height i : Nat) (chain : List BlockData) :
    (announcements lib subscriber height chain)[i]? = (chain[i]?).map fun b =>
      notificationOf (height + i) (lib.blockHash b.header) b subscriber := by
  induction chain generalizing height i with
  | nil => rfl
  | cons b rest ih =>
    cases i with
    | zero => rfl
    | succ i =>
      rw [announcements, List.getElem?_cons_succ, List.getElem?_cons_succ, ih]
      rw [show height + 1 + i = height + (i + 1) by omega]

@[simp] theorem length_announcements (height : Nat) (chain : List BlockData) :
    (announcements lib subscriber height chain).length = chain.length := by
  induction chain generalizing height with
  | nil => rfl
  | cons b rest ih => rw [announcements, List.length_cons, ih, List.length_cons]

theorem announcements_concat (height : Nat) (chain : List BlockData) (b : BlockData) :
    announcements lib subscriber height (chain ++ [b]) =
      announcements lib subscriber height chain ++
        [notificationOf (height + chain.length) (lib.blockHash b.header) b subscriber] := by
  induction chain generalizing height with
  | nil => rfl
  | cons c rest ih =>
    rw [List.cons_append, announcements, ih, announcements, List.cons_append, List.length_cons,
      show height + 1 + rest.length = height + (rest.length + 1) by omega]

theorem announcements_take (height n : Nat) (chain : List BlockData) :
    announcements lib subscriber height (chain.take n) =
      (announcements lib subscriber height chain).take n := by
  refine List.ext_getElem? fun i => ?_
  rw [List.getElem?_take, getElem?_announcements, getElem?_announcements, List.getElem?_take]
  split
  · rfl
  · rfl

/-- What one subscriber gets of the notifications about a block. -/
theorem filter_notificationOf (height : Nat) (hash : BlockHash) (b : BlockData)
    (subscribers : List Nat) :
    (subscribers.map (notificationOf height hash b)).filter (fun n => n.subscriber = subscriber) =
      List.replicate (subscribers.count subscriber) (notificationOf height hash b subscriber) := by
  induction subscribers with
  | nil => rfl
  | cons x rest ih =>
    rw [List.map_cons, List.filter_cons, ih, List.count_cons]
    by_cases hx : x = subscriber
    · subst hx
      simp [notificationOf, List.replicate_succ]
    · simp [notificationOf, hx]

/-- A copy that follows the held chain follows it after an iteration. -/
theorem Moved.follows {subscribers : List Nat} {l : List Notification} {chain' : List BlockData}
    (h : Moved lib network subscribers ans chain l chain') (hmem : subscriber ∈ subscribers)
    (hfollows : Follows (lib.firstRuneHeight network)
      (announcements lib subscriber (lib.firstRuneHeight network) chain)
      (log.map Notification.announced)) :
    Follows (lib.firstRuneHeight network)
      (announcements lib subscriber (lib.firstRuneHeight network) chain')
      ((log ++ l.filter fun n => n.subscriber = subscriber).map Notification.announced) := by
  cases h with
  | kept =>
    rw [List.filter_nil, List.append_nil]
    exact hfollows
  | @grown b told fetched =>
    obtain ⟨n, hn⟩ := Nat.exists_eq_succ_of_ne_zero (List.count_pos_iff.mpr hmem).ne'
    rw [filter_notificationOf, hn, List.map_append, List.map_replicate, announcements_concat]
    have hgrown := hfollows.announce (notificationOf
      (lib.firstRuneHeight network + chain.length) (lib.blockHash b.header) b subscriber) n
    rw [length_announcements] at hgrown
    exact hgrown
  | shortened n =>
    rw [List.filter_nil, List.append_nil, announcements_take]
    exact hfollows.take n

/-- A run with its notifications is a run of the loop. -/
theorem NotifiedRun.loopRun (h : NotifiedRun lib network ans subscriber top log s) :
    LoopRun lib network top s := by
  induction h with
  | init config => exact .init config
  | control config flag _ ih => exact .control config flag ih
  | iteration _ _ step indexed ih =>
    exact .iteration ih (step.runs.mono fun _ _ _ => trivial) indexed

/-- The copy of a subscriber follows the held chain over a whole run. -/
theorem NotifiedRun.follows (hdelivers : ans.Delivers subscriber)
    (h : NotifiedRun lib network ans subscriber top log s) :
    ∃ chain, LoopInvariant lib network top chain s ∧
      Follows (lib.firstRuneHeight network)
        (announcements lib subscriber (lib.firstRuneHeight network) chain)
        (log.map Notification.announced) := by
  induction h with
  | init config => exact ⟨[], .init lib network config, .nil _⟩
  | control config flag _ ih =>
    obtain ⟨chain, hinv, hfollows⟩ := ih
    exact ⟨chain, hinv.control config flag, hfollows⟩
  | iteration _ member step indexed ih =>
    obtain ⟨chain, hinv, hfollows⟩ := ih
    obtain ⟨chain', hinv', hmoved⟩ := hinv.moves (updateIndexIteration_step step) indexed
    rw [filter_received hdelivers step.answered]
    exact ⟨chain', hinv', hmoved.follows member hfollows⟩

/-! ### The copy and the index -/

/-- The copy of a subscriber that has received `log`. -/
def copyOf (log : List Notification) : Copy Notification := replay (log.map Notification.announced)

/-- The height after the last block that it was told about. -/
def told (lib : Crates) (network : BitcoinNetwork) (log : List Notification) : Nat :=
  reach (lib.firstRuneHeight network) (log.map Notification.announced)

/-- The copy of a subscriber agrees with the index. -/
structure Mirrors (lib : Crates) (network : BitcoinNetwork) (subscriber : Nat)
    (log : List Notification) (s : Store) : Prop where
  /-- It has every stored block, with its hash and its time. -/
  stored : ∀ height header, s.heightToBlockHeader.get? height = some header →
    ∃ txids, copyOf log height =
      some ⟨subscriber, height, lib.blockHash header, header.time, txids⟩
  /-- A stored block names the one that the copy has below it. -/
  linked : ∀ height header n, s.heightToBlockHeader.get? (height + 1) = some header →
    copyOf log height = some n → header.prevBlockhash = n.hash
  /-- It has a block at each height up to the last one it was told about, and no other. -/
  filled : ∀ height, (copyOf log height).isSome ↔
    lib.firstRuneHeight network ≤ height ∧ height < told lib network log
  /-- It is not behind. -/
  reached : ∀ tip, s.memLatestBlockHeight = some tip → tip < told lib network log

/-- Over every run in which a subscriber rejects nothing, its copy agrees with the index. -/
theorem NotifiedRun.mirrors (hdelivers : ans.Delivers subscriber)
    (h : NotifiedRun lib network ans subscriber top log s) :
    Mirrors lib network subscriber log s := by
  obtain ⟨chain, hinv, hfollows⟩ := h.follows hdelivers
  have hfirst := hinv.window.first_le
  -- what the copy has of a held block
  have hheld : ∀ i b, chain[i]? = some b →
      copyOf log (lib.firstRuneHeight network + i) = some (notificationOf
        (lib.firstRuneHeight network + i) (lib.blockHash b.header) b subscriber) := by
    intro i b hb
    refine hfollows.held i _ ?_
    rw [getElem?_announcements, hb]
    rfl
  refine ⟨fun height header hstored => ?_, fun height header n hstored hn => ?_, hfollows.filled,
    fun tip htip => ?_⟩
  · rw [hinv.window.headers] at hstored
    split at hstored
    · next hlo =>
      obtain ⟨b, hb, rfl⟩ := Option.map_eq_some_iff.mp hstored
      have hcopy := hheld _ b hb
      rw [Nat.add_sub_cancel' (le_trans hfirst hlo)] at hcopy
      exact ⟨b.txids, hcopy⟩
    · cases hstored
  · have hge := ((hfollows.filled height).mp (by rw [← copyOf, hn]; rfl)).1
    rw [hinv.window.headers] at hstored
    split at hstored
    · obtain ⟨b, hb, rfl⟩ := Option.map_eq_some_iff.mp hstored
      obtain ⟨hi, -⟩ := List.getElem?_eq_some_iff.mp hb
      rw [Nat.sub_add_comm hge] at hb hi
      have ha := List.getElem?_eq_getElem (show height - lib.firstRuneHeight network <
        chain.length by omega)
      have hcopy := hheld _ _ ha
      rw [Nat.add_sub_cancel' hge, hn] at hcopy
      cases hcopy
      exact hinv.linked.get ha hb
    · cases hstored
  · have hreached := hfollows.reached
    rw [length_announcements] at hreached
    rw [hinv.window.latestHeight] at htip
    split at htip
    · cases htip
    · next hne =>
      cases htip
      have hpos := List.length_pos_iff.mpr hne
      unfold told
      omega

end

/-- Execute iterations, the calls answered by `f`, with what `subscriber` receives. -/
def notifiedExec (lib : Crates) (ord : HashOrder) (network : BitcoinNetwork)
    (f : (q : Call) → Reply q) (subscribers : List Nat) (subscriber : Nat) :
    Nat → Option Nat × List Notification × Store → Option (Option Nat × List Notification × Store)
  | 0, x => some x
  | n + 1, (top, log, s) =>
    match ((updateIndexIteration lib ord network subscribers).run s).resultWith f with
    | .ok s' flow =>
      if flow = .indexFailed then none
      else notifiedExec lib ord network f subscribers subscriber n
        (top.merge max s'.memLatestBlockHeight,
          log ++ (received (((updateIndexIteration lib ord network subscribers).run s).callsWith
            f)).filter (fun n => n.subscriber = subscriber), s')
    | _ => none

theorem notifiedRun_of_exec {lib : Crates} {ord : HashOrder} {network : BitcoinNetwork}
    {ans : Answers} {f : (q : Call) → Reply q} (hf : ∀ q, ans q (f q)) {subscribers : List Nat}
    {subscriber : Nat} (hmem : subscriber ∈ subscribers) {n : Nat} {top top' : Option Nat}
    {log log' : List Notification} {s s' : Store}
    (h : NotifiedRun lib network ans subscriber top log s)
    (hexec : notifiedExec lib ord network f subscribers subscriber n (top, log, s) =
      some (top', log', s')) :
    NotifiedRun lib network ans subscriber top' log' s' := by
  induction n generalizing top log s with
  | zero =>
    cases hexec
    exact h
  | succ n ih =>
    unfold notifiedExec at hexec
    split at hexec
    · next s₁ flow hresult =>
      split at hexec
      · cases hexec
      · next hflow =>
        have hvia := Proc.runsVia_callsWith hf
          ((updateIndexIteration lib ord network subscribers).run s)
        rw [hresult] at hvia
        exact ih (.iteration h hmem hvia hflow) hexec
    · cases hexec

namespace Sample

/-- Nobody rejects a notification. -/
def delivers : Answers
  | .newBlockDetected .., (reply : Except Error Unit) => reply = .ok ()
  | _, _ => True

theorem delivers_serving (blocks : List Block) (q : Call) : delivers q (serving blocks q) := by
  cases q with
  | newBlockDetected subscriber height hash time txids => exact rfl
  | getBlockHash network height => trivial
  | innerGetBlock hash => trivial
  | getRawTransactionInfo txid => trivial
  | getBlockHeaderInfo hash => trivial

/-- Two iterations, and two more after the node has replaced the second block. -/
def notified : Option (Option Nat × List Notification × Store) :=
  (notifiedExec crates order .regtest (serving staleBlocks) [8, 7] 7 2
    (none, [], Store.empty config)).bind
      (notifiedExec crates order .regtest (serving servedBlocks) [7] 7 2)

end Sample

/-- Three notifications, the last of which replaces the second one. -/
theorem NotifiedRun.mirrors_sample :
    ∃ log s, NotifiedRun Sample.crates .regtest Sample.delivers 7 (some 1) log s ∧
      s.memLatestBlockHeight = some 1 ∧
      log.map (fun n => (n.height, n.hash)) = [(0, 1), (1, 2), (1, 3)] ∧
      Mirrors Sample.crates .regtest 7 log s := by
  obtain ⟨⟨top, log, s⟩, hexec, hP⟩ := (Option.any_eq_true _ _).mp
    (show Sample.notified.any (fun x => x.1 = some 1 ∧ x.2.2.memLatestBlockHeight = some 1 ∧
      x.2.1.map (fun n => (n.height, n.hash)) = [(0, 1), (1, 2), (1, 3)]) = true by decide +kernel)
  obtain ⟨rfl, htip, hlog⟩ := of_decide_eq_true hP
  obtain ⟨⟨top₁, log₁, s₁⟩, hfirst, hsecond⟩ := Option.bind_eq_some_iff.mp hexec
  have hrun : NotifiedRun Sample.crates .regtest Sample.delivers 7 (some 1) log s :=
    notifiedRun_of_exec (Sample.delivers_serving _) (by decide)
      (notifiedRun_of_exec (Sample.delivers_serving _) (by decide) (.init Sample.config) hfirst)
      hsecond
  have hdelivers : Sample.delivers.Delivers 7 := fun _ _ _ _ _ h => nomatch h
  exact ⟨log, s, hrun, htip, hlog, hrun.mirrors hdelivers⟩

section

variable {lib : Crates} {network : BitcoinNetwork} {ans : Answers} {top : Option Nat} {s : Store}

end

end RunesIndexer
