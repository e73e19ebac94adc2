import RunesIndexer.Model.Canister
import RunesIndexer.Spec.Numbers
import RunesIndexer.Spec.Since

/-! # Installations

    The states of a canister from its installation on: upgrades, the calls of a
    controller, and iterations of the loop that run from a timer to their end. Nothing
    but the indexing of blocks ever fills the rune maps, so the rune that `init_mainnet`
    would insert is in none of them.
-/

namespace RunesIndexer

open Resumption MonadicFold RuneUpdater

/-! ### States of an installation -/

/-- The states of a canister that was installed for `network`. Iterations run without
    interruption and end in one of the ways in `ends`. -/
inductive Installed (lib : Crates) (network : BitcoinNetwork) (ends : Flow → Prop) :
    Canister → Prop
  | init {config : Config} {c : Canister} (hnetwork : config.network = network)
      (installed : Canister.init (.init config) = .ok c) : Installed lib network ends c
  | start {c : Canister} (isController : Bool) (run : Installed lib network ends c) :
      Installed lib network ends (c.start isController).2
  | stop {c : Canister} (isController : Bool) (run : Installed lib network ends c) :
      Installed lib network ends (c.stop isController).2
  | setBitcoinRpcUrl {c : Canister} (isController : Bool) (url : String)
      (run : Installed lib network ends c) :
      Installed lib network ends (c.setBitcoinRpcUrl isController url).2
  | upgrade {c c' : Canister} {args : Option RunesIndexerArgs}
      (run : Installed lib network ends c) (upgraded : c.postUpgrade args = .ok c') :
      Installed lib network ends c'
  | iteration {c : Canister} {timer : Timer} {ord : HashOrder} {s : Store} {flow : Flow}
      (run : Installed lib network ends c) (armed : timer ∈ c.timers)
      (step : Proc.Runs Answers.any ((updateIndexIteration lib ord timer.network
        timer.subscribers).run c.store) (.ok s flow))
      (ended : ends flow) : Installed lib network ends (c.finish timer flow s)

namespace Canister

/-- The canister works for one network. -/
structure WorksFor (network : BitcoinNetwork) (c : Canister) : Prop where
  config : c.store.config.network = network
  timers : ∀ timer ∈ c.timers, timer.network = network

theorem WorksFor.updateIndex {network : BitcoinNetwork} {c : Canister} (h : c.WorksFor network)
    (subscribers : List Nat) : (c.updateIndex network subscribers).WorksFor network := by
  refine ⟨h.config, fun timer htimer => ?_⟩
  rcases List.mem_append.mp htimer with htimer | htimer
  · exact h.timers timer htimer
  · rw [List.mem_singleton.mp htimer]

@[simp] theorem finish_store (timer : Timer) (flow : Flow) (s : Store) (c : Canister) :
    (c.finish timer flow s).store = s := by
  unfold finish
  dsimp only
  split <;> rfl

theorem upgradeConfig_network (config : Config) (args : UpgradeArgs) :
    (upgradeConfig config args).network = config.network := by
  unfold upgradeConfig
  cases args.bitcoinRpcUrl <;> cases args.subscribers <;> rfl

/-- What an upgrade changes. -/
theorem postUpgrade_eq_ok {args : Option RunesIndexerArgs} {c c' : Canister}
    (h : c.postUpgrade args = .ok c') : ∃ config, config.network = c.store.config.network ∧
      c' = ⟨{ c.store with config := config, shuttingDown := false }, []⟩ := by
  unfold postUpgrade at h
  split at h
  · cases h
    exact ⟨_, upgradeConfig_network _ _, rfl⟩
  · cases h
    exact ⟨_, rfl, rfl⟩
  · cases h
    exact ⟨_, rfl, rfl⟩
  · cases h

end Canister

namespace Installed

variable {lib : Crates} {network : BitcoinNetwork} {ends : Flow → Prop} {c : Canister}

/-- Everything in the maps comes from the first height on. -/
theorem since (h : Installed lib network ends c) :
    c.WorksFor network ∧ c.store.Since network (lib.firstRuneHeight network) := by
  induction h with
  | init hnetwork installed =>
    cases installed
    subst hnetwork
    exact ⟨⟨rfl, fun timer htimer => absurd htimer List.not_mem_nil⟩, .empty _⟩
  | @start c isController run ih =>
    obtain ⟨hfor, hs⟩ := ih
    cases isController with
    | false => exact ⟨hfor, hs⟩
    | true =>
      refine ⟨?_, hs.control _ false hs.network⟩
      have hcancel : Canister.WorksFor network { c with store := c.store.cancelShutdown } :=
        ⟨hfor.config, hfor.timers⟩
      have hstart := hcancel.updateIndex c.store.config.subscribers
      rw [← hfor.config] at hstart ⊢
      exact hstart
  | stop isController run ih =>
    obtain ⟨hfor, hs⟩ := ih
    cases isController with
    | false => exact ⟨hfor, hs⟩
    | true =>
      exact ⟨⟨hfor.config, hfor.timers⟩, hs.control _ _ hs.network⟩
  | setBitcoinRpcUrl isController url run ih =>
    obtain ⟨hfor, hs⟩ := ih
    cases isController with
    | false => exact ⟨hfor, hs⟩
    | true =>
      exact ⟨⟨hfor.config, hfor.timers⟩, hs.control _ _ hs.network⟩
  | upgrade run upgraded ih =>
    obtain ⟨hfor, hs⟩ := ih
    obtain ⟨config, hconfig, rfl⟩ := Canister.postUpgrade_eq_ok upgraded
    refine ⟨⟨hconfig.trans hfor.config, fun timer htimer => absurd htimer List.not_mem_nil⟩, ?_⟩
    exact hs.control config false (hconfig.trans hs.network)
  | @iteration c timer ord s flow run armed step ended ih =>
    obtain ⟨hfor, hs⟩ := ih
    -- a timer carries the network it was armed for, which is still the configured one
    have htimer := hfor.timers timer armed
    have hfirst : lib.firstRuneHeight network ≤ lib.firstRuneHeight timer.network := by
      rw [htimer]
    have hkeeps := (updateIndexIteration_since lib ord hfirst timer.subscribers c.store hs).runs
      step
    refine ⟨?_, by rw [Canister.finish_store]; exact hkeeps.1⟩
    have herase : (⟨s, c.timers.erase timer⟩ : Canister).WorksFor network :=
      ⟨hkeeps.1.network, fun t ht => hfor.timers t (List.mem_of_mem_erase ht)⟩
    unfold Canister.finish
    dsimp only
    split
    · rw [htimer]
      exact herase.updateIndex timer.subscribers
    · exact herase

/-- Without a failed `index_block` the maps are those of a single loop. -/
theorem loopRun (h : Installed lib network ends c) (hends : ¬ ends .indexFailed) :
    ∃ top, LoopRun lib network top c.store := by
  induction h with
  | init hnetwork installed =>
    cases installed
    exact ⟨none, .control _ false (.init Config.default)⟩
  | start isController run ih =>
    obtain ⟨top, hrun⟩ := ih
    cases isController with
    | false => exact ⟨top, hrun⟩
    | true => exact ⟨top, .control _ false hrun⟩
  | stop isController run ih =>
    obtain ⟨top, hrun⟩ := ih
    cases isController with
    | false => exact ⟨top, hrun⟩
    | true => exact ⟨top, .control _ true hrun⟩
  | setBitcoinRpcUrl isController url run ih =>
    obtain ⟨top, hrun⟩ := ih
    cases isController with
    | false => exact ⟨top, hrun⟩
    | true => exact ⟨top, .control _ _ hrun⟩
  | upgrade run upgraded ih =>
    obtain ⟨top, hrun⟩ := ih
    obtain ⟨config, -, rfl⟩ := Canister.postUpgrade_eq_ok upgraded
    exact ⟨top, .control config false hrun⟩
  | iteration run armed step ended ih =>
    obtain ⟨top, hrun⟩ := ih
    -- the timer's network is the one of the run
    rw [run.since.1.timers _ armed] at step
    rw [Canister.finish_store]
    exact ⟨_, .iteration hrun step fun hflow => hends (hflow ▸ ended)⟩

end Installed

/-! ### The rune that is never inserted -/

/-- The rune of `init_mainnet` is in the maps. -/
structure Store.HasUncommonGoods (s : Store) : Prop where
  name : s.runeToRuneId.get? uncommonGoods = some uncommonGoodsId
  entry : (s.runeIdToRuneEntry.get? uncommonGoodsId).isSome
  etching : s.transactionIdToRune.get? Txid.allZeros = some uncommonGoods

/-- `init_mainnet` would insert it. -/
theorem initMainnet_hasUncommonGoods (s : Store) : s.initMainnet.HasUncommonGoods where
  name := FinMap.get?_insert_self _ _ _
  entry := by
    rw [show s.initMainnet.runeIdToRuneEntry.get? Store.uncommonGoodsId =
      some Store.uncommonGoodsEntry.reload from FinMap.get?_insert_self _ _ _]
    rfl
  etching := FinMap.get?_insert_self _ _ _

/-- Where `index_runes` comes to the mint of a transaction of `b`: the transactions before
    it are indexed on top of `s₀` and its inputs are taken. -/
def BeforeMint (lib : Crates) (network : BitcoinNetwork) (s₀ s : Store) (u : RuneUpdater) : Prop :=
  ∃ (ord : HashOrder) (b : BlockData) (k : Nat) (tx : Transaction) (txid : Txid) (s₁ : Store)
      (u₁ : RuneUpdater) (t : LotMap),
    b.txdata[k]? = some (tx, txid) ∧
    Proc.Runs Answers.any ((indexTransactions lib ord
      (RuneUpdater.new lib network (s₀.nextBlock lib network).1 b.header.time
        s₀.memStatisticRunes) 0 (b.txdata.take k)).run
      (startBlock (s₀.nextBlock lib network).1 s₀)) (.ok s₁ u₁) ∧
    (u₁.unallocated tx).run s₁ = .ok s (t, u)

theorem BeforeMint.since {lib : Crates} {network : BitcoinNetwork} {first : Nat} {s₀ s : Store}
    {u : RuneUpdater} (h : BeforeMint lib network s₀ s u)
    (hs : s₀.Since network first) (hfirst : first ≤ lib.firstRuneHeight network) :
    s.Since network first := by
  obtain ⟨ord, b, k, tx, txid, s₁, u₁, t, -, htxs, hinputs⟩ := h
  have hnew : (RuneUpdater.new lib network (s₀.nextBlock lib network).1 b.header.time
      s₀.memStatisticRunes).Since first :=
    ⟨hs.nextBlock hfirst, fun e he => absurd he List.not_mem_nil⟩
  have hstart : (startBlock (s₀.nextBlock lib network).1 s₀).Since network first :=
    ⟨hs.network, hs.headers, hs.entries, hs.names, hs.balances, hs.records⟩
  have hprefix := (indexTransactions_since lib ord (b.txdata.take k) hnew 0 _ hstart).runs htxs
  have hunallocated := unallocated_since hprefix.2 tx s₁ hprefix.1
  rw [hinputs] at hunallocated
  exact hunallocated.1

/-- A rune without an entry is not minted. -/
theorem indexMint_absent {s : Store} {id : RuneId} (h : s.runeIdToRuneEntry.get? id = none)
    (u : RuneUpdater) {artifact : Artifact} (hmint : artifact.mint = some id) (t : LotMap) :
    (u.indexMint artifact t).run s = .ok s (t, u) := by
  have hu : (u.mint id).run s = .ok s (none, u) := by
    unfold mint gets
    rw [Sync.run_gets_bind, show s.memGetRuneIdToRuneEntry id = none from h]
    rfl
  unfold indexMint
  rw [hmint]
  dsimp only
  rw [Sync.run_bind_of_ok hu]
  rfl

/-- No entry point calls `init_mainnet`. In every state of a mainnet canister the maps know
    nothing of its rune, no indexed transaction is credited for a mint of it, and the first
    rune of the held chain has number zero. -/
theorem Installed.no_uncommonGoods {lib : Crates} {ends : Flow → Prop} {c : Canister}
    (hfirst : Store.uncommonGoodsId.block < lib.firstRuneHeight .mainnet)
    (h : Installed lib .mainnet ends c) :
    ¬ c.store.HasUncommonGoods ∧
    c.store.runeIdToRuneEntry.get? Store.uncommonGoodsId = none ∧
    (∀ rune, c.store.runeToRuneId.get? rune ≠ some Store.uncommonGoodsId) ∧
    (∀ txid e, c.store.memGetEtching txid ≠ some (Store.uncommonGoodsId, e)) ∧
    (∀ s u artifact t, BeforeMint lib .mainnet c.store s u →
      artifact.mint = some Store.uncommonGoodsId →
      (u.indexMint artifact t).run s = .ok s (t, u)) ∧
    (∀ o l, c.store.outpointToRuneBalances.get? o = some l →
      ∀ b ∈ l, b.runeId ≠ Store.uncommonGoodsId) ∧
    (¬ ends .indexFailed → ∀ id e, c.store.runeIdToRuneEntry.get? id = some e →
      (∀ id' e', c.store.runeIdToRuneEntry.get? id' = some e' → ¬ id'.Precedes id) →
      e.number = 0) := by
  obtain ⟨-, hs⟩ := h.since
  -- an entry's block is at the first height or above, and the id's is below it
  have habsent : ∀ {s : Store}, s.Since .mainnet (lib.firstRuneHeight .mainnet) →
      s.runeIdToRuneEntry.get? Store.uncommonGoodsId = none := by
    intro s hs
    by_contra hne
    obtain ⟨e, he⟩ := Option.ne_none_iff_exists'.mp hne
    have := hs.entries _ e he
    omega
  refine ⟨fun hhas => ?_, habsent hs, fun rune hrune => ?_, fun txid e hetching => ?_,
    fun s u artifact t hbefore hmint => ?_, fun o l hl b hb hid => ?_,
    fun hends id e he hleast => ?_⟩
  · exact absurd (habsent hs) (Option.isSome_iff_ne_none.mp hhas.entry)
  · have := hs.names _ _ hrune
    omega
  · unfold Store.memGetEtching at hetching
    simp only [Option.bind_eq_some_iff, Option.map_eq_some_iff, Prod.mk.injEq] at hetching
    obtain ⟨rune, -, id, -, e', he', rfl, -⟩ := hetching
    rw [habsent hs] at he'
    cases he'
  · exact indexMint_absent (habsent (hbefore.since hs (le_refl _))) u hmint t
  · have := hs.balances o l hl b hb
    rw [hid] at this
    omega
  · obtain ⟨top, hrun⟩ := h.loopRun hends
    obtain ⟨done, hnumbered⟩ := Numbered.of_loopRun hrun
    exact hnumbered.first he hleast

namespace Sample

def mainnetConfig : Config := ⟨.mainnet, "", []⟩

/-- A node whose blocks have a transaction that mints the rune and one that etches another. -/
def minting : (q : Call) → Reply q
  | .innerGetBlock hash => (.ok { minedBlock (hash.toNat - 1) with
      txdata := [tx [] [2, 1, 0], tx [spend 9 0 []] [1]]
      txdataFits := by decide } : Except Error Block)
  | q => reply q

/-- Installed, started, and one block indexed. -/
theorem installed_exec {P : Store → Bool}
    (h : Result.returns (fun s flow => flow ≠ .indexFailed ∧ P s = true)
      (Proc.resultWith minting ((updateIndexIteration crates order .mainnet []).run
        ((Store.empty Config.default).memSetConfig mainnetConfig))) = true) :
    ∃ c, Installed crates .mainnet (· ≠ .indexFailed) c ∧ P c.store = true := by
  obtain ⟨s, flow, hresult, hs⟩ := Result.returns_iff.mp h
  obtain ⟨hflow, hP⟩ := of_decide_eq_true hs
  have hruns := runs_only minting ((updateIndexIteration crates order .mainnet []).run
    ((Store.empty Config.default).memSetConfig mainnetConfig))
  rw [hresult] at hruns
  have hinit := @Installed.init crates .mainnet (· ≠ .indexFailed) mainnetConfig _ rfl rfl
  have hstart := hinit.start true
  have harmed : (⟨.mainnet, []⟩ : Timer) ∈ (Canister.start true
      ⟨(Store.empty Config.default).memSetConfig mainnetConfig, []⟩).2.timers :=
    List.mem_cons_self
  have hrun := hstart.iteration harmed (hruns.mono fun _ _ _ => trivial) hflow
  exact ⟨_, hrun, by rw [Canister.finish_store]; exact hP⟩

end Sample

theorem Installed.no_uncommonGoods_sample :
    ∃ c, Installed Sample.crates .mainnet (· ≠ .indexFailed) c ∧
      (∀ rune, c.store.runeToRuneId.get? rune ≠ some Store.uncommonGoodsId) := by
  obtain ⟨c, hrun, -⟩ := Sample.installed_exec (P := fun _ => true) (by decide)
  exact ⟨c, hrun, (hrun.no_uncommonGoods (by decide)).2.2.1⟩

/-- At the first height a transaction mints the rune of `init_mainnet` and gets nothing, and
    the rune etched after it has number zero. -/
theorem Installed.without_uncommonGoods :
    ∃ c, Installed Sample.crates .mainnet (· ≠ .indexFailed) c ∧
      c.store.memLatestBlockHeight = some 840000 ∧
      Sample.crates.decipher (Sample.tx [] [2, 1, 0]) =
        some (.runestone ⟨[], none, some Store.uncommonGoodsId, none⟩) ∧
      ¬ c.store.HasUncommonGoods ∧
      c.store.outpointToRuneBalances.get? ⟨0, 1⟩ = none ∧
      (c.store.runeIdToRuneEntry.get? ⟨840000, 1⟩).map (·.number) = some 0 := by
  obtain ⟨c, hrun, hP⟩ := Sample.installed_exec (P := fun s =>
    s.memLatestBlockHeight = some 840000 ∧
      s.runeToRuneId.get? Store.uncommonGoods = none ∧
      s.outpointToRuneBalances.get? ⟨0, 1⟩ = none ∧
      (s.runeIdToRuneEntry.get? ⟨840000, 1⟩).map (·.number) = some 0) (by decide)
  obtain ⟨hheight, hname, hnothing, hnumber⟩ := of_decide_eq_true hP
  refine ⟨c, hrun, hheight, by decide, fun hhas => ?_, hnothing, hnumber⟩
  rw [hhas.name] at hname
  cases hname

end RunesIndexer
