import RunesIndexer.Spec.NoTrap
import RunesIndexer.Spec.Refinement

/-! # Every step completes in what the protocol says

    The refinement says what a completed step leaves behind; here nothing is assumed to
    complete. With a node that answers every call, and the calls about spent outputs as the
    chain has them, indexing the next block returns, in any iteration order, and so does every
    rollback. So every chain is indexed, and the store is what the protocol makes of it.
-/

namespace RunesIndexer

open Resumption MonadicFold RuneUpdater

/-- Answers as the chain has them are tame, and no call fails. -/
theorem ChainView.Reported.tame {view : ChainView} {ans : Answers} {height : Nat} {o : OutPoint}
    (h : view.Reported ans height o) (lib : Crates) :
    ans.Tame lib (fun _ => False) height o := by
  have hinfo : ∀ info, ans (.getRawTransactionInfo o.txid)
      (.ok info : Except Error RawTransaction) →
      info = ⟨o.txid, (view.outputs o.txid).map .ok, some (view.blockOf o.txid)⟩ := by
    intro info hans
    exact Except.ok.inj ((h.transaction _).mp hans)
  constructor
  · intro e he
    cases (h.transaction _).mp he
  · intro info hans
    rw [hinfo info hans]
    simpa using h.spent
  · intro info e hans herror
    rw [hinfo info hans] at herror
    simp at herror
  · intro info script hans _ _ hnone
    rw [hinfo info hans] at hnone
    cases hnone
  · intro info script hash hans _ _ hhash
    rw [hinfo info hans] at hhash
    cases hhash
    constructor
    · intro e he
      cases (h.header _).mp he
    · intro n hn
      rw [Except.ok.inj ((h.header _).mp hn)]
      exact h.below

/-- Fewer chains may be admitted. -/
theorem Run.mono {lib : Crates} {network : BitcoinNetwork} {node : Node}
    {admits admits' : List BlockData → Prop} {chain : List BlockData} {s : Store}
    (himp : ∀ chain, admits chain → admits' chain) (h : Run lib network node admits chain s) :
    Run lib network node admits' chain s := by
  induction h with
  | init config => exact .init config
  | index run admitted indexed ih => exact .index ih (himp _ admitted) indexed
  | reorg run detected undone ih => exact .reorg ih detected undone

section total

variable {lib : Crates} {network : BitcoinNetwork} {node : Node}
  {views : List BlockData → ChainView} {admits : List BlockData → Prop} {chain : List BlockData}
  {s : Store}

/-- The node reports whatever the next block asks about. -/
theorem Node.Reports.tame (hreports : node.Reports lib network views admits) {b : BlockData}
    (hadmits : admits (chain ++ [b])) {names : FinMap Rune RuneId} {minimum : Rune}
    {tx : Transaction × Txid} (htx : tx ∈ b.txdata) {o : OutPoint}
    (hasks : lib.Asks names minimum tx.1 o) :
    (node (chain ++ [b])).Tame lib (fun _ => False)
      (lib.firstRuneHeight network + chain.length) o := by
  obtain ⟨artifact, rune, hdec, hname, -, -, -, input, hinput, hreveals, rfl⟩ := hasks
  obtain ⟨i, hget⟩ := List.mem_iff_getElem?.mp htx
  have hlocated : (⟨⟨lib.firstRuneHeight network + chain.length, i⟩, tx.1, tx.2⟩ : Located) ∈
      b.located (lib.firstRuneHeight network + chain.length) := by
    unfold BlockData.located
    exact List.mem_map.mpr ⟨(tx, i), List.mem_zipIdx_iff_getElem?.mpr hget, rfl⟩
  exact (hreports chain b hadmits _ hlocated artifact rune hdec hname input hinput
    hreveals).tame lib

/-- However the calls are answered, the next block is indexed. -/
theorem Run.index_returns (hlib : lib.Lawful)
    (hdistinct : ∀ chain, admits chain → DistinctTxids chain)
    (hreports : node.Reports lib network views admits) (h : Run lib network node admits chain s)
    {b : BlockData} (hadmits : admits (chain ++ [b])) (ord : HashOrder)
    {r : Result Error Panic Store Unit}
    (hrun : Proc.Runs (node (chain ++ [b]))
      ((indexBlock lib ord network (s.nextBlock lib network).1 b).run s) r) :
    ∃ s', r = .ok s' () := by
  have hmono := h.mono hdistinct
  obtain ⟨lo, hwin⟩ := h.window
  obtain ⟨hflow, hplaced⟩ := hmono.conserved
  rw [hwin.nextBlock] at hrun
  have hsafe := indexBlock_safe hlib ord (hdistinct _ hadmits)
    (fun tx htx o hasks => hreports.tame hadmits htx hasks) hwin.rowsBelow hflow
    (hmono.bounded hlib) hmono.paired hplaced
  have hresult := hsafe.runs hrun
  cases r with
  | ok s' a => exact ⟨s', rfl⟩
  | err s' e => exact hresult.2.elim
  | trap p => exact hresult.elim

/-- So it can be indexed. -/
theorem Run.index_exists (hlib : lib.Lawful)
    (hdistinct : ∀ chain, admits chain → DistinctTxids chain)
    (hreports : node.Reports lib network views admits)
    (hanswers : ∀ chain q, ∃ reply, node chain q reply)
    (h : Run lib network node admits chain s) {b : BlockData} (hadmits : admits (chain ++ [b]))
    (ord : HashOrder) :
    ∃ s', Proc.Runs (node (chain ++ [b]))
      ((indexBlock lib ord network (s.nextBlock lib network).1 b).run s) (.ok s' ()) := by
  choose f hf using hanswers (chain ++ [b])
  have hrun := Proc.runs_resultWith hf
    ((indexBlock lib ord network (s.nextBlock lib network).1 b).run s)
  obtain ⟨s', hs'⟩ := h.index_returns hlib hdistinct hreports hadmits ord hrun
  rw [hs'] at hrun
  exact ⟨s', hrun⟩

/-- One block after the other. -/
theorem Run.reaches (hlib : lib.Lawful) (hdistinct : ∀ chain, admits chain → DistinctTxids chain)
    (hreports : node.Reports lib network views admits)
    (hanswers : ∀ chain q, ∃ reply, node chain q reply)
    (h : Run lib network node admits chain s) (ord : HashOrder) {rest : List BlockData}
    (hadmits : ∀ n < rest.length, admits (chain ++ rest.take (n + 1))) :
    ∃ s', Run lib network node admits (chain ++ rest) s' := by
  induction rest generalizing chain s with
  | nil =>
    rw [List.append_nil]
    exact ⟨s, h⟩
  | cons b rest ih =>
    have hfirst : admits (chain ++ [b]) := by simpa using hadmits 0 (by simp)
    obtain ⟨s₁, hrun⟩ := h.index_exists hlib hdistinct hreports hanswers hfirst ord
    have hrest := ih (.index h hfirst hrun) (fun n hn => by
      simpa using hadmits (n + 1) (by simpa using hn))
    rw [List.append_assoc, List.singleton_append] at hrest
    exact hrest

/-- From every state that a run reaches, with a node that answers every call, and those about
    spent outputs as the chain has them: the next block is indexed, whatever it is and in
    whatever order the maps are walked through, and nothing but the meaning of the longer chain
    comes of it; a rollback that is asked for goes through and leaves the meaning of the
    shorter chain; and any continuation of the chain is reached. -/
theorem Run.simulates (hlib : lib.Lawful) (hres : ReservedNames lib)
    (hdistinct : ∀ chain, admits chain → DistinctTxids chain)
    (hreports : node.Reports lib network views admits)
    (hanswers : ∀ chain q, ∃ reply, node chain q reply)
    (h : Run lib network node admits chain s) :
    (∀ b ord, admits (chain ++ [b]) →
      (∃ s', Proc.Runs (node (chain ++ [b]))
        ((indexBlock lib ord network (s.nextBlock lib network).1 b).run s) (.ok s' ())) ∧
      ∀ r, Proc.Runs (node (chain ++ [b]))
          ((indexBlock lib ord network (s.nextBlock lib network).1 b).run s) r →
        ∃ s', r = .ok s' () ∧
          (Reorg.pruneChangeRecord network (s.nextBlock lib network).1 s').Represents
            ((Protocol.after lib network views chain).steps lib network (views (chain ++ [b]))
              b.header.time (b.located (lib.firstRuneHeight network + chain.length)))) ∧
    (∀ prev height depth ord, Proc.Runs Answers.any ((Reorg.detectReorg lib network
        (s.nextBlock lib network).2 prev (s.nextBlock lib network).1).run s)
        (.ok s (.error (.recoverable height depth))) →
      ∃ s', (Reorg.handleReorg ord height depth).run s = .ok s' () ∧
        s'.Represents (Protocol.after lib network views
          (chain.take (chain.length - (depth - 1))))) ∧
    ∀ rest, (∀ n < rest.length, admits (chain ++ rest.take (n + 1))) →
      ∃ s', Run lib network node admits (chain ++ rest) s' ∧
        s'.Represents (Protocol.after lib network views (chain ++ rest)) := by
  have hrepresents : ∀ {chain s}, Run lib network node admits chain s →
      s.Represents (Protocol.after lib network views chain) := fun hrun =>
    (hrun.means hres hdistinct hreports).represents (hrun.reloaded hres hdistinct)
  refine ⟨fun b ord hadmits => ⟨?_, fun r hr => ?_⟩, fun prev height depth ord hdetect => ?_,
    fun rest hadmits => ?_⟩
  · exact h.index_exists hlib hdistinct hreports hanswers hadmits ord
  · obtain ⟨s', rfl⟩ := h.index_returns hlib hdistinct hreports hadmits ord hr
    have hnext := hrepresents (.index h hadmits hr)
    rw [Protocol.after_append] at hnext
    exact ⟨s', rfl, hnext⟩
  · -- the records of the entries alone are enough for the rollback to go through
    obtain ⟨lo, fs, -, hJ⟩ := h.journaled (p := .entries) fun _ _ => ⟨nofun, nofun⟩
    obtain ⟨s', hundone, -⟩ := hJ.detected (fun _ _ => ⟨nofun, nofun⟩) hdetect ord
    exact ⟨s', hundone, hrepresents (.reorg h hdetect hundone)⟩
  · -- any order will do
    obtain ⟨s', hrun⟩ := h.reaches hlib hdistinct hreports hanswers Sample.order hadmits
    exact ⟨s', hrun, hrepresents hrun⟩

end total

namespace Sample

/-- A mint on top of the chain in which a name is asked for. -/
def nextBlock : BlockData := block 7 8 [(tx [] [2, 0, 0], 8)] (by decide)

/-- A node that has replaced the block with the name and the one on top. -/
def renamed : (q : Call) → Reply q :=
  serving ((List.range 5).map minedBlock ++ [plainBlock 5 106 0, plainBlock 106 107 1])

end Sample

/-- After the chain in which a name is asked for three times: a block that mints, and the
    rollback of the block in which the name was free. -/
theorem Run.simulates_sample :
    ∃ s s₁ s₂ s₃, Run Sample.crates .regtest Sample.answers Sample.FirstOutputs
        Sample.namingChain s ∧
      s.runeToRuneId.get? Sample.name = some ⟨5, 0⟩ ∧
      Proc.Runs (Answers.only Sample.answer)
        ((indexBlock Sample.crates Sample.order .regtest 7 Sample.nextBlock).run s) (.ok s₁ ()) ∧
      (Reorg.pruneChangeRecord .regtest 7 s₁).Represents
        ((Protocol.after Sample.crates .regtest (fun _ => Sample.view) Sample.namingChain).steps
          Sample.crates .regtest Sample.view 0 (Sample.nextBlock.located 7)) ∧
      (Reorg.handleReorg Sample.order 7 3).run s = .ok s₂ () ∧
      s₂.Represents (Protocol.after Sample.crates .regtest (fun _ => Sample.view)
        (Sample.namingChain.take 5)) ∧
      Run Sample.crates .regtest Sample.answers Sample.FirstOutputs
        (Sample.namingChain ++ [Sample.nextBlock]) s₃ ∧
      s₃.Represents (Protocol.after Sample.crates .regtest (fun _ => Sample.view)
        (Sample.namingChain ++ [Sample.nextBlock])) := by
  obtain ⟨s, hrun, hP⟩ := Sample.naming_exec (P := fun s =>
    decide ((s.nextBlock Sample.crates .regtest).1 = 7 ∧
      s.runeToRuneId.get? Sample.name = some ⟨5, 0⟩) &&
    (((Reorg.detectReorg Sample.crates .regtest (s.nextBlock Sample.crates .regtest).2 107
      (s.nextBlock Sample.crates .regtest).1).run s).resultWith Sample.renamed).returns
        (fun _ x => Sample.asksFor 7 3 x)) (by decide +kernel)
  obtain ⟨hs, hasks⟩ := (Bool.and_eq_true _ _).mp hP
  obtain ⟨hnext, hname⟩ := of_decide_eq_true hs
  obtain ⟨s', x, hasks, hx⟩ := Result.returns_iff.mp hasks
  obtain ⟨hblocks, hrollback, hreaches⟩ := Run.simulates lawful_sample reservedNames_sample
    (fun _ hadmits => hadmits.1) Sample.answers_report (fun _ q => ⟨Sample.answer q, rfl⟩) hrun
  -- the next block
  have hadmits : Sample.FirstOutputs (Sample.namingChain ++ [Sample.nextBlock]) := by decide
  obtain ⟨⟨s₁, hindexed⟩, hends⟩ := hblocks Sample.nextBlock Sample.order hadmits
  obtain ⟨_, hs₁, hrepresents⟩ := hends _ hindexed
  cases hs₁
  rw [hnext] at hindexed hrepresents
  -- the rollback
  have hdetect := Proc.runs_resultWith (show ∀ q, Answers.any q (Sample.renamed q) from
    fun _ => trivial) ((Reorg.detectReorg Sample.crates .regtest
      (s.nextBlock Sample.crates .regtest).2 107 (s.nextBlock Sample.crates .regtest).1).run s)
  rw [hasks] at hdetect
  obtain rfl := (Reorg.detectReorg_readOnly _ _ _ _ _).ok hdetect
  obtain rfl := Sample.asksFor_iff.mp hx
  obtain ⟨s₂, hundone, hshorter⟩ := hrollback 107 7 3 Sample.order hdetect
  -- the longer chain
  obtain ⟨s₃, hrun₃, hlonger⟩ := hreaches [Sample.nextBlock] fun n hn => by
    obtain rfl : n = 0 := Nat.lt_one_iff.mp hn
    exact hadmits
  exact ⟨_, s₁, s₂, s₃, hrun, hname, hindexed, hrepresents, hundone, hshorter, hrun₃, hlonger⟩

end RunesIndexer
