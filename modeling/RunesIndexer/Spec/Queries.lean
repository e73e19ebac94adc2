import RunesIndexer.Spec.Retry

/-! # What queries see

    A query runs between two blocks, or while `index_block` waits for the node. While it
    waits, the header of the block is missing but the transactions before are done. The
    answers are those of one of the states around the block exactly when the block has
    been quiet so far.
-/

namespace RunesIndexer

open Resumption MonadicFold RuneUpdater

/-! ### Heights in the ledger -/

/-- What the ledger holds is from below height `n`, and no outpoint is empty. -/
structure Ledger.Dated (n : Nat) (L : Ledger) : Prop where
  entries : ∀ id e, L.entries.get? id = some e → e.block < n
  heights : ∀ o height, L.heights.get? o = some height → height < n
  held : ∀ o B, L.balances.get? o = some B → B ≠ 0

namespace Ledger.Dated

variable {n : Nat} {L L' : Ledger} {lib : Crates} {tx : Transaction} {txid : Txid}
  {t t' : LotMap} {u u' : RuneUpdater}

theorem mono {n' : Nat} (h : L.Dated n) (hle : n ≤ n') : L.Dated n' where
  entries id e he := (h.entries id e he).trans_le hle
  heights o height hh := (h.heights o height hh).trans_le hle
  held := h.held

theorem congr (h : L.Dated n) (hentries : L'.entries = L.entries)
    (hheights : L'.heights = L.heights) (hbalances : L'.balances = L.balances) : L'.Dated n :=
  ⟨hentries ▸ h.entries, hheights ▸ h.heights, hbalances ▸ h.held⟩

/-- An entry replaces one of the same block, or is of a block below `n`. -/
theorem insert (h : L.Dated n) {id : RuneId} {e : RuneEntry} (he : e.block < n) :
    ({ L with entries := L.entries.insert id e } : Ledger).Dated n := by
  refine ⟨fun id' e' he' => ?_, h.heights, h.held⟩
  dsimp only at he'
  rw [FinMap.get?_insert] at he'
  split at he'
  · cases he'
    exact he
  · exact h.entries id' e' he'

theorem spend (h : L.Dated n) {o : OutPoint} (hstep : Spend o (L, t, u) (L', t', u')) :
    L'.Dated n := by
  cases hstep with
  | absent _ => exact h
  | removed _ _ _ =>
    refine ⟨h.entries, fun o' height hh => ?_, fun o' B hB => ?_⟩
    · dsimp only at hh
      rw [FinMap.get?_erase] at hh
      split at hh
      · cases hh
      · exact h.heights o' height hh
    · dsimp only at hB
      rw [FinMap.get?_erase] at hB
      split at hB
      · cases hB
      · exact h.held o' B hB

theorem mint (h : L.Dated n) (hstep : Mint lib tx (L, t, u) (L', t', u')) : L'.Dated n := by
  cases hstep with
  | absent _ => exact h
  | refused _ _ _ => exact h
  | @minted _ _ _ _ _ id e _ _ _ he _ _ => exact h.insert (show e.block < n from h.entries id e he)

theorem etch {txIndex : Nat} {a : List LotMap} (h : L.Dated n) (hn : u.height < n)
    (hstep : Etch lib txIndex tx txid (L, t, u) a (L', t', u')) : L'.Dated n := by
  cases hstep with
  | plain _ => exact h
  | unetched _ _ => exact h
  | @etched _ _ _ _ _ _ _ entry _ _ _ _ hentry =>
    have hblock : entry.reload.block < n := by
      rw [show entry.reload.block = u.height from (newRuneEntry_eq_ok hentry).block]
      exact hn
    exact ⟨(h.insert hblock).entries, h.heights, h.held⟩

/-- A new outpoint has a balance. -/
theorem output {m : LotMap × Nat} (h : L.Dated n) (hn : u.height < n)
    (hstep : Output lib tx txid m (L, t, u) (L', t', u')) : L'.Dated n := by
  cases hstep with
  | nothing _ => exact h
  | burns _ _ _ => exact h
  | @created m vout _ _ _ _ ord site hsize _ _ =>
    refine ⟨h.entries, fun o height hh => ?_, fun o B hB => ?_⟩
    · dsimp only at hh
      rw [FinMap.get?_insert] at hh
      split at hh
      · cases hh
        exact hn
      · exact h.heights o height hh
    · dsimp only at hB
      rw [FinMap.get?_insert] at hB
      split at hB
      · cases hB
        intro hzero
        have hcard := congrArg Multiset.card hzero
        rw [Multiset.coe_card, List.length_map, Multiset.card_zero, ← Multiset.coe_card,
          ord.iter_perm site m] at hcard
        exact hsize hcard
      · exact h.held o B hB

theorem indexRunes {i : Nat} (h : L.Dated n) (hn : u.height < n)
    (hstep : TxPhases lib i tx txid L u L' u') : L'.Dated n := by
  refine (hstep.invariant (P := fun L u => u.height < n ∧ L.Dated n)
    (M := fun L u => u.height < n ∧ L.Dated n) (Q := fun L u => u.height < n ∧ L.Dated n)
    ?_ ?_ ?_ ?_ (fun _ _ _ h => h) ⟨hn, h⟩).2
  · intro input _ L t u L' t' u' hP hstep
    refine ⟨?_, hP.2.spend hstep⟩
    cases hstep <;> exact hP.1
  · intro L t u L' t' u' hP hstep
    refine ⟨?_, hP.2.mint hstep⟩
    cases hstep <;> exact hP.1
  · intro L t u a L' t' u' hP hstep
    refine ⟨?_, hP.2.etch hP.1 hstep⟩
    cases hstep <;> exact hP.1
  · intro output L b u L' b' u' hP hstep
    refine ⟨?_, hP.2.output hP.1 hstep⟩
    cases hstep <;> exact hP.1

end Ledger.Dated

/-- Between blocks everything is from below the next height. -/
theorem Run.dated {lib : Crates} {network : BitcoinNetwork} {node : Node}
    {chain : List BlockData} {s : Store} (h : Run lib network node DistinctTxids chain s) :
    s.ledger.Dated (lib.firstRuneHeight network + chain.length) := by
  refine h.invariant (p := .amounts)
    (P := fun chain L => L.Dated (lib.firstRuneHeight network + chain.length))
    (fun _ hd => ⟨fun _ => hd, nofun⟩) ?_ ?_ ?_
  · intro _ L L' hagrees hP
    exact hP.congr hagrees.entries.symm (hagrees.outpoints rfl).2.symm (hagrees.outpoints rfl).1.symm
  · refine ⟨fun id e he => ?_, fun o height hh => ?_, fun o B hB => ?_⟩
    · simp [Ledger.empty] at he
    · simp [Ledger.empty] at hh
    · simp [Ledger.empty] at hB
  · intro chain b ord s s' _ hrows hP hrun
    rw [List.length_append, List.length_singleton, ← Nat.add_assoc]
    refine indexBlock_invariant (Q := fun L => L.Dated (lib.firstRuneHeight network + chain.length + 1))
      (P := fun _ L _ => L.Dated (lib.firstRuneHeight network + chain.length + 1))
      hrows (hP.mono (Nat.le_succ _)) ?_ (fun _ _ hP => hP) ?_ hrun
    · intro i tx txid _ L u L' u' hu hP hstep
      exact hP.indexRunes (hu.symm ▸ Nat.lt_succ_self _) hstep
    · exact fun L id e k hP he => hP.insert (hP.entries id e he)

/-! ### Answers -/

/-- What a store holds can be written down. -/
structure Texts.Writes (texts : Texts) (s : Store) : Prop where
  ids : ∀ id, s.ledger.Known id → ∃ str, texts.parseRuneId str = some id
  outpoints : ∀ o, (s.ledger.balances.get? o).isSome → ∃ str, texts.parseOutPoint str = some o

/-- Nothing that a query can report is from after the latest block. -/
structure Store.UpToLatest (s : Store) : Prop where
  entries : ∀ id e, s.runeIdToRuneEntry.get? id = some e →
    ∃ cur, s.memLatestBlockHeight = some cur ∧ e.block ≤ cur
  outpoints : ∀ o height, (s.outpointToRuneBalances.get? o).isSome →
    s.outpointToHeight.get? o = some height →
    ∃ cur, s.memLatestBlockHeight = some cur ∧ height ≤ cur

namespace Query

variable {texts : Texts} {s s' : Store}

/-- The two states give the same answer to every query. -/
structure SameAnswers (texts : Texts) (s s' : Store) : Prop where
  etching : ∀ txid, getEtching texts txid s = getEtching texts txid s'
  rune : ∀ name, getRune texts name s = getRune texts name s'
  runeById : ∀ id, getRuneById texts id s = getRuneById texts id s'
  balances : ∀ outpoints, getRuneBalancesForOutputs texts outpoints s =
    getRuneBalancesForOutputs texts outpoints s'

theorem curHeight_of_latest {cur : Nat} (h : s.memLatestBlockHeight = some cur) :
    curHeight s = .ok cur := by
  unfold curHeight
  rw [h]

theorem getRuneById_none {str : String} {id : RuneId} (hstr : texts.parseRuneId str = some id)
    (h : s.runeIdToRuneEntry.get? id = none) : getRuneById texts str s = .ok none := by
  unfold getRuneById Store.memGetRuneIdToRuneEntry
  rw [hstr]
  dsimp only
  rw [h]
  rfl

theorem getRuneById_some {str : String} {id : RuneId} {e : RuneEntry} {cur : Nat}
    (hstr : texts.parseRuneId str = some id) (h : s.runeIdToRuneEntry.get? id = some e)
    (hcur : s.memLatestBlockHeight = some cur) :
    getRuneById texts str s = .ok (some (runeEntry texts cur str e)) := by
  unfold getRuneById Store.memGetRuneIdToRuneEntry
  rw [hstr]
  dsimp only
  rw [h]
  dsimp only
  rw [curHeight_of_latest hcur]
  rfl

/-- The query traps for a rune that was etched before there is a block. -/
theorem getRuneById_noBlock {str : String} {id : RuneId} {e : RuneEntry}
    (hstr : texts.parseRuneId str = some id) (h : s.runeIdToRuneEntry.get? id = some e)
    (hcur : s.memLatestBlockHeight = none) : getRuneById texts str s = .error .noBlock := by
  unfold getRuneById Store.memGetRuneIdToRuneEntry curHeight
  rw [hstr]
  dsimp only
  rw [h, hcur]
  rfl

/-- An answer about an id that both states hold. -/
theorem getRuneById_known {str : String} {id : RuneId} (hstr : texts.parseRuneId str = some id)
    (h : getRuneById texts str s = getRuneById texts str s') {e : RuneEntry}
    (he : s.runeIdToRuneEntry.get? id = some e) {cur' : Nat}
    (hcur' : s'.memLatestBlockHeight = some cur') :
    ∃ e' cur, s'.runeIdToRuneEntry.get? id = some e' ∧ s.memLatestBlockHeight = some cur ∧
      runeEntry texts cur str e = runeEntry texts cur' str e' := by
  rcases hcur : s.memLatestBlockHeight with _ | cur
  · rw [getRuneById_noBlock hstr he hcur] at h
    rcases he' : s'.runeIdToRuneEntry.get? id with _ | e'
    · rw [getRuneById_none hstr he'] at h
      cases h
    · rw [getRuneById_some hstr he' hcur'] at h
      cases h
  · rw [getRuneById_some hstr he hcur] at h
    rcases he' : s'.runeIdToRuneEntry.get? id with _ | e'
    · rw [getRuneById_none hstr he'] at h
      cases h
    · rw [getRuneById_some hstr he' hcur'] at h
      exact ⟨e', cur, rfl, rfl, Option.some.inj (Except.ok.inj h)⟩

theorem getRuneBalancesForOutputs_single {str : String} {cur : Nat}
    (hcur : s.memLatestBlockHeight = some cur) :
    getRuneBalancesForOutputs texts [str] s = .ok (.ok [pile texts s cur str]) := by
  unfold getRuneBalancesForOutputs
  rw [if_neg (show ¬ maxOutpoints < [str].length from (by decide : ¬ maxOutpoints < 1)),
    curHeight_of_latest hcur]
  rfl

theorem pile_eq_none {str : String} {o : OutPoint} {cur : Nat}
    (hstr : texts.parseOutPoint str = some o) (h : s.outpointToRuneBalances.get? o = none) :
    pile texts s cur str = none := by
  unfold pile Store.memGetOutpointToRuneBalances
  rw [hstr]
  dsimp only
  rw [h]

theorem pile_ne_none {str : String} {o : OutPoint} {cur height : Nat}
    (hstr : texts.parseOutPoint str = some o) (h : (s.outpointToRuneBalances.get? o).isSome)
    (hheight : s.outpointToHeight.get? o = some height) : pile texts s cur str ≠ none := by
  obtain ⟨l, hl⟩ := Option.isSome_iff_exists.mp h
  unfold pile Store.memGetOutpointToRuneBalances Store.memGetOutpointToHeight
  rw [hstr]
  dsimp only
  rw [hl]
  dsimp only
  rw [hheight]
  exact Option.some_ne_none _

/-! ### What equal answers tell -/

variable {height : Nat} {txids : List Txid}

/-- Where the answers are those from before the block, the ledger is no further. -/
theorem SameAnswers.back_of_before (h : SameAnswers texts s' s)
    (hgrows : Grows height txids s.ledger s'.ledger) (hset : Settled height txids s.ledger)
    (hup : s.UpToLatest) (hlatest : s'.memLatestBlockHeight = s.memLatestBlockHeight)
    (hpaired : s.ledger.Paired) (hw : texts.Writes s) (hw' : texts.Writes s') :
    Advances height txids s'.ledger s.ledger := by
  -- a rune of the new state is one of the old state
  have hold : ∀ id e', s'.runeIdToRuneEntry.get? id = some e' →
      ∃ e, s.runeIdToRuneEntry.get? id = some e ∧ e'.mints = e.mints := by
    intro id e' he'
    obtain ⟨str, hstr⟩ := hw'.ids id (by unfold Ledger.Known; exact he'.symm ▸ rfl)
    have hanswer := h.runeById str
    rcases he : s.runeIdToRuneEntry.get? id with _ | e
    · rw [getRuneById_none hstr he] at hanswer
      rcases hcur : s'.memLatestBlockHeight with _ | cur
      · rw [getRuneById_noBlock hstr he' hcur] at hanswer
        cases hanswer
      · rw [getRuneById_some hstr he' hcur] at hanswer
        cases hanswer
    · obtain ⟨cur, hcur, -⟩ := hup.entries id e he
      rw [getRuneById_some hstr he hcur, getRuneById_some hstr he' (hlatest.trans hcur)] at hanswer
      exact ⟨e, rfl, congrArg Interface.RuneEntry.mints (Option.some.inj (Except.ok.inj hanswer))⟩
  refine ⟨fun o _ hnone => ?_, fun id _ => ?_, ?_⟩
  · by_contra hsome
    have hsome := Option.isSome_iff_ne_none.mpr hsome
    obtain ⟨str, hstr⟩ := hw.outpoints o hsome
    obtain ⟨n, hn⟩ := Option.isSome_iff_exists.mp (hpaired o hsome)
    rw [Store.ledger_balances_get?, Option.isSome_map] at hsome
    obtain ⟨cur, hcur, -⟩ := hup.outpoints o n hsome hn
    have hanswer := h.balances [str]
    rw [getRuneBalancesForOutputs_single hcur,
      getRuneBalancesForOutputs_single (hlatest.trans hcur),
      pile_eq_none hstr (Store.ledger_balances_eq_none.mp hnone)] at hanswer
    have hpile := (List.cons.inj (Except.ok.inj (Except.ok.inj hanswer))).1
    exact pile_ne_none hstr hsome hn hpile.symm
  · rcases he' : s'.runeIdToRuneEntry.get? id with _ | e'
    · unfold Ledger.mintsOf
      rw [show s'.ledger.entries.get? id = none from he']
      exact Nat.zero_le _
    · obtain ⟨e, he, hmints⟩ := hold id e' he'
      rw [Ledger.mintsOf_of_get? (show s'.ledger.entries.get? id = some e' from he'),
        Ledger.mintsOf_of_get? (show s.ledger.entries.get? id = some e from he), hmints]
  · rcases hgrows.etched with heq | ⟨i, hi⟩
    · exact heq.le
    · obtain ⟨e', he'⟩ := Option.isSome_iff_exists.mp hi
      obtain ⟨e, he, -⟩ := hold _ e' he'
      have hlt := hset.entries ⟨height, i⟩ (by unfold Ledger.Known; exact he.symm ▸ rfl)
      exact absurd hlt (lt_irrefl _)

theorem confirmations_succ_ne (cur block : Nat) :
    confirmations cur block ≠ confirmations (cur + 1) block := by
  unfold confirmations
  omega

/-- Where they are those from after the block, there is no rune at all yet. -/
theorem SameAnswers.back_of_after {s₂ : Store} (h : SameAnswers texts s' s₂)
    (hgrows : Grows height txids s.ledger s'.ledger)
    (hheld : ∀ o B, s.ledger.balances.get? o = some B → ∃ id, s.ledger.Known id)
    (hlatest : ∀ cur, s'.memLatestBlockHeight = some cur → cur + 1 = height)
    (hlatest₂ : s₂.memLatestBlockHeight = some height) (hw' : texts.Writes s') :
    Advances height txids s'.ledger s.ledger := by
  have hno : ∀ id, ¬ s'.ledger.Known id := by
    intro id hid
    obtain ⟨str, hstr⟩ := hw'.ids id hid
    obtain ⟨e, he⟩ := Option.isSome_iff_exists.mp hid
    obtain ⟨e₂, cur, -, hcur, hsame⟩ := getRuneById_known hstr (h.runeById str) he hlatest₂
    -- the same block, but one confirmation more
    have hblock : e.block = e₂.block := congrArg Interface.RuneEntry.block hsame
    have hconf : confirmations cur e.block = confirmations height e₂.block :=
      congrArg Interface.RuneEntry.confirmations hsame
    rw [← hlatest cur hcur, hblock] at hconf
    exact confirmations_succ_ne cur e₂.block hconf
  refine ⟨fun o _ _ => ?_, fun id _ => ?_, ?_⟩
  · by_contra hsome
    obtain ⟨B, hB⟩ := Option.ne_none_iff_exists'.mp hsome
    obtain ⟨id, hid⟩ := hheld o B hB
    exact hno id (hgrows.known id hid)
  · have hnone : s'.ledger.entries.get? id = none := by
      by_contra hne
      exact hno id (Option.isSome_iff_ne_none.mpr hne)
    unfold Ledger.mintsOf
    rw [hnone]
    exact Nat.zero_le _
  · rcases hgrows.etched with heq | ⟨i, hi⟩
    · exact heq.le
    · exact absurd hi (hno _)

end Query

/-! ### Runs -/

section runs

variable {lib : Crates} {network : BitcoinNetwork} {node : Node} {chain : List BlockData}
  {s : Store}

theorem Run.upToLatest (h : Run lib network node DistinctTxids chain s) : s.UpToLatest := by
  obtain ⟨lo, hwin⟩ := h.window
  have hdated := h.dated
  obtain ⟨-, hplaced⟩ := h.conserved
  -- what is held comes from a block of the chain
  have hcur : ∀ {d}, d ∈ located (lib.firstRuneHeight network) chain →
      s.memLatestBlockHeight = some (lib.firstRuneHeight network + (chain.length - 1)) ∧
        0 < chain.length := by
    intro d hd
    have hne : chain ≠ [] := by
      intro hnil
      rw [hnil] at hd
      cases hd
    exact ⟨by rw [hwin.latestHeight, if_neg hne], List.length_pos_iff.mpr hne⟩
  refine ⟨fun id e he => ?_, fun o height ho hh => ?_⟩
  · obtain ⟨d, hd, -⟩ := hplaced.entries id (by unfold Ledger.Known; exact he.symm ▸ rfl)
    obtain ⟨hlatest, hpos⟩ := hcur hd
    have := hdated.entries id e he
    exact ⟨_, hlatest, by omega⟩
  · have ho : (s.ledger.balances.get? o).isSome := by
      rw [Store.ledger_balances_get?, Option.isSome_map]
      exact ho
    obtain ⟨d, hd, -⟩ := hplaced.outpoints o ho
    obtain ⟨hlatest, hpos⟩ := hcur hd
    have := hdated.heights o height hh
    exact ⟨_, hlatest, by omega⟩

/-- The latest block is the tip of the chain that the run holds. -/
theorem Run.getLatestBlock {admits : List BlockData → Prop} (print : BlockHash → String)
    (h : Run lib network node admits chain s) :
    (chain = [] → Query.getLatestBlock lib print s = .error .noBlock) ∧
    ∀ b, chain.getLast? = some b → Query.getLatestBlock lib print s =
      .ok (lib.firstRuneHeight network + (chain.length - 1), print (lib.blockHash b.header)) := by
  obtain ⟨lo, hwin⟩ := h.window
  unfold Query.getLatestBlock Store.memLatestBlock
  rw [hwin.last?_headers]
  constructor
  · intro hempty
    rw [hempty]
    rfl
  · intro b hb
    rw [hb]
    rfl

/-- Between blocks, queries are right: nothing they report is from after the latest block.
    While a block waits they answer as before or after it if and only if it has been quiet. -/
theorem Run.queries {b : BlockData} (texts : Texts) (hdistinct : DistinctTxids (chain ++ [b]))
    (h : Run lib network node DistinctTxids chain s) :
    s.UpToLatest ∧
    ∀ (ord : HashOrder) (ans : Answers) (s' : Store),
      Proc.Awaits ans ((indexBlock lib ord network (s.nextBlock lib network).1 b).run s) s' →
      (∃ k, StopsIn lib ord network (s.nextBlock lib network).1 b ans s k (.waiting s')) ∧
      ∀ k, StopsIn lib ord network (s.nextBlock lib network).1 b ans s k (.waiting s') →
        (Quiet lib network (s.nextBlock lib network).1 ans s b k →
          Query.SameAnswers texts s' s ∧ s'.UpToLatest) ∧
        ((∀ q a a', ans q a → ans q a' → a = a') → texts.Writes s → texts.Writes s' →
          (Query.SameAnswers texts s' s ∨ ∃ s₂,
            Proc.Runs ans ((indexBlock lib ord network (s.nextBlock lib network).1 b).run s)
              (.ok s₂ ()) ∧
            Query.SameAnswers texts s'
              (Reorg.pruneChangeRecord network (s.nextBlock lib network).1 s₂)) →
          Quiet lib network (s.nextBlock lib network).1 ans s b k) := by
  refine ⟨h.upToLatest, fun ord ans s' hwaits => ⟨indexBlock_stops (x := .waiting s') hwaits,
    fun k hk => ?_⟩⟩
  obtain ⟨lo, hwin⟩ := h.window
  have hpaired := h.paired
  have hset := h.settled hdistinct
  have hup := h.upToLatest
  rw [hwin.nextBlock] at hk hwaits ⊢
  dsimp only at hk hwaits ⊢
  have hrows := hwin.rowsBelow.upTo
  -- the header comes last, so while the block waits the latest one is as before
  have hlatest : s'.memLatestBlockHeight = s.memLatestBlockHeight := by
    have hheaders : s'.heightToBlockHeader = s.heightToBlockHeader :=
      hk.within.headers
    unfold Store.memLatestBlockHeight
    rw [hheaders]
  have hgrows : Grows _ b.txids s.ledger s'.ledger := hk.grows hrows hpaired
  constructor
  · intro hquiet
    have hstate : s' = startBlock _ s := hk.state_of_quiet (fun _ _ => .inl) hrows hpaired hquiet
    -- a quiet block has only copied the statistics rows so far, which no query reads
    rw [hstate]
    exact ⟨⟨fun _ => rfl, fun _ => rfl, fun _ => rfl, fun _ => rfl⟩, hup.entries, hup.outpoints⟩
  · intro hfun hw hw' hsame
    refine hk.quiet_of_back hfun (fun _ _ => .inl) hrows hpaired hset ?_
    -- an answer of before or of after leaves no room for a change in between
    rcases hsame with hsame | ⟨s₂, hindexed, hsame⟩
    · exact hsame.back_of_before hgrows hset hup hlatest hpaired hw hw'
    · obtain ⟨lo', -, hwin'⟩ := hwin.step hindexed
      refine hsame.back_of_after hgrows (fun o B hB => ?_) (fun cur hcur => ?_) ?_ hw'
      · obtain ⟨rb, hrb⟩ := Multiset.exists_mem_of_ne_zero (h.dated.held o B hB)
        exact ⟨rb.runeId, h.conserved.1.balances o B hB rb hrb⟩
      · rw [hlatest, hwin.latestHeight] at hcur
        split at hcur
        · cases hcur
        · next hne =>
          have := List.length_pos_iff.mpr hne
          have := Option.some.inj hcur
          omega
      · rw [hwin'.latestHeight, if_neg (by simp), List.length_append, List.length_singleton,
          Nat.add_sub_cancel]

end runs

namespace Sample

/-- The texts of the ids and outpoints of this sample. -/
def texts : Texts where
  parseTxid _ := none
  parseSpacedRune _ := none
  parseRuneId
    | "0:0" => some ⟨0, 0⟩
    | "1:0" => some ⟨1, 0⟩
    | _ => none
  parseOutPoint
    | "1:1" => some ⟨1, 1⟩
    | "2:1" => some ⟨2, 1⟩
    | _ => none
  printTxid txid := toString txid.toNat
  printSpacedRune sr := toString sr.rune.n
  printRuneId id := toString id.block ++ ":" ++ toString id.tx

theorem writes_of_keys {s : Store} (hids : s.runeIdToRuneEntry.keys ⊆ {⟨0, 0⟩, ⟨1, 0⟩})
    (houtpoints : s.outpointToRuneBalances.keys ⊆ {⟨1, 1⟩, ⟨2, 1⟩}) : texts.Writes s where
  ids id hid := by
    have hmem := hids (FinMap.mem_keys.mpr hid)
    rcases Finset.mem_insert.mp hmem with rfl | hmem
    · exact ⟨"0:0", rfl⟩
    · obtain rfl := Finset.mem_singleton.mp hmem
      exact ⟨"1:0", rfl⟩
  outpoints o ho := by
    rw [Store.ledger_balances_get?, Option.isSome_map] at ho
    have hmem := houtpoints (FinMap.mem_keys.mpr ho)
    rcases Finset.mem_insert.mp hmem with rfl | hmem
    · exact ⟨"1:1", rfl⟩
    · obtain rfl := Finset.mem_singleton.mp hmem
      exact ⟨"2:1", rfl⟩

/-- What `get_rune_by_id` reports. -/
def reported (str : String) (s : Store) : Option Interface.RuneEntry :=
  match Query.getRuneById texts str s with
  | .ok answer => answer
  | .error _ => none

theorem reported_eq {str : String} {s s' : Store} (h : Query.SameAnswers texts s s') :
    reported str s = reported str s' := by
  unfold reported
  rw [h.runeById]

/-- After the sample run of one block, a block waits for the node and then gets its answers. -/
theorem waiting_exec {b : BlockData} {P : Store → Store → Store → Bool}
    (h : (indexChain crates order .regtest reply [etchBlock] (Store.empty config)).any (fun s =>
      ((indexBlock crates order .regtest 1 b).run s).waits fun s' =>
      (((indexBlock crates order .regtest 1 b).run s).resultWith answer).returns fun s₂ _ =>
        P s s' s₂) = true) :
    ∃ s s' s₂, Run crates .regtest replies DistinctTxids [etchBlock] s ∧
      Proc.Awaits (Answers.only answer) ((indexBlock crates order .regtest 1 b).run s) s' ∧
      Proc.Runs (Answers.only answer) ((indexBlock crates order .regtest 1 b).run s) (.ok s₂ ()) ∧
      P s s' s₂ = true := by
  obtain ⟨s, hs, h⟩ := (Option.any_eq_true _ _).mp h
  obtain ⟨s', hwaits, h⟩ := Proc.awaits_of_waits h
  obtain ⟨s₂, _, h₂, hP⟩ := Result.returns_iff.mp h
  have hnode : ∀ (chain : List BlockData) q, replies chain q (reply q) := fun _ _ => rfl
  have hrun : Run crates .regtest replies DistinctTxids ([] ++ [etchBlock]) s :=
    run_of_indexChain hnode (fun n => by rw [List.take_of_length_le (by simp)]; decide)
      (.init config) hs
  exact ⟨s, s', s₂, hrun, hwaits, h₂ ▸ runs_only answer _, hP⟩

end Sample

/-- A block with one transaction waits: what is reported is what was before. A block that has
    etched a rune waits: what is reported was neither before nor comes after. -/
theorem Run.queries_sample :
    (∃ s s', Run Sample.crates .regtest Sample.replies DistinctTxids [Sample.etchBlock] s ∧
      Proc.Awaits (Answers.only Sample.answer)
        ((indexBlock Sample.crates Sample.order .regtest 1 Sample.nameBlock).run s) s' ∧
      Query.SameAnswers Sample.texts s' s ∧ s'.UpToLatest) ∧
    ∃ s s', Run Sample.crates .regtest Sample.replies DistinctTxids [Sample.etchBlock] s ∧
      Proc.Awaits (Answers.only Sample.answer)
        ((indexBlock Sample.crates Sample.order .regtest 1 Sample.etchAndNameBlock).run s) s' ∧
      Sample.texts.Writes s ∧ Sample.texts.Writes s' ∧ ¬ Query.SameAnswers Sample.texts s' s ∧
      ∀ s₂, Proc.Runs (Answers.only Sample.answer)
        ((indexBlock Sample.crates Sample.order .regtest 1 Sample.etchAndNameBlock).run s)
        (.ok s₂ ()) →
        ¬ Query.SameAnswers Sample.texts s' (Reorg.pruneChangeRecord .regtest 1 s₂) := by
  constructor
  · obtain ⟨s, s', -, hrun, hwaits, -, hP⟩ := Sample.waiting_exec (b := Sample.nameBlock)
      (P := fun s _ _ => s.outpointToRuneBalances.get? ⟨9, 0⟩ = none ∧
        (s.nextBlock Sample.crates .regtest).1 = 1) (by decide)
    obtain ⟨hfree, hnext⟩ : s.outpointToRuneBalances.get? ⟨9, 0⟩ = none ∧
      (s.nextBlock Sample.crates .regtest).1 = 1 := by simpa using hP
    obtain ⟨⟨k, hk⟩, hiff⟩ := (Run.queries (b := Sample.nameBlock) Sample.texts (by decide)
      hrun).2 Sample.order (Answers.only Sample.answer) s' (hnext.symm ▸ hwaits)
    -- the block has one transaction
    obtain rfl : k = 0 := by
      obtain ⟨tx, txid, _, _, hget, -⟩ := hk
      have := (List.getElem?_eq_some_iff.mp hget).1
      have hlen : Sample.nameBlock.txdata.length = 1 := rfl
      omega
    have hquiet := quiet_nameBlock hfree (Answers.only Sample.answer)
    exact ⟨s, s', hrun, hwaits, (hiff 0 hk).1 (hnext.symm ▸ hquiet)⟩
  · obtain ⟨s, s', -, hrun, hwaits, -, hP⟩ := Sample.waiting_exec (b := Sample.etchAndNameBlock)
      (P := fun s s' _ => (s.nextBlock Sample.crates .regtest).1 = 1 ∧
        (s.runeIdToRuneEntry.keys ⊆ {⟨0, 0⟩, ⟨1, 0⟩} ∧
          s.outpointToRuneBalances.keys ⊆ {⟨1, 1⟩, ⟨2, 1⟩}) ∧
        (s'.runeIdToRuneEntry.keys ⊆ {⟨0, 0⟩, ⟨1, 0⟩} ∧
          s'.outpointToRuneBalances.keys ⊆ {⟨1, 1⟩, ⟨2, 1⟩}) ∧
        Sample.reported "1:0" s = none ∧ (Sample.reported "1:0" s').isSome) (by decide)
    obtain ⟨hnext, ⟨hids, houtpoints⟩, ⟨hids', houtpoints'⟩, hbefore, hnow⟩ := of_decide_eq_true hP
    have hwrites := Sample.writes_of_keys hids houtpoints
    have hwrites' := Sample.writes_of_keys hids' houtpoints'
    obtain ⟨⟨k, hk⟩, hiff⟩ := (Run.queries (b := Sample.etchAndNameBlock) Sample.texts (by decide)
      hrun).2 Sample.order (Answers.only Sample.answer) s' (hnext.symm ▸ hwaits)
    obtain ⟨hquiet, hback⟩ := hiff k hk
    -- the rune that is reported now was not there before, so the block was not quiet
    have hloud : ¬ Quiet Sample.crates .regtest (s.nextBlock Sample.crates .regtest).1
        (Answers.only Sample.answer) s Sample.etchAndNameBlock k := by
      intro h
      rw [Sample.reported_eq (hquiet h).1, hbefore] at hnow
      cases hnow
    have hnever := fun h => hloud
      (hback (Answers.only_functional Sample.answer) hwrites hwrites' h)
    rw [hnext] at hnever
    exact ⟨s, s', hrun, hwaits, hwrites, hwrites', fun h => hnever (.inl h),
      fun s₂ h₂ h => hnever (.inr ⟨s₂, h₂, h⟩)⟩

/-- A rune of the waiting block is reported with a confirmation count that underflowed, by
    neither the state before the block nor the one after it. -/
theorem Run.queries_half_block :
    ∃ s s' s₂, Run Sample.crates .regtest Sample.replies DistinctTxids [Sample.etchBlock] s ∧
      Proc.Awaits (Answers.only Sample.answer)
        ((indexBlock Sample.crates Sample.order .regtest 1 Sample.etchAndNameBlock).run s) s' ∧
      Proc.Runs (Answers.only Sample.answer)
        ((indexBlock Sample.crates Sample.order .regtest 1 Sample.etchAndNameBlock).run s)
        (.ok s₂ ()) ∧
      s'.memLatestBlockHeight = some 0 ∧
      (∃ r, Query.getRuneById Sample.texts "1:0" s' = .ok (some r) ∧ r.block = 1 ∧
        r.confirmations = 0) ∧
      ¬ Query.SameAnswers Sample.texts s' s ∧
      ¬ Query.SameAnswers Sample.texts s' (Reorg.pruneChangeRecord .regtest 1 s₂) := by
  obtain ⟨s, s', s₂, hrun, hwaits, h₂, hP⟩ := Sample.waiting_exec (b := Sample.etchAndNameBlock)
    (P := fun s s' s₂ => s'.memLatestBlockHeight = some 0 ∧
      ((Sample.reported "1:0" s').any fun r => r.block = 1 ∧ r.confirmations = 0) ∧
      Sample.reported "1:0" s = none ∧
      ((Sample.reported "1:0" (Reorg.pruneChangeRecord .regtest 1 s₂)).any fun r =>
        r.confirmations = 1)) (by decide)
  -- the rune of the unfinished block is there, its header is not
  obtain ⟨hlatest, hnow, hbefore, hafter⟩ := of_decide_eq_true hP
  obtain ⟨r, hr, hfields⟩ := (Option.any_eq_true _ _).mp hnow
  obtain ⟨hblock, hconf⟩ := of_decide_eq_true hfields
  refine ⟨s, s', s₂, hrun, hwaits, h₂, hlatest, ⟨r, ?_, hblock, hconf⟩, fun h => ?_, fun h => ?_⟩
  · unfold Sample.reported at hr
    split at hr
    · next answer hanswer => rw [hanswer, hr]
    · cases hr
  · rw [Sample.reported_eq h, hbefore] at hr
    cases hr
  · rw [Sample.reported_eq h] at hr
    rw [hr, Option.any_some, decide_eq_true_eq, hconf] at hafter
    cases hafter

end RunesIndexer
