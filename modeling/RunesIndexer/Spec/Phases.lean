import RunesIndexer.Spec.Block
import RunesIndexer.Spec.Amounts

/-! # Transactions as changes of the ledger

    The phases of `index_runes` once more, now as relations between ledgers: the
    statistic rows that the store keeps are gone, and what is left is what the
    invariants of the index are about. `indexRunes_phases` connects the two.
-/

namespace RunesIndexer

open Resumption MonadicFold RuneUpdater

/-- The ledger, an amount map of the transaction, and the updater. -/
abbrev TxState : Type := Ledger × LotMap × RuneUpdater

/-- One input is spent: its runes join the unallocated ones. -/
inductive Spend (o : OutPoint) : TxState → TxState → Prop
  | absent {L : Ledger} {t : LotMap} {u : RuneUpdater} (h : L.balances.get? o = none) :
      Spend o (L, t, u) (L, t, u)
  | removed {L : Ledger} {t t' : LotMap} {u : RuneUpdater} {l : RuneBalances} {height : Nat}
      (hb : L.balances.get? o = some (Multiset.ofList l)) (hh : L.heights.get? o = some height)
      (ht : l.foldlM (fun m b => LotMap.addTo m b.runeId b.balance) t = .ok t') :
      Spend o (L, t, u)
        ({ L with balances := L.balances.erase o, heights := L.heights.erase o }, t',
          { u with changeRecord := { u.changeRecord with
              removedOutpoints := u.changeRecord.removedOutpoints ++ [(o, l, height)] } })

/-- The mint of a transaction. -/
inductive Mint (lib : Crates) (tx : Transaction) : TxState → TxState → Prop
  | absent {x : TxState} (h : ∀ artifact, lib.decipher tx = some artifact → artifact.mint = none) :
      Mint lib tx x x
  | refused {L : Ledger} {t : LotMap} {u : RuneUpdater} {artifact : Artifact} {id : RuneId}
      (hdec : lib.decipher tx = some artifact) (hmint : artifact.mint = some id)
      (h : ∀ e, L.entries.get? id = some e → ∀ n, e.mintable u.height ≠ .ok n) :
      Mint lib tx (L, t, u) (L, t, u)
  | minted {L : Ledger} {t t' : LotMap} {u : RuneUpdater} {artifact : Artifact} {id : RuneId}
      {e : RuneEntry} {amount : Nat} (hdec : lib.decipher tx = some artifact)
      (hmint : artifact.mint = some id) (he : L.entries.get? id = some e)
      (hm : e.mintable u.height = .ok amount) (ht : t.addTo id amount = .ok t') :
      Mint lib tx (L, t, u)
        ({ L with entries := L.entries.insert id { e with mints := e.mints + 1 }.reload }, t',
          { u with changeRecord := { u.changeRecord with
              mints := u.changeRecord.mints.insertNew id e.mints } })

/-- How the name of an accepted etching was found, and the reserved count after it. -/
inductive Named (lib : Crates) (u : RuneUpdater) (txIndex : Nat) (artifact : Artifact)
    (L : Ledger) : Rune → Nat → Prop
  | chosen {rune : Rune} (hname : etchingOf artifact = some (some rune))
      (hmin : ¬ rune.n < u.minimum.n) (hres : lib.isReserved rune = false)
      (hfree : L.names.get? rune = none) : Named lib u txIndex artifact L rune L.reservedRunes
  | reserved (hname : etchingOf artifact = some none) :
      Named lib u txIndex artifact L (lib.reserved u.height txIndex) (L.reservedRunes + 1)

/-- The etching of a transaction, with premine and edicts. -/
inductive Etch (lib : Crates) (txIndex : Nat) (tx : Transaction) (txid : Txid) :
    TxState → List LotMap → TxState → Prop
  | plain {x : TxState} (hdec : lib.decipher tx = none) :
      Etch lib txIndex tx txid x (List.replicate tx.output.length ∅) x
  | unetched {L : Ledger} {t t' : LotMap} {u : RuneUpdater} {artifact : Artifact}
      {a' : List LotMap} (hdec : lib.decipher tx = some artifact)
      (hstone : indexRunestone lib tx artifact none t = .ok (t', a')) :
      Etch lib txIndex tx txid (L, t, u) a' (L, t', u)
  | etched {L : Ledger} {t t' : LotMap} {u : RuneUpdater} {artifact : Artifact} {rune : Rune}
      {reservedRunes : Nat} {entry : RuneEntry} {a' : List LotMap}
      (hdec : lib.decipher tx = some artifact)
      (hname : Named lib u txIndex artifact L rune reservedRunes)
      (hstone : indexRunestone lib tx artifact (some (⟨u.height, txIndex⟩, rune)) t =
        .ok (t', a'))
      (hentry : newRuneEntry u txid artifact ⟨u.height, txIndex⟩ rune = .ok entry) :
      Etch lib txIndex tx txid (L, t, u) a'
        ({ L with
            entries := L.entries.insert ⟨u.height, txIndex⟩ entry.reload
            names := L.names.insert rune ⟨u.height, txIndex⟩
            etchings := L.etchings.insert txid rune
            runes := u.runes + 1
            reservedRunes := reservedRunes }, t', created u txid ⟨u.height, txIndex⟩ rune)

/-- One output is written, or what it got is burned. -/
inductive Output (lib : Crates) (tx : Transaction) (txid : Txid) :
    LotMap × Nat → TxState → TxState → Prop
  | nothing {balances : LotMap} {vout : Nat} {x : TxState} (h : balances.size = 0) :
      Output lib tx txid (balances, vout) x x
  | burns {balances : LotMap} {vout : Nat} {L : Ledger} {b b' : LotMap} {u : RuneUpdater}
      {txOut : TxOut} {ord : HashOrder} {site : IterSite} (hout : tx.output[vout]? = some txOut)
      (hburns : lib.burns txOut = true) (hadd : addAll b (ord.iter site balances) = .ok b') :
      Output lib tx txid (balances, vout) (L, b, u) (L, b', u)
  | created {balances : LotMap} {vout : Nat} {L : Ledger} {b : LotMap} {u : RuneUpdater}
      {txOut : TxOut} {ord : HashOrder} {site : IterSite} (hsize : balances.size ≠ 0)
      (hout : tx.output[vout]? = some txOut) (hburns : lib.burns txOut = false) :
      Output lib tx txid (balances, vout) (L, b, u)
        ({ L with
            balances := L.balances.insert ⟨txid, vout⟩
              (Multiset.ofList ((ord.iter site balances).map fun e => ⟨e.1, e.2⟩))
            heights := L.heights.insert ⟨txid, vout⟩ u.height }, b,
          { u with changeRecord := { u.changeRecord with
              addedOutpoints := u.changeRecord.addedOutpoints ++ [⟨txid, vout⟩] } })

/-- The values in a new entry that later steps read. -/
structure NewEntry (u : RuneUpdater) (txid : Txid) (artifact : Artifact) (id : RuneId)
    (rune : Rune) (entry : RuneEntry) : Prop where
  block : entry.block = id.block
  etching : entry.etching = txid
  number : entry.number = u.runes
  name : entry.spacedRune.rune = rune
  mints : entry.mints = 0
  burned : entry.burned = 0
  premine : entry.premine = premineOf artifact (some (id, rune))

theorem newRuneEntry_eq_ok {u : RuneUpdater} {txid : Txid} {artifact : Artifact} {id : RuneId}
    {rune : Rune} {entry : RuneEntry}
    (h : newRuneEntry u txid artifact id rune = .ok entry) :
    NewEntry u txid artifact id rune entry := by
  unfold newRuneEntry at h
  cases artifact with
  | cenotaph c =>
    cases h
    exact ⟨rfl, rfl, rfl, rfl, rfl, rfl, rfl⟩
  | runestone r =>
    obtain ⟨etching, hetching, h⟩ := except_bind_eq_ok.mp h
    cases h
    rw [unwrap_eq_ok] at hetching
    exact ⟨rfl, rfl, rfl, rfl, rfl, rfl, by simp [premineOf, hetching]⟩

/-! ### The store does what the relations say -/

namespace RuneUpdater

theorem Unallocated.spend {o : OutPoint} {s s' : Store} {t t' : LotMap} {u u' : RuneUpdater}
    (h : Unallocated o s t u s' t' u') : Spend o (s.ledger, t, u) (s'.ledger, t', u') := by
  cases h with
  | absent h => exact .absent (Store.ledger_balances_eq_none.mpr h)
  | removed hb hh ht =>
    rw [Store.ledger_memRemoveOutpointToHeight, Store.ledger_memRemoveOutpointToRuneBalances]
    exact .removed (by rw [Store.ledger_balances_get?, hb]; rfl) hh ht

theorem MintPhase.mint {lib : Crates} {tx : Transaction} {s s' : Store} {t t' : LotMap}
    {u u' : RuneUpdater} (h : MintPhase lib tx s t u s' t' u') :
    Mint lib tx (s.ledger, t, u) (s'.ledger, t', u') := by
  cases h with
  | absent h => exact .absent h
  | refused hdec hmint h => exact .refused hdec hmint h
  | minted hdec hmint hm ht =>
    cases hm with
    | minted he hm => exact .minted hdec hmint he hm ht

theorem EtchPhase.etch {lib : Crates} {txIndex : Nat} {tx : Transaction} {txid : Txid}
    {s s' : Store} {t t' : LotMap} {a' : List LotMap} {u u' : RuneUpdater}
    (hrows : s.RowsEndAt u.height)
    (h : EtchPhase lib txIndex tx txid s t u s' t' a' u') :
    Etch lib txIndex tx txid (s.ledger, t, u) a' (s'.ledger, t', u') := by
  cases h with
  | plain hdec => exact .plain hdec
  | unetched hdec hstone => exact .unetched hdec hstone
  | etched hdec hetched hstone hentry =>
    rw [ledger_createdStore (hetched.within.rowsEnd hrows)]
    obtain rfl := hetched.id_eq
    cases hetched with
    | named hname hmin hres hfree =>
      exact .etched hdec (.chosen hname hmin hres hfree) hstone hentry
    | reserved hname =>
      rw [hrows.ledger_memInsertStatisticReservedRunes]
      exact .etched hdec (.reserved hname) hstone hentry

theorem OutpointUpdated.output {lib : Crates} {ord : HashOrder} {txIndex : Nat}
    {tx : Transaction} {txid : Txid} {balances : LotMap} {vout : Nat} {s s' : Store}
    {b b' : LotMap} {u u' : RuneUpdater}
    (h : OutpointUpdated lib ord txIndex tx txid balances vout s b u s' b' u') :
    Output lib tx txid (balances, vout) (s.ledger, b, u) (s'.ledger, b', u') := by
  cases h with
  | nothing h => exact .nothing h
  | burns hout hburns hadd => exact .burns hout hburns hadd
  | created hsize hout hburns =>
    rw [Store.ledger_memInsertOutpointToHeight, Store.ledger_memInsertOutpointToRuneBalances]
    exact .created hsize hout hburns

end RuneUpdater

/-- What a completed transaction did to the ledger. -/
structure TxPhases (lib : Crates) (txIndex : Nat) (tx : Transaction) (txid : Txid) (L : Ledger)
    (u : RuneUpdater) (L' : Ledger) (u' : RuneUpdater) : Prop where
  phases : ∃ spent minted etched a₁ a₂ burned burned' u₁ ord ord' site site' allBurned,
    Steps (fun input : TxIn => Spend input.previousOutput) tx.input (L, ∅, u) spent ∧
    Mint lib tx spent minted ∧
    Etch lib txIndex tx txid minted a₁ etched ∧
    assignUnallocated lib tx (lib.decipher tx)
      (HashOrder.iter ord site etched.2.1) a₁ = .ok (a₂, burned) ∧
    Steps (Output lib tx txid) a₂.zipIdx (etched.1, burned, etched.2.2) (L', burned', u₁) ∧
    addAll u₁.burned (HashOrder.iter ord' site' burned') = .ok allBurned ∧
    u' = { u₁ with burned := allBurned }

theorem indexRunes_phases {lib : Crates} {ord : HashOrder} {u u' : RuneUpdater} {txIndex : Nat}
    {tx : Transaction} {txid : Txid} {ans : Answers} {s s' : Store}
    (hrows : s.RowsEndAt u.height)
    (h : Proc.Runs ans ((u.indexRunes lib ord txIndex tx txid).run s) (.ok s' u')) :
    TxPhases lib txIndex tx txid s.ledger u s'.ledger u' := by
  obtain ⟨s₁, t₁, u₁, s₂, t₂, u₂, s₃, t₃, a₃, u₃, hunalloc, hm, he, hfinish⟩ := indexRunes_runs h
  obtain ⟨a₄, burned, burned', u₄, b, hassign, hout, hadd, rfl⟩ := finishTransaction_eq_ok hfinish
  obtain ⟨hrows₁, hspend⟩ := steps_of_foldlM
    (fun s (st : LotMap × RuneUpdater) => s.RowsEndAt st.2.height)
    (fun s st => (s.ledger, st.1, st.2))
    (fun input : TxIn => Spend input.previousOutput)
    (fun input _ s st s' st' hI hrun => by
      have hstep := unallocatedInput_eq_ok hrun
      obtain ⟨hwithin, hsame⟩ := hstep.within
      exact ⟨hsame.height ▸ hwithin.rowsEnd hI, hstep.spend⟩) hrows hunalloc
  have hrows₂ : s₂.RowsEndAt u₂.height := by
    cases hm with
    | absent _ => exact hrows₁
    | refused _ _ _ => exact hrows₁
    | minted _ _ hm _ => exact hm.within.2.height ▸ hm.within.1.rowsEnd hrows₁
  obtain ⟨-, houtput⟩ := steps_of_foldlM
    (fun _ (_ : LotMap × RuneUpdater) => True)
    (fun s st => (s.ledger, st.1, st.2)) (Output lib tx txid)
    (fun output _ s st s' st' _ hrun => ⟨trivial, (updateOutpoint_eq_ok hrun).output⟩)
    trivial hout
  exact ⟨⟨_, _, _, _, _, _, _, _, _, _, _, _, _, hspend, hm.mint, he.etch hrows₂, hassign,
    houtput, hadd, rfl⟩⟩

/-! ### Invariants of the ledger -/

/-- A property of ledger and updater goes through a transaction phase by phase: `P` holds
    while inputs are spent, `M` after the mint, `Q` from the etching on. -/
theorem TxPhases.invariant {lib : Crates} {txIndex : Nat} {tx : Transaction} {txid : Txid}
    {L L' : Ledger} {u u' : RuneUpdater} {P M Q : Ledger → RuneUpdater → Prop}
    (h : TxPhases lib txIndex tx txid L u L' u')
    (hspend : ∀ input ∈ tx.input, ∀ L t u L' t' u', P L u →
      Spend input.previousOutput (L, t, u) (L', t', u') → P L' u')
    (hmint : ∀ L t u L' t' u', P L u → Mint lib tx (L, t, u) (L', t', u') → M L' u')
    (hetch : ∀ L t u a L' t' u', M L u →
      Etch lib txIndex tx txid (L, t, u) a (L', t', u') → Q L' u')
    (houtput : ∀ output L b u L' b' u', Q L u →
      Output lib tx txid output (L, b, u) (L', b', u') → Q L' u')
    (hburned : ∀ L u b, Q L u → Q L { u with burned := b }) (h₀ : P L u) : Q L' u' := by
  obtain ⟨spent, minted, etched, a₁, a₂, burned, burned', u₁, ord, ord', site, site', allBurned,
    hs, hm, he, -, ho, -, rfl⟩ := h.phases
  have h₁ : P spent.1 spent.2.2 := hs.invariant (P := fun x => P x.1 x.2.2)
    (fun input hinput x x' hP hstep => hspend input hinput _ _ _ _ _ _ hP hstep) h₀
  have h₂ : Q etched.1 etched.2.2 := hetch _ _ _ _ _ _ _ (hmint _ _ _ _ _ _ h₁ hm) he
  exact hburned _ _ _ (ho.invariant (P := fun x => Q x.1 x.2.2)
    (fun output _ x x' hQ hstep => houtput output _ _ _ _ _ _ hQ hstep) h₂)

/-- What every change of a burned count preserves, the flush preserves. -/
theorem update_invariant {P : Ledger → Prop}
    (hburn : ∀ L id e n, P L → L.entries.get? id = some e →
      P { L with entries := L.entries.insert id { e with burned := n }.reload })
    {ord : HashOrder} {u : RuneUpdater} {s s' : Store} (h₀ : P s.ledger)
    (h : (u.update ord).run s = .ok s' ()) : P s'.ledger := by
  obtain ⟨s₁, record, hfold, rfl⟩ := update_eq_ok.mp h
  refine sync_foldlM_invariant (P := fun _ s => P s.ledger) ?_ h₀ hfold
  intro e _ record s record' s' hP hstep
  obtain ⟨entry, hentry, -, rfl, -⟩ := updateBurned_eq_ok.mp hstep
  exact hburn _ _ _ _ hP hentry

/-- A property indexed by the number of transactions done goes through those of a block. -/
theorem indexTransactions_ledger {P : Nat → Ledger → RuneUpdater → Prop} {lib : Crates}
    {network : BitcoinNetwork} {height time : Nat} {l : List (Transaction × Txid)}
    {ord : HashOrder} {ans : Answers} {s s' : Store} {u' : RuneUpdater}
    (hrows : s.RowsUpTo height)
    (h₀ : P 0 s.ledger (RuneUpdater.new lib network height time s.ledger.runes))
    (htx : ∀ i tx txid, l[i]? = some (tx, txid) → ∀ L u L' u', u.height = height →
      P i L u → TxPhases lib i tx txid L u L' u' → P (i + 1) L' u')
    (h : Proc.Runs ans ((indexTransactions lib ord
      (RuneUpdater.new lib network height time s.memStatisticRunes) 0 l).run
        (startBlock height s)) (.ok s' u')) : P l.length s'.ledger u' := by
  obtain ⟨hP, -, -⟩ := indexTransactions_invariant
    (P := fun i s u => P i s.ledger u ∧ u.height = height ∧ s.RowsEndAt height)
    (fun i tx txid hget s u s' u' hP hrun => by
      rw [Nat.zero_add] at hP hrun ⊢
      obtain ⟨hP, hheight, hend⟩ := hP
      obtain ⟨hwithin, hsame⟩ := indexRunes_within hrun
      rw [hheight] at hwithin
      have hphases := indexRunes_phases (hheight ▸ hend) hrun
      exact ⟨htx i tx txid hget _ _ _ _ hheight hP hphases, hsame.height.trans hheight,
        hwithin.rowsEnd hend⟩)
    ⟨by rw [startBlock_ledger hrows]; exact h₀, rfl, startBlock_rowsEndAt hrows⟩ h
  rwa [Nat.zero_add] at hP

/-- A property indexed by the number of transactions done goes through a block. -/
theorem indexBlock_invariant {P : Nat → Ledger → RuneUpdater → Prop} {Q : Ledger → Prop}
    {lib : Crates} {network : BitcoinNetwork} {height : Nat} {b : BlockData} {ord : HashOrder}
    {ans : Answers} {s s' : Store} (hrows : s.RowsBelow height)
    (h₀ : P 0 s.ledger (RuneUpdater.new lib network height b.header.time s.ledger.runes))
    (htx : ∀ i tx txid, b.txdata[i]? = some (tx, txid) → ∀ L u L' u', u.height = height →
      P i L u → TxPhases lib i tx txid L u L' u' → P (i + 1) L' u')
    (hflush : ∀ L u, P b.txdata.length L u → Q L)
    (hburn : ∀ L id e n, Q L → L.entries.get? id = some e →
      Q { L with entries := L.entries.insert id { e with burned := n }.reload })
    (h : Proc.Runs ans ((indexBlock lib ord network height b).run s) (.ok s' ())) :
    Q s'.ledger := by
  obtain ⟨s₁, u₁, s₂, htxs, hupdate, rfl⟩ := indexBlock_runs h
  rw [Store.ledger_memInsertBlockHeader]
  exact update_invariant hburn (hflush _ _ (indexTransactions_ledger hrows.upTo h₀ htx htxs)) hupdate

end RunesIndexer
