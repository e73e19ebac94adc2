import RunesIndexer.Spec.Quiet
import RunesIndexer.Spec.Outpoints

/-! # Every other transaction leaves a trace

    The steps of a block make the ledger advance in a preorder: outpoints from before
    the block only go, mints only grow, and so does the number of runes. A transaction
    that is not quiet advances strictly, so a block that stops with a ledger no
    further than where it began has been quiet so far.
-/

namespace RunesIndexer

open Resumption MonadicFold RuneUpdater

/-- The mints of a rune, none for an unknown one. -/
def Ledger.mintsOf (L : Ledger) (id : RuneId) : Nat := (L.entries.get? id).elim 0 (·.mints)

theorem Ledger.mintsOf_insert (L : Ledger) (id : RuneId) (e : RuneEntry) (id' : RuneId) :
    ({ L with entries := L.entries.insert id e } : Ledger).mintsOf id' =
      if id' = id then e.mints else L.mintsOf id' := by
  unfold mintsOf
  rw [FinMap.get?_insert]
  split <;> rfl

theorem Ledger.mintsOf_of_get? {L : Ledger} {id : RuneId} {e : RuneEntry}
    (h : L.entries.get? id = some e) : L.mintsOf id = e.mints := by
  unfold mintsOf
  rw [h]
  rfl

/-! ### The order -/

/-- The ledger goes from `L` to `L'` inside a block at `height` whose txids are `txids`. -/
structure Advances (height : Nat) (txids : List Txid) (L L' : Ledger) : Prop where
  balances : ∀ o, o.txid ∉ txids → L.balances.get? o = none → L'.balances.get? o = none
  mints : ∀ id, id.block < height → L.mintsOf id ≤ L'.mintsOf id
  runes : L.runes ≤ L'.runes

/-- What the ledger holds is older than the block. -/
structure Settled (height : Nat) (txids : List Txid) (L : Ledger) : Prop where
  outpoints : ∀ o, (L.balances.get? o).isSome → o.txid ∉ txids
  entries : ∀ id, L.Known id → id.block < height

theorem Advances.trans {height : Nat} {txids : List Txid} {L₁ L₂ L₃ : Ledger}
    (h : Advances height txids L₁ L₂) (h' : Advances height txids L₂ L₃) :
    Advances height txids L₁ L₃ where
  balances o ho hnone := h'.balances o ho (h.balances o ho hnone)
  mints id hid := (h.mints id hid).trans (h'.mints id hid)
  runes := h.runes.trans h'.runes

/-- It advances and loses no rune, and where it counts more runes one of the block is new. -/
structure Grows (height : Nat) (txids : List Txid) (L L' : Ledger) : Prop
    extends Advances height txids L L' where
  known : ∀ id, L.Known id → L'.Known id
  etched : L'.runes = L.runes ∨ ∃ i, L'.Known ⟨height, i⟩

namespace Grows

variable {height : Nat} {txids : List Txid} {L L' L₁ L₂ L₃ : Ledger}

theorem refl (height : Nat) (txids : List Txid) (L : Ledger) : Grows height txids L L :=
  ⟨⟨fun _ _ h => h, fun _ _ => le_refl _, le_refl _⟩, fun _ h => h, .inl rfl⟩

theorem trans (h : Grows height txids L₁ L₂) (h' : Grows height txids L₂ L₃) :
    Grows height txids L₁ L₃ where
  toAdvances := h.toAdvances.trans h'.toAdvances
  known id hid := h'.known id (h.known id hid)
  etched := by
    rcases h'.etched with heq | hnew
    · rcases h.etched with heq₁ | ⟨i, hi⟩
      · exact .inl (heq.trans heq₁)
      · exact .inr ⟨i, h'.known _ hi⟩
    · exact .inr hnew

variable {lib : Crates} {tx : Transaction} {txid : Txid} {t t' : LotMap} {u u' : RuneUpdater}

theorem spend {o : OutPoint} (h : Spend o (L, t, u) (L', t', u')) : Grows height txids L L' := by
  obtain ⟨hentries, -, -, hnone⟩ := h.frame
  have hruns : L'.runes = L.runes := by cases h <;> rfl
  refine ⟨⟨fun o' _ => hnone o', fun id _ => ?_, hruns.ge⟩, fun id hid => ?_, .inl hruns⟩
  · unfold Ledger.mintsOf
    rw [hentries]
  · unfold Ledger.Known
    rwa [hentries]

theorem mint (h : Mint lib tx (L, t, u) (L', t', u')) : Grows height txids L L' := by
  obtain ⟨⟨hbalances, -⟩, -, -, hknown⟩ := h.frame
  have hruns : L'.runes = L.runes := by cases h <;> rfl
  refine ⟨⟨fun o _ ho => hbalances ▸ ho, fun id _ => ?_, hruns.ge⟩,
    fun id => (hknown id).mpr, .inl hruns⟩
  cases h with
  | absent _ => exact le_refl _
  | refused _ _ _ => exact le_refl _
  | minted _ _ he _ _ =>
    rw [Ledger.mintsOf_insert]
    split
    · next heq =>
      rw [heq, Ledger.mintsOf_of_get? he]
      exact Nat.le_succ _
    · exact le_refl _

theorem etch {txIndex : Nat} {a : List LotMap} (hheight : u.height = height)
    (hruns : u.runes = L.runes) (h : Etch lib txIndex tx txid (L, t, u) a (L', t', u')) :
    Grows height txids L L' := by
  obtain ⟨⟨hbalances, -⟩, -, -, hknown, -⟩ := h.frame
  cases h with
  | plain _ => exact .refl _ _ _
  | unetched _ _ => exact .refl _ _ _
  | etched _ _ _ _ =>
    refine ⟨⟨fun o _ ho => ho, fun id hid => ?_, ?_⟩, hknown, .inr ⟨txIndex, ?_⟩⟩
    · -- the new rune is of this block
      have hne : id ≠ ⟨u.height, txIndex⟩ := by
        intro heq
        rw [heq, hheight] at hid
        exact lt_irrefl _ hid
      unfold Ledger.mintsOf
      rw [FinMap.get?_insert_ne _ _ hne]
    · dsimp only
      omega
    · unfold Ledger.Known
      rw [← hheight, FinMap.get?_insert_self]
      rfl

theorem output {m : LotMap × Nat} (htxid : txid ∈ txids)
    (h : Output lib tx txid m (L, t, u) (L', t', u')) : Grows height txids L L' := by
  obtain ⟨m, vout⟩ := m
  obtain ⟨hentries, -, -, hothers⟩ := h.frame
  have hruns : L'.runes = L.runes := by cases h <;> rfl
  refine ⟨⟨fun o ho hnone => ?_, fun id _ => ?_, hruns.ge⟩, fun id hid => ?_, .inl hruns⟩
  · -- a new outpoint belongs to a transaction of the block
    have hne : o ≠ ⟨txid, vout⟩ := fun heq => ho (heq ▸ htxid)
    rw [hothers o hne]
    exact hnone
  · unfold Ledger.mintsOf
    rw [hentries]
  · unfold Ledger.Known
    rwa [hentries]

end Grows

namespace RuneUpdater

/-! ### Transactions grow the ledger -/

section transaction

variable {lib : Crates} {network : BitcoinNetwork} {height : Nat} {ans : Answers} {ord : HashOrder}
  {tx : Transaction} {txid : Txid} {txids : List Txid} {s s' s₁ s₂ : Store}
  {u u' u₁ u₂ : RuneUpdater} {t₁ t₂ : LotMap} {txIndex : Nat}

theorem unallocated_grows (h : (u.unallocated tx).run s = .ok s₁ (t₁, u₁)) :
    Grows height txids s.ledger s₁.ledger :=
  unallocated_invariant (P := fun s' _ _ => Grows height txids s.ledger s'.ledger)
    (fun _ _ _ _ _ _ _ _ hP hstep => hP.trans (.spend hstep.spend)) (.refl _ _ _) h

/-- Whatever an input refers to is gone. -/
theorem unallocated_gone (h : (u.unallocated tx).run s = .ok s₁ (t₁, u₁)) :
    ∀ input ∈ tx.input, s₁.ledger.balances.get? input.previousOutput = none := by
  have hsteps := (steps_of_foldlM (fun _ (_ : LotMap × RuneUpdater) => True)
    (fun s st => (s.ledger, st.1, st.2)) (fun input : TxIn => Spend input.previousOutput)
    (fun input _ s st s' st' _ hrun => ⟨trivial, (unallocatedInput_eq_ok hrun).spend⟩)
    trivial h).2
  refine hsteps.each (Q := fun input x => x.1.balances.get? input.previousOutput = none) ?_ ?_
  · exact fun input x x' hstep => hstep.gone
  · exact fun input input' x x' hgone hstep => hstep.frame.2.2.2 _ hgone

theorem MintPhase.grows (h : MintPhase lib tx s t₁ u s₁ t₂ u₁) :
    Grows height txids s.ledger s₁.ledger :=
  .mint h.mint

theorem EtchPhase.grows {a : List LotMap} (hblock : InBlock lib network height s u)
    (h : EtchPhase lib txIndex tx txid s t₁ u s₁ t₂ a u₁) :
    Grows height txids s.ledger s₁.ledger :=
  .etch hblock.height_eq hblock.runes (h.etch (hblock.height_eq.symm ▸ hblock.rows))

theorem finishTransaction_grows {artifact : Option Artifact} {a : List LotMap}
    (htxid : txid ∈ txids)
    (h : (finishTransaction lib ord u txIndex tx txid artifact t₁ a).run s = .ok s' u') :
    Grows height txids s.ledger s'.ledger := by
  obtain ⟨a₁, burned, burned', u₁, b, -, hout, -, -⟩ := finishTransaction_eq_ok h
  exact outputs_invariant (P := fun s' _ _ => Grows height txids s.ledger s'.ledger)
    (fun _ _ _ _ _ _ _ _ _ hP hstep => hP.trans (.output htxid hstep.output)) (.refl _ _ _) hout

theorem unallocated_inBlock (hblock : InBlock lib network height s u)
    (h : (u.unallocated tx).run s = .ok s₁ (t₁, u₁)) : InBlock lib network height s₁ u₁ := by
  refine unallocated_invariant (P := fun s _ u => InBlock lib network height s u) ?_ hblock h
  intro input _ s t u s' t' u' hP hstep
  refine hP.step hstep.within ?_
  cases hstep <;> exact hP.runes

theorem MintPhase.inBlock (hblock : InBlock lib network height s u)
    (h : MintPhase lib tx s t₁ u s₁ t₂ u₁) : InBlock lib network height s₁ u₁ := by
  cases h with
  | absent _ => exact hblock
  | refused _ _ _ => exact hblock
  | minted _ _ hm _ =>
    refine hblock.step hm.within ?_
    cases hm
    exact hblock.runes

theorem indexRunes_grows (hblock : InBlock lib network height s u) (htxid : txid ∈ txids)
    (h : Proc.Runs ans ((u.indexRunes lib ord txIndex tx txid).run s) (.ok s' u')) :
    Grows height txids s.ledger s'.ledger := by
  obtain ⟨s₁, t₁, u₁, s₂, t₂, u₂, s₃, t₃, a₃, u₃, hunalloc, hm, he, hfinish⟩ := indexRunes_runs h
  have hblock₁ := unallocated_inBlock hblock hunalloc
  have h₁ : Grows height txids s.ledger s₁.ledger := unallocated_grows hunalloc
  have h₂ : Grows height txids s₁.ledger s₂.ledger := hm.grows
  have h₃ : Grows height txids s₂.ledger s₃.ledger := he.grows (hm.inBlock hblock₁)
  have h₄ : Grows height txids s₃.ledger s'.ledger := finishTransaction_grows htxid hfinish
  exact ((h₁.trans h₂).trans h₃).trans h₄

theorem indexTransactions_grows {l : List (Transaction × Txid)} {n : Nat}
    (hblock : InBlock lib network height s u) (hl : ∀ e ∈ l, e.2 ∈ txids)
    (h : Proc.Runs ans ((indexTransactions lib ord u n l).run s) (.ok s' u')) :
    Grows height txids s.ledger s'.ledger := by
  refine (indexTransactions_invariant
    (P := fun _ s' u' => InBlock lib network height s' u' ∧ Grows height txids s.ledger s'.ledger)
    ?_ ⟨hblock, .refl _ _ _⟩ h).2
  rintro i tx txid hget s₁ u₁ s₂ u₂ ⟨hblock₁, hP⟩ hrun
  exact ⟨indexRunes_inBlock hblock₁ hrun,
    hP.trans (indexRunes_grows hblock₁ (hl _ (List.mem_of_getElem? hget)) hrun)⟩

/-! ### No way back -/

/-- If inputs and mint leave the ledger as far as it was, they found nothing. -/
theorem untouched_of_back (hblock : InBlock lib network height s u)
    (hset : Settled height txids s.ledger) (hunalloc : (u.unallocated tx).run s = .ok s₁ (t₁, u₁))
    (hm : MintPhase lib tx s₁ t₁ u₁ s₂ t₂ u₂) (hback : Advances height txids s₂.ledger s.ledger) :
    Untouched lib height s tx := by
  have hinputs : ∀ input ∈ tx.input, s.outpointToRuneBalances.get? input.previousOutput = none := by
    intro input hinput
    rw [← Store.ledger_balances_eq_none]
    by_contra hne
    have hold := hset.outpoints _ (Option.isSome_iff_ne_none.mpr hne)
    have hmint : Grows height txids s₁.ledger s₂.ledger := hm.grows
    have hgone := hmint.balances _ hold (unallocated_gone hunalloc input hinput)
    exact hne (hback.balances _ hold hgone)
  refine ⟨hinputs, fun artifact id e hdec hmint he n hn => ?_⟩
  rw [unallocated_absent hinputs] at hunalloc
  cases hunalloc
  cases hm with
  | absent h =>
    rw [h artifact hdec] at hmint
    cases hmint
  | refused hdec' hmint' h =>
    rw [hdec] at hdec'
    cases hdec'
    rw [hmint] at hmint'
    cases hmint'
    exact h e he n (hblock.height_eq.symm ▸ hn)
  | minted hdec' hmint' hm _ =>
    rw [hdec] at hdec'
    cases hdec'
    rw [hmint] at hmint'
    cases hmint'
    cases hm with
    | minted he' _ =>
      -- the mint is counted, and the count does not go back
      have hcount := hback.mints id (hset.entries id (by unfold Ledger.Known; exact he'.symm ▸ rfl))
      rw [Store.ledger_memInsertRuneIdToRuneEntry, Ledger.mintsOf_insert, if_pos rfl,
        Ledger.mintsOf_of_get? he'] at hcount
      exact absurd hcount (Nat.not_succ_le_self _)

/-- An accepted etching is counted. -/
theorem etching_counted (hfun : ∀ q a a', ans q a → ans q a' → a = a')
    (hblock : InBlock lib network height s u) (hun : Untouched lib height s tx)
    (htxid : txid ∈ txids) (hacc : Accepts lib network height ans s tx)
    (h : Proc.Runs ans ((u.indexRunes lib ord txIndex tx txid).run s) (.ok s' u')) :
    s.ledger.runes < s'.ledger.runes := by
  unfold indexRunes at h
  obtain ⟨s₁, ⟨t₁, u₁⟩, hunalloc, h⟩ := Async.runs_liftM_bind_ok.mp h
  rw [unallocated_absent hun.inputs] at hunalloc
  cases hunalloc
  obtain ⟨s₂, ⟨t₂, a₂, u₂⟩, hart, hfinish⟩ := Async.runs_bind_ok.mp h
  have hgrows : Grows height txids s₂.ledger s'.ledger :=
    finishTransaction_grows htxid (Async.runs_liftM.mp hfinish)
  obtain ⟨artifact, hdec, -⟩ := id hacc
  rw [hdec] at hart
  obtain ⟨s₃, t₃, u₃, s₄, out, hmint, hetched, -, hrest⟩ := indexArtifact_runs hart
  obtain ⟨rfl, rfl, rfl⟩ := (indexMint_phase hdec hmint).untouched (hblock.height_eq.symm ▸ hun)
  have hout := etched_of_accepts hfun hblock hdec hacc hetched
  rcases hrest with ⟨rfl, -⟩ | ⟨id, rune, entry, rfl, -, rfl, rfl⟩
  · cases hout
  · have hrows := (etched_runs hetched).within.rowsEnd (hblock.height_eq.symm ▸ hblock.rows)
    have hruns := hgrows.runes
    rw [ledger_createdStore hrows] at hruns
    rw [← hblock.runes]
    exact hruns

/-- A transaction that leaves the ledger as far as it was is quiet. -/
theorem quiet_of_back (hfun : ∀ q a a', ans q a → ans q a' → a = a')
    (hblock : InBlock lib network height s u) (hset : Settled height txids s.ledger)
    (htxid : txid ∈ txids)
    (h : Proc.Runs ans ((u.indexRunes lib ord txIndex tx txid).run s) (.ok s' u'))
    (hback : Advances height txids s'.ledger s.ledger) :
    Untouched lib height s tx ∧ ¬ Accepts lib network height ans s tx := by
  obtain ⟨s₁, t₁, u₁, s₂, t₂, u₂, s₃, t₃, a₃, u₃, hunalloc, hm, he, hfinish⟩ := indexRunes_runs h
  have hblock₂ := hm.inBlock (unallocated_inBlock hblock hunalloc)
  have hrest : Advances height txids s₃.ledger s.ledger :=
    (finishTransaction_grows htxid hfinish).toAdvances.trans hback
  have hun : Untouched lib height s tx :=
    untouched_of_back hblock hset hunalloc hm ((he.grows hblock₂).toAdvances.trans hrest)
  refine ⟨hun, fun hacc => ?_⟩
  have hcount := etching_counted hfun hblock hun htxid hacc h
  exact absurd hback.runes (Nat.not_le_of_lt hcount)

end transaction

end RuneUpdater

/-! ### Blocks that stop

    The block got its answers from `ans₁`, of which those that are no errors are the ones
    in `ans`. -/

section block

variable {lib : Crates} {network : BitcoinNetwork} {height : Nat} {ans ans₁ : Answers} {ord : HashOrder}
  {s s' : Store} {u u' : RuneUpdater} {txids : List Txid}

/-- Transactions that leave the ledger as far as it was are quiet. -/
theorem indexTransactions_quiet_of_back (hfun : ∀ q a a', ans q a → ans q a' → a = a')
    {l : List (Transaction × Txid)} {n : Nat} (hblock : InBlock lib network height s u)
    (hset : Settled height txids s.ledger) (hl : ∀ e ∈ l, e.2 ∈ txids)
    (h : Proc.Runs ans ((indexTransactions lib ord u n l).run s) (.ok s' u'))
    (hback : Advances height txids s'.ledger s.ledger) :
    ∀ e ∈ l, Untouched lib height s e.1 ∧ ¬ Accepts lib network height ans s e.1 := by
  induction l generalizing n u with
  | nil => exact fun e he => absurd he List.not_mem_nil
  | cons e l ih =>
    obtain ⟨tx, txid⟩ := e
    obtain ⟨s₁, u₁, h₁, h₂⟩ := Async.runs_bind_ok.mp h
    have hl' : ∀ e ∈ l, e.2 ∈ txids := fun e he => hl e (List.mem_cons_of_mem _ he)
    have hblock₁ := indexRunes_inBlock hblock h₁
    have hquiet := quiet_of_back hfun hblock hset (hl _ List.mem_cons_self) h₁
      ((indexTransactions_grows hblock₁ hl' h₂).toAdvances.trans hback)
    obtain rfl := indexRunes_quiet hblock hquiet.1 hquiet.2 h₁
    intro e he
    rcases List.mem_cons.mp he with rfl | he
    · exact hquiet
    · exact ih hblock₁ hl' h₂ e he

/-- A block that stops while it is quiet leaves what it started with. -/
theorem StopsIn.state_of_quiet {b : BlockData} {k : Nat} {x : Stop Error Store}
    (hans : ∀ q a, ans₁ q a → ans q a ∨ Answers.IsError q a) (hrows : s.RowsUpTo height)
    (hpaired : s.ledger.Paired) (hquiet : Quiet lib network height ans s b k)
    (h : StopsIn lib ord network height b ans₁ s k x) : x.state = startBlock height s := by
  obtain ⟨tx, txid, s₁, u₁, s₂, t₂, u₂, t₃, u₃, hget, hdone, hunalloc, hm⟩ := h.parts hrows hpaired
  have hdone := (indexTransactions_failsOn lib ord _ _ _ _).runs_ok hans hdone
  have hblock : InBlock lib network height (startBlock height s)
      (RuneUpdater.new lib network height b.header.time s.memStatisticRunes) := inBlock_start hrows
  have hbefore : ∀ e ∈ b.txdata.take k, Untouched lib height (startBlock height s) e.1 ∧
      ¬ Accepts lib network height ans (startBlock height s) e.1 := by
    intro e he
    obtain ⟨hun, hacc⟩ := hquiet.before e he
    exact ⟨⟨hun.inputs, hun.mint⟩, fun h => hacc (h.congr rfl)⟩
  obtain ⟨rfl, hblock₁⟩ := indexTransactions_quiet hblock hbefore hdone
  have hun := hquiet.next _ hget
  have hun : Untouched lib u₁.height (startBlock height s) tx :=
    ⟨hun.inputs, hblock₁.height_eq.symm ▸ hun.mint⟩
  rw [unallocated_absent hun.inputs] at hunalloc
  cases hunalloc
  exact (hm.untouched hun).1

/-- A block that stops has grown the ledger. -/
theorem StopsIn.grows {b : BlockData} {k : Nat} {x : Stop Error Store}
    (hrows : s.RowsUpTo height) (hpaired : s.ledger.Paired)
    (h : StopsIn lib ord network height b ans s k x) :
    Grows height b.txids s.ledger x.state.ledger := by
  obtain ⟨tx, txid, s₁, u₁, s₂, t₂, u₂, t₃, u₃, -, hdone, hunalloc, hm⟩ := h.parts hrows hpaired
  have h₁ : Grows height b.txids (startBlock height s).ledger s₁.ledger :=
    indexTransactions_grows (inBlock_start hrows)
      (fun e he => List.mem_map_of_mem (List.mem_of_mem_take he)) hdone
  rw [startBlock_ledger hrows] at h₁
  exact (h₁.trans (unallocated_grows hunalloc)).trans hm.grows

/-- A block that stops with the ledger as far as it was has been quiet. -/
theorem StopsIn.quiet_of_back (hfun : ∀ q a a', ans q a → ans q a' → a = a') {b : BlockData}
    {k : Nat} {x : Stop Error Store} (hans : ∀ q a, ans₁ q a → ans q a ∨ Answers.IsError q a)
    (hrows : s.RowsUpTo height) (hpaired : s.ledger.Paired)
    (hset : Settled height b.txids s.ledger)
    (h : StopsIn lib ord network height b ans₁ s k x)
    (hback : Advances height b.txids x.state.ledger s.ledger) :
    Quiet lib network height ans s b k := by
  obtain ⟨tx, txid, s₁, u₁, s₂, t₂, u₂, t₃, u₃, hget, hdone, hunalloc, hm⟩ := h.parts hrows hpaired
  have hdone := (indexTransactions_failsOn lib ord _ _ _ _).runs_ok hans hdone
  rw [← startBlock_ledger hrows] at hset hback
  have hblock : InBlock lib network height (startBlock height s)
      (RuneUpdater.new lib network height b.header.time s.memStatisticRunes) := inBlock_start hrows
  have htxids : ∀ e ∈ b.txdata.take k, e.2 ∈ b.txids := fun e he =>
    List.mem_map_of_mem (List.mem_of_mem_take he)
  have h₂ : Grows height b.txids s₁.ledger s₂.ledger := unallocated_grows hunalloc
  have h₃ : Grows height b.txids s₂.ledger x.state.ledger := hm.grows
  have hbefore := indexTransactions_quiet_of_back hfun hblock hset htxids hdone
    ((h₂.trans h₃).toAdvances.trans hback)
  obtain ⟨rfl, hblock₁⟩ := indexTransactions_quiet hblock hbefore hdone
  have hun := untouched_of_back hblock₁ hset hunalloc hm hback
  refine ⟨fun e he => ?_, fun e he => ?_⟩
  · obtain ⟨hun, hacc⟩ := hbefore e he
    exact ⟨⟨hun.inputs, hun.mint⟩, fun h => hacc (h.congr rfl)⟩
  · rw [hget] at he
    cases he
    exact ⟨hun.inputs, hun.mint⟩

end block

end RunesIndexer
