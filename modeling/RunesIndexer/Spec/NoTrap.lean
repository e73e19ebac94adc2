import RunesIndexer.Lib.Safety
import RunesIndexer.Spec.Bounds
import RunesIndexer.Spec.Commitment
import RunesIndexer.Spec.Congruence
import RunesIndexer.Spec.Totality

/-! # Indexing and rolling back never trap

    From a state in which the units of every rune are accounted for, `index_block`
    runs through on every block of a chain with distinct txids, as long as the node
    answers with data of the chain. The only errors it returns are those of the node.
-/

namespace RunesIndexer

open Resumption MonadicFold RuneUpdater

/-! ### Answers of the node -/

/-- What the node says about the transactions that the inputs of `b` refer to is true of a
    chain that contains `b` at `height`: the output that is spent is there, and the
    transaction is in a block up to `height`. -/
def Answers.Consistent (ans : Answers) (height : Nat) (b : BlockData) : Prop :=
  ∀ tx ∈ b.txdata, ∀ input ∈ tx.1.input, ∀ info : RawTransaction,
    ans (.getRawTransactionInfo input.previousOutput.txid)
      (.ok info : Except Error RawTransaction) →
    (∃ script, info.vout[input.previousOutput.vout]? = some (.ok script)) ∧
    ∃ hash, info.blockhash = some hash ∧
      ∀ n, ans (.getBlockHeaderInfo hash) (.ok n : Except Error Nat) → n ≤ height

/-- A call of `tx_commits_to_rune` may be answered with the error `e`. -/
def Answers.Fails (ans : Answers) (e : Error) : Prop :=
  (∃ txid, ans (.getRawTransactionInfo txid) (.error e : Except Error RawTransaction)) ∨
  ∃ hash, ans (.getBlockHeaderInfo hash) (.error e : Except Error Nat)

/-- Nothing the node may answer about the output `o` makes the commitment check at `height`
    trap, and it only fails with errors in `F`. -/
structure Answers.Tame (ans : Answers) (lib : Crates) (F : Error → Prop) (height : Nat)
    (o : OutPoint) : Prop where
  failed : ∀ e, ans (.getRawTransactionInfo o.txid) (.error e : Except Error RawTransaction) → F e
  spent : ∀ info, ans (.getRawTransactionInfo o.txid) (.ok info : Except Error RawTransaction) →
    o.vout < info.vout.length
  decoded : ∀ info e, ans (.getRawTransactionInfo o.txid)
    (.ok info : Except Error RawTransaction) → info.vout[o.vout]? = some (.error e) → F e
  contained : ∀ info script, ans (.getRawTransactionInfo o.txid)
    (.ok info : Except Error RawTransaction) → info.vout[o.vout]? = some (.ok script) →
    lib.isP2tr script = true → info.blockhash = none → F (.noBlockHash info.txid)
  headed : ∀ info script hash, ans (.getRawTransactionInfo o.txid)
    (.ok info : Except Error RawTransaction) → info.vout[o.vout]? = some (.ok script) →
    lib.isP2tr script = true → info.blockhash = some hash →
    (∀ e, ans (.getBlockHeaderInfo hash) (.error e : Except Error Nat) → F e) ∧
    ∀ n, ans (.getBlockHeaderInfo hash) (.ok n : Except Error Nat) → n ≤ height

/-- The commitment check of `tx` asks about the output `o`: the transaction names a rune that
    is free, and the input that spends `o` reveals the commitment to it. -/
def Crates.Asks (lib : Crates) (names : FinMap Rune RuneId) (minimum : Rune) (tx : Transaction)
    (o : OutPoint) : Prop :=
  ∃ artifact rune, lib.decipher tx = some artifact ∧ etchingOf artifact = some (some rune) ∧
    ¬ rune.n < minimum.n ∧ lib.isReserved rune = false ∧ names.get? rune = none ∧
    ∃ input ∈ tx.input, lib.Reveals rune input.witness ∧ input.previousOutput = o

/-- Fewer names are free later on. -/
theorem Crates.Asks.mono {lib : Crates} {names names' : FinMap Rune RuneId} {minimum : Rune}
    {tx : Transaction} {o : OutPoint}
    (hnames : ∀ rune, (names.get? rune).isSome → (names'.get? rune).isSome)
    (h : lib.Asks names' minimum tx o) : lib.Asks names minimum tx o := by
  obtain ⟨artifact, rune, hdec, hname, hmin, hres, hfree, hinput⟩ := h
  refine ⟨artifact, rune, hdec, hname, hmin, hres, ?_, hinput⟩
  rw [← Option.not_isSome_iff_eq_none]
  intro htaken
  have htaken' := hnames rune htaken
  rw [hfree] at htaken'
  cases htaken'

/-- Answers of a chain are tame. -/
theorem Answers.Consistent.tame {ans : Answers} {height : Nat} {b : BlockData}
    (h : ans.Consistent height b) (lib : Crates) (names : FinMap Rune RuneId) (minimum : Rune) :
    ∀ tx ∈ b.txdata, ∀ o, lib.Asks names minimum tx.1 o → ans.Tame lib ans.Fails height o := by
  intro tx htx o hasks
  obtain ⟨artifact, rune, -, -, -, -, -, input, hinput, -, rfl⟩ := hasks
  have hinfo := h tx htx input hinput
  constructor
  · intro e he
    exact .inl ⟨_, he⟩
  · intro info hans
    obtain ⟨⟨script, hscript⟩, -⟩ := hinfo info hans
    exact (List.getElem?_eq_some_iff.mp hscript).1
  · intro info e hans herror
    obtain ⟨⟨script, hscript⟩, -⟩ := hinfo info hans
    rw [hscript] at herror
    cases herror
  · intro info script hans _ _ hnone
    obtain ⟨-, hash, hhash, -⟩ := hinfo info hans
    rw [hhash] at hnone
    cases hnone
  · intro info script hash hans _ _ hhash
    obtain ⟨-, hash', hhash', hheight⟩ := hinfo info hans
    obtain rfl : hash' = hash := Option.some.inj (hhash'.symm.trans hhash)
    exact ⟨fun e he => .inr ⟨_, he⟩, hheight⟩

/-! ### Names that are taken -/

theorem Spend.names {L L' : Ledger} {o : OutPoint} {t t' : LotMap} {u u' : RuneUpdater}
    (h : Spend o (L, t, u) (L', t', u')) : L'.names = L.names ∧ u'.minimum = u.minimum := by
  cases h <;> exact ⟨rfl, rfl⟩

theorem Mint.names {lib : Crates} {tx : Transaction} {L L' : Ledger} {t t' : LotMap}
    {u u' : RuneUpdater} (h : Mint lib tx (L, t, u) (L', t', u')) :
    L'.names = L.names ∧ u'.minimum = u.minimum := by
  cases h <;> exact ⟨rfl, rfl⟩

theorem Output.names {lib : Crates} {tx : Transaction} {txid : Txid} {output : LotMap × Nat}
    {L L' : Ledger} {b b' : LotMap} {u u' : RuneUpdater}
    (h : Output lib tx txid output (L, b, u) (L', b', u')) : L'.names = L.names := by
  cases h <;> rfl

/-- A transaction takes no name back. -/
theorem TxPhases.names {lib : Crates} {txIndex : Nat} {tx : Transaction} {txid : Txid}
    {L L' : Ledger} {u u' : RuneUpdater} (h : TxPhases lib txIndex tx txid L u L' u') {rune : Rune}
    (hrune : (L.names.get? rune).isSome) : (L'.names.get? rune).isSome := by
  refine h.invariant (P := fun L _ => (L.names.get? rune).isSome)
    (M := fun L _ => (L.names.get? rune).isSome) (Q := fun L _ => (L.names.get? rune).isSome)
    ?_ ?_ ?_ ?_ (fun _ _ _ hP => hP) hrune
  · intro input _ L t u L' t' u' hP hstep
    rw [hstep.names.1]
    exact hP
  · intro L t u L' t' u' hP hstep
    rw [hstep.names.1]
    exact hP
  · intro L t u a L' t' u' hP hstep
    cases hstep with
    | plain _ => exact hP
    | unetched _ _ => exact hP
    | etched _ _ _ _ =>
      rw [FinMap.get?_insert]
      split
      · rfl
      · exact hP
  · intro output L b u L' b' u' hP hstep
    rw [hstep.names]
    exact hP

namespace RuneUpdater

/-! ### The commitment check -/

section commits

variable {lib : Crates} {ans : Answers} {u : RuneUpdater} {s : Store} {F : Error → Prop}

/-- Code that leaves the state as it is and fails with errors in `F` only. -/
def SafeHere {α : Type} (ans : Answers) (F : Error → Prop) (s : Store) (R : α → Prop)
    (p : IndexProc α) : Prop :=
  p.Safe ans (fun t => t = s) (fun t a => t = s ∧ R a) (fun t e => t = s ∧ F e)

theorem SafeHere.bind {α β : Type} {R : α → Prop} {R' : β → Prop} {x : AsyncM α}
    {f : α → AsyncM β} (hx : SafeHere ans F s R (x.run s))
    (hf : ∀ a, R a → SafeHere ans F s R' ((f a).run s)) :
    SafeHere ans F s R' ((x >>= f).run s) := by
  refine Proc.Safe.bind hx ?_
  rintro _ a ⟨rfl, ha⟩
  exact hf a ha

theorem getRawTransactionInfo_safe (txid : Txid)
    (hF : ∀ e, ans (.getRawTransactionInfo txid) (.error e : Except Error RawTransaction) → F e) :
    SafeHere ans F s (fun info => ans (.getRawTransactionInfo txid)
      (.ok info : Except Error RawTransaction)) ((getRawTransactionInfo txid).run s) := by
  refine ⟨rfl, fun reply hreply => ?_⟩
  cases reply with
  | ok info => exact ⟨rfl, hreply⟩
  | error e => exact ⟨rfl, hF e hreply⟩

theorem getBlockHeaderInfo_safe (hash : BlockHash)
    (hF : ∀ e, ans (.getBlockHeaderInfo hash) (.error e : Except Error Nat) → F e) :
    SafeHere ans F s (fun n => ans (.getBlockHeaderInfo hash) (.ok n : Except Error Nat))
      ((getBlockHeaderInfo hash).run s) := by
  refine ⟨rfl, fun reply hreply => ?_⟩
  cases reply with
  | ok n => exact ⟨rfl, hreply⟩
  | error e => exact ⟨rfl, hF e hreply⟩

theorem safeHere_pure {α : Type} (a : α) :
    SafeHere ans F s (fun _ => True) ((pure a : AsyncM α).run s) :=
  ⟨rfl, trivial⟩

/-- Code that only computes. -/
theorem safeHere_ok {α : Type} {x : Except Panic α} {a : α} (h : x = .ok a) :
    SafeHere ans F s (fun b => b = a) ((liftM x : AsyncM α).run s) := by
  subst h
  exact ⟨rfl, rfl⟩

theorem commitsInScript_safe (commitment : List UInt8) (o : OutPoint)
    (l : List (Except Unit Instruction))
    (hans : Pushes commitment l → ans.Tame lib F u.height o) :
    SafeHere ans F s (fun _ => True) ((commitsInScript lib u commitment o l).run s) := by
  induction l with
  | nil => exact safeHere_pure false
  | cons instruction rest ih =>
    cases instruction with
    | error e => exact safeHere_pure false
    | ok instruction =>
      have hrest := ih fun hpushes => hans (pushes_cons.mpr (.inr hpushes))
      unfold commitsInScript
      split
      · next hpushed =>
        have htame := hans (pushes_cons.mpr (.inl hpushed))
        refine SafeHere.bind (getRawTransactionInfo_safe o.txid htame.failed) fun info hinfo => ?_
        obtain ⟨output, houtput⟩ : ∃ output, info.vout[o.vout]? = some output :=
          ⟨_, List.getElem?_eq_getElem (htame.spent info hinfo)⟩
        refine SafeHere.bind (safeHere_ok (indexAt_eq_ok.mpr houtput)) ?_
        intro found hfound
        rw [hfound]
        cases output with
        | error e => exact ⟨rfl, htame.decoded info e hinfo houtput⟩
        | ok script =>
          refine SafeHere.bind (R := fun a => a = script) ⟨rfl, rfl⟩ ?_
          intro found hfound
          rw [hfound]
          split
          · next htaproot =>
            split
            · next hnone => exact ⟨rfl, htame.contained info _ hinfo houtput htaproot hnone⟩
            · next hash hhash =>
              obtain ⟨hfailed, hheight⟩ := htame.headed info _ hash hinfo houtput htaproot hhash
              refine SafeHere.bind (getBlockHeaderInfo_safe hash hfailed) fun n hn => ?_
              -- the commit is not above the current block, so the subtraction succeeds
              have hsub : unwrap (checkedSub u.height n) = .ok (u.height - n) := by
                unfold checkedSub
                rw [if_pos (hheight n hn)]
                rfl
              refine SafeHere.bind (safeHere_ok hsub) ?_
              rintro _ rfl
              dsimp only
              split
              · exact safeHere_pure true
              · exact hrest
          · exact hrest
      · exact hrest

theorem txCommitsToRune_safe {tx : Transaction} {rune : Rune}
    (hans : ∀ input ∈ tx.input, lib.Reveals rune input.witness →
      ans.Tame lib F u.height input.previousOutput) :
    SafeHere ans F s (fun _ => True) ((txCommitsToRune lib u tx rune).run s) := by
  unfold txCommitsToRune
  generalize tx.input = l at hans ⊢
  induction l with
  | nil => exact safeHere_pure false
  | cons input rest ih =>
    unfold commitsInInputs
    have hrest := ih fun input hinput => hans input (List.mem_cons_of_mem _ hinput)
    split
    · exact hrest
    · next tapscript htapscript =>
      refine SafeHere.bind (commitsInScript_safe _ _ _ fun hpushes =>
        hans input List.mem_cons_self ⟨tapscript, htapscript, hpushes⟩) fun commits _ => ?_
      split
      · exact safeHere_pure true
      · exact hrest

/-- An etching is accepted or refused, or a call fails before anything is written. -/
theorem etched_safe {tx : Transaction} {artifact : Artifact}
    (hdec : lib.decipher tx = some artifact)
    (hans : ∀ o, lib.Asks s.runeToRuneId u.minimum tx o → ans.Tame lib F u.height o)
    (txIndex : Nat) :
    ((etched lib u txIndex tx artifact).run s).Safe ans (fun t => t = s)
      (fun t out => Etched lib u txIndex artifact s t out) (fun t e => t = s ∧ F e) := by
  have hsafe : ((etched lib u txIndex tx artifact).run s).Safe ans (fun t => t = s)
      (fun _ _ => True) (fun t e => t = s ∧ F e) := by
    unfold etched
    split
    · trivial
    · next rune hname =>
      simp only [gets, Async.run_bind, Async.run_liftM, Sync.run_gets, Result.toProc, Proc.bind]
      split
      · trivial
      · next hcond =>
        simp only [not_or, Store.memGetRuneToRuneId, Option.not_isSome_iff_eq_none] at hcond
        obtain ⟨hmin, hres, hfree⟩ := hcond
        refine Proc.Safe.bind (txCommitsToRune_safe fun input hinput hreveals => hans _
          ⟨artifact, rune, hdec, hname, hmin, by simpa using hres, hfree, input, hinput,
            hreveals, rfl⟩) ?_
        rintro _ commits ⟨rfl, -⟩
        dsimp only
        split <;> trivial
    · trivial
  exact hsafe.imp (fun _ h => h) (fun _ _ hrun _ => etched_runs hrun) fun _ _ h => h

end commits

/-! ### The phases of a transaction -/

/-- Between the phases of a transaction of the block at `height`: the units are in the
    ledger, in the map `t` or elsewhere, as `x` says, and none of them is too many. -/
structure Midway (height : Nat) (s : Store) (t : LotMap) (x : RuneId → Nat) : Prop where
  flow : InFlight s.ledger t x
  bounded : s.ledger.Bounded
  paired : s.ledger.Paired
  rows : s.RowsEndAt height

section phases

variable {lib : Crates} {tx : Transaction} {txid : Txid} {s : Store} {t : LotMap}
  {u : RuneUpdater} {x : RuneId → Nat}

/-- The units in play fit into a `u128`. -/
theorem Midway.room {height : Nat} (h : Midway height s t x) (id : RuneId) :
    t.amount id + x id < u128Bound := by
  have := h.flow.conserved id
  have := h.bounded.issued_lt id
  omega

theorem unallocatedInput_returns (h : Midway u.height s t x) (input : TxIn) :
    ∃ s' t' u', (unallocatedInput (t, u) input).run s = .ok s' (t', u') := by
  rw [unallocatedInput_run]
  cases hl : s.outpointToRuneBalances.get? input.previousOutput with
  | none => exact ⟨_, _, _, rfl⟩
  | some l =>
    have hget : s.ledger.balances.get? input.previousOutput = some (Multiset.ofList l) := by
      rw [Store.ledger_balances_get?, hl]
      rfl
    obtain ⟨t', ht'⟩ : ∃ t', addAll t (l.map fun b => (b.runeId, b.balance)) = .ok t' := by
      refine addAll_returns fun id => ?_
      -- what the outpoint holds is part of what all outpoints hold
      have hheld : heldIn (Multiset.ofList l) id ≤ s.ledger.held id :=
        FinMap.le_total (fun _ B => heldIn B id) hget
      rw [heldIn_ofList] at hheld
      have := h.flow.conserved id
      have := h.bounded.issued_lt id
      omega
    obtain ⟨n, hn⟩ := Option.isSome_iff_exists.mp (h.paired input.previousOutput (by rw [hget]; rfl))
    have hn' : s.outpointToHeight.get? input.previousOutput = some n := hn
    dsimp only
    rw [takeBalances_eq_addAll, ht', hn']
    exact ⟨_, _, _, rfl⟩

/-- All inputs are spent. -/
theorem unallocated_returns (h : Midway u.height s ∅ x) (tx : Transaction) :
    ∃ s' t' u', (u.unallocated tx).run s = .ok s' (t', u') ∧ Midway u.height s' t' x ∧
      u'.height = u.height ∧ u'.burned = u.burned ∧ s'.ledger.entries = s.ledger.entries ∧
      s'.ledger.names = s.ledger.names ∧ u'.minimum = u.minimum := by
  -- spending keeps every balance within the amounts that are in flight
  have hstep : ∀ input ∈ tx.input, ∀ (st : LotMap × RuneUpdater) s₁,
      (Midway u.height s₁ st.1 x ∧ st.2.height = u.height ∧ st.2.burned = u.burned ∧
        s₁.ledger.entries = s.ledger.entries ∧ s₁.ledger.names = s.ledger.names ∧
        st.2.minimum = u.minimum) →
      ∃ s₂ st', (unallocatedInput st input).run s₁ = .ok s₂ st' ∧
        (Midway u.height s₂ st'.1 x ∧ st'.2.height = u.height ∧ st'.2.burned = u.burned ∧
          s₂.ledger.entries = s.ledger.entries ∧ s₂.ledger.names = s.ledger.names ∧
          st'.2.minimum = u.minimum) := by
    rintro input - ⟨t₁, u₁⟩ s₁ ⟨hmid, hheight, hburned, hentries, hnames, hmin⟩
    dsimp only at hmid hheight hburned hmin
    obtain ⟨s₂, t₂, u₂, hrun⟩ := unallocatedInput_returns (u := u₁) (hheight.symm ▸ hmid) input
    have hinput := unallocatedInput_eq_ok hrun
    have hspend := hinput.spend
    obtain ⟨hentries', hheight', hburned', -⟩ := hspend.frame
    obtain ⟨hnames', hmin'⟩ := hspend.names
    have hw := hinput.within.1
    rw [hheight] at hw
    exact ⟨s₂, (t₂, u₂), hrun,
      ⟨hmid.flow.spend hspend, hmid.bounded.spend hspend, hmid.paired.spend hspend,
        hw.rowsEnd hmid.rows⟩,
      hheight'.trans hheight, hburned'.trans hburned, hentries'.trans hentries,
      hnames'.trans hnames, hmin'.trans hmin⟩
  obtain ⟨s', ⟨t', u'⟩, hrun, hP⟩ := sync_foldlM_total hstep (b := (∅, u))
    ⟨h, rfl, rfl, rfl, rfl, rfl⟩
  exact ⟨s', t', u', hrun, hP⟩

/-- The mint of an artifact. -/
theorem indexMint_returns {artifact : Artifact} (hdec : lib.decipher tx = some artifact)
    (h : Midway u.height s t x) :
    ∃ s' t' u', (u.indexMint artifact t).run s = .ok s' (t', u') ∧ Midway u.height s' t' x ∧
      u'.height = u.height ∧ u'.burned = u.burned ∧
      (∀ id, s'.ledger.Known id ↔ s.ledger.Known id) ∧ s'.ledger.names = s.ledger.names ∧
      u'.minimum = u.minimum := by
  obtain ⟨s', t', u', hrun⟩ : ∃ s' t' u', (u.indexMint artifact t).run s = .ok s' (t', u') := by
    unfold indexMint
    cases hmint : artifact.mint with
    | none => exact ⟨s, t, u, rfl⟩
    | some id =>
      obtain ⟨s', amount, u', hrun, hm⟩ := mint_run u id s
      dsimp only
      rw [Sync.run_bind, hrun]
      cases hm with
      | refused _ => exact ⟨_, _, _, rfl⟩
      | @minted e amount he hm =>
        -- one more mint is still within the supply
        obtain ⟨-, -, hlt, rfl⟩ := RuneEntry.mintable_eq_ok.mp hm
        have hsupply := (h.bounded id e he).supply
        have hmore : (e.mints + 1) * e.mintAmount ≤ e.mintCap * e.mintAmount :=
          Nat.mul_le_mul_right _ hlt
        rw [Nat.add_mul, Nat.one_mul] at hmore
        have hconserved := h.flow.conserved id
        rw [issued_of_get? he] at hconserved
        obtain ⟨t', hadd⟩ := addTo_returns t id e.mintAmount (by omega)
        exact ⟨_, _, _, Sync.liftM_bind_eq_ok.mpr ⟨t', hadd, rfl⟩⟩
  have hphase := indexMint_phase hdec hrun
  have hmint := hphase.mint
  obtain ⟨⟨hbalances, hheights⟩, hheight, hburned, hknown⟩ := hmint.frame
  refine ⟨s', t', u', hrun, ⟨h.flow.mint hmint, h.bounded.mint hmint,
    h.paired.congr hbalances hheights, ?_⟩, hheight, hburned, hknown, hmint.names⟩
  cases hphase with
  | absent _ => exact h.rows
  | refused _ _ _ => exact h.rows
  | minted _ _ hm _ => exact hm.within.1.rowsEnd h.rows

/-- What etching means for the artifact. -/
theorem Etched.etching {txIndex : Nat} {artifact : Artifact} {s' : Store}
    {out : Option (RuneId × Rune)} (h : Etched lib u txIndex artifact s s' out)
    (hout : out.isSome) : (etchingOf artifact).isSome := by
  cases h with
  | refused => cases hout
  | named hname _ _ _ => rw [hname]; rfl
  | reserved hname => rw [hname]; rfl

theorem etching_isSome {r : Runestone} (h : (etchingOf (.runestone r)).isSome) :
    r.etching.isSome := by
  unfold etchingOf at h
  simpa using h

theorem newRuneEntry_returns {artifact : Artifact} (h : (etchingOf artifact).isSome)
    (id : RuneId) (rune : Rune) : ∃ entry, newRuneEntry u txid artifact id rune = .ok entry := by
  unfold newRuneEntry
  cases artifact with
  | cenotaph c => exact ⟨_, rfl⟩
  | runestone r =>
    obtain ⟨etching, he⟩ := Option.isSome_iff_exists.mp (etching_isSome h)
    exact ⟨_, except_bind_eq_ok.mpr ⟨etching, unwrap_eq_ok.mpr he, rfl⟩⟩

/-- Premine and edicts of an artifact whose etching was decided. -/
theorem indexRunestone_safe (hlib : lib.Lawful) {artifact : Artifact} {txIndex : Nat}
    {s' : Store} {out : Option (RuneId × Rune)} (hdec : lib.decipher tx = some artifact)
    (h : Midway u.height s t x) (hfree : ¬ s.ledger.Known ⟨u.height, txIndex⟩)
    (hetched : Etched lib u txIndex artifact s s' out) :
    ∃ t' a', indexRunestone lib tx artifact out t = .ok (t', a') := by
  refine indexRunestone_returns ?_ ?_ fun id => ?_
  · rintro r rfl
    exact hlib.edicts tx r hdec
  · rintro r rfl hout
    exact etching_isSome (hetched.etching hout)
  · split
    · next hid =>
      -- the new rune has no units yet, so its premine is all there is
      obtain ⟨⟨id', rune⟩, rfl⟩ := Option.isSome_iff_exists.mp
        (by rw [← Option.isSome_map (f := Prod.fst), hid]; rfl : out.isSome)
      obtain rfl : id' = id := Option.some.inj hid
      have hnone : t.get? id' = none := by
        rw [← Option.not_isSome_iff_eq_none]
        intro hsome
        exact hfree (hetched.id_eq ▸ h.flow.keys id' hsome)
      rw [FinMap.amount_of_get?_eq_none hnone, Nat.zero_add]
      unfold premineOf
      split
      · next =>
        obtain ⟨etching, he⟩ := Option.isSome_iff_exists.mp (etching_isSome (hetched.etching rfl))
        have := hlib.supply tx _ etching hdec he
        rw [he, Option.bind_some]
        omega
      · exact Nat.two_pow_pos 128
    · have := h.room id
      omega

theorem EtchPhase.midway (hlib : lib.Lawful) {txIndex : Nat} {s' : Store} {t' : LotMap}
    {a' : List LotMap} {u' : RuneUpdater} (h : Midway u.height s t x)
    (hfree : s.ledger.entries.get? ⟨u.height, txIndex⟩ = none)
    (hstep : EtchPhase lib txIndex tx txid s t u s' t' a' u') :
    Midway u.height s' t' (fun id => allocatedTo a' id + x id) ∧
      a'.length = tx.output.length ∧ u'.burned = u.burned := by
  have hetch := hstep.etch h.rows
  obtain ⟨⟨hbalances, hheights⟩, -, hburned, -⟩ := hetch.frame
  obtain ⟨hflow, -⟩ := h.flow.etch hfree hetch
  refine ⟨⟨hflow, h.bounded.etch hlib hetch, h.paired.congr hbalances hheights, ?_⟩, ?_, hburned⟩
  · cases hstep with
    | plain _ => exact h.rows
    | unetched _ _ => exact h.rows
    | etched _ hetched _ _ =>
      exact (createdStore_within u txid _ _ _ _).rowsEnd (hetched.within.rowsEnd h.rows)
  · cases hstep with
    | plain _ => exact List.length_replicate
    | unetched _ hstone => exact (indexRunestone_total hstone).2.1
    | etched _ _ hstone _ => exact (indexRunestone_total hstone).2.1

/-- Mint, etching, premine and edicts. -/
theorem indexArtifact_safe (hlib : lib.Lawful) {ans : Answers} {F : Error → Prop}
    (hans : ∀ o, lib.Asks s.runeToRuneId u.minimum tx o → ans.Tame lib F u.height o)
    {artifact : Artifact} (hdec : lib.decipher tx = some artifact) {txIndex : Nat}
    (h : Midway u.height s t x) (hfree : ¬ s.ledger.Known ⟨u.height, txIndex⟩) :
    ((indexArtifact lib u txIndex tx txid artifact t).run s).Safe ans (fun s' => s'.ledger.Bounded)
      (fun s' y => Midway u.height s' y.1 (fun id => allocatedTo y.2.1 id + x id) ∧
        y.2.1.length = tx.output.length ∧ y.2.2.burned = u.burned)
      (fun s' e => s'.ledger.Bounded ∧ F e) := by
  obtain ⟨s₁, t₁, u₁, hrun, hmid, hheight, hburned, hknown, hnames, hmin⟩ :=
    indexMint_returns hdec h
  have hmid₁ : Midway u₁.height s₁ t₁ x := hheight.symm ▸ hmid
  have hfree₁ : ¬ s₁.ledger.Known ⟨u₁.height, txIndex⟩ := by
    rw [hknown, hheight]
    exact hfree
  have hnone₁ : s₁.ledger.entries.get? ⟨u₁.height, txIndex⟩ = none := by
    simpa [Ledger.Known] using hfree₁
  have hans₁ : ∀ o, lib.Asks s₁.runeToRuneId u₁.minimum tx o → ans.Tame lib F u₁.height o := by
    intro o hasks
    rw [show s₁.runeToRuneId = s.runeToRuneId from hnames, hmin] at hasks
    rw [hheight]
    exact hans o hasks
  unfold indexArtifact
  refine Async.safe_liftM_bind hrun ?_
  -- the calls to the node are all in `etched`
  have hsafe : ((etched lib u₁ txIndex tx artifact).run s₁).Safe ans (fun s' => s'.ledger.Bounded)
      (fun s₂ out => Etched lib u₁ txIndex artifact s₁ s₂ out)
      (fun s' e => s'.ledger.Bounded ∧ F e) :=
    (etched_safe hdec hans₁ txIndex).imp
      (fun _ h => h ▸ hmid.bounded) (fun _ _ _ h => h) (fun _ _ h => ⟨h.1 ▸ hmid.bounded, h.2⟩)
  refine hsafe.bind ?_
  intro s₂ out hetched
  obtain ⟨t₂, a₂, hstone⟩ := indexRunestone_safe hlib hdec hmid₁ hfree₁ hetched
  refine Async.safe_except_bind hstone ?_
  cases out with
  | none =>
    cases hetched
    have hphase : EtchPhase lib txIndex tx txid s₁ t₁ u₁ s₁ t₂ a₂ u₁ := .unetched hdec hstone
    obtain ⟨hmid₂, hlen, hburned₂⟩ := hphase.midway hlib hmid₁ hnone₁
    exact ⟨hheight ▸ hmid₂, hlen, hburned₂.trans hburned⟩
  | some pair =>
    obtain ⟨id, rune⟩ := pair
    obtain ⟨entry, hentry⟩ : ∃ entry, newRuneEntry u₁ txid artifact id rune = .ok entry :=
      newRuneEntry_returns (hetched.etching rfl) id rune
    have hcreate : (u₁.createRuneEntry txid artifact id rune).run s₂ =
        .ok (createdStore u₁ txid id rune entry s₂) (created u₁ txid id rune) :=
      createRuneEntry_eq_ok.mpr ⟨entry, hentry, rfl, rfl⟩
    refine Async.safe_liftM_bind hcreate ?_
    obtain ⟨hmid₂, hlen, hburned₂⟩ :=
      (EtchPhase.etched hdec hetched hstone hentry).midway hlib hmid₁ hnone₁
    exact ⟨hheight ▸ hmid₂, hlen, hburned₂.trans hburned⟩

/-- The loop over the outputs from number `n` on, while `y` units are elsewhere. -/
theorem outputs_returns {ord : HashOrder} {txIndex n : Nat} {a : List LotMap} {b : LotMap}
    {y : RuneId → Nat} (hlen : n + a.length ≤ tx.output.length)
    (hfit : ∀ id, b.amount id + allocatedTo a id + y id < u128Bound) :
    ∃ s' b' u', ((a.zipIdx n).foldlM (updateOutpoint lib ord txIndex tx txid) (b, u)).run s =
        .ok s' (b', u') ∧ u'.burned = u.burned ∧ ∀ id, b'.amount id + y id < u128Bound := by
  induction a generalizing n b s u with
  | nil =>
    refine ⟨s, b, u, sync_foldlM_nil.mpr ⟨rfl, rfl⟩, rfl, fun id => ?_⟩
    have := hfit id
    omega
  | cons m a ih =>
    rw [List.length_cons] at hlen
    have hget : tx.output[n]? = some tx.output[n] := List.getElem?_eq_getElem (by omega)
    have hcons : ∀ id, allocatedTo (m :: a) id = m.amount id + allocatedTo a id := fun id => by
      simp [allocatedTo]
    obtain ⟨s₁, b₁, u₁, hrun, hburned, hfit₁⟩ : ∃ s₁ b₁ u₁,
        (updateOutpoint lib ord txIndex tx txid (b, u) (m, n)).run s = .ok s₁ (b₁, u₁) ∧
        u₁.burned = u.burned ∧ ∀ id, b₁.amount id + allocatedTo a id + y id < u128Bound := by
      -- what output `n` does not burn leaves room for the outputs after it
      have hkeep : ∀ id, b.amount id + allocatedTo a id + y id < u128Bound := fun id => by
        have := hfit id
        have := hcons id
        omega
      rw [updateOutpoint_run, hget]
      split
      · exact ⟨s, b, u, rfl, rfl, hkeep⟩
      · dsimp only
        split
        · obtain ⟨b₁, hadd⟩ := addAll_returns (m := b)
            (l := ord.iter (.allocated u.height txIndex n) m) fun id => by
              have := hfit id
              have := hcons id
              rw [sumAt_iter]
              omega
          rw [hadd]
          refine ⟨s, b₁, u, rfl, rfl, fun id => ?_⟩
          have := hfit id
          have := hcons id
          rw [addAll_amount hadd id, sumAt_iter]
          omega
        · exact ⟨_, _, _, rfl, rfl, hkeep⟩
    obtain ⟨s', b', u', hloop, hburned', hfit'⟩ : ∃ s' b' u',
        ((a.zipIdx (n + 1)).foldlM (updateOutpoint lib ord txIndex tx txid) (b₁, u₁)).run s₁ =
          .ok s' (b', u') ∧ u'.burned = u₁.burned ∧ ∀ id, b'.amount id + y id < u128Bound :=
      ih (by omega) hfit₁
    rw [List.zipIdx_cons]
    exact ⟨s', b', u', sync_foldlM_cons.mpr ⟨s₁, (b₁, u₁), hrun, hloop⟩,
      hburned'.trans hburned, hfit'⟩

/-- From the assignment of the unallocated runes to the end of the transaction. -/
theorem finishTransaction_returns (hlib : lib.Lawful) {ord : HashOrder} {txIndex : Nat}
    {a : List LotMap} (hlen : a.length = tx.output.length)
    (hfit : ∀ id, t.amount id + (allocatedTo a id + u.burned.amount id) < u128Bound) :
    ∃ s' u', (finishTransaction lib ord u txIndex tx txid (lib.decipher tx) t a).run s =
      .ok s' u' := by
  obtain ⟨a₁, burned, hassign⟩ : ∃ a₁ burned, assignUnallocated lib tx (lib.decipher tx)
      (ord.iter (.unallocated u.height txIndex) t) a = .ok (a₁, burned) := by
    refine assignUnallocated_returns (fun r p hdec hp => hlib.pointer tx r p hdec hp) hlen ?_
    intro id
    have := hfit id
    rw [sumAt_iter]
    omega
  obtain ⟨htotal, hlen₁, -⟩ := assignUnallocated_total hassign
  -- the outputs burn at most what they were given, which fits beside the block's own count
  obtain ⟨s₁, burned₁, u₁, hout, hburned, hfit₁⟩ : ∃ s₁ burned₁ u₁,
      (a₁.zipIdx.foldlM (updateOutpoint lib ord txIndex tx txid) (burned, u)).run s =
        .ok s₁ (burned₁, u₁) ∧ u₁.burned = u.burned ∧
      ∀ id, burned₁.amount id + u.burned.amount id < u128Bound := by
    refine outputs_returns (by omega) ?_
    intro id
    have := hfit id
    have := htotal id
    rw [sumAt_iter] at this
    omega
  obtain ⟨allBurned, hadd⟩ : ∃ allBurned,
      addAll u₁.burned (ord.iter (.txBurned u₁.height txIndex) burned₁) = .ok allBurned := by
    refine addAll_returns fun id => ?_
    have := hfit₁ id
    rw [sumAt_iter, hburned]
    omega
  refine ⟨s₁, { u₁ with burned := allBurned }, ?_⟩
  unfold finishTransaction
  refine Sync.liftM_bind_eq_ok.mpr ⟨(a₁, burned), hassign, ?_⟩
  exact Sync.bind_eq_ok.mpr ⟨s₁, (burned₁, u₁), hout, Sync.liftM_bind_eq_ok.mpr ⟨_, hadd, rfl⟩⟩

end phases

/-! ### Transactions and blocks -/

/-- A transaction of a block whose rune and outputs are new. -/
theorem indexRunes_safe {lib : Crates} (hlib : lib.Lawful) {ord : HashOrder} {ans : Answers}
    {F : Error → Prop} {u : RuneUpdater} {tx : Transaction} {s : Store}
    (hans : ∀ o, lib.Asks s.runeToRuneId u.minimum tx o → ans.Tame lib F u.height o)
    {txid : Txid} {txIndex : Nat} (h : Midway u.height s u.burned fun _ => 0)
    (hfree : s.ledger.entries.get? ⟨u.height, txIndex⟩ = none) :
    ((u.indexRunes lib ord txIndex tx txid).run s).Safe ans (fun s' => s'.ledger.Bounded)
      (fun _ _ => True) (fun s' e => s'.ledger.Bounded ∧ F e) := by
  have h₀ : Midway u.height s ∅ u.burned.amount :=
    ⟨h.flow.move rfl (fun id => by simp) h.flow.balances (LotMap.keysIn_empty _), h.bounded,
      h.paired, h.rows⟩
  obtain ⟨s₁, t₁, u₁, hrun, hmid, hheight, hburned, hentries, hnames, hmin⟩ :=
    unallocated_returns h₀ tx
  have hmid₁ : Midway u₁.height s₁ t₁ u.burned.amount := hheight.symm ▸ hmid
  have hfree₁ : s₁.ledger.entries.get? ⟨u₁.height, txIndex⟩ = none := by
    rw [hentries, hheight]
    exact hfree
  unfold indexRunes
  refine Async.safe_liftM_bind hrun ?_
  -- after the artifact the purse is spread over the outputs, with the same sum
  refine Proc.Safe.bind (R := fun s' y => Midway u₁.height s' y.1
      (fun id => allocatedTo y.2.1 id + u.burned.amount id) ∧
      y.2.1.length = tx.output.length ∧ y.2.2.burned = u.burned) ?_ ?_
  · cases hdec : lib.decipher tx with
    | none =>
      have hphase : EtchPhase lib txIndex tx txid s₁ t₁ u₁ s₁ t₁
        (List.replicate tx.output.length ∅) u₁ := .plain hdec
      obtain ⟨hmid₂, hlen, -⟩ := hphase.midway hlib hmid₁ hfree₁
      exact ⟨hmid₂, hlen, hburned⟩
    | some artifact =>
      have hans₁ : ∀ o, lib.Asks s₁.runeToRuneId u₁.minimum tx o →
          ans.Tame lib F u₁.height o := by
        intro o hasks
        rw [show s₁.runeToRuneId = s.runeToRuneId from hnames, hmin] at hasks
        rw [hheight]
        exact hans o hasks
      refine (indexArtifact_safe hlib hans₁ hdec hmid₁ ?_).imp
        (fun _ h => h) (fun _ _ _ h => ⟨h.1, h.2.1, h.2.2.trans hburned⟩) (fun _ _ h => h)
      unfold Ledger.Known
      rw [hfree₁]
      exact Bool.false_ne_true
  · rintro s₂ ⟨t₂, a₂, u₂⟩ ⟨hmid₂, hlen, hburned₂⟩
    obtain ⟨s₃, u₃, hfinish⟩ : ∃ s₃ u₃, (finishTransaction lib ord u₂ txIndex tx txid
        (lib.decipher tx) t₂ a₂).run s₂ = .ok s₃ u₃ := by
      refine finishTransaction_returns hlib hlen fun id => ?_
      rw [hburned₂]
      exact hmid₂.room id
    dsimp only
    rw [Async.run_liftM, hfinish]
    trivial

end RuneUpdater

/-- A property indexed by the number of transactions done makes a list of them safe. -/
theorem indexTransactions_safe {lib : Crates} {ord : HashOrder} {ans : Answers}
    {W : Store → Prop} {E : Store → Error → Prop} {P : Nat → Store → RuneUpdater → Prop}
    {l : List (Transaction × Txid)} {n : Nat}
    (hstep : ∀ i tx txid, l[i]? = some (tx, txid) → ∀ s u, P (n + i) s u →
      ((u.indexRunes lib ord (n + i) tx txid).run s).Safe ans W (P (n + i + 1)) E)
    {u : RuneUpdater} {s : Store} (h₀ : P n s u) :
    ((indexTransactions lib ord u n l).run s).Safe ans W (P (n + l.length)) E := by
  induction l generalizing n u s with
  | nil => exact h₀
  | cons e l ih =>
    obtain ⟨tx, txid⟩ := e
    refine Proc.Safe.bind (hstep 0 tx txid rfl s u h₀) ?_
    intro s₁ u₁ h₁
    rw [List.length_cons, show n + (l.length + 1) = n + 1 + l.length by omega]
    refine ih (fun i tx txid hi s u hP => ?_) h₁
    have := hstep (i + 1) tx txid (by simpa using hi) s u
    rw [show n + (i + 1) = n + 1 + i by omega] at this
    exact this hP

namespace RuneUpdater

/-- The flush of burned runes that have entries. -/
theorem updateBurned_returns {l : List (RuneId × Nat)} {s : Store} (record : ChangeRecord)
    (h : InFlight s.ledger ∅ (sumAt l)) (hb : s.ledger.Bounded)
    (hknown : ∀ e ∈ l, s.ledger.Known e.1) :
    ∃ s' record', (l.foldlM updateBurned record).run s = .ok s' record' ∧ s'.ledger.Bounded := by
  induction l generalizing s record with
  | nil => exact ⟨s, record, sync_foldlM_nil.mpr ⟨rfl, rfl⟩, hb⟩
  | cons e l ih =>
    obtain ⟨entry, hentry⟩ := Option.isSome_iff_exists.mp (hknown e List.mem_cons_self)
    have hroom : entry.burned + e.2 < u128Bound := by
      have hconserved := h.conserved e.1
      have := hb.issued_lt e.1
      rw [burned_of_get? hentry, sumAt_cons, if_pos rfl] at hconserved
      omega
    have hstep : (updateBurned record e).run s = .ok _ _ :=
      updateBurned_eq_ok.mpr ⟨entry, hentry, hroom, rfl, rfl⟩
    have hflow := InFlight.burn (L := s.ledger) (n := e.2) (x := sumAt l)
      (h.move rfl (fun id => by rw [sumAt_cons]) h.balances h.keys) hentry
    have hknown₁ : ∀ e' ∈ l, (s.memInsertRuneIdToRuneEntry e.1
        { entry with burned := entry.burned + e.2 }).ledger.Known e'.1 := fun e' he' =>
      (known_insert_iff hentry e'.1).mpr (hknown e' (List.mem_cons_of_mem _ he'))
    obtain ⟨s', record', hrest, hb'⟩ := ih _ hflow (hb.burn hentry _) hknown₁
    exact ⟨s', record', sync_foldlM_cons.mpr ⟨_, _, hstep, hrest⟩, hb'⟩

theorem update_returns (ord : HashOrder) {u : RuneUpdater} {s : Store}
    (h : InFlight s.ledger u.burned fun _ => 0) (hb : s.ledger.Bounded) :
    ∃ s', (u.update ord).run s = .ok s' () ∧ s'.ledger.Bounded := by
  obtain ⟨s', record, hfold, hb'⟩ := updateBurned_returns u.changeRecord
    (l := ord.iter (.blockBurned u.height) u.burned)
    (h.move rfl (fun id => by simp [sumAt_iter]) h.balances (LotMap.keysIn_empty _)) hb
    (fun e he => h.keys e.1 (by rw [mem_iter.mp he]; rfl))
  exact ⟨_, update_eq_ok.mpr ⟨s', record, hfold, rfl⟩, hb'⟩

end RuneUpdater

/-- State and updater when the first `i` transactions of the block `b` on top of `chain` are
    done. -/
structure Underway (lib : Crates) (network : BitcoinNetwork) (chain : List BlockData)
    (b : BlockData) (i : Nat) (s : Store) (u : RuneUpdater) : Prop where
  midway : Midway u.height s u.burned fun _ => 0
  height_eq : u.height = lib.firstRuneHeight network + chain.length
  minimum : u.minimum =
    lib.minimumAtHeight network (lib.firstRuneHeight network + chain.length)
  placed : Placed (doneAt (lib.firstRuneHeight network) chain b i) s.ledger

section underway

variable {lib : Crates} {network : BitcoinNetwork} {chain : List BlockData} {b : BlockData}
  {ord : HashOrder} {ans : Answers} {i : Nat} {s s' : Store} {u u' : RuneUpdater}

/-- Before the first transaction. -/
theorem underway_start (hrows : s.RowsBelow (lib.firstRuneHeight network + chain.length))
    (h : InFlight s.ledger ∅ fun _ => 0) (hb : s.ledger.Bounded) (hp : s.ledger.Paired)
    (hplaced : Placed (located (lib.firstRuneHeight network) chain) s.ledger) :
    Underway lib network chain b 0
      (startBlock (lib.firstRuneHeight network + chain.length) s)
      (RuneUpdater.new lib network (lib.firstRuneHeight network + chain.length) b.header.time
        s.memStatisticRunes) := by
  have hledger := startBlock_ledger hrows.upTo
  refine ⟨⟨?_, ?_, ?_, startBlock_rowsEndAt hrows.upTo⟩, rfl, rfl, ?_⟩
  · rw [hledger]
    exact h
  · rw [hledger]
    exact hb
  · rw [hledger]
    exact hp
  · rw [doneAt_zero, hledger]
    exact hplaced

theorem Underway.entry_free (h : Underway lib network chain b i s u) :
    s.ledger.entries.get? ⟨u.height, i⟩ = none :=
  h.height_eq ▸ h.placed.entry_free

/-- One more transaction. -/
theorem Underway.step (hlib : lib.Lawful) (hdistinct : DistinctTxids (chain ++ [b]))
    (h : Underway lib network chain b i s u) {tx : Transaction} {txid : Txid}
    (hget : b.txdata[i]? = some (tx, txid))
    (hrun : Proc.Runs ans ((u.indexRunes lib ord i tx txid).run s) (.ok s' u')) :
    Underway lib network chain b (i + 1) s' u' := by
  have hphases := indexRunes_phases h.midway.rows hrun
  obtain ⟨hwithin, hsame⟩ := indexRunes_within hrun
  refine ⟨⟨h.midway.flow.indexRunes h.entry_free (h.placed.outpoint_free hdistinct hget) hphases,
    h.midway.bounded.indexRunes hlib hphases, h.midway.paired.indexRunes hphases, ?_⟩,
    hsame.height.trans h.height_eq, hsame.minimum.trans h.minimum,
    h.placed.indexRunes hget h.height_eq hphases⟩
  rw [hsame.height]
  exact hwithin.rowsEnd h.midway.rows

/-- A block on top of a chain whose units are accounted for, as long as the answers about the
    outputs that it asks for are tame. -/
theorem indexBlock_safe (hlib : lib.Lawful) (ord : HashOrder) {F : Error → Prop}
    (hdistinct : DistinctTxids (chain ++ [b]))
    (hans : ∀ tx ∈ b.txdata, ∀ o, lib.Asks s.runeToRuneId
      (lib.minimumAtHeight network (lib.firstRuneHeight network + chain.length)) tx.1 o →
      ans.Tame lib F (lib.firstRuneHeight network + chain.length) o)
    (hrows : s.RowsBelow (lib.firstRuneHeight network + chain.length))
    (h : InFlight s.ledger ∅ fun _ => 0) (hb : s.ledger.Bounded) (hp : s.ledger.Paired)
    (hplaced : Placed (located (lib.firstRuneHeight network) chain) s.ledger) :
    ((indexBlock lib ord network (lib.firstRuneHeight network + chain.length) b).run s).Safe ans
      (fun s' => s'.ledger.Bounded) (fun s' _ => s'.ledger.Bounded)
      (fun s' e => s'.ledger.Bounded ∧ F e) := by
  unfold indexBlock
  have hinit : (initStatistics (lib.firstRuneHeight network + chain.length)).run s =
      .ok (startBlock (lib.firstRuneHeight network + chain.length) s) s.memStatisticRunes := rfl
  refine Async.safe_liftM_bind hinit ?_
  -- names are never taken back, so what asks now asked at the start of the block
  refine Proc.Safe.bind (indexTransactions_safe (P := fun i s₁ u =>
    Underway lib network chain b i s₁ u ∧
      ∀ rune, (s.runeToRuneId.get? rune).isSome → (s₁.runeToRuneId.get? rune).isSome)
    (n := 0) ?_ ⟨underway_start hrows h hb hp hplaced, fun _ hrune => hrune⟩) ?_
  · intro i tx txid hget s₁ u hP
    rw [Nat.zero_add] at hP ⊢
    obtain ⟨hunder, hnames⟩ := hP
    have hans₁ : ∀ o, lib.Asks s₁.runeToRuneId u.minimum tx o → ans.Tame lib F u.height o := by
      intro o hasks
      rw [hunder.minimum] at hasks
      rw [hunder.height_eq]
      exact hans _ (List.mem_of_getElem? hget) o (hasks.mono hnames)
    refine (indexRunes_safe hlib hans₁ hunder.midway hunder.entry_free).imp
      (fun _ h => h) (fun s' u' hrun _ => ?_) (fun _ _ h => h)
    have hphases := indexRunes_phases hunder.midway.rows hrun
    exact ⟨hunder.step hlib hdistinct hget hrun,
      fun rune hrune => hphases.names (hnames rune hrune)⟩
  · rintro s₁ u₁ ⟨hunder, -⟩
    obtain ⟨s₂, hupdate, hb₂⟩ := update_returns ord hunder.midway.flow hunder.midway.bounded
    exact Async.safe_liftM_bind hupdate hb₂

end underway

/-! ### Runs -/

/-- Along every run, the next block is indexed without a trap and without an error that is
    not the node's, every rollback that is asked for returns, and the supplies that queries
    compute do not wrap. No count of mints exceeds its cap, wherever the block stops. -/
theorem Run.no_trap {lib : Crates} {network : BitcoinNetwork} {node : Node}
    {chain : List BlockData} {s : Store} (hlib : lib.Lawful)
    (h : Run lib network node DistinctTxids chain s) :
    (∀ b ord (ans : Answers), DistinctTxids (chain ++ [b]) →
      ans.Consistent (s.nextBlock lib network).1 b →
      (∀ r, Proc.Runs ans ((indexBlock lib ord network (s.nextBlock lib network).1 b).run s) r →
        (∃ s', r = .ok s' () ∧ s'.ledger.Bounded) ∨
        ∃ s' e, r = .err s' e ∧ s'.ledger.Bounded ∧ ans.Fails e) ∧
      ∀ s', Proc.Awaits ans
        ((indexBlock lib ord network (s.nextBlock lib network).1 b).run s) s' →
        s'.ledger.Bounded) ∧
    (∀ prev ans s' height depth ord, Proc.Runs ans ((Reorg.detectReorg lib network
        (s.nextBlock lib network).2 prev (s.nextBlock lib network).1).run s)
        (.ok s' (.error (.recoverable height depth))) →
      ∃ s'', (Reorg.handleReorg ord height depth).run s = .ok s'' ()) ∧
    ∀ id e, s.runeIdToRuneEntry.get? id = some e → e.Bounded ∧
      e.supply = e.premine + e.mints * e.mintAmount ∧
      e.maxSupply = e.premine + e.mintCap * e.mintAmount := by
  obtain ⟨lo, hwin⟩ := h.window
  obtain ⟨hflow, hplaced⟩ := h.conserved
  refine ⟨fun b ord ans hdistinct hans => ?_, fun prev ans s' height depth ord hdetect => ?_,
    fun id e he => ?_⟩
  · rw [hwin.nextBlock] at hans ⊢
    have hsafe := indexBlock_safe hlib ord hdistinct (hans.tame lib _ _) hwin.rowsBelow hflow
      (h.bounded hlib) h.paired hplaced
    refine ⟨fun r hr => ?_, fun s' ha => hsafe.awaits ha⟩
    have hresult := hsafe.runs hr
    cases r with
    | ok s' a => exact .inl ⟨s', rfl, hresult⟩
    | err s' e => exact .inr ⟨s', e, rfl, hresult⟩
    | trap p => exact hresult.elim
  -- the records of the entries alone are enough for the rollback to go through
  · obtain ⟨lo, fs, rfl, hJ⟩ := h.journaled (p := .entries) fun _ _ => ⟨nofun, nofun⟩
    obtain ⟨s'', hrun, -⟩ := hJ.detected (fun _ _ => ⟨nofun, nofun⟩) hdetect ord
    exact ⟨s'', hrun⟩
  · have hbounded := h.bounded hlib id e he
    exact ⟨hbounded, hbounded.supply_eq, hbounded.maxSupply_eq⟩

namespace Sample

/-- Every call is answered or fails. -/
def unsteady : Answers := fun q a => a = answer q ∨ a = reply q

/-- A block that asks, on top of the reorganised chain. -/
def askingBlock : BlockData := block 9 10 [(nameTx, 6)] (by decide)

theorem unsteady_consistent (height : Nat) : unsteady.Consistent height askingBlock := by
  intro e he input hinput info hinfo
  obtain rfl := List.mem_singleton.mp he
  obtain rfl := List.mem_singleton.mp hinput
  rcases hinfo with hinfo | hinfo <;> cases hinfo
  refine ⟨⟨[0x51], rfl⟩, 0, rfl, fun n hn => ?_⟩
  rcases hn with hn | hn <;> cases hn
  exact Nat.zero_le height

/-- The node has another block in place of the last one. -/
def askRollback (s : Store) : Result Error Panic Store (Except ReorgError Unit) :=
  ((Reorg.detectReorg crates .regtest (s.nextBlock crates .regtest).2 11
    (s.nextBlock crates .regtest).1).run s).resultWith
      (serving [plainBlock 0 1 0, plainBlock 1 11 0])

/-- The block that asks, when the calls are answered by `f`. -/
def asked (f : (q : Call) → Reply q) (s : Store) : Result Error Panic Store Unit :=
  ((indexBlock crates order .regtest (s.nextBlock crates .regtest).1 askingBlock).run s).resultWith
    f

end Sample

/-- The block that asks is indexed or fails with the call, and the rollback goes through. -/
theorem Run.no_trap_sample :
    ∃ s s' s₀ s₁ e e', Run Sample.crates .regtest (fun _ => Answers.any) DistinctTxids
        Sample.reorgedChain s ∧
      Sample.asked Sample.answer s = .ok s' () ∧ s'.ledger.Bounded ∧
      Sample.asked Sample.reply s = .err s₁ e' ∧ s₁.ledger.Bounded ∧ Sample.unsteady.Fails e' ∧
      Sample.askRollback s = .ok s (.error (.recoverable 2 2)) ∧
      (Reorg.handleReorg Sample.order 2 2).run s = .ok s₀ () ∧
      s.runeIdToRuneEntry.get? Sample.runeId = some e ∧ e.supply = 105 ∧ e.maxSupply = 110 := by
  obtain ⟨s, -, hs, hnode⟩ := moved_exec (P := fun s =>
    (Sample.asked Sample.answer s).returns (fun _ _ => true) &&
    (Sample.asked Sample.reply s).fails (fun _ _ => true) &&
    (Sample.askRollback s).returns (fun _ x => Sample.asksFor 2 2 x) &&
    (s.runeIdToRuneEntry.get? Sample.runeId).any fun e =>
      e.premine + e.mints * e.mintAmount = 105 ∧ e.premine + e.mintCap * e.mintAmount = 110)
    (by decide +kernel)
  simp only [Bool.and_eq_true] at hs
  obtain ⟨⟨⟨hanswer, hreply⟩, hasks⟩, hentry⟩ := hs
  obtain ⟨s', _, hanswer, -⟩ := Result.returns_iff.mp hanswer
  obtain ⟨s₁, e', hreply, -⟩ := Result.fails_iff.mp hreply
  obtain ⟨s₂, x, hasks, hx⟩ := Result.returns_iff.mp hasks
  obtain ⟨e, he, hvalues⟩ := (Option.any_eq_true _ _).mp hentry
  have hrun := hnode (fun _ => Answers.any) fun _ _ => trivial
  obtain ⟨hblock, hrollback, hentries⟩ := Run.no_trap lawful_sample hrun
  -- the block, with an answer and without one
  obtain ⟨hends, -⟩ := hblock Sample.askingBlock Sample.order Sample.unsteady (by decide)
    (Sample.unsteady_consistent _)
  have hok : Proc.Runs Sample.unsteady _ (Sample.asked Sample.answer s) :=
    Proc.runs_resultWith (fun _ => .inl rfl) _
  have herr : Proc.Runs Sample.unsteady _ (Sample.asked Sample.reply s) :=
    Proc.runs_resultWith (fun _ => .inr rfl) _
  obtain ⟨_, hr, hbounded⟩ | ⟨_, _, hr, -⟩ := hends _ hok <;> rw [hanswer] at hr <;> cases hr
  obtain ⟨_, hr, -⟩ | ⟨_, _, hr, hbounded₁, hfails⟩ := hends _ herr <;> rw [hreply] at hr <;>
    cases hr
  -- the rollback
  have hdetect : Proc.Runs Answers.any _ (Sample.askRollback s) :=
    Proc.runs_resultWith (fun _ => trivial) _
  rw [hasks] at hdetect
  obtain rfl := (Reorg.detectReorg_readOnly _ _ _ _ _).ok hdetect
  obtain rfl := Sample.asksFor_iff.mp hx
  obtain ⟨s₀, hundone⟩ := hrollback 11 Answers.any _ 2 2 Sample.order hdetect
  -- the supplies
  obtain ⟨-, hsupply, hmax⟩ := hentries Sample.runeId e he
  obtain ⟨hminted, hmintable⟩ := of_decide_eq_true hvalues
  exact ⟨_, s', s₀, s₁, e, e', hrun, hanswer, hbounded, hreply, hbounded₁, hfails, hasks, hundone,
    he, hsupply.trans hminted, hmax.trans hmintable⟩

end RunesIndexer
