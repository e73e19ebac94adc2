import RunesIndexer.Spec.NoTrap
import RunesIndexer.Spec.Quiet

/-! # When the answers of the node matter

    A block whose transactions ask the node nothing is indexed whatever the node does.
    A block with a transaction that asks about an output can be answered in a way that
    makes `index_block` trap, and it is only the number of outputs and the height of
    the commit that do.
-/

namespace RunesIndexer

open Resumption RuneUpdater

/-- No answer about the output `o` names too few outputs or a block above `height`. -/
structure Answers.Harmless (ans : Answers) (lib : Crates) (height : Nat) (o : OutPoint) :
    Prop where
  spent : ∀ info, ans (.getRawTransactionInfo o.txid) (.ok info : Except Error RawTransaction) →
    o.vout < info.vout.length
  below : ∀ info script hash n, ans (.getRawTransactionInfo o.txid)
    (.ok info : Except Error RawTransaction) → info.vout[o.vout]? = some (.ok script) →
    lib.isP2tr script = true → info.blockhash = some hash →
    ans (.getBlockHeaderInfo hash) (.ok n : Except Error Nat) → n ≤ height

theorem Answers.Harmless.tame {ans : Answers} {lib : Crates} {height : Nat} {o : OutPoint}
    (h : ans.Harmless lib height o) : ans.Tame lib (fun _ => True) height o where
  failed _ _ := trivial
  spent := h.spent
  decoded _ _ _ _ := trivial
  contained _ _ _ _ _ _ := trivial
  headed info script hash hans hscript htaproot hhash :=
    ⟨fun _ _ => trivial, fun n hn => h.below info script hash n hans hscript htaproot hhash hn⟩

/-! ### Transactions that ask nothing -/

namespace RuneUpdater

variable {lib : Crates} {ans : Answers} {ord : HashOrder} {u u' : RuneUpdater} {s s' : Store}
  {tx : Transaction} {txid : Txid} {txIndex : Nat}

/-- Without the commitment in an input the answer is `false`, and no call is made. -/
theorem txCommitsToRune_unrevealed {rune : Rune}
    (h : ∀ input ∈ tx.input, ¬ lib.Reveals rune input.witness) :
    ((txCommitsToRune lib u tx rune).run s).Gives ans (.ok s false) := by
  -- no output is asked for, so any chain will do
  obtain ⟨b, hgives, hb⟩ := @commitsInInputs_gives lib ⟨fun _ => [], fun _ => 0, fun _ => 0⟩ ans u
    rune tx.input (fun input hinput hreveals => absurd hreveals (h input hinput)) s
  cases b with
  | false => exact hgives
  | true =>
    obtain ⟨input, hinput, hreveals, _⟩ := hb.mp rfl
    exact absurd hreveals (h input hinput)

/-- An accepted etching has a reserved name, or the node was asked. -/
theorem etched_asks {artifact : Artifact} {id : RuneId} {rune : Rune}
    (hdec : lib.decipher tx = some artifact)
    (h : Proc.Runs ans ((etched lib u txIndex tx artifact).run s) (.ok s' (some (id, rune)))) :
    (id = ⟨u.height, txIndex⟩ ∧ rune = lib.reserved u.height txIndex) ∨
      ∃ o, lib.Asks s.runeToRuneId u.minimum tx o := by
  cases etched_walk h with
  | @walked name commits _ hname hmin hres hfree hcommit hout =>
    -- where no input reveals the name, the walk ends without a commitment
    by_cases hreveals : ∃ input ∈ tx.input, lib.Reveals name input.witness
    · obtain ⟨input, hinput, hreveals⟩ := hreveals
      exact .inr ⟨input.previousOutput, artifact, name, hdec, hname, hmin, hres, hfree, input,
        hinput, hreveals, rfl⟩
    · cases (txCommitsToRune_unrevealed fun input hinput hyes =>
        hreveals ⟨input, hinput, hyes⟩) _ |>.mp hcommit
      cases hout
  | reserved _ => exact .inl ⟨rfl, rfl⟩

/-- A transaction that asks nothing takes no name that is not reserved. -/
theorem indexRunes_free (hres : ReservedNames lib) (hindex : txIndex < usizeBound)
    (hasks : ∀ o, ¬ lib.Asks s.runeToRuneId u.minimum tx o) {rune : Rune}
    (hrune : lib.isReserved rune = false) (hfree : s.runeToRuneId.get? rune = none)
    (h : Proc.Runs ans ((u.indexRunes lib ord txIndex tx txid).run s) (.ok s' u')) :
    s'.runeToRuneId.get? rune = none := by
  unfold indexRunes at h
  obtain ⟨s₁, ⟨t₁, u₁⟩, hunalloc, h⟩ := Async.runs_liftM_bind_ok.mp h
  obtain ⟨s₂, ⟨t₂, a₂, u₂⟩, hart, hfinish⟩ := Async.runs_bind_ok.mp h
  -- spending an input leaves the names alone
  obtain ⟨hnames₁, hmin₁⟩ : s₁.runeToRuneId = s.runeToRuneId ∧ u₁.minimum = u.minimum :=
    unallocated_invariant
      (P := fun s' _ u' => s'.runeToRuneId = s.runeToRuneId ∧ u'.minimum = u.minimum)
      (fun _ _ _ _ _ _ _ _ hP hstep => by cases hstep <;> exact hP) ⟨rfl, rfl⟩ hunalloc
  have hfree₂ : s₂.runeToRuneId.get? rune = none := by
    cases hdec : lib.decipher tx with
    | none =>
      rw [hdec] at hart
      cases Proc.runs_ok.mp hart
      rw [hnames₁]
      exact hfree
    | some artifact =>
      rw [hdec] at hart
      obtain ⟨s₃, t₃, u₃, s₄, out, hmint, hetched, -, hrest⟩ := indexArtifact_runs hart
      obtain ⟨hnames₃, hmin₃⟩ := (indexMint_phase hdec hmint).mint.names
      have hnames : s₃.runeToRuneId = s.runeToRuneId := hnames₃.trans hnames₁
      have hnames₄ : s₄.runeToRuneId = s₃.runeToRuneId := by
        cases etched_runs hetched <;> rfl
      rcases hrest with ⟨-, rfl, -⟩ | ⟨id, name, entry, rfl, -, rfl, -⟩
      · rw [hnames₄, hnames]
        exact hfree
      · rcases etched_asks hdec hetched with ⟨-, rfl⟩ | ⟨o, ho⟩
        · -- the new name is reserved, the one in question is not
          have hne : rune ≠ lib.reserved u₃.height txIndex := by
            intro heq
            rw [heq, hres.reserved _ _ hindex] at hrune
            cases hrune
          show (s₄.runeToRuneId.insert _ _).get? rune = none
          rw [FinMap.get?_insert_ne _ _ hne, hnames₄, hnames]
          exact hfree
        · rw [hnames, hmin₃, hmin₁] at ho
          exact absurd ho (hasks o)
  obtain ⟨a₁, burned, burned', u₃, b, -, hout, -, -⟩ :=
    finishTransaction_eq_ok (Async.runs_liftM.mp hfinish)
  refine outputs_invariant (P := fun s' _ _ => s'.runeToRuneId.get? rune = none)
    (fun _ _ _ _ _ _ _ _ _ hP hstep => ?_) hfree₂ hout
  cases hstep <;> exact hP

/-! ### Transactions that ask -/

/-- An answer without outputs, while any answer is allowed. -/
theorem commitsInScript_traps {commitment : List UInt8} {o : OutPoint}
    {l : List (Except Unit Instruction)} (h : Pushes commitment l) :
    Proc.Runs Answers.any ((commitsInScript lib u commitment o l).run s) (.trap .outOfBounds) := by
  induction l with
  | nil => exact absurd h not_pushes_nil
  | cons instruction rest ih =>
    cases instruction with
    | error e => exact absurd h (not_pushes_error e)
    | ok instruction =>
      unfold commitsInScript
      by_cases hpushed : instruction.pushed = some commitment
      · rw [if_pos hpushed]
        have hcall : Proc.Runs Answers.any ((getRawTransactionInfo o.txid).run s)
            (.ok s ⟨o.txid, [], none⟩) :=
          .await (a := (.ok ⟨o.txid, [], none⟩ : Except Error RawTransaction)) trivial (.ok s _)
        exact Async.runs_bind_trap.mpr (.inr ⟨s, _, hcall, .trap _⟩)
      · rw [if_neg hpushed]
        exact ih ((pushes_cons.mp h).resolve_left hpushed)

theorem txCommitsToRune_traps {rune : Rune}
    (h : ∃ input ∈ tx.input, lib.Reveals rune input.witness) :
    Proc.Runs Answers.any ((txCommitsToRune lib u tx rune).run s) (.trap .outOfBounds) := by
  unfold txCommitsToRune
  generalize tx.input = l at h ⊢
  induction l with
  | nil => simp at h
  | cons input rest ih =>
    unfold commitsInInputs
    cases htapscript : lib.tapscript input.witness with
    | none =>
      apply ih
      simpa [not_reveals_of_tapscript htapscript] using h
    | some tapscript =>
      by_cases hpushes : Pushes (lib.commitment rune) (lib.instructions tapscript)
      · exact Async.runs_bind_trap.mpr (.inl (commitsInScript_traps hpushes))
      · -- nothing is asked about this input
        obtain ⟨b, hgives, hb⟩ := @commitsInScript_gives lib
          ⟨fun _ => [], fun _ => 0, fun _ => 0⟩ Answers.any u (lib.commitment rune)
          input.previousOutput _ (fun hyes => absurd hyes hpushes) s
        obtain rfl : b = false := Bool.eq_false_iff.mpr fun htrue => hpushes (hb.mp htrue).1
        refine Async.runs_bind_trap.mpr (.inr ⟨s, false, (hgives _).mpr rfl, ih ?_⟩)
        rw [← reveals_iff htapscript] at hpushes
        simpa [hpushes] using h

theorem etched_traps {artifact : Artifact} (hdec : lib.decipher tx = some artifact) {o : OutPoint}
    (h : lib.Asks s.runeToRuneId u.minimum tx o) :
    Proc.Runs Answers.any ((etched lib u txIndex tx artifact).run s) (.trap .outOfBounds) := by
  obtain ⟨artifact', rune, hdec', hname, hmin, hres, hfree, input, hinput, hreveals, -⟩ := h
  obtain rfl : artifact = artifact' := Option.some.inj (hdec.symm.trans hdec')
  unfold etched
  rw [hname]
  refine Async.runs_bind_trap.mpr (.inr ⟨s, none, Async.runs_liftM.mpr ?_, ?_⟩)
  · show Result.ok s (s.runeToRuneId.get? rune) = _
    rw [hfree]
  · rw [if_neg (by simp [hmin, hres])]
    exact Async.runs_bind_trap.mpr (.inl (txCommitsToRune_traps ⟨input, hinput, hreveals⟩))

/-- Inputs and mint are done before the node is asked. -/
theorem indexRunes_traps (hmid : Midway u.height s u.burned fun _ => 0) {o : OutPoint}
    (h : lib.Asks s.runeToRuneId u.minimum tx o) :
    Proc.Runs Answers.any ((u.indexRunes lib ord txIndex tx txid).run s) (.trap .outOfBounds) := by
  have h₀ : Midway u.height s ∅ u.burned.amount :=
    ⟨hmid.flow.move rfl (fun id => by simp) hmid.flow.balances (LotMap.keysIn_empty _),
      hmid.bounded, hmid.paired, hmid.rows⟩
  obtain ⟨s₁, t₁, u₁, hunalloc, hmid₁, hheight₁, -, -, hnames₁, hmin₁⟩ := unallocated_returns h₀ tx
  obtain ⟨artifact, hdec⟩ : ∃ artifact, lib.decipher tx = some artifact := by
    obtain ⟨artifact, _, hdec, _⟩ := h
    exact ⟨artifact, hdec⟩
  obtain ⟨s₂, t₂, u₂, hmint, -, -, -, -, hnames₂, hmin₂⟩ :=
    indexMint_returns hdec (hheight₁.symm ▸ hmid₁ : Midway u₁.height s₁ t₁ _)
  have hasks : lib.Asks s₂.runeToRuneId u₂.minimum tx o := by
    rw [show s₂.runeToRuneId = s.runeToRuneId from hnames₂.trans hnames₁, hmin₂, hmin₁]
    exact h
  unfold indexRunes
  refine Async.runs_bind_trap.mpr (.inr ⟨s₁, (t₁, u₁), Async.runs_liftM.mpr hunalloc, ?_⟩)
  rw [hdec]
  refine Async.runs_bind_trap.mpr (.inl ?_)
  refine Async.runs_bind_trap.mpr (.inr ⟨s₂, (t₂, u₂), Async.runs_liftM.mpr hmint, ?_⟩)
  exact Async.runs_bind_trap.mpr (.inl (etched_traps hdec hasks))

end RuneUpdater

/-! ### Blocks -/

/-- The node refuses every call. -/
def refusal : (q : Call) → Reply q
  | .getBlockHash _ _ => (.error .rpc : Except Error (Option BlockHash))
  | .innerGetBlock _ => (.error .rpc : Except Error Block)
  | .getRawTransactionInfo _ => (.error .rpc : Except Error RawTransaction)
  | .getBlockHeaderInfo _ => (.error .rpc : Except Error Nat)
  | .newBlockDetected .. => (.error .rpc : Except Error Unit)

section blocks

variable {lib : Crates} {network : BitcoinNetwork} {chain : List BlockData} {b : BlockData}

/-- By induction on the transactions that are left: what a transaction asks about now it still
    asks about after transactions that ask nothing. -/
theorem indexTransactions_traps (hlib : lib.Lawful) (hres : ReservedNames lib) {ord : HashOrder}
    (hdistinct : DistinctTxids (chain ++ [b])) {l : List (Transaction × Txid)} {i : Nat}
    {s : Store} {u : RuneUpdater} (hl : b.txdata.drop i = l)
    (hunder : Underway lib network chain b i s u)
    (h : ∃ e ∈ l, ∃ o, lib.Asks s.runeToRuneId u.minimum e.1 o) :
    Proc.Runs Answers.any ((indexTransactions lib ord u i l).run s) (.trap .outOfBounds) := by
  induction l generalizing i s u with
  | nil => simp at h
  | cons e rest ih =>
    obtain ⟨tx, txid⟩ := e
    -- the first transaction that asks traps; those before it return and keep the name free
    by_cases hasks : ∃ o, lib.Asks s.runeToRuneId u.minimum tx o
    · obtain ⟨o, ho⟩ := hasks
      exact Async.runs_bind_trap.mpr (.inl (indexRunes_traps hunder.midway ho))
    · have hnot : ∀ o, ¬ lib.Asks s.runeToRuneId u.minimum tx o := fun o ho => hasks ⟨o, ho⟩
      have hget : b.txdata[i]? = some (tx, txid) := by
        rw [← List.head?_drop, hl]
        rfl
      have hindex : i < usizeBound :=
        (List.getElem?_eq_some_iff.mp hget).1.trans b.txdataFits
      have hsafe := @indexRunes_safe lib hlib ord Answers.any (fun _ => False) u tx s
        (fun o ho => absurd ho (hnot o)) txid i hunder.midway hunder.entry_free
      obtain ⟨s₁, u₁, hrun⟩ : ∃ s₁ u₁, Proc.Runs Answers.any
          ((u.indexRunes lib ord i tx txid).run s) (.ok s₁ u₁) :=
        hsafe.returns (fun _ _ he => he.2) (f := refusal) fun _ => trivial
      have hunder₁ := hunder.step hlib hdistinct hget hrun
      refine Async.runs_bind_trap.mpr (.inr ⟨s₁, u₁, hrun, ih ?_ hunder₁ ?_⟩)
      · rw [← List.tail_drop, hl]
        rfl
      · obtain ⟨e, he, o, artifact, rune, hdec, hname, hmin, hfreeName, hfree, hinput⟩ := h
        have hne : e ≠ (tx, txid) := by
          rintro rfl
          exact hnot o ⟨artifact, rune, hdec, hname, hmin, hfreeName, hfree, hinput⟩
        refine ⟨e, (List.mem_cons.mp he).resolve_left hne, o, artifact, rune, hdec, hname, ?_,
          hfreeName, indexRunes_free hres hindex hnot hfreeName hfree hrun, hinput⟩
        rw [hunder₁.minimum, ← hunder.minimum]
        exact hmin

/-- In every state that a run reaches, the next block is indexed without a trap under all
    answers of the node if and only if none of its transactions asks about an output; and no
    block traps while the answers about the outputs that it asks for are harmless. -/
theorem Run.calls {node : Node} {s : Store} (hlib : lib.Lawful) (hres : ReservedNames lib)
    (h : Run lib network node DistinctTxids chain s) (hdistinct : DistinctTxids (chain ++ [b]))
    (ord : HashOrder) :
    ((∀ r, Proc.Runs Answers.any
        ((indexBlock lib ord network (s.nextBlock lib network).1 b).run s) r →
        ∃ s', r = .ok s' () ∨ ∃ e, r = .err s' e) ↔
      ∀ tx ∈ b.txdata, ∀ o, ¬ lib.Asks s.runeToRuneId
        (lib.minimumAtHeight network (s.nextBlock lib network).1) tx.1 o) ∧
    ∀ ans : Answers, (∀ tx ∈ b.txdata, ∀ o, lib.Asks s.runeToRuneId
        (lib.minimumAtHeight network (s.nextBlock lib network).1) tx.1 o →
        ans.Harmless lib (s.nextBlock lib network).1 o) →
      ∀ r, Proc.Runs ans ((indexBlock lib ord network (s.nextBlock lib network).1 b).run s) r →
        ∃ s', r = .ok s' () ∨ ∃ e, r = .err s' e := by
  obtain ⟨lo, hwin⟩ := h.window
  obtain ⟨hflow, hplaced⟩ := h.conserved
  rw [hwin.nextBlock]
  have hharmless : ∀ ans : Answers, (∀ tx ∈ b.txdata, ∀ o, lib.Asks s.runeToRuneId
      (lib.minimumAtHeight network (lib.firstRuneHeight network + chain.length)) tx.1 o →
      ans.Harmless lib (lib.firstRuneHeight network + chain.length) o) →
      ∀ r, Proc.Runs ans ((indexBlock lib ord network
        (lib.firstRuneHeight network + chain.length) b).run s) r →
        ∃ s', r = .ok s' () ∨ ∃ e, r = .err s' e := by
    intro ans hans r hr
    have hresult := (indexBlock_safe hlib ord hdistinct (fun tx htx o ho => (hans tx htx o ho).tame)
      hwin.rowsBelow hflow (h.bounded hlib) h.paired hplaced).runs hr
    cases r with
    | ok s' a => exact ⟨s', .inl rfl⟩
    | err s' e => exact ⟨s', .inr ⟨e, rfl⟩⟩
    | trap p => exact hresult.elim
  refine ⟨⟨fun hreturns tx htx o ho => ?_, fun hquiet => ?_⟩, hharmless⟩
  · -- a transaction that asks is enough for a trap
    have hunder := underway_start (b := b) hwin.rowsBelow hflow (h.bounded hlib) h.paired hplaced
    have htrap : Proc.Runs Answers.any ((indexBlock lib ord network
        (lib.firstRuneHeight network + chain.length) b).run s) (.trap .outOfBounds) := by
      refine Async.runs_bind_trap.mpr (.inr ⟨_, _, Async.runs_liftM.mpr rfl, ?_⟩)
      exact Async.runs_bind_trap.mpr (.inl (indexTransactions_traps hlib hres hdistinct rfl hunder
        ⟨tx, htx, o, ho⟩))
    obtain ⟨s', hr | ⟨e, hr⟩⟩ := hreturns _ htrap
    · cases hr
    · cases hr
  · exact hharmless Answers.any fun tx htx o ho => absurd ho (hquiet tx htx o)

end blocks

/-! ### A block that asks -/

namespace Sample

/-- A node that forgets the outputs of a transaction. -/
def outputless : (q : Call) → Reply q
  | .getRawTransactionInfo txid => (.ok ⟨txid, [], some 0⟩ : Except Error RawTransaction)
  | q => answer q

/-- A node that has the commit on another branch, above the block. -/
def ahead : (q : Call) → Reply q
  | .getBlockHeaderInfo _ => (.ok 2 : Except Error Nat)
  | q => answer q

/-- The sample state after the first block. -/
theorem first_exec {P : Store → Bool}
    (h : (indexChain crates order .regtest reply [etchBlock] (Store.empty config)).any P = true) :
    ∃ s, Run crates .regtest (fun _ => Answers.any) DistinctTxids [etchBlock] s ∧
      P s = true := by
  obtain ⟨s, hs, hP⟩ := (Option.any_eq_true _ _).mp h
  have hrun : Run crates .regtest (fun _ => Answers.any) DistinctTxids ([] ++ [etchBlock]) s :=
    run_of_indexChain (fun _ _ => trivial)
      (fun n => by rw [List.take_of_length_le (by simp)]; decide) (.init config) hs
  exact ⟨s, hrun, hP⟩

end Sample

theorem Run.calls_sample :
    ∃ s, Run Sample.crates .regtest (fun _ => Answers.any) DistinctTxids [Sample.etchBlock] s ∧
      (∀ r, Proc.Runs Answers.any
        ((indexBlock Sample.crates Sample.order .regtest 1 Sample.mintBlock).run s) r →
        ∃ s', r = .ok s' () ∨ ∃ e, r = .err s' e) ∧
      ∀ r, Proc.Runs (Answers.only Sample.answer)
        ((indexBlock Sample.crates Sample.order .regtest 1 Sample.nameBlock).run s) r →
        ∃ s', r = .ok s' () ∨ ∃ e, r = .err s' e := by
  obtain ⟨s, hrun, hP⟩ := Sample.first_exec
    (P := fun s => (s.nextBlock Sample.crates .regtest).1 = 1) (by decide)
  have hnext : (s.nextBlock Sample.crates .regtest).1 = 1 := by simpa using hP
  -- the block that mints asks nothing, the one with a name asks and gets a harmless answer
  obtain ⟨hmint, -⟩ := Run.calls (b := Sample.mintBlock) lawful_sample reservedNames_sample hrun
    (by decide) Sample.order
  obtain ⟨-, hname⟩ := Run.calls (b := Sample.nameBlock) lawful_sample reservedNames_sample hrun
    (by decide) Sample.order
  rw [hnext] at hmint hname
  refine ⟨s, hrun, hmint.mpr ?_, hname (Answers.only Sample.answer) ?_⟩
  · intro e he o ⟨artifact, rune, hdec, hetching, _⟩
    obtain rfl := List.mem_singleton.mp he
    cases hdec
    cases hetching
  · intro e he o ⟨_, _, _, _, _, _, _, input, hinput, _, ho⟩
    obtain rfl := List.mem_singleton.mp he
    obtain rfl := List.mem_singleton.mp hinput
    subst ho
    constructor
    · intro info hinfo
      cases hinfo
      decide
    · intro info script hash n hinfo _ _ _ hn
      cases hn
      decide

/-- An answer without the output that is spent, and one from another branch of the chain. -/
theorem Run.calls_trap :
    ∃ s, Run Sample.crates .regtest (fun _ => Answers.any) DistinctTxids [Sample.etchBlock] s ∧
      DistinctTxids ([Sample.etchBlock] ++ [Sample.nameBlock]) ∧
      Proc.Runs (Answers.only Sample.outputless) ((indexBlock Sample.crates Sample.order .regtest
        (s.nextBlock Sample.crates .regtest).1 Sample.nameBlock).run s) (.trap .outOfBounds) ∧
      Proc.Runs (Answers.only Sample.ahead) ((indexBlock Sample.crates Sample.order .regtest
        (s.nextBlock Sample.crates .regtest).1 Sample.nameBlock).run s) (.trap .unwrapFailed) := by
  obtain ⟨s, hrun, hP⟩ := Sample.first_exec (P := fun s =>
    (((indexBlock Sample.crates Sample.order .regtest (s.nextBlock Sample.crates .regtest).1
      Sample.nameBlock).run s).resultWith Sample.outputless).traps (· = .outOfBounds) &&
    (((indexBlock Sample.crates Sample.order .regtest (s.nextBlock Sample.crates .regtest).1
      Sample.nameBlock).run s).resultWith Sample.ahead).traps (· = .unwrapFailed)) (by decide)
  obtain ⟨hspent, hahead⟩ := (Bool.and_eq_true _ _).mp hP
  obtain ⟨p, hspent, hp⟩ := Result.traps_iff.mp hspent
  obtain ⟨p', hahead, hp'⟩ := Result.traps_iff.mp hahead
  obtain rfl : p = .outOfBounds := of_decide_eq_true hp
  obtain rfl : p' = .unwrapFailed := of_decide_eq_true hp'
  refine ⟨s, hrun, by decide, ?_, ?_⟩
  · rw [← hspent]
    exact runs_only Sample.outputless _
  · rw [← hahead]
    exact runs_only Sample.ahead _

end RunesIndexer
