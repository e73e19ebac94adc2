import RunesIndexer.Model.Sample
import RunesIndexer.Spec.Transaction

/-! # What the commitment check decides

    A transaction commits to a rune when one of its inputs reveals the commitment
    in a tapscript and spends a taproot output that is old enough. The two loops of
    `tx_commits_to_rune` decide exactly this when the node tells the truth about
    the outputs that are asked for.
-/

namespace RunesIndexer

open Resumption RuneUpdater

/-! ### Scripts that push the commitment -/

/-- The bytes are pushed before the first instruction that does not decode. -/
def Pushes (bytes : List UInt8) (l : List (Except Unit Instruction)) : Prop :=
  ∃ k : Nat, (∃ instruction, l[k]? = some (.ok instruction) ∧ instruction.pushed = some bytes) ∧
    ∀ j < k, ∃ instruction, l[j]? = some (.ok instruction)

section pushes

variable {bytes : List UInt8} {l : List (Except Unit Instruction)}

theorem not_pushes_nil : ¬ Pushes bytes [] := by
  intro ⟨k, ⟨instruction, hget, _⟩, _⟩
  simp at hget

theorem not_pushes_error (e : Unit) : ¬ Pushes bytes (.error e :: l) := by
  intro ⟨k, ⟨instruction, hget, _⟩, hbefore⟩
  rcases Nat.eq_zero_or_pos k with hzero | hpos
  · rw [hzero] at hget
    simp at hget
  · obtain ⟨first, hfirst⟩ := hbefore 0 hpos
    simp at hfirst

theorem pushes_cons {instruction : Instruction} :
    Pushes bytes (.ok instruction :: l) ↔
      instruction.pushed = some bytes ∨ Pushes bytes l := by
  constructor
  · intro ⟨k, ⟨found, hget, hpushed⟩, hbefore⟩
    cases k with
    | zero =>
      obtain rfl : instruction = found := by simpa using hget
      exact .inl hpushed
    | succ k =>
      refine .inr ⟨k, ⟨found, by simpa using hget, hpushed⟩, fun j hj => ?_⟩
      simpa using hbefore (j + 1) (by omega)
  · intro h
    rcases h with hpushed | ⟨k, ⟨found, hget, hpushed⟩, hbefore⟩
    · exact ⟨0, ⟨instruction, rfl, hpushed⟩, fun j hj => absurd hj (Nat.not_lt_zero j)⟩
    · refine ⟨k + 1, ⟨found, by simpa using hget, hpushed⟩, fun j hj => ?_⟩
      cases j with
      | zero => exact ⟨instruction, rfl⟩
      | succ j => simpa using hbefore j (by omega)

end pushes

/-- The witness carries a tapscript that pushes the commitment to the rune. -/
def Crates.Reveals (lib : Crates) (rune : Rune) (witness : Witness) : Prop :=
  ∃ tapscript, lib.tapscript witness = some tapscript ∧
    Pushes (lib.commitment rune) (lib.instructions tapscript)

theorem not_reveals_of_tapscript {lib : Crates} {rune : Rune} {witness : Witness}
    (h : lib.tapscript witness = none) : ¬ lib.Reveals rune witness := by
  intro ⟨tapscript, htapscript, _⟩
  rw [h] at htapscript
  cases htapscript

theorem reveals_iff {lib : Crates} {rune : Rune} {witness : Witness} {tapscript : Script}
    (h : lib.tapscript witness = some tapscript) :
    lib.Reveals rune witness ↔ Pushes (lib.commitment rune) (lib.instructions tapscript) := by
  constructor
  · intro ⟨found, hfound, hpushes⟩
    obtain rfl : tapscript = found := Option.some.inj (h.symm.trans hfound)
    exact hpushes
  · intro hpushes
    exact ⟨tapscript, h, hpushes⟩

/-! ### The chain behind the node -/

/-- What a chain says about its transactions. -/
structure ChainView where
  /-- The scripts of all outputs. -/
  outputs : Txid → List Script
  /-- The block that contains the transaction. -/
  blockOf : Txid → BlockHash
  heightOf : BlockHash → Nat

namespace ChainView

/-- The node answers the calls about the output `o`, which is in a block up to `height`,
    with what the chain says. -/
structure Reported (chain : ChainView) (ans : Answers) (height : Nat) (o : OutPoint) : Prop where
  spent : o.vout < (chain.outputs o.txid).length
  below : chain.heightOf (chain.blockOf o.txid) ≤ height
  transaction : ∀ reply : Except Error RawTransaction, ans (.getRawTransactionInfo o.txid) reply ↔
    reply = .ok ⟨o.txid, (chain.outputs o.txid).map .ok, some (chain.blockOf o.txid)⟩
  header : ∀ reply : Except Error Nat, ans (.getBlockHeaderInfo (chain.blockOf o.txid)) reply ↔
    reply = .ok (chain.heightOf (chain.blockOf o.txid))

/-- The confirmations of the output at `height`, as a `u32`. -/
def confirmations (chain : ChainView) (height : Nat) (o : OutPoint) : Nat :=
  (height - chain.heightOf (chain.blockOf o.txid) + 1) % 2 ^ 32

/-- Only at the last height of all the count can wrap. -/
theorem confirmations_eq (chain : ChainView) {height : Nat} (h : height < 2 ^ 32 - 1)
    (o : OutPoint) : chain.confirmations height o =
      height - chain.heightOf (chain.blockOf o.txid) + 1 :=
  Nat.mod_eq_of_lt (by omega)

/-- The output is a taproot output with enough confirmations. -/
def Mature (chain : ChainView) (lib : Crates) (height : Nat) (o : OutPoint) : Prop :=
  (∃ script, (chain.outputs o.txid)[o.vout]? = some script ∧ lib.isP2tr script = true) ∧
    lib.commitConfirmations ≤ chain.confirmations height o

/-- An input reveals the commitment and spends such an output. -/
def Commits (chain : ChainView) (lib : Crates) (height : Nat) (tx : Transaction)
    (rune : Rune) : Prop :=
  ∃ input ∈ tx.input, lib.Reveals rune input.witness ∧
    chain.Mature lib height input.previousOutput

end ChainView

/-! ### The loops -/

namespace RuneUpdater

variable {lib : Crates} {chain : ChainView} {ans : Answers} {u : RuneUpdater}

/-- The calls at a push of the commitment find out whether the output is mature. -/
theorem commitsInScript_pushed {commitment : List UInt8} {o : OutPoint} {instruction : Instruction}
    {rest : List (Except Unit Instruction)} (hpushed : instruction.pushed = some commitment)
    (h : chain.Reported ans u.height o) {s : Store} {b : Bool}
    (hrest : ¬ chain.Mature lib u.height o →
      ((commitsInScript lib u commitment o rest).run s).Gives ans (.ok s b))
    (hb : chain.Mature lib u.height o → b = true) :
    ((commitsInScript lib u commitment o (.ok instruction :: rest)).run s).Gives ans (.ok s b) := by
  obtain ⟨script, hget⟩ : ∃ script, (chain.outputs o.txid)[o.vout]? = some script :=
    ⟨_, List.getElem?_eq_getElem h.spent⟩
  have hindex : indexAt ((chain.outputs o.txid).map .ok) o.vout =
      .ok (.ok script : Except Error Script) := by
    rw [indexAt_eq_ok, List.getElem?_map, hget]
    rfl
  have hsub : unwrap (checkedSub u.height (chain.heightOf (chain.blockOf o.txid))) =
      .ok (u.height - chain.heightOf (chain.blockOf o.txid)) := by
    unfold checkedSub
    rw [if_pos h.below]
    rfl
  unfold commitsInScript
  -- both calls are answered as the chain has it
  rw [if_pos hpushed]
  refine Proc.Gives.bind (Proc.Gives.await h.transaction (.ok s _)) ?_
  dsimp only [ofResult]
  rw [hindex]
  show ((if lib.isP2tr script = true then _ else _ : AsyncM Bool).run s).Gives ans (.ok s b)
  by_cases hp2tr : lib.isP2tr script = true
  · rw [if_pos hp2tr]
    refine Proc.Gives.bind (Proc.Gives.await h.header (.ok s _)) ?_
    dsimp only
    rw [hsub]
    show ((if lib.commitConfirmations ≤ chain.confirmations u.height o
      then _ else _ : AsyncM Bool).run s).Gives ans (.ok s b)
    by_cases hdeep : lib.commitConfirmations ≤ chain.confirmations u.height o
    · rw [if_pos hdeep, hb ⟨⟨_, hget, hp2tr⟩, hdeep⟩]
      exact .ok s true
    · -- an immature output is passed over
      rw [if_neg hdeep]
      exact hrest fun hmature => hdeep hmature.2
  · -- so is one that is not taproot
    rw [if_neg hp2tr]
    apply hrest
    intro hmature
    obtain ⟨⟨spent, hspent, htrue⟩, -⟩ := hmature
    obtain rfl : script = spent := Option.some.inj (hget.symm.trans hspent)
    exact hp2tr htrue

/-- The loop over the instructions, by induction: what it has passed over did not count. -/
theorem commitsInScript_gives {commitment : List UInt8} {o : OutPoint}
    {l : List (Except Unit Instruction)}
    (h : Pushes commitment l → chain.Reported ans u.height o) (s : Store) :
    ∃ b, ((commitsInScript lib u commitment o l).run s).Gives ans (.ok s b) ∧
      (b = true ↔ Pushes commitment l ∧ chain.Mature lib u.height o) := by
  induction l with
  | nil => exact ⟨false, .ok s false, by simp [not_pushes_nil]⟩
  | cons instruction rest ih =>
    cases instruction with
    | error e => exact ⟨false, .ok s false, by simp [not_pushes_error]⟩
    | ok instruction =>
      obtain ⟨b, hgives, hb⟩ := ih fun hrest => h (pushes_cons.mpr (.inr hrest))
      rw [pushes_cons]
      by_cases hpushed : instruction.pushed = some commitment
      · have hreported := h (pushes_cons.mpr (.inl hpushed))
        by_cases hmature : chain.Mature lib u.height o
        · exact ⟨true, commitsInScript_pushed hpushed hreported
            (fun hnot => absurd hmature hnot) fun _ => rfl, by simp [hpushed, hmature]⟩
        · exact ⟨b, commitsInScript_pushed hpushed hreported (fun _ => hgives)
            fun hyes => absurd hyes hmature, by simp [hb, hmature]⟩
      · refine ⟨b, ?_, by rw [hb]; simp [hpushed]⟩
        unfold commitsInScript
        rw [if_neg hpushed]
        exact hgives

/-- The loop over the inputs. -/
theorem commitsInInputs_gives {rune : Rune} {l : List TxIn}
    (h : ∀ input ∈ l, lib.Reveals rune input.witness →
      chain.Reported ans u.height input.previousOutput) (s : Store) :
    ∃ b, ((commitsInInputs lib u (lib.commitment rune) l).run s).Gives ans (.ok s b) ∧
      (b = true ↔ ∃ input ∈ l, lib.Reveals rune input.witness ∧
        chain.Mature lib u.height input.previousOutput) := by
  induction l with
  | nil => exact ⟨false, .ok s false, by simp⟩
  | cons input rest ih =>
    obtain ⟨b, hgives, hb⟩ := ih fun other hother => h other (List.mem_cons_of_mem _ hother)
    unfold commitsInInputs
    cases htapscript : lib.tapscript input.witness with
    | none =>
      refine ⟨b, hgives, ?_⟩
      rw [hb]
      simp [not_reveals_of_tapscript htapscript]
    | some tapscript =>
      obtain ⟨found, hscript, hfound⟩ : ∃ found, ((commitsInScript lib u (lib.commitment rune)
          input.previousOutput (lib.instructions tapscript)).run s).Gives ans (.ok s found) ∧
          (found = true ↔ Pushes (lib.commitment rune) (lib.instructions tapscript) ∧
            chain.Mature lib u.height input.previousOutput) :=
        commitsInScript_gives
          (fun hpushes => h input List.mem_cons_self ⟨tapscript, htapscript, hpushes⟩) s
      rw [← reveals_iff htapscript] at hfound
      cases found with
      | true =>
        refine ⟨true, Proc.Gives.bind hscript (.ok s true), ?_⟩
        simp [hfound.mp rfl]
      | false =>
        -- this input does not decide, the later ones do
        have hnot : ¬ (lib.Reveals rune input.witness ∧
            chain.Mature lib u.height input.previousOutput) := by
          intro hyes
          exact Bool.false_ne_true (hfound.mpr hyes)
        refine ⟨b, Proc.Gives.bind hscript hgives, ?_⟩
        rw [hb]
        simp [hnot]

/-- The check answers `true` exactly for a transaction that commits to the rune, and `false`
    for every other: nothing else can come of it. -/
theorem txCommitsToRune_exact {tx : Transaction} {rune : Rune}
    (h : ∀ input ∈ tx.input, lib.Reveals rune input.witness →
      chain.Reported ans u.height input.previousOutput) (s : Store) (r : IndexResult Bool) :
    Proc.Runs ans ((txCommitsToRune lib u tx rune).run s) r ↔
      (r = .ok s true ∧ chain.Commits lib u.height tx rune) ∨
      (r = .ok s false ∧ ¬ chain.Commits lib u.height tx rune) := by
  obtain ⟨b, hgives, hb⟩ := commitsInInputs_gives h s
  unfold txCommitsToRune
  rw [hgives r]
  unfold ChainView.Commits
  rw [← hb]
  cases b <;> simp

end RuneUpdater

/-! ### A commitment in the first block -/

namespace Sample

/-- Every transaction has one taproot output and is in a block at height 0. -/
def view : ChainView := ⟨fun _ => [[0x51]], fun _ => 0, fun _ => 0⟩

theorem view_reported (height : Nat) (txid : Txid) :
    view.Reported (fun q reply => reply = answer q) height ⟨txid, 0⟩ :=
  ⟨Nat.one_pos, Nat.zero_le height, fun _ => Iff.rfl, fun _ => Iff.rfl⟩

theorem nameTx_reveals : crates.Reveals name [commitment name] :=
  ⟨commitment name, rfl, pushes_cons.mpr (.inl rfl)⟩

/-- The sixth block from the commitment on is the first one that may reveal it. -/
theorem nameTx_commits {height : Nat} (h : height < 2 ^ 32 - 1) :
    view.Commits crates height nameTx name ↔ 5 ≤ height := by
  have hconf : view.confirmations height ⟨9, 0⟩ = height + 1 := view.confirmations_eq h ⟨9, 0⟩
  constructor
  · intro ⟨input, hinput, _, _, hdeep⟩
    obtain rfl := List.mem_singleton.mp hinput
    have hdeep : 6 ≤ view.confirmations height ⟨9, 0⟩ := hdeep
    omega
  · intro h
    refine ⟨spend 9 0 [commitment name], List.mem_cons_self, nameTx_reveals, ⟨[0x51], rfl, rfl⟩, ?_⟩
    show 6 ≤ view.confirmations height ⟨9, 0⟩
    omega

theorem nameTx_reported (height : Nat) : ∀ input ∈ nameTx.input,
    crates.Reveals name input.witness →
      view.Reported (fun q reply => reply = answer q) height input.previousOutput := by
  intro input hinput _
  obtain rfl := List.mem_singleton.mp hinput
  exact view_reported height 9

end Sample

theorem RuneUpdater.txCommitsToRune_exact_sample :
    (∀ r, Proc.Runs (fun q reply => reply = Sample.answer q)
      ((txCommitsToRune Sample.crates (RuneUpdater.new Sample.crates .regtest 5 0 0) Sample.nameTx
        Sample.name).run (Store.empty Sample.config)) r ↔
      r = .ok (Store.empty Sample.config) true) ∧
    ∀ r, Proc.Runs (fun q reply => reply = Sample.answer q)
      ((txCommitsToRune Sample.crates (RuneUpdater.new Sample.crates .regtest 4 0 0) Sample.nameTx
        Sample.name).run (Store.empty Sample.config)) r ↔
      r = .ok (Store.empty Sample.config) false := by
  have hexact := fun height => @txCommitsToRune_exact Sample.crates Sample.view
    (fun q reply => reply = Sample.answer q) (RuneUpdater.new Sample.crates .regtest height 0 0)
    Sample.nameTx Sample.name (Sample.nameTx_reported height) (Store.empty Sample.config)
  constructor
  · intro r
    rw [hexact 5 r, show (RuneUpdater.new Sample.crates .regtest 5 0 0).height = 5 from rfl,
      Sample.nameTx_commits (by decide)]
    simp
  · intro r
    rw [hexact 4 r, show (RuneUpdater.new Sample.crates .regtest 4 0 0).height = 4 from rfl,
      Sample.nameTx_commits (by decide)]
    simp

/-- At the last height a commitment in the first block has `2 ^ 32` confirmations, which are
    counted as none. -/
theorem RuneUpdater.txCommitsToRune_wraps :
    (∀ input ∈ Sample.nameTx.input, Sample.crates.Reveals Sample.name input.witness →
      Sample.view.Reported (fun q reply => reply = Sample.answer q) (2 ^ 32 - 1)
        input.previousOutput) ∧
    (∃ input ∈ Sample.nameTx.input, Sample.crates.Reveals Sample.name input.witness ∧
      (∃ script, (Sample.view.outputs input.previousOutput.txid)[input.previousOutput.vout]? =
        some script ∧ Sample.crates.isP2tr script = true) ∧
      Sample.crates.commitConfirmations ≤ (2 ^ 32 - 1) -
        Sample.view.heightOf (Sample.view.blockOf input.previousOutput.txid) + 1) ∧
    Proc.Runs (fun q reply => reply = Sample.answer q)
      ((txCommitsToRune Sample.crates (RuneUpdater.new Sample.crates .regtest (2 ^ 32 - 1) 0 0)
        Sample.nameTx Sample.name).run (Store.empty Sample.config))
      (.ok (Store.empty Sample.config) false) := by
  refine ⟨Sample.nameTx_reported _, ⟨_, List.mem_cons_self, Sample.nameTx_reveals,
    ⟨[0x51], rfl, rfl⟩, by decide⟩, ?_⟩
  obtain ⟨b, hgives, hb⟩ := @commitsInInputs_gives Sample.crates Sample.view
    (fun q reply => reply = Sample.answer q)
    (RuneUpdater.new Sample.crates .regtest (2 ^ 32 - 1) 0 0) Sample.name _
    (Sample.nameTx_reported _) (Store.empty Sample.config)
  obtain rfl : b = false := by
    refine Bool.eq_false_iff.mpr fun htrue => ?_
    obtain ⟨input, hinput, _, _, hdeep⟩ := hb.mp htrue
    obtain rfl := List.mem_singleton.mp hinput
    exact absurd hdeep (by decide)
  exact (hgives _).mpr rfl

end RunesIndexer
