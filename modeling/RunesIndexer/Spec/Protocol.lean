import RunesIndexer.Spec.Etchings
import RunesIndexer.Spec.Outcome

/-! # The rune protocol

    What the index is for, without a store: which runes there are and what every outpoint
    holds of them, as a function of the chain. One transaction spends its inputs, mints,
    etches a rune if it is entitled to one, and settles every rune on its own; what is burned
    is counted at once. Nothing is undone here: another chain has another meaning.
-/

namespace RunesIndexer

/-- What is held of every rune, in which block the transactions are, what is known about
    the runes, and how many there are. -/
structure Protocol where
  balance : OutPoint → RuneId → Nat
  height : Txid → Option Nat
  entry : RuneId → Option RuneEntry
  runes : Nat

namespace Protocol

/-- Before the first rune. -/
def empty : Protocol := ⟨fun _ _ => 0, fun _ => none, fun _ => none, 0⟩

/-! ### One transaction -/

section step

variable (lib : Crates) (network : BitcoinNetwork) (view : ChainView) (time : Nat)
  (P : Protocol) (d : Located)

/-- A rune has this name. -/
def Named (rune : Rune) : Prop := ∃ id e, P.entry id = some e ∧ e.spacedRune.rune = rune

/-- The transaction at `d` is entitled to etch a rune under this name. -/
def Etches (rune : Rune) : Prop :=
  ∃ artifact, lib.decipher d.tx = some artifact ∧
    Entitled lib network view P.Named d artifact rune

open Classical in
/-- The name that the transaction at `d` etches, if it is entitled to one. -/
noncomputable def etched : Option Rune :=
  if h : ∃ rune, P.Etches lib network view d rune then some h.choose else none

/-- What the transaction at `d` mints of a rune. -/
def minted (id : RuneId) : Nat :=
  ((mintAt lib d P.entry).filter (·.1 = id)).elim 0 Prod.snd

/-- The units of a rune in the transaction at `d`: its inputs, the mint and the premine. -/
def units (etched : Option Rune) (id : RuneId) : Nat :=
  ∑ o ∈ d.tx.spends, P.balance o id + P.minted lib d id +
    premined lib d.tx (etched.map (Prod.mk d.id)) id

/-- What becomes of them. -/
def settled (etched : Option Rune) (id : RuneId) : Outcome :=
  outcome (lib.opReturns d.tx) (isCenotaph (lib.decipher d.tx)) (pointerOf (lib.decipher d.tx))
    (P.units lib d etched id) (transfersIn lib d.tx (etched.map (Prod.mk d.id)) id)

/-- The balances after the transaction at `d`: its own outputs have what they were assigned,
    unless they are OP_RETURNs, and what it spends is empty. -/
def balanceAfter (etched : Option Rune) (o : OutPoint) (id : RuneId) : Nat :=
  if o.txid = d.txid then
    if (lib.opReturns d.tx)[o.vout]? = some false then
      (P.settled lib d etched id).assigned o.vout
    else 0
  else if o ∈ d.tx.spends then 0
  else P.balance o id

/-- The transaction at `d`, in a block of the given time. -/
noncomputable def step : Protocol where
  balance := P.balanceAfter lib d (P.etched lib network view d)
  height := Function.update P.height d.txid (some d.id.block)
  entry := countBurned (fun id => (P.settled lib d (P.etched lib network view d) id).burned)
    (entriesAfter lib d time P.runes (P.etched lib network view d) P.entry)
  runes := P.runes + (P.etched lib network view d).toList.length

variable {lib network view P d}

theorem Etches.unique {rune rune' : Rune} (h : P.Etches lib network view d rune)
    (h' : P.Etches lib network view d rune') : rune = rune' := by
  obtain ⟨artifact, hdec, hacc⟩ := h
  obtain ⟨artifact', hdec', hacc'⟩ := h'
  rw [hdec] at hdec'
  cases hdec'
  exact EtchingLaw.entitled_unique hacc hacc'

theorem etched_eq_some {rune : Rune} :
    P.etched lib network view d = some rune ↔ P.Etches lib network view d rune := by
  unfold etched
  by_cases h : ∃ rune, P.Etches lib network view d rune
  · rw [dif_pos h, Option.some_inj]
    constructor
    · intro heq
      exact heq ▸ h.choose_spec
    · intro hrune
      exact h.choose_spec.unique hrune
  · rw [dif_neg h]
    constructor
    · intro heq
      cases heq
    · intro hrune
      exact absurd ⟨rune, hrune⟩ h

end step

/-! ### Blocks and chains -/

section chain

variable (lib : Crates) (network : BitcoinNetwork) (views : List BlockData → ChainView)

/-- Transactions one after the other, in a block of the given time. -/
noncomputable def steps (view : ChainView) (time : Nat) (P : Protocol) (l : List Located) :
    Protocol :=
  l.foldl (fun P d => P.step lib network view time d) P

/-- The blocks of a chain, newest first. -/
noncomputable def afterReversed : List BlockData → Protocol
  | [] => .empty
  | b :: earlier =>
    (afterReversed earlier).steps lib network (views (b :: earlier).reverse) b.header.time
      (b.located (lib.firstRuneHeight network + earlier.length))

/-- What a chain means: its blocks one after the other, each seen with the chain up to it. -/
noncomputable def after (chain : List BlockData) : Protocol :=
  afterReversed lib network views chain.reverse

variable {lib network views}

theorem after_append (chain : List BlockData) (b : BlockData) :
    after lib network views (chain ++ [b]) =
      (after lib network views chain).steps lib network (views (chain ++ [b])) b.header.time
        (b.located (lib.firstRuneHeight network + chain.length)) := by
  unfold after
  rw [List.reverse_append, List.reverse_singleton, List.singleton_append, afterReversed]
  simp

/-- One more transaction of a block. -/
theorem steps_take_succ {view : ChainView} {time height : Nat} (P : Protocol) {b : BlockData}
    {i : Nat} {tx : Transaction} {txid : Txid} (hget : b.txdata[i]? = some (tx, txid)) :
    P.steps lib network view time ((b.located height).take (i + 1)) =
      (P.steps lib network view time ((b.located height).take i)).step lib network view time
        ⟨⟨height, i⟩, tx, txid⟩ := by
  have hlocated : (b.located height)[i]? = some ⟨⟨height, i⟩, tx, txid⟩ := by
    simp [BlockData.located, List.getElem?_zipIdx, hget]
  unfold steps
  rw [List.take_add_one, hlocated, List.foldl_append]
  rfl

end chain

end Protocol

end RunesIndexer
