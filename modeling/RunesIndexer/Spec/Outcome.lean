import RunesIndexer.Spec.Settlement

/-! # The outcome of a transaction for each rune

    What a completed call of `index_runes` assigns to the outputs and burns is, rune
    by rune, the outcome of the abstract model. So the burn and default assignment
    follow one law, the change record lists the outpoints that were written and
    removed, and what happens to a rune does not depend on the other runes of the
    transaction.
-/

namespace RunesIndexer

open Resumption MonadicFold RuneUpdater

/-! ### Outcomes -/

/-- What each output has in the end and what is burned. -/
structure Outcome where
  assigned : Nat → Nat
  burned : Nat

/-- What is left goes to `default` or is burned, and so is what OP_RETURNs have. -/
def Purse.settle (flags : List Bool) (default : Option Nat) (p : Purse) : Outcome where
  assigned v := p.given v + if default = some v then p.left else 0
  burned := (∑ v ∈ Finset.range flags.length, if flags[v]? = some true then
      p.given v + if default = some v then p.left else 0 else 0) +
    if default = none then p.left else 0

/-- The outcome for a rune with `units` and the given transfers. A cenotaph burns all. -/
def outcome (flags : List Bool) (cenotaph : Bool) (pointer : Option Nat) (units : Nat)
    (transfers : List Transfer) : Outcome :=
  if cenotaph then ⟨fun _ => 0, units⟩
  else (transfers.foldl (Purse.transfer flags) (.full units)).settle flags
    (defaultOf flags pointer)

/-- The units of a rune in a transaction: inputs, mint and premine. -/
def unitsIn (lib : Crates) (height : Nat) (s : Store) (tx : Transaction)
    (etched : Option (RuneId × Rune)) (id : RuneId) : Nat :=
  inputTotal s tx id + mintedBy lib height s tx id + premined lib tx etched id

/-- The outcome of a transaction for a rune. -/
def outcomeOf (lib : Crates) (height : Nat) (s : Store) (tx : Transaction)
    (etched : Option (RuneId × Rune)) (id : RuneId) : Outcome :=
  outcome (lib.opReturns tx) (isCenotaph (lib.decipher tx)) (pointerOf (lib.decipher tx))
    (unitsIn lib height s tx etched id) (transfersIn lib tx etched id)

/-! ### The writes of a transaction -/

/-- A completed call with the runes it assigned to each output: its change record lists
    the outpoints it removed and wrote, and it changed no others. -/
structure Settlement (lib : Crates) (tx : Transaction) (txid : Txid) (s s' : Store)
    (u u' : RuneUpdater) (etched : Option (RuneId × Rune))
    (removed : List (OutPoint × RuneBalances × Nat)) (added : List OutPoint)
    (assigned : RuneId → Nat → Nat) : Prop where
  addedRunes : u'.changeRecord.addedRunes =
    u.changeRecord.addedRunes ++ etchedRecord txid etched
  removedOutpoints : u'.changeRecord.removedOutpoints =
    u.changeRecord.removedOutpoints ++ removed
  addedOutpoints : u'.changeRecord.addedOutpoints = u.changeRecord.addedOutpoints ++ added
  /-- The removed outpoints are the stored ones among the inputs, as they were stored. -/
  mem_removed : ∀ o balances height, (o, balances, height) ∈ removed ↔ o ∈ tx.spends ∧
    s.outpointToRuneBalances.get? o = some balances ∧ s.outpointToHeight.get? o = some height
  removed_all : ∀ o ∈ tx.spends, (s.outpointToRuneBalances.get? o).isSome →
    o ∈ removed.map Prod.fst
  removed_nodup : (removed.map Prod.fst).Nodup
  /-- The written outpoints are the outputs that have runes and are no OP_RETURNs. -/
  mem_added : ∀ o, o ∈ added ↔ ∃ v txOut, tx.output[v]? = some txOut ∧
    lib.burns txOut = false ∧ (∃ id, 0 < assigned id v) ∧ o = ⟨txid, v⟩
  added_nodup : added.Nodup
  /-- A written outpoint lists the positive amounts of its output, at the current height. -/
  created : ∀ v, ⟨txid, v⟩ ∈ added →
    ∃ l, s'.outpointToRuneBalances.get? ⟨txid, v⟩ = some l ∧
      Lists l (fun id => assigned id v) ∧
      s'.outpointToHeight.get? ⟨txid, v⟩ = some u.height
  others : ∀ o, o ∉ added →
    s'.outpointToRuneBalances.get? o =
      (if o ∈ removed.map Prod.fst then none else s.outpointToRuneBalances.get? o) ∧
    s'.outpointToHeight.get? o =
      if o ∈ removed.map Prod.fst then none else s.outpointToHeight.get? o

theorem get?_foldl_erase_id {V : Type} (l : List OutPoint) (m : FinMap OutPoint V) (o : OutPoint) :
    (l.foldl FinMap.erase m).get? o = if o ∈ l then none else m.get? o := by
  have h := FinMap.get?_foldl_erase (fun o : OutPoint => o) l m o
  rwa [List.map_id'] at h

/-- The final assignment and the burned runes, in the outcome of each rune. -/
theorem assigned_outcome {lib : Crates} {height : Nat} {s : Store} {tx : Transaction}
    {etched : Option (RuneId × Rune)} {l : List (RuneId × Nat)} {t : LotMap}
    {a a' : List LotMap} {burned : LotMap} (id : RuneId)
    (hassign : assignUnallocated lib tx (lib.decipher tx) l a = .ok (a', burned))
    (hl : sumAt l id = t.amount id)
    (hpurse : purseOf (t, a) id = (transfersIn lib tx etched id).foldl
      (Purse.transfer (lib.opReturns tx)) (.full (unitsIn lib height s tx etched id))) :
    (∀ v, givenTo a' v id = (outcomeOf lib height s tx etched id).assigned v) ∧
    burned.amount id + ∑ v ∈ Finset.range (lib.opReturns tx).length,
        (if (lib.opReturns tx)[v]? = some true then givenTo a' v id else 0) =
      (outcomeOf lib height s tx etched id).burned := by
  have hgiven := assignUnallocated_given hassign id
  rw [hl] at hgiven
  have hleft : t.amount id = (purseOf (t, a) id).left := rfl
  have hold : ∀ v, givenTo a v id = (purseOf (t, a) id).given v := fun _ => rfl
  unfold outcomeOf outcome
  by_cases hcenotaph : isCenotaph (lib.decipher tx) = true
  · rw [if_pos hcenotaph] at hgiven ⊢
    obtain ⟨rfl, hburned⟩ := hgiven
    -- a cenotaph has no edicts, so its purse is still full
    have hnone : transfersIn lib tx etched id = [] := by
      unfold isCenotaph at hcenotaph
      unfold transfersIn
      split at hcenotaph
      · next c hdec => rw [hdec]
      · cases hcenotaph
    rw [hnone, List.foldl_nil] at hpurse
    have hzero : ∀ v, givenTo a' v id = 0 := fun v => by rw [hold, hpurse]; rfl
    refine ⟨hzero, ?_⟩
    rw [hburned, hleft, hpurse, Finset.sum_eq_zero fun v _ => by rw [hzero, ite_self]]
    rfl
  · rw [if_neg hcenotaph] at hgiven ⊢
    obtain ⟨hgiven, hburned⟩ := hgiven
    rw [← hpurse]
    refine ⟨hgiven, ?_⟩
    unfold Purse.settle
    dsimp only
    rw [hburned, Nat.add_comm]
    refine congrArg₂ (· + ·) (Finset.sum_congr rfl fun v _ => ?_) rfl
    rw [hgiven]
    rfl

/-- A completed call writes and burns, for every rune, what the outcome says. -/
theorem indexRunes_outcome {lib : Crates} {ord : HashOrder} {ans : Answers} {u u' : RuneUpdater}
    {txIndex : Nat} {tx : Transaction} {txid : Txid} {s s' : Store}
    (h : Proc.Runs ans ((u.indexRunes lib ord txIndex tx txid).run s) (.ok s' u')) :
    ∃ etched removed added,
      Settlement lib tx txid s s' u u' etched removed added
        (fun id => (outcomeOf lib u.height s tx etched id).assigned) ∧
      (∀ id, u'.burned.amount id =
        u.burned.amount id + (outcomeOf lib u.height s tx etched id).burned) ∧
      ∀ id, ∀ e ∈ transfersIn lib tx etched id, e.output ≤ (lib.opReturns tx).length := by
  obtain ⟨s₁, t₁, u₁, s₂, t₂, u₂, s₃, t₃, a₃, u₃, hinputs, hmint, hetch, hfinish⟩ :=
    indexRunes_runs h
  obtain ⟨removed, hremoved, hu₁, ht₁⟩ := unallocated_removed hinputs
  obtain ⟨hsame₂, hrunes₂, ht₂⟩ := MintPhase.settles hmint
  obtain ⟨etched, hsame₃, hrunes₃, hlen, hpositive, hpurse⟩ := EtchPhase.settles hetch
  obtain ⟨a₄, burned, burned₁, u₄, b, hassign, houtputs, hadd, rfl⟩ :=
    finishTransaction_eq_ok hfinish
  have hsame := hsame₂.trans hsame₃
  have hheight : u₃.height = u.height := by rw [hsame.height, hu₁]
  -- the purse of each rune holds what came in, divided by its transfers
  have hunits : ∀ id, purseOf (t₃, a₃) id = (transfersIn lib tx etched id).foldl
      (Purse.transfer (lib.opReturns tx)) (.full (unitsIn lib u.height s tx etched id)) := by
    intro id
    have hminted : mintedBy lib u₁.height s₁ tx id = mintedBy lib u.height s tx id := by
      rw [hu₁, hremoved.store]
      rfl
    rw [(hpurse id).1, ht₂, ht₁, hminted, FinMap.amount_empty, Nat.zero_add]
    rfl
  have houtcome := fun id => assigned_outcome id hassign
    (sumAt_iter ord (.unallocated u₃.height txIndex) t₃ id) (hunits id)
  have hpos₄ : AllIn (fun _ n => 0 < n) a₄ := by
    intro m hm id n hget
    have hall := ((assignUnallocated_total hassign).2.2 (fun _ => True) (fun _ _ => trivial)
      fun m hm id n hget => ⟨trivial, hpositive m hm id n hget⟩).1
    exact (hall m hm id n hget).2
  have hlen₄ : a₄.length = tx.output.length := (assignUnallocated_total hassign).2.1.trans hlen
  obtain ⟨added, hwritten, hu₄, hburned₁⟩ := outputs_written hpos₄ houtputs
  have hamount : ∀ {v : Nat} {m : LotMap}, a₄[v]? = some m → ∀ id,
      m.amount id = (outcomeOf lib u.height s tx etched id).assigned v := by
    intro v m hv id
    rw [← (houtcome id).1, givenTo_of_get? hv]
  refine ⟨etched, removed, added, ⟨?_, ?_, ?_, ?_, ?_, hremoved.nodup, fun o => ?_,
    hwritten.nodup, fun v hv => ?_, fun o ho => ?_⟩, fun id => ?_, fun id => (hpurse id).2⟩
  · rw [hu₄]
    dsimp only
    rw [hrunes₃, hrunes₂, hu₁]
  · rw [hu₄]
    dsimp only
    rw [hsame.removed, hu₁]
  · rw [hu₄]
    dsimp only
    rw [hsame.added, hu₁]
  · intro o balances height
    rw [hremoved.mem, Transaction.spends, List.mem_toFinset]
  · intro o ho
    exact hremoved.all o (List.mem_toFinset.mp ho)
  · rw [hwritten.mem]
    constructor
    · rintro ⟨v, m, hv, hsize, hflag, ho⟩
      rw [Nat.zero_add] at hflag ho
      obtain ⟨txOut, hout, hburns⟩ := opReturns_getElem?.mp hflag
      obtain ⟨id, hid⟩ := (size_ne_zero_iff (hpos₄ m (List.mem_of_getElem? hv))).mp hsize
      exact ⟨v, txOut, hout, hburns, ⟨id, hamount hv id ▸ hid⟩, ho⟩
    · rintro ⟨v, txOut, hout, hburns, ⟨id, hid⟩, ho⟩
      have hlt : v < a₄.length := hlen₄ ▸ (List.getElem?_eq_some_iff.mp hout).1
      have hv : a₄[v]? = some a₄[v] := List.getElem?_eq_getElem hlt
      refine ⟨v, a₄[v], hv, ?_, ?_, ?_⟩
      · rw [size_ne_zero_iff (hpos₄ _ (List.mem_of_getElem? hv))]
        exact ⟨id, (hamount hv id).symm ▸ hid⟩
      · rw [Nat.zero_add]
        exact opReturns_getElem?.mpr ⟨txOut, hout, hburns⟩
      · rw [Nat.zero_add]
        exact ho
  · obtain ⟨v', m, hm, -, -, heq⟩ := (hwritten.mem _).mp hv
    rw [Nat.zero_add] at heq
    cases heq
    obtain ⟨l, hl, hlists, hh⟩ := hwritten.lists v m hm (by rwa [Nat.zero_add])
    rw [Nat.zero_add] at hl hh
    have hfun : m.amount = fun id => (outcomeOf lib u.height s tx etched id).assigned v :=
      funext (hamount hm)
    rw [hfun] at hlists
    exact ⟨l, hl, hlists, hheight ▸ hh⟩
  · obtain ⟨hb, hh⟩ := hwritten.others o ho
    rw [hb, hh, hsame.balances, hsame.heights, hremoved.store]
    exact ⟨get?_foldl_erase_id _ _ o, get?_foldl_erase_id _ _ o⟩
  · rw [addAll_amount hadd, sumAt_iter, hburned₁ id, hu₄]
    dsimp only
    rw [hsame.burned, hu₁, ← (houtcome id).2, length_opReturns, ← hlen₄]
    simp only [Nat.zero_add]

/-! ### The law of burning and default assignment -/

/-- What the edicts of a transaction give to output `v` of a rune. -/
def edictTotal (lib : Crates) (height : Nat) (s : Store) (tx : Transaction)
    (etched : Option (RuneId × Rune)) (id : RuneId) (v : Nat) : Nat :=
  ((transfersIn lib tx etched id).foldl (Purse.transfer (lib.opReturns tx))
    (.full (unitsIn lib height s tx etched id))).given v

/-- Every completed call settles every rune: a cenotaph burns all its units. Otherwise what
    the edicts left goes to the output of the pointer, or else to the first output that is
    no OP_RETURN, or else is burned; and what OP_RETURNs were given is burned. -/
theorem indexRunes_law {lib : Crates} {ord : HashOrder} {ans : Answers} {u u' : RuneUpdater}
    {txIndex : Nat} {tx : Transaction} {txid : Txid} {s s' : Store}
    (h : Proc.Runs ans ((u.indexRunes lib ord txIndex tx txid).run s) (.ok s' u')) :
    ∃ etched removed added assigned,
      Settlement lib tx txid s s' u u' etched removed added assigned ∧
      ∀ id,
        (isCenotaph (lib.decipher tx) = true →
          (∀ v, assigned id v = 0) ∧
          u'.burned.amount id = u.burned.amount id + unitsIn lib u.height s tx etched id) ∧
        (isCenotaph (lib.decipher tx) = false → ∃ left,
          left + ∑ v ∈ Finset.range tx.output.length, edictTotal lib u.height s tx etched id v =
            unitsIn lib u.height s tx etched id ∧
          (∀ v, assigned id v = edictTotal lib u.height s tx etched id v +
            if defaultOf (lib.opReturns tx) (pointerOf (lib.decipher tx)) = some v then left
            else 0) ∧
          u'.burned.amount id = u.burned.amount id +
            (∑ v ∈ Finset.range tx.output.length,
              if (lib.opReturns tx)[v]? = some true then assigned id v else 0) +
            if defaultOf (lib.opReturns tx) (pointerOf (lib.decipher tx)) = none then left
            else 0) := by
  obtain ⟨etched, removed, added, hsettled, hburned, houtputs⟩ := indexRunes_outcome h
  refine ⟨etched, removed, added, _, hsettled, fun id => ⟨fun hcenotaph => ?_, fun hno => ?_⟩⟩
  · have hout : outcomeOf lib u.height s tx etched id =
        ⟨fun _ => 0, unitsIn lib u.height s tx etched id⟩ := if_pos hcenotaph
    rw [hburned, hout]
    exact ⟨fun _ => rfl, rfl⟩
  · have hout : outcomeOf lib u.height s tx etched id =
        ((transfersIn lib tx etched id).foldl (Purse.transfer (lib.opReturns tx))
          (.full (unitsIn lib u.height s tx etched id))).settle (lib.opReturns tx)
          (defaultOf (lib.opReturns tx) (pointerOf (lib.decipher tx))) :=
      if_neg (by rw [hno]; simp)
    -- the transfers keep the units of the purse
    have htotal := Purse.transfers_total (houtputs id)
      (.full (unitsIn lib u.height s tx etched id))
    rw [hburned, hout]
    refine ⟨_, ?_, fun v => rfl, ?_⟩
    · unfold Purse.total at htotal
      rw [length_opReturns] at htotal
      refine htotal.trans ?_
      unfold Purse.full
      simp
    · unfold Purse.settle
      rw [length_opReturns, Nat.add_assoc]

/-- Of seven units three go where the edict says and four where the pointer does. -/
theorem indexRunes_law_sample : ∃ s' u' etched removed added assigned left,
    Settlement Sample.crates Sample.edictTx 1 Sample.holding s' Sample.updater u' etched removed
      added assigned ∧
    left + ∑ v ∈ Finset.range 3,
        edictTotal Sample.crates 0 Sample.holding Sample.edictTx etched ⟨5, 5⟩ v =
      unitsIn Sample.crates 0 Sample.holding Sample.edictTx etched ⟨5, 5⟩ ∧
    (∀ v, assigned ⟨5, 5⟩ v =
      edictTotal Sample.crates 0 Sample.holding Sample.edictTx etched ⟨5, 5⟩ v +
        if some 2 = some v then left else 0) ∧
    s'.heldAt ⟨1, 1⟩ ⟨5, 5⟩ = 3 ∧ s'.heldAt ⟨1, 2⟩ ⟨5, 5⟩ = 4 ∧ u'.burned.amount ⟨5, 5⟩ = 0 := by
  have hruns := runs_only Sample.reply
    ((Sample.updater.indexRunes Sample.crates Sample.order 0 Sample.edictTx 1).run Sample.holding)
  obtain ⟨s', u', hresult, hP⟩ := Result.returns_iff.mp (show Result.returns (fun s' u' =>
    s'.heldAt ⟨1, 1⟩ ⟨5, 5⟩ = 3 ∧ s'.heldAt ⟨1, 2⟩ ⟨5, 5⟩ = 4 ∧ u'.burned.amount ⟨5, 5⟩ = 0)
    (Proc.resultWith Sample.reply ((Sample.updater.indexRunes Sample.crates Sample.order 0
      Sample.edictTx 1).run Sample.holding)) = true by decide)
  rw [hresult] at hruns
  obtain ⟨etched, removed, added, assigned, hsettled, hlaw⟩ := indexRunes_law hruns
  obtain ⟨left, hunits, hassigned, -⟩ := (hlaw ⟨5, 5⟩).2 (by decide)
  have hdefault : defaultOf (Sample.crates.opReturns Sample.edictTx)
    (pointerOf (Sample.crates.decipher Sample.edictTx)) = some 2 := by decide
  rw [hdefault] at hassigned
  exact ⟨s', u', etched, removed, added, assigned, left, hsettled, hunits, hassigned,
    of_decide_eq_true hP⟩

/-! ### Independence of the runes -/

/-- The rune that a call of `index_runes` etched. -/
def etchedBy (u u' : RuneUpdater) : Option (RuneId × Rune) :=
  ((u'.changeRecord.addedRunes.drop u.changeRecord.addedRunes.length).head?).map
    fun e => (e.2.1, e.1)

/-- What a call of `index_runes` stored of a rune at output `v`. -/
def storedBy (u u' : RuneUpdater) (s' : Store) (txid : Txid) (v : Nat) (id : RuneId) : Nat :=
  if ⟨txid, v⟩ ∈ u'.changeRecord.addedOutpoints.drop u.changeRecord.addedOutpoints.length then
    s'.heldAt ⟨txid, v⟩ id
  else 0

/-- What a call of `index_runes` added to the burned map of the block. -/
def burnedBy (u u' : RuneUpdater) (id : RuneId) : Nat := u'.burned.amount id - u.burned.amount id

theorem Lists.sumAt {l : RuneBalances} {f : RuneId → Nat} (h : Lists l f) (id : RuneId) :
    RunesIndexer.sumAt (l.map fun b => (b.runeId, b.balance)) id = f id := by
  have hnodup : ((l.map fun b => (b.runeId, b.balance)).map Prod.fst).Nodup := by
    rw [List.map_map]
    exact h.nodup
  rcases Nat.eq_zero_or_pos (f id) with hzero | hpos
  · rw [hzero]
    refine sumAt_of_notMem fun hmem => ?_
    rw [List.map_map] at hmem
    obtain ⟨⟨id', n⟩, hb, heq⟩ := List.mem_map.mp hmem
    obtain rfl : id' = id := heq
    obtain ⟨hn, hf⟩ := (h.mem _ _).mp hb
    omega
  · refine sumAt_of_mem hnodup (List.mem_map.mpr ⟨⟨id, f id⟩, ?_, rfl⟩)
    exact (h.mem _ _).mpr ⟨hpos, rfl⟩

namespace Settlement

variable {lib : Crates} {tx : Transaction} {txid : Txid} {s s' : Store} {u u' : RuneUpdater}
  {etched : Option (RuneId × Rune)} {removed : List (OutPoint × RuneBalances × Nat)}
  {added : List OutPoint} {assigned : RuneId → Nat → Nat}

theorem etchedBy_eq (h : Settlement lib tx txid s s' u u' etched removed added assigned) :
    etchedBy u u' = etched := by
  unfold etchedBy
  rw [h.addedRunes, List.drop_left]
  cases etched <;> rfl

/-- What is stored at an output is what was assigned to it, unless it is an OP_RETURN. -/
theorem storedBy_eq (h : Settlement lib tx txid s s' u u' etched removed added assigned)
    (v : Nat) (id : RuneId) : storedBy u u' s' txid v id =
      if (lib.opReturns tx)[v]? = some false then assigned id v else 0 := by
  unfold storedBy
  rw [h.addedOutpoints, List.drop_left]
  by_cases hmem : (⟨txid, v⟩ : OutPoint) ∈ added
  · obtain ⟨v', txOut, hout, hburns, -, heq⟩ := (h.mem_added _).mp hmem
    cases heq
    obtain ⟨l, hl, hlists, -⟩ := h.created v hmem
    rw [if_pos hmem, if_pos (opReturns_getElem?.mpr ⟨txOut, hout, hburns⟩), s'.heldAt_of_get? hl]
    exact hlists.sumAt id
  · rw [if_neg hmem]
    split
    · next hflag =>
      -- an output with a positive amount would have been written
      obtain ⟨txOut, hout, hburns⟩ := opReturns_getElem?.mp hflag
      by_contra hne
      refine hmem ((h.mem_added _).mpr ⟨v, txOut, hout, hburns, ⟨id, ?_⟩, rfl⟩)
      omega
    · rfl

end Settlement

/-- Runes do not interfere: in two completed calls on transactions with the same OP_RETURN
    flags, kind and pointer that agree on the units and the edicts of a rune, the rune ends
    at the outputs and among the burned runes in the same amounts. -/
theorem indexRunes_independent {lib : Crates} {id : RuneId} {ord₁ ord₂ : HashOrder}
    {ans₁ ans₂ : Answers} {u₁ u₁' u₂ u₂' : RuneUpdater} {i₁ i₂ : Nat} {tx₁ tx₂ : Transaction}
    {txid₁ txid₂ : Txid} {s₁ s₁' s₂ s₂' : Store}
    (h₁ : Proc.Runs ans₁ ((u₁.indexRunes lib ord₁ i₁ tx₁ txid₁).run s₁) (.ok s₁' u₁'))
    (h₂ : Proc.Runs ans₂ ((u₂.indexRunes lib ord₂ i₂ tx₂ txid₂).run s₂) (.ok s₂' u₂'))
    (hflags : lib.opReturns tx₁ = lib.opReturns tx₂)
    (hkind : isCenotaph (lib.decipher tx₁) = isCenotaph (lib.decipher tx₂))
    (hpointer : pointerOf (lib.decipher tx₁) = pointerOf (lib.decipher tx₂))
    (hinputs : inputTotal s₁ tx₁ id = inputTotal s₂ tx₂ id)
    (hminted : mintedBy lib u₁.height s₁ tx₁ id = mintedBy lib u₂.height s₂ tx₂ id)
    (hpremine : premined lib tx₁ (etchedBy u₁ u₁') id = premined lib tx₂ (etchedBy u₂ u₂') id)
    (hedicts : transfersIn lib tx₁ (etchedBy u₁ u₁') id =
      transfersIn lib tx₂ (etchedBy u₂ u₂') id) :
    (∀ v, storedBy u₁ u₁' s₁' txid₁ v id = storedBy u₂ u₂' s₂' txid₂ v id) ∧
      burnedBy u₁ u₁' id = burnedBy u₂ u₂' id := by
  obtain ⟨etched₁, removed₁, added₁, hsettled₁, hburned₁, -⟩ := indexRunes_outcome h₁
  obtain ⟨etched₂, removed₂, added₂, hsettled₂, hburned₂, -⟩ := indexRunes_outcome h₂
  rw [hsettled₁.etchedBy_eq, hsettled₂.etchedBy_eq] at hpremine hedicts
  have hunits : unitsIn lib u₁.height s₁ tx₁ etched₁ id =
      unitsIn lib u₂.height s₂ tx₂ etched₂ id := by
    unfold unitsIn
    rw [hinputs, hminted, hpremine]
  -- the outcome of one rune is a function of what the hypotheses fix
  have houtcome : outcomeOf lib u₁.height s₁ tx₁ etched₁ id =
      outcomeOf lib u₂.height s₂ tx₂ etched₂ id := by
    unfold outcomeOf
    rw [hflags, hkind, hpointer, hunits, hedicts]
  refine ⟨fun v => ?_, ?_⟩
  · rw [hsettled₁.storedBy_eq, hsettled₂.storedBy_eq, hflags, houtcome]
  · unfold burnedBy
    rw [hburned₁, hburned₂, houtcome, Nat.add_sub_cancel_left, Nat.add_sub_cancel_left]

/-- The premine of an etching reaches its output whether or not the transaction has another
    rune among its inputs. -/
theorem indexRunes_independent_sample : ∃ s₁ u₁ s₂ u₂,
    storedBy Sample.updater u₁ s₁ 1 1 Sample.runeId = 100 ∧
    storedBy Sample.updater u₂ s₂ 1 1 ⟨5, 5⟩ = 7 ∧
    storedBy Sample.updater u₁ s₁ 1 1 Sample.runeId =
      storedBy Sample.updater u₂ s₂ 1 1 Sample.runeId := by
  have hruns₁ := runs_only Sample.reply ((Sample.updater.indexRunes Sample.crates Sample.order 0
    (Sample.tx [] [1]) 1).run (Store.empty Sample.config))
  have hruns₂ := runs_only Sample.reply ((Sample.updater.indexRunes Sample.crates Sample.order 0
    (Sample.tx [Sample.spend 9 0 []] [1]) 1).run Sample.holding)
  obtain ⟨s₁, u₁, hresult₁, hP₁⟩ := Result.returns_iff.mp (show Result.returns (fun s' u' =>
    premined Sample.crates (Sample.tx [] [1]) (etchedBy Sample.updater u') Sample.runeId = 100 ∧
    transfersIn Sample.crates (Sample.tx [] [1]) (etchedBy Sample.updater u') Sample.runeId = [] ∧
    storedBy Sample.updater u' s' 1 1 Sample.runeId = 100)
    (Proc.resultWith Sample.reply ((Sample.updater.indexRunes Sample.crates Sample.order 0
      (Sample.tx [] [1]) 1).run (Store.empty Sample.config))) = true by decide)
  obtain ⟨s₂, u₂, hresult₂, hP₂⟩ := Result.returns_iff.mp (show Result.returns (fun s' u' =>
    premined Sample.crates (Sample.tx [Sample.spend 9 0 []] [1]) (etchedBy Sample.updater u')
      Sample.runeId = 100 ∧
    transfersIn Sample.crates (Sample.tx [Sample.spend 9 0 []] [1]) (etchedBy Sample.updater u')
      Sample.runeId = [] ∧
    storedBy Sample.updater u' s' 1 1 ⟨5, 5⟩ = 7)
    (Proc.resultWith Sample.reply ((Sample.updater.indexRunes Sample.crates Sample.order 0
      (Sample.tx [Sample.spend 9 0 []] [1]) 1).run Sample.holding)) = true by decide)
  simp only [decide_eq_true_eq] at hP₁ hP₂
  rw [hresult₁] at hruns₁
  rw [hresult₂] at hruns₂
  -- two transactions that differ in another rune's input
  have hsame : (∀ v, storedBy Sample.updater u₁ s₁ 1 v Sample.runeId =
      storedBy Sample.updater u₂ s₂ 1 v Sample.runeId) ∧
      burnedBy Sample.updater u₁ Sample.runeId = burnedBy Sample.updater u₂ Sample.runeId :=
    indexRunes_independent hruns₁ hruns₂ rfl rfl rfl (by decide) (by decide)
      (hP₁.1.trans hP₂.1.symm) (hP₁.2.1.trans hP₂.2.1.symm)
  exact ⟨s₁, u₁, s₂, u₂, hP₁.2.2, hP₂.2.2, hsame.1 1⟩

end RunesIndexer
