import RunesIndexer.Spec.Entries

/-! # Which etchings are accepted

    A rune is registered at a position exactly if the transaction there was entitled to
    the name: it left the choice to the indexer, or it named a rune that was unlocked,
    not reserved, not yet taken, and committed to in time. What the entry says apart from
    its counts is what the etching said, however much was minted or burned since.
-/

namespace RunesIndexer

open Resumption MonadicFold RuneUpdater

/-! ### Entries without their counts -/

/-- What no step after the etching changes. -/
def RuneEntry.constants (e : RuneEntry) : RuneEntry := { e.reload with mints := 0, burned := 0 }

@[simp] theorem RuneEntry.constants_reload (e : RuneEntry) : e.reload.constants = e.constants := by
  simp [constants]

/-- The entries of a ledger without their counts. -/
def Ledger.constants (L : Ledger) : FinMap RuneId RuneEntry := L.entries.mapVal RuneEntry.constants

theorem Ledger.get?_constants {L : Ledger} {id : RuneId} {c : RuneEntry} :
    L.constants.get? id = some c ↔ ∃ e, L.entries.get? id = some e ∧ e.constants = c := by
  unfold constants
  rw [FinMap.get?_mapVal, Option.map_eq_some_iff]

/-- Changing the counts of an entry changes none of this. -/
theorem constants_insert {m : FinMap RuneId RuneEntry} {id : RuneId} {e e' : RuneEntry}
    (he : m.get? id = some e) (h : e'.constants = e.constants) :
    (m.insert id e').mapVal RuneEntry.constants = m.mapVal RuneEntry.constants := by
  rw [FinMap.mapVal_insert, h, FinMap.insert_of_get?_eq_some]
  rw [FinMap.get?_mapVal, he]
  rfl

/-! ### What an entry records -/

/-- The entry says what the etching at `d` said, in a block of the given time. -/
structure RuneEntry.Records (e : RuneEntry) (artifact : Artifact) (d : Located) (time : Nat) :
    Prop where
  block : e.block = d.id.block
  etching : e.etching = d.txid
  timestamp : e.timestamp = time
  divisibility : e.divisibility = (artifact.details.bind (·.divisibility)).getD 0
  premine : e.premine = (artifact.details.bind (·.premine)).getD 0
  spacers : e.spacedRune =
    SpacedRune.reload ⟨e.spacedRune.rune, (artifact.details.bind (·.spacers)).getD 0⟩
  symbol : e.symbol = artifact.details.bind (·.symbol)
  terms : e.terms = artifact.details.bind (·.terms)
  turbo : e.turbo = (artifact.details.map (·.turbo)).getD false

/-! ### One transaction -/

section transaction

variable {lib : Crates} {network : BitcoinNetwork} {view : ChainView} {ans : Answers}
  {d : Located} {u u' : RuneUpdater} {s s' : Store}

/-- The new entry records the etching. -/
theorem newEntry_records {artifact : Artifact} (hdec : lib.decipher d.tx = some artifact)
    (time number : Nat) (rune : Rune) :
    (newEntry lib d time number rune).constants.Records artifact d time ∧
      (newEntry lib d time number rune).constants.spacedRune.rune = rune := by
  unfold newEntry
  rw [hdec, Option.bind_some]
  refine ⟨⟨rfl, rfl, rfl, rfl, rfl, ?_, rfl, rfl, rfl⟩, rfl⟩
  simp [RuneEntry.constants, RuneEntry.reload, SpacedRune.reload]

/-- The entries without their counts, read from those that are read back. -/
theorem Ledger.get?_constants_eq (L : Ledger) (id : RuneId) :
    L.constants.get? id = (entriesOf L.entries id).map RuneEntry.constants := by
  unfold constants entriesOf
  rw [FinMap.get?_mapVal, Option.map_map]
  congr
  funext e
  simp

/-- A completed transaction registers what it is entitled to, and nothing else changes. -/
theorem indexRunes_registers {ord : HashOrder} (hheight : u.height = d.id.block)
    (hmin : u.minimum = lib.minimumAtHeight network d.id.block)
    (hreports : ReportsAt lib view ans d)
    (h : Proc.Runs ans ((u.indexRunes lib ord d.id.tx d.tx d.txid).run s) (.ok s' u')) :
    (∀ artifact rune, lib.decipher d.tx = some artifact →
        ¬ Entitled lib network view (fun r => (s.runeToRuneId.get? r).isSome) d artifact rune) ∧
      s'.ledger.constants = s.ledger.constants ∨
    ∃ artifact c, lib.decipher d.tx = some artifact ∧
      Entitled lib network view (fun r => (s.runeToRuneId.get? r).isSome) d artifact
        c.spacedRune.rune ∧
      c.Records artifact d u.blockTime ∧
      s'.ledger.constants = s.ledger.constants.insert d.id c := by
  obtain ⟨etched, hetched, -, -, hentries⟩ := indexRunes_entries hheight hmin hreports h
  -- a mint changes a count only
  have hcount : ∀ minted id, (countMint minted (entriesOf s.runeIdToRuneEntry) id).map
      RuneEntry.constants = s.ledger.constants.get? id := by
    intro minted id
    rw [Ledger.get?_constants_eq]
    unfold countMint
    rw [Option.map_map]
    congr
    funext e
    simp only [Function.comp_apply]
    split <;> rfl
  have hconst : ∀ id, s'.ledger.constants.get? id = (entriesAfter lib d u.blockTime u.runes etched
      (entriesOf s.runeIdToRuneEntry) id).map RuneEntry.constants := by
    intro id
    rw [Ledger.get?_constants_eq, ← hentries]
    rfl
  cases etched with
  | none =>
    refine .inl ⟨fun artifact rune hdec hacc => ?_, FinMap.ext fun id => ?_⟩
    · cases (hetched rune).mpr ⟨artifact, hdec, hacc⟩
    · rw [hconst]
      exact hcount _ id
  | some rune =>
    obtain ⟨artifact, hdec, hacc⟩ := (hetched rune).mp rfl
    obtain ⟨hrecords, hrune⟩ := newEntry_records hdec u.blockTime u.runes rune
    refine .inr ⟨artifact, _, hdec, hrune ▸ hacc, hrecords, FinMap.ext fun id => ?_⟩
    rw [hconst]
    by_cases hid : id = d.id
    · simp [entriesAfter, hid]
    · rw [FinMap.get?_insert_ne _ _ hid, ← hcount ((mintAt lib d
        (entriesOf s.runeIdToRuneEntry)).map Prod.fst) id]
      simp [entriesAfter, hid]

end transaction

/-! ### The law -/

/-- The chain up to the block at `height`. -/
def chainTo (first : Nat) (chain : List BlockData) (height : Nat) : List BlockData :=
  chain.take (height - first + 1)

theorem chainTo_append {first height : Nat} {chain : List BlockData}
    (h : height < first + chain.length) (hle : first ≤ height) (b : BlockData) :
    chainTo first (chain ++ [b]) height = chainTo first chain height := by
  unfold chainTo
  rw [List.take_append_of_le_length (by omega)]

theorem first_le_of_mem_located {first : Nat} {chain : List BlockData} {d : Located}
    (h : d ∈ located first chain) : first ≤ d.id.block := by
  induction chain generalizing first with
  | nil => cases h
  | cons b rest ih =>
    rw [located, List.mem_append] at h
    rcases h with h | h
    · obtain ⟨e, -, rfl⟩ := List.mem_map.mp h
      exact Nat.le_refl _
    · exact Nat.le_of_succ_le (ih h)

theorem chainTo_tip (first : Nat) (chain : List BlockData) (b : BlockData) :
    chainTo first (chain ++ [b]) (first + chain.length) = chain ++ [b] := by
  unfold chainTo
  rw [Nat.add_sub_cancel_left, List.take_of_length_le (by simp)]

/-- A rune at an earlier position has the name. -/
def HeldBefore (m : FinMap RuneId RuneEntry) (id : RuneId) (rune : Rune) : Prop :=
  ∃ id' c, id'.Precedes id ∧ m.get? id' = some c ∧ c.spacedRune.rune = rune

/-- The entries are those of the transactions in `done` that were entitled to one, each
    judged by the chain up to its block and by the entries before it. -/
structure EtchingLaw (lib : Crates) (network : BitcoinNetwork)
    (views : List BlockData → ChainView) (chain : List BlockData) (done : List Located)
    (m : FinMap RuneId RuneEntry) : Prop where
  sound : ∀ id c, m.get? id = some c → ∃ d ∈ done, d.id = id ∧ ∃ artifact b,
    lib.decipher d.tx = some artifact ∧
    Entitled lib network (views (chainTo (lib.firstRuneHeight network) chain d.id.block))
      (HeldBefore m d.id) d artifact c.spacedRune.rune ∧
    (chainTo (lib.firstRuneHeight network) chain d.id.block).getLast? = some b ∧
    c.Records artifact d b.header.time
  complete : ∀ d ∈ done, ∀ artifact rune, lib.decipher d.tx = some artifact →
    Entitled lib network (views (chainTo (lib.firstRuneHeight network) chain d.id.block))
      (HeldBefore m d.id) d artifact rune →
    ∃ c, m.get? d.id = some c ∧ c.spacedRune.rune = rune

/-- A new entry is not before those that are not after it. -/
theorem heldBefore_insert {m : FinMap RuneId RuneEntry} {id new : RuneId} {c : RuneEntry}
    (h : ¬ new.Precedes id) : HeldBefore (m.insert new c) id = HeldBefore m id := by
  funext rune
  apply propext
  constructor
  · intro ⟨id', c', hprec, hget, hrune⟩
    have hne : id' ≠ new := fun heq => h (heq ▸ hprec)
    rw [FinMap.get?_insert_ne _ _ hne] at hget
    exact ⟨id', c', hprec, hget, hrune⟩
  · intro ⟨id', c', hprec, hget, hrune⟩
    have hne : id' ≠ new := fun heq => h (heq ▸ hprec)
    exact ⟨id', c', hprec, by rw [FinMap.get?_insert_ne _ _ hne]; exact hget, hrune⟩

namespace EtchingLaw

variable {lib : Crates} {network : BitcoinNetwork} {views : List BlockData → ChainView}
  {chain : List BlockData} {done : List Located} {m : FinMap RuneId RuneEntry} {d : Located}

theorem empty (chain : List BlockData) : EtchingLaw lib network views chain [] ∅ where
  sound id c h := by simp at h
  complete d hd := by cases hd

/-- Only the blocks that the transactions are in matter. -/
theorem congr {chain' : List BlockData} (h : EtchingLaw lib network views chain done m)
    (hsame : ∀ d ∈ done, chainTo (lib.firstRuneHeight network) chain' d.id.block =
      chainTo (lib.firstRuneHeight network) chain d.id.block) :
    EtchingLaw lib network views chain' done m where
  sound id c hget := by
    obtain ⟨d, hd, hid, hrest⟩ := h.sound id c hget
    rw [← hsame d hd] at hrest
    exact ⟨d, hd, hid, hrest⟩
  complete d hd artifact rune hdec hacc := by
    rw [hsame d hd] at hacc
    exact h.complete d hd artifact rune hdec hacc

/-- One more transaction, which is entitled to nothing. -/
theorem pass (h : EtchingLaw lib network views chain done m)
    (hno : ∀ artifact rune, lib.decipher d.tx = some artifact →
      ¬ Entitled lib network (views (chainTo (lib.firstRuneHeight network) chain d.id.block))
        (HeldBefore m d.id) d artifact rune) :
    EtchingLaw lib network views chain (done ++ [d]) m where
  sound id c hget := by
    obtain ⟨d', hd', hrest⟩ := h.sound id c hget
    exact ⟨d', List.mem_append_left _ hd', hrest⟩
  complete d' hd' artifact rune hdec hacc := by
    rcases List.mem_append.mp hd' with hd' | hd'
    · exact h.complete d' hd' artifact rune hdec hacc
    · obtain rfl := List.mem_singleton.mp hd'
      exact absurd hacc (hno artifact rune hdec)

/-- An etching leaves the name to the indexer or gives it. -/
theorem entitled_unique {view : ChainView} {held : Rune → Prop} {artifact : Artifact}
    {rune rune' : Rune} (h : Entitled lib network view held d artifact rune)
    (h' : Entitled lib network view held d artifact rune') : rune = rune' := by
  cases h with
  | chosen hname _ _ _ _ =>
    cases h' with
    | chosen hname' _ _ _ _ => simpa [hname] using hname'
    | reserved hname' => simp [hname] at hname'
  | reserved hname =>
    cases h' with
    | chosen hname' _ _ _ _ => simp [hname] at hname'
    | reserved _ => rfl

/-- One more transaction, which gets the entry `c`. -/
theorem register (h : EtchingLaw lib network views chain done m)
    (hlast : ∀ d' ∈ done, d'.id.Precedes d.id) {artifact : Artifact} {b : BlockData}
    {c : RuneEntry} (hdec : lib.decipher d.tx = some artifact)
    (hacc : Entitled lib network
      (views (chainTo (lib.firstRuneHeight network) chain d.id.block)) (HeldBefore m d.id) d
      artifact c.spacedRune.rune)
    (hblock : (chainTo (lib.firstRuneHeight network) chain d.id.block).getLast? = some b)
    (hrecords : c.Records artifact d b.header.time) :
    EtchingLaw lib network views chain (done ++ [d]) (m.insert d.id c) := by
  have hself : HeldBefore (m.insert d.id c) d.id = HeldBefore m d.id :=
    heldBefore_insert (by unfold RuneId.Precedes; omega)
  have hold : ∀ d' ∈ done, HeldBefore (m.insert d.id c) d'.id = HeldBefore m d'.id := by
    intro d' hd'
    have hprec := hlast d' hd'
    exact heldBefore_insert (by unfold RuneId.Precedes at *; omega)
  have hne : ∀ d' ∈ done, d'.id ≠ d.id := by
    intro d' hd' heq
    have hprec := hlast d' hd'
    rw [heq] at hprec
    unfold RuneId.Precedes at hprec
    omega
  -- the entries before an old position are the old ones
  constructor
  · intro id c' hget
    rw [FinMap.get?_insert] at hget
    split at hget
    · next heq =>
      cases hget
      refine ⟨d, by simp, heq.symm, artifact, b, hdec, ?_, hblock, hrecords⟩
      rw [hself]
      exact hacc
    · obtain ⟨d', hd', hid, hrest⟩ := h.sound id c' hget
      rw [← hold d' hd'] at hrest
      exact ⟨d', List.mem_append_left _ hd', hid, hrest⟩
  · intro d' hd' artifact' rune hdec' hacc'
    rcases List.mem_append.mp hd' with hd' | hd'
    · rw [hold d' hd'] at hacc'
      rw [FinMap.get?_insert_ne _ _ (hne d' hd')]
      exact h.complete d' hd' artifact' rune hdec' hacc'
    · obtain rfl := List.mem_singleton.mp hd'
      rw [hself] at hacc'
      rw [hdec] at hdec'
      cases hdec'
      exact ⟨c, FinMap.get?_insert_self _ _ _, entitled_unique hacc hacc'⟩

end EtchingLaw

/-! ### Blocks -/

/-- While a block is indexed: the names that are looked up are those of the entries. -/
structure EtchingAt (lib : Crates) (network : BitcoinNetwork)
    (views : List BlockData → ChainView) (chain : List BlockData) (b : BlockData) (i : Nat)
    (s : Store) (u : RuneUpdater) : Prop where
  registry : Registry lib (doneAt (lib.firstRuneHeight network) chain b i) s.ledger
  runes : u.runes = s.ledger.runes
  law : EtchingLaw lib network views (chain ++ [b])
    (doneAt (lib.firstRuneHeight network) chain b i) s.ledger.constants
  height_eq : u.height = lib.firstRuneHeight network + chain.length
  minimum : u.minimum = lib.minimumAtHeight network (lib.firstRuneHeight network + chain.length)
  blockTime : u.blockTime = b.header.time
  rows : s.RowsEndAt (lib.firstRuneHeight network + chain.length)

section block

variable {lib : Crates} {network : BitcoinNetwork} {views : List BlockData → ChainView}
  {chain : List BlockData} {b : BlockData} {ans : Answers} {ord : HashOrder}

theorem Registry.heldBefore {done : List Located} {s : Store} {id : RuneId}
    (h : Registry lib done s.ledger) (hlast : ∀ d ∈ done, d.id.Precedes id) :
    (fun rune => (s.runeToRuneId.get? rune).isSome = true) =
      HeldBefore s.ledger.constants id := by
  funext rune
  apply propext
  rw [Option.isSome_iff_exists]
  constructor
  · intro ⟨id', hid'⟩
    obtain ⟨e, he, hrune⟩ := (h.runeToRuneId_iff rune id').mp hid'
    obtain ⟨-, d, hd, hpos, -⟩ := h.positions id' _ (Ledger.get?_identities.mpr ⟨e, he, rfl⟩)
    exact ⟨id', e.constants, hpos ▸ hlast d hd, Ledger.get?_constants.mpr ⟨e, he, rfl⟩, hrune⟩
  · intro ⟨id', c, _, hget, hrune⟩
    obtain ⟨e, he, rfl⟩ := Ledger.get?_constants.mp hget
    exact ⟨id', (h.runeToRuneId_iff rune id').mpr ⟨e, he, hrune⟩⟩

/-- A transaction goes on with the law, whichever way its etching is decided. -/
theorem EtchingAt.indexRunes {i : Nat} {tx : Transaction} {txid : Txid} {s s' : Store}
    {u u' : RuneUpdater} (hres : ReservedNames lib) (hdistinct : DistinctTxids (chain ++ [b]))
    (hget : b.txdata[i]? = some (tx, txid))
    (hreports : ReportsAt lib (views (chain ++ [b])) ans
      ⟨⟨lib.firstRuneHeight network + chain.length, i⟩, tx, txid⟩)
    (h : EtchingAt lib network views chain b i s u)
    (hrun : Proc.Runs ans ((u.indexRunes lib ord i tx txid).run s) (.ok s' u')) :
    EtchingAt lib network views chain b (i + 1) s' u' := by
  have hphases := indexRunes_phases (h.height_eq ▸ h.rows) hrun
  obtain ⟨hwithin, hsame⟩ := indexRunes_within hrun
  obtain ⟨hregistry, hruns⟩ :=
    Registry.indexRunes hres hdistinct hget h.height_eq ⟨h.registry, h.runes⟩ hphases
  have hlast : ∀ d ∈ doneAt (lib.firstRuneHeight network) chain b i,
      d.id.Precedes ⟨lib.firstRuneHeight network + chain.length, i⟩ :=
    fun d hd => mem_doneAt_precedes hd
  refine ⟨hregistry, hruns, ?_, hsame.height.trans h.height_eq, hsame.minimum.trans h.minimum,
    hsame.blockTime.trans h.blockTime, (h.height_eq ▸ hwithin).rowsEnd h.rows⟩
  rw [doneAt_succ _ chain hget]
  have hregisters := indexRunes_registers
    (d := ⟨⟨lib.firstRuneHeight network + chain.length, i⟩, tx, txid⟩) h.height_eq h.minimum
    hreports hrun
  -- the names that the code looks up are those of the entries so far
  rw [h.registry.heldBefore hlast] at hregisters
  rcases hregisters with ⟨hno, hconst⟩ | ⟨artifact, c, hdec, hacc, hrecords, hconst⟩
  · rw [hconst]
    refine h.law.pass fun artifact rune hdec hacc => hno artifact rune hdec ?_
    rwa [chainTo_tip] at hacc
  · rw [hconst]
    refine h.law.register hlast hdec ?_ ?_ (h.blockTime ▸ hrecords)
    · rw [chainTo_tip]
      exact hacc
    · rw [chainTo_tip]
      simp

/-- A completed block. -/
theorem EtchingLaw.indexBlock {s s' : Store} (hres : ReservedNames lib)
    (hdistinct : DistinctTxids (chain ++ [b]))
    (hreports : ∀ d ∈ b.located (lib.firstRuneHeight network + chain.length),
      ReportsAt lib (views (chain ++ [b])) ans d)
    (hrows : s.RowsBelow (lib.firstRuneHeight network + chain.length))
    (hregistry : Registry lib (located (lib.firstRuneHeight network) chain) s.ledger)
    (h : EtchingLaw lib network views chain (located (lib.firstRuneHeight network) chain)
      s.ledger.constants)
    (hrun : Proc.Runs ans
      ((indexBlock lib ord network (lib.firstRuneHeight network + chain.length) b).run s)
      (.ok s' ())) :
    Registry lib (located (lib.firstRuneHeight network) (chain ++ [b])) s'.ledger ∧
      EtchingLaw lib network views (chain ++ [b])
        (located (lib.firstRuneHeight network) (chain ++ [b])) s'.ledger.constants := by
  obtain ⟨s₁, u₁, s₂, htxs, hupdate, rfl⟩ := indexBlock_runs hrun
  have hstart := startBlock_ledger hrows.upTo
  have h₀ : EtchingAt lib network views chain b 0
      (startBlock (lib.firstRuneHeight network + chain.length) s)
      (RuneUpdater.new lib network (lib.firstRuneHeight network + chain.length) b.header.time
        s.memStatisticRunes) := by
    refine ⟨?_, ?_, ?_, rfl, rfl, rfl, startBlock_rowsEndAt hrows.upTo⟩
    · rw [doneAt_zero, hstart]
      exact hregistry
    · rw [hstart]
      rfl
    · rw [doneAt_zero, hstart]
      exact h.congr fun d hd =>
        chainTo_append (mem_located_block hd) (first_le_of_mem_located hd) b
  have hend := indexTransactions_invariant
    (P := fun i s u => EtchingAt lib network views chain b i s u)
    (fun i tx txid hget s u s' u' hP hrun => by
      rw [Nat.zero_add] at hP hrun ⊢
      refine hP.indexRunes hres hdistinct hget (hreports _ ?_) hrun
      unfold BlockData.located
      exact List.mem_map.mpr ⟨((tx, txid), i), List.mem_zipIdx_iff_getElem?.mpr hget, rfl⟩)
    h₀ htxs
  rw [Nat.zero_add] at hend
  rw [Store.ledger_memInsertBlockHeader, ← doneAt_length]
  -- the flush changes burned counts only
  refine update_invariant
    (P := fun L => Registry lib (doneAt (lib.firstRuneHeight network) chain b b.txdata.length) L ∧
      EtchingLaw lib network views (chain ++ [b])
        (doneAt (lib.firstRuneHeight network) chain b b.txdata.length) L.constants)
    ?_ ⟨hend.registry, hend.law⟩ hupdate
  intro L id e n hP he
  obtain ⟨hregistry, hlaw⟩ := hP
  refine ⟨hregistry.congr (identities_insert he rfl) rfl rfl rfl rfl, ?_⟩
  have hconst : Ledger.constants
      { L with entries := L.entries.insert id { e with burned := n }.reload } = L.constants :=
    constants_insert he (by simp [RuneEntry.constants, RuneEntry.reload])
  rw [hconst]
  exact hlaw

end block

/-! ### Runs -/

/-- Whatever block comes next, the node reports the outputs with which its etchings commit as
    the chain has them. -/
def Node.Reports (node : Node) (lib : Crates) (network : BitcoinNetwork)
    (views : List BlockData → ChainView) (admits : List BlockData → Prop) : Prop :=
  ∀ chain b, admits (chain ++ [b]) →
    ∀ d ∈ b.located (lib.firstRuneHeight network + chain.length),
      ReportsAt lib (views (chain ++ [b])) (node (chain ++ [b])) d

section runs

variable {lib : Crates} {network : BitcoinNetwork} {node : Node}
  {views : List BlockData → ChainView} {admits : List BlockData → Prop} {chain : List BlockData}
  {s : Store}

theorem EtchingLaw.of_run (hres : ReservedNames lib)
    (hdistinct : ∀ chain, admits chain → DistinctTxids chain)
    (hreports : node.Reports lib network views admits) (h : Run lib network node admits chain s) :
    EtchingLaw lib network views chain (located (lib.firstRuneHeight network) chain)
      s.ledger.constants := by
  have hboth : Registry lib (located (lib.firstRuneHeight network) chain) s.ledger ∧
      EtchingLaw lib network views chain (located (lib.firstRuneHeight network) chain)
        s.ledger.constants := by
    refine h.invariant (p := .all)
      (P := fun chain L => Registry lib (located (lib.firstRuneHeight network) chain) L ∧
        EtchingLaw lib network views chain (located (lib.firstRuneHeight network) chain)
          L.constants)
      (fun chain hadmits => ⟨fun _ => hdistinct chain hadmits,
        fun _ => ⟨hdistinct chain hadmits, hres⟩⟩) ?_ ⟨.empty lib, .empty []⟩ ?_
    · intro chain L L' hagrees hP
      exact hagrees.eq ▸ hP
    · intro chain b ord s s' hadmits hrows hP hrun
      exact hP.2.indexBlock hres (hdistinct _ hadmits) (hreports chain b hadmits) hrows hP.1 hrun
  exact hboth.2

theorem heldBefore_constants (L : Ledger) (id : RuneId) :
    HeldBefore L.constants id = HeldBefore L.entries id := by
  funext rune
  apply propext
  constructor
  · intro ⟨id', c, hprec, hget, hrune⟩
    obtain ⟨e, he, rfl⟩ := Ledger.get?_constants.mp hget
    exact ⟨id', e, hprec, he, hrune⟩
  · intro ⟨id', e, hprec, he, hrune⟩
    exact ⟨id', e.constants, hprec, Ledger.get?_constants.mpr ⟨e, he, rfl⟩, hrune⟩

/-- The counts are no part of what is recorded. -/
theorem RuneEntry.Records.of_constants {e : RuneEntry} {artifact : Artifact} {d : Located}
    {time : Nat} (h : e.constants.Records artifact d time) (hreload : e.reload = e) :
    e.Records artifact d time := by
  have hspaced : e.constants.spacedRune = e.spacedRune := by
    show e.reload.spacedRune = e.spacedRune
    rw [hreload]
  have hspacers := h.spacers
  rw [hspaced] at hspacers
  exact ⟨h.block, h.etching, h.timestamp, h.divisibility, h.premine, hspacers, h.symbol, h.terms,
    h.turbo⟩

/-- What is stored has been through its bytes. -/
theorem Run.reloaded (hres : ReservedNames lib)
    (hdistinct : ∀ chain, admits chain → DistinctTxids chain)
    (h : Run lib network node admits chain s) (id : RuneId) (e : RuneEntry)
    (he : s.runeIdToRuneEntry.get? id = some e) : e.reload = e := by
  have hsound : ∀ chain, admits chain → Scope.all.Sound lib chain := fun chain hadmits =>
    ⟨fun _ => hdistinct chain hadmits, fun _ => ⟨hdistinct chain hadmits, hres⟩⟩
  obtain ⟨lo, fs, -, hJ⟩ := h.journaled hsound
  have hbelow := (hJ.replay.below hsound).agrees hJ.now.symm
  exact (hbelow.entries id e he).2

/-- Along every run with a node that reports the spent outputs as the chain has them, there is
    a rune at a position exactly if the transaction there was entitled to its name, as judged
    by the chain up to its block and by the entries before it. The entry says what the etching
    said, whatever was minted, burned or rolled back since. -/
theorem Run.etchings (hres : ReservedNames lib)
    (hdistinct : ∀ chain, admits chain → DistinctTxids chain)
    (hreports : node.Reports lib network views admits) (h : Run lib network node admits chain s) :
    (∀ id rune, (∃ e, s.runeIdToRuneEntry.get? id = some e ∧ e.spacedRune.rune = rune) ↔
      ∃ d ∈ located (lib.firstRuneHeight network) chain, d.id = id ∧ ∃ artifact,
        lib.decipher d.tx = some artifact ∧
        Entitled lib network (views (chainTo (lib.firstRuneHeight network) chain id.block))
          (HeldBefore s.runeIdToRuneEntry id) d artifact rune) ∧
    ∀ id e, s.runeIdToRuneEntry.get? id = some e →
      ∃ d ∈ located (lib.firstRuneHeight network) chain, d.id = id ∧ ∃ artifact b,
        lib.decipher d.tx = some artifact ∧
        (chainTo (lib.firstRuneHeight network) chain id.block).getLast? = some b ∧
        e.Records artifact d b.header.time := by
  have hlaw := EtchingLaw.of_run hres hdistinct hreports h
  have hheld : ∀ id, HeldBefore s.runeIdToRuneEntry id = HeldBefore s.ledger.constants id :=
    fun id => (heldBefore_constants s.ledger id).symm
  have hreload := h.reloaded hres hdistinct
  constructor
  · intro id rune
    rw [hheld]
    constructor
    · intro ⟨e, he, hrune⟩
      obtain ⟨d, hd, rfl, artifact, b, hdec, hacc, -, -⟩ :=
        hlaw.sound id e.constants (Ledger.get?_constants.mpr ⟨e, he, rfl⟩)
      rw [← hrune]
      exact ⟨d, hd, rfl, artifact, hdec, hacc⟩
    · intro ⟨d, hd, hid, artifact, hdec, hacc⟩
      subst hid
      obtain ⟨c, hget, hrune⟩ := hlaw.complete d hd artifact rune hdec hacc
      obtain ⟨e, he, rfl⟩ := Ledger.get?_constants.mp hget
      exact ⟨e, he, hrune⟩
  · intro id e he
    obtain ⟨d, hd, rfl, artifact, b, hdec, -, hblock, hrecords⟩ :=
      hlaw.sound id e.constants (Ledger.get?_constants.mpr ⟨e, he, rfl⟩)
    exact ⟨d, hd, rfl, artifact, b, hdec, hblock, hrecords.of_constants (hreload _ e he)⟩

end runs

/-! ### A name that is asked for three times -/

namespace Sample

/-- The name is asked for when the commitment is too young, ... -/
def earlyBlock : BlockData := nameBlock

/-- ... when it is old enough, ... -/
def namingBlock : BlockData := block 5 6 [(nameTx, 4)] (by decide)

/-- ... and when the name is taken. -/
def lateBlock : BlockData := block 6 7 [(nameTx, 5)] (by decide)

/-- A block without transactions. -/
def emptyBlock (height : Nat) : BlockData := block height (height + 1) [] (by decide)

def namingChain : List BlockData :=
  [etchBlock, earlyBlock, emptyBlock 2, emptyBlock 3, emptyBlock 4, namingBlock, lateBlock]

/-- The node that answers every call. -/
def answers : Node := fun _ q a => a = answer q

/-- Every transaction spends first outputs only. -/
def FirstOutputs (chain : List BlockData) : Prop :=
  DistinctTxids chain ∧
    ∀ b ∈ chain, ∀ e ∈ b.txdata, ∀ input ∈ e.1.input, input.previousOutput.vout = 0

instance (chain : List BlockData) : Decidable (FirstOutputs chain) := by
  unfold FirstOutputs
  infer_instance

theorem firstOutputs_naming : ∀ n, FirstOutputs (namingChain.take (n + 1)) := by
  intro n
  by_cases h : n < 7
  · have hall : ∀ n < 7, FirstOutputs (namingChain.take (n + 1)) := by decide
    exact hall n h
  · rw [List.take_of_length_le (show namingChain.length ≤ n + 1 by simp [namingChain]; omega)]
    decide

theorem answers_report : answers.Reports crates .regtest (fun _ => view) FirstOutputs := by
  intro chain b hadmits d hd artifact rune hdec hname input hinput hreveals
  obtain ⟨e, he, rfl⟩ := List.mem_map.mp hd
  have hmem : e.1 ∈ b.txdata := (List.mem_zipIdx he).2.2 ▸ List.getElem_mem _
  have hvout := hadmits.2 b (by simp) e.1 hmem input hinput
  have hreported := view_reported (crates.firstRuneHeight .regtest + chain.length)
    input.previousOutput.txid
  rw [← hvout] at hreported
  exact hreported

theorem naming_exec {P : Store → Bool}
    (h : (indexChain crates order .regtest answer namingChain (Store.empty config)).any P = true) :
    ∃ s, Run crates .regtest answers FirstOutputs namingChain s ∧ P s = true := by
  obtain ⟨s, hs, hP⟩ := (Option.any_eq_true _ _).mp h
  have hnode : ∀ chain q, answers chain q (answer q) := fun _ _ => rfl
  have hrun : Run crates .regtest answers FirstOutputs ([] ++ namingChain) s :=
    run_of_indexChain hnode firstOutputs_naming (.init config) hs
  exact ⟨s, hrun, hP⟩

end Sample

theorem Run.etchings_sample :
    ∃ s e, Run Sample.crates .regtest Sample.answers Sample.FirstOutputs Sample.namingChain s ∧
      s.runeIdToRuneEntry.get? ⟨5, 0⟩ = some e ∧ e.spacedRune.rune = Sample.name ∧
      s.runeIdToRuneEntry.get? ⟨1, 0⟩ = none ∧ s.runeIdToRuneEntry.get? ⟨6, 0⟩ = none ∧
      ∃ d ∈ located 0 Sample.namingChain, d.id = ⟨5, 0⟩ ∧ ∃ artifact,
        Entitled Sample.crates .regtest Sample.view (HeldBefore s.runeIdToRuneEntry ⟨5, 0⟩) d
          artifact Sample.name := by
  obtain ⟨s, hrun, hP⟩ := Sample.naming_exec (P := fun s =>
    decide ((s.runeIdToRuneEntry.get? ⟨5, 0⟩).any (fun e => e.spacedRune.rune = Sample.name) = true ∧
      s.runeIdToRuneEntry.get? ⟨1, 0⟩ = none ∧ s.runeIdToRuneEntry.get? ⟨6, 0⟩ = none)) (by decide)
  obtain ⟨hany, hearly, hlate⟩ := of_decide_eq_true hP
  obtain ⟨e, he, hrune⟩ := (Option.any_eq_true _ _).mp hany
  have hrune := of_decide_eq_true hrune
  obtain ⟨d, hd, hid, artifact, -, hacc⟩ := ((Run.etchings reservedNames_sample
    (fun _ hadmits => hadmits.1) Sample.answers_report hrun).1 ⟨5, 0⟩ Sample.name).mp ⟨e, he, hrune⟩
  exact ⟨s, e, hrun, he, hrune, hearly, hlate, d, hd, hid, artifact, hacc⟩

end RunesIndexer
