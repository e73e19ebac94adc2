import RunesIndexer.Spec.Commitment
import RunesIndexer.Spec.Registry
import RunesIndexer.Spec.Settlement

/-! # What a transaction does to the entries

    The entries as a function of the ids: a mint is counted in the entry of its rune, an
    etching that is entitled to a name adds an entry, and what is burned is added up. A
    completed call of `index_runes` does the first two; the burned units follow at the end
    of the block.
-/

namespace RunesIndexer

open Resumption MonadicFold RuneUpdater

/-! ### What an etching is entitled to -/

/-- The transaction at `d` may etch a rune under this name, where the names in `held` are
    those of earlier runes. -/
inductive Entitled (lib : Crates) (network : BitcoinNetwork) (view : ChainView)
    (held : Rune → Prop) (d : Located) (artifact : Artifact) : Rune → Prop
  | chosen {rune : Rune} (hname : etchingOf artifact = some (some rune))
      (hmin : (lib.minimumAtHeight network d.id.block).n ≤ rune.n)
      (hres : lib.isReserved rune = false) (hfree : ¬ held rune)
      (hcommits : view.Commits lib d.id.block d.tx rune) :
      Entitled lib network view held d artifact rune
  | reserved (hname : etchingOf artifact = some none) :
      Entitled lib network view held d artifact (lib.reserved d.id.block d.id.tx)

/-- The node reports the outputs that the transaction at `d` spends where it reveals the name
    of its rune. -/
def ReportsAt (lib : Crates) (view : ChainView) (ans : Answers) (d : Located) : Prop :=
  ∀ artifact rune, lib.decipher d.tx = some artifact → etchingOf artifact = some (some rune) →
    ∀ input ∈ d.tx.input, lib.Reveals rune input.witness →
      view.Reported ans d.id.block input.previousOutput

section entitled

variable {lib : Crates} {network : BitcoinNetwork} {view : ChainView} {ans : Answers}
  {d : Located} {u : RuneUpdater} {s s' : Store}

/-- The checks of `etched` decide what a transaction is entitled to. -/
theorem RuneUpdater.EtchedWalk.entitled {artifact : Artifact} {out : Option (RuneId × Rune)}
    (hwalk : EtchedWalk lib u d.id.tx d.tx artifact ans s s' out)
    (hdec : lib.decipher d.tx = some artifact) (hheight : u.height = d.id.block)
    (hmin : u.minimum = lib.minimumAtHeight network d.id.block)
    (hreports : ReportsAt lib view ans d) (rune : Rune) :
    out = some (d.id, rune) ↔
      Entitled lib network view (fun r => (s.runeToRuneId.get? r).isSome) d artifact rune := by
  have hpos : (⟨u.height, d.id.tx⟩ : RuneId) = d.id := RuneId.ext hheight rfl
  cases hwalk with
  | absent hname =>
    constructor
    · intro h
      cases h
    · intro h
      cases h <;> simp_all
  | @rejected name hname hcond =>
    constructor
    · intro h
      cases h
    · intro h
      cases h with
      | chosen hname' hmin' hres' hfree' _ =>
        obtain rfl : name = rune := by simpa [hname] using hname'
        rw [hmin] at hcond
        rcases hcond with hlow | hreserved | htaken
        · omega
        · rw [hres'] at hreserved
          cases hreserved
        · exact absurd htaken hfree'
      | reserved hname' => simp [hname] at hname'
  | @walked name commits _ hname hmin' hres hfree hcommit hout =>
    -- the node was asked, and its answers are those of the chain
    obtain ⟨b, hgives, hb⟩ := @commitsInInputs_gives lib view ans u name d.tx.input
      (fun input hinput hreveals =>
        hheight ▸ hreports artifact name hdec hname input hinput hreveals) s
    have hcommits : commits = true ↔ view.Commits lib d.id.block d.tx name := by
      have heq := (hgives _).mp hcommit
      cases heq
      rw [hb, hheight]
      rfl
    rw [hout, hpos]
    constructor
    · intro h
      cases commits with
      | false => cases h
      | true =>
        cases h
        refine .chosen hname ?_ hres ?_ (hcommits.mp rfl)
        · rw [← hmin]
          omega
        · simp [hfree]
    · intro h
      cases h with
      | chosen hname' _ _ _ hcommits' =>
        obtain rfl : name = rune := by simpa [hname] using hname'
        rw [if_pos (hcommits.mpr hcommits')]
      | reserved hname' => simp [hname] at hname'
  | reserved hname =>
    rw [hpos, hheight]
    constructor
    · intro h
      cases h
      exact .reserved hname
    · intro h
      cases h with
      | chosen hname' _ _ _ _ => simp [hname] at hname'
      | reserved _ => rfl

end entitled

/-! ### Entries as a function -/

/-- The rune that the transaction at `d` mints and what it gets: the rune has an entry, and
    the terms allow it at this height. -/
def mintAt (lib : Crates) (d : Located) (entry : RuneId → Option RuneEntry) :
    Option (RuneId × Nat) := do
  let id ← (lib.decipher d.tx).bind Artifact.mint
  let e ← entry id
  let amount ← (e.mintable d.id.block).toOption
  return (id, amount)

/-- One more mint of the rune. -/
def countMint (minted : Option RuneId) (entry : RuneId → Option RuneEntry) :
    RuneId → Option RuneEntry := fun id =>
  (entry id).map fun e => if minted = some id then { e with mints := e.mints + 1 } else e

/-- What was burned of each rune is added to the count in its entry. -/
def countBurned (burned : RuneId → Nat) (entry : RuneId → Option RuneEntry) :
    RuneId → Option RuneEntry := fun id =>
  (entry id).map fun e => { e with burned := e.burned + burned id }

/-- The etching of a runestone; of a cenotaph only the name counts. -/
def Artifact.details : Artifact → Option Etching
  | .runestone r => r.etching
  | .cenotaph _ => none

/-- The entry of the rune that the transaction at `d` etches. -/
def newEntry (lib : Crates) (d : Located) (time number : Nat) (rune : Rune) : RuneEntry :=
  let etching := (lib.decipher d.tx).bind Artifact.details
  { block := d.id.block
    burned := 0
    divisibility := (etching.bind (·.divisibility)).getD 0
    etching := d.txid
    mints := 0
    number := number
    premine := (etching.bind (·.premine)).getD 0
    spacedRune := SpacedRune.reload ⟨rune, (etching.bind (·.spacers)).getD 0⟩
    symbol := etching.bind (·.symbol)
    terms := etching.bind (·.terms)
    timestamp := time
    turbo := (etching.map (·.turbo)).getD false }

/-- The entries after a transaction that etched a rune under the name `etched`, if any. -/
def entriesAfter (lib : Crates) (d : Located) (time number : Nat) (etched : Option Rune)
    (entry : RuneId → Option RuneEntry) : RuneId → Option RuneEntry :=
  let counted := countMint ((mintAt lib d entry).map Prod.fst) entry
  etched.elim counted fun rune =>
    Function.update counted d.id (some (newEntry lib d time number rune))

section entries

variable {lib : Crates} {d : Located} {time number : Nat} {etched : Option Rune}
  {entry : RuneId → Option RuneEntry} {burned burned' : RuneId → Nat}

@[simp] theorem countBurned_zero (entry : RuneId → Option RuneEntry) :
    countBurned (fun _ => 0) entry = entry := by
  funext id
  simp [countBurned]

theorem countBurned_add : countBurned burned' (countBurned burned entry) =
    countBurned (fun id => burned id + burned' id) entry := by
  funext id
  simp [countBurned, Function.comp_def, Nat.add_assoc]

/-- The burned count decides no mint. -/
@[simp] theorem mintAt_countBurned :
    mintAt lib d (countBurned burned entry) = mintAt lib d entry := by
  unfold mintAt countBurned
  cases (lib.decipher d.tx).bind Artifact.mint with
  | none => rfl
  | some id =>
    cases h : entry id with
    | none => simp [h]
    | some e =>
      simp only [Option.bind_eq_bind, Option.bind_some, h, Option.map_some]
      rfl

/-- What was burned before the transaction may be counted after it: a new rune was not
    burned before. -/
theorem entriesAfter_countBurned (hnew : etched.isSome → burned d.id = 0) :
    entriesAfter lib d time number etched (countBurned burned entry) =
      countBurned burned (entriesAfter lib d time number etched entry) := by
  have hcount : countMint ((mintAt lib d entry).map Prod.fst) (countBurned burned entry) =
      countBurned burned (countMint ((mintAt lib d entry).map Prod.fst) entry) := by
    funext id
    simp only [countMint, countBurned, Option.map_map]
    refine congrArg (fun f => (entry id).map f) (funext fun e => ?_)
    simp only [Function.comp_apply]
    split <;> rfl
  unfold entriesAfter
  rw [mintAt_countBurned, hcount]
  cases etched with
  | none => rfl
  | some rune =>
    funext id
    by_cases hid : id = d.id
    · subst hid
      simp [countBurned, newEntry, hnew rfl]
    · simp [countBurned, hid]

end entries

/-! ### The indexer -/

/-- The entries of a map, as they are read back from their bytes. -/
def entriesOf (m : FinMap RuneId RuneEntry) : RuneId → Option RuneEntry := fun id =>
  (m.get? id).map RuneEntry.reload

theorem entriesOf_insert (m : FinMap RuneId RuneEntry) (id : RuneId) (e : RuneEntry) :
    entriesOf (m.insert id e) = Function.update (entriesOf m) id (some e.reload) := by
  funext id'
  by_cases hid : id' = id
  · simp [entriesOf, hid]
  · simp [entriesOf, hid, FinMap.get?_insert_ne]

section indexer

variable {lib : Crates} {network : BitcoinNetwork} {view : ChainView} {ans : Answers}
  {d : Located} {u u' : RuneUpdater} {s s' : Store} {t t' : LotMap}

/-- The mint of a completed call. -/
theorem RuneUpdater.MintPhase.entries (h : MintPhase lib d.tx s t u s' t' u')
    (hheight : u.height = d.id.block) :
    entriesOf s'.runeIdToRuneEntry =
      countMint ((mintAt lib d (entriesOf s.runeIdToRuneEntry)).map Prod.fst)
        (entriesOf s.runeIdToRuneEntry) := by
  -- without a mint nothing is counted
  have hnone : mintAt lib d (entriesOf s.runeIdToRuneEntry) = none →
      entriesOf s.runeIdToRuneEntry =
        countMint ((mintAt lib d (entriesOf s.runeIdToRuneEntry)).map Prod.fst)
          (entriesOf s.runeIdToRuneEntry) := by
    intro hmint
    funext id
    simp [hmint, countMint]
  cases h with
  | absent habsent =>
    refine hnone ?_
    unfold mintAt
    cases hdec : lib.decipher d.tx with
    | none => rfl
    | some artifact => simp [habsent artifact hdec]
  | @refused artifact id hdec hmint hrefused =>
    refine hnone ?_
    unfold mintAt entriesOf
    rw [hdec, Option.bind_some, hmint]
    cases he : s.runeIdToRuneEntry.get? id with
    | none => simp [he]
    | some e =>
      cases hm : e.reload.mintable d.id.block with
      | error err => simp [he, hm, Except.toOption]
      | ok n => exact absurd (hheight ▸ hm) (hrefused e he n)
  | @minted artifact id amount _ _ _ hdec hmint hm hadd =>
    cases hm with
    | @minted e _ he hm =>
      have hminted : mintAt lib d (entriesOf s.runeIdToRuneEntry) = some (id, amount) := by
        unfold mintAt entriesOf
        have hreload : e.reload.mintable u.height = .ok amount := hm
        rw [hdec, Option.bind_some, hmint]
        simp [he, ← hheight, hreload, Except.toOption]
      show entriesOf (s.runeIdToRuneEntry.insert id _) = _
      rw [entriesOf_insert, RuneEntry.reload_reload, hminted]
      funext id'
      by_cases hid : id' = id
      · subst hid
        simp only [Function.update_self, countMint, entriesOf, he, Option.map_some, if_true]
        rfl
      · simp [countMint, hid, Ne.symm hid]

/-- The new entry is that of the etching. -/
theorem newRuneEntry_eq {artifact : Artifact} {rune : Rune} {entry : RuneEntry}
    (hdec : lib.decipher d.tx = some artifact)
    (h : newRuneEntry u d.txid artifact d.id rune = .ok entry) :
    entry.reload = newEntry lib d u.blockTime u.runes rune := by
  unfold newEntry
  rw [hdec, Option.bind_some]
  cases artifact with
  | cenotaph c =>
    cases h
    rfl
  | runestone r =>
    obtain ⟨etching, hetching, h⟩ := except_bind_eq_ok.mp h
    cases h
    rw [unwrap_eq_ok] at hetching
    have hdetails : (Artifact.runestone r).details = some etching := hetching
    rw [hdetails]
    rfl

/-- Nothing that concerns a rune differs. -/
structure SameRunes (s s' : Store) (u u' : RuneUpdater) : Prop where
  entries : s'.runeIdToRuneEntry = s.runeIdToRuneEntry
  names : s'.runeToRuneId = s.runeToRuneId
  block : SameBlock u u'
  runes : u'.runes = u.runes
  added : u'.changeRecord.addedRunes = u.changeRecord.addedRunes

theorem SameRunes.refl (s : Store) (u : RuneUpdater) : SameRunes s s u u :=
  ⟨rfl, rfl, .refl u, rfl, rfl⟩

/-- Spending the inputs touches no rune. -/
theorem unallocated_sameRunes {tx : Transaction}
    (h : (u.unallocated tx).run s = .ok s' (t', u')) : SameRunes s s' u u' := by
  refine unallocated_invariant (P := fun s' _ u' => SameRunes s s' u u') ?_ (.refl s u) h
  intro _ _ _ _ _ _ _ _ hP hstep
  cases hstep with
  | absent _ => exact hP
  | removed _ _ _ =>
    exact ⟨hP.entries, hP.names, ⟨hP.block.height, hP.block.minimum, hP.block.blockTime⟩,
      hP.runes, hP.added⟩

/-- Filling the outputs touches none either. -/
theorem finishTransaction_sameRunes {ord : HashOrder} {txIndex : Nat} {tx : Transaction}
    {txid : Txid} {artifact : Option Artifact} {a : List LotMap}
    (h : (finishTransaction lib ord u txIndex tx txid artifact t a).run s = .ok s' u') :
    SameRunes s s' u u' := by
  obtain ⟨a₁, burned, burned', u₁, b, -, hloop, -, rfl⟩ := finishTransaction_eq_ok h
  obtain ⟨hentries, hnames, hblock, hruns, hadded⟩ : SameRunes s s' u u₁ := by
    refine outputs_invariant (P := fun s' _ u' => SameRunes s s' u u') ?_ (.refl s u) hloop
    intro _ _ _ _ _ _ _ _ _ hP hstep
    cases hstep with
    | nothing _ => exact hP
    | burns _ _ _ => exact hP
    | created _ _ _ =>
      exact ⟨hP.entries, hP.names, ⟨hP.block.height, hP.block.minimum, hP.block.blockTime⟩,
        hP.runes, hP.added⟩
  exact ⟨hentries, hnames, ⟨hblock.height, hblock.minimum, hblock.blockTime⟩, hruns, hadded⟩

/-- A mint changes an entry and nothing else that concerns a rune. -/
theorem RuneUpdater.MintPhase.rest {tx : Transaction} (h : MintPhase lib tx s t u s' t' u') :
    s'.runeToRuneId = s.runeToRuneId ∧ SameBlock u u' ∧ u'.runes = u.runes ∧
      u'.changeRecord.addedRunes = u.changeRecord.addedRunes := by
  cases h with
  | absent _ => exact ⟨rfl, .refl u, rfl, rfl⟩
  | refused _ _ _ => exact ⟨rfl, .refl u, rfl, rfl⟩
  | minted _ _ hm _ =>
    cases hm
    exact ⟨rfl, ⟨rfl, rfl, rfl⟩, rfl, rfl⟩

/-- From `s` to `s'` the mint of the transaction at `d` is counted and the rune that it is
    entitled to, if any, is entered. -/
def Enters (lib : Crates) (network : BitcoinNetwork) (view : ChainView) (d : Located)
    (s s' : Store) (u u' : RuneUpdater) : Prop :=
  ∃ etched : Option Rune,
    (∀ rune, etched = some rune ↔ ∃ artifact, lib.decipher d.tx = some artifact ∧
      Entitled lib network view (fun r => (s.runeToRuneId.get? r).isSome) d artifact rune) ∧
    u'.changeRecord.addedRunes =
      u.changeRecord.addedRunes ++ etchedRecord d.txid (etched.map (Prod.mk d.id)) ∧
    u'.runes = u.runes + etched.toList.length ∧
    entriesOf s'.runeIdToRuneEntry =
      entriesAfter lib d u.blockTime u.runes etched (entriesOf s.runeIdToRuneEntry)

/-- What touches no rune may stand before and after. -/
theorem Enters.between {s₁ s₂ : Store} {u₁ u₂ : RuneUpdater} (hbefore : SameRunes s s₁ u u₁)
    (h : Enters lib network view d s₁ s₂ u₁ u₂) (hafter : SameRunes s₂ s' u₂ u') :
    Enters lib network view d s s' u u' := by
  obtain ⟨etched, hetched, hadded, hruns, hentries⟩ := h
  refine ⟨etched, ?_, ?_, ?_, ?_⟩
  · rw [← hbefore.names]
    exact hetched
  · rw [hafter.added, hadded, hbefore.added]
  · rw [hafter.runes, hruns, hbefore.runes]
  · rw [hafter.entries, hentries, hbefore.entries, hbefore.block.blockTime, hbefore.runes]

/-- A transaction without an artifact enters nothing. -/
theorem Enters.nothing (hdec : lib.decipher d.tx = none) :
    Enters lib network view d s s u u := by
  have hmint : mintAt lib d (entriesOf s.runeIdToRuneEntry) = none := by simp [mintAt, hdec]
  refine ⟨none, fun rune => ?_, ?_, rfl, ?_⟩
  · simp [hdec]
  · simp [etchedRecord]
  · funext id
    simp [entriesAfter, hmint, countMint]

/-- The phases of an artifact: its mint, the checks of its etching, and the new entry. -/
theorem indexArtifact_enters {artifact : Artifact} {a' : List LotMap}
    (hdec : lib.decipher d.tx = some artifact) (hheight : u.height = d.id.block)
    (hmin : u.minimum = lib.minimumAtHeight network d.id.block)
    (hreports : ReportsAt lib view ans d)
    (h : Proc.Runs ans ((indexArtifact lib u d.id.tx d.tx d.txid artifact t).run s)
      (.ok s' (t', a', u'))) :
    Enters lib network view d s s' u u' := by
  obtain ⟨s₁, t₁, u₁, s₂, out, hmint, hetched, -, hrest⟩ := indexArtifact_runs h
  have hphase := indexMint_phase hdec hmint
  have hentries₁ := hphase.entries hheight
  obtain ⟨hnames₁, hblock₁, hruns₁, hadded₁⟩ := hphase.rest
  have hheight₁ : u₁.height = d.id.block := hblock₁.height.trans hheight
  -- the checks see the names from before the transaction
  have hentitled := (etched_walk hetched).entitled hdec hheight₁ (hblock₁.minimum.trans hmin)
    hreports
  rw [hnames₁] at hentitled
  have hentries₂ : s₂.runeIdToRuneEntry = s₁.runeIdToRuneEntry := by
    cases etched_runs hetched <;> rfl
  rcases hrest with ⟨rfl, rfl, rfl⟩ | ⟨id, rune, entry, rfl, hentry, rfl, rfl⟩
  · refine ⟨none, fun rune => ?_, ?_, by simp [hruns₁], ?_⟩
    · rw [← show (none = some (d.id, rune)) = (none = some rune) by simp, hentitled]
      simp [hdec]
    · simp [hadded₁, etchedRecord]
    · rw [hentries₂, hentries₁]
      rfl
  · obtain rfl : id = d.id := (etched_runs hetched).id_eq.trans (RuneId.ext hheight₁ rfl)
    refine ⟨some rune, fun rune' => ?_, ?_, ?_, ?_⟩
    · rw [← show (some (d.id, rune) = some (d.id, rune')) = (some rune = some rune') by simp,
        hentitled]
      simp [hdec]
    · show u₁.changeRecord.addedRunes ++ _ = _
      rw [hadded₁]
      rfl
    · show u₁.runes + 1 = _
      rw [hruns₁]
      rfl
    · show entriesOf (s₂.runeIdToRuneEntry.insert d.id entry.reload) = _
      rw [entriesOf_insert, RuneEntry.reload_reload, hentries₂, hentries₁,
        newRuneEntry_eq hdec hentry, hblock₁.blockTime, hruns₁]
      rfl

/-- A completed call counts its mint and enters the rune that the transaction is entitled
    to. -/
theorem indexRunes_entries {ord : HashOrder} (hheight : u.height = d.id.block)
    (hmin : u.minimum = lib.minimumAtHeight network d.id.block)
    (hreports : ReportsAt lib view ans d)
    (h : Proc.Runs ans ((u.indexRunes lib ord d.id.tx d.tx d.txid).run s) (.ok s' u')) :
    Enters lib network view d s s' u u' := by
  unfold indexRunes at h
  obtain ⟨s₁, ⟨t₁, u₁⟩, hunalloc, h⟩ := Async.runs_liftM_bind_ok.mp h
  obtain ⟨s₂, ⟨t₂, a₂, u₂⟩, hart, hfinish⟩ := Async.runs_bind_ok.mp h
  have hinputs := unallocated_sameRunes hunalloc
  have houtputs := finishTransaction_sameRunes (Async.runs_liftM.mp hfinish)
  refine Enters.between hinputs ?_ houtputs
  cases hdec : lib.decipher d.tx with
  | none =>
    rw [hdec] at hart
    cases Proc.runs_ok.mp hart
    exact .nothing hdec
  | some artifact =>
    rw [hdec] at hart
    exact indexArtifact_enters hdec (hinputs.block.height.trans hheight)
      (hinputs.block.minimum.trans hmin) hreports hart

end indexer

end RunesIndexer
