import RunesIndexer.Spec.Rollback
import RunesIndexer.Spec.Amounts

/-! # Change records undo blocks

    While a block is indexed, its change record says how to get from the ledger
    reached so far back to the ledger before the block. This is an invariant in
    four parts, for outpoints, rune entries, names and etchings. Each kind of change
    preserves each part as long as what the block creates is new to the ledger
    it started from, and `undoRecord` puts every part back.
-/

namespace RunesIndexer

open Resumption MonadicFold

/-! ### Four parts of a change record -/

/-- The record takes the outpoints of `cur` back to those of `start`. -/
structure UndoesOutpoints (start : Ledger) (r : ChangeRecord) (cur : Ledger) : Prop where
  fresh : ∀ o ∈ r.addedOutpoints,
    start.balances.get? o = none ∧ start.heights.get? o = none
  removed : ∀ e ∈ r.removedOutpoints, e.1 ∉ r.addedOutpoints →
    start.balances.get? e.1 = some (Multiset.ofList e.2.1) ∧
    start.heights.get? e.1 = some e.2.2 ∧ cur.balances.get? e.1 = none
  same : ∀ o ∉ r.addedOutpoints, o ∉ r.removedOutpoints.map Prod.fst →
    cur.balances.get? o = start.balances.get? o ∧ cur.heights.get? o = start.heights.get? o

/-- An entry with the recorded counts put back. -/
def restoreEntry (r : ChangeRecord) (id : RuneId) (e : RuneEntry) : RuneEntry :=
  { e with burned := (r.burned.get? id).getD e.burned, mints := (r.mints.get? id).getD e.mints }

theorem restoreEntry_congr {r r' : ChangeRecord} {id : RuneId}
    (hburned : r'.burned.get? id = r.burned.get? id) (hmints : r'.mints.get? id = r.mints.get? id) :
    restoreEntry r' id = restoreEntry r id := by
  funext e
  rw [restoreEntry, restoreEntry, hburned, hmints]

/-- The record takes the entries of `cur` back to those of `start`. -/
structure UndoesEntries (start : Ledger) (r : ChangeRecord) (cur : Ledger) : Prop where
  fresh : ∀ e ∈ r.addedRunes, start.entries.get? e.2.1 = none
  restored : ∀ id, id ∉ r.addedRunes.map (fun e => e.2.1) →
    start.entries.get? id = (cur.entries.get? id).map (restoreEntry r id)
  burned : ∀ id, (r.burned.get? id).isSome → (cur.entries.get? id).isSome
  mints : ∀ id, (r.mints.get? id).isSome → (cur.entries.get? id).isSome

/-- The record takes the names of `cur` back to those of `start`. -/
def UndoesNames (start : Ledger) (r : ChangeRecord) (cur : Ledger) : Prop :=
  FinMap.AddedTo start.names (fun e => e.1) r.addedRunes cur.names

/-- The record takes the etchings of `cur` back to those of `start`. -/
def UndoesEtchings (start : Ledger) (r : ChangeRecord) (cur : Ledger) : Prop :=
  FinMap.AddedTo start.etchings (fun e => e.2.2) r.addedRunes cur.etchings

theorem undoesOutpoints_new (L : Ledger) : UndoesOutpoints L ChangeRecord.new L where
  fresh := nofun
  removed := nofun
  same _ _ _ := ⟨rfl, rfl⟩

theorem undoesEntries_new (L : Ledger) : UndoesEntries L ChangeRecord.new L where
  fresh := nofun
  restored id _ := by
    cases L.entries.get? id <;> simp [ChangeRecord.new, restoreEntry]
  burned id h := by simp [ChangeRecord.new] at h
  mints id h := by simp [ChangeRecord.new] at h

/-! ### Outpoints -/

namespace UndoesOutpoints

variable {start L : Ledger} {r : ChangeRecord}

/-- Spending an outpoint that holds runes. -/
theorem spend (h : UndoesOutpoints start r L) {o : OutPoint} {l : RuneBalances} {height : Nat}
    (hb : L.balances.get? o = some (Multiset.ofList l)) (hh : L.heights.get? o = some height) :
    UndoesOutpoints start
      { r with removedOutpoints := r.removedOutpoints ++ [(o, l, height)] }
      { L with balances := L.balances.erase o, heights := L.heights.erase o } where
  fresh := h.fresh
  removed e he hadd := by
    rcases List.mem_append.mp he with he | he
    · obtain ⟨h₁, h₂, h₃⟩ := h.removed e he hadd
      refine ⟨h₁, h₂, ?_⟩
      rw [FinMap.get?_erase, h₃, ite_self]
    · rw [List.mem_singleton] at he
      subst he
      have hnot : o ∉ r.removedOutpoints.map Prod.fst := by
        intro hmem
        obtain ⟨e', he', rfl⟩ := List.mem_map.mp hmem
        rw [(h.removed e' he' hadd).2.2] at hb
        cases hb
      obtain ⟨h₁, h₂⟩ := h.same o hadd hnot
      exact ⟨h₁.symm.trans hb, h₂.symm.trans hh, FinMap.get?_erase_self _ _⟩
  same o' hadd hrem := by
    rw [List.map_append, List.mem_append, not_or] at hrem
    have hne : o' ≠ o := fun heq => hrem.2 (by simp [heq])
    dsimp only
    rw [FinMap.get?_erase, FinMap.get?_erase, if_neg hne, if_neg hne]
    exact h.same o' hadd hrem.1

/-- Creating an outpoint that was not there at the start. -/
theorem create (h : UndoesOutpoints start r L) {o : OutPoint} (B : Multiset RuneBalance)
    (height : Nat) (hb : start.balances.get? o = none) (hh : start.heights.get? o = none) :
    UndoesOutpoints start { r with addedOutpoints := r.addedOutpoints ++ [o] }
      { L with balances := L.balances.insert o B, heights := L.heights.insert o height } where
  fresh o' ho' := by
    rcases List.mem_append.mp ho' with ho' | ho'
    · exact h.fresh o' ho'
    · rw [List.mem_singleton.mp ho']
      exact ⟨hb, hh⟩
  removed e he hadd := by
    rw [List.mem_append, not_or, List.mem_singleton] at hadd
    obtain ⟨h₁, h₂, h₃⟩ := h.removed e he hadd.1
    exact ⟨h₁, h₂, (FinMap.get?_insert_ne _ _ hadd.2).trans h₃⟩
  same o' hadd hrem := by
    rw [List.mem_append, not_or, List.mem_singleton] at hadd
    dsimp only
    rw [FinMap.get?_insert_ne _ _ hadd.2, FinMap.get?_insert_ne _ _ hadd.2]
    exact h.same o' hadd.1 hrem

/-- The other parts of the record and of the ledger do not matter. -/
theorem congr {r' : ChangeRecord} {L' : Ledger} (h : UndoesOutpoints start r L)
    (hrem : r'.removedOutpoints = r.removedOutpoints)
    (hadd : r'.addedOutpoints = r.addedOutpoints) (hb : L'.balances = L.balances)
    (hh : L'.heights = L.heights) : UndoesOutpoints start r' L' where
  fresh := by rw [hadd]; exact h.fresh
  removed := by rw [hrem, hadd, hb]; exact h.removed
  same := by rw [hrem, hadd, hb, hh]; exact h.same

end UndoesOutpoints

/-! ### Entries -/

namespace UndoesEntries

variable {start L : Ledger} {r : ChangeRecord}

/-- Changing the counts of one entry; the record changes at this entry only, and still puts the same
counts back. -/
theorem recount (h : UndoesEntries start r L) {r' : ChangeRecord} {id : RuneId} {e e' : RuneEntry}
    (he : L.entries.get? id = some e) (hadded : r'.addedRunes = r.addedRunes)
    (hrestore : restoreEntry r' id e' = restoreEntry r id e)
    (hburned : ∀ id', id' ≠ id → r'.burned.get? id' = r.burned.get? id')
    (hmints : ∀ id', id' ≠ id → r'.mints.get? id' = r.mints.get? id') :
    UndoesEntries start r' { L with entries := L.entries.insert id e' } where
  fresh := by rw [hadded]; exact h.fresh
  restored id' hid' := by
    rw [hadded] at hid'
    rw [h.restored id' hid', FinMap.get?_insert]
    by_cases hid : id' = id
    · subst hid
      rw [if_pos rfl, he, Option.map_some, Option.map_some, hrestore]
    · rw [if_neg hid, restoreEntry_congr (hburned id' hid) (hmints id' hid)]
  burned id' hid' := by
    rw [FinMap.get?_insert]
    split
    · rfl
    · next hne => exact h.burned id' (hburned id' hne ▸ hid')
  mints id' hid' := by
    rw [FinMap.get?_insert]
    split
    · rfl
    · next hne => exact h.mints id' (hmints id' hne ▸ hid')

/-- Counting a mint; the record keeps the first count it sees. -/
theorem mint (h : UndoesEntries start r L) {id : RuneId} {e : RuneEntry}
    (he : L.entries.get? id = some e) (hreload : e.reload = e) (n : Nat) :
    UndoesEntries start { r with mints := r.mints.insertNew id e.mints }
      { L with entries := L.entries.insert id { e with mints := n }.reload } := by
  have hsr : e.spacedRune.reload = e.spacedRune := congrArg RuneEntry.spacedRune hreload
  refine h.recount he rfl ?_ (fun _ _ => rfl) fun id' hid => ?_
  · simp [restoreEntry, RuneEntry.reload, FinMap.get?_insertNew, hsr]
  · rw [FinMap.get?_insertNew, if_neg hid]

/-- Counting burned runes; likewise. -/
theorem burn (h : UndoesEntries start r L) {id : RuneId} {e : RuneEntry}
    (he : L.entries.get? id = some e) (hreload : e.reload = e) (n : Nat) :
    UndoesEntries start { r with burned := r.burned.insertNew id e.burned }
      { L with entries := L.entries.insert id { e with burned := n }.reload } := by
  have hsr : e.spacedRune.reload = e.spacedRune := congrArg RuneEntry.spacedRune hreload
  refine h.recount he rfl ?_ (fun id' hid => ?_) fun _ _ => rfl
  · simp [restoreEntry, RuneEntry.reload, FinMap.get?_insertNew, hsr]
  · rw [FinMap.get?_insertNew, if_neg hid]

/-- Adding an entry under an id that was free at the start. -/
theorem etch (h : UndoesEntries start r L) {id : RuneId} (rune : Rune) (txid : Txid)
    (e : RuneEntry) (hfree : start.entries.get? id = none) :
    UndoesEntries start { r with addedRunes := r.addedRunes ++ [(rune, id, txid)] }
      { L with entries := L.entries.insert id e } where
  fresh e' he' := by
    rcases List.mem_append.mp he' with he' | he'
    · exact h.fresh e' he'
    · rw [List.mem_singleton.mp he']
      exact hfree
  restored id' hid' := by
    rw [List.map_append, List.mem_append, not_or] at hid'
    have hne : id' ≠ id := fun heq => hid'.2 (by simp [heq])
    rw [h.restored id' hid'.1]
    dsimp only
    rw [FinMap.get?_insert_ne _ _ hne]
    rfl
  burned id' hid' := by
    rw [FinMap.get?_insert]
    split
    · rfl
    · exact h.burned id' hid'
  mints id' hid' := by
    rw [FinMap.get?_insert]
    split
    · rfl
    · exact h.mints id' hid'

theorem congr {r' : ChangeRecord} {L' : Ledger} (h : UndoesEntries start r L)
    (hadd : r'.addedRunes = r.addedRunes) (hburned : r'.burned = r.burned)
    (hmints : r'.mints = r.mints) (he : L'.entries = L.entries) :
    UndoesEntries start r' L' where
  fresh := by rw [hadd]; exact h.fresh
  restored id := by
    rw [hadd, he, restoreEntry_congr (r := r) (by rw [hburned]) (by rw [hmints])]
    exact h.restored id
  burned := by rw [hburned, he]; exact h.burned
  mints := by rw [hmints, he]; exact h.mints

end UndoesEntries

/-! ### Putting everything back -/

namespace Reorg

/-- What the two loops over outpoints do to the ledger. -/
theorem ledger_undoOutpoints (added : List OutPoint)
    (removed : List (OutPoint × RuneBalances × Nat)) (s : Store) :
    (added.foldl removeOutpoint (removed.foldl restoreOutpoint s)).ledger =
      { s.ledger with
        balances := added.foldl (fun m o => m.erase o)
          (removed.foldl (fun m e => m.insert e.1 (Multiset.ofList e.2.1)) s.ledger.balances)
        heights := added.foldl (fun m o => m.erase o)
          (removed.foldl (fun m e => m.insert e.1 e.2.2) s.ledger.heights) } := by
  have hremove : ∀ (l : List OutPoint) (s : Store), (l.foldl removeOutpoint s).ledger =
      { s.ledger with
        balances := l.foldl (fun m o => m.erase o) s.ledger.balances
        heights := l.foldl (fun m o => m.erase o) s.ledger.heights } := by
    intro l
    induction l with
    | nil => exact fun _ => rfl
    | cons o l ih => exact fun s => (ih _).trans (by simp [removeOutpoint])
  have hrestore : ∀ (l : List (OutPoint × RuneBalances × Nat)) (s : Store),
      (l.foldl restoreOutpoint s).ledger = { s.ledger with
        balances := l.foldl (fun m e => m.insert e.1 (Multiset.ofList e.2.1)) s.ledger.balances
        heights := l.foldl (fun m e => m.insert e.1 e.2.2) s.ledger.heights } := by
    intro l
    induction l with
    | nil => exact fun _ => rfl
    | cons e l ih => exact fun s => (ih _).trans (by simp [restoreOutpoint])
  rw [hremove, hrestore]

/-- What the loop over the added runes does to the ledger. -/
theorem ledger_removeRunes (added : List (Rune × RuneId × Txid)) (s : Store) :
    (added.foldl removeRune s).ledger = { s.ledger with
      entries := added.foldl (fun m e => m.erase e.2.1) s.ledger.entries
      names := added.foldl (fun m e => m.erase e.1) s.ledger.names
      etchings := added.foldl (fun m e => m.erase e.2.2) s.ledger.etchings } := by
  induction added generalizing s with
  | nil => rfl
  | cons e l ih => exact (ih _).trans (by simp [removeRune])

end Reorg

theorem UndoesOutpoints.undo {start cur : Ledger} {r : ChangeRecord}
    (h : UndoesOutpoints start r cur) :
    r.addedOutpoints.foldl (fun m o => m.erase o)
      (r.removedOutpoints.foldl (fun m e => m.insert e.1 (Multiset.ofList e.2.1)) cur.balances) =
        start.balances ∧
    r.addedOutpoints.foldl (fun m o => m.erase o)
      (r.removedOutpoints.foldl (fun m e => m.insert e.1 e.2.2) cur.heights) =
        start.heights := by
  constructor
  · exact FinMap.foldl_erase_foldl_insert (fun e => e.1) (fun e => Multiset.ofList e.2.1)
      (fun o ho => (h.fresh o ho).1) (fun e he hadd => (h.removed e he hadd).1)
      (fun o hadd hmem => (h.same o hadd hmem).1)
  · exact FinMap.foldl_erase_foldl_insert (fun e => e.1) (fun e => e.2.2)
      (fun o ho => (h.fresh o ho).2) (fun e he hadd => (h.removed e he hadd).2.1)
      (fun o hadd hmem => (h.same o hadd hmem).2)

/-- A loop that sets one field of every listed entry. -/
theorem reset_forM {step : RuneId × Nat → IndexM Unit} {set : RuneEntry → Nat → RuneEntry}
    (hstep : ∀ e s s', (step e).run s = .ok s' () ↔
      ∃ entry, s.runeIdToRuneEntry.get? e.1 = some entry ∧
        s' = s.memInsertRuneIdToRuneEntry e.1 (set entry e.2))
    {l : List (RuneId × Nat)} (hnodup : (l.map Prod.fst).Nodup) {s : Store}
    (hpresent : ∀ e ∈ l, (s.ledger.entries.get? e.1).isSome) :
    ∃ s', (l.forM step).run s = .ok s' () ∧
      s'.ledger = { s.ledger with entries := s'.ledger.entries } ∧
      (∀ id, id ∉ l.map Prod.fst → s'.ledger.entries.get? id = s.ledger.entries.get? id) ∧
      ∀ e ∈ l, ∀ entry, s.ledger.entries.get? e.1 = some entry →
        s'.ledger.entries.get? e.1 = some (set entry e.2).reload := by
  induction l generalizing s with
  | nil => exact ⟨s, sync_forM_nil.mpr rfl, rfl, fun _ _ => rfl, nofun⟩
  | cons e l ih =>
    rw [List.map_cons, List.nodup_cons] at hnodup
    obtain ⟨entry, hentry⟩ := Option.isSome_iff_exists.mp (hpresent e List.mem_cons_self)
    have hkeep : ∀ id, id ≠ e.1 →
        (s.memInsertRuneIdToRuneEntry e.1 (set entry e.2)).ledger.entries.get? id =
          s.ledger.entries.get? id := fun id hid => FinMap.get?_insert_ne _ _ hid
    -- each rune is reset once, so the later steps leave this one alone
    have hne : ∀ e' ∈ l, e'.1 ≠ e.1 :=
      fun e' he' heq => hnodup.1 (heq ▸ List.mem_map_of_mem he')
    obtain ⟨s', hrun, hledger, hother, hset⟩ := ih hnodup.2
      (s := s.memInsertRuneIdToRuneEntry e.1 (set entry e.2)) (fun e' he' => by
        rw [hkeep _ (hne e' he')]
        exact hpresent e' (List.mem_cons_of_mem _ he'))
    refine ⟨s', sync_forM_cons.mpr ⟨_, (hstep e s _).mpr ⟨entry, hentry, rfl⟩, hrun⟩, ?_, ?_, ?_⟩
    · rw [hledger, Store.ledger_memInsertRuneIdToRuneEntry]
    · intro id hid
      rw [List.map_cons, List.mem_cons, not_or] at hid
      rw [hother id hid.2, hkeep id hid.1]
    · intro e' he' entry' hentry'
      rcases List.mem_cons.mp he' with rfl | he'
      · rw [hother _ hnodup.1]
        rw [show entry' = entry from Option.some.inj (hentry'.symm.trans hentry)]
        exact FinMap.get?_insert_self _ _ _
      · exact hset e' he' entry' (by rw [hkeep _ (hne e' he')]; exact hentry')

/-- The same for the iteration over a map of counts. -/
theorem reset_iter (step : RuneId × Nat → IndexM Unit) (set : RuneEntry → Nat → RuneEntry)
    (hstep : ∀ e s s', (step e).run s = .ok s' () ↔
      ∃ entry, s.runeIdToRuneEntry.get? e.1 = some entry ∧
        s' = s.memInsertRuneIdToRuneEntry e.1 (set entry e.2))
    (ord : HashOrder) (site : IterSite) (m : LotMap) {s : Store}
    (hpresent : ∀ id, (m.get? id).isSome → (s.ledger.entries.get? id).isSome) :
    ∃ s', ((ord.iter site m).forM step).run s = .ok s' () ∧
      s'.ledger = { s.ledger with entries := s'.ledger.entries } ∧
      ∀ id, s'.ledger.entries.get? id = (s.ledger.entries.get? id).map fun e =>
        (m.get? id).elim e fun n => (set e n).reload := by
  obtain ⟨s', hrun, hledger, hother, hset⟩ := reset_forM hstep (iter_nodup ord site m)
    (s := s) fun e he => hpresent e.1 (by rw [mem_iter.mp he]; rfl)
  refine ⟨s', hrun, hledger, fun id => ?_⟩
  cases hm : m.get? id with
  | none =>
    rw [hother id fun hmem => ?_]
    · simp
    · obtain ⟨e, he, rfl⟩ := List.mem_map.mp hmem
      rw [mem_iter.mp he] at hm
      cases hm
  | some n =>
    obtain ⟨entry, hentry⟩ := Option.isSome_iff_exists.mp (hpresent id (by rw [hm]; rfl))
    rw [hset (id, n) (mem_iter.mpr hm) entry hentry, hentry]
    rfl

/-- Resetting both counts of an entry restores it. -/
theorem reset_eq_restoreEntry (r : ChangeRecord) (id : RuneId) {e : RuneEntry}
    (hsr : e.spacedRune.reload = e.spacedRune) :
    (r.mints.get? id).elim ((r.burned.get? id).elim e fun n => { e with burned := n }.reload)
      (fun n => { (r.burned.get? id).elim e fun n => { e with burned := n }.reload with
        mints := n }.reload) = restoreEntry r id e := by
  cases hb : r.burned.get? id <;> cases hm : r.mints.get? id <;>
    simp [restoreEntry, RuneEntry.reload, hb, hm, hsr]

/-- Undoing a record returns, puts the entries back, and puts back each other part that
    the record is right about. -/
theorem undoRecord_restores {start cur : Ledger} {r : ChangeRecord}
    (h : UndoesEntries start r cur)
    (hreload : ∀ id e, start.entries.get? id = some e → e.reload = e) (ord : HashOrder)
    (height : Nat) {s : Store} (hs : s.ledger.entries = cur.entries) :
    ∃ s', (Reorg.undoRecord ord height r).run s = .ok s' () ∧
      s'.ledger.entries = start.entries ∧
      (UndoesOutpoints start r cur → s.ledger.balances = cur.balances →
        s.ledger.heights = cur.heights →
        s'.ledger.balances = start.balances ∧ s'.ledger.heights = start.heights) ∧
      (UndoesNames start r cur → s.ledger.names = cur.names →
        s'.ledger.names = start.names) ∧
      (UndoesEtchings start r cur → s.ledger.etchings = cur.etchings →
        s'.ledger.etchings = start.etchings) := by
  have hledger₀ := Reorg.ledger_undoOutpoints r.addedOutpoints r.removedOutpoints s
  obtain ⟨s₁, hrun₁, hledger₁, hget₁⟩ := reset_iter Reorg.resetBurned
    (fun e n => { e with burned := n }) (fun e s s' => Reorg.resetEntry_eq_ok)
    ord (.recordBurned height) r.burned
    (s := r.addedOutpoints.foldl Reorg.removeOutpoint
      (r.removedOutpoints.foldl Reorg.restoreOutpoint s)) (fun id hid => by
        rw [hledger₀, hs]
        exact h.burned id hid)
  obtain ⟨s₂, hrun₂, hledger₂, hget₂⟩ := reset_iter Reorg.resetMints
    (fun e n => { e with mints := n }) (fun e s s' => Reorg.resetEntry_eq_ok)
    ord (.recordMints height) r.mints (s := s₁) (fun id hid => by
      rw [hget₁, Option.isSome_map, hledger₀, hs]
      exact h.mints id hid)
  have hledger₃ := Reorg.ledger_removeRunes r.addedRunes s₂
  refine ⟨_, Reorg.undoRecord_eq_ok.mpr ⟨s₁, s₂, hrun₁, hrun₂, rfl⟩, ?_, ?_, ?_, ?_⟩
  · rw [hledger₃]
    dsimp only
    apply FinMap.ext
    intro id
    rw [FinMap.get?_foldl_erase fun e : Rune × RuneId × Txid => e.2.1]
    -- a rune of the block goes, one from before gets its counts back
    by_cases hadd : id ∈ r.addedRunes.map fun e => e.2.1
    · obtain ⟨e, he, rfl⟩ := List.mem_map.mp hadd
      rw [if_pos hadd, h.fresh e he]
    · have hstart := h.restored id hadd
      rw [if_neg hadd, hget₂, hget₁, hledger₀, hs]
      cases hcur : cur.entries.get? id with
      | none => rw [hstart, hcur]; rfl
      | some e =>
        rw [hcur] at hstart
        have hsr : e.spacedRune.reload = e.spacedRune :=
          congrArg RuneEntry.spacedRune (hreload id _ hstart)
        rw [hstart, Option.map_some, Option.map_some, Option.map_some,
          reset_eq_restoreEntry r id hsr]
  · intro hout hb hh
    obtain ⟨h₁, h₂⟩ := hout.undo
    rw [hledger₃, hledger₂, hledger₁, hledger₀, hb, hh]
    exact ⟨h₁, h₂⟩
  · intro hnames hn
    rw [hledger₃, hledger₂, hledger₁, hledger₀, hn]
    exact hnames.foldl_erase
  · intro hetchings he
    rw [hledger₃, hledger₂, hledger₁, hledger₀, he]
    exact hetchings.foldl_erase

end RunesIndexer
