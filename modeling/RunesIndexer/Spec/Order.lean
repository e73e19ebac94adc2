import RunesIndexer.Spec.Block
import RunesIndexer.Spec.Amounts

/-! # Iteration order does not matter

    The code walks through hash maps in an order that is not its own. Where it does,
    the steps commute, overflows included, so every order gives the same.
-/

namespace RunesIndexer

open Resumption MonadicFold

/-! ### Adding amounts -/

theorem addTo_eq (m : LotMap) (id : RuneId) (n : Nat) :
    m.addTo id n = if m.amount id + n < u128Bound then
      .ok (m.insert id (m.amount id + n)) else .error .lotOverflow := by
  unfold LotMap.addTo Lot.add
  split <;> rfl

/-- Two additions to one rune are one of the sum: it overflows if a partial sum does. -/
theorem addTo_same (m : LotMap) (id : RuneId) (a b : Nat) :
    (m.addTo id a >>= fun m => LotMap.addTo m id b) = if m.amount id + a + b < u128Bound then
      .ok (m.insert id (m.amount id + a + b)) else .error .lotOverflow := by
  rw [addTo_eq]
  by_cases ha : m.amount id + a < u128Bound
  · rw [if_pos ha]
    simp only [bind, Except.bind, addTo_eq, FinMap.amount_insert, if_true, FinMap.insert_insert]
  · rw [if_neg ha, if_neg (by omega)]
    rfl

/-- Additions to different runes are apart. -/
theorem addTo_other (m : LotMap) {id id' : RuneId} (hid : id' ≠ id) (a b : Nat) :
    (m.addTo id a >>= fun m => LotMap.addTo m id' b) =
      if m.amount id + a < u128Bound ∧ m.amount id' + b < u128Bound then
        .ok ((m.insert id (m.amount id + a)).insert id' (m.amount id' + b))
      else .error .lotOverflow := by
  rw [addTo_eq]
  by_cases ha : m.amount id + a < u128Bound
  · rw [if_pos ha]
    simp [bind, Except.bind, addTo_eq, FinMap.amount_insert, hid, ha]
  · rw [if_neg ha, if_neg fun h => ha h.1]
    rfl

/-- Two additions commute: both orders add up to the same, or overflow. -/
theorem addTo_comm (m : LotMap) (x y : RuneId × Nat) :
    (m.addTo x.1 x.2 >>= fun m => LotMap.addTo m y.1 y.2) =
      (m.addTo y.1 y.2 >>= fun m => LotMap.addTo m x.1 x.2) := by
  by_cases hid : x.1 = y.1
  · rw [hid, addTo_same, addTo_same, Nat.add_right_comm]
  · rw [addTo_other m (Ne.symm hid), addTo_other m hid, FinMap.insert_comm _ _ _ hid]
    exact if_congr and_comm rfl rfl

theorem addAll_perm {l l' : List (RuneId × Nat)} (h : l.Perm l') (m : LotMap) :
    RuneUpdater.addAll m l = RuneUpdater.addAll m l' :=
  foldlM_perm (fun m x y => addTo_comm m x y) h m

/-- Taking balances in any order gives the same. -/
theorem takeBalances_perm {l l' : RuneBalances} (h : l.Perm l') (m : LotMap) :
    l.foldlM (fun m b => LotMap.addTo m b.runeId b.balance) m =
      l'.foldlM (fun m b => LotMap.addTo m b.runeId b.balance) m :=
  foldlM_perm (fun m x y => addTo_comm m (x.runeId, x.balance) (y.runeId, y.balance)) h m

/-! ### The default assignment -/

/-- The loop body of the default assignment to output `vout`. -/
def assignTo (vout : Nat) (a : List LotMap) (e : RuneId × Nat) : Except Panic (List LotMap) := do
  let balances ← indexAt a vout
  return a.set vout (← LotMap.addTo balances e.1 e.2)

/-- Two assignments to one output are two additions to its map. -/
theorem assignTo_assignTo (vout : Nat) (a : List LotMap) (x y : RuneId × Nat) :
    (assignTo vout a x >>= fun a => assignTo vout a y) =
      (indexAt a vout >>= fun m => (m.addTo x.1 x.2 >>= fun m => LotMap.addTo m y.1 y.2) >>=
        fun m => pure (a.set vout m)) := by
  unfold assignTo
  cases hm : indexAt a vout with
  | error p => rfl
  | ok m =>
    rw [indexAt_eq_ok] at hm
    have hlt := (List.getElem?_eq_some_iff.mp hm).1
    simp only [bind, Except.bind, pure, Except.pure]
    cases hx : m.addTo x.1 x.2 with
    | error p => rfl
    | ok m₁ =>
      have hget : indexAt (a.set vout m₁) vout = .ok m₁ := by
        rw [indexAt_eq_ok, List.getElem?_set_self hlt]
      simp only [hget, List.set_set]

theorem assignTo_perm (vout : Nat) {l l' : List (RuneId × Nat)} (h : l.Perm l')
    (a : List LotMap) : l.foldlM (assignTo vout) a = l'.foldlM (assignTo vout) a := by
  refine foldlM_perm (fun a x y => ?_) h a
  rw [assignTo_assignTo, assignTo_assignTo]
  simp only [addTo_comm _ x y]

theorem assignUnallocated_perm (lib : Crates) (tx : Transaction) (artifact : Option Artifact)
    {l l' : List (RuneId × Nat)} (h : l.Perm l') (a : List LotMap) :
    RuneUpdater.assignUnallocated lib tx artifact l a =
      RuneUpdater.assignUnallocated lib tx artifact l' a := by
  have hpos : (RuneUpdater.positive l).Perm (RuneUpdater.positive l') := h.filter _
  have hassign : ∀ vout, (RuneUpdater.positive l).foldlM (assignTo vout) a =
      (RuneUpdater.positive l').foldlM (assignTo vout) a := fun vout => assignTo_perm vout hpos a
  unfold assignTo at hassign
  unfold RuneUpdater.assignUnallocated
  simp only [addAll_perm h, addAll_perm hpos, hassign]

/-! ### The flush -/

namespace RuneUpdater

/-- The loop body of `update` in full. -/
theorem updateBurned_run (record : ChangeRecord) (e : RuneId × Nat) (s : Store) :
    (updateBurned record e).run s =
      match s.runeIdToRuneEntry.get? e.1 with
      | none => .trap .unwrapFailed
      | some entry =>
        if entry.burned + e.2 < u128Bound then
          .ok (s.memInsertRuneIdToRuneEntry e.1 { entry with burned := entry.burned + e.2 })
            { record with burned := record.burned.insertNew e.1 entry.burned }
        else .trap .unwrapFailed := by
  unfold updateBurned gets modify
  rw [Sync.run_gets_bind]
  unfold Store.memGetRuneIdToRuneEntry
  cases s.runeIdToRuneEntry.get? e.1 with
  | none => rfl
  | some entry =>
    dsimp only
    by_cases hlt : entry.burned + e.2 < u128Bound
    · simp [unwrap, Sync.run_bind, hlt]
      rfl
    · simp [unwrap, Sync.run_bind, hlt]

/-- Two flushes of one rune are one of the sum, which records the count before. -/
theorem updateBurned_same (record : ChangeRecord) {x y : RuneId × Nat} (hid : y.1 = x.1)
    {s : Store} {e : RuneEntry} (he : s.runeIdToRuneEntry.get? x.1 = some e) :
    (updateBurned record x >>= fun r => updateBurned r y).run s =
      if e.burned + x.2 + y.2 < u128Bound then
        .ok (s.memInsertRuneIdToRuneEntry x.1 { e with burned := e.burned + x.2 + y.2 })
          { record with burned := record.burned.insertNew x.1 e.burned }
      else .trap .unwrapFailed := by
  rw [Sync.run_bind, updateBurned_run, he]
  dsimp only
  by_cases hx : e.burned + x.2 < u128Bound
  · rw [if_pos hx]
    dsimp only
    rw [updateBurned_run, hid]
    have hget : (s.memInsertRuneIdToRuneEntry x.1
        { e with burned := e.burned + x.2 }).runeIdToRuneEntry.get? x.1 =
        some { e with burned := e.burned + x.2 }.reload := FinMap.get?_insert_self _ _ _
    rw [hget]
    dsimp only [RuneEntry.reload]
    split
    · rw [FinMap.insertNew_insertNew]
      simp [Store.memInsertRuneIdToRuneEntry, RuneEntry.reload]
    · rfl
  · rw [if_neg hx, if_neg (by omega)]

/-- Flushes of different runes are apart. -/
theorem updateBurned_other (record : ChangeRecord) {x y : RuneId × Nat} (hid : y.1 ≠ x.1)
    {s : Store} {e e' : RuneEntry} (he : s.runeIdToRuneEntry.get? x.1 = some e)
    (he' : s.runeIdToRuneEntry.get? y.1 = some e') :
    (updateBurned record x >>= fun r => updateBurned r y).run s =
      if e.burned + x.2 < u128Bound ∧ e'.burned + y.2 < u128Bound then
        .ok ((s.memInsertRuneIdToRuneEntry x.1
            { e with burned := e.burned + x.2 }).memInsertRuneIdToRuneEntry y.1
            { e' with burned := e'.burned + y.2 })
          { record with
            burned := (record.burned.insertNew x.1 e.burned).insertNew y.1 e'.burned }
      else .trap .unwrapFailed := by
  rw [Sync.run_bind, updateBurned_run, he]
  dsimp only
  by_cases hx : e.burned + x.2 < u128Bound
  · rw [if_pos hx]
    dsimp only
    have hget : (s.memInsertRuneIdToRuneEntry x.1
        { e with burned := e.burned + x.2 }).runeIdToRuneEntry.get? y.1 = some e' :=
      (FinMap.get?_insert_ne _ _ hid).trans he'
    rw [updateBurned_run, hget]
    simp [hx]
  · rw [if_neg hx, if_neg fun h => hx h.1]

/-- The flush of a rune without an entry traps, before or after another one. -/
theorem updateBurned_missing (record : ChangeRecord) {x y : RuneId × Nat} {s : Store}
    (h : s.runeIdToRuneEntry.get? x.1 = none ∨ s.runeIdToRuneEntry.get? y.1 = none) :
    (updateBurned record x >>= fun r => updateBurned r y).run s = .trap .unwrapFailed := by
  rw [Sync.run_bind, updateBurned_run]
  cases he : s.runeIdToRuneEntry.get? x.1 with
  | none => rfl
  | some e =>
    have hy : s.runeIdToRuneEntry.get? y.1 = none := h.resolve_left (by simp [he])
    have hid : y.1 ≠ x.1 := by
      intro heq
      rw [heq, he] at hy
      cases hy
    dsimp only
    by_cases hx : e.burned + x.2 < u128Bound
    · rw [if_pos hx]
      have hget : (s.memInsertRuneIdToRuneEntry x.1
          { e with burned := e.burned + x.2 }).runeIdToRuneEntry.get? y.1 = none :=
        (FinMap.get?_insert_ne _ _ hid).trans hy
      dsimp only
      rw [updateBurned_run, hget]
    · rw [if_neg hx]

theorem updateBurned_comm (record : ChangeRecord) (x y : RuneId × Nat) :
    (updateBurned record x >>= fun r => updateBurned r y) =
      (updateBurned record y >>= fun r => updateBurned r x) := by
  refine Sync.ext fun s => ?_
  cases hx : s.runeIdToRuneEntry.get? x.1 with
  | none => rw [updateBurned_missing record (.inl hx), updateBurned_missing record (.inr hx)]
  | some e =>
    cases hy : s.runeIdToRuneEntry.get? y.1 with
    | none => rw [updateBurned_missing record (.inr hy), updateBurned_missing record (.inl hy)]
    | some e' =>
      by_cases hid : y.1 = x.1
      · rw [updateBurned_same record hid hx, updateBurned_same record hid.symm hy]
        obtain rfl : e' = e := by
          rw [hid, hx] at hy
          exact (Option.some.inj hy).symm
        rw [hid, Nat.add_right_comm]
      · rw [updateBurned_other record hid hx hy,
          updateBurned_other record (fun h => hid h.symm) hy hx]
        refine if_congr and_comm ?_ rfl
        rw [FinMap.insertNew_comm _ _ _ (fun h => hid h.symm)]
        unfold Store.memInsertRuneIdToRuneEntry
        rw [FinMap.insert_comm _ _ _ (fun h => hid h.symm)]

theorem updateBurned_perm {l l' : List (RuneId × Nat)} (h : l.Perm l') (record : ChangeRecord) :
    l.foldlM updateBurned record = l'.foldlM updateBurned record :=
  foldlM_perm updateBurned_comm h record

end RuneUpdater

end RunesIndexer
