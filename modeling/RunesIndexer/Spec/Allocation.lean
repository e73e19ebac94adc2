import RunesIndexer.Lib.Shares
import RunesIndexer.Spec.Totality
import RunesIndexer.Model.Sample

/-! # One rune in one transaction

    The abstract model of what a transaction does with one rune: a purse with what
    is left to assign and what each output was given. An edict divides what is
    left, and the rest of the purse is given to the default output or burned. The
    code keeps all runes in shared maps; its steps are projected to the purse of
    each rune, and runes other than the one that an edict moves keep theirs.
-/

namespace RunesIndexer

open MonadicFold RuneUpdater

/-! ### Purses -/

/-- What is left of a rune and what each output was given. -/
@[ext] structure Purse where
  left : Nat
  given : Nat → Nat

/-- An edict on a known rune. -/
structure Transfer where
  amount : Nat
  output : Nat
  deriving DecidableEq

namespace Transfer

/-- What output `v` gets when a transfer divides `b`; the flags say which outputs are
    OP_RETURNs, and the transfer names an output or, with their number, all of them. -/
def share (flags : List Bool) (b : Nat) (e : Transfer) (v : Nat) : Nat :=
  if e.output = flags.length then
    if flags[v]? = some false then
      if e.amount = 0 then Shares.even b (flags.count false) (Shares.rank flags v)
      else Shares.capped b e.amount (Shares.rank flags v)
    else 0
  else if v = e.output then
    if e.amount = 0 then b else min e.amount b
  else 0

/-- What a transfer leaves of `b`. -/
def rest (flags : List Bool) (b : Nat) (e : Transfer) : Nat :=
  if e.output = flags.length then
    if flags.count false = 0 then b
    else if e.amount = 0 then 0
    else Shares.rest b e.amount (flags.count false)
  else if e.amount = 0 then 0
  else b - min e.amount b

end Transfer

namespace Purse

/-- All units in the purse and at the outputs. -/
def total (flags : List Bool) (p : Purse) : Nat :=
  p.left + ∑ v ∈ Finset.range flags.length, p.given v

/-- An amount that no output was given a part of. -/
def full (amount : Nat) : Purse := ⟨amount, fun _ => 0⟩

def transfer (flags : List Bool) (p : Purse) (e : Transfer) : Purse :=
  ⟨e.rest flags p.left, fun v => p.given v + e.share flags p.left v⟩

/-- A transfer neither makes nor drops a unit. -/
theorem transfer_total {flags : List Bool} {e : Transfer} (he : e.output ≤ flags.length)
    (p : Purse) : (p.transfer flags e).total flags = p.total flags := by
  -- what stays and what the outputs receive make up what there was
  have hsum : e.rest flags p.left +
      ∑ v ∈ Finset.range flags.length, e.share flags p.left v = p.left := by
    unfold Transfer.rest Transfer.share
    by_cases hall : e.output = flags.length
    · simp only [if_pos hall]
      by_cases hn : flags.count false = 0
      · rw [if_pos hn, Shares.sum_clear flags fun i => if e.amount = 0 then
          Shares.even p.left (flags.count false) i else Shares.capped p.left e.amount i, hn]
        rfl
      · rw [if_neg hn]
        by_cases ha : e.amount = 0
        · simp only [if_pos ha]
          rw [Shares.sum_clear flags (Shares.even p.left (flags.count false)),
            Shares.sum_even _ (Nat.pos_of_ne_zero hn), Nat.zero_add]
        · simp only [if_neg ha]
          rw [Shares.sum_clear flags (Shares.capped p.left e.amount), Shares.sum_capped]
          have hle : Shares.rest p.left e.amount (flags.count false) ≤ p.left := Nat.sub_le _ _
          omega
    · simp only [if_neg hall]
      rw [Finset.sum_ite_eq' (Finset.range flags.length) e.output,
        if_pos (Finset.mem_range.mpr (by omega))]
      split <;> omega
  unfold total transfer
  dsimp only
  rw [Finset.sum_add_distrib]
  omega

/-- An empty purse stays as it is. -/
theorem transfer_of_left_eq_zero {p : Purse} (h : p.left = 0) (flags : List Bool) (e : Transfer) :
    p.transfer flags e = p := by
  have hshare : ∀ v, e.share flags 0 v = 0 := by
    intro v
    unfold Transfer.share
    repeat' split
    all_goals simp [Shares.even, Shares.capped, Shares.rest]
  have hrest : e.rest flags 0 = 0 := by
    unfold Transfer.rest
    repeat' split
    all_goals simp [Shares.rest]
  ext v
  · change e.rest flags p.left = p.left
    rw [h, hrest]
  · change p.given v + e.share flags p.left v = p.given v
    rw [h, hshare, Nat.add_zero]

theorem transfers_total {flags : List Bool} {l : List Transfer}
    (hl : ∀ e ∈ l, e.output ≤ flags.length) (p : Purse) :
    (l.foldl (transfer flags) p).total flags = p.total flags := by
  induction l generalizing p with
  | nil => rfl
  | cons e l ih =>
    rw [List.foldl_cons, ih (fun e he => hl e (List.mem_cons_of_mem _ he)),
      transfer_total (hl e List.mem_cons_self)]

end Purse

/-! ### The purse of a rune -/

/-- Which outputs of a transaction are OP_RETURNs. -/
def Crates.opReturns (lib : Crates) (tx : Transaction) : List Bool := tx.output.map lib.burns

@[simp] theorem length_opReturns (lib : Crates) (tx : Transaction) :
    (lib.opReturns tx).length = tx.output.length := List.length_map _

theorem opReturns_getElem? {lib : Crates} {tx : Transaction} {v : Nat} {b : Bool} :
    (lib.opReturns tx)[v]? = some b ↔ ∃ txOut, tx.output[v]? = some txOut ∧ lib.burns txOut = b := by
  unfold Crates.opReturns
  rw [List.getElem?_map, Option.map_eq_some_iff]

/-- The outputs that are no OP_RETURNs, counted. -/
theorem count_burns (lib : Crates) (l : List TxOut) :
    (l.map lib.burns).count false = l.countP fun txOut => !lib.burns txOut := by
  rw [List.count_eq_countP, List.countP_map]
  exact List.countP_congr fun txOut _ => by simp

theorem rank_opReturns (lib : Crates) (tx : Transaction) (v : Nat) :
    Shares.rank (lib.opReturns tx) v =
      (tx.output.take v).countP fun txOut => !lib.burns txOut := by
  unfold Shares.rank Crates.opReturns
  rw [← List.map_take, count_burns]

theorem destinations_eq (lib : Crates) (tx : Transaction) :
    destinations lib tx = Shares.clear (lib.opReturns tx) := by
  unfold destinations Shares.clear Crates.opReturns
  rw [List.zipIdx_map, List.filterMap_map]
  rfl

/-- What output `v` holds of a rune. -/
def givenTo (a : List LotMap) (v : Nat) (id : RuneId) : Nat := ((a[v]?).map (·.amount id)).getD 0

theorem givenTo_of_get? {a : List LotMap} {v : Nat} {m : LotMap} (h : a[v]? = some m)
    (id : RuneId) : givenTo a v id = m.amount id := by
  simp [givenTo, h]

@[simp] theorem givenTo_replicate (n v : Nat) (id : RuneId) :
    givenTo (List.replicate n ∅) v id = 0 := by
  unfold givenTo
  rw [List.getElem?_replicate]
  split <;> rfl

theorem givenTo_set {a : List LotMap} {output : Nat} {m m' : LotMap} {id : RuneId} {n : Nat}
    (hm : a[output]? = some m) (h : m.addTo id n = .ok m') (v : Nat) (id' : RuneId) :
    givenTo (a.set output m') v id' =
      givenTo a v id' + if id' = id ∧ v = output then n else 0 := by
  have hlt := (List.getElem?_eq_some_iff.mp hm).1
  by_cases hv : v = output
  · subst hv
    rw [givenTo_of_get? (List.getElem?_set_self hlt), givenTo_of_get? hm, addTo_amount h]
    simp [eq_comm]
  · have hget : (a.set output m')[v]? = a[v]? := List.getElem?_set_ne (Ne.symm hv)
    simp [givenTo, hget, hv]

/-- The purse of a rune in the maps of a transaction. -/
def purseOf (st : LotMap × List LotMap) (id : RuneId) : Purse :=
  ⟨st.1.amount id, fun v => givenTo st.2 v id⟩

theorem purseOf_replicate (t : LotMap) (n : Nat) (id : RuneId) :
    purseOf (t, List.replicate n ∅) id = .full (t.amount id) := by
  ext v
  · rfl
  · exact givenTo_replicate n v id

/-! ### Moving amounts to outputs -/

theorem allocate_given {id : RuneId} {st st' : Nat × List LotMap} {amount output : Nat}
    (h : allocate id st amount output = .ok st') :
    amount ≤ st.1 ∧ st'.1 = st.1 - amount ∧ ∀ v id', givenTo st'.2 v id' =
      givenTo st.2 v id' + if id' = id ∧ v = output then amount else 0 := by
  unfold allocate at h
  split at h
  · obtain ⟨balance, hsub, h⟩ := except_bind_eq_ok.mp h
    obtain ⟨m, hm, h⟩ := except_bind_eq_ok.mp h
    obtain ⟨m', hadd, h⟩ := except_bind_eq_ok.mp h
    rw [except_pure_eq_ok.mp h]
    obtain ⟨hle, rfl⟩ := Lot.sub_eq_ok.mp hsub
    exact ⟨hle, rfl, givenTo_set (indexAt_eq_ok.mp hm) hadd⟩
  · next h0 =>
    obtain rfl : amount = 0 := by omega
    rw [except_pure_eq_ok.mp h]
    exact ⟨Nat.zero_le _, rfl, fun v id' => by simp⟩

theorem evenShare_eq_ok {amount remainder i share : Nat}
    (h : evenShare amount remainder i = .ok share) :
    share = amount + if i < remainder then 1 else 0 := by
  unfold evenShare at h
  split at h
  · next hi =>
    rw [if_pos hi]
    exact (Lot.add_eq_ok.mp h).2
  · next hi =>
    rw [if_neg hi]
    exact except_pure_eq_ok.mp h

/-- The loop of the even division, from receiver number `k` on. -/
theorem splitEvenly_loop_given {id : RuneId} {amount remainder : Nat} {l : List Nat} {k : Nat}
    {st st' : Nat × List LotMap}
    (h : (l.zipIdx k).foldlM (fun st e => do
      allocate id st (← evenShare amount remainder e.2) e.1) st = .ok st') :
    st'.1 + ∑ i ∈ Finset.range l.length, (amount + if k + i < remainder then 1 else 0) = st.1 ∧
    ∀ v id', givenTo st'.2 v id' = givenTo st.2 v id' + if id' = id then
      Shares.received (fun i => amount + if i < remainder then 1 else 0) k l v else 0 := by
  induction l generalizing k st with
  | nil =>
    rw [except_foldlM_nil.mp h]
    exact ⟨rfl, fun v id' => by simp [Shares.received]⟩
  | cons d l ih =>
    rw [List.zipIdx_cons] at h
    obtain ⟨st₁, hstep, hrest⟩ := except_foldlM_cons.mp h
    obtain ⟨share, hshare, halloc⟩ := except_bind_eq_ok.mp hstep
    obtain ⟨hle, hbalance, hgiven⟩ := allocate_given halloc
    obtain ⟨hleft, hloop⟩ := ih hrest
    rw [evenShare_eq_ok hshare] at hle hbalance hgiven
    dsimp only at hle hbalance
    -- the first share goes to receiver `k`, the induction gives those after it
    refine ⟨?_, fun v id' => ?_⟩
    · have hshift : ∑ i ∈ Finset.range l.length, (amount + if k + (i + 1) < remainder then 1 else 0)
          = ∑ i ∈ Finset.range l.length, (amount + if k + 1 + i < remainder then 1 else 0) :=
        Finset.sum_congr rfl fun i _ => by rw [Nat.add_assoc k 1 i, Nat.add_comm 1 i]
      rw [List.length_cons, Finset.sum_range_succ', hshift]
      simp only [Nat.add_zero]
      omega
    · rw [hloop, hgiven, Shares.received]
      by_cases hid : id' = id
      · by_cases hv : v = d
        · simp only [hid, hv, and_self, if_true]
          omega
        · simp only [hid, hv, and_false, if_true, if_false]
          omega
      · simp [hid]

/-- The loop of the capped division, from receiver number `k` on. -/
theorem distribute_given {id : RuneId} {amount b : Nat} {l : List Nat} {k : Nat}
    {st st' : Nat × List LotMap} (hst : st.1 = Shares.rest b amount k)
    (h : distribute id amount l st = .ok st') :
    st'.1 = Shares.rest b amount (k + l.length) ∧ ∀ v id', givenTo st'.2 v id' =
      givenTo st.2 v id' +
        if id' = id then Shares.received (Shares.capped b amount) k l v else 0 := by
  unfold distribute at h
  induction l generalizing k st with
  | nil =>
    rw [except_foldlM_nil.mp h]
    exact ⟨hst, fun v id' => by simp [Shares.received]⟩
  | cons d l ih =>
    obtain ⟨st₁, halloc, hrest⟩ := except_foldlM_cons.mp h
    obtain ⟨-, hbalance, hgiven⟩ := allocate_given halloc
    have hst₁ : st₁.1 = Shares.rest b amount (k + 1) := by
      rw [hbalance, hst, Shares.rest_succ]
      rfl
    obtain ⟨hleft, hloop⟩ := ih hst₁ hrest
    refine ⟨by rw [hleft, List.length_cons, Nat.add_right_comm, Nat.add_assoc], fun v id' => ?_⟩
    rw [hloop, hgiven, hst, Shares.received]
    by_cases hid : id' = id
    · by_cases hv : v = d
      · simp only [hid, hv, and_self, if_true, Shares.capped]
        omega
      · simp only [hid, hv, and_false, if_true, if_false]
        omega
    · simp [hid]

/-! ### Edicts -/

/-- What an edict on `id` does to the balance of `id` and to the outputs. -/
theorem applyEdict_given {lib : Crates} {tx : Transaction} {id : RuneId} {edict : Edict}
    {st st' : Nat × List LotMap} (h : applyEdict lib tx id edict st = .ok st') :
    st'.1 = Transfer.rest (lib.opReturns tx) st.1 ⟨edict.amount, edict.output⟩ ∧
    ∀ v id', givenTo st'.2 v id' = givenTo st.2 v id' + if id' = id then
      Transfer.share (lib.opReturns tx) st.1 ⟨edict.amount, edict.output⟩ v else 0 := by
  have hnumber : (destinations lib tx).length = (lib.opReturns tx).count false := by
    rw [destinations_eq, Shares.length_clear]
  unfold applyEdict at h
  unfold Transfer.rest Transfer.share
  simp only [length_opReturns]
  split at h
  · next hall =>
    simp only [if_pos hall]
    split at h
    · next hempty =>
      -- nobody to give anything to
      have hzero : (lib.opReturns tx).count false = 0 := by
        rw [← hnumber, List.isEmpty_iff.mp hempty, List.length_nil]
      rw [except_pure_eq_ok.mp h]
      refine ⟨by rw [if_pos hzero], fun v id' => ?_⟩
      have hno : (lib.opReturns tx)[v]? ≠ some false := fun hv =>
        absurd (List.mem_of_getElem? hv) (List.count_eq_zero.mp hzero)
      simp [hno]
    · next hempty =>
      have hpos : (lib.opReturns tx).count false ≠ 0 := by
        rw [← hnumber, Ne, List.length_eq_zero_iff]
        simpa using hempty
      simp only [if_neg hpos]
      split at h
      · next hamount =>
        simp only [if_pos hamount]
        unfold splitEvenly at h
        obtain ⟨remainder, hremainder, hloop⟩ := except_bind_eq_ok.mp h
        obtain ⟨-, rfl⟩ : st.1 % (destinations lib tx).length < usizeBound ∧
            st.1 % (destinations lib tx).length = remainder := by
          simpa [unwrap_eq_ok] using hremainder
        obtain ⟨hleft, hgiven⟩ := splitEvenly_loop_given hloop
        rw [hnumber] at hleft hgiven
        refine ⟨?_, fun v id' => ?_⟩
        · -- the shares add up to the balance, so nothing is left of it
          have hsum : ∑ i ∈ Finset.range ((lib.opReturns tx).count false),
              (st.1 / (lib.opReturns tx).count false +
                if 0 + i < st.1 % (lib.opReturns tx).count false then 1 else 0) = st.1 := by
            simp only [Nat.zero_add]
            exact Shares.sum_even st.1 (Nat.pos_of_ne_zero hpos)
          omega
        · rw [hgiven, destinations_eq]
          exact congrArg (fun n => givenTo st.2 v id' + if id' = id then n else 0)
            (Shares.received_clear (Shares.even st.1 ((lib.opReturns tx).count false))
              (lib.opReturns tx) v)
      · next hamount =>
        simp only [if_neg hamount]
        obtain ⟨hleft, hgiven⟩ := distribute_given (Shares.rest_zero st.1 edict.amount).symm h
        rw [Nat.zero_add, hnumber] at hleft
        refine ⟨hleft, fun v id' => ?_⟩
        rw [hgiven, destinations_eq, Shares.received_clear]
  · next hone =>
    simp only [if_neg hone]
    obtain ⟨-, hleft, hgiven⟩ := allocate_given h
    refine ⟨?_, fun v id' => ?_⟩
    · rw [hleft]
      split <;> omega
    · rw [hgiven]
      by_cases hid : id' = id <;> by_cases hv : v = edict.output <;> simp [hid, hv]

/-- The edicts of a list that move `id`, in their order. -/
def transfersOf (etched : Option (RuneId × Rune)) (id : RuneId) (edicts : List Edict) :
    List Transfer :=
  edicts.filterMap fun e =>
    if resolveEdict etched e.id = some id then some ⟨e.amount, e.output⟩ else none

theorem transfersOf_cons (etched : Option (RuneId × Rune)) (id : RuneId) (e : Edict)
    (l : List Edict) : transfersOf etched id (e :: l) =
      (if resolveEdict etched e.id = some id then [⟨e.amount, e.output⟩] else []) ++
        transfersOf etched id l := by
  unfold transfersOf
  rw [List.filterMap_cons]
  split <;> simp_all

/-- An edict transfers in the purse of its rune and leaves the others alone. -/
theorem indexEdict_purse {lib : Crates} {tx : Transaction} {etched : Option (RuneId × Rune)}
    {st st' : LotMap × List LotMap} {edict : Edict}
    (h : indexEdict lib tx etched st edict = .ok st') (id : RuneId) :
    purseOf st' id = if resolveEdict etched edict.id = some id then
      (purseOf st id).transfer (lib.opReturns tx) ⟨edict.amount, edict.output⟩
      else purseOf st id := by
  unfold indexEdict at h
  obtain ⟨_, -, h⟩ := except_bind_eq_ok.mp h
  split at h
  · next hnone =>
    rw [except_pure_eq_ok.mp h, hnone, if_neg (by simp)]
  · next moved hmoved =>
    rw [hmoved]
    split at h
    · next habsent =>
      -- the rune is not there, so its purse is empty
      rw [except_pure_eq_ok.mp h]
      split
      · next heq =>
        cases heq
        exact (Purse.transfer_of_left_eq_zero (FinMap.amount_of_get?_eq_none habsent) _ _).symm
      · rfl
    · next balance hbalance =>
      obtain ⟨⟨balance', a'⟩, happly, h⟩ := except_bind_eq_ok.mp h
      rw [except_pure_eq_ok.mp h]
      obtain ⟨hleft, hgiven⟩ := applyEdict_given happly
      dsimp only at hleft hgiven
      by_cases hid : id = moved
      · subst hid
        rw [if_pos rfl]
        have hamount : (purseOf st id).left = balance := FinMap.amount_of_get? hbalance
        ext v
        · change (st.1.insert id balance').amount id = Transfer.rest _ (purseOf st id).left _
          rw [hamount, FinMap.amount_insert, if_pos rfl, hleft]
        · change givenTo a' v id = givenTo st.2 v id + Transfer.share _ (purseOf st id).left _ v
          rw [hamount, hgiven, if_pos rfl]
      · rw [if_neg (fun heq => hid (Option.some.inj heq).symm)]
        ext v
        · change (st.1.insert moved balance').amount id = st.1.amount id
          rw [FinMap.amount_insert, if_neg hid]
        · change givenTo a' v id = givenTo st.2 v id
          rw [hgiven, if_neg hid, Nat.add_zero]

/-- A list of edicts performs, in each purse, the transfers on its rune. -/
theorem edicts_purse {lib : Crates} {tx : Transaction} {etched : Option (RuneId × Rune)}
    {edicts : List Edict} {st st' : LotMap × List LotMap}
    (h : edicts.foldlM (indexEdict lib tx etched) st = .ok st') (id : RuneId) :
    purseOf st' id = (transfersOf etched id edicts).foldl (Purse.transfer (lib.opReturns tx))
      (purseOf st id) := by
  induction edicts generalizing st with
  | nil =>
    rw [except_foldlM_nil.mp h]
    rfl
  | cons e l ih =>
    obtain ⟨st₁, hstep, hrest⟩ := except_foldlM_cons.mp h
    rw [ih hrest, indexEdict_purse hstep id, transfersOf_cons, List.foldl_append]
    split <;> rfl

/-- The edicts of a transaction start with nothing allocated and whole amounts in
    `unallocated`. -/
theorem edicts_fit {lib : Crates} {tx : Transaction} {etched : Option (RuneId × Rune)}
    {edicts : List Edict} {t : LotMap} {st : LotMap × List LotMap}
    (ht : ∀ id, t.amount id < u128Bound)
    (h : edicts.foldlM (indexEdict lib tx etched) (t, List.replicate tx.output.length ∅) = .ok st) :
    st.2.length = tx.output.length ∧ ∀ id, st.1.amount id + allocatedTo st.2 id < u128Bound := by
  have hmoves : Moves (t, List.replicate tx.output.length ∅) st :=
    except_foldlM_invariant (P := Moves (t, List.replicate tx.output.length ∅))
      (fun _ _ _ _ hst hstep => hst.trans (indexEdict_moves hstep)) (.refl _) h
  refine ⟨by simpa using hmoves.length, fun id => ?_⟩
  have htotal := hmoves.total id
  rw [allocatedTo_replicate, Nat.add_zero] at htotal
  rw [htotal]
  exact ht id

/-! ### An edict in closed form -/

/-- Whatever edicts came before, the next one on a rune with balance `b` is carried out
    without over- or underflow. With `n` outputs that are no OP_RETURNs, numbered by rank:
    an edict on all outputs divides `b` evenly between them if its amount is zero, and
    otherwise gives each the amount while it lasts; an edict on one output moves what there
    is of its amount, or everything. Other runes keep their amounts. -/
theorem edict_closed_form {lib : Crates} {tx : Transaction} {etched : Option (RuneId × Rune)}
    {t : LotMap} {before : List Edict} {st : LotMap × List LotMap} {edict : Edict} {id : RuneId}
    {b n : Nat} (hlots : ∀ id, t.amount id < u128Bound)
    (hbefore : before.foldlM (indexEdict lib tx etched) (t, List.replicate tx.output.length ∅) =
      .ok st)
    (hedict : edict.output ≤ tx.output.length) (hid : resolveEdict etched edict.id = some id)
    (hb : st.1.amount id = b) (hn : tx.output.countP (fun txOut => !lib.burns txOut) = n) :
    ∃ st', indexEdict lib tx etched st edict = .ok st' ∧
      (∀ id', id' ≠ id → st'.1.amount id' = st.1.amount id' ∧
        ∀ v, givenTo st'.2 v id' = givenTo st.2 v id') ∧
      (edict.output = tx.output.length → n = 0 → st'.1.amount id = b ∧
        ∀ v, givenTo st'.2 v id = givenTo st.2 v id) ∧
      (edict.output = tx.output.length → 0 < n → edict.amount = 0 → st'.1.amount id = 0 ∧
        ∀ v txOut, tx.output[v]? = some txOut → givenTo st'.2 v id = givenTo st.2 v id +
          if lib.burns txOut then 0
          else if (tx.output.take v).countP (fun txOut => !lib.burns txOut) < b % n then b / n + 1
          else b / n) ∧
      (edict.output = tx.output.length → 0 < n → 0 < edict.amount →
        st'.1.amount id = b - min b (n * edict.amount) ∧
        ∀ v txOut, tx.output[v]? = some txOut → givenTo st'.2 v id = givenTo st.2 v id +
          if lib.burns txOut then 0
          else min edict.amount (b - min b
            ((tx.output.take v).countP (fun txOut => !lib.burns txOut) * edict.amount))) ∧
      (edict.output < tx.output.length →
        st'.1.amount id = b - (if edict.amount = 0 then b else min edict.amount b) ∧
        ∀ v, givenTo st'.2 v id = givenTo st.2 v id +
          if v = edict.output then (if edict.amount = 0 then b else min edict.amount b) else 0) := by
  obtain ⟨hlen, hfit⟩ := edicts_fit hlots hbefore
  obtain ⟨st', hstep⟩ : ∃ st', indexEdict lib tx etched st edict = .ok st' :=
    indexEdict_returns hedict hlen hfit
  have hpurse := indexEdict_purse hstep
  have hmine := hpurse id
  rw [if_pos hid] at hmine
  have hleft : st'.1.amount id = Transfer.rest (lib.opReturns tx) b ⟨edict.amount, edict.output⟩ :=
    hb ▸ congrArg Purse.left hmine
  have hgiven : ∀ v, givenTo st'.2 v id = givenTo st.2 v id +
      Transfer.share (lib.opReturns tx) b ⟨edict.amount, edict.output⟩ v :=
    fun v => hb ▸ congrFun (congrArg Purse.given hmine) v
  have hcount : (lib.opReturns tx).count false = n := (count_burns lib tx.output).trans hn
  have hflag : ∀ (v : Nat) (txOut : TxOut), tx.output[v]? = some txOut →
      ((lib.opReturns tx)[v]? = some false ↔ lib.burns txOut = false) := by
    intro v txOut hv
    rw [opReturns_getElem?]
    constructor
    · rintro ⟨txOut', hv', hburns⟩
      rw [hv] at hv'
      cases hv'
      exact hburns
    · exact fun hburns => ⟨txOut, hv, hburns⟩
  -- the purse of the rune, in terms of the transaction's own outputs
  simp only [Transfer.rest, Transfer.share, length_opReturns, hcount, rank_opReturns]
    at hleft hgiven
  -- in turn: other runes, no receiver, shared evenly, a capped amount each, one output
  refine ⟨st', hstep, fun id' hne => ?_, fun hall h0 => ?_, fun hall hpos ha => ?_,
    fun hall hpos ha => ?_, fun hone => ?_⟩
  · have hother := hpurse id'
    rw [hid, if_neg fun heq => hne (Option.some.inj heq).symm] at hother
    exact ⟨congrArg Purse.left hother, fun v => congrFun (congrArg Purse.given hother) v⟩
  · simp only [if_pos hall, if_pos h0] at hleft hgiven
    refine ⟨hleft, fun v => ?_⟩
    have hno : (lib.opReturns tx)[v]? ≠ some false := fun hv =>
      absurd (List.mem_of_getElem? hv) (List.count_eq_zero.mp (hcount.trans h0))
    rw [hgiven, if_neg hno, Nat.add_zero]
  · simp only [if_pos hall, if_neg hpos.ne', if_pos ha] at hleft hgiven
    refine ⟨hleft, fun v txOut hv => ?_⟩
    rw [hgiven]
    cases hburns : lib.burns txOut with
    | true => rw [if_neg fun hclear => by simp [(hflag v txOut hv).mp hclear] at hburns]; rfl
    | false =>
      rw [if_pos ((hflag v txOut hv).mpr hburns), if_neg (by simp)]
      unfold Shares.even
      split <;> rfl
  · simp only [if_pos hall, if_neg hpos.ne', if_neg ha.ne'] at hleft hgiven
    refine ⟨hleft, fun v txOut hv => ?_⟩
    rw [hgiven]
    cases hburns : lib.burns txOut with
    | true => rw [if_neg fun hclear => by simp [(hflag v txOut hv).mp hclear] at hburns]; rfl
    | false =>
      rw [if_pos ((hflag v txOut hv).mpr hburns), if_neg (by simp)]
      rfl
  · simp only [if_neg hone.ne] at hleft hgiven
    refine ⟨?_, hgiven⟩
    rw [hleft]
    split <;> omega

/-- Seven units between two outputs next to an OP_RETURN: four and three. -/
theorem edict_closed_form_sample : ∃ st', indexEdict Sample.crates Sample.splitTx none
    ((∅ : LotMap).insert ⟨1, 2⟩ 7, List.replicate 3 ∅) ⟨⟨1, 2⟩, 0, 3⟩ = .ok st' ∧
      st'.1.amount ⟨1, 2⟩ = 0 ∧ givenTo st'.2 0 ⟨1, 2⟩ = 0 ∧ givenTo st'.2 1 ⟨1, 2⟩ = 4 ∧
      givenTo st'.2 2 ⟨1, 2⟩ = 3 := by
  have hlots : ∀ id, ((∅ : LotMap).insert (⟨1, 2⟩ : RuneId) 7).amount id < u128Bound := by
    intro id
    rw [FinMap.amount_insert, FinMap.amount_empty]
    split <;> decide
  obtain ⟨st', hstep, -, -, heven, -, -⟩ := @edict_closed_form Sample.crates Sample.splitTx none
    ((∅ : LotMap).insert ⟨1, 2⟩ 7) [] _ ⟨⟨1, 2⟩, 0, 3⟩ ⟨1, 2⟩ 7 2 hlots rfl (by decide) rfl
    (by decide) (by decide)
  obtain ⟨hleft, hgiven⟩ := heven rfl (by decide) rfl
  exact ⟨st', hstep, hleft, hgiven 0 _ rfl, hgiven 1 _ rfl, hgiven 2 _ rfl⟩

end RunesIndexer
