import RunesIndexer.Spec.History
import RunesIndexer.Spec.Phases

/-! # The rune registry

    The entries, the two indexes over them, and the counters say the same thing:
    a rune is found by its name and by its etching transaction, and runes are numbered
    without a gap in the order of their etchings.
-/

namespace RunesIndexer

open Resumption MonadicFold RuneUpdater

/-! ### What identifies an entry -/

/-- The part of an entry that is fixed when the rune is etched and that the registry is
    about. -/
structure Identity where
  block : Nat
  etching : Txid
  number : Nat
  rune : Rune

def RuneEntry.identity (e : RuneEntry) : Identity :=
  ⟨e.block, e.etching, e.number, e.spacedRune.rune⟩

@[simp] theorem RuneEntry.identity_reload (e : RuneEntry) : e.reload.identity = e.identity := rfl

/-- The identities of the entries of a ledger. -/
def Ledger.identities (L : Ledger) : FinMap RuneId Identity :=
  L.entries.mapVal RuneEntry.identity

/-- Changing the counts of an entry changes no identity. -/
theorem identities_insert {L : Ledger} {id : RuneId} {e e' : RuneEntry}
    (he : L.entries.get? id = some e) (h : e'.identity = e.identity) :
    (L.entries.insert id e').mapVal RuneEntry.identity = L.identities := by
  unfold Ledger.identities
  rw [FinMap.mapVal_insert, h, FinMap.insert_of_get?_eq_some]
  rw [FinMap.get?_mapVal, he]
  rfl

/-! ### The invariant -/

/-- The registry of a ledger after the transactions in `done`. -/
structure Registry (lib : Crates) (done : List Located) (L : Ledger) : Prop where
  names : FinMap.Indexes (fun _ x => x.rune) (fun id _ => id) L.identities L.names
  etchings : FinMap.Indexes (fun _ x => x.etching) (fun _ x => x.rune) L.identities L.etchings
  positions : ∀ id x, L.identities.get? id = some x →
    x.block = id.block ∧ ∃ d ∈ done, d.id = id ∧ d.txid = x.etching
  order : ∀ id x id' x', L.identities.get? id = some x → L.identities.get? id' = some x' →
    id.Precedes id' → x.number < x'.number
  numbers : ∀ n, n < L.runes ↔ ∃ id x, L.identities.get? id = some x ∧ x.number = n
  runes : L.identities.size = L.runes
  reservedRunes : L.identities.count (fun _ x => lib.isReserved x.rune) = L.reservedRunes
  reserved : ∀ id x, L.identities.get? id = some x → lib.isReserved x.rune = true →
    id.tx < usizeBound ∧ x.rune = lib.reserved id.block id.tx

namespace Registry

variable {lib : Crates} {done : List Located} {L L' : Ledger}

theorem empty (lib : Crates) : Registry lib [] Ledger.empty where
  names := .empty _ _
  etchings := .empty _ _
  positions id x h := by simp [Ledger.identities, Ledger.empty] at h
  order id x id' x' h := by simp [Ledger.identities, Ledger.empty] at h
  numbers n := by simp [Ledger.identities, Ledger.empty]
  runes := rfl
  reservedRunes := rfl
  reserved id x h := by simp [Ledger.identities, Ledger.empty] at h

/-- Balances, heights and counts do not matter. -/
theorem congr (h : Registry lib done L) (hids : L'.identities = L.identities)
    (hnames : L'.names = L.names) (hetchings : L'.etchings = L.etchings)
    (hrunes : L'.runes = L.runes) (hreserved : L'.reservedRunes = L.reservedRunes) :
    Registry lib done L' where
  names := by rw [hids, hnames]; exact h.names
  etchings := by rw [hids, hetchings]; exact h.etchings
  positions := by rw [hids]; exact h.positions
  order := by rw [hids]; exact h.order
  numbers := by rw [hids, hrunes]; exact h.numbers
  runes := by rw [hids, hrunes]; exact h.runes
  reservedRunes := by rw [hids, hreserved]; exact h.reservedRunes
  reserved := by rw [hids]; exact h.reserved

theorem mono (h : Registry lib done L) (d : Located) : Registry lib (done ++ [d]) L where
  names := h.names
  etchings := h.etchings
  positions id x hx := by
    obtain ⟨hblock, d', hd', hpos⟩ := h.positions id x hx
    exact ⟨hblock, d', List.mem_append_left _ hd', hpos⟩
  order := h.order
  numbers := h.numbers
  runes := h.runes
  reservedRunes := h.reservedRunes
  reserved := h.reserved

/-! ### A new rune -/

theorem number_lt (h : Registry lib done L) {id : RuneId} {x : Identity}
    (hx : L.identities.get? id = some x) : x.number < L.runes :=
  (h.numbers _).mpr ⟨id, x, hx, rfl⟩

/-- The position of a transaction that comes after those done holds no entry. -/
theorem position_free (h : Registry lib done L) {id : RuneId}
    (hlast : ∀ d ∈ done, d.id.Precedes id) : L.identities.get? id = none := by
  by_contra hne
  obtain ⟨x, hx⟩ := Option.ne_none_iff_exists'.mp hne
  obtain ⟨-, d, hd, rfl, -⟩ := h.positions id x hx
  have := hlast d hd
  unfold RuneId.Precedes at this
  omega

/-- A transaction whose txid is new has etched nothing. -/
theorem etching_free (h : Registry lib done L) {txid : Txid}
    (hfresh : ∀ d ∈ done, d.txid ≠ txid) : L.etchings.get? txid = none := by
  by_contra hne
  obtain ⟨rune, hrune⟩ := Option.ne_none_iff_exists'.mp hne
  obtain ⟨id, x, hx, hetching, -⟩ := (h.etchings txid rune).mp hrune
  obtain ⟨-, d, hd, -, htxid⟩ := h.positions id x hx
  exact hfresh d hd (htxid.trans hetching)

/-- The name reserved for a position without an entry is free. -/
theorem reserved_free (h : Registry lib done L) (hres : ReservedNames lib) {id : RuneId}
    (hid : id.tx < usizeBound) (hfree : L.identities.get? id = none) :
    L.names.get? (lib.reserved id.block id.tx) = none := by
  by_contra hne
  obtain ⟨id', hid'⟩ := Option.ne_none_iff_exists'.mp hne
  obtain ⟨_, x, hx, hrune, rfl⟩ := (h.names _ _).mp hid'
  dsimp only at hx hrune
  obtain ⟨hlt, hname⟩ := h.reserved _ x hx (by rw [hrune]; exact hres.reserved _ _ hid)
  obtain ⟨hblock, htx⟩ := hres.injective _ _ _ _ hlt hid (hname.symm.trans hrune)
  rw [RuneId.ext hblock htx, hfree] at hx
  cases hx

/-- The next transaction etches a rune under a free name. -/
theorem insert (h : Registry lib done L) {d : Located} {entry : RuneEntry} {rune : Rune}
    {reservedRunes : Nat} (hlast : ∀ d' ∈ done, d'.id.Precedes d.id)
    (hfresh : ∀ d' ∈ done, d'.txid ≠ d.txid) (hname : L.names.get? rune = none)
    (hreserved : lib.isReserved rune = false ∧ reservedRunes = L.reservedRunes ∨
      lib.isReserved rune = true ∧ reservedRunes = L.reservedRunes + 1 ∧
        d.id.tx < usizeBound ∧ rune = lib.reserved d.id.block d.id.tx)
    (hentry : entry.identity = ⟨d.id.block, d.txid, L.runes, rune⟩) :
    Registry lib (done ++ [d]) { L with
      entries := L.entries.insert d.id entry
      names := L.names.insert rune d.id
      etchings := L.etchings.insert d.txid rune
      runes := L.runes + 1
      reservedRunes := reservedRunes } := by
  have hfree := h.position_free hlast
  have hids : ∀ L' : Ledger, L'.entries = L.entries.insert d.id entry →
      L'.identities = L.identities.insert d.id ⟨d.id.block, d.txid, L.runes, rune⟩ := by
    intro L' hL'
    unfold Ledger.identities
    rw [hL', FinMap.mapVal_insert, hentry]
  -- an identity is the new one or was there before
  have hcases : ∀ {id x}, (L.identities.insert d.id
      ⟨d.id.block, d.txid, L.runes, rune⟩).get? id = some x →
      id = d.id ∧ x = ⟨d.id.block, d.txid, L.runes, rune⟩ ∨ L.identities.get? id = some x := by
    intro id x hx
    rw [FinMap.get?_insert] at hx
    split at hx
    · next heq => exact .inl ⟨heq, (Option.some.inj hx).symm⟩
    · exact .inr hx
  refine ⟨?_, ?_, ?_, ?_, ?_, ?_, ?_, ?_⟩ <;> rw [hids _ rfl]
  · exact h.names.insert hfree hname
  · exact h.etchings.insert hfree (h.etching_free hfresh)
  · intro id x hx
    rcases hcases hx with ⟨rfl, rfl⟩ | hx
    · exact ⟨rfl, d, List.mem_append_right _ List.mem_cons_self, rfl, rfl⟩
    · obtain ⟨hblock, d', hd', hpos⟩ := h.positions id x hx
      exact ⟨hblock, d', List.mem_append_left _ hd', hpos⟩
  · intro id x id' x' hx hx' hlt
    rcases hcases hx with ⟨rfl, rfl⟩ | hx
    · -- nothing comes after the new rune
      have hnot : ¬ d.id.Precedes id' := by
        rcases hcases hx' with ⟨rfl, -⟩ | hx'
        · unfold RuneId.Precedes
          omega
        · obtain ⟨-, d', hd', rfl, -⟩ := h.positions id' x' hx'
          have := hlast d' hd'
          unfold RuneId.Precedes at *
          omega
      exact absurd hlt hnot
    · rcases hcases hx' with ⟨rfl, rfl⟩ | hx'
      · exact h.number_lt hx
      · exact h.order id x id' x' hx hx' hlt
  · intro n
    dsimp only
    constructor
    · intro hn
      rcases Nat.lt_succ_iff_lt_or_eq.mp hn with hn | rfl
      · obtain ⟨id, x, hx, hnumber⟩ := (h.numbers n).mp hn
        have hne : id ≠ d.id := by
          rintro rfl
          rw [hfree] at hx
          cases hx
        exact ⟨id, x, by rw [FinMap.get?_insert_ne _ _ hne, hx], hnumber⟩
      · exact ⟨d.id, _, FinMap.get?_insert_self _ _ _, rfl⟩
    · rintro ⟨id, x, hx, rfl⟩
      rcases hcases hx with ⟨rfl, rfl⟩ | hx
      · exact Nat.lt_succ_self _
      · exact Nat.lt_succ_of_lt (h.number_lt hx)
  · rw [FinMap.size_eq_total, FinMap.total_insert_of_get?_eq_none _ hfree,
      ← FinMap.size_eq_total, h.runes, Nat.add_comm]
  · have hcount := h.reservedRunes
    rw [FinMap.count_eq_total] at hcount
    rw [FinMap.count_eq_total, FinMap.total_insert_of_get?_eq_none _ hfree, hcount]
    rcases hreserved with ⟨hno, rfl⟩ | ⟨hyes, rfl, -⟩
    · simp [hno]
    · simp [hyes, Nat.add_comm]
  · intro id x hx hyes
    rcases hcases hx with ⟨rfl, rfl⟩ | hx
    · rcases hreserved with ⟨hno, -⟩ | ⟨-, -, hpos⟩
      · rw [hno] at hyes
        cases hyes
      · exact hpos
    · exact h.reserved id x hx hyes

/-! ### Transactions -/

section transaction

variable {d : Located} {t t' : LotMap} {u u' : RuneUpdater}

theorem spend (h : Registry lib done L) {o : OutPoint}
    (hstep : Spend o (L, t, u) (L', t', u')) : Registry lib done L' := by
  cases hstep with
  | absent _ => exact h
  | removed _ _ _ => exact h.congr rfl rfl rfl rfl rfl

theorem mint (h : Registry lib done L) {tx : Transaction}
    (hstep : Mint lib tx (L, t, u) (L', t', u')) : Registry lib done L' := by
  cases hstep with
  | absent _ => exact h
  | refused _ _ _ => exact h
  | minted _ _ he _ _ => exact h.congr (identities_insert he rfl) rfl rfl rfl rfl

theorem output (h : Registry lib done L) {tx : Transaction} {txid : Txid} {o : LotMap × Nat}
    (hstep : Output lib tx txid o (L, t, u) (L', t', u')) : Registry lib done L' := by
  cases hstep with
  | nothing _ => exact h
  | burns _ _ _ => exact h
  | created _ _ _ => exact h.congr rfl rfl rfl rfl rfl

theorem etch (h : Registry lib done L) (hres : ReservedNames lib)
    (hlast : ∀ d' ∈ done, d'.id.Precedes d.id) (hfresh : ∀ d' ∈ done, d'.txid ≠ d.txid)
    (hid : d.id.tx < usizeBound) (hheight : u.height = d.id.block) (hruns : u.runes = L.runes)
    {tx : Transaction} {a : List LotMap}
    (hstep : Etch lib d.id.tx tx d.txid (L, t, u) a (L', t', u')) :
    Registry lib (done ++ [d]) L' ∧ u'.runes = L'.runes := by
  cases hstep with
  | plain _ => exact ⟨h.mono d, hruns⟩
  | unetched _ _ => exact ⟨h.mono d, hruns⟩
  | etched hdec hname hstone hentry =>
    have hnew := newRuneEntry_eq_ok hentry
    have hpos : (⟨u.height, d.id.tx⟩ : RuneId) = d.id := RuneId.ext hheight rfl
    rw [hpos] at hnew ⊢
    rw [hruns]
    -- a chosen name was looked up, a reserved one belongs to this position
    refine ⟨h.insert hlast hfresh ?_ ?_ ?_, congrArg (· + 1) hruns⟩
    · cases hname with
      | chosen _ _ _ hfree => exact hfree
      | reserved _ =>
        rw [hheight]
        exact h.reserved_free hres hid (h.position_free hlast)
    · cases hname with
      | chosen _ _ hnot _ => exact .inl ⟨hnot, rfl⟩
      | reserved _ =>
        rw [hheight]
        exact .inr ⟨hres.reserved _ _ hid, rfl, hid, rfl⟩
    · rw [RuneEntry.identity_reload]
      unfold RuneEntry.identity
      rw [hnew.block, hnew.etching, hnew.number, hnew.name, hruns]

end transaction

/-- Inside a block the updater counts the runes. -/
theorem indexRunes {first : Nat} {chain : List BlockData} {b : BlockData} {i : Nat} {tx : Transaction}
    {txid : Txid} {u u' : RuneUpdater} (hres : ReservedNames lib)
    (hdistinct : DistinctTxids (chain ++ [b])) (hget : b.txdata[i]? = some (tx, txid))
    (hheight : u.height = first + chain.length)
    (h : Registry lib (doneAt first chain b i) L ∧ u.runes = L.runes)
    (hstep : TxPhases lib i tx txid L u L' u') :
    Registry lib (doneAt first chain b (i + 1)) L' ∧ u'.runes = L'.runes := by
  have hi : i < usizeBound := by
    have := (List.getElem?_eq_some_iff.mp hget).1
    have := b.txdataFits
    omega
  have hlast : ∀ d ∈ doneAt first chain b i, d.id.Precedes ⟨first + chain.length, i⟩ :=
    fun d hd => mem_doneAt_precedes hd
  have hfresh : ∀ d ∈ doneAt first chain b i, d.txid ≠ txid :=
    fun d hd => hdistinct.fresh_doneAt hget hd
  -- only the etching writes to the registry
  refine hstep.invariant
    (P := fun L u => u.height = first + chain.length ∧ Registry lib (doneAt first chain b i) L ∧
      u.runes = L.runes)
    (M := fun L u => u.height = first + chain.length ∧ Registry lib (doneAt first chain b i) L ∧
      u.runes = L.runes)
    (Q := fun L u => Registry lib (doneAt first chain b (i + 1)) L ∧ u.runes = L.runes)
    ?_ ?_ ?_ ?_ ?_ ⟨hheight, h⟩
  · rintro input - L t u L' t' u' ⟨hu, hP, hruns⟩ hspend
    have hR := hP.spend hspend
    cases hspend with
    | absent _ => exact ⟨hu, hR, hruns⟩
    | removed _ _ _ => exact ⟨hu, hR, hruns⟩
  · rintro L t u L' t' u' ⟨hu, hP, hruns⟩ hmint
    have hR := hP.mint hmint
    cases hmint <;> exact ⟨hu, hR, hruns⟩
  · rintro L t u a L' t' u' ⟨hu, hP, hruns⟩ hetch
    rw [doneAt_succ first chain hget]
    exact hP.etch (d := ⟨⟨first + chain.length, i⟩, tx, txid⟩) hres hlast hfresh hi hu hruns hetch
  · rintro output L b u L' b' u' ⟨hQ, hruns⟩ houtput
    have hR := hQ.output houtput
    cases houtput <;> exact ⟨hR, hruns⟩
  · exact fun L u b hQ => hQ

/-! ### Runs -/

theorem of_run {network : BitcoinNetwork} {node : Node} {chain : List BlockData} {s : Store}
    (hres : ReservedNames lib) (h : Run lib network node DistinctTxids chain s) :
    Registry lib (located (lib.firstRuneHeight network) chain) s.ledger := by
  refine h.invariant (p := .all)
    (P := fun chain L => Registry lib (located (lib.firstRuneHeight network) chain) L)
    (fun _ hd => ⟨fun _ => hd, fun _ => ⟨hd, hres⟩⟩) ?_ (empty lib) ?_
  · intro chain L L' hagrees hP
    exact hagrees.eq ▸ hP
  · intro chain b ord s s' hdistinct hrows hP hrun
    rw [← doneAt_length]
    refine indexBlock_invariant
      (P := fun i L u => Registry lib (doneAt (lib.firstRuneHeight network) chain b i) L ∧
        u.runes = L.runes)
      hrows ⟨by rw [doneAt_zero]; exact hP, rfl⟩ ?_ (fun _ _ hP => hP.1) ?_ hrun
    · exact fun i tx txid hget L u L' u' hu hP hstep =>
        Registry.indexRunes hres hdistinct hget hu hP hstep
    · exact fun L id e n hQ he => hQ.congr (identities_insert he rfl) rfl rfl rfl rfl

/-- The position of an entry decides its number and is decided by it. -/
theorem precedes_iff (h : Registry lib done L) {id id' : RuneId} {x x' : Identity}
    (hx : L.identities.get? id = some x) (hx' : L.identities.get? id' = some x') :
    id.Precedes id' ↔ x.number < x'.number := by
  refine ⟨h.order _ _ _ _ hx hx', fun hlt => ?_⟩
  by_contra hno
  by_cases hprec : id'.Precedes id
  · have := h.order _ _ _ _ hx' hx hprec
    omega
  · obtain rfl : id = id' := by
      unfold RuneId.Precedes at *
      exact RuneId.ext (by omega) (by omega)
    rw [hx] at hx'
    cases hx'
    omega

end Registry

theorem Ledger.get?_identities {L : Ledger} {id : RuneId} {x : Identity} :
    L.identities.get? id = some x ↔ ∃ e, L.entries.get? id = some e ∧ e.identity = x := by
  unfold Ledger.identities
  rw [FinMap.get?_mapVal, Option.map_eq_some_iff]

/-! ### The maps of a store -/

namespace Registry

variable {lib : Crates} {done : List Located} {s : Store}

/-- A name maps to the id of the entry with that name. -/
theorem runeToRuneId_iff (h : Registry lib done s.ledger) (rune : Rune) (id : RuneId) :
    s.runeToRuneId.get? rune = some id ↔
      ∃ e, s.runeIdToRuneEntry.get? id = some e ∧ e.spacedRune.rune = rune := by
  rw [show s.runeToRuneId = s.ledger.names from rfl, h.names rune id]
  constructor
  · rintro ⟨id, x, hx, rfl, rfl⟩
    obtain ⟨e, he, rfl⟩ := Ledger.get?_identities.mp hx
    exact ⟨e, he, rfl⟩
  · rintro ⟨e, he, rfl⟩
    exact ⟨id, _, Ledger.get?_identities.mpr ⟨e, he, rfl⟩, rfl, rfl⟩

/-- A txid maps to the rune of the entry that it etched. -/
theorem transactionIdToRune_iff (h : Registry lib done s.ledger) (txid : Txid) (rune : Rune) :
    s.transactionIdToRune.get? txid = some rune ↔
      ∃ id e, s.runeIdToRuneEntry.get? id = some e ∧ e.etching = txid ∧
        e.spacedRune.rune = rune := by
  rw [show s.transactionIdToRune = s.ledger.etchings from rfl, h.etchings txid rune]
  constructor
  · rintro ⟨id, x, hx, rfl, rfl⟩
    obtain ⟨e, he, rfl⟩ := Ledger.get?_identities.mp hx
    exact ⟨id, e, he, rfl, rfl⟩
  · rintro ⟨id, e, he, rfl, rfl⟩
    exact ⟨id, _, Ledger.get?_identities.mpr ⟨e, he, rfl⟩, rfl, rfl⟩

/-- Names and etchings identify an entry. -/
theorem id_unique (h : Registry lib done s.ledger) {id id' : RuneId} {e e' : RuneEntry}
    (he : s.runeIdToRuneEntry.get? id = some e) (he' : s.runeIdToRuneEntry.get? id' = some e')
    (heq : e.spacedRune.rune = e'.spacedRune.rune ∨ e.etching = e'.etching) : id = id' := by
  have hx := Ledger.get?_identities.mpr ⟨e, show s.ledger.entries.get? id = some e from he, rfl⟩
  have hx' := Ledger.get?_identities.mpr ⟨e', show s.ledger.entries.get? id' = some e' from he', rfl⟩
  rcases heq with hrune | hetching
  · exact h.names.unique hx hx' hrune
  · exact h.names.unique hx hx' (h.etchings.unique hx hx' hetching)

/-- The chain of maps behind `mem_get_etching` ends at the entry that the txid etched. -/
theorem memGetEtching_iff (h : Registry lib done s.ledger) (txid : Txid) (id : RuneId)
    (e : RuneEntry) :
    s.memGetEtching txid = some (id, e) ↔
      s.runeIdToRuneEntry.get? id = some e ∧ e.etching = txid := by
  unfold Store.memGetEtching
  simp only [Option.bind_eq_some_iff, Option.map_eq_some_iff, Prod.mk.injEq]
  constructor
  · rintro ⟨rune, hrune, id₁, hid, e₁, he, rfl, rfl⟩
    obtain ⟨id₂, e₂, he₂, hetching, hrune₂⟩ := (h.transactionIdToRune_iff txid rune).mp hrune
    obtain ⟨e₃, he₃, hrune₃⟩ := (h.runeToRuneId_iff rune id₁).mp hid
    obtain rfl := h.id_unique he₂ he₃ (.inl (hrune₂.trans hrune₃.symm))
    rw [he₂] at he
    cases he
    exact ⟨he₂, hetching⟩
  · rintro ⟨he, hetching⟩
    exact ⟨_, (h.transactionIdToRune_iff txid _).mpr ⟨id, e, he, hetching, rfl⟩, id,
      (h.runeToRuneId_iff _ id).mpr ⟨e, he, rfl⟩, e, he, rfl, rfl⟩

end Registry

/-- Along every run the registry is a consistent bijection between entries, names and
    etchings, and the runes are numbered without a gap in the order of their ids. -/
theorem Run.registry {lib : Crates} {network : BitcoinNetwork} {node : Node}
    {chain : List BlockData} {s : Store} (hres : ReservedNames lib)
    (h : Run lib network node DistinctTxids chain s) :
    -- a name maps to the id of the entry with that name
    (∀ rune id, s.runeToRuneId.get? rune = some id ↔
      ∃ e, s.runeIdToRuneEntry.get? id = some e ∧ e.spacedRune.rune = rune) ∧
    -- a txid maps to the rune of the entry that it etched
    (∀ txid rune, s.transactionIdToRune.get? txid = some rune ↔
      ∃ id e, s.runeIdToRuneEntry.get? id = some e ∧ e.etching = txid ∧
        e.spacedRune.rune = rune) ∧
    (∀ txid id e, s.memGetEtching txid = some (id, e) ↔
      s.runeIdToRuneEntry.get? id = some e ∧ e.etching = txid) ∧
    (∀ id e id' e', s.runeIdToRuneEntry.get? id = some e →
      s.runeIdToRuneEntry.get? id' = some e' →
      (e.spacedRune.rune = e'.spacedRune.rune ∨ e.etching = e'.etching → id = id') ∧
      (id.Precedes id' ↔ e.number < e'.number)) ∧
    (∀ id e, s.runeIdToRuneEntry.get? id = some e → e.block = id.block ∧
      (∃ d ∈ located (lib.firstRuneHeight network) chain, d.id = id ∧ d.txid = e.etching) ∧
      ∃ height, s.memLatestBlockHeight = some height ∧ e.block ≤ height) ∧
    -- the numbers are those below the count
    (∀ n, n < s.memStatisticRunes ↔
      ∃ id e, s.runeIdToRuneEntry.get? id = some e ∧ e.number = n) ∧
    s.runeIdToRuneEntry.size = s.memStatisticRunes ∧
    s.runeIdToRuneEntry.count (fun _ e => lib.isReserved e.spacedRune.rune) =
      s.memStatisticReservedRunes := by
  have hreg := Registry.of_run hres h
  obtain ⟨lo, hwin⟩ := h.window
  have hget : ∀ {id e}, s.runeIdToRuneEntry.get? id = some e →
      s.ledger.identities.get? id = some e.identity :=
    fun he => Ledger.get?_identities.mpr ⟨_, he, rfl⟩
  refine ⟨hreg.runeToRuneId_iff, hreg.transactionIdToRune_iff, hreg.memGetEtching_iff,
    fun id e id' e' he he' => ⟨hreg.id_unique he he', ?_⟩,
    fun id e he => ?_, fun n => ?_, ?_, ?_⟩
  · exact hreg.precedes_iff (hget he) (hget he')
  · obtain ⟨hblock, d, hd, hid, htxid⟩ := hreg.positions id _ (hget he)
    refine ⟨hblock, ⟨d, hd, hid, htxid⟩, ?_⟩
    have hlt := mem_located_block hd
    have hne : chain ≠ [] := by
      rintro rfl
      cases hd
    have hlen := List.length_pos_iff.mpr hne
    refine ⟨_, by rw [hwin.latestHeight, if_neg hne], ?_⟩
    rw [show e.block = d.id.block from hid ▸ hblock]
    omega
  · rw [show s.memStatisticRunes = s.ledger.runes from rfl, hreg.numbers n]
    constructor
    · rintro ⟨id, x, hx, rfl⟩
      obtain ⟨e, he, rfl⟩ := Ledger.get?_identities.mp hx
      exact ⟨id, e, he, rfl⟩
    · rintro ⟨id, e, he, rfl⟩
      exact ⟨id, _, hget he, rfl⟩
  · rw [show s.memStatisticRunes = s.ledger.runes from rfl, ← hreg.runes, FinMap.size_eq_total,
      FinMap.size_eq_total]
    exact (FinMap.total_mapVal (fun _ _ => 1) RuneEntry.identity _).symm
  · rw [show s.memStatisticReservedRunes = s.ledger.reservedRunes from rfl,
      ← hreg.reservedRunes, FinMap.count_eq_total, FinMap.count_eq_total]
    exact (FinMap.total_mapVal (fun _ x => if lib.isReserved x.rune then 1 else 0)
      RuneEntry.identity _).symm

theorem Run.registry_sample :
    ∃ s e, Run Sample.crates .regtest (fun _ => Answers.any) DistinctTxids Sample.chain s ∧
      s.runeIdToRuneEntry.get? Sample.runeId = some e ∧
      s.memGetEtching 1 = some (Sample.runeId, e) := by
  obtain ⟨s, e, hrun, he, -, -, -, -, hetching⟩ := sample_run DistinctTxids distinctTxids_sample
  exact ⟨s, e, hrun, he,
    ((Run.registry reservedNames_sample hrun).2.2.1 1 Sample.runeId e).mpr ⟨he, hetching⟩⟩

end RunesIndexer
