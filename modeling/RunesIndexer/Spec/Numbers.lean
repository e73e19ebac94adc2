import RunesIndexer.Spec.Fork
import RunesIndexer.Spec.Phases

/-! # Rune numbers

    Whatever the txids and the reserved names are, the runes of the held chain are
    numbered from zero in the order of their etchings.
-/

namespace RunesIndexer

open Resumption MonadicFold RuneUpdater Journal

/-- Runes are numbered from zero, without a gap, in the order of their etchings. -/
structure Numbered (done : List Located) (L : Ledger) : Prop where
  positions : ∀ id e, L.entries.get? id = some e → ∃ d ∈ done, d.id = id
  order : ∀ id e id' e', L.entries.get? id = some e → L.entries.get? id' = some e' →
    id.Precedes id' → e.number < e'.number
  numbers : ∀ n, n < L.runes ↔ ∃ id e, L.entries.get? id = some e ∧ e.number = n

namespace Numbered

variable {lib : Crates} {done : List Located} {L L' : Ledger} {t t' : LotMap} {u u' : RuneUpdater}

theorem empty : Numbered [] Ledger.empty where
  positions id e h := by simp [Ledger.empty] at h
  order id e id' e' h := by simp [Ledger.empty] at h
  numbers n := by simp [Ledger.empty]

theorem congr (h : Numbered done L) (hentries : L'.entries = L.entries)
    (hruns : L'.runes = L.runes) : Numbered done L' :=
  ⟨hentries ▸ h.positions, hentries ▸ h.order, by rw [hentries, hruns]; exact h.numbers⟩

theorem mono (h : Numbered done L) (d : Located) : Numbered (done ++ [d]) L where
  positions id e he := by
    obtain ⟨d', hd', hid⟩ := h.positions id e he
    exact ⟨d', List.mem_append_left _ hd', hid⟩
  order := h.order
  numbers := h.numbers

/-- Of an entry only the number matters. -/
theorem update (h : Numbered done L) {id : RuneId} {e e' : RuneEntry}
    (he : L.entries.get? id = some e) (hnumber : e'.number = e.number) :
    Numbered done { L with entries := L.entries.insert id e' } := by
  -- an entry of the new map has the number of one of the old map at the same id
  have hold : ∀ {k x}, (L.entries.insert id e').get? k = some x →
      ∃ y, L.entries.get? k = some y ∧ x.number = y.number := by
    intro k x hx
    rw [FinMap.get?_insert] at hx
    split at hx
    · next heq =>
      cases hx
      exact ⟨e, heq ▸ he, hnumber⟩
    · exact ⟨x, hx, rfl⟩
  refine ⟨fun k x hx => ?_, fun k x k' x' hx hx' hprec => ?_, fun n => ?_⟩
  · obtain ⟨y, hy, -⟩ := hold hx
    exact h.positions k y hy
  · obtain ⟨y, hy, hxy⟩ := hold hx
    obtain ⟨y', hy', hxy'⟩ := hold hx'
    rw [hxy, hxy']
    exact h.order k y k' y' hy hy' hprec
  · rw [h.numbers n]
    constructor
    · rintro ⟨k, x, hx, rfl⟩
      by_cases hk : k = id
      · subst hk
        rw [he] at hx
        cases hx
        exact ⟨k, e', FinMap.get?_insert_self _ _ _, hnumber⟩
      · exact ⟨k, x, by rw [FinMap.get?_insert_ne _ _ hk, hx], rfl⟩
    · rintro ⟨k, x, hx, rfl⟩
      obtain ⟨y, hy, hxy⟩ := hold hx
      exact ⟨k, y, hy, hxy.symm⟩

/-- A rune is etched after all the others. -/
theorem insert (h : Numbered done L) {d : Located} {e : RuneEntry} {n : Nat}
    (hlast : ∀ d' ∈ done, d'.id.Precedes d.id) (hnumber : e.number = L.runes)
    (hentries : L'.entries = L.entries.insert d.id e) (hruns : n = L.runes + 1)
    (hL' : L'.runes = n) : Numbered (done ++ [d]) L' := by
  have hbefore : ∀ {k x}, L.entries.get? k = some x → k.Precedes d.id := by
    intro k x hx
    obtain ⟨d', hd', rfl⟩ := h.positions k x hx
    exact hlast d' hd'
  have hcases : ∀ {k x}, L'.entries.get? k = some x →
      k = d.id ∧ x = e ∨ L.entries.get? k = some x := by
    intro k x hx
    rw [hentries, FinMap.get?_insert] at hx
    split at hx
    · next heq => exact .inl ⟨heq, (Option.some.inj hx).symm⟩
    · exact .inr hx
  -- the numbers given so far are those below the counter
  have hlt : ∀ {k x}, L.entries.get? k = some x → x.number < L.runes :=
    fun {k x} hx => (h.numbers x.number).mpr ⟨k, x, hx, rfl⟩
  refine ⟨fun k x hx => ?_, fun k x k' x' hx hx' hprec => ?_, fun m => ?_⟩
  · rcases hcases hx with ⟨rfl, -⟩ | hx
    · exact ⟨d, List.mem_append_right _ List.mem_cons_self, rfl⟩
    · obtain ⟨d', hd', hid⟩ := h.positions k x hx
      exact ⟨d', List.mem_append_left _ hd', hid⟩
  · rcases hcases hx with ⟨rfl, rfl⟩ | hx
    · -- nothing comes after the new rune
      exfalso
      unfold RuneId.Precedes at hprec
      rcases hcases hx' with ⟨rfl, -⟩ | hx'
      · omega
      · have := hbefore hx'
        unfold RuneId.Precedes at this
        omega
    · rcases hcases hx' with ⟨rfl, rfl⟩ | hx'
      · rw [hnumber]
        exact hlt hx
      · exact h.order k x k' x' hx hx' hprec
  · rw [hL', hruns]
    constructor
    · intro hm
      rcases Nat.lt_succ_iff_lt_or_eq.mp hm with hm | rfl
      · obtain ⟨k, x, hx, rfl⟩ := (h.numbers m).mp hm
        have hne : k ≠ d.id := by
          rintro rfl
          have := hbefore hx
          unfold RuneId.Precedes at this
          omega
        exact ⟨k, x, by rw [hentries, FinMap.get?_insert_ne _ _ hne, hx], rfl⟩
      · exact ⟨d.id, e, by rw [hentries, FinMap.get?_insert_self], hnumber⟩
    · rintro ⟨k, x, hx, rfl⟩
      rcases hcases hx with ⟨rfl, rfl⟩ | hx
      · omega
      · exact Nat.lt_succ_of_lt (hlt hx)

theorem etch (h : Numbered done L) {d : Located} (hlast : ∀ d' ∈ done, d'.id.Precedes d.id)
    (hheight : u.height = d.id.block) (hruns : u.runes = L.runes) {tx : Transaction}
    {a : List LotMap} (hstep : Etch lib d.id.tx tx d.txid (L, t, u) a (L', t', u')) :
    Numbered (done ++ [d]) L' ∧ u'.runes = L'.runes := by
  cases hstep with
  | plain _ => exact ⟨h.mono d, hruns⟩
  | unetched _ _ => exact ⟨h.mono d, hruns⟩
  | etched _ _ _ hentry =>
    have hnew := newRuneEntry_eq_ok hentry
    have hpos : (⟨u.height, d.id.tx⟩ : RuneId) = d.id := RuneId.ext hheight rfl
    rw [hpos]
    refine ⟨h.insert (e := RuneEntry.reload _) hlast ?_ rfl (congrArg (· + 1) hruns) rfl, rfl⟩
    exact hnew.number.trans hruns

theorem indexRunes {first : Nat} {chain : List BlockData} {b : BlockData} {i : Nat}
    {tx : Transaction} {txid : Txid} (hget : b.txdata[i]? = some (tx, txid))
    (hheight : u.height = first + chain.length)
    (h : Numbered (doneAt first chain b i) L ∧ u.runes = L.runes)
    (hstep : TxPhases lib i tx txid L u L' u') :
    Numbered (doneAt first chain b (i + 1)) L' ∧ u'.runes = L'.runes := by
  have hlast : ∀ d ∈ doneAt first chain b i, d.id.Precedes ⟨first + chain.length, i⟩ :=
    fun d hd => mem_doneAt_precedes hd
  -- only the etching gives a number, and it is the last position so far
  refine hstep.invariant
    (P := fun L u => u.height = first + chain.length ∧ Numbered (doneAt first chain b i) L ∧
      u.runes = L.runes)
    (M := fun L u => u.height = first + chain.length ∧ Numbered (doneAt first chain b i) L ∧
      u.runes = L.runes)
    (Q := fun L u => Numbered (doneAt first chain b (i + 1)) L ∧ u.runes = L.runes)
    ?_ ?_ ?_ ?_ ?_ ⟨hheight, h⟩
  · rintro input - L t u L' t' u' ⟨hu, hP, hruns⟩ hspend
    cases hspend with
    | absent _ => exact ⟨hu, hP, hruns⟩
    | removed _ _ _ => exact ⟨hu, hP.congr rfl rfl, hruns⟩
  · rintro L t u L' t' u' ⟨hu, hP, hruns⟩ hmint
    cases hmint with
    | absent _ => exact ⟨hu, hP, hruns⟩
    | refused _ _ _ => exact ⟨hu, hP, hruns⟩
    | minted _ _ he _ _ => exact ⟨hu, hP.update he rfl, hruns⟩
  · rintro L t u a L' t' u' ⟨hu, hP, hruns⟩ hetch
    rw [doneAt_succ first chain hget]
    exact hP.etch (d := ⟨⟨first + chain.length, i⟩, tx, txid⟩) hlast hu hruns hetch
  · rintro output L b u L' b' u' ⟨hQ, hruns⟩ houtput
    cases houtput with
    | nothing _ => exact ⟨hQ, hruns⟩
    | burns _ _ _ => exact ⟨hQ, hruns⟩
    | created _ _ _ => exact ⟨hQ.congr rfl rfl, hruns⟩
  · exact fun L u b hQ => hQ

/-- In every state of the loop. -/
theorem of_loopRun {network : BitcoinNetwork} {top : Option Nat} {s : Store}
    (h : LoopRun lib network top s) : ∃ done, Numbered done s.ledger := by
  obtain ⟨lo, fs, -, hJ⟩ := loopRun_journaled h
  refine ⟨_, hJ.invariant
    (P := fun chain L => Numbered (located (lib.firstRuneHeight network) chain) L) ?_ empty ?_⟩
  · intro chain L L' hagrees hP
    exact hP.congr hagrees.entries.symm hagrees.runes.symm
  · intro chain b ord s s' _ hrows hP hrun
    rw [← doneAt_length]
    refine indexBlock_invariant
      (P := fun i L u => Numbered (doneAt (lib.firstRuneHeight network) chain b i) L ∧
        u.runes = L.runes)
      hrows ⟨by rw [doneAt_zero]; exact hP, rfl⟩ ?_ (fun _ _ hP => hP.1) ?_ hrun
    · exact fun i tx txid hget L u L' u' hu hP hstep => Numbered.indexRunes hget hu hP hstep
    · exact fun L id e n hQ he => hQ.update he rfl

/-- The first of the runes has number zero. -/
theorem first (h : Numbered done L) {id : RuneId} {e : RuneEntry}
    (he : L.entries.get? id = some e)
    (hfirst : ∀ id' e', L.entries.get? id' = some e' → ¬ id'.Precedes id) : e.number = 0 := by
  by_contra hne
  have hlt : 0 < L.runes := Nat.zero_lt_of_lt ((h.numbers e.number).mpr ⟨id, e, he, rfl⟩)
  obtain ⟨id', e', he', hzero⟩ := (h.numbers 0).mp hlt
  by_cases hprec : id.Precedes id'
  · have := h.order id e id' e' he he' hprec
    omega
  · obtain rfl : id' = id := by
      have := hfirst id' e' he'
      unfold RuneId.Precedes at *
      exact RuneId.ext (by omega) (by omega)
    rw [he] at he'
    cases he'
    exact hne hzero

end Numbered

end RunesIndexer
