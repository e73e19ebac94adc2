import RunesIndexer.Model.Memory
import RunesIndexer.Spec.Lookup
import RunesIndexer.Spec.Stored

/-! # Balances and change records are read back

    What is written of a balance list or of a change record is read back as it is, as long
    as its numbers fit their types and its lists a `Vec`. The order in which the hash maps
    were written does not matter.
-/

namespace RunesIndexer

open Serial

/-! ### Texts -/

theorem Rune.reads {r : Rune} (h : r.Fits) : Reads Rune.reader r.write r := by
  have hlength := length_chars_le r.display
  have hle := Rune.length_display_le h
  have htext : Reads readText (text r.display) r.display := reads_text (by omega)
  intro rest
  unfold Rune.reader Rune.write
  rw [StateT.run_bind, htext]
  show (liftM (Rune.fromStr r.display) : Reader Rune).run rest = _
  rw [Rune.fromStr_display h]
  rfl

/-- An id is at most 31 characters long. -/
theorem RuneId.length_display_le {id : RuneId} (h : id.Fits) : id.display.length ≤ 31 := by
  have hmax : u64Max < 10 ^ 20 := by decide
  have hblock : (Nat.toDigits 10 id.block).length ≤ 20 :=
    (Nat.length_toDigits_le_iff (by decide) (by decide)).mpr (lt_of_le_of_lt h.block hmax)
  have htx : (Nat.toDigits 10 id.tx).length ≤ 10 :=
    (Nat.length_toDigits_le_iff (by decide) (by decide)).mpr (h.tx.trans (by decide))
  unfold RuneId.display
  simp only [List.length_append, List.length_cons]
  omega

theorem RuneId.reads {id : RuneId} (h : id.Fits) : Reads RuneId.reader id.write id := by
  have hlength := length_chars_le id.display
  have hle := RuneId.length_display_le h
  have htext : Reads readText (text id.display) id.display := reads_text (by omega)
  have hblock : id.block < Rpc.u64Bound := lt_of_le_of_lt h.block (by decide)
  intro rest
  unfold RuneId.reader RuneId.write
  rw [StateT.run_bind, htext]
  show (liftM (RuneId.fromStr id.display) : Reader RuneId).run rest = _
  rw [RuneId.fromStr_display hblock h.tx]
  rfl

/-! ### Records -/

theorem OutPoint.reads_write {o : OutPoint} (h : o.Fits) : Reads OutPoint.reader o.write o :=
  (Txid.reads o.txid).bind (reads_uint h).last

theorem RuneBalance.reads {b : RuneBalance} (h : b.Fits) :
    Reads RuneBalance.reader b.write b :=
  (RuneId.reads h.runeId).bind (reads_uint h.balance).last

/-- A `Vec` whose elements are read back. -/
theorem reads_vec {α : Type} {r : Reader α} {write : α → List UInt8} {l : List α}
    (hlength : l.length < usizeBound) (h : ∀ a ∈ l, Reads r (write a) a) :
    Reads (readVec r) (list write l) l :=
  reads_list hlength (by decide) h

theorem RuneBalances.reads {l : RuneBalances} (h : l.Fits) :
    Reads RuneBalances.reader l.toBytes l :=
  reads_vec h.length fun b hb => RuneBalance.reads (h.balances b hb)

/-- Whatever order the map was written in, it is the same map again. -/
theorem LotMap.reads (order : MapOrder) {m : LotMap} (h : m.Fits) :
    Reads LotMap.reader (LotMap.write order m) m := by
  have hperm := order.iter_perm m
  have hlength : (order.iter m).length < usizeBound := by
    have hcard := congrArg Multiset.card hperm
    rw [Multiset.coe_card] at hcard
    rw [hcard]
    exact h.size
  have hentries : ∀ e ∈ order.iter m,
      Reads (readPair RuneId.reader (readUInt 16)) (pair RuneId.write (uint 16) e) e := by
    intro e he
    have hget : m.get? e.1 = some e.2 := by
      rw [FinMap.get?_eq_some, ← hperm]
      exact Multiset.mem_coe.mpr he
    obtain ⟨hid, hamount⟩ := h.amounts e.1 e.2 hget
    exact reads_pair (RuneId.reads hid) (reads_uint hamount)
  have hlast := (reads_vec hlength hentries).last (f := FinMap.ofList)
  rwa [FinMap.ofList_eq hperm] at hlast

namespace ChangeRecord

/-- Field by field. -/
theorem reads (order : MapOrder) {r : ChangeRecord} (h : r.Fits) :
    Reads reader (r.toBytes order) r := by
  unfold reader toBytes
  refine (reads_vec h.removedLength fun e he => ?_).bind ?_
  · obtain ⟨ho, hl, hheight⟩ := h.removed e he
    exact reads_pair (OutPoint.reads_write ho) (reads_pair (RuneBalances.reads hl)
      (reads_uint hheight))
  refine (reads_vec h.addedLength fun o ho => OutPoint.reads_write (h.added o ho)).bind ?_
  refine (LotMap.reads order h.burned).bind ?_
  refine (LotMap.reads order h.mints).bind ?_
  refine (reads_vec h.runesLength fun e he => ?_).last
  obtain ⟨hrune, hid⟩ := h.runes e he
  exact reads_pair (Rune.reads hrune) (reads_pair (RuneId.reads hid) (Txid.reads e.2.2))

theorem fromBytes_toBytes (order : MapOrder) {r : ChangeRecord} (h : r.Fits) :
    fromBytes (r.toBytes order) = .ok r := by
  unfold fromBytes
  rw [(reads order h).run]

end ChangeRecord

theorem RuneBalances.fromBytes_toBytes {l : RuneBalances} (h : l.Fits) :
    fromBytes l.toBytes = .ok l := by
  unfold fromBytes
  rw [(RuneBalances.reads h).run]

end RunesIndexer
