import RunesIndexer.Spec.Names
import RunesIndexer.Spec.Phases
import RunesIndexer.Model.Canister
import RunesIndexer.Model.Sample

/-! # Stored rune entries

    No entry is longer than the bound its map is declared with. What is read back is the
    entry without the spacers that its name has no place for, so an entry survives the
    first time it is stored only if it has none of these, and every later time.
-/

namespace RunesIndexer

open Serial MonadicFold RuneUpdater

/-! ### Length -/

theorem length_writeBounds_le (b : Option Nat × Option Nat) : (writeBounds b).length ≤ 18 := by
  have h₁ : (option (uint 8) b.1).length ≤ 1 + 8 := length_option_le fun n _ => by simp
  have h₂ : (option (uint 8) b.2).length ≤ 1 + 8 := length_option_le fun n _ => by simp
  simp only [writeBounds, List.length_append]
  omega

theorem Terms.length_write_le (t : Terms) : t.write.length ≤ 70 := by
  have h₁ : (option (uint 16) t.amount).length ≤ 1 + 16 := length_option_le fun n _ => by simp
  have h₂ : (option (uint 16) t.cap).length ≤ 1 + 16 := length_option_le fun n _ => by simp
  have h₃ := length_writeBounds_le t.height
  have h₄ := length_writeBounds_le t.offset
  simp only [Terms.write, List.length_append]
  omega

namespace RuneEntry

/-- The fields of a fixed length, and those that vary. -/
theorem length_toBytes (e : RuneEntry) :
    e.toBytes.length = 122 + (chars e.spacedRune.display).length +
      ((option char e.symbol).length + (option Terms.write e.terms).length) := by
  simp only [toBytes, Txid.write, SpacedRune.write, text, List.length_append, length_uint,
    length_bytes, length_bool]
  omega

/-- A name of 28 letters with a spacer after every letter but the last, and all that is
    optional. -/
def longest : RuneEntry where
  block := 840000
  burned := 0
  divisibility := 38
  etching := Txid.allZeros
  mints := 0
  number := 0
  premine := 0
  spacedRune := ⟨⟨u128Bound - 1⟩, 2 ^ 27 - 1⟩
  symbol := some (Char.ofNat 0x10FFFF)
  terms := some ⟨some 1, some 1, (some 0, some 0), (some 0, some 0)⟩
  timestamp := 0
  turbo := true

theorem longest_fits : longest.Fits where
  block := by decide
  burned := by decide
  divisibility := by decide
  mints := by decide
  number := by decide
  premine := by decide
  rune := by decide
  spacers := by decide
  terms t ht := by
    cases ht
    exact ⟨by simp [u128Bound], by simp [u128Bound], by simp [u64Max], by simp [u64Max]⟩
  timestamp := by decide

/-- The bound is never exceeded, so no insertion into the map panics, and it is reached. -/
theorem toBytes_bound :
    (∀ e : RuneEntry, e.Fits → e.toBytes.length ≤ maxSize ∧
      checkBound maxSize e.toBytes = .ok ()) ∧
    ∃ e : RuneEntry, e.Fits ∧ e.toBytes.length = maxSize := by
  have hle : ∀ e : RuneEntry, e.Fits → e.toBytes.length ≤ maxSize := by
    intro e he
    have h₁ := SpacedRune.length_display_le he.rune
    have h₂ : (option char e.symbol).length ≤ 1 + 4 := length_option_le fun c _ => length_char_le c
    have h₃ : (option Terms.write e.terms).length ≤ 1 + 70 :=
      length_option_le fun t _ => t.length_write_le
    rw [e.length_toBytes]
    unfold maxSize
    omega
  refine ⟨fun e he => ⟨hle e he, assertThat_eq_ok.mpr (hle e he)⟩, longest, longest_fits, ?_⟩
  rw [length_toBytes]
  decide

end RuneEntry

/-! ### Reading back -/

theorem Txid.reads (txid : Txid) : Reads Txid.reader txid.write txid := by
  have hfits : txid.toNat < 256 ^ 32 := txid.isLt
  have hlength : (uint 32 txid.toNat).length = 32 := length_uint 32 _
  have hnumber : (readUInt 32).run (uint 32 txid.toNat) = some (txid.toNat, []) :=
    (reads_uint hfits).run
  have hstring := reads_byteString (l := uint 32 txid.toNat) (by rw [hlength]; decide)
  intro rest
  unfold Txid.reader Txid.write
  rw [StateT.run_bind, hstring]
  simp [hlength, hnumber]

/-- The text of a spaced rune is what `reload` reads back. -/
theorem SpacedRune.reads {sr : SpacedRune} (h : sr.rune.n < u128Bound) :
    Reads SpacedRune.reader sr.write sr.reload := by
  have hlength := SpacedRune.length_display_le h
  have htext : Reads readText (text sr.display) sr.display := reads_text (by omega)
  intro rest
  unfold SpacedRune.reader SpacedRune.write
  rw [StateT.run_bind, htext]
  show (liftM (SpacedRune.fromStr sr.display) : Reader SpacedRune).run rest = _
  rw [SpacedRune.fromStr_display h]
  rfl

/-- An optional number that fits `w` bytes. -/
theorem reads_optionUInt {w : Nat} {o : Option Nat} (h : ∀ n, o = some n → n < 256 ^ w) :
    Reads (readOption (readUInt w)) (option (uint w) o) o :=
  reads_option fun n hn => reads_uint (h n hn)

theorem reads_bounds {b : Option Nat × Option Nat}
    (h : (∀ n, b.1 = some n → n ≤ u64Max) ∧ ∀ n, b.2 = some n → n ≤ u64Max) :
    Reads boundsReader (writeBounds b) b := by
  have hmax : u64Max < 256 ^ 8 := by decide
  have hlower := reads_optionUInt (w := 8) fun n hn => lt_of_le_of_lt (h.1 n hn) hmax
  have hupper := reads_optionUInt (w := 8) fun n hn => lt_of_le_of_lt (h.2 n hn) hmax
  exact hlower.bind hupper.last

theorem Terms.reads {t : Terms} (h : t.Fits) : Reads Terms.reader t.write t :=
  (reads_optionUInt h.amount).bind <| (reads_optionUInt h.cap).bind <|
    (reads_bounds h.height).bind (reads_bounds h.offset).last

namespace RuneEntry

/-- Field by field. -/
theorem reads {e : RuneEntry} (h : e.Fits) : Reads reader e.toBytes e.reload := by
  have hmax : u64Max < 256 ^ 8 := by decide
  unfold reader toBytes
  apply (reads_uint (lt_of_le_of_lt h.block hmax)).bind
  apply (reads_uint h.burned).bind
  apply (reads_uint h.divisibility).bind
  apply (Txid.reads e.etching).bind
  apply (reads_uint h.mints).bind
  apply (reads_uint (lt_of_le_of_lt h.number hmax)).bind
  apply (reads_uint h.premine).bind
  apply (SpacedRune.reads h.rune).bind
  apply (reads_option fun c _ => reads_char c).bind
  apply (reads_option fun t ht => Terms.reads (h.terms t ht)).bind
  apply (reads_uint (lt_of_le_of_lt h.timestamp hmax)).bind
  exact (reads_bool e.turbo).last

/-- What the model keeps in the map is what the stored bytes decode to. -/
theorem fromBytes_toBytes {e : RuneEntry} (h : e.Fits) : fromBytes e.toBytes = .ok e.reload := by
  unfold fromBytes
  rw [(reads h).run]

/-- What is etched with a runestone fits its types. -/
structure EtchingFits (etching : Etching) : Prop where
  divisibility : ∀ n, etching.divisibility = some n → n < 2 ^ 8
  premine : ∀ n, etching.premine = some n → n < u128Bound
  spacers : ∀ n, etching.spacers = some n → n < 2 ^ 32
  terms : ∀ t, etching.terms = some t → t.Fits

/-- Every entry that `create_rune_entry` builds fits. -/
theorem newRuneEntry_fits {u : RuneUpdater} {txid : Txid} {artifact : Artifact} {id : RuneId}
    {rune : Rune} {e : RuneEntry} (hid : id.block ≤ u64Max) (hruns : u.runes ≤ u64Max)
    (htime : u.blockTime ≤ u64Max) (hrune : rune.n < u128Bound)
    (hetching : ∀ runestone etching, artifact = .runestone runestone →
      runestone.etching = some etching → EtchingFits etching)
    (h : newRuneEntry u txid artifact id rune = .ok e) : e.Fits := by
  have hzero : 0 < u128Bound := by decide
  unfold newRuneEntry at h
  cases artifact with
  | cenotaph c =>
    cases h
    exact ⟨hid, hzero, by simp, hzero, hruns, hzero, hrune, by simp, by simp, htime⟩
  | runestone r =>
    obtain ⟨etching, hunwrap, h⟩ := except_bind_eq_ok.mp h
    have hfits := hetching r etching rfl (unwrap_eq_ok.mp hunwrap)
    cases h
    refine ⟨hid, hzero, ?_, hzero, hruns, ?_, hrune, ?_, hfits.terms, htime⟩
    · cases hd : etching.divisibility with
      | none => simp
      | some n => exact hfits.divisibility n hd
    · cases hp : etching.premine with
      | none => exact hzero
      | some n => exact hfits.premine n hp
    · cases hs : etching.spacers with
      | none => simp
      | some n => exact hfits.spacers n hs

/-- Only the spacers can change, and they do when one is not before the last letter. -/
theorem reload_eq_iff {e : RuneEntry} (h : e.spacedRune.rune.n < u128Bound) :
    e.reload = e ↔
      e.spacedRune.spacers < 2 ^ (e.spacedRune.rune.display.length - 1) := by
  rw [← Rune.nameLength_eq h]
  constructor
  · intro heq
    have hspacers : e.spacedRune.reload.spacers = e.spacedRune.spacers :=
      congrArg (fun e : RuneEntry => e.spacedRune.spacers) heq
    rw [← hspacers]
    exact Nat.mod_lt _ (Nat.two_pow_pos _)
  · intro hlt
    simp [reload, SpacedRune.reload, Nat.mod_eq_of_lt hlt]

/-- A stored entry is read back without a panic. It is the entry that was stored exactly if
    no spacer of it is at or after the last letter of its name, and whatever is stored after
    changing other fields of the entry that was read is read back as it is. -/
theorem fromBytes_toBytes_iff {e : RuneEntry} (h : e.Fits) :
    (fromBytes e.toBytes = .ok e ↔
      e.spacedRune.spacers < 2 ^ (e.spacedRune.rune.display.length - 1)) ∧
    ∃ e₁, fromBytes e.toBytes = .ok e₁ ∧
      ∀ e₂ : RuneEntry, e₂.Fits → e₂.spacedRune = e₁.spacedRune →
        fromBytes e₂.toBytes = .ok e₂ := by
  refine ⟨?_, e.reload, fromBytes_toBytes h, ?_⟩
  · rw [fromBytes_toBytes h, Except.ok.injEq]
    exact reload_eq_iff h.rune
  · intro e₂ h₂ hspaced
    -- a spaced rune that was read has no other spacers left
    have hreload : e₂.reload = e₂ := by
      have hidem : e₂.spacedRune.reload = e₂.spacedRune := by
        rw [hspaced]
        exact SpacedRune.reload_reload _
      simp [reload, hidem]
    rw [fromBytes_toBytes h₂, hreload]

/-- The entry of UNCOMMON GOODS, whose name has one spacer. -/
theorem fromBytes_toBytes_iff_sample :
    fromBytes Store.uncommonGoodsEntry.toBytes = .ok Store.uncommonGoodsEntry := by
  have hfits : Store.uncommonGoodsEntry.Fits := {
    block := by decide
    burned := by decide
    divisibility := by decide
    mints := by decide
    number := by decide
    premine := by decide
    rune := by decide
    spacers := by decide
    terms := by
      intro t ht
      cases ht
      exact ⟨by simp [u128Bound], by simp [u128Bound], by simp [u64Max, Store.subsidyHalvingInterval],
        by simp [u64Max]⟩
    timestamp := by decide }
  exact (fromBytes_toBytes_iff hfits).1.mpr (by decide)

/-- A one-letter name etched with a spacer after its only letter. -/
def spacedLetterEtching : Etching where
  divisibility := none
  premine := none
  rune := some ⟨25⟩
  spacers := some 1
  symbol := none
  terms := none
  turbo := false

/-- The spacer is lost. -/
theorem fromBytes_drops_spacer :
    ∃ e, newRuneEntry Sample.updater 1 (.runestone ⟨[], some spacedLetterEtching, none, none⟩)
        ⟨0, 1⟩ ⟨25⟩ = .ok e ∧ e.Fits ∧ e.spacedRune.spacers < 2 ^ 27 ∧
      fromBytes e.toBytes ≠ .ok e := by
  obtain ⟨e, he⟩ : ∃ e, newRuneEntry Sample.updater 1
      (.runestone ⟨[], some spacedLetterEtching, none, none⟩) ⟨0, 1⟩ ⟨25⟩ = .ok e := ⟨_, rfl⟩
  have hfits : e.Fits := newRuneEntry_fits (by decide) (by decide) (by decide) (by decide)
    (fun runestone etching h h' => by
      cases h
      cases h'
      exact ⟨by simp [spacedLetterEtching], by simp [spacedLetterEtching],
        by simp [spacedLetterEtching], by simp [spacedLetterEtching]⟩) he
  refine ⟨e, he, hfits, ?_, ?_⟩
  · cases he
    decide
  · rw [fromBytes_toBytes hfits]
    cases he
    decide

end RuneEntry

end RunesIndexer
